import Mathlib

/-!
# Last writer wins

* `lastFor key k l` : the last element of a log with a key;
* `above id c l` : the elements of a log above a cutoff;
* `Covers id c p l` : `p` is a beginning of `l` that has everything up to the cutoff;
* `lastFor_above_or` : what lies above a cutoff, replayed over a beginning that covers it, ends as the whole log.
-/

namespace VectorDb

variable {α β κ : Type} [DecidableEq κ]

/-- The last element with a key. -/
def lastFor (key : α → κ) (k : κ) (l : List α) : Option α := (l.filter fun a => key a = k).getLast?

section
variable (key : α → κ) (k : κ)

@[simp] theorem lastFor_nil : lastFor key k [] = none := rfl

theorem lastFor_append (l m : List α) : lastFor key k (l ++ m) = (lastFor key k m).or (lastFor key k l) := by
  rw [lastFor, List.filter_append, List.getLast?_append]
  rfl

theorem lastFor_concat (l : List α) (a : α) :
    lastFor key k (l ++ [a]) = if key a = k then some a else lastFor key k l := by
  rw [lastFor_append, lastFor, List.filter_singleton]
  by_cases h : key a = k <;> simp [h]

theorem lastFor_map (f : β → α) (l : List β) :
    lastFor key k (l.map f) = (lastFor (fun b => key (f b)) k l).map f := by
  rw [lastFor, lastFor, List.filter_map, List.getLast?_map]
  rfl

variable {key k}

theorem lastFor_eq_none {l : List α} : lastFor key k l = none ↔ ∀ a ∈ l, key a ≠ k := by
  rw [lastFor, List.getLast?_eq_none_iff, List.filter_eq_nil_iff]
  simp

theorem lastFor_mem {l : List α} {a : α} (h : lastFor key k l = some a) : a ∈ l ∧ key a = k := by
  have ha := List.mem_of_getLast? h
  rw [List.mem_filter] at ha
  exact ⟨ha.1, by simpa using ha.2⟩

theorem exists_lastFor {l : List α} {a : α} (ha : a ∈ l) (hk : key a = k) : ∃ b, lastFor key k l = some b := by
  cases h : lastFor key k l with
  | none => exact absurd hk (lastFor_eq_none.mp h a ha)
  | some b => exact ⟨b, rfl⟩

end

/-! ## A cutoff -/

section
variable (id : α → Nat) (c : Nat)

/-- The elements above a cutoff. -/
def above (l : List α) : List α := l.filter fun a => c < id a

/-- `p` is a beginning of `l` with every element up to the cutoff. -/
structure Covers (p l : List α) : Prop where
  initial : p <+: l
  mem_of_le : ∀ a ∈ l, id a ≤ c → a ∈ p

variable {id c}

theorem Covers.refl (l : List α) : Covers id c l l := ⟨List.prefix_rfl, fun _ ha _ => ha⟩

/-- Elements above the cutoff do not matter. -/
theorem Covers.append {p l m : List α} (h : Covers id c p l) (hm : ∀ a ∈ m, c < id a) : Covers id c p (l ++ m) := by
  refine ⟨h.initial.trans (List.prefix_append l m), fun a ha hle => ?_⟩
  rcases List.mem_append.mp ha with ha | ha
  · exact h.mem_of_le a ha hle
  · exact absurd (hm a ha) (Nat.not_lt.mpr hle)

theorem above_concat (l : List α) (a : α) :
    above id c (l ++ [a]) = if c < id a then above id c l ++ [a] else above id c l := by
  rw [above, List.filter_append, List.filter_singleton]
  by_cases h : c < id a <;> simp [h, above]

/-- The last element above the cutoff is the last one of all. -/
theorem lastFor_of_above {key : α → κ} {k : κ} {l : List α} (hs : l.Pairwise fun a b => id a < id b) {a : α}
    (h : lastFor key k (above id c l) = some a) : lastFor key k l = some a := by
  induction l using List.reverseRecOn with
  | nil => exact h
  | append_singleton l b ih =>
    rw [List.pairwise_append] at hs
    have hlb : ∀ x ∈ l, id x < id b := fun x hx => hs.2.2 x hx b (List.mem_singleton_self b)
    rw [above_concat] at h
    rw [lastFor_concat]
    by_cases hb : c < id b
    · rw [if_pos hb, lastFor_concat] at h
      split
      · rename_i hk
        rwa [if_pos hk] at h
      · rename_i hk
        rw [if_neg hk] at h
        exact ih hs.1 h
    · -- nothing before `b` is above the cutoff either
      have hnil : above id c l = [] := by
        rw [above, List.filter_eq_nil_iff]
        intro x hx
        have := hlb x hx
        simp only [decide_eq_true_eq]
        omega
      rw [if_neg hb, hnil] at h
      cases h

/-- **A replay above the cutoff**, over a beginning that covers it, has the last writers of the whole log. -/
theorem lastFor_above_or {p l : List α} (hs : l.Pairwise fun a b => id a < id b) (hc : Covers id c p l)
    (key : α → κ) (k : κ) : (lastFor key k (above id c l)).or (lastFor key k p) = lastFor key k l := by
  obtain ⟨q, rfl⟩ := hc.initial
  rw [List.pairwise_append] at hs
  have hq : above id c q = q := by
    apply List.filter_eq_self.mpr
    intro a ha
    by_contra hle
    have hp := hc.mem_of_le a (List.mem_append_right p ha) (by simpa using hle)
    exact absurd (hs.2.2 a hp a ha) (Nat.lt_irrefl _)
  have habove : above id c (p ++ q) = above id c p ++ q := by
    rw [above, List.filter_append]
    exact congrArg _ hq
  rw [habove, lastFor_append, lastFor_append, Option.or_assoc]
  congr 1
  cases h : lastFor key k (above id c p) with
  | none => rfl
  | some a => rw [Option.some_or, lastFor_of_above hs.1 h]

end

end VectorDb
