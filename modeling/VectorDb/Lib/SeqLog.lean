import Mathlib

/-!
# A sequence that begins at an index

* `SeqLog` : the entries from the index `start` on;
* `append`, `extend`, `writeAt`, `compact`, `slice` : the operations of a replicated log;
* `get?_append`, `get?_extend`, `get?_writeAt`, `get?_compact` : the entry at an index after each;
* `ReachedBy` : the shortest prefix of a list whose sizes reach a bound.
-/

namespace VectorDb

variable {α : Type}

structure SeqLog (α : Type) where
  start : Nat
  entries : List α

namespace SeqLog
variable (l : SeqLog α)

/-- The index after the last entry. -/
def next : Nat := l.start + l.entries.length

def get? (i : Nat) : Option α := if l.start ≤ i then l.entries[i - l.start]? else none

def append (a : α) : SeqLog α := { l with entries := l.entries ++ [a] }

def extend (as : List α) : SeqLog α := { l with entries := l.entries ++ as }

/-- The entries below `i`, and then `a`. -/
def writeAt (i : Nat) (a : α) : SeqLog α := { l with entries := l.entries.take (i - l.start) ++ [a] }

/-- The entries above `n`. -/
def compact (n : Nat) : SeqLog α := if l.start ≤ n then ⟨n + 1, l.entries.drop (n + 1 - l.start)⟩ else l

/-- The entries from `i` up to `j`. -/
def slice (i j : Nat) : List α := (l.entries.drop (i - l.start)).take (j - i)

variable {l} {i j : Nat}

theorem get?_eq_none_iff : l.get? i = none ↔ i < l.start ∨ l.next ≤ i := by
  unfold get? next
  split
  · rw [List.getElem?_eq_none_iff]
    omega
  · simp only [true_iff]
    omega

theorem isSome_get?_iff : (l.get? i).isSome = true ↔ l.start ≤ i ∧ i < l.next := by
  rw [Option.isSome_iff_ne_none, ne_eq, get?_eq_none_iff]
  omega

theorem get?_extend (as : List α) (i : Nat) :
    (l.extend as).get? i = if l.next ≤ i then as[i - l.next]? else l.get? i := by
  have hstart : (l.extend as).start = l.start := rfl
  have hentries : (l.extend as).entries = l.entries ++ as := rfl
  unfold get? next
  rw [hstart, hentries]
  by_cases hi : l.start ≤ i
  · rw [if_pos hi, if_pos hi]
    split
    · rw [List.getElem?_append_right (by omega)]
      congr 1
      omega
    · rw [List.getElem?_append_left (by omega)]
  · rw [if_neg hi, if_neg hi, if_neg (by omega)]

theorem get?_append (a : α) (i : Nat) : (l.append a).get? i = if i = l.next then some a else l.get? i := by
  have h : (l.append a).get? i = _ := get?_extend [a] i
  rw [h]
  by_cases hi : i = l.next
  · rw [if_pos hi, if_pos (Nat.le_of_eq hi.symm), hi, Nat.sub_self, List.getElem?_cons_zero]
  · rw [if_neg hi]
    split
    · rw [List.getElem?_eq_none_iff.mpr (by simp only [List.length_singleton]; omega), get?_eq_none_iff.mpr (by omega)]
    · rfl

theorem get?_writeAt (hi : l.start ≤ i ∧ i ≤ l.next) (a : α) (j : Nat) :
    (l.writeAt i a).get? j = if j = i then some a else if j < i then l.get? j else none := by
  have hlen : (l.entries.take (i - l.start)).length = i - l.start := by
    rw [List.length_take]
    unfold next at hi
    omega
  have hnext : SeqLog.next ⟨l.start, l.entries.take (i - l.start)⟩ = i := by
    show l.start + (l.entries.take (i - l.start)).length = i
    rw [hlen]
    omega
  have h : (l.writeAt i a).get? j = _ := get?_append (l := ⟨l.start, l.entries.take (i - l.start)⟩) a j
  rw [h, hnext]
  congr 1
  unfold get?
  by_cases hj : l.start ≤ j
  · rw [if_pos hj, if_pos hj, List.getElem?_take]
    congr 1
    simp only [eq_iff_iff]
    omega
  · rw [if_neg hj, if_neg hj, ite_self]

theorem get?_compact (n i : Nat) : (l.compact n).get? i = if i ≤ n then none else l.get? i := by
  unfold compact
  split
  · rename_i hn
    unfold get?
    simp only
    by_cases hi : i ≤ n
    · rw [if_neg (by omega), if_pos hi]
    · rw [if_pos (by omega), if_neg hi, if_pos (by omega), List.getElem?_drop]
      congr 1
      omega
  · rename_i hn
    split
    · exact get?_eq_none_iff.mpr (by omega)
    · rfl

/-- A slice begins with its first entry. -/
theorem slice_cons (hij : i < j) {a : α} (ha : l.get? i = some a) : l.slice i j = a :: l.slice (i + 1) j := by
  have hi : l.start ≤ i := (isSome_get?_iff.mp (by rw [ha]; rfl)).1
  rw [get?, if_pos hi] at ha
  obtain ⟨hlt, rfl⟩ := List.getElem?_eq_some_iff.mp ha
  obtain ⟨n, hn⟩ : ∃ n, j - i = n + 1 := ⟨j - i - 1, by omega⟩
  unfold slice
  rw [hn, List.drop_eq_getElem_cons hlt, List.take_succ_cons, show j - (i + 1) = n by omega,
    show i + 1 - l.start = i - l.start + 1 by omega]

theorem slice_of_le (h : j ≤ i) : l.slice i j = [] := by
  rw [slice, Nat.sub_eq_zero_of_le h, List.take_zero]

theorem getLast?_entries (h : l.entries ≠ []) : l.entries.getLast? = l.get? (l.next - 1) := by
  have hpos : 0 < l.entries.length := List.length_pos_of_ne_nil h
  rw [List.getLast?_eq_getElem?, get?, next, if_pos (by omega)]
  congr 1
  omega

end SeqLog

/-! ## Sizes -/

/-- `p` is the part of `l` up to the first entry at which the sizes add up to `bound`, or all of `l`. -/
structure ReachedBy (size : α → Nat) (bound : Nat) (p l : List α) : Prop where
  isPrefix : p <+: l
  below : ∀ q, q <+: p → q ≠ p → (q.map size).sum < bound
  reached : p = l ∨ bound ≤ (p.map size).sum

namespace ReachedBy
variable {size : α → Nat} {bound : Nat} {p l : List α}

theorem nil : ReachedBy size bound [] [] :=
  ⟨List.prefix_rfl, fun _ hq hne => absurd (List.prefix_nil.mp hq) hne, Or.inl rfl⟩

/-- The first entry reaches the bound. -/
theorem singleton {a : α} (hb : 0 < bound) (h : bound ≤ size a) : ReachedBy size bound [a] (a :: l) where
  isPrefix := ⟨l, rfl⟩
  below q hq hne := by
    rcases List.prefix_concat_iff.mp (show q <+: [] ++ [a] from hq) with h | h
    · exact absurd h hne
    · rw [List.prefix_nil.mp h]
      exact hb
  reached := Or.inr (by simpa using h)

/-- The first entry does not reach the bound, and the rest of it is left for the others. -/
theorem cons {a : α} (h : size a < bound) (hp : ReachedBy size (bound - size a) p l) :
    ReachedBy size bound (a :: p) (a :: l) where
  isPrefix := List.cons_prefix_cons.mpr ⟨rfl, hp.isPrefix⟩
  below q hq hne := by
    cases q with
    | nil => exact Nat.zero_lt_of_lt h
    | cons b q =>
      obtain ⟨hba, hqp⟩ := List.cons_prefix_cons.mp hq
      subst hba
      have := hp.below q hqp fun he => hne (he ▸ rfl)
      rw [List.map_cons, List.sum_cons]
      omega
  reached := by
    rcases hp.reached with h | h
    · exact Or.inl (h ▸ rfl)
    · refine Or.inr ?_
      rw [List.map_cons, List.sum_cons]
      omega

end ReachedBy
end VectorDb
