import VectorDb.Lib.Nearest

/-!
# A queue whose top is the greatest element

* `PriorityQueue` : the elements in the order in which they leave;
* `push`, `pop`, `top?`, `drain` : the operations, and the queue emptied from its top;
* `pushBounded` : a push that pops again when there are more than `k` elements;
* `keeps_foldl` : pushing so keeps the `k` least elements of all that came.
-/

namespace VectorDb

variable {α : Type} [LinearOrder α]

/-- The greatest element comes first. -/
structure PriorityQueue (α : Type) [LinearOrder α] where
  items : List α
  sorted : items.Pairwise fun a b => b ≤ a

namespace PriorityQueue

def empty : PriorityQueue α := ⟨[], List.Pairwise.nil⟩

def size (q : PriorityQueue α) : Nat := q.items.length

def top? (q : PriorityQueue α) : Option α := q.items.head?

def push (q : PriorityQueue α) (a : α) : PriorityQueue α where
  items := q.items.orderedInsert (fun a b => b ≤ a) a
  sorted := by
    have htotal : Std.Total fun a b : α => b ≤ a := ⟨fun a b => le_total b a⟩
    have htrans : IsTrans α fun a b => b ≤ a := ⟨fun _ _ _ hab hbc => hbc.trans hab⟩
    exact q.sorted.orderedInsert _ _

def pop (q : PriorityQueue α) : PriorityQueue α := ⟨q.items.tail, q.sorted.tail⟩

/-- `n` elements from the top. -/
def take (q : PriorityQueue α) : Nat → List α
  | 0 => []
  | n + 1 =>
    match q.top? with
    | none => []
    | some a => a :: q.pop.take n

/-- All elements from the top. -/
def drain (q : PriorityQueue α) : List α := q.take q.size

/-- A push that keeps at most `k` elements. -/
def pushBounded (k : Nat) (q : PriorityQueue α) (a : α) : PriorityQueue α :=
  if k < (q.push a).size then (q.push a).pop else q.push a

@[simp] theorem items_pop (q : PriorityQueue α) : q.pop.items = q.items.tail := rfl

theorem size_eq (q : PriorityQueue α) : q.size = q.items.length := rfl

theorem take_eq (q : PriorityQueue α) (n : Nat) : q.take n = q.items.take n := by
  induction n generalizing q with
  | zero => rfl
  | succ n ih =>
    unfold take top?
    cases hq : q.items with
    | nil => rfl
    | cons a items => simp only [List.head?_cons, ih, items_pop, hq, List.tail_cons, List.take_succ_cons]

theorem drain_eq (q : PriorityQueue α) : q.drain = q.items := by
  rw [drain, take_eq, size, List.take_length]

theorem perm_push (q : PriorityQueue α) (a : α) : (q.push a).items.Perm (a :: q.items) :=
  List.perm_orderedInsert _ a q.items

theorem size_push (q : PriorityQueue α) (a : α) : (q.push a).size = q.items.length + 1 := (q.perm_push a).length_eq

/-- The queue holds the `k` least elements of `all`. -/
def Keeps (k : Nat) (all : List α) (q : PriorityQueue α) : Prop := Nearest (fun a => a) k all q.items.reverse

theorem keeps_empty (k : Nat) : Keeps k ([] : List α) empty := by
  refine ⟨?_, List.Pairwise.nil, [], List.Perm.nil, fun a ha => by cases ha⟩
  simp [empty]

/-- A popped element is above those that stay and those that went before. -/
theorem le_of_popped {m a x b : α} {items old rest : List α} (hpush : (m :: items).Perm (a :: old))
    (hm : ∀ y ∈ items, y ≤ m) (hrest : ∀ y ∈ old, ∀ z ∈ rest, y ≤ z) (hx : x ∈ items) (hb : b ∈ m :: rest) : x ≤ b := by
  rcases List.mem_cons.mp hb with rfl | hb
  · exact hm x hx
  · rcases List.mem_cons.mp (hpush.subset (List.mem_cons_of_mem m hx)) with rfl | hold
    · -- the new element stays, so an old one was popped
      have hmold : m ∈ old := by
        have herase := hpush.erase x
        rw [List.erase_cons_head] at herase
        apply herase.subset
        by_cases hmx : m = x
        · rw [hmx, List.erase_cons_head]
          exact hx
        · rw [List.erase_cons_tail (by simpa using hmx)]
          exact List.mem_cons_self
      exact (hm x hx).trans (hrest m hmold b hb)
    · exact hrest x hold b hb

/-- **One bounded push** keeps the least elements. -/
theorem Keeps.pushBounded {k : Nat} {all : List α} {q : PriorityQueue α} (h : Keeps k all q) (a : α) :
    Keeps k (all ++ [a]) (q.pushBounded k a) := by
  obtain ⟨hlen, -, rest, hperm, hle⟩ := h
  rw [List.length_reverse] at hlen
  have hsize := q.size_push a
  have hall : (q.items.reverse ++ rest).length = all.length := hperm.length_eq
  rw [List.length_append, List.length_reverse] at hall
  have hnew : ((q.push a).items ++ rest).Perm (all ++ [a]) := by
    have hold : (q.items ++ rest).Perm all := (q.items.reverse_perm.symm.append_right rest).trans hperm
    exact (((q.perm_push a).append_right rest).trans (hold.cons a)).trans (List.perm_append_singleton a all).symm
  unfold PriorityQueue.pushBounded
  by_cases hk : k < (q.push a).size
  · rw [if_pos hk]
    obtain ⟨m, items, hitems⟩ := List.exists_cons_of_length_pos (Nat.zero_lt_of_lt hk)
    have hsorted := (q.push a).sorted
    have hpush := q.perm_push a
    rw [size_eq, hitems, List.length_cons] at hsize hk
    rw [hitems] at hnew hsorted hpush
    rw [List.pairwise_cons] at hsorted
    unfold Keeps
    rw [items_pop, hitems, List.tail_cons]
    refine ⟨?_, ?_, m :: rest, ?_, ?_⟩
    · rw [List.length_reverse, List.length_append, List.length_singleton]
      omega
    · rw [List.pairwise_reverse]
      exact hsorted.2
    · exact (List.perm_middle.trans ((items.reverse_perm.append_right rest).cons m)).trans hnew
    · intro x hx b hb
      refine le_of_popped hpush hsorted.1 (fun y hy z hz => ?_) (List.mem_reverse.mp hx) hb
      exact hle y (List.mem_reverse.mpr hy) z hz
  · rw [if_neg hk]
    -- there was room, so nothing had been popped
    obtain rfl : rest = [] := by
      apply List.eq_nil_of_length_eq_zero
      omega
    rw [List.append_nil] at hnew
    refine ⟨?_, ?_, [], ?_, fun x _ b hb => by cases hb⟩
    · rw [List.length_reverse, ← size_eq, List.length_append, List.length_singleton]
      omega
    · rw [List.pairwise_reverse]
      exact (q.push a).sorted
    · rw [List.append_nil]
      exact (List.reverse_perm _).trans hnew

/-- **Bounded pushes** keep the `k` least elements of all that came. -/
theorem keeps_foldl (k : Nat) (all : List α) : Keeps k all (all.foldl (pushBounded k) empty) := by
  induction all using List.reverseRecOn with
  | nil => exact keeps_empty k
  | append_singleton all a ih =>
    rw [List.foldl_append]
    exact ih.pushBounded a

end PriorityQueue
end VectorDb
