import VectorDb.Lib.PriorityQueue

/-!
# Best-first search of trees

* `LeafTree` : a binary tree with a list at each leaf;
* `Unfolds` : a name stands for a tree, where `expand` gives the list of a leaf or the names of two children (or nothing,
  where the name stands for nothing);
* `bestFirst` : names leave a queue from its top, until enough is found or nothing is left;
* `exists_bestFirst` : every leaf is found at most once, and where one is missing, there was enough;
* `mem_visited_of_le` : nothing is missing where the limit is no smaller than the leaves together.
-/

namespace VectorDb

variable {α β : Type}

/-- A binary tree with a list at each leaf. -/
inductive LeafTree (β : Type) where
  | leaf (found : List β)
  | node (left right : LeafTree β)

namespace LeafTree

def leaves : LeafTree β → List (List β)
  | leaf found => [found]
  | node left right => left.leaves ++ right.leaves

/-- The number of nodes, leaves included. -/
def size : LeafTree β → Nat
  | leaf _ => 1
  | node left right => left.size + right.size + 1

/-- Everything at the leaves, from left to right. -/
def elems (t : LeafTree β) : List β := t.leaves.flatten

@[simp] theorem elems_leaf (found : List β) : (leaf found).elems = found := List.flatten_singleton

@[simp] theorem elems_node (left right : LeafTree β) : (node left right).elems = left.elems ++ right.elems :=
  List.flatten_append

end LeafTree

/-- `a` is the name of a tree. -/
inductive Unfolds (expand : α → Option (List β ⊕ α × α)) : α → LeafTree β → Prop where
  | leaf {a : α} {found : List β} (h : expand a = some (.inl found)) : Unfolds expand a (.leaf found)
  | node {a l r : α} {left right : LeafTree β} (h : expand a = some (.inr (l, r))) (hl : Unfolds expand l left)
      (hr : Unfolds expand r right) : Unfolds expand a (.node left right)

/-- What a name stands for is still there where `expand` knows more names. -/
theorem Unfolds.mono {expand expand' : α → Option (List β ⊕ α × α)} (he : ∀ a x, expand a = some x → expand' a = some x)
    {a : α} {t : LeafTree β} (h : Unfolds expand a t) : Unfolds expand' a t := by
  induction h with
  | leaf h => exact leaf (he _ _ h)
  | node h _ _ ihl ihr => exact node (he _ _ h) ihl ihr

variable [LinearOrder α] {expand : α → Option (List β ⊕ α × α)} {limit : Nat}

/-- The search, for at most `fuel` rounds; `none` where they do not suffice, or a name stands for nothing. -/
def bestFirst (expand : α → Option (List β ⊕ α × α)) (limit : Nat) : Nat → PriorityQueue α → List β → Option (List β)
  | 0, q, found => if found.length < limit ∧ q.top?.isSome then none else some found
  | fuel + 1, q, found =>
    if found.length < limit then
      match q.top? with
      | none => some found
      | some a =>
        match expand a with
        | none => none
        | some (.inl bs) => bestFirst expand limit fuel q.pop (found ++ bs)
        | some (.inr (l, r)) => bestFirst expand limit fuel ((q.pop.push r).push l) found
    else some found

/-! ## What is left in the queue -/

theorem items_eq_cons_of_top {q : PriorityQueue α} {a : α} (h : q.top? = some a) : q.items = a :: q.pop.items :=
  List.eq_cons_of_mem_head? h

theorem items_eq_nil_of_top {q : PriorityQueue α} (h : q.top? = none) : q.items = [] := List.head?_eq_none_iff.mp h

omit [LinearOrder α] in
/-- Trees that stand in another order, for a queue that does. -/
theorem exists_unfolds_of_perm {as bs : List α} {ts : List (LeafTree β)} (hperm : as.Perm bs)
    (h : List.Forall₂ (Unfolds expand) bs ts) : ∃ us, List.Forall₂ (Unfolds expand) as us ∧ us.Perm ts :=
  List.perm_comp_forall₂ hperm h

/-- Two children take the place of their parent. -/
theorem exists_unfolds_push {q : PriorityQueue α} {l r : α} {left right : LeafTree β} {ts : List (LeafTree β)}
    (hl : Unfolds expand l left) (hr : Unfolds expand r right) (h : List.Forall₂ (Unfolds expand) q.items ts) :
    ∃ us, List.Forall₂ (Unfolds expand) ((q.push r).push l).items us ∧ us.Perm (left :: right :: ts) := by
  have hperm : ((q.push r).push l).items.Perm (l :: r :: q.items) :=
    ((q.push r).perm_push l).trans ((q.perm_push r).cons l)
  exact exists_unfolds_of_perm hperm ((h.cons hr).cons hl)

/-! ## The search -/

theorem bestFirst_of_le (fuel : Nat) (q : PriorityQueue α) {found : List β} (h : limit ≤ found.length) :
    bestFirst expand limit fuel q found = some found := by
  cases fuel with
  | zero => rw [bestFirst, if_neg fun hlt => absurd hlt.1 (Nat.not_lt.mpr h)]
  | succ fuel => rw [bestFirst, if_neg (Nat.not_lt.mpr h)]

theorem bestFirst_of_nil (fuel : Nat) {q : PriorityQueue α} (h : q.items = []) (found : List β) :
    bestFirst expand limit fuel q found = some found := by
  have htop : q.top? = none := List.head?_eq_none_iff.mpr h
  cases fuel with
  | zero => simp [bestFirst, htop]
  | succ fuel => simp [bestFirst, htop]

theorem LeafTree.size_pos (t : LeafTree β) : 0 < t.size := by
  cases t with
  | leaf found => exact Nat.one_pos
  | node left right => exact Nat.succ_pos _

/-- **The search ends**: it has found some leaves whole, and where others are left, there was enough. -/
theorem exists_bestFirst (limit fuel : Nat) {q : PriorityQueue α} {ts : List (LeafTree β)}
    (h : List.Forall₂ (Unfolds expand) q.items ts) (hfuel : (ts.map LeafTree.size).sum ≤ fuel) (found : List β) :
    ∃ visited rest : List (List β), bestFirst expand limit fuel q found = some (found ++ visited.flatten) ∧
      (visited ++ rest).Perm (ts.flatMap LeafTree.leaves) ∧
      (rest ≠ [] → limit ≤ (found ++ visited.flatten).length) := by
  induction fuel generalizing q ts found with
  | zero =>
    obtain rfl : ts = [] := by
      cases ts with
      | nil => rfl
      | cons t ts =>
        have hpos := t.size_pos
        rw [List.map_cons, List.sum_cons] at hfuel
        omega
    refine ⟨[], [], ?_, List.Perm.refl _, fun hne => absurd rfl hne⟩
    rw [List.flatten_nil, List.append_nil]
    exact bestFirst_of_nil 0 (List.forall₂_nil_right_iff.mp h) found
  | succ fuel ih =>
    by_cases hlimit : limit ≤ found.length
    · refine ⟨[], ts.flatMap LeafTree.leaves, ?_, List.Perm.refl _, fun _ => ?_⟩
      · rw [List.flatten_nil, List.append_nil]
        exact bestFirst_of_le _ q hlimit
      · rwa [List.flatten_nil, List.append_nil]
    · unfold bestFirst
      rw [if_pos (Nat.not_le.mp hlimit)]
      cases htop : q.top? with
      | none =>
        rw [items_eq_nil_of_top htop] at h
        cases h
        exact ⟨[], [], by rw [List.flatten_nil, List.append_nil], List.Perm.refl _, fun hne => absurd rfl hne⟩
      | some a =>
        rw [items_eq_cons_of_top htop] at h
        obtain ⟨t, ts, ha, hts, rfl⟩ := List.forall₂_cons_left_iff.mp h
        rw [List.map_cons, List.sum_cons] at hfuel
        cases ha with
        | @leaf _ bs hexpand =>
          -- the leaf is found whole
          simp only [hexpand]
          rw [LeafTree.size] at hfuel
          obtain ⟨visited, rest, heq, hperm, hrest⟩ := ih hts (by omega) (found ++ bs)
          rw [List.append_assoc] at heq hrest
          exact ⟨bs :: visited, rest, heq, hperm.cons bs, hrest⟩
        | node hexpand hl hr =>
          simp only [hexpand]
          obtain ⟨us, hus, hperm⟩ := exists_unfolds_push hl hr hts
          have hsize := (hperm.map LeafTree.size).sum_eq
          simp only [LeafTree.size, List.map_cons, List.sum_cons] at hsize hfuel
          obtain ⟨visited, rest, heq, hvisited, hrest⟩ := ih hus (by omega) found
          refine ⟨visited, rest, heq, hvisited.trans ((hperm.flatMap_right _).trans ?_), hrest⟩
          simp [LeafTree.leaves]

theorem sum_length_elems (ts : List (LeafTree β)) :
    (ts.flatMap LeafTree.leaves).flatten.length = (ts.map fun t => t.elems.length).sum := by
  induction ts with
  | nil => rfl
  | cons t ts ih =>
    rw [List.flatMap_cons, List.flatten_append, List.length_append, ih, List.map_cons, List.sum_cons]
    rfl

/-- Where the limit is no smaller than the leaves together, nothing is left out. -/
theorem mem_visited_of_le {visited rest leaves : List (List β)} (hperm : (visited ++ rest).Perm leaves)
    (hrest : rest ≠ [] → limit ≤ visited.flatten.length) (hlimit : leaves.flatten.length ≤ limit) {b : β}
    (hb : b ∈ leaves.flatten) : b ∈ visited.flatten := by
  have hmem := hperm.flatten.symm.subset hb
  rw [List.flatten_append, List.mem_append] at hmem
  refine hmem.resolve_right fun hleft => ?_
  have hne : rest ≠ [] := by
    rintro rfl
    cases hleft
  have hlen := hperm.flatten.length_eq
  rw [List.flatten_append, List.length_append] at hlen
  have hlarge := hrest hne
  have hpos := List.length_pos_of_mem hleft
  omega

end VectorDb
