import VectorDb.AnnoyBuild

/-!
# Searching a forest

* `searchLimit` : how many candidates `_get_all_nns` looks for;
* `Trees.expand`, `Trees.reach` : the queue of nodes, and the candidates that it leads to;
* `Trees.getAllNns` : `_get_all_nns`: the candidates without doubles, sorted by distance, and the first `n` of them;
* `exists_reach` : the search of a sound forest ends;
* `mem_reach` : the candidates are items, or the zeros behind a short list;
* `reach_complete` : where there is room for each tree's items, every item is a candidate.
-/

namespace VectorDb
namespace Annoy

variable {F V R : Type} [FloatArith F] [LinearOrder F]

/-- `search_k`, compared with a `size_t`. -/
def searchLimit (n trees : Nat) (searchK : Int32) : Nat :=
  VectorSimilarity.toSizeT (if searchK = -1 then Int32.ofNat (n * trees) else searchK).toInt

namespace Trees
variable (trees : Trees V) (D : Distance F V R) (K : Nat)

/-- A node with its priority: an item or a list of them, or the two children. -/
def expand (query : List F) (a : F ×ₗ Nat) : Option (List Nat ⊕ (F ×ₗ Nat) × (F ×ₗ Nat)) :=
  let d := (ofLex a).1
  (trees.nodes[(ofLex a).2]?).bind fun nd =>
    (kids K trees.nItems trees.nodes (ofLex a).2).map fun
      | .inl ids => .inl ids
      | .inr (l, r) =>
        let margin := D.margin nd.value query
        .inr (toLex (min d (-margin), l), toLex (min d margin, r))

def queue : PriorityQueue (F ×ₗ Nat) := trees.roots.foldl (fun q root => q.push (toLex (D.pqInitialValue, root))) .empty

/-- `nns`, before it is sorted. A tree has at most `2 * nItems + 1` nodes to visit. -/
def reach (query : List F) (n : Nat) (searchK : Int32) : Option (List Nat) :=
  bestFirst (trees.expand D K query) (searchLimit n trees.roots.length searchK) (trees.roots.length * (2 * trees.nItems + 1))
    (trees.queue D) []

/-- The loop over the sorted ids, that passes over the `last` one. -/
def distinct : Option Nat → List Nat → List Nat
  | _, [] => []
  | last, j :: js => if last = some j then distinct last js else j :: distinct (some j) js

/-- The distance of node `j`, where it is an item. -/
def distanceTo (query : List F) (j : Nat) : Option (F ×ₗ Nat) :=
  (trees.nodes[j]?).bind fun nd =>
    if nd.nDescendants = 1 then some (toLex (D.distance query nd.value, j)) else none

/-- `result` and `distances`. -/
def getAllNns (query : List F) (n : Nat) (searchK : Int32) : Option (List (Nat × F)) :=
  (trees.reach D K query n searchK).map fun nns =>
    let nnsDist := (distinct none (nns.insertionSort (· ≤ ·))).filterMap (trees.distanceTo D query)
    (takeNearest (fun p => p) n nnsDist).map fun p => ((ofLex p).2, D.normalizedDistance (ofLex p).1)

end Trees

/-! ## The candidates -/

section
variable {D : Distance F V R} {K : Nat} {trees : Trees V} {indices : List Nat} {query : List F} {n : Nat} {searchK : Int32}

/-- Priorities change nothing about the tree of a node. -/
theorem unfolds_expand {i : Nat} {t : LeafTree Nat} (h : Unfolds (kids K trees.nItems trees.nodes) i t) (d : F) :
    Unfolds (trees.expand D K query) (toLex (d, i)) t := by
  induction h generalizing d with
  | leaf h =>
    apply Unfolds.leaf
    obtain ⟨nd, hnd, -⟩ := Option.map_eq_some_iff.mp h
    unfold Trees.expand
    simp only [ofLex_toLex, hnd, Option.bind_some, h, Option.map_some]
  | node h _ _ ihl ihr =>
    obtain ⟨nd, hnd, -⟩ := Option.map_eq_some_iff.mp h
    refine Unfolds.node ?_ (ihl (min d (-D.margin nd.value query))) (ihr (min d (D.margin nd.value query)))
    unfold Trees.expand
    simp only [ofLex_toLex, hnd, Option.bind_some, h, Option.map_some]

omit [FloatArith F] in
theorem perm_queue (roots : List Nat) (q : PriorityQueue (F ×ₗ Nat)) (d : F) :
    (roots.foldl (fun q root => q.push (toLex (d, root))) q).items.Perm
      (roots.map (fun root => toLex (d, root)) ++ q.items) := by
  induction roots generalizing q with
  | nil => exact List.Perm.refl _
  | cons root roots ih =>
    rw [List.foldl_cons, List.map_cons]
    exact (ih _).trans (((q.perm_push _).append_left _).trans List.perm_middle)

/-- The queue stands for one tree for each root. -/
theorem exists_queue (h : trees.Sound K indices) (query : List F) : ∃ ts : List (LeafTree Nat),
    List.Forall₂ (Unfolds (trees.expand D K query)) (trees.queue D).items ts ∧ ts.length = trees.roots.length ∧
      ∀ t ∈ ts, Covers K trees.nItems indices t ∧ t.size ≤ 2 * trees.nItems + 1 := by
  have hroots : ∀ roots : List Nat, (∀ root ∈ roots, IsRoot K trees.nItems indices trees.nodes root) →
      ∃ ts : List (LeafTree Nat), List.Forall₂ (Unfolds (trees.expand D K query))
        (roots.map fun root => toLex (D.pqInitialValue, root)) ts ∧ ts.length = roots.length ∧
        ∀ t ∈ ts, Covers K trees.nItems indices t ∧ t.size ≤ 2 * trees.nItems + 1 := by
    intro roots hroots
    induction roots with
    | nil => exact ⟨[], List.Forall₂.nil, rfl, fun t ht => absurd ht List.not_mem_nil⟩
    | cons root roots ih =>
      rw [List.forall_mem_cons] at hroots
      obtain ⟨t, ht, hcovers, hsize⟩ := hroots.1
      obtain ⟨ts, hts, hlen, hall⟩ := ih hroots.2
      refine ⟨t :: ts, List.Forall₂.cons (unfolds_expand ht _) hts, by rw [List.length_cons, hlen, List.length_cons], ?_⟩
      exact List.forall_mem_cons.mpr ⟨⟨hcovers, hsize⟩, hall⟩
  obtain ⟨ts, hts, hlen, hall⟩ := hroots trees.roots h
  have hperm := perm_queue trees.roots PriorityQueue.empty D.pqInitialValue
  rw [show (PriorityQueue.empty : PriorityQueue (F ×ₗ Nat)).items = [] from rfl, List.append_nil] at hperm
  obtain ⟨us, hus, husts⟩ := exists_unfolds_of_perm hperm hts
  exact ⟨us, hus, husts.length_eq.trans hlen, fun t ht => hall t (husts.subset ht)⟩

theorem sum_size_le {ts : List (LeafTree Nat)} {m : Nat} (h : ∀ t ∈ ts, t.size ≤ m) :
    (ts.map LeafTree.size).sum ≤ ts.length * m := by
  have hle := List.sum_le_card_nsmul (ts.map LeafTree.size) m fun x hx => by
    obtain ⟨t, ht, rfl⟩ := List.mem_map.mp hx
    exact h t ht
  rwa [List.length_map, smul_eq_mul] at hle

/-- **The search ends**, with some of the trees' leaves; where others are left, there were enough candidates. -/
theorem exists_reach (h : trees.Sound K indices) (query : List F) (n : Nat) (searchK : Int32) :
    ∃ (ts : List (LeafTree Nat)) (visited rest : List (List Nat)), ts.length = trees.roots.length ∧
      (∀ t ∈ ts, Covers K trees.nItems indices t) ∧ trees.reach D K query n searchK = some visited.flatten ∧
      (visited ++ rest).Perm (ts.flatMap LeafTree.leaves) ∧
      (rest ≠ [] → searchLimit n trees.roots.length searchK ≤ visited.flatten.length) := by
  obtain ⟨ts, hts, hlen, hall⟩ := exists_queue (D := D) h query
  have hsize := sum_size_le fun t ht => (hall t ht).2
  rw [hlen] at hsize
  obtain ⟨visited, rest, heq, hperm, hrest⟩ :=
    exists_bestFirst (searchLimit n trees.roots.length searchK) _ hts hsize []
  exact ⟨ts, visited, rest, hlen, fun t ht => (hall t ht).1, heq, hperm, hrest⟩

omit [FloatArith F] [LinearOrder F] in
/-- What is at the leaves of a tree. -/
theorem mem_leaves_of_covers {t : LeafTree Nat} (h : Covers K trees.nItems indices t) {ids : List Nat} (hids : ids ∈ t.leaves)
    {j : Nat} (hj : j ∈ ids) : j ∈ indices ∨ j = 0 := by
  by_cases hK : trees.nItems ≤ K
  · rw [h.leaf hK, LeafTree.leaves, List.mem_singleton] at hids
    rw [hids, List.mem_append, List.mem_replicate] at hj
    exact hj.imp_right And.right
  · exact Or.inl ((h.perm (by omega)).subset (List.mem_flatten.mpr ⟨ids, hids, hj⟩))

/-- **No candidate but items**, and the zeros behind a list that is shorter than it claims. -/
theorem mem_reach (h : trees.Sound K indices) {nns : List Nat} (hreach : trees.reach D K query n searchK = some nns) :
    ∀ j ∈ nns, j ∈ indices ∨ j = 0 := by
  obtain ⟨ts, visited, rest, -, hcovers, heq, hperm, -⟩ := exists_reach (D := D) h query n searchK
  obtain rfl := Option.some.inj (hreach.symm.trans heq)
  intro j hj
  obtain ⟨ids, hids, hj⟩ := List.mem_flatten.mp hj
  obtain ⟨t, ht, hleaf⟩ := List.mem_flatMap.mp (hperm.subset (List.mem_append_left rest hids))
  exact mem_leaves_of_covers (hcovers t ht) hleaf hj

/-- **Every item is a candidate** where there is room for the items of each tree. -/
theorem reach_complete (h : trees.Sound K indices) (hroots : trees.roots ≠ []) (hpos : indices ≠ [])
    (hlimit : trees.roots.length * indices.length ≤ searchLimit n trees.roots.length searchK) {nns : List Nat}
    (hreach : trees.reach D K query n searchK = some nns) : ∀ j ∈ indices, j ∈ nns := by
  obtain ⟨ts, visited, rest, hlen, hcovers, heq, hperm, hrest⟩ := exists_reach (D := D) h query n searchK
  obtain rfl := Option.some.inj (hreach.symm.trans heq)
  have hpos := List.length_pos_iff.mpr hpos
  have hroots := List.length_pos_iff.mpr hroots
  have hlimit' := Nat.mul_pos hroots hpos
  obtain ⟨t, ts', hts⟩ := List.exists_cons_of_length_pos (hlen ▸ hroots)
  intro j hj
  by_cases hK : trees.nItems ≤ K
  · -- each leaf has all the items, and one was visited
    have hvisited : visited ≠ [] := by
      rintro rfl
      have hne : rest ≠ [] := by
        rintro rfl
        rw [hts, (hcovers t (hts ▸ List.mem_cons_self)).leaf hK] at hperm
        simp [LeafTree.leaves] at hperm
      have hle := hrest hne
      rw [List.flatten_nil, List.length_nil] at hle
      omega
    obtain ⟨ids, hids⟩ := List.exists_mem_of_ne_nil _ hvisited
    obtain ⟨t', ht', hleaf⟩ := List.mem_flatMap.mp (hperm.subset (List.mem_append_left rest hids))
    rw [(hcovers t' ht').leaf hK, LeafTree.leaves, List.mem_singleton] at hleaf
    exact List.mem_flatten.mpr ⟨ids, hids, hleaf ▸ List.mem_append_left _ hj⟩
  · -- the leaves together have each item once for each tree
    have hlens : (ts.map fun t => t.elems.length).sum = ts.length * indices.length := by
      rw [List.map_congr_left fun t ht => ((hcovers t ht).perm (by omega)).length_eq, List.map_const', List.sum_replicate,
        smul_eq_mul]
    rw [← sum_length_elems, hlen] at hlens
    refine mem_visited_of_le hperm hrest (hlens.le.trans hlimit) ?_
    obtain ⟨ids, hids, hj⟩ := List.mem_flatten.mp
      (((hcovers t (hts ▸ List.mem_cons_self)).perm (by omega)).symm.subset hj)
    exact List.mem_flatten.mpr ⟨ids, List.mem_flatMap.mpr ⟨t, hts ▸ List.mem_cons_self, hids⟩, hj⟩

end

/-! ## Without doubles -/

/-- The loop over sorted ids passes over the doubles. -/
theorem distinct_spec (last : Option Nat) (js : List Nat) (hsorted : js.Pairwise (· ≤ ·))
    (hlast : ∀ i, last = some i → ∀ j ∈ js, i ≤ j) :
    (Trees.distinct last js).Nodup ∧ ∀ j, j ∈ Trees.distinct last js ↔ j ∈ js ∧ last ≠ some j := by
  induction js generalizing last with
  | nil => exact ⟨List.nodup_nil, fun j => by simp [Trees.distinct]⟩
  | cons i js ih =>
    rw [List.pairwise_cons] at hsorted
    unfold Trees.distinct
    by_cases hsame : last = some i
    · rw [if_pos hsame]
      obtain ⟨hnodup, hmem⟩ := ih last hsorted.2 fun k hk j hj => hlast k hk j (List.mem_cons_of_mem i hj)
      refine ⟨hnodup, fun j => ?_⟩
      rw [hmem, List.mem_cons, hsame]
      constructor
      · rintro ⟨hj, hne⟩
        exact ⟨Or.inr hj, hne⟩
      · rintro ⟨hj, hne⟩
        exact ⟨hj.resolve_left fun heq => hne (congrArg some heq.symm), hne⟩
    · rw [if_neg hsame]
      obtain ⟨hnodup, hmem⟩ := ih (some i) hsorted.2 fun k hk j hj => Option.some.inj hk ▸ hsorted.1 j hj
      refine ⟨List.nodup_cons.mpr ⟨fun hi => ((hmem i).mp hi).2 rfl, hnodup⟩, fun j => ?_⟩
      rw [List.mem_cons, hmem, List.mem_cons]
      constructor
      · rintro (rfl | ⟨hj, hne⟩)
        · exact ⟨Or.inl rfl, hsame⟩
        · refine ⟨Or.inr hj, fun heq => ?_⟩
          -- a smaller one would be sorted before `i`
          have hle := hlast j heq i List.mem_cons_self
          have hge := hsorted.1 j hj
          exact hne (congrArg some (by omega))
      · rintro ⟨heq | hj, -⟩
        · exact Or.inl heq
        · by_cases heq : j = i
          · exact Or.inl heq
          · exact Or.inr ⟨hj, fun h => heq (Option.some.inj h).symm⟩

theorem nodup_distinct_sort (nns : List Nat) : (Trees.distinct none (nns.insertionSort (· ≤ ·))).Nodup :=
  (distinct_spec none _ (List.pairwise_insertionSort _ nns) (fun i hi => by cases hi)).1

theorem mem_distinct_sort_iff {nns : List Nat} {j : Nat} :
    j ∈ Trees.distinct none (nns.insertionSort (· ≤ ·)) ↔ j ∈ nns := by
  rw [(distinct_spec none _ (List.pairwise_insertionSort _ nns) (fun i hi => by cases hi)).2, List.mem_insertionSort]
  simp

end Annoy
end VectorDb
