import VectorDb.AnnoyForest

/-!
# The file of a forest

* `scanRoots`, `dropDouble`, `loadTrees` : `load`, that finds the roots from the end of the nodes;
* `exists_scanRoots` : the scan takes the last nodes that claim the same number of items;
* `isRoot_of_copy` : a copy of a root is a root;
* `loadTrees_spec` : the trees that are loaded are sound, and there is at least one for each that was built.
-/

namespace VectorDb
namespace Annoy

variable {V : Type}

/-- From node `i - 1` down, while the nodes have `m` descendants (or as many as the first one). -/
def scanRoots (nodes : List (Node V)) : Nat → Option Nat → List Nat
  | 0, _ => []
  | i + 1, m =>
    match nodes[i]? with
    | none => []
    | some nd => if m = none ∨ m = some nd.nDescendants then i :: scanRoots nodes i (some nd.nDescendants) else []

/-- `children[0]` of a root. -/
def firstChild (nodes : List (Node V)) (root : Option Nat) : Option Nat :=
  (root.bind fun i => nodes[i]?).map fun nd => nd.children.headD 0

/-- The last root precedes the copy of all roots: it is found twice. -/
def dropDouble (nodes : List (Node V)) (roots : List Nat) : List Nat :=
  if 1 < roots.length ∧ firstChild nodes roots.head? = firstChild nodes roots.getLast? then roots.dropLast else roots

/-- `load`, of a file with nodes. -/
def loadTrees (nodes : List (Node V)) : Option (Trees V) :=
  nodes.getLast?.map fun last => ⟨nodes, last.nDescendants, dropDouble nodes (scanRoots nodes nodes.length none)⟩

/-! ## The scan -/

section
variable {nodes : List (Node V)}

/-- The scan down from `i` stops at `low`. -/
theorem exists_scanRoots (nodes : List (Node V)) (m i : Nat) (hi : i ≤ nodes.length) : ∃ low ≤ i,
    scanRoots nodes i (some m) = (List.range' low (i - low)).reverse ∧
    (∀ j, low ≤ j → j < i → ∃ nd, nodes[j]? = some nd ∧ nd.nDescendants = m) ∧
    (low = 0 ∨ ∃ nd, nodes[low - 1]? = some nd ∧ nd.nDescendants ≠ m) := by
  induction i with
  | zero =>
    refine ⟨0, Nat.le_refl 0, rfl, fun j _ hj => ?_, Or.inl rfl⟩
    omega
  | succ i ih =>
    unfold scanRoots
    rw [List.getElem?_eq_getElem hi]
    dsimp only
    by_cases hm : nodes[i].nDescendants = m
    · obtain ⟨low, hlow, heq, hall, hstop⟩ := ih (by omega)
      rw [if_pos (Or.inr (congrArg some hm.symm)), hm, heq]
      refine ⟨low, by omega, ?_, fun j hj hj' => ?_, hstop⟩
      · rw [Nat.succ_sub hlow, List.range'_concat, List.reverse_append, Nat.one_mul, Nat.add_sub_cancel' hlow]
        rfl
      · by_cases hji : j = i
        · subst hji
          exact ⟨_, List.getElem?_eq_getElem hi, hm⟩
        · exact hall j hj (by omega)
    · rw [if_neg fun h => hm (Option.some.inj (h.resolve_left (by simp))).symm]
      refine ⟨i + 1, Nat.le_refl _, ?_, fun j hj hj' => ?_, Or.inr ⟨_, List.getElem?_eq_getElem hi, hm⟩⟩
      · rw [Nat.sub_self]
        rfl
      · omega

/-- The first node that is scanned sets the number of descendants. -/
theorem scanRoots_none {last : Node V} (h : nodes.getLast? = some last) :
    scanRoots nodes nodes.length none = scanRoots nodes nodes.length (some last.nDescendants) := by
  obtain ⟨front, rfl⟩ := List.getLast?_eq_some_iff.mp h
  rw [List.length_append, List.length_singleton]
  unfold scanRoots
  rw [List.getElem?_concat_length]
  simp

end

/-! ## Roots -/

section
variable {K nItems : Nat} {indices : List Nat} {nodes : List (Node V)}

theorem unfolds_of_kids_eq {i j : Nat} (h : kids K nItems nodes i = kids K nItems nodes j) {t : LeafTree Nat}
    (ht : Unfolds (kids K nItems nodes) i t) : Unfolds (kids K nItems nodes) j t := by
  cases ht with
  | leaf hleaf => exact .leaf (h ▸ hleaf)
  | node hnode hl hr => exact .node (h ▸ hnode) hl hr

/-- Behind the slots, nodes with the same children are taken for the same. -/
theorem kids_eq_of_shape {i j : Nat} (hi : nItems ≤ i) (hj : nItems ≤ j)
    (h : (nodes[i]?).map Node.shape = (nodes[j]?).map Node.shape) : kids K nItems nodes i = kids K nItems nodes j := by
  unfold kids
  cases hn : nodes[i]? with
  | none =>
    rw [hn] at h
    rw [Option.map_eq_none_iff.mp h.symm]
    rfl
  | some n =>
    rw [hn] at h
    obtain ⟨n', hn', hshape⟩ := Option.map_eq_some_iff.mp h.symm
    obtain ⟨hd, hc⟩ := Prod.mk.inj hshape
    have hno : ∀ {i : Nat}, nItems ≤ i → ¬ (n.nDescendants = 1 ∧ i < nItems) := fun hge h =>
      absurd h.2 (Nat.not_lt.mpr hge)
    rw [hn', Option.map_some, Option.map_some, hd, hc, if_neg (hno hi), if_neg (hno hj)]

theorem isRoot_of_shape {i j : Nat} (hi : nItems ≤ i) (hj : nItems ≤ j)
    (h : (nodes[i]?).map Node.shape = (nodes[j]?).map Node.shape) (hroot : IsRoot K nItems indices nodes i) :
    IsRoot K nItems indices nodes j := by
  obtain ⟨t, ht, hcovers, hsize⟩ := hroot
  exact ⟨t, unfolds_of_kids_eq (kids_eq_of_shape hi hj h) ht, hcovers, hsize⟩

end

namespace Trees.Layout
variable {trees : Trees V} {K : Nat} {indices : List Nat} {memory copies : List (Node V)}

theorem length_copies (h : trees.Layout K indices memory copies) : copies.length = trees.roots.length := by
  have hlen := congrArg List.length h.copies_eq
  rw [List.length_map, List.length_map] at hlen
  exact hlen.symm

theorem length_nodes (h : trees.Layout K indices memory copies) :
    trees.nodes.length = memory.length + trees.roots.length := by
  have hlen := congrArg List.length h.shape_eq
  rw [List.length_map, List.length_map, List.length_append, h.length_copies] at hlen
  exact hlen

/-- Node `j` as it was before the values were set. -/
theorem shape_memory (h : trees.Layout K indices memory copies) {j : Nat} (hj : j < memory.length) :
    (trees.nodes[j]?).map Node.shape = (memory[j]?).map Node.shape := by
  rw [← List.getElem?_map, h.shape_eq, List.getElem?_map, List.getElem?_append_left hj]

/-- The copy of the `i`th root. -/
theorem shape_copy (h : trees.Layout K indices memory copies) {i root : Nat} (hroot : trees.roots[i]? = some root) :
    (trees.nodes[memory.length + i]?).map Node.shape = (trees.nodes[root]?).map Node.shape := by
  have hlt := (h.grown.le_of_mem root (List.mem_of_getElem? hroot)).2
  have hcopy : (copies.map some)[i]? = some memory[root]? := by
    rw [← h.copies_eq, List.getElem?_map, hroot, Option.map_some]
  rw [h.shape_memory hlt, ← List.getElem?_map, h.shape_eq, List.getElem?_map,
    List.getElem?_append_right (Nat.le_add_right _ _), Nat.add_sub_cancel_left]
  rw [List.getElem?_map] at hcopy
  obtain ⟨nd, hnd, heq⟩ := Option.map_eq_some_iff.mp hcopy
  rw [hnd, heq]

/-- A node behind the slots that claims all items is a root or the copy of one. -/
theorem isRoot_of_claims (h : trees.Layout K indices memory copies) {j : Nat} (hj : trees.nItems ≤ j)
    {nd : Node V} (hnd : trees.nodes[j]? = some nd) (hclaims : nd.nDescendants = trees.nItems) :
    IsRoot K trees.nItems indices trees.nodes j := by
  by_cases hlt : j < memory.length
  · have hshape := h.shape_memory hlt
    rw [hnd, Option.map_some] at hshape
    obtain ⟨nd', hnd', heq⟩ := Option.map_eq_some_iff.mp hshape.symm
    have hd : nd'.nDescendants = nd.nDescendants := congrArg Prod.fst heq
    exact h.sound j ((h.grown.claims j hj nd' hnd').mp (hd.trans hclaims))
  · have hlen := h.length_nodes
    have hlt' := (List.getElem?_eq_some_iff.mp hnd).1
    have hi : j - memory.length < trees.roots.length := by omega
    have hroot := List.getElem?_eq_getElem hi
    have hmem := List.getElem_mem hi
    have hshape := h.shape_copy hroot
    rw [Nat.add_sub_cancel' (Nat.not_lt.mp hlt)] at hshape
    exact isRoot_of_shape (h.grown.le_of_mem _ hmem).1 hj hshape.symm (h.sound _ hmem)

/-- The copies and the last root claim all items. -/
theorem claims_of_le (h : trees.Layout K indices memory copies) (hroots : trees.roots ≠ []) {j : Nat}
    (hj : memory.length ≤ j + 1) (hlt : j < trees.nodes.length) :
    ∃ nd : Node V, trees.nodes[j]? = some nd ∧ nd.nDescendants = trees.nItems := by
  have hof : ∀ root ∈ trees.roots, ∀ j : Nat, (trees.nodes[j]?).map Node.shape = (trees.nodes[root]?).map Node.shape →
      ∃ nd : Node V, trees.nodes[j]? = some nd ∧ nd.nDescendants = trees.nItems := by
    intro root hroot j hshape
    obtain ⟨hge, hroot'⟩ := h.grown.le_of_mem root hroot
    have hclaims := (h.grown.claims root hge _ (List.getElem?_eq_getElem hroot')).mpr hroot
    rw [h.shape_memory hroot', List.getElem?_eq_getElem hroot', Option.map_some] at hshape
    obtain ⟨nd, hnd, heq⟩ := Option.map_eq_some_iff.mp hshape
    exact ⟨nd, hnd, (congrArg Prod.fst heq).trans hclaims⟩
  obtain ⟨root, hlast⟩ : ∃ root, trees.roots.getLast? = some root := ⟨_, List.getLast?_eq_some_getLast hroots⟩
  have heq := h.grown.last root hlast
  by_cases hjm : j < memory.length
  · obtain rfl : j = root := by omega
    exact hof j (List.mem_of_getLast? hlast) j rfl
  · have hlen := h.length_nodes
    have hi : j - memory.length < trees.roots.length := by omega
    have hshape := h.shape_copy (List.getElem?_eq_getElem hi)
    rw [Nat.add_sub_cancel' (Nat.not_lt.mp hjm)] at hshape
    exact hof _ (List.getElem_mem hi) j hshape

/-- Where there is one slot, the scan may run down to it: the first child of the roots is `children[0]` of its item. -/
theorem firstChild_of_one (h : trees.Layout K indices memory copies) (hK : 1 ≤ K) (hone : trees.nItems = 1) {j : Nat}
    (hj : 1 ≤ j) {nd : Node V} (hnd : trees.nodes[j]? = some nd) (hclaims : nd.nDescendants = trees.nItems) :
    firstChild trees.nodes (some j) = some 0 := by
  obtain ⟨t, ht, hcovers, -⟩ := h.isRoot_of_claims (by omega) hnd hclaims
  have hindices : indices = [0] := by
    have hspec := h.grown.slots.indices
    rw [h.grown.indices_eq, hone] at hspec
    have hmem := hspec.last Nat.one_pos
    have hlen := Nat.le_antisymm hspec.length_le (List.length_pos_of_mem hmem)
    obtain ⟨i, rfl⟩ := List.length_eq_one_iff.mp hlen
    rw [← List.mem_singleton.mp hmem]
  rw [hcovers.leaf (by omega), hindices, hone] at ht
  cases ht with
  | leaf hkids =>
    unfold kids at hkids
    have hno : ¬ (1 = 1 ∧ j < 1) := by omega
    rw [hnd, Option.map_some, hclaims, hone, if_neg hno, if_pos hK] at hkids
    have htake : nd.children.take 1 = [0] := Sum.inl.inj (Option.some.inj hkids)
    unfold firstChild
    rw [Option.bind_some, hnd, Option.map_some]
    cases hchildren : nd.children with
    | nil =>
      rw [hchildren] at htake
      cases htake
    | cons c cs =>
      rw [hchildren, List.take_succ_cons, List.take_zero] at htake
      rw [List.headD_cons, List.head_eq_of_cons_eq htake]

/-- As many roots as there are nodes before the copies. -/
theorem sub_le_length (low : Nat) (hall : ∀ j, low ≤ j → j < memory.length → j ∈ trees.roots) :
    memory.length - low ≤ trees.roots.length := by
  have hnodup : (List.range' low (memory.length - low)).Nodup := List.nodup_range'
  have hsub : List.range' low (memory.length - low) ⊆ trees.roots := by
    intro j hj
    rw [List.mem_range'_1] at hj
    exact hall j hj.1 (by omega)
  have hle := (hnodup.subperm hsub).length_le
  rwa [List.length_range'] at hle

end Trees.Layout

theorem dropDouble_cases (nodes : List (Node V)) (roots : List Nat) :
    dropDouble nodes roots = roots ∨ dropDouble nodes roots = roots.dropLast := by
  unfold dropDouble
  split
  · exact Or.inr rfl
  · exact Or.inl rfl

/-- **The scan finds the trees again**: each root that it finds is the root of a tree of the items, and there are at least
as many as were built, and at most twice as many. -/
theorem loadTrees_spec {trees : Trees V} {K : Nat} {indices : List Nat} {memory copies : List (Node V)}
    (h : trees.Layout K indices memory copies) (hroots : trees.roots ≠ []) (hK : 1 ≤ K) (hpos : 0 < trees.nItems)
    (hfirst : firstChild trees.nodes (some 0) = some 0) :
    ∃ loaded, loadTrees trees.nodes = some loaded ∧ loaded.nodes = trees.nodes ∧ loaded.nItems = trees.nItems ∧
      loaded.Sound K indices ∧ trees.roots.length ≤ loaded.roots.length ∧
      loaded.roots.length ≤ 2 * trees.roots.length := by
  have hlen := h.length_nodes
  have hq := List.length_pos_iff.mpr hroots
  have hM := h.grown.slots.le_length
  obtain ⟨last, hlast, hclaims⟩ := h.claims_of_le hroots (j := trees.nodes.length - 1) (by omega) (by omega)
  have hlast' : trees.nodes.getLast? = some last := by rw [List.getLast?_eq_getElem?, hlast]
  obtain ⟨low, hlow, hscan, hall, hstop⟩ := exists_scanRoots trees.nodes trees.nItems trees.nodes.length
    (Nat.le_refl _)
  -- the copies and the last root are scanned
  have hlowM : low + 1 ≤ memory.length := by
    by_contra hge
    rcases hstop with rfl | ⟨nd, hnd, hne⟩
    · omega
    · obtain ⟨nd', hnd', heq⟩ := h.claims_of_le hroots (j := low - 1) (by omega) (by omega)
      exact hne (Option.some.inj (hnd.symm.trans hnd') ▸ heq)
  -- behind the slots, what is scanned is a root, or the copy of one
  have hsound : ∀ j, trees.nItems ≤ j → low ≤ j → j < trees.nodes.length → IsRoot K trees.nItems indices trees.nodes j := by
    intro j hj hlowj hlt
    obtain ⟨nd, hnd, heq⟩ := hall j hlowj hlt
    exact h.isRoot_of_claims hj hnd heq
  have hold : ∀ j, trees.nItems ≤ j → low ≤ j → j < memory.length → j ∈ trees.roots := by
    intro j hj hlowj hlt
    obtain ⟨nd, hnd, heq⟩ := hall j hlowj (by omega)
    have hshape := h.shape_memory hlt
    rw [hnd, Option.map_some] at hshape
    obtain ⟨nd', hnd', hsame⟩ := Option.map_eq_some_iff.mp hshape.symm
    exact (h.grown.claims j hj nd' hnd').mp ((congrArg Prod.fst hsame).trans heq)
  unfold loadTrees
  rw [hlast', Option.map_some, scanRoots_none hlast', hclaims, hscan]
  refine ⟨_, rfl, rfl, rfl, ?_⟩
  unfold Trees.Sound
  dsimp only
  by_cases hcase : trees.nItems ≤ low
  · have hle := Trees.Layout.sub_le_length low fun j hj hlt => hold j (hcase.trans hj) hj hlt
    have hscanned : ∀ j ∈ (List.range' low (trees.nodes.length - low)).reverse,
        IsRoot K trees.nItems indices trees.nodes j := by
      intro j hj
      rw [List.mem_reverse, List.mem_range'_1] at hj
      exact hsound j (hcase.trans hj.1) hj.1 (by omega)
    rcases dropDouble_cases trees.nodes (List.range' low (trees.nodes.length - low)).reverse with heq | heq
    · rw [heq, List.length_reverse, List.length_range']
      exact ⟨hscanned, by omega, by omega⟩
    · rw [heq, List.length_dropLast, List.length_reverse, List.length_range']
      exact ⟨fun j hj => hscanned j (List.mem_of_mem_dropLast hj), by omega, by omega⟩
  · -- the scan ran down to the one slot
    obtain ⟨nd, hnd, hone⟩ := h.grown.slots.last hpos
    obtain ⟨nd', hnd', heq⟩ := hall (trees.nItems - 1) (by omega) (by omega)
    have hshape := h.shape_memory (j := trees.nItems - 1) (by omega)
    rw [hnd, hnd', Option.map_some, Option.map_some, Option.some.injEq] at hshape
    have hn : trees.nItems = 1 := by
      have hd : nd'.nDescendants = nd.nDescendants := congrArg Prod.fst hshape
      omega
    obtain rfl : low = 0 := by omega
    have hsplit : (List.range' 0 (trees.nodes.length - 0)).reverse =
        (List.range' 1 (trees.nodes.length - 1)).reverse ++ [0] := by
      obtain ⟨m, hm⟩ : ∃ m, trees.nodes.length = m + 1 := ⟨trees.nodes.length - 1, by omega⟩
      rw [hm, Nat.sub_zero, List.range'_succ, List.reverse_cons]
      rfl
    have hhead : (List.range' 0 (trees.nodes.length - 0)).reverse.head? = some (trees.nodes.length - 1) := by
      rw [List.head?_reverse, List.getLast?_range', if_neg (by omega)]
      congr 1
      omega
    have hdouble : dropDouble trees.nodes (List.range' 0 (trees.nodes.length - 0)).reverse =
        (List.range' 1 (trees.nodes.length - 1)).reverse := by
      unfold dropDouble
      rw [if_pos, hsplit, List.dropLast_concat]
      refine ⟨?_, ?_⟩
      · rw [List.length_reverse, List.length_range']
        omega
      · rw [hhead, hsplit, List.getLast?_concat, hfirst]
        exact h.firstChild_of_one hK hn (by omega) hlast hclaims
    have hle := Trees.Layout.sub_le_length 1 fun j hj hlt => hold j (by omega) (Nat.zero_le _) hlt
    rw [hdouble, List.length_reverse, List.length_range']
    refine ⟨fun j hj => ?_, by omega, by omega⟩
    rw [List.mem_reverse, List.mem_range'_1] at hj
    exact hsound j (by omega) (Nat.zero_le _) (by omega)

end Annoy
end VectorDb
