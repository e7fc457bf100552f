import VectorDb.AnnoyTree

/-!
# The forest of a built index

* `Trees` : `_nodes`, `_n_items` and `_roots`;
* `threadBuild`, `build` : tree after tree over the item slots, and the copies of the roots behind them;
* `Slots` : the slots of the items, before any tree;
* `Grown` : what holds between two trees; `Grown.step`, `grown_buildTrees`;
* `Trees.Sound` : each root is the root of a tree of the items;
* `Trees.Layout` : which nodes look like roots;
* `build_spec` : the forest that is built is sound, and laid out so.
-/

namespace VectorDb
namespace Annoy

variable {F V R : Type} [Random R]

structure Trees (V : Type) where
  nodes : List (Node V)
  nItems : Nat
  roots : List Nat

/-- The slots with an item. -/
def itemIndices (nItems : Nat) (memory : List (Node V)) : List Nat :=
  (List.range nItems).filter fun i => (memory[i]?).any fun nd => decide (1 ≤ nd.nDescendants)

/-- Where `thread_build` stops, with `q` trees to make; `-1` is for as many as there is room for. -/
def enough (q : Int32) (nItems nNodes trees : Nat) : Bool :=
  if q = -1 then decide (2 * nItems ≤ nNodes) else decide (VectorSimilarity.toSizeT q.toInt ≤ trees)

variable (D : Distance F V R) (fp : Formats) (K rounds : Nat)

/-- The loop of `thread_build`, for at most `fuel` trees. -/
def buildTrees (q : Int32) (nItems : Nat) : Nat → List (Node V) → List Nat → R → Option (List (Node V) × List Nat)
  | 0, memory, roots, _ => if enough q nItems memory.length roots.length then some (memory, roots) else none
  | fuel + 1, memory, roots, random =>
    if enough q nItems memory.length roots.length then some (memory, roots)
    else do
      let indices := itemIndices nItems memory
      let (root, memory, random) ← makeTree D fp K nItems rounds (indices.length + 1) indices true memory random
      buildTrees q nItems fuel memory (roots ++ [root]) random

/-- Each tree has a node of its own, so these many trees are enough. -/
def threadBuild (q : Int32) (nItems : Nat) (memory : List (Node V)) : Option (List (Node V) × List Nat) :=
  buildTrees D fp K rounds q nItems (if q = -1 then nItems else q.toInt.toNat) memory [] Random.init

def setValues (nodes : List (Node V)) (values : List V) : List (Node V) :=
  nodes.zipWith (fun n value => { n with value := value }) values

/-- `build`, of an index that is neither loaded nor built. -/
def build (q : Int32) (slots : List (Node V)) : Option (Trees V) := do
  let nItems := slots.length
  let (memory, roots) ← threadBuild D fp K rounds q nItems (setValues slots (D.preprocess (slots.map Node.value)))
  let copies := roots.filterMap fun root => memory[root]?
  let nodes := memory ++ copies
  let items := (nodes.take nItems).map fun n => { n with value := D.postprocess n.value }
  some ⟨items ++ nodes.drop nItems, nItems, roots⟩

/-! ## Slots -/

/-- A slot has an item or is a hole, and the last one has an item. -/
structure Slots (nItems : Nat) (memory : List (Node V)) : Prop where
  zero_or_one : ∀ j < nItems, ∃ nd, memory[j]? = some nd ∧ (nd.nDescendants = 0 ∨ nd.nDescendants = 1)
  last : 0 < nItems → ∃ nd, memory[nItems - 1]? = some nd ∧ nd.nDescendants = 1

section
variable {nItems : Nat} {memory : List (Node V)}

theorem Slots.le_length (h : Slots nItems memory) : nItems ≤ memory.length := by
  by_cases hpos : 0 < nItems
  · obtain ⟨nd, hnd, -⟩ := h.last hpos
    have hlt := (List.getElem?_eq_some_iff.mp hnd).1
    omega
  · omega

theorem Slots.append (h : Slots nItems memory) (added : List (Node V)) : Slots nItems (memory ++ added) := by
  have hold : ∀ {j : Nat} {nd : Node V}, memory[j]? = some nd → (memory ++ added)[j]? = some nd := fun hnd =>
    (List.getElem?_append_left (List.getElem?_eq_some_iff.mp hnd).1).trans hnd
  constructor
  · intro j hj
    obtain ⟨nd, hnd, hor⟩ := h.zero_or_one j hj
    exact ⟨nd, hold hnd, hor⟩
  · intro hpos
    obtain ⟨nd, hnd, hone⟩ := h.last hpos
    exact ⟨nd, hold hnd, hone⟩

theorem mem_itemIndices_iff {j : Nat} :
    j ∈ itemIndices nItems memory ↔ j < nItems ∧ ∃ nd, memory[j]? = some nd ∧ 1 ≤ nd.nDescendants := by
  unfold itemIndices
  rw [List.mem_filter, List.mem_range]
  cases memory[j]? with
  | none => simp
  | some nd => simp

theorem Slots.indices (h : Slots nItems memory) : Indices nItems memory (itemIndices nItems memory) where
  item j hj := by
    obtain ⟨hlt, nd, hnd, hpos⟩ := mem_itemIndices_iff.mp hj
    obtain ⟨nd', hnd', hor⟩ := h.zero_or_one j hlt
    cases hnd.symm.trans hnd'
    exact ⟨hlt, nd, hnd, hor.resolve_left (by omega)⟩
  hole j hlt hj := by
    obtain ⟨nd, hnd, hor⟩ := h.zero_or_one j hlt
    refine ⟨nd, hnd, hor.resolve_right fun hone => hj ?_⟩
    exact mem_itemIndices_iff.mpr ⟨hlt, nd, hnd, hone.ge⟩
  last hpos := by
    obtain ⟨nd, hnd, hone⟩ := h.last hpos
    exact mem_itemIndices_iff.mpr ⟨by omega, nd, hnd, hone.ge⟩
  length_le := by
    have hle := List.length_filter_le (fun i => (memory[i]?).any fun nd => decide (1 ≤ nd.nDescendants)) (List.range nItems)
    rwa [List.length_range] at hle
  le_length := h.le_length

/-- Nodes behind the slots do not change them. -/
theorem itemIndices_append (hn : nItems ≤ memory.length) (added : List (Node V)) :
    itemIndices nItems (memory ++ added) = itemIndices nItems memory := by
  apply List.filter_congr
  intro j hj
  rw [List.getElem?_append_left ((List.mem_range.mp hj).trans_le hn)]

end

/-! ## Tree after tree -/

/-- Node `i` is the root of a tree of the indices. -/
def IsRoot (K nItems : Nat) (indices : List Nat) (nodes : List (Node V)) (i : Nat) : Prop :=
  ∃ t, Unfolds (kids K nItems nodes) i t ∧ Covers K nItems indices t ∧ t.size ≤ 2 * nItems + 1

/-- Trees have grown behind the slots: the nodes that claim all the items are the roots, and the last node is one. -/
structure Grown (K nItems : Nat) (indices : List Nat) (memory : List (Node V)) (roots : List Nat) : Prop where
  slots : Slots nItems memory
  indices_eq : itemIndices nItems memory = indices
  isRoot : ∀ root ∈ roots, IsRoot K nItems indices memory root
  claims : ∀ i, nItems ≤ i → ∀ nd, memory[i]? = some nd → (nd.nDescendants = nItems ↔ i ∈ roots)
  le_of_mem : ∀ root ∈ roots, nItems ≤ root ∧ root < memory.length
  last : ∀ root, roots.getLast? = some root → root + 1 = memory.length
  nodup : roots.Nodup

section
variable {D fp K rounds} {nItems : Nat} {indices roots : List Nat} {memory memory' : List (Node V)}

theorem grown_nil (h : Slots nItems memory) (hlen : memory.length = nItems) :
    Grown K nItems (itemIndices nItems memory) memory [] where
  slots := h
  indices_eq := rfl
  isRoot root hroot := absurd hroot List.not_mem_nil
  claims i hi nd hnd := by
    have hlt := (List.getElem?_eq_some_iff.mp hnd).1
    omega
  le_of_mem root hroot := absurd hroot List.not_mem_nil
  last root hroot := by cases hroot
  nodup := List.nodup_nil

theorem IsRoot.append {root : Nat} (h : IsRoot K nItems indices memory root) (added : List (Node V)) :
    IsRoot K nItems indices (memory ++ added) root := by
  obtain ⟨t, ht, hcovers, hsize⟩ := h
  exact ⟨t, unfolds_append ht added, hcovers, hsize⟩

/-- **One more tree.** -/
theorem Grown.step (h : Grown K nItems indices memory roots) (hK : 1 ≤ K) (hpos : 0 < nItems) (hlarge : nItems ≤ 2 ^ 63)
    {fuel root : Nat} {random random' : R}
    (hmake : makeTree D fp K nItems rounds fuel indices true memory random = some (root, memory', random')) :
    Grown K nItems indices memory' (roots ++ [root]) ∧ memory.length < memory'.length := by
  have hindices := h.slots.indices
  rw [h.indices_eq] at hindices
  have hmade := makeTree_root hmake hindices hK hpos hlarge
  obtain ⟨added, top, rfl, rfl, htop, hadded⟩ := hmade.exists_added
  have hn := hindices.le_length
  refine ⟨⟨?_, ?_, ?_, ?_, ?_, ?_, ?_⟩, ?_⟩
  · rw [List.append_assoc]
    exact h.slots.append _
  · rw [List.append_assoc, itemIndices_append hn, h.indices_eq]
  · rw [List.forall_mem_append, List.forall_mem_singleton]
    refine ⟨fun root hroot => ?_, hmade.exists_tree⟩
    rw [List.append_assoc]
    exact (h.isRoot root hroot).append _
  · intro i hi nd hnd
    rw [List.mem_append, List.mem_singleton]
    rw [List.getElem?_append] at hnd
    split at hnd
    · next hlt =>
      rw [List.getElem?_append] at hnd
      split at hnd
      · next hold =>
        rw [h.claims i hi nd hnd]
        exact ⟨Or.inl, fun hor => hor.resolve_right (by omega)⟩
      · next hnew =>
        -- a node below the new root claims fewer
        have hfew := hadded nd (List.mem_of_getElem? hnd)
        refine iff_of_false (by omega) fun hor => ?_
        rcases hor with hroot | hroot
        · exact hnew (h.le_of_mem i hroot).2
        · omega
    · next hge =>
      have hlt := (List.getElem?_eq_some_iff.mp hnd).1
      have hi : i = (memory ++ added).length := by
        rw [List.length_singleton] at hlt
        omega
      rw [hi, Nat.sub_self] at hnd
      cases hnd
      exact iff_of_true htop (Or.inr hi)
  · rw [List.forall_mem_append, List.forall_mem_singleton]
    simp only [List.length_append, List.length_singleton]
    refine ⟨fun root hroot => ?_, by omega, by omega⟩
    have hold := h.le_of_mem root hroot
    omega
  · intro root hroot
    rw [List.getLast?_concat] at hroot
    cases hroot
    simp only [List.length_append, List.length_singleton]
  · rw [List.nodup_append]
    refine ⟨h.nodup, List.nodup_singleton _, fun a ha b hb heq => ?_⟩
    have hold := (h.le_of_mem a ha).2
    rw [List.mem_singleton.mp hb, List.length_append] at heq
    omega
  · simp only [List.length_append, List.length_singleton]
    omega

/-- **All the trees.** -/
theorem grown_buildTrees (hK : 1 ≤ K) (hpos : 0 < nItems) (hlarge : nItems ≤ 2 ^ 63) {q : Int32} {fuel : Nat} {random : R}
    {roots' : List Nat} (h : Grown K nItems indices memory roots)
    (hbuild : buildTrees D fp K rounds q nItems fuel memory roots random = some (memory', roots')) :
    Grown K nItems indices memory' roots' ∧ (∃ added, memory' = memory ++ added) ∧
      enough q nItems memory'.length roots'.length = true := by
  induction fuel generalizing memory roots random with
  | zero =>
    unfold buildTrees at hbuild
    split at hbuild
    · next henough =>
      cases hbuild
      exact ⟨h, ⟨[], (List.append_nil _).symm⟩, henough⟩
    · cases hbuild
  | succ fuel ih =>
    unfold buildTrees at hbuild
    split at hbuild
    · next henough =>
      cases hbuild
      exact ⟨h, ⟨[], (List.append_nil _).symm⟩, henough⟩
    · obtain ⟨⟨root, memory₁, random₁⟩, hmake, hbuild⟩ := Option.bind_eq_some_iff.mp hbuild
      rw [h.indices_eq] at hmake
      have hindices := h.slots.indices
      rw [h.indices_eq] at hindices
      obtain ⟨added, top, rfl, -⟩ := (makeTree_root hmake hindices hK hpos hlarge).exists_added
      obtain ⟨hgrown, ⟨added', rfl⟩, henough⟩ := ih (h.step hK hpos hlarge hmake).1 hbuild
      refine ⟨hgrown, ⟨added ++ [top] ++ added', ?_⟩, henough⟩
      simp only [List.append_assoc]

/-- Where a number of trees is given, no more are made. -/
theorem length_roots_le {q : Int32} (hq : q ≠ -1) {fuel : Nat} {random : R} {roots' : List Nat}
    (hle : roots.length ≤ VectorSimilarity.toSizeT q.toInt)
    (hbuild : buildTrees D fp K rounds q nItems fuel memory roots random = some (memory', roots')) :
    roots'.length ≤ VectorSimilarity.toSizeT q.toInt := by
  induction fuel generalizing memory roots random with
  | zero =>
    unfold buildTrees at hbuild
    split at hbuild
    · cases hbuild
      exact hle
    · cases hbuild
  | succ fuel ih =>
    unfold buildTrees at hbuild
    split at hbuild
    · cases hbuild
      exact hle
    · next hmore =>
      obtain ⟨⟨root, memory₁, random₁⟩, -, hbuild⟩ := Option.bind_eq_some_iff.mp hbuild
      refine ih ?_ hbuild
      unfold enough at hmore
      rw [if_neg hq, decide_eq_true_iff] at hmore
      rw [List.length_append, List.length_singleton]
      omega

end

/-! ## The forest -/

/-- What the trees are read off: everything but the values. -/
def Node.shape (n : Node V) : Nat × List Nat := (n.nDescendants, n.children)

theorem kids_congr {nItems : Nat} {nodes nodes' : List (Node V)} (h : nodes.map Node.shape = nodes'.map Node.shape) :
    kids K nItems nodes = kids K nItems nodes' := by
  funext i
  have hi : (nodes[i]?).map Node.shape = (nodes'[i]?).map Node.shape := by
    rw [← List.getElem?_map, ← List.getElem?_map, h]
  unfold kids
  cases hn : nodes[i]? with
  | none =>
    rw [hn] at hi
    rw [Option.map_eq_none_iff.mp hi.symm]
  | some n =>
    rw [hn] at hi
    obtain ⟨n', hn', hshape⟩ := Option.map_eq_some_iff.mp hi.symm
    obtain ⟨hd, hc⟩ := Prod.mk.inj hshape
    rw [hn', Option.map_some, Option.map_some, hd, hc]

/-- Each root is the root of a tree of the indices. -/
def Trees.Sound (trees : Trees V) (K : Nat) (indices : List Nat) : Prop :=
  ∀ root ∈ trees.roots, IsRoot K trees.nItems indices trees.nodes root

/-- The nodes are the slots and the trees, in `memory`, and a copy of each root. -/
structure Trees.Layout (trees : Trees V) (K : Nat) (indices : List Nat) (memory copies : List (Node V)) : Prop where
  shape_eq : trees.nodes.map Node.shape = (memory ++ copies).map Node.shape
  grown : Grown K trees.nItems indices memory trees.roots
  copies_eq : trees.roots.map (fun root => memory[root]?) = copies.map some

section
variable {D fp K rounds} {indices : List Nat} {trees : Trees V} {memory copies : List (Node V)}

theorem Trees.Layout.sound (h : trees.Layout K indices memory copies) : trees.Sound K indices := by
  intro root hroot
  unfold IsRoot
  rw [kids_congr K h.shape_eq]
  exact (h.grown.isRoot root hroot).append copies

theorem filterMap_eq_of_forall {α β : Type} {f : α → Option β} {l : List α} (h : ∀ a ∈ l, (f a).isSome = true) :
    l.map f = (l.filterMap f).map some := by
  induction l with
  | nil => rfl
  | cons a l ih =>
    rw [List.forall_mem_cons] at h
    obtain ⟨b, hb⟩ := Option.isSome_iff_exists.mp h.1
    rw [List.filterMap_cons_some hb, List.map_cons, List.map_cons, hb, ih h.2]

theorem length_setValues {nodes : List (Node V)} {values : List V} (hlen : values.length = nodes.length) :
    (setValues nodes values).length = nodes.length := by
  unfold setValues
  rw [List.length_zipWith, hlen, Nat.min_self]

theorem shape_setValues {nodes : List (Node V)} {values : List V} (hlen : values.length = nodes.length) :
    (setValues nodes values).map Node.shape = nodes.map Node.shape := by
  unfold setValues
  rw [List.map_zipWith]
  apply List.ext_getElem
  · rw [List.length_zipWith, List.length_map, hlen, Nat.min_self]
  · intro i _ _
    rw [List.getElem_zipWith, List.getElem_map]
    rfl

theorem exists_node_of_shape {nodes nodes' : List (Node V)} (h : nodes.map Node.shape = nodes'.map Node.shape) {j : Nat}
    {nd : Node V} (hnd : nodes[j]? = some nd) : ∃ nd', nodes'[j]? = some nd' ∧ nd'.shape = nd.shape := by
  apply Option.map_eq_some_iff.mp
  rw [← List.getElem?_map, ← h, List.getElem?_map, hnd, Option.map_some]

theorem Slots.congr {nItems : Nat} {nodes nodes' : List (Node V)} (h : Slots nItems nodes)
    (hshape : nodes.map Node.shape = nodes'.map Node.shape) : Slots nItems nodes' := by
  constructor
  · intro j hj
    obtain ⟨nd, hnd, hor⟩ := h.zero_or_one j hj
    obtain ⟨nd', hnd', heq⟩ := exists_node_of_shape hshape hnd
    have hd : nd'.nDescendants = nd.nDescendants := congrArg Prod.fst heq
    exact ⟨nd', hnd', hd ▸ hor⟩
  · intro hpos
    obtain ⟨nd, hnd, hone⟩ := h.last hpos
    obtain ⟨nd', hnd', heq⟩ := exists_node_of_shape hshape hnd
    exact ⟨nd', hnd', (congrArg Prod.fst heq).trans hone⟩

theorem itemIndices_congr {nItems : Nat} {nodes nodes' : List (Node V)} (h : nodes.map Node.shape = nodes'.map Node.shape) :
    itemIndices nItems nodes = itemIndices nItems nodes' := by
  apply List.filter_congr
  intro i _
  have hi : (nodes[i]?).map Node.shape = (nodes'[i]?).map Node.shape := by
    rw [← List.getElem?_map, ← List.getElem?_map, h]
  have hany : ∀ n? : Option (Node V), n?.any (fun nd => decide (1 ≤ nd.nDescendants)) =
      (n?.map Node.shape).any fun s => decide (1 ≤ s.1) := fun n? => by cases n? <;> rfl
  rw [hany, hany, hi]

omit [Random R] in
theorem shape_postprocess (nItems : Nat) (nodes : List (Node V)) :
    ((nodes.take nItems).map (fun n : Node V => { n with value := D.postprocess n.value }) ++ nodes.drop nItems).map Node.shape =
      nodes.map Node.shape := by
  conv_rhs => rw [← List.take_append_drop nItems nodes, List.map_append]
  rw [List.map_append, List.map_map]
  rfl

/-- **A built index**: its trees have the items of the slots, and its nodes are laid out so that the roots can be found
again. -/
theorem build_spec {q : Int32} {slots : List (Node V)} (hslots : Slots slots.length slots) (hne : slots ≠ []) (hK : 1 ≤ K)
    (hlarge : slots.length ≤ 2 ^ 63) (h : build D fp K rounds q slots = some trees) :
    trees.nItems = slots.length ∧ (∃ memory copies, trees.Layout K (itemIndices slots.length slots) memory copies ∧
      enough q slots.length memory.length trees.roots.length = true) ∧
      (q ≠ -1 → trees.roots.length = VectorSimilarity.toSizeT q.toInt) ∧
      trees.nodes.take slots.length =
        setValues slots ((D.preprocess (slots.map Node.value)).map D.postprocess) := by
  unfold build at h
  obtain ⟨⟨memory, roots⟩, hthread, h⟩ := Option.bind_eq_some_iff.mp h
  cases h
  have hvalues : (D.preprocess (slots.map Node.value)).length = slots.length := by
    rw [D.length_preprocess, List.length_map]
  have hshape := shape_setValues hvalues
  have hlen := length_setValues hvalues
  have hstart := grown_nil (K := K) (hslots.congr hshape.symm) hlen
  rw [itemIndices_congr hshape] at hstart
  have hbuild := hthread
  unfold threadBuild at hbuild
  obtain ⟨hgrown, ⟨added, rfl⟩, henough⟩ := grown_buildTrees hK (List.length_pos_iff.mpr hne) hlarge hstart hbuild
  refine ⟨rfl, ⟨_, roots.filterMap fun root => (setValues slots (D.preprocess (slots.map Node.value)) ++ added)[root]?,
    ⟨shape_postprocess _ _, hgrown, ?_⟩, henough⟩, ?_, ?_⟩
  · apply filterMap_eq_of_forall
    intro root hroot
    rw [List.getElem?_eq_getElem (hgrown.le_of_mem root hroot).2]
    rfl
  · intro hq
    apply Nat.le_antisymm (length_roots_le hq (Nat.zero_le _) hbuild)
    unfold enough at henough
    rw [if_neg hq] at henough
    exact of_decide_eq_true henough
  · dsimp only
    rw [List.append_assoc, List.take_left' hlen, List.take_left']
    · unfold setValues
      rw [List.map_zipWith, List.zipWith_map_right]
    · rw [List.length_map, hlen]

end

end Annoy
end VectorDb
