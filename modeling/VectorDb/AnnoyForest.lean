import VectorDb.AnnoyReach
import VectorDb.AnnoySearch

/-!
# The slots of an index, and its forest

* `addItem`, `slotsOf` : the nodes that `add_item` leaves, call by call, and from the items;
* `slotsOf_insert` : one is the other, call by call;
* `treesOf`, `forestOf` : the trees that are built over the items, and the ids that a search of them reaches;
* `mem_itemIndices_slotsOf`, `length_itemIndices` : the indices of the trees are the ids of the items;
* `trees_have_items` : each tree that is built has the items, each once;
* `addItems_eq` : the slots after any calls of `add_item`;
* `Trees.Holds.getAllNns_eq` : the index whose forest is a function agrees with the one whose forest is made of nodes;
* `subset_forestOf` : where there is room for all items, all are reached.
-/

namespace VectorDb
namespace Annoy
open Std (ExtTreeMap)
open AnnoyIndex (MetricType)

variable {F D R : Type} [FloatArith F] [FloatArith D] [LinearOrder F] [Random R]

/-- `_K`, for 64-bit ids and 32-bit floats. -/
def maxDescendants (metric : MetricType) (f : Nat) : Nat :=
  match metric with
  | .l2 => (16 + 4 * f) / 8
  | .ip => (28 + 4 * f) / 8

/-! ## Slots -/

def itemNode (metric : MetricType) (f : Nat) (v : List F) : Node (Payload F) :=
  ⟨1, [0, 0], { zeroPayload f with v := v }.initNode metric⟩

/-- Bytes that are zero. -/
def hole (f : Nat) : Node (Payload F) := ⟨0, [0, 0], zeroPayload f⟩

/-- `add_item`, of a slot. -/
def addItem (metric : MetricType) (f : Nat) (memory : List (Node (Payload F))) (item : Nat) (v : List F) :
    List (Node (Payload F)) :=
  (memory ++ List.replicate (item + 1 - memory.length) (hole f)).set item (itemNode metric f v)

/-- `_n_items`: up to the last item. -/
def nItemsOf (items : ExtTreeMap Int64 (List F)) : Nat := (items.maxKey?.map fun id => id.toInt.toNat + 1).getD 0

def slotNode (metric : MetricType) (f : Nat) : Option (List F) → Node (Payload F)
  | none => hole f
  | some v => itemNode metric f v

def slotsOf (metric : MetricType) (f : Nat) (items : ExtTreeMap Int64 (List F)) : List (Node (Payload F)) :=
  (List.range (nItemsOf items)).map fun i => slotNode metric f items[Int64.ofNat i]?

/-! ## Ids as indices -/

theorem toNat_toInt_lt (id : Int64) : id.toInt.toNat < 2 ^ 63 := by
  have h := id.toInt_lt
  omega

theorem toInt_ofNat {i : Nat} (h : i < 2 ^ 63) : (Int64.ofNat i).toInt = i := Int64.toInt_ofNat_of_lt h

theorem ofNat_toNat {id : Int64} (h : 0 ≤ id) : Int64.ofNat id.toInt.toNat = id := by
  rw [Int64.le_iff_toInt_le, Int64.toInt_zero] at h
  apply Int64.toInt_inj.mp
  rw [toInt_ofNat (toNat_toInt_lt id)]
  omega

theorem ofNat_inj {i j : Nat} (hi : i < 2 ^ 63) (hj : j < 2 ^ 63) (h : Int64.ofNat i = Int64.ofNat j) : i = j := by
  have hint := congrArg Int64.toInt h
  rw [toInt_ofNat hi, toInt_ofNat hj] at hint
  exact Int.ofNat_inj.mp hint

section
variable {items : ExtTreeMap Int64 (List F)}

omit [FloatArith F] [LinearOrder F] in
theorem Items.nonneg_of_mem {f : Nat} (items : Items F f) : ∀ id ∈ items.slots, 0 ≤ id := by
  intro id hid
  exact items.nonneg_of_slot id _ (ExtTreeMap.getElem?_eq_some_getElem hid)

omit [FloatArith F] [LinearOrder F] in
theorem nItemsOf_le (items : ExtTreeMap Int64 (List F)) : nItemsOf items ≤ 2 ^ 63 := by
  unfold nItemsOf
  cases items.maxKey? with
  | none => exact Nat.zero_le _
  | some id => exact toNat_toInt_lt id

omit [FloatArith F] [LinearOrder F] in
/-- The last slot has an item. -/
theorem exists_last (h : 0 < nItemsOf items) : ∃ id ∈ items, nItemsOf items = id.toInt.toNat + 1 := by
  unfold nItemsOf at h ⊢
  cases hmax : items.maxKey? with
  | none => simp [hmax] at h
  | some id => exact ⟨id, ExtTreeMap.maxKey?_mem hmax, rfl⟩

omit [FloatArith F] [LinearOrder F] in
theorem lt_nItemsOf (hitems : ∀ id ∈ items, 0 ≤ id) {id : Int64} (h : id ∈ items) : id.toInt.toNat < nItemsOf items := by
  obtain ⟨max, hmax⟩ := Option.isSome_iff_exists.mp (ExtTreeMap.isSome_maxKey?_of_mem h)
  have hle := (ExtTreeMap.maxKey?_eq_some_iff_mem_and_forall.mp hmax).2 id h
  rw [Std.isLE_compare, Int64.le_iff_toInt_le] at hle
  have hnonneg := hitems id h
  rw [Int64.le_iff_toInt_le, Int64.toInt_zero] at hnonneg
  unfold nItemsOf
  rw [hmax, Option.map_some, Option.getD_some]
  omega

omit [FloatArith F] [LinearOrder F] in
theorem nItemsOf_pos (hne : items ≠ ∅) : 0 < nItemsOf items := by
  obtain ⟨max, hmax⟩ := Option.isSome_iff_exists.mp (ExtTreeMap.isSome_maxKey?_iff_ne_empty.mpr hne)
  unfold nItemsOf
  rw [hmax]
  exact Nat.succ_pos _

variable {metric : MetricType} {f : Nat}

omit [LinearOrder F] in
@[simp] theorem length_slotsOf : (slotsOf metric f items).length = nItemsOf items := by
  unfold slotsOf
  rw [List.length_map, List.length_range]

omit [LinearOrder F] in
theorem getElem?_slotsOf (i : Nat) : (slotsOf metric f items)[i]? =
    if i < nItemsOf items then some (slotNode metric f items[Int64.ofNat i]?) else none := by
  unfold slotsOf
  rw [List.getElem?_map]
  split
  · next h => rw [List.getElem?_range h, Option.map_some]
  · next h => rw [List.getElem?_eq_none (by rwa [List.length_range, ← Nat.not_lt]), Option.map_none]

omit [FloatArith F] [LinearOrder F] in
theorem getElem?_eq_none_of_le (hitems : ∀ id ∈ items, 0 ≤ id) {i : Nat} (h : nItemsOf items ≤ i) (hi : i < 2 ^ 63) :
    items[Int64.ofNat i]? = none := by
  apply ExtTreeMap.getElem?_eq_none
  intro hmem
  have hlt := lt_nItemsOf hitems hmem
  rw [toInt_ofNat hi] at hlt
  omega

omit [FloatArith F] [LinearOrder F] in
theorem nItemsOf_insert (hitems : ∀ id ∈ items, 0 ≤ id) {id : Int64} (hid : 0 ≤ id) (v : List F) :
    nItemsOf (items.insert id v) = max (nItemsOf items) (id.toInt.toNat + 1) := by
  rw [Int64.le_iff_toInt_le, Int64.toInt_zero] at hid
  unfold nItemsOf
  rw [ExtTreeMap.maxKey?_insert]
  cases hmax : items.maxKey? with
  | none => simp
  | some top =>
    have htop := hitems top (ExtTreeMap.maxKey?_mem hmax)
    rw [Int64.le_iff_toInt_le, Int64.toInt_zero] at htop
    simp only [Option.elim_some, Std.isLE_compare, Option.map_some, Option.getD_some, Int64.le_iff_toInt_le]
    split
    · omega
    · omega

omit [LinearOrder F] in
/-- **One more item.** -/
theorem slotsOf_insert (hitems : ∀ id ∈ items, 0 ≤ id) {id : Int64} (hid : 0 ≤ id) (v : List F) :
    slotsOf metric f (items.insert id v) = addItem metric f (slotsOf metric f items) id.toInt.toNat v := by
  have hk := toNat_toInt_lt id
  have hn := nItemsOf_le items
  apply List.ext_getElem?
  intro i
  unfold addItem
  rw [getElem?_slotsOf, nItemsOf_insert hitems hid, List.getElem?_set, List.length_append, List.length_replicate,
    length_slotsOf]
  by_cases hi : id.toInt.toNat = i
  · subst hi
    rw [if_pos (by omega), if_pos rfl, if_pos (by omega), ofNat_toNat hid, ExtTreeMap.getElem?_insert_self]
    rfl
  · rw [if_neg hi]
    by_cases hlt : i < max (nItemsOf items) (id.toInt.toNat + 1)
    · have hne : id ≠ Int64.ofNat i := by
        rintro rfl
        exact hi (by rw [toInt_ofNat (by omega)]; rfl)
      rw [if_pos hlt, ExtTreeMap.getElem?_insert, if_neg fun h => hne (Std.LawfulEqOrd.eq_of_compare h),
        List.getElem?_append]
      split
      · next hold =>
        rw [length_slotsOf] at hold
        rw [getElem?_slotsOf, if_pos hold]
      · next hnew =>
        rw [length_slotsOf] at hnew ⊢
        rw [getElem?_eq_none_of_le hitems (Nat.not_lt.mp hnew) (by omega), List.getElem?_replicate, if_pos (by omega)]
        rfl
    · rw [if_neg hlt, List.getElem?_eq_none]
      rw [List.length_append, List.length_replicate, length_slotsOf]
      omega

omit [LinearOrder F] in
theorem slots_slotsOf (hitems : ∀ id ∈ items, 0 ≤ id) : Slots (slotsOf metric f items).length (slotsOf metric f items) := by
  rw [length_slotsOf]
  constructor
  · intro j hj
    rw [getElem?_slotsOf, if_pos hj]
    refine ⟨_, rfl, ?_⟩
    cases items[Int64.ofNat j]? with
    | none => exact Or.inl rfl
    | some v => exact Or.inr rfl
  · intro hpos
    obtain ⟨id, hid, hlast⟩ := exists_last hpos
    rw [getElem?_slotsOf, if_pos (by omega), hlast, Nat.add_sub_cancel, ofNat_toNat (hitems id hid),
      ExtTreeMap.getElem?_eq_some_getElem hid]
    exact ⟨_, rfl, rfl⟩

omit [LinearOrder F] in
/-- The trees are over the ids of the items. -/
theorem mem_itemIndices_slotsOf {j : Nat} : j ∈ itemIndices (nItemsOf items) (slotsOf metric f items) ↔
    j < nItemsOf items ∧ Int64.ofNat j ∈ items := by
  rw [mem_itemIndices_iff, and_congr_right_iff]
  intro hj
  rw [getElem?_slotsOf, if_pos hj, ExtTreeMap.mem_iff_isSome_getElem?]
  cases items[Int64.ofNat j]? with
  | none => simp [slotNode, hole]
  | some v => simp [slotNode, itemNode]

omit [LinearOrder F] in
/-- The indices, as ids. -/
theorem perm_ids (metric : MetricType) (f : Nat) (hitems : ∀ id ∈ items, 0 ≤ id) :
    ((itemIndices (nItemsOf items) (slotsOf metric f items)).map Int64.ofNat).Perm items.keys := by
  have hn := nItemsOf_le items
  have hkeys : items.keys.Nodup := by
    rw [List.nodup_iff_pairwise_ne]
    exact ExtTreeMap.distinct_keys.imp fun hne heq => hne (Std.LawfulEqCmp.compare_eq_iff_eq.mpr heq)
  have hnodup : (itemIndices (nItemsOf items) (slotsOf metric f items)).Nodup := List.nodup_range.filter _
  refine (List.perm_ext_iff_of_nodup (hnodup.map_on ?_) hkeys).mpr fun id => ?_
  · intro i hi j hj h
    rw [mem_itemIndices_slotsOf] at hi hj
    exact ofNat_inj (by omega) (by omega) h
  · rw [List.mem_map, ExtTreeMap.mem_keys]
    constructor
    · rintro ⟨j, hj, rfl⟩
      exact (mem_itemIndices_slotsOf.mp hj).2
    · intro hid
      have hback := ofNat_toNat (hitems id hid)
      exact ⟨id.toInt.toNat, mem_itemIndices_slotsOf.mpr ⟨lt_nItemsOf hitems hid, hback.symm ▸ hid⟩, hback⟩

omit [LinearOrder F] in
theorem length_itemIndices (metric : MetricType) (f : Nat) (hitems : ∀ id ∈ items, 0 ≤ id) :
    (itemIndices (nItemsOf items) (slotsOf metric f items)).length = items.size := by
  rw [← ExtTreeMap.length_keys, ← (perm_ids metric f hitems).length_eq, List.length_map]

omit [LinearOrder F] in
/-- The indices, from the ids. -/
theorem perm_itemIndices (metric : MetricType) (f : Nat) (hitems : ∀ id ∈ items, 0 ≤ id) :
    (itemIndices (nItemsOf items) (slotsOf metric f items)).Perm (items.keys.map fun id => id.toInt.toNat) := by
  have hn := nItemsOf_le items
  have hback : ((itemIndices (nItemsOf items) (slotsOf metric f items)).map Int64.ofNat).map (fun id => id.toInt.toNat) =
      itemIndices (nItemsOf items) (slotsOf metric f items) := by
    rw [List.map_map]
    refine (List.map_congr_left fun j hj => ?_).trans (List.map_id _)
    have hlt := (mem_itemIndices_slotsOf.mp hj).1
    rw [Function.comp_apply, toInt_ofNat (by omega)]
    rfl
  rw [← hback]
  exact (perm_ids metric f hitems).map _

end

/-! ## The trees over the items -/

section
variable (R) (M : FloatLibs F D) (fp : Formats) (rounds : Nat)

/-- `build`, of an index to which the items were added. -/
def treesOf (metric : MetricType) (f : Nat) (items : ExtTreeMap Int64 (List F)) (q : Int32) : Option (Trees (Payload F)) :=
  build (distanceOf M metric f : Distance F (Payload F) R) fp (maxDescendants metric f) rounds q (slotsOf metric f items)

/-- What a search of the trees reaches. -/
def forestOf (metric : MetricType) (f : Nat) (trees : Trees (Payload F)) : Forest F := fun query n searchK =>
  ((trees.reach (distanceOf M metric f : Distance F (Payload F) R) (maxDescendants metric f) query n searchK).getD []).map
    Int64.ofNat

end

/-- The nodes of the items are there, ready to be compared with a query. -/
structure Trees.Holds (trees : Trees (Payload F)) (metric : MetricType) (f : Nat) (items : ExtTreeMap Int64 (List F)) :
    Prop where
  nItems_eq : trees.nItems = nItemsOf items
  sound : trees.Sound (maxDescendants metric f) (itemIndices (nItemsOf items) (slotsOf metric f items))
  node : ∀ j < nItemsOf items, ∃ nd, trees.nodes[j]? = some nd ∧
    match items[Int64.ofNat j]? with
    | none => nd.nDescendants = 0
    | some v => nd.nDescendants = 1 ∧ nd.value.v = v ∧ (metric = .ip → nd.value.built = true)

section
variable {M : FloatLibs F D} {fp : Formats} {rounds : Nat} {metric : MetricType} {f : Nat} {q : Int32}
  {items : ExtTreeMap Int64 (List F)} {trees : Trees (Payload F)}

theorem one_le_maxDescendants (metric : MetricType) (f : Nat) : 1 ≤ maxDescendants metric f := by
  unfold maxDescendants
  cases metric with
  | l2 => dsimp only; omega
  | ip => dsimp only; omega

omit [LinearOrder F] in
theorem v_slotNode (v : List F) : (slotNode metric f (some v)).value.v = v := by
  unfold slotNode itemNode
  cases metric with
  | l2 => rfl
  | ip => rfl

/-- **What a build leaves.** -/
theorem holds_of_treesOf (hitems : ∀ id ∈ items, 0 ≤ id) (hne : items ≠ ∅)
    (h : treesOf R M fp rounds metric f items q = some trees) :
    trees.Holds metric f items ∧ (q ≠ -1 → trees.roots.length = VectorSimilarity.toSizeT q.toInt) ∧
      ∃ memory copies, trees.Layout (maxDescendants metric f) (itemIndices (nItemsOf items) (slotsOf metric f items)) memory
        copies ∧ enough q (nItemsOf items) memory.length trees.roots.length = true := by
  have hpos := nItemsOf_pos hne
  have hslots : slotsOf metric f items ≠ [] := by
    rw [← List.length_pos_iff, length_slotsOf]
    exact hpos
  unfold treesOf at h
  obtain ⟨hn, ⟨memory, copies, hlayout, henough⟩, hroots, htake⟩ := build_spec (slots_slotsOf hitems) hslots
    (one_le_maxDescendants metric f) (length_slotsOf.trans_le (nItemsOf_le items)) h
  rw [length_slotsOf] at hn hlayout henough htake
  refine ⟨⟨hn, hlayout.sound, fun j hj => ?_⟩, hroots, memory, copies, hlayout, henough⟩
  -- the vectors of the slots pass through the build
  have hj' : trees.nodes[j]? = (trees.nodes.take (nItemsOf items))[j]? := by rw [List.getElem?_take_of_lt hj]
  have hslot : (slotsOf metric f items)[j]? = some (slotNode metric f items[Int64.ofNat j]?) := by
    rw [getElem?_slotsOf, if_pos hj]
  have htake : trees.nodes.take (nItemsOf items) = setValues (slotsOf metric f items)
    ((preprocess M metric ((slotsOf metric f items).map Node.value)).map (postprocess metric)) := htake
  have hpre : (preprocess M metric ((slotsOf metric f items).map Node.value))[j]?.map Payload.v =
      some (slotNode metric f items[Int64.ofNat j]?).value.v := by
    rw [← List.getElem?_map, map_v_preprocess, List.getElem?_map, List.getElem?_map, hslot]
    rfl
  obtain ⟨value, hvalue, hv⟩ := Option.map_eq_some_iff.mp hpre
  refine ⟨{ slotNode metric f items[Int64.ofNat j]? with value := postprocess metric value }, ?_, ?_⟩
  · have hpost : ((preprocess M metric ((slotsOf metric f items).map Node.value)).map (postprocess metric))[j]? =
        some (postprocess metric value) := by
      rw [List.getElem?_map, hvalue]
      rfl
    rw [hj', htake]
    unfold setValues
    rw [List.getElem?_zipWith, hslot, hpost]
  · cases hitem : items[Int64.ofNat j]? with
    | none => rfl
    | some v =>
      rw [hitem, v_slotNode] at hv
      refine ⟨rfl, (v_postprocess metric value).trans hv, ?_⟩
      rintro rfl
      rfl

omit [LinearOrder F] in
/-- A tree of the items. -/
theorem Trees.Holds.exists_tree (h : trees.Holds metric f items) (hitems : ∀ id ∈ items, 0 ≤ id) {root : Nat}
    (hroot : root ∈ trees.roots) : ∃ t, Unfolds (kids (maxDescendants metric f) trees.nItems trees.nodes) root t ∧
      (∀ id ∈ items, id.toInt.toNat ∈ t.elems) ∧
      (maxDescendants metric f < nItemsOf items → t.elems.Perm (items.keys.map fun id => id.toInt.toNat)) := by
  have hperm := perm_itemIndices metric f hitems
  obtain ⟨t, ht, hcovers, -⟩ := h.sound root hroot
  rw [h.nItems_eq] at hcovers
  refine ⟨t, ht, fun id hid => ?_, fun hlt => (hcovers.perm hlt).trans hperm⟩
  have hmem := hperm.symm.subset (List.mem_map_of_mem (ExtTreeMap.mem_keys.mpr hid))
  by_cases hlt : maxDescendants metric f < nItemsOf items
  · exact (hcovers.perm hlt).symm.subset hmem
  · rw [hcovers.leaf (Nat.not_lt.mp hlt), LeafTree.elems_leaf]
    exact List.mem_append_left _ hmem

/-- **Every tree has every item**: the leaves of each of the `q` trees hold the ids of the items, each once, where there are
too many for a single list. -/
theorem trees_have_items (hitems : ∀ id ∈ items, 0 ≤ id) (hne : items ≠ ∅)
    (h : treesOf R M fp rounds metric f items q = some trees) :
    (q ≠ -1 → trees.roots.length = VectorSimilarity.toSizeT q.toInt) ∧ trees.roots.Nodup ∧
      ∀ root ∈ trees.roots, ∃ t, Unfolds (kids (maxDescendants metric f) trees.nItems trees.nodes) root t ∧
        (∀ id ∈ items, id.toInt.toNat ∈ t.elems) ∧
        (maxDescendants metric f < nItemsOf items → t.elems.Perm (items.keys.map fun id => id.toInt.toNat)) := by
  obtain ⟨hholds, hroots, memory, copies, hlayout, -⟩ := holds_of_treesOf hitems hne h
  exact ⟨hroots, hlayout.grown.nodup, fun root hroot => hholds.exists_tree hitems hroot⟩

/-! ## The search -/

/-- The distance of the query and an item of a built index. -/
theorem distance_eq (query : List F) {value : Payload F} (hbuilt : metric = .ip → value.built = true) :
    (distanceOf M metric f : Distance F (Payload F) R).distance query value = metric.distance query value.v := by
  cases metric with
  | l2 => rfl
  | ip =>
    have h := hbuilt rfl
    simp [distanceOf, Payload.distance, Payload.initNode, h]

namespace Trees.Holds

theorem distanceTo_eq (h : trees.Holds metric f items) (query : List F) {j : Nat} (hj : j < nItemsOf items) :
    trees.distanceTo (distanceOf M metric f : Distance F (Payload F) R) query j =
      (items[Int64.ofNat j]?).map fun v => toLex (metric.distance query v, j) := by
  obtain ⟨nd, hnd, hmatch⟩ := h.node j hj
  unfold Trees.distanceTo
  rw [hnd, Option.bind_some]
  cases hitem : items[Int64.ofNat j]? with
  | none =>
    rw [hitem] at hmatch
    rw [if_neg (by omega), Option.map_none]
  | some v =>
    rw [hitem] at hmatch
    obtain ⟨hone, hv, hbuilt⟩ := hmatch
    rw [if_pos hone, distance_eq query hbuilt, hv, Option.map_some]

/-- The ids in `nns` are slots. -/
theorem lt_of_mem_reach (h : trees.Holds metric f items) (hne : items ≠ ∅) {query : List F} {n : Nat} {searchK : Int32}
    {nns : List Nat}
    (hreach : trees.reach (distanceOf M metric f : Distance F (Payload F) R) (maxDescendants metric f) query n searchK =
      some nns) : ∀ j ∈ nns, j < nItemsOf items := by
  intro j hj
  rcases mem_reach h.sound hreach j hj with hmem | rfl
  · exact (mem_itemIndices_slotsOf.mp hmem).1
  · exact nItemsOf_pos hne

/-- An item with its distance, by its index. -/
def pairOf (metric : MetricType) (query : List F) (p : Int64 × List F) : F ×ₗ Nat :=
  toLex (metric.distance query p.2, p.1.toInt.toNat)

omit [FloatArith F] [FloatArith D] [LinearOrder F] [Random R] in
theorem snd_of_distanceTo {d : Distance F (Payload F) R} {query : List F} {j : Nat} {x : F ×ₗ Nat}
    (h : trees.distanceTo d query j = some x) : (ofLex x).2 = j := by
  unfold Trees.distanceTo at h
  obtain ⟨nd, -, h⟩ := Option.bind_eq_some_iff.mp h
  split at h
  · cases h
    rfl
  · cases h

omit [LinearOrder F] in
theorem pairOf_inj (hitems : ∀ id ∈ items, 0 ≤ id) (query : List F) : ∀ p ∈ items.toList, ∀ p' ∈ items.toList,
    pairOf metric query p = pairOf metric query p' → p = p' := by
  rintro ⟨id, v⟩ hp ⟨id', v'⟩ hp' heq
  rw [ExtTreeMap.mem_toList_iff_getElem?_eq_some] at hp hp'
  have hmem : ∀ {id : Int64} {v : List F}, items[id]? = some v → id ∈ items := fun h => by
    rw [ExtTreeMap.mem_iff_isSome_getElem?, h]
    rfl
  have hid : id.toInt.toNat = id'.toInt.toNat := congrArg (fun x => (ofLex x).2) heq
  obtain rfl : id = id' := by rw [← ofNat_toNat (hitems id (hmem hp)), hid, ofNat_toNat (hitems id' (hmem hp'))]
  rw [Option.some.inj (hp.symm.trans hp')]

/-- The pairs that are sorted are those of the items that were reached. -/
theorem perm_nnsDist (h : trees.Holds metric f items) (hitems : ∀ id ∈ items, 0 ≤ id) (hne : items ≠ ∅) {query : List F}
    {n : Nat} {searchK : Int32} {nns : List Nat}
    (hreach : trees.reach (distanceOf M metric f : Distance F (Payload F) R) (maxDescendants metric f) query n searchK =
      some nns) :
    ((Trees.distinct none (nns.insertionSort (· ≤ ·))).filterMap
      (trees.distanceTo (distanceOf M metric f : Distance F (Payload F) R) query)).Perm
      ((items.toList.filter fun p => decide (p.1 ∈ nns.map Int64.ofNat)).map (pairOf metric query)) := by
  have hn := nItemsOf_le items
  have hlt := h.lt_of_mem_reach hne hreach
  refine (List.perm_ext_iff_of_nodup ?_ ?_).mpr fun x => ?_
  · refine (nodup_distinct_sort nns).filterMap fun i j x hi hj => ?_
    exact (snd_of_distanceTo hi).symm.trans (snd_of_distanceTo hj)
  · refine ((AnnoyIndex.nodup_ids items).of_map _ |>.filter _).map_on fun p hp p' hp' heq => ?_
    exact pairOf_inj hitems query p (List.mem_of_mem_filter hp) p' (List.mem_of_mem_filter hp') heq
  · rw [List.mem_filterMap, List.mem_map]
    constructor
    · rintro ⟨j, hj, hx⟩
      rw [mem_distinct_sort_iff] at hj
      rw [h.distanceTo_eq query (hlt j hj)] at hx
      obtain ⟨v, hv, rfl⟩ := Option.map_eq_some_iff.mp hx
      refine ⟨(Int64.ofNat j, v), List.mem_filter.mpr ⟨ExtTreeMap.mem_toList_iff_getElem?_eq_some.mpr hv, ?_⟩, ?_⟩
      · exact decide_eq_true (List.mem_map_of_mem hj)
      · have hj' := hlt j hj
        unfold pairOf
        rw [toInt_ofNat (by omega)]
        rfl
    · rintro ⟨p, hp, rfl⟩
      obtain ⟨hmem, hp⟩ := List.mem_filter.mp hp
      obtain ⟨j, hj, hid⟩ := List.mem_map.mp (of_decide_eq_true hp)
      have hj' := hlt j hj
      refine ⟨j, mem_distinct_sort_iff.mpr hj, ?_⟩
      rw [ExtTreeMap.mem_toList_iff_getElem?_eq_some, ← hid] at hmem
      rw [h.distanceTo_eq query hj', hmem, Option.map_some]
      unfold pairOf
      rw [← hid, toInt_ofNat (by omega)]
      rfl

/-- The order of the pairs is the order of the items' keys. -/
theorem nearestKey_le_iff (hitems : ∀ id ∈ items, 0 ≤ id) (query : List F) : ∀ p ∈ items.toList, ∀ p' ∈ items.toList,
    (Index.nearestKey metric query p ≤ Index.nearestKey metric query p' ↔ pairOf metric query p ≤ pairOf metric query p') := by
  rintro ⟨id, v⟩ hp ⟨id', v'⟩ hp'
  have hnonneg : ∀ {id : Int64} {v : List F}, (id, v) ∈ items.toList → 0 ≤ id.toInt := fun h => by
    rw [ExtTreeMap.mem_toList_iff_getElem?_eq_some] at h
    rw [← Int64.toInt_zero, ← Int64.le_iff_toInt_le]
    apply hitems
    rw [ExtTreeMap.mem_iff_isSome_getElem?, h]
    rfl
  have hid := hnonneg hp
  have hid' := hnonneg hp'
  unfold Index.nearestKey pairOf
  rw [Prod.Lex.toLex_le_toLex, Prod.Lex.toLex_le_toLex]
  refine or_congr_right (and_congr_right fun _ => ?_)
  dsimp only
  omega

/-- **The search of the nodes is the search of the model**: the same ids, with the same distances. -/
theorem getAllNns_eq (h : trees.Holds metric f items) (hitems : ∀ id ∈ items, 0 ≤ id) (hne : items ≠ ∅) {ix : Index F}
    (hf : ix.f = f) (hslots : ix.items.slots = items) (hforest : ix.forest = some (forestOf R M metric f trees))
    (query : List F) (n : Nat) (searchK : Int32) :
    ∃ found, trees.getAllNns (distanceOf M metric f : Distance F (Payload F) R) (maxDescendants metric f) (query.take f) n
      searchK = some found ∧
      ix.getNnsByVector metric query n searchK = found.map fun p => (Int64.ofNat p.1, p.2) := by
  subst hf hslots
  obtain ⟨-, visited, -, -, -, hreach, -⟩ :=
    exists_reach (D := (distanceOf M metric ix.f : Distance F (Payload F) R)) h.sound (query.take ix.f) n searchK
  have hperm := h.perm_nnsDist hitems hne hreach
  unfold Trees.getAllNns
  rw [hreach, Option.map_some]
  refine ⟨_, rfl, ?_⟩
  dsimp only
  rw [takeNearest_perm hperm fun _ _ _ _ => id]
  have hkeys := takeNearest_map (Index.nearestKey metric (query.take ix.f)) (fun p => p) (pairOf metric (query.take ix.f))
    (ix.items.slots.toList.filter fun p => decide (p.1 ∈ visited.flatten.map Int64.ofNat))
    (fun p hp p' hp' => nearestKey_le_iff hitems (query.take ix.f) p (List.mem_of_mem_filter hp) p'
      (List.mem_of_mem_filter hp')) n
  rw [hkeys]
  have hids : forestOf R M metric ix.f trees (query.take ix.f) n searchK = visited.flatten.map Int64.ofNat := by
    unfold forestOf
    rw [hreach, Option.getD_some]
  unfold Index.getNnsByVector
  rw [hforest]
  dsimp only
  rw [hids, List.map_map, List.map_map]
  apply List.map_congr_left
  intro p hp
  have hmem := (nearest_takeNearest _ n _).mem hp
  have hid := ofNat_toNat (hitems p.1 ?_)
  · exact Prod.ext hid.symm rfl
  · have hp := List.mem_of_mem_filter hmem
    rw [ExtTreeMap.mem_toList_iff_getElem?_eq_some] at hp
    rw [ExtTreeMap.mem_iff_isSome_getElem?, hp]
    rfl

end Trees.Holds

/-- **Where there is room for all items**, all are reached. -/
theorem subset_forestOf (h : trees.Holds metric f items) (hitems : ∀ id ∈ items, 0 ≤ id) (hne : items ≠ ∅)
    (hroots : trees.roots ≠ []) {query : List F} {n : Nat} {searchK : Int32}
    (hlimit : trees.roots.length * items.size ≤ searchLimit n trees.roots.length searchK) :
    ∀ id ∈ items, id ∈ forestOf R M metric f trees query n searchK := by
  obtain ⟨-, visited, -, -, -, hreach, -⟩ :=
    exists_reach (D := (distanceOf M metric f : Distance F (Payload F) R)) h.sound query n searchK
  have hlen := length_itemIndices metric f hitems
  have hall := reach_complete h.sound hroots ?_ (hlen.symm ▸ hlimit) hreach
  · intro id hid
    have hback := ofNat_toNat (hitems id hid)
    unfold forestOf
    rw [hreach, Option.getD_some]
    refine List.mem_map.mpr ⟨id.toInt.toNat, hall _ ?_, hback⟩
    exact mem_itemIndices_slotsOf.mpr ⟨lt_nItemsOf hitems hid, hback.symm ▸ hid⟩
  · rw [← List.length_pos_iff, hlen]
    exact Nat.pos_of_ne_zero fun h0 => hne (ExtTreeMap.eq_empty_iff_size_eq_zero.mpr h0)

end

/-! ## Calls -/

section
variable {metric : MetricType} {f : Nat}

/-- `add_item` for each of the calls. -/
def addItems (metric : MetricType) (f : Nat) (calls : List (Int64 × List F)) : List (Node (Payload F)) :=
  calls.foldl (fun memory c => addItem metric f memory c.1.toInt.toNat c.2) []

omit [LinearOrder F] in
/-- **The nodes after any calls** are the slots of the items, of which the last vector counts: with zeros between the ids. -/
theorem addItems_eq {calls : List (Int64 × List F)} (hcalls : ∀ c ∈ calls, 0 ≤ c.1) :
    addItems metric f calls =
      slotsOf metric f (calls.foldl (fun items c => items.insert c.1 c.2) (∅ : ExtTreeMap Int64 (List F))) := by
  have hmem : ∀ (calls : List (Int64 × List F)), (∀ c ∈ calls, 0 ≤ c.1) →
      ∀ id : Int64, id ∈ calls.foldl (fun items c => items.insert c.1 c.2) (∅ : ExtTreeMap Int64 (List F)) → 0 ≤ id := by
    intro calls hcalls
    induction calls using List.reverseRecOn with
    | nil => exact fun id hid => absurd hid ExtTreeMap.not_mem_empty
    | append_singleton calls c ih =>
      rw [List.forall_mem_append, List.forall_mem_singleton] at hcalls
      intro id hid
      rw [List.foldl_append, List.foldl_cons, List.foldl_nil, ExtTreeMap.mem_insert] at hid
      rcases hid with heq | hid
      · exact Std.LawfulEqOrd.eq_of_compare heq ▸ hcalls.2
      · exact ih hcalls.1 id hid
  unfold addItems
  induction calls using List.reverseRecOn with
  | nil =>
    unfold slotsOf nItemsOf
    rw [List.foldl_nil, List.foldl_nil, ExtTreeMap.maxKey?_empty]
    rfl
  | append_singleton calls c ih =>
    have hall := hcalls
    rw [List.forall_mem_append, List.forall_mem_singleton] at hcalls
    rw [List.foldl_append, List.foldl_append, List.foldl_cons, List.foldl_nil, List.foldl_cons, List.foldl_nil, ih hcalls.1]
    exact (slotsOf_insert (hmem calls hcalls.1) hcalls.2 c.2).symm

theorem addItems_eq_three : addItems .l2 1 [(2, [9]), (0, [0]), (2, [8])] =
    slotsOf .l2 1 ([((2 : Int64), [(9 : Int)]), (0, [0]), (2, [8])].foldl (fun items c => items.insert c.1 c.2) ∅) :=
  addItems_eq (by decide)

end

/-! ## Three integers -/

def threeItems : ExtTreeMap Int64 (List Int) := (((∅ : ExtTreeMap Int64 (List Int)).insert 0 [0]).insert 1 [3]).insert 2 [9]

theorem nItemsOf_threeItems : nItemsOf threeItems = 3 := by
  unfold nItemsOf threeItems
  rw [ExtTreeMap.maxKey?_insert, ExtTreeMap.maxKey?_insert, ExtTreeMap.maxKey?_insert, ExtTreeMap.maxKey?_empty]
  decide

theorem slotsOf_threeItems : slotsOf .l2 1 threeItems = [itemNode .l2 1 [0], itemNode .l2 1 [3], itemNode .l2 1 [9]] := by
  unfold slotsOf
  rw [nItemsOf_threeItems]
  decide +kernel

/-- Two trees with a split each. -/
theorem exists_treesOf_three : ∃ trees, treesOf Kiss64Random intFloatLibs exactFormats 5 .l2 1 threeItems 2 = some trees := by
  apply Option.isSome_iff_exists.mp
  unfold treesOf
  rw [slotsOf_threeItems]
  decide +kernel

theorem mem_threeItems_iff (id : Int64) : id ∈ threeItems ↔ id = 2 ∨ id = 1 ∨ id = 0 := by
  unfold threeItems
  simp only [ExtTreeMap.mem_insert, Std.LawfulEqCmp.compare_eq_iff_eq, ExtTreeMap.not_mem_empty, or_false]
  exact or_congr eq_comm (or_congr eq_comm eq_comm)

theorem nonneg_threeItems : ∀ id : Int64, id ∈ threeItems → 0 ≤ id := by
  intro id hid
  rcases (mem_threeItems_iff id).mp hid with rfl | rfl | rfl
  · decide
  · decide
  · decide

theorem threeItems_ne_empty : threeItems ≠ ∅ := by
  intro hempty
  have hmem : (2 : Int64) ∈ threeItems := ExtTreeMap.mem_insert_self
  rw [hempty] at hmem
  exact ExtTreeMap.not_mem_empty hmem

theorem trees_have_items_three : ∃ trees : Trees (Payload Int),
    ((2 : Int32) ≠ -1 → trees.roots.length = VectorSimilarity.toSizeT (2 : Int32).toInt) ∧ trees.roots.Nodup ∧
      ∀ root ∈ trees.roots, ∃ t, Unfolds (kids (maxDescendants .l2 1) trees.nItems trees.nodes) root t ∧
        (∀ id ∈ threeItems, id.toInt.toNat ∈ t.elems) ∧
        (maxDescendants .l2 1 < nItemsOf threeItems → t.elems.Perm (threeItems.keys.map fun id => id.toInt.toNat)) := by
  obtain ⟨trees, h⟩ := exists_treesOf_three
  exact ⟨trees, trees_have_items nonneg_threeItems threeItems_ne_empty h⟩

theorem length_threeItems {id : Int64} {v : List Int} (h : threeItems[id]? = some v) : v.length = 1 := by
  unfold threeItems at h
  simp only [ExtTreeMap.getElem?_insert, ExtTreeMap.getElem?_empty] at h
  split at h
  · exact Option.some.inj h ▸ rfl
  · split at h
    · exact Option.some.inj h ▸ rfl
    · split at h
      · exact Option.some.inj h ▸ rfl
      · cases h

def threeSlots : Items Int 1 where
  slots := threeItems
  nonneg_of_slot id _ h := nonneg_threeItems id (ExtTreeMap.mem_iff_isSome_getElem?.mpr (h ▸ rfl))
  length_of_slot _ _ h := length_threeItems h

theorem getAllNns_eq_three : ∃ (trees : Trees (Payload Int)) (found : List (Nat × Int)),
    trees.getAllNns (distanceOf intFloatLibs .l2 1 : Distance Int (Payload Int) Kiss64Random) (maxDescendants .l2 1)
      (([1] : List Int).take 1) 2 (-1) = some found ∧
    (⟨1, threeSlots, some (forestOf Kiss64Random intFloatLibs .l2 1 trees), false⟩ : Index Int).getNnsByVector .l2 [1] 2 (-1) =
      found.map fun p => (Int64.ofNat p.1, p.2) := by
  obtain ⟨trees, h⟩ := exists_treesOf_three
  exact ⟨trees, (holds_of_treesOf nonneg_threeItems threeItems_ne_empty h).1.getAllNns_eq nonneg_threeItems
    threeItems_ne_empty rfl rfl rfl [1] 2 (-1)⟩

end Annoy
end VectorDb
