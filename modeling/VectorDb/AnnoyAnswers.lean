import VectorDb.AnnoyFile
import VectorDb.AnnoyRestart

/-!
# The answers of an index with its trees

* `itemsOf`, `nodeLibs` : an `AnnoyIndex` whose forest is made of nodes, and whose file has them;
* `itemsOf_eq` : the items are read back from the nodes;
* `exists_holds_load` : what is loaded holds the items, and its trees are sound;
* `load_finds_trees` : a file that was saved is loaded with its trees;
* `answers_of_reached` : where every item is reached, the answer is right;
* `found_of_searchVectors` : whatever is reached, the entries are live items at their distances, the nearest first;
* `answers_of_trees`, `answers_after_load` : a small index is searched without loss, also when it was saved and loaded.
-/

namespace VectorDb
open Std (ExtTreeMap)
open AnnoyIndex (MetricType)

variable {F D R : Type}

namespace Annoy

/-! ## Items from nodes -/

/-- A slot with an item. -/
def loadSlot {f : Nat} (nodes : List (Node (Payload F))) (items : Items F f) (j : Nat) : Items F f :=
  match nodes[j]? with
  | none => items
  | some nd =>
    if h : nd.nDescendants = 1 ∧ 0 ≤ Int64.ofNat j ∧ nd.value.v.length = f then
      items.insert (Int64.ofNat j) nd.value.v h.2.1 h.2.2
    else items

/-- The items of nodes that were mapped from a file. -/
def itemsOf (f : Nat) (trees : Trees (Payload F)) : Items F f :=
  (List.range trees.nItems).foldl (fun items j => loadSlot trees.nodes items j) .empty

theorem slots_loadSlot_of_ne {f : Nat} (nodes : List (Node (Payload F))) (items : Items F f) {j : Nat} {id : Int64}
    (h : Int64.ofNat j ≠ id) : (loadSlot nodes items j).slots[id]? = items.slots[id]? := by
  unfold loadSlot
  split
  · rfl
  · split
    · unfold Items.insert
      dsimp only
      rw [ExtTreeMap.getElem?_insert, if_neg fun heq => h (Std.LawfulEqOrd.eq_of_compare heq)]
    · rfl

theorem loadSlot_of_none {f : Nat} {nodes : List (Node (Payload F))} {items : Items F f} {j : Nat} {nd : Node (Payload F)}
    (hnd : nodes[j]? = some nd) (hno : nd.nDescendants ≠ 1) : loadSlot nodes items j = items := by
  unfold loadSlot
  rw [hnd]
  exact dif_neg fun h => hno h.1

theorem slots_loadSlot_self {f : Nat} {nodes : List (Node (Payload F))} {items : Items F f} {j : Nat} {nd : Node (Payload F)}
    (hnd : nodes[j]? = some nd) (hone : nd.nDescendants = 1) (hnonneg : 0 ≤ Int64.ofNat j) (hlen : nd.value.v.length = f) :
    (loadSlot nodes items j).slots[Int64.ofNat j]? = some nd.value.v := by
  unfold loadSlot
  rw [hnd]
  dsimp only
  rw [dif_pos ⟨hone, hnonneg, hlen⟩]
  exact ExtTreeMap.getElem?_insert_self

theorem zero_le_ofNat {j : Nat} (h : j < 2 ^ 63) : 0 ≤ Int64.ofNat j := by
  rw [Int64.le_iff_toInt_le, Int64.toInt_zero, toInt_ofNat h]
  exact Int.natCast_nonneg j

section
variable {metric : MetricType} {f : Nat} {items : Items F f} {trees : Trees (Payload F)}

/-- The items of the file are those of the nodes. -/
theorem itemsOf_eq [FloatArith F] (h : trees.Holds metric f items.slots) : itemsOf f trees = items := by
  have hitems := items.nonneg_of_mem
  have hn := nItemsOf_le items.slots
  -- up to slot `n`
  have hupto : ∀ n ≤ nItemsOf items.slots, ∀ id : Int64,
      ((List.range n).foldl (loadSlot trees.nodes) (.empty : Items F f)).slots[id]? =
        if id.toInt.toNat < n then items.slots[id]? else none := by
    intro n
    induction n with
    | zero =>
      intro _ id
      rw [if_neg (Nat.not_lt_zero _)]
      exact ExtTreeMap.getElem?_empty
    | succ n ih =>
      intro hle id
      have hn' : n < 2 ^ 63 := by omega
      rw [List.range_succ, List.foldl_append, List.foldl_cons, List.foldl_nil]
      by_cases hid : Int64.ofNat n = id
      · subst hid
        have hback : (Int64.ofNat n).toInt.toNat = n := by
          rw [toInt_ofNat hn']
          rfl
        obtain ⟨nd, hnd, hmatch⟩ := h.node n (by omega)
        rw [hback, if_pos (Nat.lt_succ_self n)]
        cases hslot : items.slots[Int64.ofNat n]? with
        | none =>
          rw [hslot] at hmatch
          rw [loadSlot_of_none hnd fun hone => by omega, ih (by omega), hback, if_neg (Nat.lt_irrefl n)]
        | some v =>
          rw [hslot] at hmatch
          obtain ⟨hone, hv, -⟩ := hmatch
          have hlen := items.length_of_slot _ v hslot
          rw [slots_loadSlot_self hnd hone (zero_le_ofNat hn') (hv.symm ▸ hlen), hv]
      · rw [slots_loadSlot_of_ne _ _ hid, ih (by omega)]
        cases hslot : items.slots[id]? with
        | none => rw [ite_self, ite_self]
        | some v =>
          have hback := ofNat_toNat (items.nonneg_of_slot id v hslot)
          have hne : id.toInt.toNat ≠ n := fun heq => hid (heq ▸ hback)
          by_cases hlt : id.toInt.toNat < n
          · rw [if_pos hlt, if_pos (by omega)]
          · rw [if_neg hlt, if_neg (by omega)]
  apply Items.ext
  unfold itemsOf
  apply ExtTreeMap.ext_getElem?
  intro id
  rw [h.nItems_eq, hupto _ (Nat.le_refl _)]
  split
  · rfl
  · next hge =>
    symm
    apply ExtTreeMap.getElem?_eq_none
    exact fun hmem => hge (lt_nItemsOf hitems hmem)

end

/-! ## The library -/

/-- Trees of `q` for vectors of length `f`. `errno` is what `strerror` adds to a message; `nodes` are the nodes of an index
whose forest was made of its items. -/
def nodeLibs (R : Type) [FloatArith F] [FloatArith D] [LinearOrder F] [Random R] (M : FloatLibs F D) (fp : Formats)
    (rounds f : Nat) (q : Int32) (errno : Bytes) : Libs F where
  File := List (Node (Payload F))
  makeForest metric items q := ((treesOf R M fp rounds metric f items q).map (forestOf R M metric f)).getD fun _ _ _ => []
  nodes metric f items _ := ((treesOf R M fp rounds metric f items.slots q).map Trees.nodes).getD []
  readNodes metric f file :=
    match loadTrees file with
    | none => .error (ascii "Size of file is zero: " ++ errno)
    | some trees => .ok (itemsOf f trees, forestOf R M metric f trees)
  infinity := M.infinity

section
variable [FloatArith F] [FloatArith D] [LinearOrder F] [Random R] {M : FloatLibs F D} {fp : Formats} {rounds f : Nat}
  {metric : MetricType} {items : ExtTreeMap Int64 (List F)} {trees : Trees (Payload F)} {q : Int32}

omit [FloatArith F] [LinearOrder F] [FloatArith D] in
/-- Trees are added to the ones there are. -/
theorem exists_roots_append {V : Type} {d : Distance F V R} {K n fuel : Nat} {memory memory' : List (Node V)}
    {roots roots' : List Nat} {random : R}
    (h : buildTrees d fp K rounds q n fuel memory roots random = some (memory', roots')) : ∃ more, roots' = roots ++ more := by
  induction fuel generalizing memory roots random with
  | zero =>
    unfold buildTrees at h
    split at h
    · cases h
      exact ⟨[], (List.append_nil _).symm⟩
    · cases h
  | succ fuel ih =>
    unfold buildTrees at h
    split at h
    · cases h
      exact ⟨[], (List.append_nil _).symm⟩
    · obtain ⟨made, -, h⟩ := Option.bind_eq_some_iff.mp h
      obtain ⟨more, rfl⟩ := ih h
      exact ⟨made.1 :: more, by rw [List.append_assoc, List.singleton_append]⟩

omit [FloatArith F] [LinearOrder F] [FloatArith D] in
/-- Where the first look finds too few trees, one is made. -/
theorem roots_ne_nil_of_buildTrees {V : Type} {d : Distance F V R} {K n fuel : Nat} {memory memory' : List (Node V)}
    {roots : List Nat} {random : R} (hno : enough q n memory.length 0 = false)
    (h : buildTrees d fp K rounds q n fuel memory [] random = some (memory', roots)) : roots ≠ [] := by
  cases fuel with
  | zero =>
    unfold buildTrees at h
    rw [List.length_nil, hno] at h
    cases h
  | succ fuel =>
    unfold buildTrees at h
    rw [List.length_nil, hno] at h
    obtain ⟨made, -, h⟩ := Option.bind_eq_some_iff.mp h
    obtain ⟨more, rfl⟩ := exists_roots_append h
    exact List.cons_ne_nil _ _

/-- There is a root, unless none is asked for. -/
theorem roots_ne_nil (hne : items ≠ ∅) (hq : q ≠ 0) (h : treesOf R M fp rounds metric f items q = some trees) :
    trees.roots ≠ [] := by
  have hpos := nItemsOf_pos hne
  unfold treesOf build at h
  obtain ⟨⟨memory, roots⟩, hthread, h⟩ := Option.bind_eq_some_iff.mp h
  cases h
  unfold threadBuild at hthread
  apply roots_ne_nil_of_buildTrees ?_ hthread
  rw [length_setValues, length_slotsOf]
  · unfold enough
    split
    · exact decide_eq_false (by omega)
    · have hint : q.toInt ≠ 0 := fun h0 => hq (Int32.toInt_inj.mp h0)
      have hlow := q.le_toInt
      have hhigh := q.toInt_lt
      unfold VectorSimilarity.toSizeT
      exact decide_eq_false (by omega)
  · rw [Distance.length_preprocess, List.length_map]

/-- As many trees as were asked for. -/
theorem length_roots (hitems : ∀ id ∈ items, 0 ≤ id) (hne : items ≠ ∅) (hq : 1 ≤ q)
    (h : treesOf R M fp rounds metric f items q = some trees) : (trees.roots.length : Int) = q.toInt := by
  obtain ⟨-, hlen, -⟩ := holds_of_treesOf hitems hne h
  have hall : q ≠ -1 := by
    rintro rfl
    exact absurd hq (by decide)
  rw [Int32.le_iff_toInt_le, Int32.toInt_one] at hq
  have hlt := q.toInt_lt
  have hlen := hlen hall
  unfold VectorSimilarity.toSizeT at hlen
  omega

/-- The bytes of a slot that `children` takes are zero. -/
theorem firstChild_zero (hitems : ∀ id ∈ items, 0 ≤ id) (hne : items ≠ ∅)
    (h : treesOf R M fp rounds metric f items q = some trees) : firstChild trees.nodes (some 0) = some 0 := by
  have hpos := nItemsOf_pos hne
  have hslots : slotsOf metric f items ≠ [] := by
    rw [← List.length_pos_iff, length_slotsOf]
    exact hpos
  unfold treesOf at h
  obtain ⟨-, -, -, htake⟩ := build_spec (slots_slotsOf hitems) hslots (one_le_maxDescendants metric f)
    (length_slotsOf.trans_le (nItemsOf_le items)) h
  have hchildren : ∀ nd ∈ slotsOf metric f items, nd.children = [0, 0] := by
    intro nd hnd
    unfold slotsOf at hnd
    obtain ⟨j, -, rfl⟩ := List.mem_map.mp hnd
    cases items[Int64.ofNat j]? with
    | none => rfl
    | some v => rfl
  rw [length_slotsOf] at htake
  obtain ⟨nd, hnd, -⟩ := (holds_of_treesOf hitems hne h).1.node 0 hpos
  have hfirst := hnd
  rw [← List.getElem?_take_of_lt hpos, htake] at hfirst
  unfold setValues at hfirst
  obtain ⟨slot, value, hslot, -, rfl⟩ := List.getElem?_zipWith_eq_some.mp hfirst
  unfold firstChild
  rw [Option.bind_some, hnd, Option.map_some, hchildren slot (List.mem_of_getElem? hslot)]
  rfl

/-- **What is loaded** holds the items, in at least as many trees, and in at most twice as many. -/
theorem exists_holds_load (hitems : ∀ id ∈ items, 0 ≤ id) (hne : items ≠ ∅) (hq : q ≠ 0)
    (h : treesOf R M fp rounds metric f items q = some trees) : ∃ loaded, loadTrees trees.nodes = some loaded ∧
      loaded.Holds metric f items ∧ trees.roots.length ≤ loaded.roots.length ∧
      loaded.roots.length ≤ 2 * trees.roots.length := by
  obtain ⟨hholds, -, memory, copies, hlayout, -⟩ := holds_of_treesOf hitems hne h
  have hpos := nItemsOf_pos hne
  obtain ⟨loaded, hload, hnodes, hn, hsound, hge, hle⟩ := loadTrees_spec hlayout (roots_ne_nil hne hq h)
    (one_le_maxDescendants metric f) (hholds.nItems_eq ▸ hpos) (firstChild_zero hitems hne h)
  refine ⟨loaded, hload, ⟨hn.trans hholds.nItems_eq, hsound, fun j hj => ?_⟩, hge, hle⟩
  rw [hnodes]
  exact hholds.node j hj

/-- **The file is a round trip**: from the nodes alone, `load` finds the items again, and roots of trees that have every
item, one for each tree that was built, or more. -/
theorem load_finds_trees {items : Items F f} (hne : items.slots ≠ ∅) (hq : q ≠ 0)
    (h : treesOf R M fp rounds metric f items.slots q = some trees) : ∃ loaded, loadTrees trees.nodes = some loaded ∧
      itemsOf f loaded = items ∧ trees.roots.length ≤ loaded.roots.length ∧
      loaded.roots.length ≤ 2 * trees.roots.length ∧
      ∀ root ∈ loaded.roots, ∃ t, Unfolds (kids (maxDescendants metric f) loaded.nItems loaded.nodes) root t ∧
        (∀ id ∈ items.slots, id.toInt.toNat ∈ t.elems) ∧
        (maxDescendants metric f < nItemsOf items.slots → t.elems.Perm (items.slots.keys.map fun id => id.toInt.toNat)) := by
  obtain ⟨loaded, hload, hholds, hge, hle⟩ := exists_holds_load items.nonneg_of_mem hne hq h
  exact ⟨loaded, hload, itemsOf_eq hholds, hge, hle, fun root hroot => hholds.exists_tree items.nonneg_of_mem hroot⟩

/-- The file that is saved is read back. -/
theorem exists_readNodes (f' : Nat) {items : Items F f} (hne : items.slots ≠ ∅) (hq : q ≠ 0)
    (h : treesOf R M fp rounds metric f items.slots q = some trees) (errno : Bytes) (forest : Forest F) :
    ∃ loaded : Trees (Payload F), loaded.Holds metric f items.slots ∧ loaded.roots ≠ [] ∧
      loaded.roots.length ≤ 2 * trees.roots.length ∧
      (nodeLibs R M fp rounds f' q errno).readNodes metric f
        ((nodeLibs R M fp rounds f' q errno).nodes metric f items forest) = .ok (items, forestOf R M metric f loaded) := by
  obtain ⟨loaded, hload, hholds, hge, hle⟩ := exists_holds_load items.nonneg_of_mem hne hq h
  have hroots : loaded.roots ≠ [] := by
    rw [← List.length_pos_iff]
    exact (List.length_pos_iff.mpr (roots_ne_nil hne hq h)).trans_le hge
  refine ⟨loaded, hholds, hroots, hle, ?_⟩
  unfold nodeLibs
  dsimp only
  rw [h, Option.map_some, Option.getD_some, hload]
  dsimp only
  rw [itemsOf_eq hholds]

end

theorem load_finds_trees_three : ∃ trees loaded : Trees (Payload Int), loadTrees trees.nodes = some loaded ∧
    itemsOf 1 loaded = threeSlots ∧ trees.roots.length ≤ loaded.roots.length ∧
    loaded.roots.length ≤ 2 * trees.roots.length ∧
    ∀ root ∈ loaded.roots, ∃ t, Unfolds (kids (maxDescendants .l2 1) loaded.nItems loaded.nodes) root t ∧
      (∀ id ∈ threeSlots.slots, id.toInt.toNat ∈ t.elems) ∧
      (maxDescendants .l2 1 < nItemsOf threeSlots.slots →
        t.elems.Perm (threeSlots.slots.keys.map fun id => id.toInt.toNat)) := by
  obtain ⟨trees, h⟩ := exists_treesOf_three
  exact ⟨trees, load_finds_trees threeItems_ne_empty (by decide) h⟩

end Annoy

namespace AnnoyIndex
open AnnoyCall (Inserts Builds)

variable [FloatArith F] [LinearOrder F]

/-! ## Where every item is reached -/

/-- Every item is in `nns`. -/
def Reached (ix : AnnoyIndex F) (query : List F) (n : Nat) (searchK : Int32) : Prop :=
  ∀ id ∈ ix.index.items.slots, ∃ forest, ix.index.forest = some forest ∧ id ∈ forest query n searchK

section
variable {ix ix' : AnnoyIndex F} {query : List F} {n : Nat} {searchK : Int32}

/-- The candidates are the nearest items, where all are reached. -/
theorem getNnsByVector_of_reached (hlen : query.length = ix.index.f) (hall : ix.Reached query n searchK) :
    ix.index.getNnsByVector ix.metric query n searchK = (ix.firstItems query n).map (entryOf ix.metric query) := by
  unfold Annoy.Index.getNnsByVector firstItems
  have hmem : ∀ p ∈ ix.index.items.slots.toList, p.1 ∈ ix.index.items.slots := by
    intro p hp
    rw [ExtTreeMap.mem_iff_isSome_getElem?, ExtTreeMap.mem_toList_iff_getElem?_eq_some.mp hp]
    rfl
  cases hforest : ix.index.forest with
  | none =>
    have hnil : ix.index.items.slots.toList = [] := by
      apply List.eq_nil_iff_forall_not_mem.mpr
      intro p hp
      obtain ⟨forest, hsome, -⟩ := hall p.1 (hmem p hp)
      rw [hforest] at hsome
      cases hsome
    unfold takeNearest
    rw [hnil, List.insertionSort_nil, List.take_nil, List.map_nil]
  | some forest =>
    have hkeep : (ix.index.items.slots.toList.filter fun p => decide (p.1 ∈ forest query n searchK)) =
        ix.index.items.slots.toList := by
      apply List.filter_eq_self.mpr
      intro p hp
      obtain ⟨forest', hsome, hid⟩ := hall p.1 (hmem p hp)
      rw [hforest] at hsome
      cases hsome
      exact decide_eq_true hid
    dsimp only
    rw [List.take_of_length_le hlen.le, hkeep]
    rfl

/-- With at most `n` items, all are among the first `n`. -/
theorem liveFirst_perm (query : List F) (hsize : ix.index.items.slots.size ≤ n) (bitmap : Option (Finset UInt32)) :
    (ix.liveFirst query n bitmap).Perm (ix.liveItems bitmap) := by
  have hlen : ix.index.items.slots.toList.length ≤ n := by rwa [ExtTreeMap.length_toList]
  exact ((nearest_takeNearest _ n _).perm_of_le hlen).filter _

/-- What the loop picks, where all items are reached. -/
theorem pickLive_of_reached (hlen : query.length = ix.index.f) (hids : ∀ id ∈ ix.index.items.slots, id.toInt < 2 ^ 32)
    (hall : ix.Reached query n searchK) (k : Nat) (bitmap : Option (Finset UInt32)) :
    pickLive (ix.isLive bitmap) (ix.index.getNnsByVector ix.metric query n searchK) k =
      ((ix.liveFirst query n bitmap).take k).map (entryOf ix.metric query) := by
  rw [pickLive_eq, getNnsByVector_of_reached hlen hall, List.filter_map, ← List.map_take]
  congr 2
  apply List.filter_congr
  intro p hp
  apply isLive_eq (zero_le_of_mem_firstItems hp)
  apply hids
  rw [ExtTreeMap.mem_iff_isSome_getElem?, mem_slots_of_mem_firstItems hp]
  rfl

/-- The first `k` live ones of the first `n` items answer the query, where these are all. -/
theorem answers_of_liveFirst (L : Annoy.Libs F) (hsize : ix.index.items.slots.size ≤ n) (k : Nat)
    (bitmap : Option (Finset UInt32)) : Answers L ix query k bitmap
      (((ix.liveFirst query n bitmap).take k).map (entryOf ix.metric query) ++
        List.replicate (k - ((ix.liveFirst query n bitmap).take k).length) (-1, L.infinity)) := by
  have hmono : ∀ p q : Int64 × List F,
      Annoy.Index.nearestKey ix.metric query p ≤ Annoy.Index.nearestKey ix.metric query q →
      ix.metric.distance query p.2 ≤ ix.metric.distance query q.2 := fun p q hpq => Prod.Lex.monotone_fst_ofLex hpq
  have hperm := liveFirst_perm query hsize bitmap
  have hnear : Nearest (fun p => ix.metric.distance query p.2) k (ix.liveItems bitmap)
      ((ix.liveFirst query n bitmap).take k) :=
    (nearest_filter_iff hmono n k).mpr ((Nat.min_le_right _ _).trans hperm.length_eq.ge)
  refine ⟨?_, _, hnear, ?_, rfl⟩
  · have hle : ((ix.liveFirst query n bitmap).take k).length ≤ k := List.length_take_le _ _
    rw [List.length_append, List.length_map, List.length_replicate]
    omega
  · exact hnear.nodup_map ((nodup_ids _).sublist (List.filter_sublist.map _))

/-- **A search that reaches every item** answers the query, where `4 * k` candidates are all items. -/
theorem answers_of_reached {L : Annoy.Libs F} {k : Int32} {bitmap : Option (Finset UInt32)} {entries : List (Int64 × F)}
    (hk : 0 < k) (h : ix.searchVectors L query k bitmap searchK = .ok (ix', entries)) (hlen : query.length = ix'.index.f)
    (hids : ∀ id ∈ ix'.index.items.slots, id.toInt < 2 ^ 32) (hsize : ix'.index.items.slots.size ≤ 4 * k.toInt.toNat)
    (hall : ix'.Reached query (4 * k.toInt.toNat) searchK) : Answers L ix' query k.toInt.toNat bitmap entries := by
  obtain ⟨-, -, -, rfl⟩ := (searchVectors_eq_ok_iff L hk).mp h
  have hn : (k.toInt * 4).toNat = 4 * k.toInt.toNat := by omega
  dsimp only
  rw [hn, pickLive_of_reached hlen hids hall, List.length_map]
  exact answers_of_liveFirst L hsize k.toInt.toNat bitmap

/-- **Whatever is reached**, the entries are live items, each once and at its own distance, the nearest first, and padding
behind them. -/
theorem found_of_searchVectors {L : Annoy.Libs F} {k : Int32} {bitmap : Option (Finset UInt32)}
    {entries : List (Int64 × F)} (hk : 0 < k) (h : ix.searchVectors L query k bitmap searchK = .ok (ix', entries))
    (hlen : query.length = ix'.index.f) (hids : ∀ id ∈ ix'.index.items.slots, id.toInt < 2 ^ 32) :
    ∃ found : List (Int64 × List F), found.length ≤ k.toInt.toNat ∧ (∀ p ∈ found, p ∈ ix'.liveItems bitmap) ∧
      (found.map Prod.fst).Nodup ∧ found.Pairwise (fun p q => ix'.metric.distance query p.2 ≤ ix'.metric.distance query q.2) ∧
      entries = found.map (entryOf ix'.metric query) ++ List.replicate (k.toInt.toNat - found.length) (-1, L.infinity) := by
  obtain ⟨-, -, -, rfl⟩ := (searchVectors_eq_ok_iff L hk).mp h
  obtain ⟨nns, hnns⟩ : ∃ nns : List Int64, ix'.index.getNnsByVector ix'.metric query (k.toInt * 4).toNat searchK =
      (takeNearest (Annoy.Index.nearestKey ix'.metric query) (k.toInt * 4).toNat
        (ix'.index.items.slots.toList.filter fun p => decide (p.1 ∈ nns))).map (entryOf ix'.metric query) := by
    unfold Annoy.Index.getNnsByVector
    cases ix'.index.forest with
    | none =>
      refine ⟨[], ?_⟩
      unfold takeNearest
      simp
    | some forest =>
      refine ⟨forest query (k.toInt * 4).toNat searchK, ?_⟩
      dsimp only
      rw [List.take_of_length_le hlen.le]
      rfl
  have hnear := nearest_takeNearest (Annoy.Index.nearestKey ix'.metric query) (k.toInt * 4).toNat
    (ix'.index.items.slots.toList.filter fun p => decide (p.1 ∈ nns))
  have hslot : ∀ p ∈ takeNearest (Annoy.Index.nearestKey ix'.metric query) (k.toInt * 4).toNat
      (ix'.index.items.slots.toList.filter fun p => decide (p.1 ∈ nns)), p ∈ ix'.index.items.slots.toList :=
    fun p hp => List.mem_of_mem_filter (hnear.mem hp)
  have hlive : ∀ p ∈ ix'.index.items.slots.toList,
      ix'.isLive bitmap p.1 = (decide (p.1 ∉ ix'.deletedIds) && allowed bitmap p.1) := by
    intro p hp
    have hmem : p.1 ∈ ix'.index.items.slots := by
      rw [ExtTreeMap.mem_iff_isSome_getElem?, ExtTreeMap.mem_toList_iff_getElem?_eq_some.mp hp]
      rfl
    exact isLive_eq (ix'.index.items.nonneg_of_mem p.1 hmem) (hids p.1 hmem) bitmap
  dsimp only
  rw [hnns, pickLive_eq, List.filter_map, ← List.map_take, List.length_map]
  refine ⟨_, List.length_take_le _ _, fun p hp => ?_, ?_, ?_, rfl⟩
  · obtain ⟨hp, hyes⟩ := List.mem_filter.mp (List.mem_of_mem_take hp)
    exact List.mem_filter.mpr ⟨hslot p hp, hlive p (hslot p hp) ▸ hyes⟩
  · have hnodup : ((ix'.index.items.slots.toList.filter fun p => decide (p.1 ∈ nns)).map Prod.fst).Nodup :=
      (nodup_ids _).sublist (List.filter_sublist.map _)
    exact (hnear.nodup_map hnodup).sublist (((List.take_sublist _ _).trans List.filter_sublist).map _)
  · refine (hnear.sorted.sublist ((List.take_sublist _ _).trans List.filter_sublist)).imp ?_
    intro p q hpq
    exact Prod.Lex.monotone_fst_ofLex hpq

end

/-! ## The trees of a run -/

section
variable [FloatArith D] [Annoy.Random R] {M : Annoy.FloatLibs F D} {fp : Annoy.Formats} {rounds : Nat} {errno : Bytes}
  {metric : MetricType} {f : Nat} {items : ExtTreeMap Int64 (List F)} {trees : Annoy.Trees (Annoy.Payload F)}

omit [LinearOrder F] in
/-- `search_k` as the wrapper leaves it. -/
theorem searchLimit_default {n trees : Nat} (h : n * trees < 2 ^ 31) : Annoy.searchLimit n trees (-1) = n * trees := by
  unfold Annoy.searchLimit VectorSimilarity.toSizeT
  rw [if_pos rfl, Int32.toInt_ofNat_of_lt h]
  omega

omit [FloatArith F] [FloatArith D] [LinearOrder F] [Annoy.Random R] in
theorem mul_toNat_lt {k : Int32} {trees : Nat} {limit : Int} (htrees : (trees : Int) ≤ limit)
    (h : 4 * k.toInt * limit < 2 ^ 31) (hk : 0 < k) : 4 * k.toInt.toNat * trees < 2 ^ 31 := by
  rw [Int32.lt_iff_toInt_lt, Int32.toInt_zero] at hk
  have hcast : ((4 * k.toInt.toNat * trees : Nat) : Int) = 4 * k.toInt * trees := by
    rw [Nat.cast_mul, Nat.cast_mul, Int.toNat_of_nonneg hk.le]
    rfl
  have hle : 4 * k.toInt * (trees : Int) ≤ 4 * k.toInt * limit := mul_le_mul_of_nonneg_left htrees (by omega)
  omega

/-- Trees with room for all items reach all items. -/
theorem reached_of_holds (ix : AnnoyIndex F) (hholds : trees.Holds metric f ix.index.items.slots) (hroots : trees.roots ≠ [])
    (hforest : ix.index.items.slots ≠ ∅ → ix.index.forest = some (Annoy.forestOf R M metric f trees)) {query : List F} {n : Nat}
    (hsize : ix.index.items.slots.size ≤ n) (hroom : n * trees.roots.length < 2 ^ 31) : ix.Reached query n (-1) := by
  intro id hid
  have hne : ix.index.items.slots ≠ ∅ := by
    intro hempty
    rw [hempty] at hid
    exact ExtTreeMap.not_mem_empty hid
  refine ⟨_, hforest hne, Annoy.subset_forestOf hholds ix.index.items.nonneg_of_mem hne hroots ?_ id hid⟩
  rw [searchLimit_default hroom, Nat.mul_comm]
  exact Nat.mul_le_mul_right _ hsize

/-- What a search of a run leaves. -/
theorem tracks_of_search {L : Annoy.Libs F} {dim nTrees k searchK : Int32} {fresh ix ix' : AnnoyIndex F}
    {calls : List (AnnoyCall F)} (hfresh : init dim metric nTrees = .ok fresh) (hrun : Run (Step L) fresh calls ix)
    {query : List F} {bitmap : Option (Finset UInt32)} {entries : List (Int64 × F)} (hk : 0 < k)
    (h : ix.searchVectors L query k bitmap searchK = .ok (ix', entries)) :
    ix'.metric = metric ∧ ix'.index.f = dim.toInt.toNat ∧ ix'.index.items.slots = ix.index.items.slots ∧
      (ix'.index.items.slots ≠ ∅ →
        ix'.index.forest = some (L.makeForest metric ix'.index.items.slots nTrees)) := by
  have hs : Step L ix (.searchVectors query k bitmap searchK) ix' := congrArg (Except.map Prod.fst) h
  have ht := tracks hfresh (hrun.snoc hs)
  have hbefore := tracks hfresh hrun
  obtain ⟨-, hre, -, -⟩ := (searchVectors_eq_ok_iff L hk).mp h
  have hclean := needRebuild_of_rebuildIfNeeded L hbefore.loaded hre
  obtain ⟨rfl, rfl, hdim⟩ : fresh.metric = metric ∧ fresh.nTrees = nTrees ∧ fresh.index.f = dim.toInt.toNat := by
    rw [eq_of_init hfresh]
    exact ⟨rfl, rfl, rfl⟩
  refine ⟨ht.metric, ht.f.trans hdim, ?_, fun hne => ?_⟩
  · rw [ht.slots, hbefore.slots, insertedBy_concat]
    rfl
  · rw [ht.forest hclean hne, ht.metric, ht.nTrees]

/-- **A small index is searched without loss**: with at most `4 * k` items, a search with the default `search_k` finds the `k`
nearest live items, whatever planes and bits its trees were made with. -/
theorem answers_of_trees {dim nTrees k : Int32} {fresh ix ix' : AnnoyIndex F} {calls : List (AnnoyCall F)}
    (hfresh : init dim metric nTrees = .ok fresh) (hq : 1 ≤ nTrees)
    (hrun : Run (Step (Annoy.nodeLibs R M fp rounds dim.toInt.toNat nTrees errno)) fresh calls ix)
    (htrees : Annoy.treesOf R M fp rounds metric dim.toInt.toNat ix.index.items.slots nTrees = some trees)
    (hids : ∀ id ∈ ix.index.items.slots, id.toInt < 2 ^ 32) {query : List F} (hquery : (query.length : Int) = dim.toInt)
    (hk : 0 < k) (hsize : ix.index.items.slots.size ≤ 4 * k.toInt.toNat) (hroom : 4 * k.toInt * nTrees.toInt < 2 ^ 31)
    {bitmap : Option (Finset UInt32)} {entries : List (Int64 × F)}
    (h : ix.searchVectors (Annoy.nodeLibs R M fp rounds dim.toInt.toNat nTrees errno) query k bitmap (-1) = .ok (ix', entries)) :
    Answers (Annoy.nodeLibs R M fp rounds dim.toInt.toNat nTrees errno) ix' query k.toInt.toNat bitmap entries := by
  obtain ⟨hmetric, hf, hslots, hforest⟩ := tracks_of_search hfresh hrun hk h
  rw [← hslots] at htrees hids hsize
  apply answers_of_reached hk h (by omega) hids hsize
  intro id hid
  have hne : ix'.index.items.slots ≠ ∅ := by
    intro hempty
    rw [hempty] at hid
    exact ExtTreeMap.not_mem_empty hid
  obtain ⟨hholds, -⟩ := Annoy.holds_of_treesOf ix'.index.items.nonneg_of_mem hne htrees
  have hcount := Annoy.length_roots ix'.index.items.nonneg_of_mem hne hq htrees
  refine reached_of_holds (R := R) (M := M) ix' hholds ?_ (fun _ => ?_) hsize (mul_toNat_lt hcount.le hroom hk) id hid
  · rw [← List.length_pos_iff]
    rw [Int32.le_iff_toInt_le, Int32.toInt_one] at hq
    omega
  · rw [hforest hne]
    unfold Annoy.nodeLibs
    dsimp only
    rw [htrees]
    rfl

/-- An index that was saved was built, and has items. -/
theorem exists_built_of_save {L : Annoy.Libs F} {dim nTrees : Int32} {fresh ix saved : AnnoyIndex F} {file : L.File}
    {calls : List (AnnoyCall F)} (hfresh : init dim metric nTrees = .ok fresh) (hrun : Run (Step L) fresh calls ix)
    (hsave : ix.saveIndex L none = .ok (saved, file)) :
    ix.index.items.slots ≠ ∅ ∧ ∃ ix₁, ix.rebuildIfNeeded L = .ok ix₁ := by
  have hbefore := tracks hfresh hrun
  cases hre : ix.rebuildIfNeeded L with
  | error e =>
    unfold saveIndex at hsave
    rw [hre] at hsave
    cases hsave
  | ok ix₁ =>
    have ht : Tracks L fresh (calls ++ [.ensureBuilt]) ix₁ := hbefore.concat_of_builds (Or.inl rfl) hre
    have hslots : ix₁.index.items.slots = ix.index.items.slots := by
      rw [ht.slots, insertedBy_concat, hbefore.slots]
      rfl
    have hbuilt : ix₁.index.forest.isSome = true := by
      unfold saveIndex Annoy.Index.save at hsave
      rw [hre] at hsave
      dsimp only at hsave
      cases hforest : ix₁.index.forest with
      | none =>
        rw [hforest] at hsave
        cases hsave
      | some forest => rfl
    refine ⟨fun hempty => ?_, ix₁, rfl⟩
    rw [← hslots, ht.slots] at hempty
    refine not_occurs_of_forall_not [] (fun c hc hi => ?_) (Occurs.of_concat [Inserts] (ht.built_iff.mp hbuilt))
    obtain ⟨data, label, rfl⟩ := AnnoyCall.exists_of_inserts hi
    have hmem := (mem_insertedBy_iff fresh.index.f _ label.toInt64).mpr ⟨data, label, hc, rfl⟩
    rw [hempty] at hmem
    exact ExtTreeMap.not_mem_empty hmem

/-- An index as it is loaded: no ids are removed, and the trees are those that were found in the file. -/
structure Loaded (R : Type) [Annoy.Random R] (M : Annoy.FloatLibs F D) (metric : MetricType) (dim : Int32)
    (items : ExtTreeMap Int64 (List F)) (held : Annoy.Trees (Annoy.Payload F)) (loaded : AnnoyIndex F) : Prop where
  dim_eq : loaded.dim = dim
  f_eq : loaded.index.f = dim.toInt.toNat
  clean : loaded.needRebuild = false
  deletedIds : loaded.deletedIds = ∅
  slots : loaded.index.items.slots = items
  forest : loaded.index.forest = some (Annoy.forestOf R M metric dim.toInt.toNat held)

/-- The index can be saved, and the file loaded. -/
theorem exists_loaded {dim nTrees : Int32} {fresh ix ix₁ : AnnoyIndex F} {calls : List (AnnoyCall F)}
    (hfresh : init dim metric nTrees = .ok fresh) (hq : 1 ≤ nTrees)
    (hrun : Run (Step (Annoy.nodeLibs R M fp rounds dim.toInt.toNat nTrees errno)) fresh calls ix)
    (hre : ix.rebuildIfNeeded (Annoy.nodeLibs R M fp rounds dim.toInt.toNat nTrees errno) = .ok ix₁)
    (hne : ix.index.items.slots ≠ ∅)
    (htrees : Annoy.treesOf R M fp rounds metric dim.toInt.toNat ix.index.items.slots nTrees = some trees) :
    ∃ saved file loaded held, ix.saveIndex (Annoy.nodeLibs R M fp rounds dim.toInt.toNat nTrees errno) none =
        .ok (saved, file) ∧
      saved.loadIndex (Annoy.nodeLibs R M fp rounds dim.toInt.toNat nTrees errno) (some file) = .ok loaded ∧
      loaded.Loaded R M metric dim ix.index.items.slots held ∧
      held.Holds metric dim.toInt.toNat ix.index.items.slots ∧ held.roots ≠ [] ∧
      held.roots.length ≤ 2 * trees.roots.length := by
  have hbefore := tracks hfresh hrun
  have ht := hbefore.concat_of_builds (Or.inl rfl) hre
  have hslots : ix₁.index.items.slots = ix.index.items.slots := by
    rw [ht.slots, insertedBy_concat, hbefore.slots]
    rfl
  rw [← hslots] at hne htrees
  have hforest := ht.forest (needRebuild_of_rebuildIfNeeded _ hbefore.loaded hre) hne
  obtain ⟨hmetric, hf⟩ : ix₁.metric = metric ∧ ix₁.index.f = dim.toInt.toNat := by
    rw [ht.metric, ht.f, eq_of_init hfresh]
    exact ⟨rfl, rfl⟩
  have hq0 : nTrees ≠ 0 := by
    rintro rfl
    exact absurd hq (by decide)
  rw [← hf, ← hmetric] at htrees
  obtain ⟨held, hholds, hroots, hle, hread⟩ := Annoy.exists_readNodes dim.toInt.toNat hne hq0 htrees errno
    ((Annoy.nodeLibs R M fp rounds dim.toInt.toNat nTrees errno).makeForest ix₁.metric ix₁.index.items.slots ix₁.nTrees)
  have hread := load_eq hread
  rw [hslots, hmetric, hf] at hholds
  refine ⟨_, _, { ix₁ with
    index := ⟨ix₁.index.f, ix₁.index.items, some (Annoy.forestOf R M ix₁.metric ix₁.index.f held), true⟩
    deletedIds := ∅
    needRebuild := false }, held, saveIndex_eq hre hforest hread, ?_, ⟨?_, hf, rfl, rfl, hslots, ?_⟩, hholds, hroots, hle⟩
  · unfold loadIndex
    dsimp only
    rw [← ht.f_eq, hread]
    rfl
  · rw [ht.dim, eq_of_init hfresh]
  · dsimp only
    rw [hmetric, hf]

/-- **The trees that are found again in a file** serve the same searches: after a save and a load, a small index is searched
without loss, with nothing removed. -/
theorem answers_after_load {dim nTrees k : Int32} {fresh ix saved loaded ix' : AnnoyIndex F} {calls : List (AnnoyCall F)}
    (hfresh : init dim metric nTrees = .ok fresh) (hq : 1 ≤ nTrees)
    (hrun : Run (Step (Annoy.nodeLibs R M fp rounds dim.toInt.toNat nTrees errno)) fresh calls ix)
    (htrees : Annoy.treesOf R M fp rounds metric dim.toInt.toNat ix.index.items.slots nTrees = some trees)
    {file : List (Annoy.Node (Annoy.Payload F))}
    (hsave : ix.saveIndex (Annoy.nodeLibs R M fp rounds dim.toInt.toNat nTrees errno) none = .ok (saved, file))
    (hload : saved.loadIndex (Annoy.nodeLibs R M fp rounds dim.toInt.toNat nTrees errno) (some file) = .ok loaded)
    (hids : ∀ id ∈ ix.index.items.slots, id.toInt < 2 ^ 32) {query : List F} (hquery : (query.length : Int) = dim.toInt)
    (hk : 0 < k) (hsize : ix.index.items.slots.size ≤ 4 * k.toInt.toNat)
    (hroom : 4 * k.toInt * (2 * nTrees.toInt) < 2 ^ 31) {bitmap : Option (Finset UInt32)} {entries : List (Int64 × F)}
    (h : loaded.searchVectors (Annoy.nodeLibs R M fp rounds dim.toInt.toNat nTrees errno) query k bitmap (-1) =
      .ok (ix', entries)) :
    ix'.index.items.slots = ix.index.items.slots ∧ ix'.deletedIds = ∅ ∧
      Answers (Annoy.nodeLibs R M fp rounds dim.toInt.toNat nTrees errno) ix' query k.toInt.toNat bitmap entries := by
  obtain ⟨hne, ix₁, hre⟩ := exists_built_of_save hfresh hrun hsave
  obtain ⟨saved', file', loaded', held, hsave', hload', hloaded, hholds, hroots, hle⟩ :=
    exists_loaded hfresh hq hrun hre hne htrees
  cases hsave.symm.trans hsave'
  cases hload.symm.trans hload'
  -- nothing is left to build
  obtain ⟨-, hre', -, -⟩ := (searchVectors_eq_ok_iff _ hk).mp h
  unfold rebuildIfNeeded at hre'
  rw [hloaded.clean, if_neg Bool.false_ne_true] at hre'
  cases hre'
  have hcount := Annoy.length_roots ix.index.items.nonneg_of_mem hne hq htrees
  have hroots₂ : (held.roots.length : Int) ≤ 2 * nTrees.toInt := by omega
  rw [← hloaded.slots] at hids hsize hholds
  refine ⟨hloaded.slots, hloaded.deletedIds, answers_of_reached hk h (hloaded.f_eq ▸ by omega) hids hsize ?_⟩
  exact reached_of_holds loaded hholds hroots (fun _ => hloaded.forest) hsize (mul_toNat_lt hroots₂ hroom hk)

end

/-! ## Three integers -/

def freshTwo : AnnoyIndex Int := ⟨1, .l2, 2, false, ∅, .init 1⟩

theorem init_freshTwo : init 1 .l2 2 = .ok freshTwo := rfl

def threeCalls : List (AnnoyCall Int) :=
  [.insertVectors [0] 0, .insertVectors [3] 1, .insertVectors [9] 2, .removeVectors [1]]

/-- Two trees for vectors of one integer. -/
def threeLibs : Annoy.Libs Int := Annoy.nodeLibs Annoy.Kiss64Random Annoy.intFloatLibs Annoy.exactFormats 5 1 2 []

theorem exists_run_three : ∃ ix, Run (Step threeLibs) freshTwo threeCalls ix ∧ ix.index.items.slots = Annoy.threeItems ∧
    (∀ id ∈ ix.index.items.slots, id.toInt < 2 ^ 32) ∧ ix.index.items.slots.size = 3 ∧
    ∃ r, ix.searchVectors threeLibs [1] 1 none (-1) = .ok r := by
  have hrun : Run (Step threeLibs) freshTwo threeCalls _ := (((Run.single rfl).snoc rfl).snoc rfl).snoc rfl
  refine ⟨_, hrun, rfl, fun id hid => ?_, by decide +kernel, ?_⟩
  · rcases (Annoy.mem_threeItems_iff id).mp hid with rfl | rfl | rfl
    · decide
    · decide
    · decide
  · exact (exists_searchVectors_iff threeLibs rfl).mpr ⟨by decide, fun _ => ⟨_, rfl⟩⟩

theorem found_of_searchVectors_three : ∃ (ix' : AnnoyIndex Int) (found : List (Int64 × List Int)),
    found.length ≤ (1 : Int32).toInt.toNat ∧ (∀ p ∈ found, p ∈ ix'.liveItems none) ∧ (found.map Prod.fst).Nodup ∧
      found.Pairwise (fun p q => ix'.metric.distance [1] p.2 ≤ ix'.metric.distance [1] q.2) ∧
      ∃ ix entries, Run (Step threeLibs) freshTwo threeCalls ix ∧
        ix.searchVectors threeLibs [1] 1 none (-1) = .ok (ix', entries) ∧ entries = found.map (entryOf ix'.metric [1]) ++
          List.replicate ((1 : Int32).toInt.toNat - found.length) (-1, threeLibs.infinity) := by
  obtain ⟨ix, hrun, hslots, hids, -, ⟨ix', entries⟩, h⟩ := exists_run_three
  obtain ⟨-, hf, hsame, -⟩ := tracks_of_search init_freshTwo hrun (by decide) h
  obtain ⟨found, hlen, hlive, hnodup, hsorted, heq⟩ := found_of_searchVectors (by decide) h hf.symm (hsame ▸ hids)
  exact ⟨ix', found, hlen, hlive, hnodup, hsorted, ix, entries, hrun, h, heq⟩

theorem answers_of_trees_three : ∃ ix ix' entries, Run (Step threeLibs) freshTwo threeCalls ix ∧
    ix.searchVectors threeLibs [1] 1 none (-1) = .ok (ix', entries) ∧
    Answers threeLibs ix' [1] (1 : Int32).toInt.toNat none entries := by
  obtain ⟨ix, hrun, hslots, hids, hsize, ⟨ix', entries⟩, h⟩ := exists_run_three
  obtain ⟨trees, htrees⟩ := Annoy.exists_treesOf_three
  refine ⟨ix, ix', entries, hrun, h, ?_⟩
  exact answers_of_trees init_freshTwo (by decide) hrun (hslots ▸ htrees) hids rfl (by decide) (by rw [hsize]; decide)
    (by decide) h

theorem answers_after_load_three : ∃ ix saved loaded ix' file entries, Run (Step threeLibs) freshTwo threeCalls ix ∧
    ix.saveIndex threeLibs none = .ok (saved, file) ∧ saved.loadIndex threeLibs (some file) = .ok loaded ∧
    loaded.searchVectors threeLibs [1] 1 none (-1) = .ok (ix', entries) ∧
    ix'.index.items.slots = ix.index.items.slots ∧ ix'.deletedIds = ∅ ∧
    Answers threeLibs ix' [1] (1 : Int32).toInt.toNat none entries := by
  obtain ⟨ix, hrun, hslots, hids, hsize, ⟨ix', entries⟩, h⟩ := exists_run_three
  obtain ⟨trees, htrees⟩ := Annoy.exists_treesOf_three
  obtain ⟨-, hre, -, -⟩ := (searchVectors_eq_ok_iff threeLibs (by decide)).mp h
  obtain ⟨saved, file, loaded, held, hsave, hload, hloaded, -⟩ := exists_loaded init_freshTwo (by decide) hrun hre
    (hslots ▸ Annoy.threeItems_ne_empty) (hslots ▸ htrees)
  have hclean : loaded.rebuildIfNeeded threeLibs = .ok loaded := by
    unfold rebuildIfNeeded
    rw [hloaded.clean]
    rfl
  obtain ⟨⟨ix₂, entries₂⟩, h₂⟩ : ∃ r, loaded.searchVectors threeLibs [1] 1 none (-1) = .ok r :=
    (exists_searchVectors_iff threeLibs (hloaded.dim_eq ▸ rfl)).mpr ⟨by decide, fun _ => ⟨loaded, hclean⟩⟩
  exact ⟨ix, saved, loaded, ix₂, file, entries₂, hrun, hsave, hload, h₂, answers_after_load init_freshTwo (by decide) hrun
    (hslots ▸ htrees) hsave hload hids rfl (by decide) (by rw [hsize]; decide) (by decide) h₂⟩

end AnnoyIndex
end VectorDb
