import VectorDb.AnnoyCalls

/-!
# What a search of an `AnnoyIndex` finds

* `liveItems`, `Answers` : the items that are neither removed nor excluded, and the entries that are right for them;
* `Built`, `Exact` : a built index, and a forest that reaches the nearest items;
* `built_of_run` : the index after a call that builds;
* `getNnsByVector_eq` : the candidates are the nearest items;
* `pickLive_eq`, `searchVectors_built_iff` : the loop keeps the first `k` live candidates, and the rest is padding;
* `answers_iff` : the entries are right exactly where the first `4 * k` items have enough live ones.
-/

namespace VectorDb
open Std (ExtTreeMap)

variable {F : Type}

namespace AnnoyIndex

/-- The bitmap, if there is one, has the id. -/
def allowed (bitmap : Option (Finset UInt32)) (id : Int64) : Bool :=
  bitmap.all fun b => decide (∃ u ∈ b, (u.toNat : Int) = id.toInt)

/-- The stored items that are neither removed nor excluded. -/
def liveItems (ix : AnnoyIndex F) (bitmap : Option (Finset UInt32)) : List (Int64 × List F) :=
  ix.index.items.slots.toList.filter fun p => decide (p.1 ∉ ix.deletedIds) && allowed bitmap p.1

variable [FloatArith F] [LinearOrder F]

/-- An item with its distance. -/
def entryOf (metric : MetricType) (query : List F) (p : Int64 × List F) : Int64 × F :=
  (p.1, metric.normalizedDistance (metric.distance query p.2))

/-- The `n` nearest items, the lower id first where two are as near. -/
def firstItems (ix : AnnoyIndex F) (query : List F) (n : Nat) : List (Int64 × List F) :=
  takeNearest (Annoy.Index.nearestKey ix.metric query) n ix.index.items.slots.toList

/-- `k` entries: the nearest live items, then padding. -/
structure Answers (L : Annoy.Libs F) (ix : AnnoyIndex F) (query : List F) (k : Nat) (bitmap : Option (Finset UInt32))
    (entries : List (Int64 × F)) : Prop where
  length : entries.length = k
  exists_found : ∃ found, Nearest (fun p => ix.metric.distance query p.2) k (ix.liveItems bitmap) found ∧
    (found.map Prod.fst).Nodup ∧
    entries = found.map (entryOf ix.metric query) ++ List.replicate (k - found.length) (-1, L.infinity)

structure Built (ix : AnnoyIndex F) (forest : Annoy.Forest F) : Prop where
  f_eq : ix.index.f = ix.dim.toInt.toNat
  clean : ix.needRebuild = false
  forest : ix.index.forest = some forest

/-- The forest reaches the `n` nearest items. -/
def Exact (ix : AnnoyIndex F) (forest : Annoy.Forest F) : Prop :=
  ∀ (query : List F) (n : Nat) (searchK : Int32), query.length = ix.index.f →
    ∀ p ∈ ix.firstItems query n, p.1 ∈ forest query n searchK

/-- A run that ends with a build leaves a built index, where it inserted something. -/
theorem built_of_run {L : Annoy.Libs F} {dim nTrees : Int32} {metric : MetricType} {fresh ix : AnnoyIndex F}
    {calls : List (AnnoyCall F)} {c : AnnoyCall F} (hfresh : init dim metric nTrees = .ok fresh)
    (hrun : Run (Step L) fresh (calls ++ [c]) ix) (hb : c.Builds) (hne : ix.index.items.slots ≠ ∅) :
    ix.Built (L.makeForest ix.metric ix.index.items.slots ix.nTrees) := by
  have h := tracks hfresh hrun
  obtain ⟨ix₁, hrun₁, hs⟩ := Run.snoc_iff.mp hrun
  have hno := needRebuild_of_rebuildIfNeeded L (tracks hfresh hrun₁).loaded (rebuild_of_step hb hs)
  exact ⟨h.f_eq, hno, h.forest hno hne⟩

/-! ## The loop -/

omit [FloatArith F] [LinearOrder F] in
theorem pickLive_eq (live : Int64 → Bool) (candidates : List (Int64 × F)) (k : Nat) :
    pickLive live candidates k = (candidates.filter fun c => live c.1).take k := by
  fun_induction pickLive live candidates k with
  | case1 k => rw [List.filter_nil, List.take_nil]
  | case2 c candidates => rw [List.take_zero]
  | case3 c candidates k hlive ih => rw [List.filter_cons, if_pos hlive, List.take_succ_cons, ih]
  | case4 c candidates k hlive ih => rw [List.filter_cons, if_neg hlive, ih]

/-! ## The candidates -/

section
variable {ix : AnnoyIndex F} {forest : Annoy.Forest F} {query : List F}

omit [LinearOrder F] in
/-- The distance and the id tell the items apart. -/
theorem nearestKey_inj (metric : MetricType) (query : List F) (items : ExtTreeMap Int64 (List F)) :
    ∀ p ∈ items.toList, ∀ q ∈ items.toList,
      Annoy.Index.nearestKey metric query p = Annoy.Index.nearestKey metric query q → p = q := by
  rintro ⟨id, v⟩ hp ⟨id', w⟩ hq heq
  have hid : id = id' := Int64.toInt_inj.mp (congrArg (fun key => (ofLex key).2) heq)
  subst hid
  rw [ExtTreeMap.mem_toList_iff_getElem?_eq_some] at hp hq
  rw [Option.some.inj (hp.symm.trans hq)]

theorem getNnsByVector_eq (hbuilt : ix.Built forest) (hexact : ix.Exact forest) (hlen : query.length = ix.index.f) (n : Nat)
    (searchK : Int32) :
    ix.index.getNnsByVector ix.metric query n searchK = (ix.firstItems query n).map (entryOf ix.metric query) := by
  unfold Annoy.Index.getNnsByVector firstItems
  rw [hbuilt.forest]
  dsimp only
  rw [List.take_of_length_le hlen.le, takeNearest_filter (nearestKey_inj ix.metric query ix.index.items.slots)]
  · rfl
  · intro p hp
    exact decide_eq_true (hexact query n searchK hlen p hp)

omit [FloatArith F] [LinearOrder F] in
theorem nodup_ids (items : ExtTreeMap Int64 (List F)) : (items.toList.map Prod.fst).Nodup := by
  rw [List.nodup_iff_pairwise_ne, List.pairwise_map]
  exact ExtTreeMap.distinct_keys_toList.imp fun hne heq => hne (Std.LawfulEqCmp.compare_eq_iff_eq.mpr heq)

/-! ## Membership -/

theorem toNat_toUInt32 {id : Int64} (hid : 0 ≤ id) (hlt : id.toInt < 2 ^ 32) :
    (id.toUInt64.toUInt32.toNat : Int) = id.toInt := by
  have hint : id.toInt = if 2 * id.toUInt64.toNat < 2 ^ 64 then (id.toUInt64.toNat : Int) else id.toUInt64.toNat - 2 ^ 64 :=
    BitVec.toInt_eq_toNat_cond id.toBitVec
  have hsize := id.toUInt64.toNat_lt
  rw [Int64.le_iff_toInt_le, Int64.toInt_zero] at hid
  rw [UInt64.toNat_toUInt32]
  split at hint
  · omega
  · omega

omit [FloatArith F] [LinearOrder F] in
/-- For the ids of items, cutting the id to 32 bits changes nothing. -/
theorem isLive_eq {id : Int64} (hid : 0 ≤ id) (hlt : id.toInt < 2 ^ 32) (bitmap : Option (Finset UInt32)) :
    ix.isLive bitmap id = (decide (id ∉ ix.deletedIds) && allowed bitmap id) := by
  have hcut := toNat_toUInt32 hid hlt
  unfold isLive allowed
  cases bitmap with
  | none => rfl
  | some b =>
    have hmem : id.toUInt64.toUInt32 ∈ b ↔ ∃ u ∈ b, (u.toNat : Int) = id.toInt := by
      constructor
      · intro h
        exact ⟨_, h, hcut⟩
      · rintro ⟨u, hu, hnat⟩
        have heq : u = id.toUInt64.toUInt32 := UInt32.toNat_inj.mp (by omega)
        exact heq ▸ hu
    rw [Option.all_some, Option.all_some, decide_eq_decide.mpr hmem]

end

/-! ## The entries -/

section
variable {L : Annoy.Libs F} {ix : AnnoyIndex F} {forest : Annoy.Forest F} {query : List F}

/-- The live items among the first `n`. -/
def liveFirst (ix : AnnoyIndex F) (query : List F) (n : Nat) (bitmap : Option (Finset UInt32)) : List (Int64 × List F) :=
  (ix.firstItems query n).filter fun p => decide (p.1 ∉ ix.deletedIds) && allowed bitmap p.1

theorem mem_slots_of_mem_firstItems {n : Nat} {p : Int64 × List F} (h : p ∈ ix.firstItems query n) :
    ix.index.items.slots[p.1]? = some p.2 := by
  have hmem := (nearest_takeNearest _ n ix.index.items.slots.toList).mem h
  exact ExtTreeMap.mem_toList_iff_getElem?_eq_some.mp hmem

theorem zero_le_of_mem_firstItems {n : Nat} {p : Int64 × List F} (h : p ∈ ix.firstItems query n) : 0 ≤ p.1 :=
  ix.index.items.nonneg_of_slot _ _ (mem_slots_of_mem_firstItems h)

/-- What the loop picks from the candidates. -/
theorem pickLive_getNns (hbuilt : ix.Built forest) (hexact : ix.Exact forest)
    (hids : ∀ id ∈ ix.index.items.slots, id.toInt < 2 ^ 32) (hlen : query.length = ix.index.f) (n k : Nat)
    (bitmap : Option (Finset UInt32)) (searchK : Int32) :
    pickLive (ix.isLive bitmap) (ix.index.getNnsByVector ix.metric query n searchK) k =
      ((ix.liveFirst query n bitmap).take k).map (entryOf ix.metric query) := by
  rw [pickLive_eq, getNnsByVector_eq hbuilt hexact hlen, List.filter_map, ← List.map_take]
  congr 2
  apply List.filter_congr
  intro p hp
  apply isLive_eq (zero_le_of_mem_firstItems hp)
  apply hids
  rw [ExtTreeMap.mem_iff_isSome_getElem?, mem_slots_of_mem_firstItems hp]
  rfl

/-- What a search of a built index returns. -/
theorem searchVectors_built_iff (hbuilt : ix.Built forest) (hexact : ix.Exact forest)
    (hids : ∀ id ∈ ix.index.items.slots, id.toInt < 2 ^ 32) (hquery : (query.length : Int) = ix.dim.toInt)
    {k : Int32} (hk : 1 ≤ k) {bitmap : Option (Finset UInt32)} {searchK : Int32} {entries : List (Int64 × F)} :
    ix.searchVectors L query k bitmap searchK = .ok (ix, entries) ↔ k.toInt * 4 < 2 ^ 31 ∧ entries =
      let found := (ix.liveFirst query (4 * k.toInt.toNat) bitmap).take k.toInt.toNat
      found.map (entryOf ix.metric query) ++ List.replicate (k.toInt.toNat - found.length) (-1, L.infinity) := by
  have hone : 1 ≤ k.toInt := Int32.le_iff_toInt_le.mp hk
  have hpos : 0 < k := by
    rw [Int32.lt_iff_toInt_lt, Int32.toInt_zero]
    omega
  have hlen : query.length = ix.index.f := by
    rw [hbuilt.f_eq]
    omega
  have hre : ix.rebuildIfNeeded L = .ok ix := by
    unfold rebuildIfNeeded
    rw [if_neg (ne_true_of_eq_false hbuilt.clean)]
  have hn : (k.toInt * 4).toNat = 4 * k.toInt.toNat := by omega
  simp only [searchVectors_eq_ok_iff L hpos, pickLive_getNns hbuilt hexact hids hlen, hn, List.length_map]
  constructor
  · intro h
    exact h.2.2
  · intro h
    exact ⟨ofNat_eq_of_length hquery, hre, h⟩

omit [FloatArith F] [LinearOrder F] in
theorem zero_le_of_mem_liveItems {bitmap : Option (Finset UInt32)} {p : Int64 × List F} (h : p ∈ ix.liveItems bitmap) :
    0 ≤ p.1 :=
  ix.index.items.nonneg_of_slot _ _ (ExtTreeMap.mem_toList_iff_getElem?_eq_some.mp (List.mem_of_mem_filter h))

/-- Padding is told from items by its id. -/
theorem filter_entries (metric : MetricType) (query : List F) {found : List (Int64 × List F)} (h : ∀ p ∈ found, 0 ≤ p.1)
    (m : Nat) (x : F) : ((found.map (entryOf metric query) ++ List.replicate m (-1, x)).filter fun e => e.1 ≠ -1) =
      found.map (entryOf metric query) := by
  have hpad : (List.replicate m ((-1 : Int64), x)).filter (fun e => e.1 ≠ -1) = [] := by
    apply List.filter_eq_nil_iff.mpr
    intro e he
    rw [List.eq_of_mem_replicate he]
    simp
  have hkeep : (found.map (entryOf metric query)).filter (fun e => e.1 ≠ -1) = found.map (entryOf metric query) := by
    apply List.filter_eq_self.mpr
    intro e he
    obtain ⟨p, hp, rfl⟩ := List.mem_map.mp he
    have hne : p.1 ≠ -1 := by
      intro heq
      exact absurd (heq ▸ h p hp) (by decide)
    exact decide_eq_true hne
  rw [List.filter_append, hpad, List.append_nil, hkeep]

/-- Any right answer has as many items as there are to find. -/
theorem Answers.length_found {k : Nat} {bitmap : Option (Finset UInt32)} {found : List (Int64 × List F)} {m : Nat}
    (h : Answers L ix query k bitmap (found.map (entryOf ix.metric query) ++ List.replicate m (-1, L.infinity)))
    (hfound : ∀ p ∈ found, 0 ≤ p.1) : found.length = min k (ix.liveItems bitmap).length := by
  obtain ⟨found', hnear, -, heq⟩ := h.exists_found
  have hfound' : ∀ p ∈ found', 0 ≤ p.1 := fun p hp => zero_le_of_mem_liveItems (hnear.mem hp)
  have hentries := filter_entries ix.metric query hfound m L.infinity
  rw [heq, filter_entries ix.metric query hfound'] at hentries
  have hlen := congrArg List.length hentries
  rw [List.length_map, List.length_map, hnear.length] at hlen
  exact hlen.symm

/-- **Filtered search.** The entries are right exactly where `k * 4` is an `int`, and the first `4 * k` items have enough
live ones. -/
theorem answers_iff (L : Annoy.Libs F) {ix : AnnoyIndex F} {forest : Annoy.Forest F} (hbuilt : ix.Built forest)
    (hexact : ix.Exact forest) (hids : ∀ id ∈ ix.index.items.slots, id.toInt < 2 ^ 32) {query : List F}
    (hquery : (query.length : Int) = ix.dim.toInt) {k : Int32} (hk : 1 ≤ k) (bitmap : Option (Finset UInt32))
    (searchK : Int32) : (∃ entries, ix.searchVectors L query k bitmap searchK = .ok (ix, entries) ∧
      Answers L ix query k.toInt.toNat bitmap entries) ↔
    k.toInt * 4 < 2 ^ 31 ∧
      min k.toInt.toNat (ix.liveItems bitmap).length ≤ (ix.liveFirst query (4 * k.toInt.toNat) bitmap).length := by
  simp only [searchVectors_built_iff hbuilt hexact hids hquery hk]
  constructor
  · rintro ⟨entries, ⟨hlarge, rfl⟩, hanswers⟩
    have hfound := hanswers.length_found fun p hp =>
      zero_le_of_mem_firstItems (List.mem_of_mem_filter (List.mem_of_mem_take hp))
    rw [List.length_take] at hfound
    exact ⟨hlarge, by omega⟩
  · rintro ⟨hlarge, hcond⟩
    have hmono : ∀ p q : Int64 × List F,
        Annoy.Index.nearestKey ix.metric query p ≤ Annoy.Index.nearestKey ix.metric query q →
        ix.metric.distance query p.2 ≤ ix.metric.distance query q.2 := fun p q hpq => Prod.Lex.monotone_fst_ofLex hpq
    have hnear := (nearest_filter_iff hmono (4 * k.toInt.toNat) k.toInt.toNat).mpr hcond
    refine ⟨_, ⟨hlarge, rfl⟩, ?_, _, hnear, ?_, rfl⟩
    · have hle : ((ix.liveFirst query (4 * k.toInt.toNat) bitmap).take k.toInt.toNat).length ≤ k.toInt.toNat :=
        List.length_take_le _ _
      rw [List.length_append, List.length_map, List.length_replicate]
      omega
    · exact hnear.nodup_map ((nodup_ids _).sublist (List.filter_sublist.map _))

end

/-! ## Five integers -/

theorem exact_intLibs (ix : AnnoyIndex Int) (q : Int32) :
    ix.Exact (Annoy.intLibs.makeForest ix.metric ix.index.items.slots q) := by
  intro query n searchK _ p hp
  have hslot := mem_slots_of_mem_firstItems hp
  refine ExtTreeMap.mem_keys.mpr ?_
  rw [ExtTreeMap.mem_iff_isSome_getElem?, hslot]
  rfl

/-- The items 0 to 4 on a line. -/
def lineItems : Annoy.Items Int 1 :=
  ((((Annoy.Items.empty.insert 0 [0] (by decide) rfl).insert 1 [1] (by decide) rfl).insert 2 [2] (by decide) rfl).insert
    3 [3] (by decide) rfl).insert 4 [4] (by decide) rfl

/-- The four nearest to 0 are removed. -/
def lineInt : AnnoyIndex Int :=
  ⟨1, .l2, 10, false, {0, 1, 2, 3}, ⟨1, lineItems, some (Annoy.intLibs.makeForest .l2 lineItems.slots 10), false⟩⟩

theorem built_lineInt : lineInt.Built (Annoy.intLibs.makeForest .l2 lineItems.slots 10) := ⟨rfl, rfl, rfl⟩

theorem lt_of_mem_lineInt : ∀ id ∈ lineInt.index.items.slots, id.toInt < 2 ^ 32 := by
  have hall : ∀ p ∈ lineInt.index.items.slots.toList, p.1.toInt < 2 ^ 32 := by decide +kernel
  intro id hid
  have hmem : (id, lineInt.index.items.slots[id]) ∈ lineInt.index.items.slots.toList :=
    ExtTreeMap.mem_toList_iff_getElem?_eq_some.mpr (ExtTreeMap.getElem?_eq_some_getElem hid)
  exact hall (id, lineInt.index.items.slots[id]) hmem

theorem answers_iff_line : (∃ entries, lineInt.searchVectors Annoy.intLibs [0] 2 none (-1) = .ok (lineInt, entries) ∧
      Answers Annoy.intLibs lineInt [0] (2 : Int32).toInt.toNat none entries) ↔
    (2 : Int32).toInt * 4 < 2 ^ 31 ∧ min (2 : Int32).toInt.toNat (lineInt.liveItems none).length ≤
      (lineInt.liveFirst [0] (4 * (2 : Int32).toInt.toNat) none).length :=
  answers_iff Annoy.intLibs built_lineInt (exact_intLibs lineInt 10) lt_of_mem_lineInt rfl (by decide) none (-1)

/-- With four items removed, the fifth is not among the four candidates of `k = 1`. -/
theorem fifth_item_lost : ¬ ∀ (L : Annoy.Libs Int) (ix : AnnoyIndex Int) (forest : Annoy.Forest Int) (query : List Int)
    (k : Int32) (bitmap : Option (Finset UInt32)) (searchK : Int32), ix.Built forest → ix.Exact forest →
    (∀ id ∈ ix.index.items.slots, id.toInt < 2 ^ 32) → (query.length : Int) = ix.dim.toInt → 1 ≤ k →
    ∃ entries, ix.searchVectors L query k bitmap searchK = .ok (ix, entries) ∧
      Answers L ix query k.toInt.toNat bitmap entries := by
  intro h
  obtain ⟨entries, hsearch, hanswers⟩ := h Annoy.intLibs lineInt _ [0] 1 none (-1) built_lineInt (exact_intLibs lineInt 10)
    lt_of_mem_lineInt rfl (by decide)
  obtain ⟨-, rfl⟩ :=
    (searchVectors_built_iff built_lineInt (exact_intLibs lineInt 10) lt_of_mem_lineInt rfl (by decide)).mp hsearch
  have hnone : (lineInt.liveFirst [0] (4 * (1 : Int32).toInt.toNat) none).length = 0 := by decide +kernel
  have hlive : (lineInt.liveItems none).length = 1 := by decide +kernel
  have hfound := hanswers.length_found fun p hp =>
    zero_le_of_mem_firstItems (List.mem_of_mem_filter (List.mem_of_mem_take hp))
  rw [List.length_take, hnone, hlive] at hfound
  exact absurd hfound (by decide)

end AnnoyIndex
end VectorDb
