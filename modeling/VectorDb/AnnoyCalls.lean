import VectorDb.AnnoyIndex
import VectorDb.Lib.Occurs
import VectorDb.Lib.Run

/-!
# Calls of one `AnnoyIndex`

* `AnnoyCall`, `AnnoyIndex.call` : the four calls, and the index after one that completes;
* `insertedBy`, `deletedBy` : the items that calls insert, and the ids they remove;
* `Tracks` : the flags of the index and of Annoy's own index, from the calls before;
* `Tracks.concat`, `tracks` : a step, a run;
* `exists_run_iff` : which calls complete;
* `interleaves_iff` : searches and inserts may alternate until the second build.
-/

namespace VectorDb
open Std (ExtTreeMap)

variable {F : Type}

inductive AnnoyCall (F : Type) where
  | insertVectors (data : List F) (label : UInt64)
  | removeVectors (ids : List Int64)
  | ensureBuilt
  | searchVectors (query : List F) (k : Int32) (bitmap : Option (Finset UInt32)) (searchK : Int32)

namespace AnnoyCall

def Inserts : AnnoyCall F → Prop
  | .insertVectors _ _ => True
  | _ => False

/-- A search that looks for something. -/
def Searches : AnnoyCall F → Prop
  | .searchVectors _ k _ _ => 0 < k
  | _ => False

/-- The calls that rebuild where it is needed. -/
def Builds (c : AnnoyCall F) : Prop := c = .ensureBuilt ∨ c.Searches

/-- The vector of the call has as many floats as the index. -/
def RightDim (dim : Int32) : AnnoyCall F → Prop
  | .insertVectors data _ => (data.length : Int) = dim.toInt
  | .searchVectors query _ _ _ => (query.length : Int) = dim.toInt
  | _ => True

/-- The integers of the call stay in range: `item + 1` and `k * 4`. -/
def InRange : AnnoyCall F → Prop
  | .insertVectors _ label => label.toNat + 1 < 2 ^ 63
  | .searchVectors _ k _ _ => k.toInt * 4 < 2 ^ 31
  | _ => True

/-- The item slots after the call. -/
def slots (f : Nat) (before : ExtTreeMap Int64 (List F)) : AnnoyCall F → ExtTreeMap Int64 (List F)
  | .insertVectors data label => before.insert label.toInt64 (data.take f)
  | _ => before

/-- The removed ids after the call. -/
def deleted (before : Finset Int64) : AnnoyCall F → Finset Int64
  | .insertVectors _ label => before.erase label.toInt64
  | .removeVectors ids => ids.foldl (fun deleted id => insert id deleted) before
  | _ => before

variable {c : AnnoyCall F}

theorem exists_of_inserts (h : c.Inserts) : ∃ data label, c = .insertVectors data label := by
  cases c with
  | insertVectors data label => exact ⟨data, label, rfl⟩
  | removeVectors ids => exact absurd h id
  | ensureBuilt => exact absurd h id
  | searchVectors query k bitmap searchK => exact absurd h id

theorem slots_of_not_inserts (h : ¬ c.Inserts) (f : Nat) (before : ExtTreeMap Int64 (List F)) :
    c.slots f before = before := by
  cases c with
  | insertVectors data label => exact absurd trivial h
  | removeVectors ids => rfl
  | ensureBuilt => rfl
  | searchVectors query k bitmap searchK => rfl

theorem Builds.not_inserts (h : c.Builds) : ¬ c.Inserts := by
  cases c with
  | insertVectors data label => simp [Builds, Searches] at h
  | removeVectors ids => exact id
  | ensureBuilt => exact id
  | searchVectors query k bitmap searchK => exact id

theorem Builds.deleted_eq (h : c.Builds) (before : Finset Int64) : c.deleted before = before := by
  cases c with
  | insertVectors data label => exact absurd trivial h.not_inserts
  | removeVectors ids => simp [Builds, Searches] at h
  | ensureBuilt => rfl
  | searchVectors query k bitmap searchK => rfl

end AnnoyCall

/-- The items inserted, each with the `f` floats of its last insert. -/
def insertedBy (f : Nat) (calls : List (AnnoyCall F)) : ExtTreeMap Int64 (List F) := calls.foldl (AnnoyCall.slots f) ∅

theorem insertedBy_concat (f : Nat) (calls : List (AnnoyCall F)) (c : AnnoyCall F) :
    insertedBy f (calls ++ [c]) = c.slots f (insertedBy f calls) := by
  unfold insertedBy
  rw [List.foldl_append, List.foldl_cons, List.foldl_nil]

/-- The ids removed, and not inserted again since. -/
def deletedBy (calls : List (AnnoyCall F)) : Finset Int64 := calls.foldl AnnoyCall.deleted ∅

theorem deletedBy_concat (calls : List (AnnoyCall F)) (c : AnnoyCall F) :
    deletedBy (calls ++ [c]) = c.deleted (deletedBy calls) := by
  unfold deletedBy
  rw [List.foldl_append, List.foldl_cons, List.foldl_nil]

namespace AnnoyIndex
open AnnoyCall (Inserts Builds)

variable [FloatArith F] [LinearOrder F] (L : Annoy.Libs F)

def call (ix : AnnoyIndex F) : AnnoyCall F → Except AnnoyFault (AnnoyIndex F)
  | .insertVectors data label => ix.insertVectors data label
  | .removeVectors ids => .ok (ix.removeVectors ids)
  | .ensureBuilt => ix.ensureBuilt L
  | .searchVectors query k bitmap searchK => (ix.searchVectors L query k bitmap searchK).map Prod.fst

/-- A call that completes. -/
def Step (ix : AnnoyIndex F) (c : AnnoyCall F) (ix' : AnnoyIndex F) : Prop := ix.call L c = .ok ix'

/-- Every call completes, and each search runs on the items inserted before it, with a forest over all of them. -/
def Interleaves (ix : AnnoyIndex F) (calls : List (AnnoyCall F)) : Prop :=
  ∀ before c, before ++ [c] <+: calls → ∃ ix₁ ix₂, Run (Step L) ix before ix₁ ∧ Step L ix₁ c ix₂ ∧
    (c.Searches → ix₂.index.items.slots = insertedBy ix.index.f before ∧
      (insertedBy ix.index.f before ≠ ∅ →
        ix₂.index.forest = some (L.makeForest ix.metric (insertedBy ix.index.f before) ix.nTrees)))

/-- A call that builds leaves what the rebuild does. -/
theorem rebuild_of_step {L : Annoy.Libs F} {ix ix' : AnnoyIndex F} {c : AnnoyCall F} (hb : Builds c)
    (hs : Step L ix c ix') : ix.rebuildIfNeeded L = .ok ix' := by
  cases c with
  | insertVectors data label => exact absurd trivial hb.not_inserts
  | removeVectors ids => simp [Builds, AnnoyCall.Searches] at hb
  | ensureBuilt => exact hs
  | searchVectors query k bitmap searchK =>
    obtain ⟨⟨ix₂, found⟩, hsearch, rfl⟩ := map_eq_ok.mp hs
    have hk : 0 < k := hb.resolve_left fun h => nomatch h
    exact ((searchVectors_eq_ok_iff L hk).mp hsearch).2.1

/-! ## The state, from the calls -/

/-- The index after the calls `calls` on `fresh`. -/
structure Tracks (fresh : AnnoyIndex F) (calls : List (AnnoyCall F)) (ix : AnnoyIndex F) : Prop where
  dim : ix.dim = fresh.dim
  metric : ix.metric = fresh.metric
  nTrees : ix.nTrees = fresh.nTrees
  f : ix.index.f = fresh.index.f
  f_eq : ix.index.f = ix.dim.toInt.toNat
  loaded : ix.index.loaded = false
  slots : ix.index.items.slots = insertedBy fresh.index.f calls
  deletedIds : ix.deletedIds = deletedBy calls
  -- no build completes once an insert has followed the first one, so the flag stays
  needRebuild_iff : ix.needRebuild = true ↔
    (Occurs [Inserts] calls ∧ ¬ Occurs [Inserts, Builds] calls) ∨ Occurs [Inserts, Builds, Inserts] calls
  built_iff : ix.index.forest.isSome = true ↔ Occurs [Inserts, Builds] calls
  nTrees_of_built : ix.index.forest.isSome = true → -1 ≤ ix.nTrees
  forest : ix.needRebuild = false → ix.index.items.slots ≠ ∅ →
    ix.index.forest = some (L.makeForest ix.metric ix.index.items.slots ix.nTrees)

namespace Tracks
variable {L : Annoy.Libs F} {fresh ix ix' : AnnoyIndex F} {calls : List (AnnoyCall F)} {c : AnnoyCall F}

omit [FloatArith F] [LinearOrder F]

theorem nil {dim nTrees : Int32} {metric : MetricType} (h : init dim metric nTrees = .ok fresh) :
    Tracks L fresh [] fresh := by
  obtain rfl := eq_of_init h
  exact {
    dim := rfl
    metric := rfl
    nTrees := rfl
    f := rfl
    f_eq := rfl
    loaded := rfl
    slots := rfl
    deletedIds := rfl
    needRebuild_iff := by simp [not_occurs_nil]
    built_iff := by simp [not_occurs_nil, Annoy.Index.init]
    nTrees_of_built := fun h => absurd h Bool.false_ne_true
    forest := fun _ h => absurd rfl h }

/-- A call that neither inserts nor builds. -/
theorem concat_of_not (h : Tracks L fresh calls ix) (hi : ¬ Inserts c) (hb : ¬ Builds c) :
    Tracks L fresh (calls ++ [c]) { ix with deletedIds := c.deleted ix.deletedIds } where
  dim := h.dim
  metric := h.metric
  nTrees := h.nTrees
  f := h.f
  f_eq := h.f_eq
  loaded := h.loaded
  slots := by rw [insertedBy_concat, AnnoyCall.slots_of_not_inserts hi, h.slots]
  deletedIds := by rw [deletedBy_concat, h.deletedIds]
  needRebuild_iff := by
    have hI : Occurs [Inserts] (calls ++ [c]) ↔ _ := occurs_concat_of_not [] calls hi
    have hIB : Occurs [Inserts, Builds] (calls ++ [c]) ↔ _ := occurs_concat_of_not [Inserts] calls hb
    have hIBI : Occurs [Inserts, Builds, Inserts] (calls ++ [c]) ↔ _ := occurs_concat_of_not [Inserts, Builds] calls hi
    rw [hI, hIB, hIBI]
    exact h.needRebuild_iff
  built_iff := by
    have hIB : Occurs [Inserts, Builds] (calls ++ [c]) ↔ _ := occurs_concat_of_not [Inserts] calls hb
    rw [hIB]
    exact h.built_iff
  nTrees_of_built := h.nTrees_of_built
  forest := h.forest

theorem clean (h : Tracks L fresh calls ix) (hno : ix.needRebuild = false) :
    (Occurs [Inserts] calls → Occurs [Inserts, Builds] calls) ∧ ¬ Occurs [Inserts, Builds, Inserts] calls := by
  have hneed := mt h.needRebuild_iff.mpr (ne_true_of_eq_false hno)
  tauto

theorem first_build (h : Tracks L fresh calls ix) (hyes : ix.needRebuild = true) (hnone : ix.index.forest = none) :
    Occurs [Inserts] calls ∧ ¬ Occurs [Inserts, Builds, Inserts] calls := by
  have hnot : ¬ Occurs [Inserts, Builds] calls := by
    rw [← h.built_iff, hnone]
    exact Bool.false_ne_true
  have hthird : ¬ Occurs [Inserts, Builds, Inserts] calls := mt (Occurs.of_concat [Inserts, Builds]) hnot
  have hneed := h.needRebuild_iff.mp hyes
  tauto

/-- A call that builds. -/
theorem concat_of_builds (h : Tracks L fresh calls ix) (hb : Builds c) (hre : ix.rebuildIfNeeded L = .ok ix') :
    Tracks L fresh (calls ++ [c]) ix' := by
  have hi := hb.not_inserts
  have hslots : ix.index.items.slots = insertedBy fresh.index.f (calls ++ [c]) := by
    rw [insertedBy_concat, AnnoyCall.slots_of_not_inserts hi, h.slots]
  have hdeleted : ix.deletedIds = deletedBy (calls ++ [c]) := by
    rw [deletedBy_concat, hb.deleted_eq, h.deletedIds]
  have hI : Occurs [Inserts] (calls ++ [c]) ↔ _ := occurs_concat_of_not [] calls hi
  have hIB : Occurs [Inserts, Builds] (calls ++ [c]) ↔ _ := occurs_concat_of [Inserts] calls hb
  have hIBI : Occurs [Inserts, Builds, Inserts] (calls ++ [c]) ↔ _ := occurs_concat_of_not [Inserts, Builds] calls hi
  rcases (rebuildIfNeeded_eq_ok_iff L h.loaded).mp hre with ⟨hno, rfl⟩ | ⟨hyes, hnone, hq, rfl⟩
  · obtain ⟨hbuilt, hthird⟩ := h.clean hno
    refine { h with slots := hslots, deletedIds := hdeleted, needRebuild_iff := ?_, built_iff := ?_ }
    · rw [hI, hIB, hIBI, hno]
      simp [hthird]
    · rw [hIB, h.built_iff]
      exact ⟨Occurs.of_concat [Inserts], hbuilt⟩
  · obtain ⟨hfirst, hthird⟩ := h.first_build hyes hnone
    exact { h with
      slots := hslots
      deletedIds := hdeleted
      needRebuild_iff := by
        rw [hI, hIB, hIBI]
        simp [rebuilt, hthird]
      built_iff := by
        rw [hIB]
        exact iff_of_true rfl hfirst
      nTrees_of_built := fun _ => hq
      forest := fun _ _ => rfl }

theorem concat_insert (h : Tracks L fresh calls ix) {data : List F} {label : UInt64}
    (hre : ix.insertVectors data label = .ok ix') : Tracks L fresh (calls ++ [.insertVectors data label]) ix' := by
  obtain ⟨-, -, items, hslots, rfl⟩ := (insertVectors_eq_ok_iff h.loaded h.f_eq).mp hre
  have hi : Inserts (.insertVectors data label) := trivial
  have hI : Occurs [Inserts] (calls ++ [.insertVectors data label]) ↔ _ := occurs_concat_of [] calls hi
  have hIB : Occurs [Inserts, Builds] (calls ++ [.insertVectors data label]) ↔ _ :=
    occurs_concat_of_not [Inserts] calls fun hb => hb.not_inserts hi
  have hIBI : Occurs [Inserts, Builds, Inserts] (calls ++ [.insertVectors data label]) ↔ _ :=
    occurs_concat_of [Inserts, Builds] calls hi
  exact { h with
    slots := by
      rw [insertedBy_concat, ← h.slots, ← h.f]
      exact hslots
    deletedIds := by
      rw [deletedBy_concat, ← h.deletedIds]
      rfl
    needRebuild_iff := by
      rw [hI, hIB, hIBI]
      simp [occurs_nil, em']
    built_iff := by
      rw [hIB]
      exact h.built_iff
    forest := by
      intro hno
      cases hno }

/-- One call. -/
theorem concat [FloatArith F] [LinearOrder F] (h : Tracks L fresh calls ix) (hs : Step L ix c ix') :
    Tracks L fresh (calls ++ [c]) ix' := by
  by_cases hb : Builds c
  · exact h.concat_of_builds hb (rebuild_of_step hb hs)
  · cases c with
    | insertVectors data label => exact h.concat_insert hs
    | removeVectors ids =>
      cases hs
      exact h.concat_of_not id hb
    | ensureBuilt => exact absurd (Or.inl rfl) hb
    | searchVectors query k bitmap searchK =>
      obtain ⟨⟨ix₂, found⟩, hsearch, rfl⟩ := map_eq_ok.mp hs
      have hk : ¬ 0 < k := fun hk => hb (Or.inr hk)
      unfold searchVectors at hsearch
      rw [if_pos (Int32.not_lt.mp hk)] at hsearch
      cases hsearch
      exact h.concat_of_not id hb

end Tracks

variable {L} {fresh ix : AnnoyIndex F} {calls : List (AnnoyCall F)} {c : AnnoyCall F} {dim nTrees : Int32}
  {metric : MetricType}

/-- A run. -/
theorem tracks (hfresh : init dim metric nTrees = .ok fresh) (h : Run (Step L) fresh calls ix) :
    Tracks L fresh calls ix := by
  induction h with
  | nil => exact Tracks.nil hfresh
  | snoc _ hs ih => exact ih.concat hs

omit [FloatArith F] [LinearOrder F] in
/-- Only the first build completes. -/
theorem exists_rebuild_iff (hloaded : ix.index.loaded = false) : (∃ ix', ix.rebuildIfNeeded L = .ok ix') ↔
    (ix.needRebuild = true → ix.index.forest = none ∧ -1 ≤ ix.nTrees) := by
  simp only [rebuildIfNeeded_eq_ok_iff L hloaded]
  constructor
  · rintro ⟨ix', ⟨hno, -⟩ | ⟨-, hnone, hq, -⟩⟩ hyes
    · exact absurd hyes (ne_true_of_eq_false hno)
    · exact ⟨hnone, hq⟩
  · intro hfirst
    by_cases hyes : ix.needRebuild = true
    · exact ⟨_, Or.inr ⟨hyes, (hfirst hyes).1, (hfirst hyes).2, rfl⟩⟩
    · exact ⟨ix, Or.inl ⟨eq_false_of_ne_true hyes, rfl⟩⟩

/-- Which calls complete. -/
theorem exists_step_iff (h : Tracks L fresh calls ix) (hdim : c.RightDim fresh.dim) : (∃ ix', Step L ix c ix') ↔
    c.InRange ∧ (Builds c → ix.needRebuild = true → ix.index.forest = none ∧ -1 ≤ ix.nTrees) := by
  rw [← h.dim] at hdim
  unfold Step call
  cases c with
  | insertVectors data label =>
    rw [exists_insertVectors_iff h.loaded h.f_eq (ofNat_eq_of_length hdim)]
    have hno : ¬ Builds (.insertVectors data label) := fun hb => hb.not_inserts trivial
    simp [AnnoyCall.InRange, hno]
  | removeVectors ids => simp [AnnoyCall.InRange, Builds, AnnoyCall.Searches]
  | ensureBuilt =>
    unfold ensureBuilt
    rw [exists_rebuild_iff h.loaded]
    simp [AnnoyCall.InRange, Builds]
  | searchVectors query k bitmap searchK =>
    have hmap : (∃ ix', (ix.searchVectors L query k bitmap searchK).map Prod.fst = .ok ix') ↔
        ∃ r, ix.searchVectors L query k bitmap searchK = .ok r := by
      simp only [map_eq_ok]
      exact ⟨fun ⟨_, r, hr, _⟩ => ⟨r, hr⟩, fun ⟨r, hr⟩ => ⟨_, r, hr, rfl⟩⟩
    rw [hmap, exists_searchVectors_iff L (ofNat_eq_of_length hdim), exists_rebuild_iff h.loaded]
    simp [AnnoyCall.InRange, Builds, AnnoyCall.Searches]

omit [FloatArith F] [LinearOrder F] in
/-- A build comes first exactly where no insert followed the one before. -/
theorem Tracks.first_build_iff (h : Tracks L fresh calls ix) (hq : -1 ≤ ix.nTrees ∨ ¬ Occurs [Inserts, Builds] calls) :
    (ix.needRebuild = true → ix.index.forest = none ∧ -1 ≤ ix.nTrees) ↔
      (Occurs [Inserts] calls → -1 ≤ ix.nTrees) ∧ ¬ Occurs [Inserts, Builds, Inserts] calls := by
  have hsub : Occurs [Inserts, Builds, Inserts] calls → Occurs [Inserts, Builds] calls := Occurs.of_concat [Inserts, Builds]
  have hnone : ix.index.forest = none ↔ ¬ Occurs [Inserts, Builds] calls := by
    rw [← h.built_iff, Option.isSome_iff_ne_none, not_not]
  rw [h.needRebuild_iff, hnone]
  tauto

theorem Tracks.exists_step_iff (h : Tracks L fresh calls ix) (hdim : c.RightDim fresh.dim)
    (hq : -1 ≤ fresh.nTrees ∨ ¬ Occurs [Inserts, Builds] calls) : (∃ ix', Step L ix c ix') ↔ c.InRange ∧
      (Builds c → (Occurs [Inserts] calls → -1 ≤ fresh.nTrees) ∧ ¬ Occurs [Inserts, Builds, Inserts] calls) := by
  rw [← h.nTrees] at hq ⊢
  rw [AnnoyIndex.exists_step_iff h hdim, h.first_build_iff hq]

/-- Which runs complete. -/
theorem exists_run_iff (hfresh : init dim metric nTrees = .ok fresh) (hdim : ∀ c ∈ calls, c.RightDim dim) :
    (∃ ix, Run (Step L) fresh calls ix) ↔ (∀ c ∈ calls, c.InRange) ∧ (-1 ≤ nTrees ∨ ¬ Occurs [Inserts, Builds] calls) ∧
      ¬ Occurs [Inserts, Builds, Inserts, Builds] calls := by
  obtain ⟨rfl, rfl⟩ : fresh.dim = dim ∧ fresh.nTrees = nTrees := by
    rw [eq_of_init hfresh]
    exact ⟨rfl, rfl⟩
  induction calls using List.reverseRecOn with
  | nil =>
    simp only [not_occurs_nil, List.not_mem_nil, false_imp_iff, implies_true, not_false_iff, or_true, and_self, iff_true]
    exact ⟨fresh, Run.nil⟩
  | append_singleton calls c ih =>
    rw [List.forall_mem_append, List.forall_mem_singleton] at hdim
    have ih := ih hdim.1
    have hIB : Occurs [Inserts, Builds] (calls ++ [c]) ↔ _ := occurs_concat_iff [Inserts] Builds calls c
    have hIBIB : Occurs [Inserts, Builds, Inserts, Builds] (calls ++ [c]) ↔ _ :=
      occurs_concat_iff [Inserts, Builds, Inserts] Builds calls c
    rw [hIB, hIBIB, List.forall_mem_append, List.forall_mem_singleton]
    have hstep := fun ix (hrun : Run (Step L) fresh calls ix) =>
      (tracks hfresh hrun).exists_step_iff hdim.2 (ih.mp ⟨ix, hrun⟩).2.1
    constructor
    · rintro ⟨ix', hrun⟩
      obtain ⟨ix, hrun, hs⟩ := Run.snoc_iff.mp hrun
      obtain ⟨hrange, hq, htwo⟩ := ih.mp ⟨ix, hrun⟩
      obtain ⟨hc, hbuild⟩ := (hstep ix hrun).mp ⟨ix', hs⟩
      refine ⟨⟨hrange, hc⟩, ?_, ?_⟩
      · by_cases hq' : -1 ≤ fresh.nTrees
        · exact Or.inl hq'
        · right
          rintro (h | ⟨hi, hb⟩)
          · exact hq.resolve_left hq' h
          · exact hq' ((hbuild hb).1 hi)
      · rintro (h | ⟨h, hb⟩)
        · exact htwo h
        · exact (hbuild hb).2 h
    · rintro ⟨⟨hrange, hc⟩, hq, htwo⟩
      obtain ⟨ix, hrun⟩ := ih.mpr ⟨hrange, hq.imp_right (mt Or.inl), mt Or.inl htwo⟩
      have hbuild : Builds c →
          (Occurs [Inserts] calls → -1 ≤ fresh.nTrees) ∧ ¬ Occurs [Inserts, Builds, Inserts] calls := fun hb =>
        ⟨fun hi => hq.resolve_right (not_not.mpr (Or.inr ⟨hi, hb⟩)), fun h => htwo (Or.inr ⟨h, hb⟩)⟩
      obtain ⟨ix', hs⟩ := (hstep ix hrun).mpr ⟨hc, hbuild⟩
      exact ⟨ix', hrun.snoc hs⟩

/-- **Interleaved calls.** Every call completes, and every search runs on a forest over all items before it, exactly where
the integers stay in range, the number of trees can be reached, and no insert stands between two builds. -/
theorem interleaves_iff (L : Annoy.Libs F) {dim nTrees : Int32} {metric : MetricType} {fresh : AnnoyIndex F}
    (hfresh : init dim metric nTrees = .ok fresh) (calls : List (AnnoyCall F)) (hdim : ∀ c ∈ calls, c.RightDim dim) :
    Interleaves L fresh calls ↔ (∀ c ∈ calls, c.InRange) ∧ (-1 ≤ nTrees ∨ ¬ Occurs [Inserts, Builds] calls) ∧
      ¬ Occurs [Inserts, Builds, Inserts, Builds] calls := by
  rw [← exists_run_iff (L := L) hfresh hdim]
  constructor
  · intro h
    rcases List.eq_nil_or_concat' calls with rfl | ⟨before, c, rfl⟩
    · exact ⟨fresh, Run.nil⟩
    · obtain ⟨ix₁, ix₂, hrun, hs, -⟩ := h before c List.prefix_rfl
      exact ⟨ix₂, hrun.snoc hs⟩
  · rintro ⟨ix, hrun⟩ before c ⟨rest, rfl⟩
    obtain ⟨ix₂, hrun, -⟩ := Run.append_iff.mp hrun
    obtain ⟨ix₁, hrun₁, hs⟩ := Run.snoc_iff.mp hrun
    refine ⟨ix₁, ix₂, hrun₁, hs, fun hc => ?_⟩
    have h₁ := tracks hfresh hrun₁
    have h₂ := h₁.concat hs
    have hslots : ix₂.index.items.slots = insertedBy fresh.index.f before := by
      rw [h₂.slots, insertedBy_concat, AnnoyCall.slots_of_not_inserts (Builds.not_inserts (Or.inr hc))]
    refine ⟨hslots, fun hne => ?_⟩
    have hno := needRebuild_of_rebuildIfNeeded L h₁.loaded (rebuild_of_step (Or.inr hc) hs)
    rw [← hslots] at hne ⊢
    rw [h₂.forest hno hne, h₂.metric, h₂.nTrees]

/-- Insert and search, twice. -/
def insertSearchTwice : List (AnnoyCall Int) :=
  [.insertVectors [0] 1, .searchVectors [0] 1 none (-1), .insertVectors [1] 2, .searchVectors [0] 1 none (-1)]

theorem interleaves_iff_once : Interleaves Annoy.intLibs freshInt (insertSearchTwice.take 2) ↔
    (∀ c ∈ insertSearchTwice.take 2, c.InRange) ∧
      (-1 ≤ (10 : Int32) ∨ ¬ Occurs [Inserts, Builds] (insertSearchTwice.take 2)) ∧
      ¬ Occurs [Inserts, Builds, Inserts, Builds] (insertSearchTwice.take 2) :=
  interleaves_iff Annoy.intLibs init_freshInt (insertSearchTwice.take 2) (by simp [insertSearchTwice, AnnoyCall.RightDim])

/-- The second search throws: Annoy builds once. -/
theorem second_search_throws : ¬ ∀ (L : Annoy.Libs Int) (dim nTrees : Int32) (metric : MetricType) (fresh : AnnoyIndex Int)
    (calls : List (AnnoyCall Int)), init dim metric nTrees = .ok fresh → (∀ c ∈ calls, c.RightDim dim) →
    Interleaves L fresh calls := by
  intro h
  have hdim : ∀ c ∈ insertSearchTwice, c.RightDim 1 := by simp [insertSearchTwice, AnnoyCall.RightDim]
  obtain ⟨ix₁, ix₂, hrun, hs, -⟩ := h Annoy.intLibs 1 10 .l2 freshInt insertSearchTwice init_freshInt hdim
    (insertSearchTwice.take 3) (.searchVectors [0] 1 none (-1)) List.prefix_rfl
  obtain ⟨-, -, htwo⟩ := (exists_run_iff init_freshInt hdim).mp ⟨ix₂, hrun.snoc hs⟩
  refine htwo ⟨insertSearchTwice, List.Sublist.refl _, ?_⟩
  have hb : Builds (.searchVectors [(0 : Int)] 1 none (-1)) := Or.inr (by decide : (0 : Int32) < 1)
  exact .cons trivial (.cons hb (.cons trivial (.cons hb .nil)))

end AnnoyIndex
end VectorDb
