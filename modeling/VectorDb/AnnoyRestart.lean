import VectorDb.AnnoyCalls

/-!
# Save and load of an `AnnoyIndex`

* `MayReturn` : what a search may return: an item that is not removed;
* `KeepsLive` : saving the index and loading the file keep these ids;
* `mem_insertedBy_iff`, `mem_deletedIds_iff` : items and removed ids, from the calls;
* `exists_load_iff` : the index loaded has the items, and no removed ids;
* `keepsLive_iff` : a removed id comes back where it was inserted.
-/

namespace VectorDb
open Std (ExtTreeMap)

variable {F : Type}

/-- The items of an index of `q` trees are in its file. -/
def Annoy.Libs.Keeps (L : Annoy.Libs F) (metric : AnnoyIndex.MetricType) (q : Int32) : Prop :=
  ∀ (f : Nat) (items : Annoy.Items F f), items.slots ≠ ∅ → ∃ forest,
    L.readNodes metric f (L.nodes metric f items (L.makeForest metric items.slots q)) = .ok (items, forest)

namespace AnnoyIndex
open AnnoyCall (Inserts Builds)

/-- Stored and not removed. -/
def MayReturn (ix : AnnoyIndex F) (id : Int64) : Prop := id ∈ ix.index.items.slots ∧ id ∉ ix.deletedIds

/-- The index can be saved and the file loaded, and the same ids may be returned. -/
def KeepsLive (L : Annoy.Libs F) (ix : AnnoyIndex F) : Prop :=
  ∃ saved file loaded, ix.saveIndex L none = .ok (saved, file) ∧ saved.loadIndex L (some file) = .ok loaded ∧
    ∀ id, loaded.MayReturn id ↔ ix.MayReturn id

/-! ## Items and removed ids -/

theorem mem_slots_iff (f : Nat) (before : ExtTreeMap Int64 (List F)) (c : AnnoyCall F) (id : Int64) :
    id ∈ c.slots f before ↔ id ∈ before ∨ ∃ data label, .insertVectors data label = c ∧ label.toInt64 = id := by
  cases c with
  | insertVectors data label =>
    unfold AnnoyCall.slots
    rw [ExtTreeMap.mem_insert, Std.LawfulEqCmp.compare_eq_iff_eq, or_comm]
    simp
  | removeVectors ids => simp [AnnoyCall.slots]
  | ensureBuilt => simp [AnnoyCall.slots]
  | searchVectors query k bitmap searchK => simp [AnnoyCall.slots]

theorem mem_insertedBy_iff (f : Nat) (calls : List (AnnoyCall F)) (id : Int64) :
    id ∈ insertedBy f calls ↔ ∃ data label, .insertVectors data label ∈ calls ∧ label.toInt64 = id := by
  induction calls using List.reverseRecOn with
  | nil =>
    refine iff_of_false ExtTreeMap.not_mem_empty ?_
    rintro ⟨data, label, h, -⟩
    cases h
  | append_singleton calls c ih =>
    rw [insertedBy_concat, mem_slots_iff, ih]
    simp only [List.mem_append, List.mem_singleton, or_and_right, exists_or]

theorem mem_foldl_insert (ids : List Int64) (deleted : Finset Int64) (id : Int64) :
    id ∈ ids.foldl (fun deleted id => insert id deleted) deleted ↔ id ∈ deleted ∨ id ∈ ids := by
  induction ids generalizing deleted with
  | nil => simp
  | cons i ids ih =>
    rw [List.foldl_cons, ih, Finset.mem_insert, List.mem_cons]
    tauto

/-- Inserts remove nothing. -/
theorem foldl_deleted_inserts {inserts : List (AnnoyCall F)} (h : ∀ c ∈ inserts, c.Inserts) :
    inserts.foldl AnnoyCall.deleted ∅ = ∅ := by
  induction inserts with
  | nil => rfl
  | cons c inserts ih =>
    rw [List.forall_mem_cons] at h
    cases c with
    | insertVectors data label => exact ih h.2
    | removeVectors ids => exact absurd h.1 id
    | ensureBuilt => exact absurd h.1 id
    | searchVectors query k bitmap searchK => exact absurd h.1 id

theorem mem_foldl_deleted_iff {rest : List (AnnoyCall F)} (h : ∀ c ∈ rest, ¬ c.Inserts) (deleted : Finset Int64)
    (id : Int64) : id ∈ rest.foldl AnnoyCall.deleted deleted ↔ id ∈ deleted ∨ ∃ ids, .removeVectors ids ∈ rest ∧ id ∈ ids := by
  induction rest generalizing deleted with
  | nil => simp
  | cons c rest ih =>
    rw [List.forall_mem_cons] at h
    rw [List.foldl_cons, ih h.2]
    cases c with
    | insertVectors data label => exact absurd trivial h.1
    | removeVectors ids =>
      unfold AnnoyCall.deleted
      rw [mem_foldl_insert]
      simp [or_and_right, exists_or, or_assoc]
    | ensureBuilt => simp [AnnoyCall.deleted]
    | searchVectors query k bitmap searchK => simp [AnnoyCall.deleted]

section
variable {inserts rest : List (AnnoyCall F)}

theorem mem_insertedBy_append_iff {f : Nat} (hrest : ∀ c ∈ rest, ¬ c.Inserts) (id : Int64) :
    id ∈ insertedBy f (inserts ++ rest) ↔ ∃ data label, .insertVectors data label ∈ inserts ∧ label.toInt64 = id := by
  rw [mem_insertedBy_iff]
  constructor
  · rintro ⟨data, label, hmem, hid⟩
    rcases List.mem_append.mp hmem with hmem | hmem
    · exact ⟨data, label, hmem, hid⟩
    · exact absurd trivial (hrest _ hmem)
  · rintro ⟨data, label, hmem, hid⟩
    exact ⟨data, label, List.mem_append_left rest hmem, hid⟩

theorem mem_deletedBy_append_iff (hinserts : ∀ c ∈ inserts, c.Inserts) (hrest : ∀ c ∈ rest, ¬ c.Inserts) (id : Int64) :
    id ∈ deletedBy (inserts ++ rest) ↔ ∃ ids, .removeVectors ids ∈ rest ∧ id ∈ ids := by
  unfold deletedBy
  rw [List.foldl_append, foldl_deleted_inserts hinserts, mem_foldl_deleted_iff hrest]
  simp

end

/-! ## Save and load -/

variable {L : Annoy.Libs F} {fresh ix ix₁ : AnnoyIndex F} {calls inserts rest : List (AnnoyCall F)}

theorem load_eq {metric : MetricType} {f : Nat} {file : L.File} {items : Annoy.Items F f} {forest : Annoy.Forest F}
    (h : L.readNodes metric f file = .ok (items, forest)) :
    Annoy.Index.load L metric f file = .ok ⟨f, items, some forest, true⟩ := by
  unfold Annoy.Index.load
  rw [h]

theorem saveIndex_eq {forest : Annoy.Forest F} {loaded : Annoy.Index F} (hre : ix.rebuildIfNeeded L = .ok ix₁)
    (hforest : ix₁.index.forest = some forest)
    (hload : Annoy.Index.load L ix₁.metric ix₁.index.f (L.nodes ix₁.metric ix₁.index.f ix₁.index.items forest) =
      .ok loaded) :
    ix.saveIndex L none = .ok ({ ix₁ with index := loaded }, L.nodes ix₁.metric ix₁.index.f ix₁.index.items forest) := by
  unfold saveIndex Annoy.Index.save
  rw [hre]
  dsimp only
  rw [hforest]
  dsimp only
  rw [hload]
  rfl

/-- The index loaded from the file of an index with items. -/
theorem exists_load (h : Tracks L fresh calls ix) (hkeeps : L.Keeps fresh.metric fresh.nTrees)
    (hne : ix.index.items.slots ≠ ∅) (hre : ix.rebuildIfNeeded L = .ok ix₁) : ∃ saved file loaded,
      ix.saveIndex L none = .ok (saved, file) ∧ saved.loadIndex L (some file) = .ok loaded ∧
      loaded.index.items.slots = ix.index.items.slots ∧ loaded.deletedIds = ∅ := by
  have h₁ : Tracks L fresh (calls ++ [.ensureBuilt]) ix₁ := h.concat_of_builds (Or.inl rfl) hre
  have hslots : ix₁.index.items.slots = ix.index.items.slots := by
    rw [h₁.slots, insertedBy_concat, h.slots]
    rfl
  have hforest := h₁.forest (needRebuild_of_rebuildIfNeeded L h.loaded hre) (hslots ▸ hne)
  rw [← h₁.metric, ← h₁.nTrees] at hkeeps
  obtain ⟨forest, hread⟩ := hkeeps ix₁.index.f ix₁.index.items (hslots ▸ hne)
  have hload := load_eq hread
  refine ⟨_, _, { ix₁ with
    index := ⟨ix₁.index.f, ix₁.index.items, some forest, true⟩
    deletedIds := ∅
    needRebuild := false }, saveIndex_eq hre hforest hload, ?_, hslots, rfl⟩
  unfold loadIndex
  dsimp only
  rw [← h₁.f_eq, hload]
  rfl

theorem keepsLive_iff_of_rebuild (h : Tracks L fresh calls ix) (hkeeps : L.Keeps fresh.metric fresh.nTrees)
    (hne : ix.index.items.slots ≠ ∅) (hre : ix.rebuildIfNeeded L = .ok ix₁) :
    KeepsLive L ix ↔ ∀ id ∈ ix.index.items.slots, id ∉ ix.deletedIds := by
  obtain ⟨saved, file, loaded, hsave, hload, hslots, hdeleted⟩ := exists_load h hkeeps hne hre
  have hreturn : ∀ id, loaded.MayReturn id ↔ id ∈ ix.index.items.slots := by
    intro id
    unfold MayReturn
    rw [hslots, hdeleted]
    simp
  constructor
  · rintro ⟨saved', file', loaded', hsave', hload', hlive⟩ id hid
    cases hsave.symm.trans hsave'
    cases hload.symm.trans hload'
    exact ((hlive id).mp ((hreturn id).mpr hid)).2
  · intro hlive
    refine ⟨saved, file, loaded, hsave, hload, fun id => ?_⟩
    rw [hreturn]
    exact ⟨fun hid => ⟨hid, hlive id hid⟩, fun hid => hid.1⟩

/-- An index that can be saved can be built. -/
theorem exists_rebuild_of_keepsLive (h : KeepsLive L ix) : ∃ ix₁, ix.rebuildIfNeeded L = .ok ix₁ := by
  obtain ⟨saved, file, -, hsave, -⟩ := h
  unfold saveIndex at hsave
  cases hre : ix.rebuildIfNeeded L with
  | error e =>
    rw [hre] at hsave
    cases hsave
  | ok ix₁ => exact ⟨ix₁, rfl⟩

/-- Without items, an index that is not built cannot be saved. -/
theorem saveIndex_ne_ok (hneed : ix.needRebuild = false) (hnone : ix.index.forest = none) (r : AnnoyIndex F × L.File) :
    ix.saveIndex L none ≠ .ok r := by
  unfold saveIndex rebuildIfNeeded Annoy.Index.save
  rw [hneed, if_neg Bool.false_ne_true]
  dsimp only
  rw [hnone]
  intro h
  cases h

/-- Without an insert nothing is built. -/
theorem Tracks.not_keepsLive (h : Tracks L fresh calls ix) (hnone : ¬ Occurs [Inserts] calls) : ¬ KeepsLive L ix := by
  have hbuilt : ¬ Occurs [Inserts, Builds] calls := mt (Occurs.of_concat [Inserts]) hnone
  have hthird : ¬ Occurs [Inserts, Builds, Inserts] calls := mt (Occurs.of_concat [Inserts, Builds]) hbuilt
  rintro ⟨saved, file, -, hsave, -⟩
  refine saveIndex_ne_ok ?_ ?_ (saved, file) hsave
  · rw [← Bool.not_eq_true, h.needRebuild_iff]
    tauto
  · rw [← Option.not_isSome_iff_eq_none, h.built_iff]
    exact hbuilt

/-- With items, and no insert between two builds, it is the number of trees that decides. -/
theorem Tracks.exists_rebuild_iff_trees (h : Tracks L fresh calls ix) (hthird : ¬ Occurs [Inserts, Builds, Inserts] calls)
    (hne : ix.index.items.slots ≠ ∅) : (∃ ix', ix.rebuildIfNeeded L = .ok ix') ↔ -1 ≤ ix.nTrees := by
  rw [exists_rebuild_iff h.loaded]
  constructor
  · intro hfirst
    by_cases hyes : ix.needRebuild = true
    · exact (hfirst hyes).2
    · apply h.nTrees_of_built
      rw [h.forest (eq_false_of_ne_true hyes) hne]
      rfl
  · intro hq
    exact (h.first_build_iff (Or.inl hq)).mpr ⟨fun _ => hq, hthird⟩

theorem Tracks.keepsLive_iff_of_items (h : Tracks L fresh calls ix) (hkeeps : L.Keeps fresh.metric fresh.nTrees)
    (hthird : ¬ Occurs [Inserts, Builds, Inserts] calls) (hne : ix.index.items.slots ≠ ∅) :
    KeepsLive L ix ↔ -1 ≤ ix.nTrees ∧ ∀ id ∈ ix.index.items.slots, id ∉ ix.deletedIds := by
  rw [← h.exists_rebuild_iff_trees hthird hne]
  constructor
  · intro hkeep
    obtain ⟨ix₁, hre⟩ := exists_rebuild_of_keepsLive hkeep
    exact ⟨⟨ix₁, hre⟩, (keepsLive_iff_of_rebuild h hkeeps hne hre).mp hkeep⟩
  · rintro ⟨⟨ix₁, hre⟩, hlive⟩
    exact (keepsLive_iff_of_rebuild h hkeeps hne hre).mpr hlive

/-- Inserts first: no insert between two builds. -/
theorem not_inserts_between (hinserts : ∀ c ∈ inserts, c.Inserts) (hrest : ∀ c ∈ rest, ¬ c.Inserts) :
    ¬ Occurs [Inserts, Builds, Inserts] (inserts ++ rest) := by
  intro h
  have hhead := (occurs_append_of_forall_not [Inserts, Builds] inserts hrest).mp h
  have hbuilds := Occurs.of_concat [Inserts, Builds] hhead
  exact not_occurs_of_forall_not [Inserts] (fun c hc hb => hb.not_inserts (hinserts c hc)) hbuilds

variable [FloatArith F] [LinearOrder F]

/-- **Save and load.** The ids that a search may return stay the same exactly where there is an item, trees can be made, and
no removed id was inserted. -/
theorem keepsLive_iff (L : Annoy.Libs F) {dim nTrees : Int32} {metric : MetricType} {fresh ix : AnnoyIndex F}
    (hfresh : init dim metric nTrees = .ok fresh) (hkeeps : L.Keeps metric nTrees) {inserts rest : List (AnnoyCall F)}
    (hinserts : ∀ c ∈ inserts, c.Inserts) (hrest : ∀ c ∈ rest, ¬ c.Inserts)
    (hrun : Run (Step L) fresh (inserts ++ rest) ix) : KeepsLive L ix ↔ inserts ≠ [] ∧ -1 ≤ nTrees ∧ ∀ ids data label,
      .removeVectors ids ∈ rest → .insertVectors data label ∈ inserts → label.toInt64 ∉ ids := by
  obtain ⟨rfl, rfl⟩ : fresh.metric = metric ∧ fresh.nTrees = nTrees := by
    rw [eq_of_init hfresh]
    exact ⟨rfl, rfl⟩
  have h := tracks hfresh hrun
  have hslots : ∀ id, id ∈ ix.index.items.slots ↔
      ∃ data label, .insertVectors data label ∈ inserts ∧ label.toInt64 = id := by
    intro id
    rw [h.slots]
    exact mem_insertedBy_append_iff hrest id
  have hlive : (∀ id ∈ ix.index.items.slots, id ∉ ix.deletedIds) ↔ ∀ ids data label,
      .removeVectors ids ∈ rest → .insertVectors data label ∈ inserts → label.toInt64 ∉ ids := by
    rw [h.deletedIds]
    simp only [hslots, mem_deletedBy_append_iff hinserts hrest]
    constructor
    · intro hall ids data label hremove hinsert hid
      exact hall label.toInt64 ⟨data, label, hinsert, rfl⟩ ⟨ids, hremove, hid⟩
    · rintro hall id ⟨data, label, hinsert, rfl⟩ ⟨ids, hremove, hid⟩
      exact hall ids data label hremove hinsert hid
  by_cases hnil : inserts = []
  · subst hnil
    exact iff_of_false (h.not_keepsLive (not_occurs_of_forall_not [] hrest)) fun hcond => hcond.1 rfl
  · have hne : ix.index.items.slots ≠ ∅ := by
      obtain ⟨c, hc⟩ := List.exists_mem_of_ne_nil inserts hnil
      obtain ⟨data, label, rfl⟩ := AnnoyCall.exists_of_inserts (hinserts c hc)
      have hmem := (hslots label.toInt64).mpr ⟨data, label, hc, rfl⟩
      intro hempty
      rw [hempty] at hmem
      exact ExtTreeMap.not_mem_empty hmem
    rw [h.keepsLive_iff_of_items hkeeps (not_inserts_between hinserts hrest) hne, h.nTrees, hlive]
    exact (and_iff_right hnil).symm

theorem keeps_intLibs (metric : MetricType) (q : Int32) : Annoy.intLibs.Keeps metric q := by
  intro f items _
  exact ⟨_, dif_pos rfl⟩

theorem keepsLive_iff_two : ∃ ix, Run (Step Annoy.intLibs) freshInt
    ([.insertVectors [0] 1, .insertVectors [1] 2] ++ [.searchVectors [0] 1 none (-1), .removeVectors [3]]) ix ∧
    (KeepsLive Annoy.intLibs ix ↔
      ([.insertVectors [0] 1, .insertVectors [1] 2] : List (AnnoyCall Int)) ≠ [] ∧ -1 ≤ (10 : Int32) ∧ ∀ ids data label,
        .removeVectors ids ∈ ([.searchVectors [0] 1 none (-1), .removeVectors [3]] : List (AnnoyCall Int)) →
        .insertVectors data label ∈ ([.insertVectors [0] 1, .insertVectors [1] 2] : List (AnnoyCall Int)) →
        label.toInt64 ∉ ids) := by
  have hrun : Run (Step Annoy.intLibs) freshInt
      ([.insertVectors [0] 1, .insertVectors [1] 2] ++ [.searchVectors [0] 1 none (-1), .removeVectors [3]]) _ :=
    (((Run.nil.snoc rfl).snoc rfl).snoc rfl).snoc rfl
  exact ⟨_, hrun, keepsLive_iff Annoy.intLibs init_freshInt (keeps_intLibs .l2 10) (by simp [Inserts]) (by simp [Inserts])
    hrun⟩

/-- The one item is removed, and comes back with the file. -/
theorem removed_comes_back : ¬ ∀ (L : Annoy.Libs Int) (dim nTrees : Int32) (metric : MetricType) (fresh ix : AnnoyIndex Int)
    (inserts rest : List (AnnoyCall Int)), init dim metric nTrees = .ok fresh → L.Keeps metric nTrees →
    (∀ c ∈ inserts, c.Inserts) → (∀ c ∈ rest, ¬ c.Inserts) → Run (Step L) fresh (inserts ++ rest) ix → KeepsLive L ix := by
  intro h
  obtain ⟨ix, hrun⟩ : ∃ ix, Run (Step Annoy.intLibs) freshInt ([.insertVectors [0] 1] ++ [.removeVectors [1]]) ix := by
    exact ⟨_, (Run.single rfl).snoc rfl⟩
  have hkeep := h Annoy.intLibs 1 10 .l2 freshInt ix [.insertVectors [0] 1] [.removeVectors [1]] init_freshInt
    (keeps_intLibs .l2 10) (by simp [Inserts]) (by simp [Inserts]) hrun
  have ht := tracks init_freshInt hrun
  have hstored : 1 ∈ ix.index.items.slots := by
    rw [ht.slots, mem_insertedBy_iff]
    exact ⟨[0], 1, List.mem_cons_self, rfl⟩
  have hremoved : 1 ∈ ix.deletedIds := by
    rw [ht.deletedIds]
    decide
  have hne : ix.index.items.slots ≠ ∅ := by
    intro hempty
    rw [hempty] at hstored
    exact ExtTreeMap.not_mem_empty hstored
  obtain ⟨ix₁, hre⟩ := exists_rebuild_of_keepsLive hkeep
  exact (keepsLive_iff_of_rebuild ht (keeps_intLibs .l2 10) hne hre).mp hkeep 1 hstored hremoved

end AnnoyIndex
end VectorDb
