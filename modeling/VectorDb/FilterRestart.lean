import VectorDb.Recovery

/-!
# The filter index over restarts

* `FiltersKept` : the live index shows the applied documents, the saved one a part of them that covers the cutoff;
* `BlobsReadBack`, `RestartCovered` : what a step must meet for that, the second only a restart;
* `filtersKept_step`, `filtersKept_run` : kept by every step that meets them;
* `filter_after_restart_iff` : a restart then answers every filter as before exactly when it is covered.
-/

namespace VectorDb

variable {F : Type}

/-- The last document of each id. -/
def lastDocs (ds : List Json) (i : UInt64) : Option Json := lastDoc i ds

namespace FilterIndex

/-- Equal answers are equal bitmaps. -/
theorem shows_of_get_eq {a b : FilterIndex} (h : ∀ f op v, a.getIntFieldFilterBitmap f op v ∅ =
    b.getIntFieldFilterBitmap f op v ∅) {m : UInt64 → Option Json} (hb : b.Shows m) : a.Shows m := by
  intro x g w
  have hx := congrArg (x ∈ ·) (h g .equal w)
  simp only [mem_get_equal, Finset.notMem_empty, false_or, eq_iff_iff] at hx
  rw [hx]
  exact hb x g w

/-- Indexes that show the same documents answer alike. -/
theorem get_eq_of_shows {a b : FilterIndex} {m : UInt64 → Option Json} (ha : a.Shows m) (hb : b.Shows m) (f : Bytes)
    (op : Operation) (v : Int64) : a.getIntFieldFilterBitmap f op v ∅ = b.getIntFieldFilterBitmap f op v ∅ := by
  ext x
  simp only [mem_getIntFieldFilterBitmap, ha x f, hb x f]

theorem shows_empty : empty.Shows (lastDocs []) := by
  intro x g w
  simp [lastDocs, lastDoc]

end FilterIndex

namespace Stores
variable {s t : Stores F} {ds all : List Json}

/-- A filter that shows the stored documents is covered by any documents. -/
theorem covered_of_shows {stored : List Json} (hs : ∀ i, s.document i = (lastDoc i stored).getD .null)
    (hm : s.indexes.filter.Shows (lastDocs stored)) : s.Covered ds := by
  intro x g w hx _
  obtain ⟨d, hd, hw⟩ := (hm x g w).mp hx
  left
  rwa [hs, show lastDoc x.toUInt64 stored = some d from hd]

variable [CFloat F] {dim : Nat}

theorem Holds.storedIn (hs : s.Holds dim ds) (hds : ∀ d ∈ ds, d ∈ all) : s.StoredIn all := by
  intro i hi
  obtain ⟨d, hd⟩ := (hs.isObject_iff i).mp hi
  rw [hs.document, hd]
  obtain ⟨hmem, hid⟩ := lastDoc_mem hd
  exact ⟨hds d hmem, hid⟩

end Stores

namespace Node
section
variable {R : RoaringFormat} {dim : Nat} {parse : Bytes → Option Json} {s t : Node F}

/-- A filter index that the step saves is read back as it was. -/
def BlobsReadBack (R : RoaringFormat) (s : Node F) : NodeAction → Prop
  | .snapshot => FilterIndex.empty.deserializeIntFieldFilter R (s.db.stores.indexes.filter.serializeIntFieldFilter R) =
      .ok ⟨s.db.stores.indexes.filter, ∅⟩
  | .restart writes => 3 ≤ writes →
      FilterIndex.empty.deserializeIntFieldFilter R (s.db.stores.indexes.filter.serializeIntFieldFilter R) =
        .ok ⟨s.db.stores.indexes.filter, ∅⟩
  | _ => True

/-- Each value under which the saved index lists an id with a document above the cutoff is a value of the stored
document or of one above the cutoff. -/
def RestartCovered (R : RoaringFormat) (dim : Nat) (parse : Bytes → Option Json) (s : Node F) : NodeAction → Prop
  | .restart writes => ∀ l,
      FilterIndex.empty.deserializeIntFieldFilter R (s.savedFilter R writes) = .ok l →
      (s.loaded R dim writes l.filter).Covered ((s.replayed R parse writes).map Prod.snd)
  | _ => True

/-- The live index shows the applied documents, and the saved one a part of them that a replay can continue. -/
structure FiltersKept (R : RoaringFormat) (parse : Bytes → Option Json) (s : Node F) : Prop where
  live : s.db.stores.indexes.filter.Shows (lastDocs ((s.appliedDocs parse).map Prod.snd))
  saved : ∃ p, Covers Prod.fst (s.db.files.maxLogID.getD 0) p (s.appliedDocs parse) ∧
    ∃ filter, FilterIndex.empty.deserializeIntFieldFilter R
        (s.db.stores.scalarStorage.get true IndexFactory.filterPath) = .ok ⟨filter, ∅⟩ ∧
      filter.Shows (lastDocs (p.map Prod.snd))

theorem filtersKept_first : FiltersKept R parse (first dim : Node F) :=
  ⟨FilterIndex.shows_empty, [], Covers.refl _, FilterIndex.empty, rfl, FilterIndex.shows_empty⟩

/-- The saved index after a snapshot, complete or cut. -/
theorem exists_saved_filter (h : FiltersKept R parse s) {writes : Nat} (hb : BlobsReadBack R s (.restart writes)) :
    ∃ p, Covers Prod.fst (s.cutoff R writes) p (s.appliedDocs parse) ∧
      ∃ filter, FilterIndex.empty.deserializeIntFieldFilter R (s.savedFilter R writes) = .ok ⟨filter, ∅⟩ ∧
        filter.Shows (lastDocs (p.map Prod.snd)) := by
  obtain ⟨p, hp, hsaved⟩ := h.saved
  apply exists_covers hp (n := 3) (by omega)
  · intro hle
    rw [savedFilter, VectorDatabase.filter_takeSnapshotUpTo, if_pos hle]
    exact ⟨_, hb hle, h.live⟩
  · intro hlt
    rw [savedFilter, VectorDatabase.filter_takeSnapshotUpTo, if_neg (Nat.not_le.mpr hlt)]
    exact hsaved

variable [CFloat F]

theorem storedIn_docs (h : Stored dim parse s) : s.db.stores.StoredIn ((s.docs parse).map Prod.snd) := by
  apply h.holds.storedIn
  intro d hd
  exact ((List.take_prefix _ _).map Prod.snd).subset hd

/-- What a restart makes of a saved index. -/
theorem shows_restart_iff (hl : Logged parse s) (hs : Stored dim parse s)
    (hu : UniformFields ((s.docs parse).map Prod.snd)) {writes : Nat} {p : List (Nat × Json)}
    (hp : Covers Prod.fst (s.cutoff R writes) p (s.appliedDocs parse)) {filter : FilterIndex}
    (hf : filter.Shows (lastDocs (p.map Prod.snd))) {stores : Stores F}
    (hrun : Run Applied (s.loaded R dim writes filter) ((s.replayed R parse writes).map Prod.snd) stores) :
    stores.indexes.filter.Shows (lastDocs ((s.docs parse).map Prod.snd)) ↔
      (s.loaded R dim writes filter).Covered ((s.replayed R parse writes).map Prod.snd) := by
  have hin : (s.loaded R dim writes filter).StoredIn ((s.docs parse).map Prod.snd) := by
    intro i hi
    rw [document_loaded] at hi ⊢
    exact storedIn_docs hs i hi
  have hds : ∀ d ∈ (s.replayed R parse writes).map Prod.snd, d ∈ (s.docs parse).map Prod.snd :=
    fun d hd => (List.filter_sublist.map Prod.snd).subset hd
  rw [← Stores.shows_applied_iff hrun hu hin hds hf]
  have hlast : overwritten (lastDocs (p.map Prod.snd)) ((s.replayed R parse writes).map Prod.snd) =
      lastDocs ((s.docs parse).map Prod.snd) := funext fun i => lastDoc_replayed_or hl hp i
  rw [hlast]

/-- **One step** that meets its conditions. -/
theorem filtersKept_step {a : NodeAction} (hl : Logged parse s) (hs : Stored dim parse s)
    (hu : UniformFields ((s.docs parse).map Prod.snd)) (h : FiltersKept R parse s) (hst : Step R dim parse s a t)
    (hb : BlobsReadBack R s a) (hc : RestartCovered R dim parse s a) : FiltersKept R parse t := by
  cases a with
  | append logIdx data =>
    obtain ⟨-, -, -, rfl⟩ := hst
    constructor
    · rw [appliedDocs_append s hl.applied_le]
      exact h.live
    · rw [appliedDocs_append s hl.applied_le]
      exact h.saved
  | commit =>
    obtain ⟨e, stores, he, -, ha, -, rfl⟩ := step_commit_iff.mp hst
    have hmem : (entryDoc parse e).2 ∈ (s.docs parse).map Prod.snd :=
      List.mem_map_of_mem (List.mem_map_of_mem (List.mem_of_getElem? he))
    have hcov : s.db.stores.Covered [(entryDoc parse e).2] := Stores.covered_of_shows hs.holds.document h.live
    have hrun : Run Applied s.db.stores [(entryDoc parse e).2] stores := Run.single ha
    constructor
    · rw [appliedDocs_commit he, List.map_append]
      have hshows := (Stores.shows_applied_iff hrun hu (storedIn_docs hs) (List.forall_mem_singleton.mpr hmem)
        h.live).mpr hcov
      have hlast : overwritten (lastDocs ((s.appliedDocs parse).map Prod.snd)) [(entryDoc parse e).2] =
          lastDocs ((s.appliedDocs parse).map Prod.snd ++ [(entryDoc parse e).2]) :=
        funext fun i => (lastDoc_append i _ _).symm
      rw [hlast] at hshows
      exact hshows
    · rw [appliedDocs_commit he]
      obtain ⟨p, hp, hsaved⟩ := h.saved
      refine ⟨p, hp.append (List.forall_mem_singleton.mpr (hl.maxLogID_lt he)), ?_⟩
      show ∃ filter, FilterIndex.empty.deserializeIntFieldFilter R
        (stores.scalarStorage.get true IndexFactory.filterPath) = .ok ⟨filter, ∅⟩ ∧ _
      rw [ScalarStorage.get, Stores.blobs_applied hrun]
      exact hsaved
  | snapshot =>
    obtain ⟨-, rfl⟩ := hst
    exact ⟨h.live, exists_saved_filter h (show BlobsReadBack R s (.restart 4) from fun _ => hb)⟩
  | restart writes =>
    obtain ⟨-, l, stores, hload, hrun, -, rfl⟩ := (step_restart_iff hl).mp hst
    obtain ⟨p, hp, filter, hfilter, hshows⟩ := exists_saved_filter h hb
    cases hload.symm.trans hfilter
    have hall : (boot ⟨stores, s.reloaded R writes, (s.db.takeSnapshotUpTo R writes).files⟩ ∅ s.wal).appliedDocs parse =
      s.docs parse := appliedDocs_of_all rfl
    constructor
    · rw [hall]
      exact (shows_restart_iff hl hs hu hp hshows hrun).mpr (hc _ hfilter)
    · rw [hall]
      refine ⟨p, covers_docs hl hp, filter, ?_, hshows⟩
      show FilterIndex.empty.deserializeIntFieldFilter R
        (stores.scalarStorage.get true IndexFactory.filterPath) = .ok ⟨filter, ∅⟩
      rw [ScalarStorage.get, Stores.blobs_applied hrun]
      exact hfilter

theorem docs_subset {a : NodeAction} (h : Step R dim parse s a t) :
    ∀ d ∈ (s.docs parse).map Prod.snd, d ∈ (t.docs parse).map Prod.snd :=
  fun _ hd => (((prefix_wal h).map (entryDoc parse)).map Prod.snd).subset hd

theorem filtersKept_run {as : List NodeAction}
    (h : Run (fun s a t => Step R dim parse s a t ∧ BlobsReadBack R s a ∧ RestartCovered R dim parse s a) (first dim) as s)
    (hu : UniformFields ((s.docs parse).map Prod.snd)) : FiltersKept R parse s := by
  refine Run.invariant_and (J := fun s => Logged parse s ∧ Stored dim parse s)
    (I := fun s => UniformFields ((s.docs parse).map Prod.snd) → FiltersKept R parse s)
    (fun hr => ?_) (fun _ => filtersKept_first) ?_ h hu
  · have hr' := hr.mono fun _ _ _ hst => hst.1
    exact ⟨logged_run hr', stored_run hr'⟩
  · intro s a t hJ hI hst ht
    have hs := ht.mono (docs_subset hst.1)
    exact filtersKept_step hJ.1 hJ.2 hs (hI hs) hst.1 hst.2.1 hst.2.2

/-- **A restart preserves the filter index** when it is covered, and only then: after a run whose restarts are covered,
with uniform documents and everything logged applied, a restart answers each filter as before exactly when each value
under which the saved index lists an id with a document above the cutoff is a value of the id's last document or of one
above the cutoff. -/
theorem filter_after_restart_iff {as : List NodeAction} {writes : Nat}
    (h : Run (fun s a t => Step R dim parse s a t ∧ BlobsReadBack R s a ∧ RestartCovered R dim parse s a) (first dim) as s)
    (hu : UniformFields ((s.docs parse).map Prod.snd)) (hall : s.applied = s.wal.length)
    (hst : Step R dim parse s (.restart writes) t) (hb : BlobsReadBack R s (.restart writes)) :
    (∀ f op v, t.db.stores.indexes.filter.getIntFieldFilterBitmap f op v ∅ =
        s.db.stores.indexes.filter.getIntFieldFilterBitmap f op v ∅) ↔
      RestartCovered R dim parse s (.restart writes) := by
  have hrun := h.mono fun _ _ _ hst => hst.1
  have hl := logged_run hrun
  have hkept := filtersKept_run h hu
  have hlive := hkept.live
  rw [appliedDocs_of_all hall] at hlive
  obtain ⟨-, l, stores, hload, happ, -, rfl⟩ := (step_restart_iff hl).mp hst
  obtain ⟨p, hp, filter, hfilter, hshows⟩ := exists_saved_filter hkept hb
  cases hload.symm.trans hfilter
  have hiff := shows_restart_iff hl (stored_run hrun) hu hp hshows happ
  constructor
  · intro heq l hload
    cases hfilter.symm.trans hload
    exact hiff.mp (FilterIndex.shows_of_get_eq heq hlive)
  · intro hc f op v
    exact FilterIndex.get_eq_of_shows (hiff.mpr (hc _ hfilter)) hlive f op v

end

/-! ## One document, and a second one after a snapshot -/

theorem uniformFields_singleton {d : Json} (hsmall : ∀ i, docId d = some i → SmallId i) (hname : WellNamed d) :
    UniformFields [d] :=
  ⟨List.forall_mem_singleton.mpr hsmall, List.forall_mem_singleton.mpr hname,
    List.forall_mem_singleton.mpr (List.forall_mem_singleton.mpr fun _ _ => Iff.rfl)⟩

theorem filter_after_restart_iff_oneUpsert :
    (∀ f op v, oneUpsertRestarted.db.stores.indexes.filter.getIntFieldFilterBitmap f op v ∅ =
        oneUpsert.db.stores.indexes.filter.getIntFieldFilterBitmap f op v ∅) ↔
      RestartCovered portable 1 LogStateMachine.newFieldParser oneUpsert (.restart 0) := by
  have hrun : Run (fun s a t => Step portable 1 LogStateMachine.newFieldParser s a t ∧ BlobsReadBack portable s a ∧
      RestartCovered portable 1 LogStateMachine.newFieldParser s a) (first 1) [.append 11 newFieldData, .commit] oneUpsert := by
    apply Run.and_of_forall _ (run_oneUpsert newFieldParser_body)
    simp [BlobsReadBack, RestartCovered]
  apply filter_after_restart_iff hrun
  · rw [docs_oneUpsert newFieldParser_body]
    apply uniformFields_singleton _ LogStateMachine.wellNamed_newFieldDoc
    intro i hi
    cases hi
    decide
  · rfl
  · exact restart_oneUpsert newFieldParser_body
  · intro h
    omega

/-- Id 1 with `f = 6`. -/
def secondDoc : Json := flatDocument 1 0 [(ascii "f", .int 6)]

def secondBody : Bytes := ascii "\x7b\"id\":1,\"vectors\":[0],\"indexType\":\"FLAT\",\"f\":6\x7d"

def secondData : Bytes := leBytes 4 47 ++ secondBody

def secondParser : Bytes → Option Json :=
  tableParser [(LogStateMachine.newFieldBody, LogStateMachine.newFieldDoc), (secondBody, secondDoc)]

/-- Id 1 with `f = 5`, a restart, and a snapshot. -/
def snapshotTaken : Node Number :=
  { oneUpsertRestarted with sm.vectorDatabase := oneUpsertRestarted.db.takeSnapshot portable }

/-- Then `f = 6`. -/
def secondUpsert : Node Number :=
  snapshotTaken.upserted 12 secondData (snapshotTaken.db.stores.upserted 1 secondDoc [.int 0] .flat)

/-- The saved index. -/
def savedFive : FilterIndex := FilterIndex.empty.set (ascii "f") 5 {1}

theorem textSafe_savedFive : savedFive.TextSafe portable := by
  have hc : Portable.containers {1} = [(0, [1])] := by
    simp [Portable.containers, Portable.highs, Portable.lows, Portable.high, Portable.low, Finset.filter_singleton]
  have hser : portable.serialize {1} = Portable.encode [(0, [1])] := congrArg Portable.encode hc
  intro f v b hb
  rw [savedFive, FilterIndex.bitmap?_set, FilterIndex.bitmap?_empty] at hb
  split at hb
  · rename_i h
    cases hb
    rw [h.1, hser]
    decide
  · cases hb

theorem deserialize_savedFive : FilterIndex.empty.deserializeIntFieldFilter portable
    (savedFive.serializeIntFieldFilter portable) = .ok ⟨savedFive, ∅⟩ :=
  FilterIndex.deserialize_serialize portable textSafe_savedFive

theorem run_secondUpsert : Run (fun s a t => Step portable 1 secondParser s a t ∧ BlobsReadBack portable s a) (first 1)
    [.append 11 newFieldData, .commit, .restart 0, .snapshot, .append 12 secondData, .commit] secondUpsert := by
  have hbody : secondParser LogStateMachine.newFieldBody = some LogStateMachine.newFieldDoc := by rfl
  have hrestarted : Run (fun s a t => Step portable 1 secondParser s a t ∧ BlobsReadBack portable s a) (first 1)
      [.append 11 newFieldData, .commit, .restart 0] oneUpsertRestarted :=
    Run.and_of_forall (by simp [BlobsReadBack]) ((run_oneUpsert hbody).snoc (restart_oneUpsert hbody))
  have hsecond : Run (fun s a t => Step portable 1 secondParser s a t ∧ BlobsReadBack portable s a) snapshotTaken
      [.append 12 secondData, .commit] secondUpsert := by
    apply Run.and_of_forall (by simp [BlobsReadBack])
    refine run_upserted rfl ⟨by decide, by decide, by decide⟩ (by decide) ⟨by decide, by rfl⟩ ?_ (by decide +kernel)
    exact ⟨1, [.int 0], by rfl, ⟨by decide +kernel, by rfl, by decide, by decide +kernel⟩, rfl⟩
  have hsnapshot : Step portable 1 secondParser oneUpsertRestarted .snapshot snapshotTaken := ⟨rfl, rfl⟩
  exact (hrestarted.snoc ⟨hsnapshot, deserialize_savedFive⟩).append hsecond

theorem docs_secondUpsert : secondUpsert.docs secondParser = [(11, LogStateMachine.newFieldDoc), (12, secondDoc)] := by
  rfl

theorem uniformFields_secondUpsert : UniformFields ((secondUpsert.docs secondParser).map Prod.snd) := by
  have hsecond : intFields secondDoc = [(ascii "f", 6)] := by rfl
  have hsame : SameFields LogStateMachine.newFieldDoc secondDoc := by
    intro f
    simp [LogStateMachine.intFields_newFieldDoc, hsecond]
  rw [docs_secondUpsert]
  simp only [List.map_cons, List.map_nil]
  constructor
  · intro d hd i hi
    rw [List.mem_cons, List.mem_singleton] at hd
    rcases hd with rfl | rfl <;> cases hi <;> decide
  · intro d hd
    rw [List.mem_cons, List.mem_singleton] at hd
    rcases hd with rfl | rfl
    · exact LogStateMachine.wellNamed_newFieldDoc
    · intro f v h
      rw [hsecond, List.mem_singleton, Prod.mk.injEq] at h
      obtain ⟨rfl, rfl⟩ := h
      rfl
  · intro d hd e he _
    rw [List.mem_cons, List.mem_singleton] at hd he
    rcases hd with rfl | rfl <;> rcases he with rfl | rfl
    · exact fun f => Iff.rfl
    · exact hsame
    · exact fun f => (hsame f).symm
    · exact fun f => Iff.rfl

/-- The replay of the second document takes the old value from the store, so the saved one stays. -/
theorem filter_changed_by_restart : ¬ ∀ (as : List NodeAction) (s t : Node Number),
    Run (fun s a t => Step portable 1 secondParser s a t ∧ BlobsReadBack portable s a) (first 1) as s →
    UniformFields ((s.docs secondParser).map Prod.snd) → s.applied = s.wal.length →
    Step portable 1 secondParser s (.restart 0) t →
    ∀ f op v, t.db.stores.indexes.filter.getIntFieldFilterBitmap f op v ∅ =
      s.db.stores.indexes.filter.getIntFieldFilterBitmap f op v ∅ := by
  intro h
  let stores : Stores Number := (secondUpsert.loaded portable 1 0 savedFive).upserted 1 secondDoc [.int 0] .flat
  have hload : FilterIndex.empty.deserializeIntFieldFilter portable (secondUpsert.savedFilter portable 0) =
      .ok ⟨savedFive, ∅⟩ :=
    deserialize_savedFive
  have happ : Run Applied (secondUpsert.loaded portable 1 0 savedFive)
      ((secondUpsert.replayed portable secondParser 0).map Prod.snd) stores := by
    have hrep : (secondUpsert.replayed portable secondParser 0).map Prod.snd = [secondDoc] := by rfl
    rw [hrep]
    exact Run.single ⟨1, [.int 0], by rfl, ⟨by decide +kernel, by rfl, by decide, by decide +kernel⟩, rfl⟩
  have hlogged := logged_run (run_secondUpsert.mono fun _ _ _ hst => hst.1)
  have heq := h _ _ _ run_secondUpsert uniformFields_secondUpsert rfl
    ((step_restart_iff hlogged).mpr ⟨fun _ => rfl, _, stores, hload, happ, avoids_empty _ _, rfl⟩) (ascii "f") .equal 5
  have hafter : (1 : UInt32) ∈ stores.indexes.filter.getIntFieldFilterBitmap (ascii "f") .equal 5 ∅ := by decide +kernel
  have hbefore : (1 : UInt32) ∉ secondUpsert.db.stores.indexes.filter.getIntFieldFilterBitmap (ascii "f") .equal 5 ∅ := by
    decide +kernel
  exact hbefore (heq ▸ hafter)

end Node
end VectorDb
