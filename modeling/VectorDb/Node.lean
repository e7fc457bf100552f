import VectorDb.StateMachine

/-!
# One node over its crashes

* `Node`, `Node.Step` : a database with its state machine, and a step of it: an entry is logged, the oldest entry not
  applied yet is committed, a snapshot is taken, or the process crashes and starts again;
* `Logged` : the WAL holds the entries in order, the cutoff stays below what is applied;
* `reload_crashed_iff` : a restart loads the files and applies the documents above the cutoff, none of which comes to a
  null pointer that was loaded.
-/

namespace VectorDb
open Std (ExtTreeMap)

variable {F : Type}

/-- A node, with the entries it has logged since its first start and the number of them that are applied. The filter index
of `sm` has the bitmaps of the process, `nullBitmaps` are the null pointers that it loaded beside them. -/
structure Node (F : Type) where
  sm : LogStateMachine F
  wal : List (Nat × Bytes)
  applied : Nat
  nullBitmaps : Finset (Bytes × Int64)

inductive NodeAction where
  /-- An entry goes into the log store, and with it into the WAL. -/
  | append (logIdx : Nat) (data : Bytes)
  /-- The oldest entry not applied yet is committed. -/
  | commit
  | snapshot
  /-- A crash after this many writes of a snapshot, and the start of a new process. -/
  | restart (writes : Nat)

/-- The WAL record of a payload is read back as the commit reads the payload. -/
def ReadsBack (parse : Bytes → Option Json) (data : Bytes) : Prop :=
  newline ∉ data.drop 4 ∧
    (parse (cstr ((data.drop 4).takeWhile (· ≠ bar)))).getD .null = LogStateMachine.jsonRequest parse data

/-- The document of a logged entry. -/
def entryDoc (parse : Bytes → Option Json) (e : Nat × Bytes) : Nat × Json :=
  (e.1, LogStateMachine.jsonRequest parse e.2)

namespace Node

def db (s : Node F) : VectorDatabase F := s.sm.vectorDatabase

/-- A node on a loaded database. -/
def boot (db : VectorDatabase F) (nullBitmaps : Finset (Bytes × Int64)) (wal : List (Nat × Bytes)) : Node F :=
  ⟨LogStateMachine.setVectorDatabase db, wal, wal.length, nullBitmaps⟩

/-- The first start. -/
def first (dim : Nat) : Node F := boot (VectorDatabase.fresh dim) ∅ []

/-- The logged documents. -/
def docs (parse : Bytes → Option Json) (s : Node F) : List (Nat × Json) := s.wal.map (entryDoc parse)

def appliedDocs (parse : Bytes → Option Json) (s : Node F) : List (Nat × Json) := (s.docs parse).take s.applied

section
variable (R : RoaringFormat) (dim : Nat)

/-- The database of the next process, before its reload. -/
def crashed (s : Node F) (writes : Nat) : VectorDatabase F := (s.db.takeSnapshotUpTo R writes).restart dim

variable [CFloat F] (parse : Bytes → Option Json)

/-- One step. A log store starts above `getStartIndexID()`, so the index of a new entry is above it and above every
index logged before. Commits are in log order, and complete. A process that comes to a null pointer crashes: in a commit,
and when it saves the filter index, the third write of a snapshot. -/
def Step (s : Node F) : NodeAction → Node F → Prop
  | .append logIdx data, t =>
    (s.db.getStartIndexID < logIdx ∧ (∀ e ∈ s.wal, e.1 < logIdx) ∧ logIdx < 2 ^ 64) ∧
      4 ≤ data.length ∧ ReadsBack parse data ∧
      t = { s with
        sm.vectorDatabase := s.db.writeWALLogWithID logIdx (data.drop 4), wal := s.wal ++ [(logIdx, data)] }
  | .commit, t => ∃ e r, s.wal[s.applied]? = some e ∧ s.sm.commit parse .ok e.1 e.2 = .ok r ∧
      s.db.stores.followsNull s.nullBitmaps (LogStateMachine.jsonRequest parse e.2) = false ∧
      t = { s with sm := r.1, applied := s.applied + 1 }
  | .snapshot, t => s.nullBitmaps = ∅ ∧ t = { s with sm.vectorDatabase := s.db.takeSnapshot R }
  | .restart writes, t => (3 ≤ writes → s.nullBitmaps = ∅) ∧
      ∃ r, (s.crashed R dim writes).reloadDatabase R parse = .ok r ∧ t = boot r.1 r.2 s.wal

end

/-! ## What is logged -/

/-- The largest index of a log, or the initial `increaseID_`. -/
def maxId (wal : List (Nat × Bytes)) : Nat := (wal.map Prod.fst).foldl max 10

theorem maxId_concat (wal : List (Nat × Bytes)) (e : Nat × Bytes) : maxId (wal ++ [e]) = max (maxId wal) e.1 := by
  rw [maxId, List.map_append, List.foldl_append]
  rfl

theorem le_maxId {wal : List (Nat × Bytes)} {e : Nat × Bytes} (h : e ∈ wal) : e.1 ≤ maxId wal := by
  induction wal using List.reverseRecOn with
  | nil => cases h
  | append_singleton wal x ih =>
    rw [maxId_concat]
    rcases List.mem_append.mp h with h | h
    · exact (ih h).trans (Nat.le_max_left _ _)
    · rw [List.mem_singleton.mp h]
      exact Nat.le_max_right _ _

/-- The WAL record of a logged entry. -/
def record (e : Nat × Bytes) : Persistence.WalRecord := VectorDatabase.upsertRecord e.1 (e.2.drop 4)

/-- The WAL holds the logged entries in order, and nothing up to the cutoff is still to be applied. -/
structure Logged (parse : Bytes → Option Json) (s : Node F) : Prop where
  content : s.db.persistence.walLogFile.content = Persistence.fileOf (s.wal.map record)
  reads : ∀ e ∈ s.wal, e.1 < 2 ^ 64 ∧ ReadsBack parse e.2
  pos : ∀ e ∈ s.wal, 0 < e.1
  sorted : s.wal.Pairwise fun a b => a.1 < b.1
  applied_le : s.applied ≤ s.wal.length
  maxLogID_le : s.db.files.maxLogID.getD 0 ≤ s.db.persistence.increaseID
  increaseID_le : s.db.persistence.increaseID ≤ maxId s.wal
  increaseID_lt : ∀ e ∈ s.wal.drop s.applied, s.db.persistence.increaseID < e.1

theorem logged_first (parse : Bytes → Option Json) (dim : Nat) : Logged parse (first dim : Node F) where
  content := rfl
  reads _ h := by cases h
  pos _ h := by cases h
  sorted := List.Pairwise.nil
  applied_le := Nat.le_refl _
  maxLogID_le := Nat.zero_le _
  increaseID_le := Nat.le_refl _
  increaseID_lt _ h := by cases h

section
variable {R : RoaringFormat} {dim : Nat} {parse : Bytes → Option Json} {s t : Node F}

theorem Logged.framed (h : Logged parse s) : ∀ r ∈ s.wal.map record, r.Framed := by
  intro r hr
  obtain ⟨e, he, rfl⟩ := List.mem_map.mp hr
  exact VectorDatabase.upsertRecord_framed (h.reads e he).1 (h.reads e he).2.1

/-- The entry to be applied next is above the cutoff. -/
theorem Logged.maxLogID_lt (h : Logged parse s) {e : Nat × Bytes} (he : s.wal[s.applied]? = some e) :
    s.db.files.maxLogID.getD 0 < e.1 := by
  apply Nat.lt_of_le_of_lt h.maxLogID_le
  apply h.increaseID_lt
  exact List.mem_of_getElem? (i := 0) (by rwa [List.getElem?_drop])

theorem Logged.entry_record (h : Logged parse s) {e : Nat × Bytes} (he : e ∈ s.wal) :
    (record e).entry parse = VectorDatabase.upsertEntry (entryDoc parse e) := by
  rw [Persistence.WalRecord.entry, record, VectorDatabase.upsertRecord, VectorDatabase.upsertEntry, entryDoc]
  exact congrArg _ (h.reads e he).2.2

theorem Logged.docs_sorted (h : Logged parse s) : (s.docs parse).Pairwise fun a b => a.1 < b.1 := by
  rw [docs, List.pairwise_map]
  exact h.sorted

/-! ## The restart -/

/-- The cutoff that the next process reads. -/
def cutoff (R : RoaringFormat) (s : Node F) (writes : Nat) : Nat :=
  (s.db.takeSnapshotUpTo R writes).files.maxLogID.getD 0

/-- The documents that the next process replays. -/
def replayed (R : RoaringFormat) (parse : Bytes → Option Json) (s : Node F) (writes : Nat) : List (Nat × Json) :=
  above Prod.fst (s.cutoff R writes) (s.docs parse)

/-- The stores of the next process after `loadSnapshot`, if it reads back `filter`. -/
def loaded (R : RoaringFormat) (dim : Nat) (s : Node F) (writes : Nat) (filter : FilterIndex) : Stores F :=
  let saved := s.db.takeSnapshotUpTo R writes
  ⟨saved.stores.scalarStorage, saved.files.flat.getD ⟨dim, []⟩, saved.files.hnsw.getD ⟨dim, ∅⟩, filter⟩

/-- The text of the saved filter index. -/
def savedFilter (R : RoaringFormat) (s : Node F) (writes : Nat) : Bytes :=
  (s.db.takeSnapshotUpTo R writes).stores.scalarStorage.get true IndexFactory.filterPath

/-- The persistence after the reload. -/
def reloaded (R : RoaringFormat) (s : Node F) (writes : Nat) : Persistence :=
  ((Persistence.init (Persistence.fileOf (s.wal.map record)) (s.db.takeSnapshotUpTo R writes).files.maxLogID).bumpAll
    (s.wal.map record)).withUnread []

theorem loadSnapshot_crashed {writes : Nat} {r : VectorDatabase F × Finset (Bytes × Int64)} :
    (s.crashed R dim writes).loadSnapshot R = .ok r ↔ ∃ l,
      FilterIndex.empty.deserializeIntFieldFilter R (s.savedFilter R writes) = .ok l ∧
        r = ({ s.crashed R dim writes with stores := s.loaded R dim writes l.filter }, l.nullBitmaps) := by
  have hget : (s.crashed R dim writes).stores.scalarStorage.get true IndexFactory.filterPath = s.savedFilter R writes := rfl
  have hempty : (s.crashed R dim writes).stores.indexes.filter = FilterIndex.empty := rfl
  rw [VectorDatabase.loadSnapshot, IndexFactory.loadIndex, hget, hempty]
  cases FilterIndex.empty.deserializeIntFieldFilter R (s.savedFilter R writes) with
  | error e => simp
  | ok l =>
    simp only [Except.ok.injEq, exists_eq_left']
    exact eq_comm

theorem persistence_crashed (h : Logged parse s) (writes : Nat) : (s.crashed R dim writes).persistence =
    Persistence.init (Persistence.fileOf (s.wal.map record)) (s.db.takeSnapshotUpTo R writes).files.maxLogID := by
  obtain ⟨-, -, hfile, -⟩ := VectorDatabase.takeSnapshotUpTo_frame R writes s.db
  rw [crashed, VectorDatabase.restart, hfile, h.content]

/-- The records above the cutoff are read as the documents above it. -/
theorem readWAL_crashed (h : Logged parse s) (writes : Nat) :
    Persistence.readWAL parse (s.crashed R dim writes).persistence =
      .ok ((s.replayed R parse writes).map VectorDatabase.upsertEntry, s.reloaded R writes) := by
  rw [persistence_crashed h, Persistence.readWAL_init parse h.framed, ← cutoff, reloaded, replayed, above, docs,
    List.filter_map, List.filter_map, List.map_map, List.map_map]
  congr 2
  apply List.map_congr_left
  intro e he
  exact h.entry_record (List.mem_of_mem_filter he)

variable [CFloat F]

omit [CFloat F] in
theorem document_loaded (s : Node F) (writes : Nat) (filter : FilterIndex) (i : UInt64) :
    (s.loaded R dim writes filter).document i = s.db.stores.document i := by
  obtain ⟨-, hdocs, -⟩ := VectorDatabase.takeSnapshotUpTo_frame R writes s.db
  exact congrArg (fun m => (m[i]?).getD .null) hdocs

/-- **The reload of a crashed node** completes when the saved filter index is read and the documents above the cutoff
apply to the loaded stores, without coming to a null pointer. -/
theorem reload_crashed_iff (h : Logged parse s) {writes : Nat} {r : VectorDatabase F × Finset (Bytes × Int64)} :
    (s.crashed R dim writes).reloadDatabase R parse = .ok r ↔ ∃ l stores,
      FilterIndex.empty.deserializeIntFieldFilter R (s.savedFilter R writes) = .ok l ∧
        Run Applied (s.loaded R dim writes l.filter) ((s.replayed R parse writes).map Prod.snd) stores ∧
        Avoids (· ∈ l.nullBitmaps) s.db.stores.document ((s.replayed R parse writes).map Prod.snd) ∧
        r = (⟨stores, s.reloaded R writes, (s.db.takeSnapshotUpTo R writes).files⟩, l.nullBitmaps) := by
  have hstored : ∀ filter, (s.loaded R dim writes filter).document = s.db.stores.document :=
    fun filter => funext fun i => document_loaded s writes filter i
  cases hload : (s.crashed R dim writes).loadSnapshot R with
  | error e =>
    rw [VectorDatabase.reloadDatabase, hload]
    constructor
    · intro hc
      cases hc
    · rintro ⟨l, stores, hl, -⟩
      cases hload.symm.trans (loadSnapshot_crashed.mpr ⟨l, hl, rfl⟩)
  | ok r₁ =>
    obtain ⟨l, hl, rfl⟩ := loadSnapshot_crashed.mp hload
    have hread : Persistence.readWAL parse (s.crashed R dim writes).persistence = _ := readWAL_crashed h writes
    rw [VectorDatabase.reloadDatabase_eq R parse hload hread, map_eq_ok]
    simp only [VectorDatabase.replay_eq_ok, hstored]
    constructor
    · rintro ⟨stores, ⟨hrun, hav⟩, rfl⟩
      exact ⟨l, stores, hl, hrun, hav, rfl⟩
    · rintro ⟨l', stores, hl', hrun, hav, rfl⟩
      cases hl.symm.trans hl'
      exact ⟨stores, ⟨hrun, hav⟩, rfl⟩

theorem step_restart_iff (h : Logged parse s) {writes : Nat} : Step R dim parse s (.restart writes) t ↔
    (3 ≤ writes → s.nullBitmaps = ∅) ∧ ∃ l stores,
      FilterIndex.empty.deserializeIntFieldFilter R (s.savedFilter R writes) = .ok l ∧
      Run Applied (s.loaded R dim writes l.filter) ((s.replayed R parse writes).map Prod.snd) stores ∧
      Avoids (· ∈ l.nullBitmaps) s.db.stores.document ((s.replayed R parse writes).map Prod.snd) ∧
      t = boot ⟨stores, s.reloaded R writes, (s.db.takeSnapshotUpTo R writes).files⟩ l.nullBitmaps s.wal := by
  simp only [Step, reload_crashed_iff h]
  constructor
  · rintro ⟨hnull, r, ⟨l, stores, hl, hrun, hav, rfl⟩, rfl⟩
    exact ⟨hnull, l, stores, hl, hrun, hav, rfl⟩
  · rintro ⟨hnull, l, stores, hl, hrun, hav, rfl⟩
    exact ⟨hnull, _, ⟨l, stores, hl, hrun, hav, rfl⟩, rfl⟩

theorem step_commit_iff : Step R dim parse s .commit t ↔ ∃ e stores, s.wal[s.applied]? = some e ∧ 4 ≤ e.2.length ∧
    Applied s.db.stores (LogStateMachine.jsonRequest parse e.2) stores ∧
    s.db.stores.followsNull s.nullBitmaps (LogStateMachine.jsonRequest parse e.2) = false ∧
    t = ⟨⟨e.1, { s.db with stores }⟩, s.wal, s.applied + 1, s.nullBitmaps⟩ := by
  simp only [Step, LogStateMachine.commit_eq_ok]
  constructor
  · rintro ⟨e, r, he, ⟨hlen, stores, ha, rfl⟩, hnull, rfl⟩
    exact ⟨e, stores, he, hlen, ha, hnull, rfl⟩
  · rintro ⟨e, stores, he, hlen, ha, hnull, rfl⟩
    exact ⟨e, _, he, ⟨hlen, stores, ha, rfl⟩, hnull, rfl⟩

/-! ## The log over a run -/

omit [CFloat F] in
theorem increaseID_reloaded (s : Node F) (writes : Nat) : (s.reloaded R writes).increaseID = maxId s.wal := by
  show ((Persistence.init _ _).bumpAll _).increaseID = _
  rw [Persistence.increaseID_bumpAll, List.map_map, maxId]
  rfl

omit [CFloat F] in
theorem content_reloaded (s : Node F) (writes : Nat) :
    (s.reloaded R writes).walLogFile.content = Persistence.fileOf (s.wal.map record) := by
  show ((Persistence.init _ _).bumpAll _).walLogFile.content = _
  rw [Persistence.walLogFile_bumpAll]
  rfl

omit [CFloat F] in
theorem cutoff_le (h : Logged parse s) (writes : Nat) : s.cutoff R writes ≤ s.db.persistence.increaseID := by
  rw [cutoff, VectorDatabase.maxLogID_takeSnapshotUpTo]
  split
  · exact Nat.le_refl _
  · exact h.maxLogID_le

theorem logged_step {a : NodeAction} (h : Logged parse s) (hst : Step R dim parse s a t) : Logged parse t := by
  cases a with
  | append logIdx data =>
    obtain ⟨⟨hid, hlt, h64⟩, -, hreads, rfl⟩ := hst
    have hdrop : (s.wal ++ [(logIdx, data)]).drop s.applied = s.wal.drop s.applied ++ [(logIdx, data)] :=
      List.drop_append_of_le_length h.applied_le
    constructor
    case content =>
      show s.db.persistence.walLogFile.content ++ _ = _
      rw [h.content, List.map_append, Persistence.fileOf_append, List.map_singleton, Persistence.fileOf_cons]
      exact (congrArg _ (List.append_nil _)).symm
    case reads =>
      show ∀ e ∈ s.wal ++ [(logIdx, data)], _
      exact List.forall_mem_append.mpr ⟨h.reads, List.forall_mem_singleton.mpr ⟨h64, hreads⟩⟩
    case pos =>
      show ∀ e ∈ s.wal ++ [(logIdx, data)], _
      exact List.forall_mem_append.mpr ⟨h.pos, List.forall_mem_singleton.mpr (Nat.zero_lt_of_lt hid)⟩
    case sorted =>
      show (s.wal ++ [(logIdx, data)]).Pairwise _
      rw [List.pairwise_append]
      exact ⟨h.sorted, List.pairwise_singleton _ _, fun e he => List.forall_mem_singleton.mpr (hlt e he)⟩
    case applied_le =>
      show s.applied ≤ (s.wal ++ [(logIdx, data)]).length
      rw [List.length_append]
      exact h.applied_le.trans (Nat.le_add_right _ _)
    case maxLogID_le => exact h.maxLogID_le
    case increaseID_le =>
      show s.db.persistence.increaseID ≤ maxId (s.wal ++ [(logIdx, data)])
      rw [maxId_concat]
      exact h.increaseID_le.trans (Nat.le_max_left _ _)
    case increaseID_lt =>
      show ∀ e ∈ (s.wal ++ [(logIdx, data)]).drop s.applied, _
      rw [hdrop]
      exact List.forall_mem_append.mpr ⟨h.increaseID_lt, List.forall_mem_singleton.mpr hid⟩
  | commit =>
    obtain ⟨e, stores, he, -, -, -, rfl⟩ := step_commit_iff.mp hst
    obtain ⟨hlt, -⟩ := List.getElem?_eq_some_iff.mp he
    exact ⟨h.content, h.reads, h.pos, h.sorted, hlt, h.maxLogID_le, h.increaseID_le,
      fun x hx => h.increaseID_lt x (List.drop_subset_drop_left s.wal (Nat.le_succ s.applied) hx)⟩
  | snapshot =>
    obtain ⟨-, rfl⟩ := hst
    exact ⟨h.content, h.reads, h.pos, h.sorted, h.applied_le, Nat.le_refl _, h.increaseID_le, h.increaseID_lt⟩
  | restart writes =>
    obtain ⟨-, l, stores, -, -, -, rfl⟩ := (step_restart_iff h).mp hst
    have hid : (s.reloaded R writes).increaseID = maxId s.wal := increaseID_reloaded s writes
    constructor
    case content => exact content_reloaded s writes
    case reads => exact h.reads
    case pos => exact h.pos
    case sorted => exact h.sorted
    case applied_le => exact Nat.le_refl _
    case maxLogID_le =>
      show (s.db.takeSnapshotUpTo R writes).files.maxLogID.getD 0 ≤ (s.reloaded R writes).increaseID
      rw [hid]
      exact (cutoff_le h writes).trans h.increaseID_le
    case increaseID_le => exact Nat.le_of_eq hid
    case increaseID_lt =>
      show ∀ e ∈ s.wal.drop s.wal.length, _
      rw [List.drop_length]
      exact fun e he => by cases he

theorem logged_run {as : List NodeAction} (h : Run (Step R dim parse) (first dim) as s) : Logged parse s :=
  Run.invariant (I := Logged parse) (logged_first parse dim) (fun _ _ _ => logged_step) h

theorem prefix_wal {a : NodeAction} (h : Step R dim parse s a t) : s.wal <+: t.wal := by
  cases a with
  | append logIdx data =>
    obtain ⟨-, -, -, rfl⟩ := h
    exact List.prefix_append _ _
  | commit =>
    obtain ⟨e, r, -, -, -, rfl⟩ := h
    exact List.prefix_rfl
  | snapshot =>
    obtain ⟨-, rfl⟩ := h
    exact List.prefix_rfl
  | restart writes =>
    obtain ⟨-, r, -, rfl⟩ := h
    exact List.prefix_rfl

/-! ## Upserts -/

omit [CFloat F] in
/-- The node after an entry is logged and committed. -/
def upserted (s : Node F) (logIdx : Nat) (data : Bytes) (stores : Stores F) : Node F :=
  ⟨⟨logIdx, { s.db.writeWALLogWithID logIdx (data.drop 4) with stores }⟩, s.wal ++ [(logIdx, data)], s.applied + 1,
    s.nullBitmaps⟩

/-- An upsert on a node that has applied everything. -/
theorem run_upserted (hall : s.applied = s.wal.length) {logIdx : Nat} {data : Bytes}
    (hid : s.db.getStartIndexID < logIdx ∧ (∀ e ∈ s.wal, e.1 < logIdx) ∧ logIdx < 2 ^ 64) (hlen : 4 ≤ data.length)
    (hreads : ReadsBack parse data) {stores : Stores F}
    (ha : Applied s.db.stores (LogStateMachine.jsonRequest parse data) stores)
    (hnull : s.db.stores.followsNull s.nullBitmaps (LogStateMachine.jsonRequest parse data) = false) :
    Run (Step R dim parse) s [.append logIdx data, .commit] (s.upserted logIdx data stores) := by
  let logged : Node F := ⟨{ s.sm with vectorDatabase := s.db.writeWALLogWithID logIdx (data.drop 4) },
    s.wal ++ [(logIdx, data)], s.applied, s.nullBitmaps⟩
  have happend : Step R dim parse s (.append logIdx data) logged := ⟨hid, hlen, hreads, rfl⟩
  have hentry : logged.wal[logged.applied]? = some (logIdx, data) := by
    show (s.wal ++ [(logIdx, data)])[s.applied]? = _
    rw [hall, List.getElem?_concat_length]
  exact (Run.single happend).snoc (step_commit_iff.mpr ⟨(logIdx, data), stores, hentry, hlen, ha, hnull, rfl⟩)

end

/-! ## One upsert and a restart -/

/-- The payload of id 1 with `f = 5`. -/
def newFieldData : Bytes := leBytes 4 47 ++ LogStateMachine.newFieldBody

/-- The first node with id 1. -/
def oneUpsert : Node Number :=
  (first 1).upserted 11 newFieldData ((Stores.fresh 1).upserted 1 LogStateMachine.newFieldDoc [.int 0] .flat)

theorem jsonRequest_newFieldData {parse : Bytes → Option Json}
    (h : parse LogStateMachine.newFieldBody = some LogStateMachine.newFieldDoc) :
    LogStateMachine.jsonRequest parse newFieldData = LogStateMachine.newFieldDoc := by
  have hbody : cstr (newFieldData.drop 4) = LogStateMachine.newFieldBody := by decide
  rw [LogStateMachine.jsonRequest, hbody, h, Option.getD_some]

theorem run_oneUpsert {R : RoaringFormat} {parse : Bytes → Option Json}
    (h : parse LogStateMachine.newFieldBody = some LogStateMachine.newFieldDoc) :
    Run (Step R 1 parse) (first 1) [.append 11 newFieldData, .commit] oneUpsert := by
  apply run_upserted
  · rfl
  · exact ⟨by decide, by simp [first, boot], by decide⟩
  · decide
  · have hbody : cstr ((newFieldData.drop 4).takeWhile (· ≠ bar)) = cstr (newFieldData.drop 4) := by decide
    exact ⟨by decide, by rw [hbody, LogStateMachine.jsonRequest]⟩
  · rw [jsonRequest_newFieldData h]
    exact ⟨1, [.int 0], rfl, ⟨by decide, by rfl, by decide, by decide⟩, rfl⟩
  · rw [jsonRequest_newFieldData h]
    decide

/-- The node after a crash and the replay of id 1. -/
def oneUpsertRestarted : Node Number :=
  boot ⟨(oneUpsert.loaded portable 1 0 FilterIndex.empty).upserted 1 LogStateMachine.newFieldDoc [.int 0] .flat,
    oneUpsert.reloaded portable 0, (oneUpsert.db.takeSnapshotUpTo portable 0).files⟩ ∅ oneUpsert.wal

theorem docs_oneUpsert {parse : Bytes → Option Json}
    (h : parse LogStateMachine.newFieldBody = some LogStateMachine.newFieldDoc) :
    oneUpsert.docs parse = [(11, LogStateMachine.newFieldDoc)] := by
  show [entryDoc parse (11, newFieldData)] = _
  rw [entryDoc, jsonRequest_newFieldData h]

theorem restart_oneUpsert {parse : Bytes → Option Json}
    (h : parse LogStateMachine.newFieldBody = some LogStateMachine.newFieldDoc) :
    Step portable 1 parse oneUpsert (.restart 0) oneUpsertRestarted := by
  have hrep : (oneUpsert.replayed portable parse 0).map Prod.snd = [LogStateMachine.newFieldDoc] := by
    rw [replayed, docs_oneUpsert h]
    rfl
  refine (step_restart_iff (logged_run (run_oneUpsert (R := portable) h))).mpr
    ⟨fun _ => rfl, ⟨FilterIndex.empty, ∅⟩, _, rfl, ?_, avoids_empty _ _, rfl⟩
  rw [hrep]
  exact Run.single ⟨1, [.int 0], rfl, ⟨by decide +kernel, by rfl, by decide, by decide +kernel⟩, rfl⟩

theorem newFieldParser_body :
    LogStateMachine.newFieldParser LogStateMachine.newFieldBody = some LogStateMachine.newFieldDoc := by rfl

end Node

end VectorDb
