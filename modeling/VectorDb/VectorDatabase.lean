import VectorDb.Upsert
import VectorDb.Persistence
import VectorDb.LogStore

/-!
# `VectorDatabase`: the WAL, snapshots and the reload

* `upsertRequest` : the id and the index type read out of a document, then `upsert`; both a commit and a replay
  do this;
* `takeSnapshot`, `takeSnapshotUpTo` : the four writes of a snapshot in their order, and a cut of them;
* `reloadDatabase` : `loadSnapshot`, then one record after the other, as long as none comes to a null pointer that was
  loaded;
* `restart` : what a new process finds after a crash;
* `reloadDatabase_eq` : with a WAL that is read to its end, the reload replays its entries over the loaded
  snapshot.
-/

namespace VectorDb
open Std (ExtTreeMap)

variable {F : Type}

structure VectorDatabase (F : Type) where
  stores : Stores F
  persistence : Persistence
  files : SnapshotFiles F

/-- The first start of a node, with no files. -/
def VectorDatabase.fresh (dim : Nat) : VectorDatabase F := ⟨Stores.fresh dim, Persistence.init [] none, ⟨none, none, none⟩⟩

/-- `json_data["id"].GetUint64()`, `getIndexTypeFromRequest` and `upsert`. -/
def Stores.upsertRequest [CFloat F] (st : LibStatus) (s : Stores F) (jsonData : Json) :
    Except (Fault × Stores F) (Stores F) :=
  match (jsonData.member? requestId).bind Json.uint64? with
  | none => .error (.assertion, s)
  | some id => s.upsert st id jsonData (getIndexTypeFromRequest jsonData)

/-- An upsert of `jsonData` comes to a null pointer, which `roaring_bitmap_remove` and `roaring_bitmap_add` follow. One
that does not leaves the null pointers as they are, and the rest of the filter index as if they were not there. -/
def Stores.followsNull (nullBitmaps : Finset (Bytes × Int64)) (s : Stores F) (jsonData : Json) : Bool :=
  ((jsonData.member? requestId).bind Json.uint64?).any fun id =>
    (followed (s.document id) jsonData).any fun p => p ∈ nullBitmaps

namespace VectorDatabase

def operationUpsert : Bytes := ascii "upsert"

def walVersion : Bytes := ascii "1.0"

def writeWALLogWithID (db : VectorDatabase F) (logId : Nat) (data : Bytes) : VectorDatabase F :=
  { db with persistence := db.persistence.writeWALRawLog logId operationUpsert data walVersion }

/-- The writes that a log store asks for. -/
def writeWALLogs (db : VectorDatabase F) (ws : List WalWrite) : VectorDatabase F :=
  ws.foldl (fun db w => db.writeWALLogWithID w.1 w.2) db

def getStartIndexID (db : VectorDatabase F) : Nat := db.persistence.getID

/-! ## The records of the WAL -/

/-- The WAL record of a logged upsert. -/
def upsertRecord (idx : Nat) (data : Bytes) : Persistence.WalRecord :=
  ⟨idx, operationUpsert, data, walVersion⟩

theorem operationUpsert_ne : operationUpsert ≠ [] := by decide

theorem notMem_operationUpsert : bar ∉ operationUpsert ∧ newline ∉ operationUpsert := by
  decide

theorem notMem_walVersion : bar ∉ walVersion ∧ newline ∉ walVersion := by decide

theorem upsertRecord_framed {idx : Nat} (h : idx < 2 ^ 64) {data : Bytes} (hd : newline ∉ data) :
    (upsertRecord idx data).Framed where
  logId_lt := h
  bar_version := notMem_walVersion.1
  bar_operation := notMem_operationUpsert.1
  operation_ne := operationUpsert_ne
  newline_line := ⟨notMem_walVersion.2, notMem_operationUpsert.2, hd⟩

/-- The writes of a log store, as records. -/
theorem content_writeWALLogs (db : VectorDatabase F) (ws : List WalWrite) :
    (db.writeWALLogs ws).persistence.walLogFile.content =
      db.persistence.walLogFile.content ++ Persistence.fileOf (ws.map fun w => upsertRecord w.1 w.2) := by
  induction ws generalizing db with
  | nil => simp [writeWALLogs, Persistence.fileOf]
  | cons w ws ih =>
    have hw : (db.writeWALLogWithID w.1 w.2).persistence.walLogFile.content =
        db.persistence.walLogFile.content ++ ((upsertRecord w.1 w.2).line ++ [newline]) := rfl
    rw [writeWALLogs, List.foldl_cons, ← writeWALLogs, ih, hw, List.map_cons, Persistence.fileOf_cons, List.append_assoc]

theorem files_writeWALLogs (db : VectorDatabase F) (ws : List WalWrite) : (db.writeWALLogs ws).files = db.files := by
  induction ws generalizing db with
  | nil => rfl
  | cons w ws ih => exact ih (db.writeWALLogWithID w.1 w.2)

theorem stores_writeWALLogs (db : VectorDatabase F) (ws : List WalWrite) : (db.writeWALLogs ws).stores = db.stores := by
  induction ws generalizing db with
  | nil => rfl
  | cons w ws ih => exact ih (db.writeWALLogWithID w.1 w.2)

theorem increaseID_writeWALLogs (db : VectorDatabase F) (ws : List WalWrite) :
    (db.writeWALLogs ws).persistence.increaseID = db.persistence.increaseID := by
  induction ws generalizing db with
  | nil => rfl
  | cons w ws ih => exact ih (db.writeWALLogWithID w.1 w.2)

/-! ## Snapshots -/

/-- The writes of `takeSnapshot`, in the order of `index_map` and then the cutoff. -/
inductive SnapshotWrite where
  | flat
  | hnsw
  | filter
  | maxLogID

def SnapshotWrite.all : List SnapshotWrite := [.flat, .hnsw, .filter, .maxLogID]

section
variable (R : RoaringFormat)

def writeSnapshot (db : VectorDatabase F) : SnapshotWrite → VectorDatabase F
  | .flat => { db with files.flat := some db.stores.indexes.flat }
  | .hnsw => { db with files.hnsw := some db.stores.indexes.hnsw }
  | .filter =>
    { db with stores.scalarStorage :=
        db.stores.scalarStorage.put true IndexFactory.filterPath (db.stores.indexes.filter.serializeIntFieldFilter R) }
  | .maxLogID => { db with files.maxLogID := some db.persistence.lastSnapshotID }

/-- `takeSnapshot` up to its `n`-th write. -/
def takeSnapshotUpTo (n : Nat) (db : VectorDatabase F) : VectorDatabase F :=
  (SnapshotWrite.all.take n).foldl (writeSnapshot R)
    { db with persistence.lastSnapshotID := db.persistence.increaseID }

def takeSnapshot (db : VectorDatabase F) : VectorDatabase F := db.takeSnapshotUpTo R SnapshotWrite.all.length

/-- After its four writes a snapshot is complete. -/
theorem takeSnapshotUpTo_of_le {n : Nat} (h : 4 ≤ n) (db : VectorDatabase F) :
    db.takeSnapshotUpTo R n = db.takeSnapshot R := by
  have hall : SnapshotWrite.all.length = 4 := rfl
  rw [takeSnapshot, hall, takeSnapshotUpTo, takeSnapshotUpTo, List.take_of_length_le (hall ▸ h),
    List.take_of_length_le (Nat.le_of_eq hall)]

/-- What a snapshot and a cut of it leave alone. -/
theorem takeSnapshotUpTo_frame (n : Nat) (db : VectorDatabase F) :
    (db.takeSnapshotUpTo R n).stores.indexes = db.stores.indexes ∧
      (db.takeSnapshotUpTo R n).stores.scalarStorage.docs = db.stores.scalarStorage.docs ∧
      (db.takeSnapshotUpTo R n).persistence.walLogFile = db.persistence.walLogFile ∧
      (db.takeSnapshotUpTo R n).persistence.increaseID = db.persistence.increaseID := by
  match n with
  | 0 | 1 | 2 | 3 => exact ⟨rfl, rfl, rfl, rfl⟩
  | n + 4 =>
    rw [takeSnapshotUpTo_of_le R (Nat.le_add_left 4 n)]
    exact ⟨rfl, rfl, rfl, rfl⟩

theorem flat_takeSnapshotUpTo (n : Nat) (db : VectorDatabase F) :
    (db.takeSnapshotUpTo R n).files.flat = if 1 ≤ n then some db.stores.indexes.flat else db.files.flat := by
  match n with
  | 0 | 1 | 2 | 3 => rfl
  | n + 4 =>
    rw [takeSnapshotUpTo_of_le R (Nat.le_add_left 4 n), if_pos (by omega)]
    rfl

theorem hnsw_takeSnapshotUpTo (n : Nat) (db : VectorDatabase F) :
    (db.takeSnapshotUpTo R n).files.hnsw = if 2 ≤ n then some db.stores.indexes.hnsw else db.files.hnsw := by
  match n with
  | 0 | 1 | 2 | 3 => rfl
  | n + 4 =>
    rw [takeSnapshotUpTo_of_le R (Nat.le_add_left 4 n), if_pos (by omega)]
    rfl

theorem filter_takeSnapshotUpTo (n : Nat) (db : VectorDatabase F) :
    (db.takeSnapshotUpTo R n).stores.scalarStorage.get true IndexFactory.filterPath =
      if 3 ≤ n then db.stores.indexes.filter.serializeIntFieldFilter R
      else db.stores.scalarStorage.get true IndexFactory.filterPath := by
  match n with
  | 0 | 1 | 2 => rfl
  | 3 =>
    show ((db.stores.scalarStorage.blobs.insert _ _)[IndexFactory.filterPath]?).getD [] = _
    rw [ExtTreeMap.getElem?_insert_self]
    rfl
  | n + 4 =>
    rw [takeSnapshotUpTo_of_le R (Nat.le_add_left 4 n), if_pos (by omega)]
    show ((db.stores.scalarStorage.blobs.insert _ _)[IndexFactory.filterPath]?).getD [] = _
    rw [ExtTreeMap.getElem?_insert_self]
    rfl

theorem maxLogID_takeSnapshotUpTo (n : Nat) (db : VectorDatabase F) :
    (db.takeSnapshotUpTo R n).files.maxLogID = if 4 ≤ n then some db.persistence.increaseID else db.files.maxLogID := by
  match n with
  | 0 | 1 | 2 | 3 => rfl
  | n + 4 =>
    rw [takeSnapshotUpTo_of_le R (Nat.le_add_left 4 n), if_pos (by omega)]
    rfl

/-- The loaded database, and the null pointers of its filter index. -/
def loadSnapshot (db : VectorDatabase F) : Except Fault (VectorDatabase F × Finset (Bytes × Int64)) :=
  match db.stores.indexes.loadIndex R true db.files db.stores.scalarStorage with
  | .error e => .error e
  | .ok (indexes, nullBitmaps) => .ok ({ db with stores.indexes := indexes }, nullBitmaps)

/-- Without files and a saved `FilterIndex` there is nothing to load. -/
theorem loadSnapshot_of_no_files {db : VectorDatabase F} (hfiles : db.files = ⟨none, none, none⟩)
    (hblob : db.stores.scalarStorage.get true IndexFactory.filterPath = []) : db.loadSnapshot R = .ok (db, ∅) := by
  obtain ⟨stores, persistence, files⟩ := db
  obtain rfl : files = ⟨none, none, none⟩ := hfiles
  rw [loadSnapshot, IndexFactory.loadIndex, hblob]
  rfl

/-- A new process after a crash: `main` up to the constructor of `VectorDatabase`. -/
def restart (dim : Nat) (db : VectorDatabase F) : VectorDatabase F where
  stores := ⟨db.stores.scalarStorage, IndexFactory.init dim⟩
  persistence := Persistence.init db.persistence.walLogFile.content db.files.maxLogID
  files := db.files

end

/-! ## The reload -/

section
variable [CFloat F] (R : RoaringFormat) (parse : Bytes → Option Json) (nullBitmaps : Finset (Bytes × Int64))

/-- The effect of one record on the stores; only upserts have one. -/
def replayEntry (s : Stores F) (operationType : Bytes) (jsonData : Json) : Except Fault (Stores F) :=
  if operationType = operationUpsert then
    match s.upsertRequest .ok jsonData with
    | .error (e, _) => .error e
    | .ok t => if s.followsNull nullBitmaps jsonData then .error .nullPointer else .ok t
  else .ok s

/-- The `while` loop. The operation string and the document are cleared before each call. -/
def reloadLoop : Nat → VectorDatabase F → Except Fault (VectorDatabase F)
  | 0, db => .ok db
  | fuel + 1, db =>
    match Persistence.readNextWALLog parse db.persistence [] .null with
    | .error e => .error e
    | .ok r =>
      if r.operationType = [] then .ok { db with persistence := r.persistence }
      else
        match replayEntry nullBitmaps db.stores r.operationType r.jsonData with
        | .error e => .error e
        | .ok stores => reloadLoop fuel { db with stores, persistence := r.persistence }

/-- Each round but the last reads a line. -/
def reloadDatabase (db : VectorDatabase F) : Except Fault (VectorDatabase F × Finset (Bytes × Int64)) :=
  match db.loadSnapshot R with
  | .error e => .error e
  | .ok (db, nullBitmaps) =>
    (reloadLoop parse nullBitmaps (db.persistence.walLogFile.unread.length + 1) db).map fun db => (db, nullBitmaps)

/-- **The rounds of the loop suffice**: more of them change nothing. -/
theorem reloadLoop_fuel {fuel : Nat} {db : VectorDatabase F} (h : db.persistence.walLogFile.unread.length < fuel) :
    reloadLoop parse nullBitmaps fuel db =
      reloadLoop parse nullBitmaps (db.persistence.walLogFile.unread.length + 1) db := by
  generalize hn : db.persistence.walLogFile.unread.length = n at h ⊢
  induction n using Nat.strongRecOn generalizing db fuel with
  | ind n ih =>
    obtain ⟨k, rfl⟩ : ∃ k, fuel = k + 1 := ⟨fuel - 1, by omega⟩
    simp only [reloadLoop]
    cases hr : Persistence.readNextWALLog parse db.persistence [] .null with
    | error e => rfl
    | ok r =>
      by_cases hop : r.operationType = []
      · simp only [hop, if_true]
      · have hlt := Persistence.unread_lt_of_readLines parse hr hop
        simp only [hop, if_false]
        cases replayEntry nullBitmaps db.stores r.operationType r.jsonData with
        | error e => rfl
        | ok s =>
          let db' : VectorDatabase F := { db with stores := s, persistence := r.persistence }
          have hlen : db'.persistence.walLogFile.unread.length < n := by
            rw [← hn]
            exact hlt
          have hk : reloadLoop parse nullBitmaps k db' = _ := ih _ hlen rfl (by omega)
          have hn' : reloadLoop parse nullBitmaps n db' = _ := ih _ hlen rfl (by omega)
          exact hk.trans hn'.symm

/-! ## Replaying entries -/

/-- The entries of a WAL, one after the other. -/
def replay (s : Stores F) (es : List Persistence.WalEntry) : Except Fault (Stores F) :=
  es.foldlM (fun s e => replayEntry nullBitmaps s e.operationType e.jsonData) s

theorem reloadLoop_of_readAll {fuel : Nat} {db : VectorDatabase F} {es : List Persistence.WalEntry} {q : Persistence}
    (h : Persistence.readAll parse fuel db.persistence = .ok (es, q)) (hf : db.persistence.walLogFile.unread.length < fuel) :
    reloadLoop parse nullBitmaps (db.persistence.walLogFile.unread.length + 1) db =
      (replay nullBitmaps db.stores es).map fun s => { db with stores := s, persistence := q } := by
  induction fuel generalizing db es with
  | zero => omega
  | succ fuel ih =>
    simp only [Persistence.readAll] at h
    simp only [reloadLoop]
    cases hr : Persistence.readNextWALLog parse db.persistence [] .null with
    | error e => simp [hr] at h
    | ok r =>
      simp only [hr] at h
      by_cases hop : r.operationType = []
      · simp only [hop, if_true, Except.ok.injEq, Prod.mk.injEq] at h ⊢
        obtain ⟨rfl, rfl⟩ := h
        rfl
      · simp only [hop, if_false] at h ⊢
        have hlt := Persistence.unread_lt_of_readLines parse hr hop
        split at h
        · cases h
        · rename_i es' q' hall
          cases h
          rw [replay, List.foldlM_cons]
          cases replayEntry nullBitmaps db.stores r.operationType r.jsonData with
          | error e => rfl
          | ok s =>
            let db' : VectorDatabase F := { db with stores := s, persistence := r.persistence }
            have hrounds : reloadLoop parse nullBitmaps db.persistence.walLogFile.unread.length db' = _ :=
              reloadLoop_fuel parse nullBitmaps hlt
            have hrest : reloadLoop parse nullBitmaps (db'.persistence.walLogFile.unread.length + 1) db' = _ :=
              ih hall (Nat.lt_of_lt_of_le hlt (Nat.lt_succ_iff.mp hf))
            exact hrounds.trans hrest

/-- **A reload** is the loaded snapshot with the entries of the WAL replayed over it. -/
theorem reloadDatabase_eq {db db' : VectorDatabase F} {nullBitmaps : Finset (Bytes × Int64)}
    (hload : db.loadSnapshot R = .ok (db', nullBitmaps)) {es : List Persistence.WalEntry} {q : Persistence}
    (hread : Persistence.readWAL parse db'.persistence = .ok (es, q)) :
    db.reloadDatabase R parse = (replay nullBitmaps db'.stores es).map fun s =>
      ({ db' with stores := s, persistence := q }, nullBitmaps) := by
  have hloop := reloadLoop_of_readAll parse nullBitmaps hread (Nat.lt_succ_self _)
  rw [reloadDatabase, hload]
  simp only [hloop]
  cases replay nullBitmaps db'.stores es <;> rfl

end

end VectorDatabase
end VectorDb
