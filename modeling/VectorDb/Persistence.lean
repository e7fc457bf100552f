import VectorDb.Basic

/-!
# `Persistence`: the write-ahead log

* `writeWALRawLog` : a record is one line `id|version|operation|data`;
* `readNextWALLog` : skips the records up to the snapshot's cutoff; the operation string of the caller signals
  the end of the file;
* `readAll` : the loop of calls that a reload makes, each with a cleared operation string;
* `readAll_records` : on framed records it returns those above the cutoff, in file order, and ends with
  `increaseID` at the largest id.
-/

namespace VectorDb

/-- `wal_log_file_`, opened to read and to append: its bytes, and the lines not read yet. -/
structure WalFile where
  content : Bytes
  unread : List Bytes

structure Persistence where
  increaseID : Nat
  lastSnapshotID : Nat
  walLogFile : WalFile

namespace Persistence

/-- The constructor and `init`: the file is read from its start; `snapshots_MaxLogID` may be absent. -/
def init (content : Bytes) (snapshotsMaxLogID : Option Nat) : Persistence :=
  ⟨10, snapshotsMaxLogID.getD 0, ⟨content, lines content⟩⟩

def getID (p : Persistence) : Nat := p.increaseID

/-- The text of one record, without the `std::endl`. -/
def walLine (logId : Nat) (operationType rawData version : Bytes) : Bytes :=
  decimal logId ++ bar :: (version ++ bar :: (operationType ++ bar :: rawData))

/-- The file is opened in append mode. -/
def writeWALRawLog (p : Persistence) (logId : Nat) (operationType rawData version : Bytes) : Persistence :=
  { p with walLogFile.content :=
      p.walLogFile.content ++ (walLine logId operationType rawData version ++ [newline]) }

/-- The four `std::getline` calls on one line: the id, the operation and the data. -/
def walFields (line operationType : Bytes) : Bytes × Bytes × Bytes :=
  let (logIdStr, iss) := (IStream.of line).getline [] bar
  let (_, iss) := iss.getline [] bar
  let (operationType, iss) := iss.getline operationType bar
  let (jsonDataStr, _) := iss.getline [] bar
  (logIdStr, operationType, jsonDataStr)

/-- What `readNextWALLog` leaves in its arguments, and the id it logs. -/
structure WalRead where
  persistence : Persistence
  operationType : Bytes
  jsonData : Json
  logId : Nat

/-- `increaseID_` after a record of this id. -/
def bump (p : Persistence) (logId : Nat) : Persistence :=
  { p with increaseID := if p.increaseID < logId then logId else p.increaseID }

variable (parse : Bytes → Option Json)

/-- The `while (std::getline(...))` loop over the unread lines. A text that does not parse leaves the document
as it was. -/
def readLines (jsonData : Json) : List Bytes → Persistence → Bytes → Except Fault WalRead
  | [], p, _ => .ok ⟨{ p with walLogFile.unread := [] }, [], jsonData, 0⟩
  | line :: rest, p, operationType =>
    let (logIdStr, operationType, jsonDataStr) := walFields line operationType
    match stoull logIdStr with
    | .error e => .error (.sto e)
    | .ok logId =>
      let p := p.bump logId
      if p.lastSnapshotID < logId then
        .ok ⟨{ p with walLogFile.unread := rest }, operationType, (parse (cstr jsonDataStr)).getD jsonData, logId⟩
      else readLines jsonData rest p operationType

def readNextWALLog (p : Persistence) (operationType : Bytes) (jsonData : Json) : Except Fault WalRead :=
  readLines parse jsonData p.walLogFile.unread p operationType

/-- One record handed to the caller of `readNextWALLog`. -/
structure WalEntry where
  logId : Nat
  operationType : Bytes
  jsonData : Json

/-- The calls of a reload, until one leaves the operation empty; a call that does not has consumed a line. -/
def readAll : Nat → Persistence → Except Fault (List WalEntry × Persistence)
  | 0, p => .ok ([], p)
  | fuel + 1, p =>
    match readNextWALLog parse p [] .null with
    | .error f => .error f
    | .ok r =>
      if r.operationType = [] then .ok ([], r.persistence)
      else
        match readAll fuel r.persistence with
        | .error f => .error f
        | .ok (es, q) => .ok (⟨r.logId, r.operationType, r.jsonData⟩ :: es, q)

theorem unread_lt_of_readLines {doc : Json} {ls : List Bytes} {p : Persistence} {op : Bytes} {r : WalRead}
    (h : readLines parse doc ls p op = .ok r) (hop : r.operationType ≠ []) :
    r.persistence.walLogFile.unread.length < ls.length := by
  induction ls generalizing p op with
  | nil =>
    cases h
    exact absurd rfl hop
  | cons l ls ih =>
    simp only [readLines] at h
    split at h
    · cases h
    · split at h
      · cases h
        simp
      · exact (ih h).trans (Nat.lt_succ_self _)

/-- A reload's reading of the unread lines. -/
def readWAL (p : Persistence) : Except Fault (List WalEntry × Persistence) :=
  readAll parse (p.walLogFile.unread.length + 1) p

/-- The rounds of `readWAL` suffice. -/
theorem readAll_fuel {fuel : Nat} {p : Persistence} (h : p.walLogFile.unread.length < fuel) :
    readAll parse fuel p = readWAL parse p := by
  unfold readWAL
  generalize hn : p.walLogFile.unread.length = n at h ⊢
  induction n using Nat.strongRecOn generalizing p fuel with
  | ind n ih =>
    obtain ⟨k, rfl⟩ : ∃ k, fuel = k + 1 := ⟨fuel - 1, by omega⟩
    simp only [readAll]
    cases hr : readNextWALLog parse p [] .null with
    | error e => rfl
    | ok r =>
      by_cases hop : r.operationType = []
      · simp only [hop, if_true]
      · have hlt : r.persistence.walLogFile.unread.length < n := hn ▸ unread_lt_of_readLines parse hr hop
        simp only [hop, if_false, ih _ hlt rfl (show _ < k by omega), ih _ hlt rfl hlt]

/-! ## Framed records -/

/-- The arguments of one `writeWALRawLog` call. -/
structure WalRecord where
  logId : Nat
  operationType : Bytes
  rawData : Bytes
  version : Bytes

def WalRecord.line (r : WalRecord) : Bytes := walLine r.logId r.operationType r.rawData r.version

/-- The bytes a list of records puts into the file. -/
def fileOf (rs : List WalRecord) : Bytes := rs.flatMap fun r => r.line ++ [newline]

/-- The record keeps to its line, and its operation to its field. -/
structure WalRecord.Framed (r : WalRecord) : Prop where
  logId_lt : r.logId < 2 ^ 64
  bar_version : bar ∉ r.version
  bar_operation : bar ∉ r.operationType
  operation_ne : r.operationType ≠ []
  newline_line : newline ∉ r.version ∧ newline ∉ r.operationType ∧ newline ∉ r.rawData

/-- What is read of a record: its data end at the first `'|'`. -/
def WalRecord.entry (r : WalRecord) : WalEntry :=
  ⟨r.logId, r.operationType, (parse (cstr (r.rawData.takeWhile (· ≠ bar)))).getD .null⟩

theorem WalRecord.Framed.notMem_line {r : WalRecord} (h : r.Framed) : newline ∉ r.line := by
  have hb : newline ≠ bar := by decide
  have hd : newline ∉ decimal r.logId := notMem_decimal (by decide) _
  simp only [line, walLine, List.mem_append, List.mem_cons, not_or]
  exact ⟨hd, hb, h.newline_line.1, hb, h.newline_line.2.1, hb, h.newline_line.2.2⟩

theorem WalRecord.Framed.walFields_line {r : WalRecord} (h : r.Framed) (op : Bytes) :
    walFields r.line op = (decimal r.logId, r.operationType, r.rawData.takeWhile (· ≠ bar)) := by
  have hd : bar ∉ decimal r.logId := notMem_decimal (by decide) _
  simp only [walFields, line, walLine, IStream.getline_append hd, IStream.getline_append h.bar_version,
    IStream.getline_append h.bar_operation]
  rfl

theorem lines_fileOf_append {rs : List WalRecord} (h : ∀ r ∈ rs, r.Framed) (rest : Bytes) :
    lines (fileOf rs ++ rest) = rs.map WalRecord.line ++ lines rest := by
  induction rs with
  | nil => rfl
  | cons r rs ih =>
    rw [fileOf, List.flatMap_cons, List.append_assoc, List.append_assoc, List.singleton_append,
      lines_append_newline (h r List.mem_cons_self).notMem_line, List.map_cons, List.cons_append]
    exact congrArg _ (ih fun x hx => h x (List.mem_cons_of_mem _ hx))

theorem lines_fileOf {rs : List WalRecord} (h : ∀ r ∈ rs, r.Framed) : lines (fileOf rs) = rs.map WalRecord.line := by
  have := lines_fileOf_append h []
  rwa [List.append_nil, lines_nil, List.append_nil] at this

theorem fileOf_cons (r : WalRecord) (rs : List WalRecord) : fileOf (r :: rs) = (r.line ++ [newline]) ++ fileOf rs :=
  List.flatMap_cons

theorem fileOf_append (rs ss : List WalRecord) : fileOf (rs ++ ss) = fileOf rs ++ fileOf ss := List.flatMap_append

/-! ## Reading framed records -/

/-- The state with other unread lines. -/
def withUnread (p : Persistence) (ls : List Bytes) : Persistence := { p with walLogFile.unread := ls }

@[simp] theorem unread_withUnread (p : Persistence) (ls : List Bytes) : (p.withUnread ls).walLogFile.unread = ls := rfl

@[simp] theorem lastSnapshotID_withUnread (p : Persistence) (ls : List Bytes) :
    (p.withUnread ls).lastSnapshotID = p.lastSnapshotID := rfl

@[simp] theorem lastSnapshotID_bump (p : Persistence) (n : Nat) : (p.bump n).lastSnapshotID = p.lastSnapshotID := rfl

@[simp] theorem bump_withUnread (p : Persistence) (ls : List Bytes) (n : Nat) :
    (p.withUnread ls).bump n = (p.bump n).withUnread ls := rfl

theorem withUnread_unread (p : Persistence) : p.withUnread p.walLogFile.unread = p := rfl

theorem readLines_delivered {r : WalRecord} (h : r.Framed) (doc : Json) (ls : List Bytes) {p : Persistence}
    (hid : p.lastSnapshotID < r.logId) (op : Bytes) :
    readLines parse doc (r.line :: ls) p op = .ok ⟨(p.bump r.logId).withUnread ls, r.operationType,
      (parse (cstr (r.rawData.takeWhile (· ≠ bar)))).getD doc, r.logId⟩ := by
  simp only [readLines, h.walFields_line, stoull_decimal h.logId_lt, lastSnapshotID_bump, if_pos hid, withUnread]

theorem readLines_skipped {r : WalRecord} (h : r.Framed) (doc : Json) (ls : List Bytes) {p : Persistence}
    (hid : r.logId ≤ p.lastSnapshotID) (op : Bytes) :
    readLines parse doc (r.line :: ls) p op = readLines parse doc ls (p.bump r.logId) r.operationType := by
  simp only [readLines, h.walFields_line, stoull_decimal h.logId_lt, lastSnapshotID_bump, if_neg (Nat.not_lt.mpr hid)]

/-- The operation string of the caller does not matter: the lines end, or a framed record comes first. -/
def OpFree (ls : List Bytes) : Prop := ls = [] ∨ ∃ r ms, WalRecord.Framed r ∧ ls = r.line :: ms

theorem OpFree.readLines_eq {ls : List Bytes} (h : OpFree ls) (doc : Json) (p : Persistence) (op op' : Bytes) :
    readLines parse doc ls p op = readLines parse doc ls p op' := by
  obtain rfl | ⟨r, ms, hr, rfl⟩ := h
  · rfl
  · rcases Nat.lt_or_ge p.lastSnapshotID r.logId with hid | hid
    · rw [readLines_delivered parse hr doc ms hid, readLines_delivered parse hr doc ms hid]
    · rw [readLines_skipped parse hr doc ms hid, readLines_skipped parse hr doc ms hid]

/-- The reading loop also does not look at the unread lines it is given beside. -/
theorem readLines_withUnread (doc : Json) (ls ms : List Bytes) (p : Persistence) (op : Bytes) :
    readLines parse doc ls (p.withUnread ms) op = readLines parse doc ls p op := by
  induction ls generalizing p op with
  | nil => rfl
  | cons l ls ih =>
    simp only [readLines]
    cases stoull (walFields l op).1 with
    | error e => rfl
    | ok n => simp only [bump_withUnread, lastSnapshotID_withUnread, ih]; rfl

theorem readAll_delivered {r : WalRecord} (h : r.Framed) (fuel : Nat) (ls : List Bytes) {p : Persistence}
    (hid : p.lastSnapshotID < r.logId) :
    readAll parse (fuel + 1) (p.withUnread (r.line :: ls)) =
      (readAll parse fuel ((p.bump r.logId).withUnread ls)).map fun q => (r.entry parse :: q.1, q.2) := by
  have hread : readNextWALLog parse (p.withUnread (r.line :: ls)) [] .null =
      .ok ⟨(p.bump r.logId).withUnread ls, r.operationType,
        (parse (cstr (r.rawData.takeWhile (· ≠ bar)))).getD .null, r.logId⟩ := by
    rw [readNextWALLog, unread_withUnread, readLines_withUnread, readLines_delivered parse h .null ls hid]
  simp only [readAll, hread, h.operation_ne, if_false, WalRecord.entry]
  cases readAll parse fuel ((p.bump r.logId).withUnread ls) <;> rfl

theorem readAll_skipped {r : WalRecord} (h : r.Framed) (fuel : Nat) {ls : List Bytes} (hls : OpFree ls)
    {p : Persistence} (hid : r.logId ≤ p.lastSnapshotID) :
    readAll parse (fuel + 1) (p.withUnread (r.line :: ls)) =
      readAll parse (fuel + 1) ((p.bump r.logId).withUnread ls) := by
  have hread : readNextWALLog parse (p.withUnread (r.line :: ls)) [] .null =
      readNextWALLog parse ((p.bump r.logId).withUnread ls) [] .null := by
    rw [readNextWALLog, readNextWALLog, unread_withUnread, unread_withUnread, readLines_withUnread,
      readLines_withUnread, readLines_skipped parse h .null ls hid, hls.readLines_eq]
  simp only [readAll, hread]

/-- `increaseID` after the ids of some records. -/
def bumpAll (p : Persistence) (rs : List WalRecord) : Persistence := rs.foldl (fun p r => p.bump r.logId) p

@[simp] theorem lastSnapshotID_bumpAll (p : Persistence) (rs : List WalRecord) :
    (p.bumpAll rs).lastSnapshotID = p.lastSnapshotID := by
  induction rs generalizing p with
  | nil => rfl
  | cons r rs ih => exact (ih (p.bump r.logId)).trans rfl

/-- The records of the file above the cutoff. -/
def replayed (p : Persistence) (rs : List WalRecord) : List WalRecord := rs.filter fun r => p.lastSnapshotID < r.logId

theorem replayed_bump (p : Persistence) (n : Nat) (rs : List WalRecord) : (p.bump n).replayed rs = p.replayed rs := rfl

/-- Framed records in front of others are read one by one. -/
theorem readAll_records_append {rs : List WalRecord} (h : ∀ r ∈ rs, r.Framed) {ls : List Bytes} (hls : OpFree ls)
    (k : Nat) (p : Persistence) :
    readAll parse (k + 1 + (p.replayed rs).length) (p.withUnread (rs.map WalRecord.line ++ ls)) =
      (readAll parse (k + 1) ((p.bumpAll rs).withUnread ls)).map fun q =>
        ((p.replayed rs).map (WalRecord.entry parse) ++ q.1, q.2) := by
  induction rs generalizing p with
  | nil =>
    change readAll parse (k + 1) (p.withUnread ls) = (readAll parse (k + 1) (p.withUnread ls)).map _
    cases readAll parse (k + 1) (p.withUnread ls) <;> rfl
  | cons r rs ih =>
    have hr := h r List.mem_cons_self
    have hrs : ∀ x ∈ rs, x.Framed := fun x hx => h x (List.mem_cons_of_mem _ hx)
    have ih' := ih hrs (p.bump r.logId)
    rw [replayed_bump] at ih'
    rcases Nat.lt_or_ge p.lastSnapshotID r.logId with hid | hid
    · have hrep : p.replayed (r :: rs) = r :: p.replayed rs := by simp [replayed, hid]
      rw [hrep, List.length_cons, List.map_cons, List.cons_append, ← Nat.add_assoc, readAll_delivered parse hr _ _ hid,
        ih']
      change _ = (readAll parse (k + 1) (((p.bump r.logId).bumpAll rs).withUnread ls)).map _
      cases readAll parse (k + 1) (((p.bump r.logId).bumpAll rs).withUnread ls) <;> rfl
    · have hrep : p.replayed (r :: rs) = p.replayed rs := by simp [replayed, Nat.not_lt.mpr hid]
      have hop : OpFree (rs.map WalRecord.line ++ ls) := by
        cases rs with
        | nil => exact hls
        | cons x rs => exact Or.inr ⟨x, rs.map WalRecord.line ++ ls, hrs x List.mem_cons_self, rfl⟩
      rw [hrep, List.map_cons, List.cons_append, Nat.add_right_comm, readAll_skipped parse hr _ hop hid,
        Nat.add_right_comm, ih']
      rfl

theorem readAll_end (k : Nat) (p : Persistence) : readAll parse (k + 1) (p.withUnread []) = .ok ([], p.withUnread []) := by
  simp only [readAll, readNextWALLog, unread_withUnread, readLines]
  rfl

/-- **A file of framed records** is read to its end: the records above the cutoff in file order. -/
theorem readAll_records {rs : List WalRecord} (h : ∀ r ∈ rs, r.Framed) {fuel : Nat} (hf : rs.length < fuel)
    (p : Persistence) : readAll parse fuel (p.withUnread (rs.map WalRecord.line)) =
      .ok ((p.replayed rs).map (WalRecord.entry parse), (p.bumpAll rs).withUnread []) := by
  have hlen : (p.replayed rs).length ≤ rs.length := List.length_filter_le _ _
  obtain ⟨k, rfl⟩ : ∃ k, fuel = k + 1 + (p.replayed rs).length := ⟨fuel - (p.replayed rs).length - 1, by omega⟩
  have := readAll_records_append parse h (Or.inl rfl) k p
  rw [List.append_nil] at this
  rw [this, readAll_end]
  simp [Except.map]

theorem replayed_init (content : Bytes) (cutoff : Option Nat) (rs : List WalRecord) :
    (init content cutoff).replayed rs = rs.filter fun r => cutoff.getD 0 < r.logId := rfl

/-- **A reload of a file of framed records.** -/
theorem readWAL_init {rs : List WalRecord} (h : ∀ r ∈ rs, r.Framed) (cutoff : Option Nat) :
    readWAL parse (init (fileOf rs) cutoff) =
      .ok ((rs.filter fun r => cutoff.getD 0 < r.logId).map (WalRecord.entry parse),
        ((init (fileOf rs) cutoff).bumpAll rs).withUnread []) := by
  have hunread : (init (fileOf rs) cutoff).walLogFile.unread = rs.map WalRecord.line := lines_fileOf h
  have hread := readAll_records parse h (Nat.lt_succ_self rs.length) (init (fileOf rs) cutoff)
  rw [← hunread, withUnread_unread] at hread
  rw [readWAL, hunread, List.length_map]
  exact hread

theorem increaseID_bumpAll (p : Persistence) (rs : List WalRecord) :
    (p.bumpAll rs).increaseID = (rs.map WalRecord.logId).foldl max p.increaseID := by
  induction rs generalizing p with
  | nil => rfl
  | cons r rs ih =>
    refine (ih (p.bump r.logId)).trans ?_
    rw [List.map_cons, List.foldl_cons]
    congr 1
    simp only [bump]
    split <;> omega

theorem walLogFile_bumpAll (p : Persistence) (rs : List WalRecord) : (p.bumpAll rs).walLogFile = p.walLogFile := by
  induction rs generalizing p with
  | nil => rfl
  | cons r rs ih => exact (ih (p.bump r.logId)).trans rfl

end Persistence
end VectorDb
