import VectorDb.LogNode

/-!
# Where the replay starts after a snapshot

* `LogNode.AnyStep`, `LogNodeAction.Readable` : a step that may append any payload, and the payloads that a reload reads
  as they were committed;
* `appendedSinceStart` : whether a run appends an app_log entry after its last restart;
* `increaseID_covers_iff` : only then does the WAL hold a record that the next cutoff misses;
* `ReplaysAfter` : as long as no later cutoff is saved, a restart replays exactly what was appended after the snapshot;
* `replaysAfter_iff` : a snapshot achieves this exactly when no such entry was appended since the node started.
-/

namespace VectorDb

variable {F : Type}

/-- The run appends an app_log entry after its last restart. -/
def appendedSinceStart : List LogNodeAction → Bool :=
  List.foldl (fun b a => match a with
    | .append e => b || e.valType = .appLog
    | .restart _ => false
    | _ => b) false

theorem appendedSinceStart_concat (as : List LogNodeAction) (a : LogNodeAction) : appendedSinceStart (as ++ [a]) =
    match a with
    | .append e => appendedSinceStart as || e.valType = .appLog
    | .restart _ => false
    | _ => appendedSinceStart as := by
  rw [appendedSinceStart, List.foldl_append]
  rfl

namespace LogNodeAction

/-- No cutoff is saved: neither by a snapshot nor by one that the crash cuts after its last write. -/
def SavesNoCutoff : LogNodeAction → Prop
  | .snapshot => False
  | .restart writes => writes < 4
  | _ => True

/-- The WAL record of an appended payload is read back as the commit reads the payload. -/
def Readable (parse : Bytes → Option Json) : LogNodeAction → Prop
  | .append e => e.valType = .appLog → ReadsBack parse e.buf
  | _ => True

end LogNodeAction

namespace LogNode

/-- The node after `takeSnapshot`. -/
def snapshotted (R : RoaringFormat) (s : LogNode F) : LogNode F :=
  { s with sm := { s.sm with vectorDatabase := s.db.takeSnapshot R }, saved := s.applied }

section
variable [CFloat F] (R : RoaringFormat) (dim : Nat) (parse : Bytes → Option Json)

/-- One step of a node whose log may hold any payload. -/
def AnyStep (s : LogNode F) : LogNodeAction → LogNode F → Prop
  | .append e, t => ∃ store idx ws, s.store.append e = .ok (store, idx, ws) ∧ idx < 2 ^ 64 ∧
      t = { s with
        sm := { s.sm with vectorDatabase := s.db.writeWALLogs ws }
        store := store
        wal := s.wal ++ records idx e }
  | a, t => Step R dim parse s a t

/-- Whatever the node does after the snapshot without saving a new cutoff, the next reload reads the records appended
after the snapshot and no others. -/
def ReplaysAfter (s : LogNode F) : Prop :=
  ∀ bs t, Run (AnyStep R dim parse) (s.snapshotted R) bs t → (∀ a ∈ bs, a.SavesNoCutoff ∧ a.Readable parse) →
    ∀ writes < 4, ∃ q, Persistence.readWAL parse ((t.db.takeSnapshotUpTo R writes).restart dim).persistence =
      .ok ((t.wal.drop s.wal.length).map fun r => VectorDatabase.upsertEntry (entryDoc parse r), q)

variable {R dim parse} {s t : LogNode F}

theorem step_of_readable {a : LogNodeAction} (h : AnyStep R dim parse s a t) (ha : a.Readable parse) :
    Step R dim parse s a t := by
  cases a with
  | append e =>
    obtain ⟨store, idx, ws, happend, h64, rfl⟩ := h
    exact ⟨store, idx, ws, happend, h64, ha, rfl⟩
  | commit => exact h
  | snapshot => exact h
  | restart writes => exact h

theorem run_of_readable {as : List LogNodeAction} (h : Run (AnyStep R dim parse) s as t)
    (has : ∀ a ∈ as, a.Readable parse) : Run (Step R dim parse) s as t := by
  have hand := Run.and_of_forall (C := fun _ a => a.Readable parse) (fun a ha _ => has a ha) h
  exact hand.mono fun _ _ _ hst => step_of_readable hst.1 hst.2

/-- `increase_id_` is at least every logged id exactly when nothing was logged since the last start. -/
theorem increaseID_covers_iff {as : List LogNodeAction} (h : Run (Step R dim parse) (first dim) as s) :
    (∀ r ∈ s.wal, r.1 ≤ s.db.persistence.increaseID) ↔ appendedSinceStart as = false := by
  induction h with
  | nil => exact iff_of_true (fun r hr => by cases hr) rfl
  | @snoc as a s t hr ha ih =>
    obtain ⟨n, hn⟩ := sim_run hr
    rw [appendedSinceStart_concat]
    cases a with
    | append e =>
      obtain ⟨store, idx, ws, happend, -, -, rfl⟩ := ha
      show (∀ r ∈ s.wal ++ records idx e, r.1 ≤ (s.db.writeWALLogs ws).persistence.increaseID) ↔ _
      rw [VectorDatabase.increaseID_writeWALLogs, List.forall_mem_append, ih, Bool.or_eq_false_iff, decide_eq_false_iff_not]
      apply and_congr_right'
      constructor
      · intro hle happ
        have hlt := (hn.append_lt happend).1
        have hidx : idx ≤ s.db.persistence.increaseID := hle (idx, e.buf) (mem_records.mpr ⟨rfl, happ⟩)
        omega
      · intro happ r hr
        exact absurd (mem_records.mp hr).2 happ
    | commit =>
      obtain ⟨e, sm, -, -, hc, -, rfl⟩ := ha
      obtain ⟨stores, hdb⟩ := commitEntry_frame hc
      show (∀ r ∈ s.wal, r.1 ≤ sm.vectorDatabase.persistence.increaseID) ↔ _
      rw [hdb]
      exact ih
    | snapshot =>
      obtain ⟨-, rfl⟩ := ha
      exact ih
    | restart writes =>
      obtain ⟨hnull, x, hx, rfl⟩ := ha
      refine iff_of_true (fun r hr => ?_) rfl
      show r.1 ≤ x.1.persistence.increaseID
      rw [(hn.reload_eq_ok hnull hx).2.1]
      exact Node.le_maxId hr

/-- A step that saves no cutoff leaves the saved one. -/
theorem maxLogID_step {a : LogNodeAction} {n : Node F} (h : Sim parse s n) (hst : Step R dim parse s a t)
    (ha : a.SavesNoCutoff) : t.db.files.maxLogID = s.db.files.maxLogID := by
  cases a with
  | append e =>
    obtain ⟨store, idx, ws, -, -, -, rfl⟩ := hst
    exact congrArg _ (VectorDatabase.files_writeWALLogs s.db ws)
  | commit =>
    obtain ⟨e, sm, -, -, hc, -, rfl⟩ := hst
    obtain ⟨stores, hdb⟩ := commitEntry_frame hc
    exact congrArg (·.files.maxLogID) hdb
  | snapshot => exact absurd ha id
  | restart writes =>
    obtain ⟨hnull, r, hr, rfl⟩ := hst
    have hlt : writes < 4 := ha
    show r.1.files.maxLogID = _
    rw [(h.reload_eq_ok hnull hr).2.2, VectorDatabase.maxLogID_takeSnapshotUpTo, if_neg (Nat.not_le.mpr hlt)]

theorem maxLogID_run {bs : List LogNodeAction} {n : Node F} (h : Sim parse s n) (hrun : Run (Step R dim parse) s bs t)
    (hbs : ∀ a ∈ bs, a.SavesNoCutoff) : (∃ m, Sim parse t m) ∧ t.db.files.maxLogID = s.db.files.maxLogID := by
  induction hrun with
  | nil => exact ⟨⟨n, h⟩, rfl⟩
  | snoc _ ha ih =>
    rw [List.forall_mem_append, List.forall_mem_singleton] at hbs
    obtain ⟨⟨m, hm⟩, hid⟩ := ih hbs.1
    exact ⟨sim_step hm ha, (maxLogID_step hm ha hbs.2).trans hid⟩

/-- The records above the cutoff are those that were not there when it was saved. -/
theorem above_drop {wal new : List (Nat × Bytes)} {c : Nat} (hold : ∀ r ∈ wal, r.1 ≤ c) (hnew : ∀ r ∈ new, c < r.1) :
    above Prod.fst c (wal ++ new) = new := by
  rw [above, List.filter_append, List.filter_eq_nil_iff.mpr fun r hr => by simpa using hold r hr, List.nil_append,
    List.filter_eq_self.mpr fun r hr => by simpa using hnew r hr]

omit [CFloat F] in
/-- What a process reads that starts while no new cutoff is saved. -/
theorem readWAL_restart (R : RoaringFormat) (dim : Nat) {n : Node F} (h : Sim parse s n) {writes : Nat}
    (hlt : writes < 4) : ∃ q,
    Persistence.readWAL parse ((s.db.takeSnapshotUpTo R writes).restart dim).persistence =
      .ok ((above Prod.fst s.savedCutoff s.wal).map fun r => VectorDatabase.upsertEntry (entryDoc parse r), q) := by
  obtain ⟨-, -, hfile, -⟩ := VectorDatabase.takeSnapshotUpTo_frame R writes s.db
  rw [VectorDatabase.restart, hfile, VectorDatabase.maxLogID_takeSnapshotUpTo, if_neg (Nat.not_le.mpr hlt)]
  exact readWAL_content h

/-- **A snapshot**, in particular of a node that has applied every record, makes the next reloads replay exactly what is
appended after it, if and only if nothing was logged since the last start. -/
theorem replaysAfter_iff {as : List LogNodeAction} (h : Run (AnyStep R dim parse) (first dim) as s)
    (has : ∀ a ∈ as, a.Readable parse) : s.ReplaysAfter R dim parse ↔ appendedSinceStart as = false := by
  have hrun := run_of_readable h has
  rw [← increaseID_covers_iff hrun]
  obtain ⟨n₀, hn₀⟩ := sim_run hrun
  obtain ⟨n, hn⟩ : ∃ n, Sim parse (s.snapshotted R) n := ⟨_, hn₀.of_snapshot R⟩
  constructor
  · intro hrep r hr
    obtain ⟨q, hq⟩ := hrep [] _ Run.nil (fun a ha => by cases ha) 0 (by decide)
    obtain ⟨q', hq'⟩ := readWAL_restart R dim hn (show 0 < 4 by decide)
    have hnil := congrArg Prod.fst (Except.ok.inj (hq'.symm.trans hq))
    rw [show (s.snapshotted R).wal.drop s.wal.length = [] from List.drop_length, List.map_nil, List.map_eq_nil_iff,
      above, List.filter_eq_nil_iff] at hnil
    exact Nat.not_lt.mp fun hlt => hnil r hr (decide_eq_true hlt)
  · intro hcover bs t hbs hab writes hlt
    have hbs' := run_of_readable hbs fun a ha => (hab a ha).2
    obtain ⟨⟨m, hm⟩, hid⟩ := maxLogID_run hn hbs' fun a ha => (hab a ha).1
    obtain ⟨new, hwal, hnew⟩ := wal_run hn hbs'
    obtain ⟨q, hq⟩ := readWAL_restart R dim hm hlt
    have hcut : t.savedCutoff = s.db.persistence.increaseID := congrArg (·.getD 0) hid
    have hwal' : t.wal = s.wal ++ new := hwal
    refine ⟨q, hq.trans ?_⟩
    rw [hcut, hwal', List.drop_left, above_drop hcover hnew]

end

/-! ## A node that has started again, and one that has not -/

/-- The first entry of the log. -/
def newFieldEntry : LogEntry := ⟨1, Node.newFieldData, .appLog⟩

theorem readable_oneUpsert {parse : Bytes → Option Json} :
    ∀ a ∈ [LogNodeAction.append newFieldEntry, .commit], a.Readable parse := by
  have hbody : cstr ((Node.newFieldData.drop 4).takeWhile (· ≠ bar)) = cstr (Node.newFieldData.drop 4) := by decide
  refine List.forall_mem_cons.mpr ⟨fun _ => ⟨by decide, ?_⟩, List.forall_mem_singleton.mpr trivial⟩
  show (parse (cstr ((Node.newFieldData.drop 4).takeWhile (· ≠ bar)))).getD .null = _
  rw [hbody]
  rfl

/-- The first node with id 1. -/
def oneUpsert : LogNode Number :=
  ⟨Node.oneUpsert.sm, ⟨11, (InmemLogStore.mk' 10).logs.insert 11 newFieldEntry⟩, 11, [(11, Node.newFieldData)],
    [(11, Node.newFieldData)], [], ∅⟩

theorem run_oneUpsert : Run (AnyStep portable 1 LogStateMachine.newFieldParser) (first 1)
    [.append newFieldEntry, .commit] oneUpsert := by
  have happend : AnyStep portable 1 LogStateMachine.newFieldParser (first 1 : LogNode Number) (.append newFieldEntry) _ :=
    ⟨_, _, _, InmemLogStore.append_of_le (by decide), by decide, rfl⟩
  refine (Run.single happend).snoc ⟨newFieldEntry, Node.oneUpsert.sm, by decide, ?_, ?_, ?_, rfl⟩
  · show InmemLogStore.entryAt ⟨11, (InmemLogStore.mk' 10).logs.insert 11 newFieldEntry⟩ 11 = _
    rw [InmemLogStore.entryAt, InmemLogStore.getElem?_insert_nat, if_pos rfl, Option.some_or]
  · refine ⟨_, (LogStateMachine.commit_eq_ok _).mpr ⟨by decide, _, ?_, rfl⟩⟩
    show Applied (Stores.fresh 1) (LogStateMachine.jsonRequest _ Node.newFieldData) _
    rw [Node.jsonRequest_newFieldData Node.newFieldParser_body]
    exact ⟨1, [.int 0], rfl, ⟨by decide, by rfl, by decide, by decide⟩, rfl⟩
  · intro _
    show Stores.followsNull ∅ (Stores.fresh 1) (LogStateMachine.jsonRequest _ Node.newFieldData) = false
    rw [Node.jsonRequest_newFieldData Node.newFieldParser_body]
    decide

theorem replaysAfter_iff_restarted : ∃ s : LogNode Number, Run (AnyStep portable 1 LogStateMachine.newFieldParser) (first 1)
      [.append newFieldEntry, .commit, .restart 0] s ∧
    s.wal = [(11, Node.newFieldData)] ∧ s.ReplaysAfter portable 1 LogStateMachine.newFieldParser := by
  obtain ⟨hnull, r, hr, -⟩ := Node.restart_oneUpsert Node.newFieldParser_body
  have hrun := run_oneUpsert.snoc (show AnyStep portable 1 LogStateMachine.newFieldParser oneUpsert (.restart 0) _ from
    ⟨hnull, r, hr, rfl⟩)
  have hread : ∀ a ∈ [LogNodeAction.append newFieldEntry, .commit] ++ [.restart 0],
      a.Readable LogStateMachine.newFieldParser :=
    List.forall_mem_append.mpr ⟨readable_oneUpsert, List.forall_mem_singleton.mpr trivial⟩
  exact ⟨_, hrun, rfl, (replaysAfter_iff hrun hread).mpr rfl⟩

/-- The first snapshot does not cover the first record. -/
theorem first_snapshot_replayed : ¬ ∀ (as : List LogNodeAction) (s : LogNode Number),
    Run (AnyStep portable 1 LogStateMachine.newFieldParser) (first 1) as s → (∀ r ∈ s.wal, r ∈ s.applied) →
    s.ReplaysAfter portable 1 LogStateMachine.newFieldParser := by
  intro h
  obtain ⟨q, hq⟩ := h _ _ run_oneUpsert (fun _ hr => hr) [] _ Run.nil (fun a ha => by cases ha) 0 (by decide)
  have hrun := (run_of_readable run_oneUpsert readable_oneUpsert).snoc
    (show Step portable 1 LogStateMachine.newFieldParser oneUpsert .snapshot (oneUpsert.snapshotted portable) from ⟨rfl, rfl⟩)
  obtain ⟨n, hn⟩ := sim_run hrun
  obtain ⟨q', hq'⟩ := readWAL_restart portable 1 hn (show 0 < 4 by decide)
  have hlen := congrArg List.length (Prod.mk.inj (Except.ok.inj (hq'.symm.trans hq))).1
  rw [List.length_map, List.length_map] at hlen
  exact absurd hlen (by decide +kernel)

end LogNode
end VectorDb
