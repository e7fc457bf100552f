import VectorDb.Node

/-!
# A node with its log store

* `LogNode`, `LogNode.Step` : a database, its state machine and its `inmem_log_store`; entries of every kind are
  appended, committed in index order, and after a crash the log starts anew from `getStartIndexID()`;
* `LogNode.Sim` : the node of `VectorDb.Node` beside it, which only sees the app_log entries;
* `cutoff_sound` : ids grow along the WAL, a record that the saved cutoff skips was applied when it was saved,
  records logged later are above it, and a reload reads every record whose effect was not saved.
-/

namespace VectorDb
open Std (ExtTreeMap)

variable {F : Type}

/-- A node, with three lists of logged records: those in the WAL, those applied to its indexes, and those that were
applied when the cutoff file was written. The null pointers are as in `Node`. -/
structure LogNode (F : Type) where
  sm : LogStateMachine F
  store : InmemLogStore
  /-- The last index that Raft has committed. -/
  commitIdx : Nat
  wal : List (Nat × Bytes)
  applied : List (Nat × Bytes)
  saved : List (Nat × Bytes)
  nullBitmaps : Finset (Bytes × Int64)

inductive LogNodeAction where
  | append (entry : LogEntry)
  | commit
  | snapshot
  /-- A crash after this many writes of a snapshot, and the start of a new process. -/
  | restart (writes : Nat)

namespace LogNode

def db (s : LogNode F) : VectorDatabase F := s.sm.vectorDatabase

/-- The cutoff in `snapshots_MaxLogID`. -/
def savedCutoff (s : LogNode F) : Nat := s.db.files.maxLogID.getD 0

/-- A state machine and a log store on a loaded database. -/
def boot (db : VectorDatabase F) (nullBitmaps : Finset (Bytes × Int64)) (wal applied saved : List (Nat × Bytes)) :
    LogNode F :=
  let sm := LogStateMachine.setVectorDatabase db
  ⟨sm, InmemLogStore.mk' db.getStartIndexID, sm.lastCommittedIdx, wal, applied, saved, nullBitmaps⟩

def first (dim : Nat) : LogNode F := boot (VectorDatabase.fresh dim) ∅ [] [] []

/-- The records of the WAL that an entry adds. -/
def records (idx : Nat) (e : LogEntry) : List (Nat × Bytes) := if e.valType = .appLog then [(idx, e.buf)] else []

theorem mem_records {idx : Nat} {e : LogEntry} {r : Nat × Bytes} :
    r ∈ records idx e ↔ r = (idx, e.buf) ∧ e.valType = .appLog := by
  unfold records
  split
  · rename_i ha
    rw [List.mem_singleton, and_iff_left ha]
  · rename_i ha
    exact iff_of_false List.not_mem_nil fun h => ha h.2

/-- A property of the records so far, and of the one that an entry adds. -/
theorem forall_mem_append_records {P : Nat × Bytes → Prop} {l : List (Nat × Bytes)} {idx : Nat} {e : LogEntry}
    (hl : ∀ r ∈ l, P r) (he : e.valType = .appLog → P (idx, e.buf)) : ∀ r ∈ l ++ records idx e, P r := by
  intro r hr
  rcases List.mem_append.mp hr with hr | hr
  · exact hl r hr
  · obtain ⟨rfl, ha⟩ := mem_records.mp hr
    exact he ha

section
variable [CFloat F] (R : RoaringFormat) (dim : Nat) (parse : Bytes → Option Json)

/-- What a commit of one entry does to the state machine. Of the other kinds only a configuration reaches it. -/
def CommitEntry (sm : LogStateMachine F) (idx : Nat) (e : LogEntry) (sm' : LogStateMachine F) : Prop :=
  match e.valType with
  | .appLog => ∃ out, sm.commit parse .ok idx e.buf = .ok (sm', out)
  | .conf => sm' = sm.commitConfig idx
  | _ => sm' = sm

/-- One step. The records of the new process are those of the loaded files and those it replays. No step comes to a null
pointer. -/
def Step (s : LogNode F) : LogNodeAction → LogNode F → Prop
  | .append e, t => ∃ store idx ws, s.store.append e = .ok (store, idx, ws) ∧ idx < 2 ^ 64 ∧
      (e.valType = .appLog → ReadsBack parse e.buf) ∧
      t = { s with
        sm := { s.sm with vectorDatabase := s.db.writeWALLogs ws }
        store := store
        wal := s.wal ++ records idx e }
  | .commit, t => ∃ e sm, s.commitIdx + 1 < s.store.nextSlot ∧ s.store.entryAt (s.commitIdx + 1) = some e ∧
      CommitEntry parse s.sm (s.commitIdx + 1) e sm ∧
      (e.valType = .appLog → s.db.stores.followsNull s.nullBitmaps (LogStateMachine.jsonRequest parse e.buf) = false) ∧
      t = { s with
        sm := sm
        commitIdx := s.commitIdx + 1
        applied := s.applied ++ records (s.commitIdx + 1) e }
  | .snapshot, t => s.nullBitmaps = ∅ ∧
      t = { s with sm := { s.sm with vectorDatabase := s.db.takeSnapshot R }, saved := s.applied }
  | .restart writes, t => (3 ≤ writes → s.nullBitmaps = ∅) ∧
      ∃ r, ((s.db.takeSnapshotUpTo R writes).restart dim).reloadDatabase R parse = .ok r ∧
      let saved := if 4 ≤ writes then s.applied else s.saved
      t = boot r.1 r.2 s.wal (saved ++ above Prod.fst ((s.db.takeSnapshotUpTo R writes).files.maxLogID.getD 0) s.wal) saved

end

/-! ## The node beside it -/

/-- The node that sees only the app_log entries, and the place of the records in the log store. -/
structure Sim (parse : Bytes → Option Json) (s : LogNode F) (n : Node F) : Prop where
  logged : Node.Logged parse n
  db : n.db = s.db
  nullBitmaps : n.nullBitmaps = s.nullBitmaps
  wal : n.wal = s.wal
  applied : ∀ e ∈ n.wal.take n.applied, e ∈ s.applied
  contiguous : s.store.Contiguous
  start : s.store.startIdx = s.db.persistence.increaseID + 1
  commit_le : s.store.startIdx ≤ s.commitIdx + 1 ∧ s.commitIdx + 1 ≤ s.store.nextSlot
  entry : ∀ i e, i ≠ 0 → s.store.logs[i]? = some e → e.valType = .appLog → (i, e.buf) ∈ s.wal
  record : ∀ r ∈ s.wal, s.store.startIdx ≤ r.1 → ∃ e, s.store.logs[r.1]? = some e ∧ e.valType = .appLog
  wal_lt : ∀ r ∈ s.wal, r.1 < s.store.nextSlot
  taken : ∀ r ∈ n.wal.take n.applied, r.1 ≤ s.commitIdx
  left : ∀ r ∈ n.wal.drop n.applied, s.commitIdx < r.1
  saved : ∀ r ∈ s.wal, r.1 ≤ s.savedCutoff → r ∈ s.saved

theorem sim_boot {parse : Bytes → Option Json} {db : VectorDatabase F} {nullBitmaps : Finset (Bytes × Int64)}
    {wal applied saved : List (Nat × Bytes)}
    (hlogged : Node.Logged parse (Node.boot db nullBitmaps wal)) (hmax : ∀ r ∈ wal, r.1 ≤ db.persistence.increaseID)
    (happlied : ∀ r ∈ wal, r ∈ applied) (hsaved : ∀ r ∈ wal, r.1 ≤ db.files.maxLogID.getD 0 → r ∈ saved) :
    Sim parse (boot db nullBitmaps wal applied saved) (Node.boot db nullBitmaps wal) where
  logged := hlogged
  db := rfl
  nullBitmaps := rfl
  wal := rfl
  applied e he := happlied e (List.mem_of_mem_take he)
  contiguous := InmemLogStore.contiguous_mk' _
  start := rfl
  commit_le := ⟨Nat.le_refl _, Nat.le_of_eq (InmemLogStore.nextSlot_mk' _).symm⟩
  entry i e hi he := by
    have hnone : (InmemLogStore.mk' db.getStartIndexID).logs[i]? = none := by
      rw [InmemLogStore.getElem?_mk', if_neg hi]
    cases hnone.symm.trans he
  record r hr hle := by
    have h1 := hmax r hr
    have h2 : db.persistence.increaseID + 1 ≤ r.1 := hle
    omega
  wal_lt r hr := by
    have h1 := hmax r hr
    have h2 : (boot db nullBitmaps wal applied saved).store.nextSlot = db.persistence.increaseID + 1 := InmemLogStore.nextSlot_mk' _
    omega
  taken r hr := hmax r (List.mem_of_mem_take hr)
  left r hr := by
    have hnil : (Node.boot db nullBitmaps wal).wal.drop (Node.boot db nullBitmaps wal).applied = [] := List.drop_length
    rw [hnil] at hr
    cases hr
  saved := hsaved

theorem sim_first (parse : Bytes → Option Json) (dim : Nat) : Sim parse (first dim : LogNode F) (Node.first dim) := by
  apply sim_boot (Node.logged_first parse dim)
  · intro r hr
    cases hr
  · intro r hr
    cases hr
  · intro r hr
    cases hr

namespace Sim
variable {parse : Bytes → Option Json} {s t : LogNode F} {n : Node F}

/-- The record of the next app_log entry is the next one to be applied. -/
theorem next_record (h : Sim parse s n) {e : LogEntry} (hlt : s.commitIdx + 1 < s.store.nextSlot)
    (he : s.store.entryAt (s.commitIdx + 1) = some e) (ha : e.valType = .appLog) :
    n.wal[n.applied]? = some (s.commitIdx + 1, e.buf) := by
  have hsome := (h.contiguous.isSome_iff (s.commitIdx + 1)).mpr (Or.inr ⟨h.commit_le.1, hlt⟩)
  obtain ⟨x, hx⟩ := Option.isSome_iff_exists.mp hsome
  rw [InmemLogStore.entryAt, hx, Option.some_or, Option.some.injEq] at he
  subst he
  have hmem : (s.commitIdx + 1, x.buf) ∈ n.wal := by
    rw [h.wal]
    exact h.entry _ x (Nat.succ_ne_zero _) hx ha
  have hsorted := h.logged.sorted
  rw [← List.take_append_drop n.applied n.wal] at hmem hsorted
  rcases List.mem_append.mp hmem with hm | hm
  · have := h.taken _ hm
    omega
  · cases hdrop : n.wal.drop n.applied with
    | nil =>
      rw [hdrop] at hm
      cases hm
    | cons r rest =>
      have hhead : n.wal[n.applied]? = some r := by
        have := congrArg (·[0]?) hdrop
        rwa [List.getElem?_drop, Nat.add_zero, List.getElem?_cons_zero] at this
      have hr := h.left r (by rw [hdrop]; exact List.mem_cons_self)
      rw [hdrop] at hm hsorted
      rcases List.mem_cons.mp hm with rfl | hm
      · exact hhead
      · have := (List.pairwise_cons.mp (List.pairwise_append.mp hsorted).2.1).1 _ hm
        simp only at this
        omega

/-- No record stands at an index of another kind. -/
theorem no_record (h : Sim parse s n) {e : LogEntry} (he : s.store.entryAt (s.commitIdx + 1) = some e)
    (ha : e.valType ≠ .appLog) : ∀ r ∈ n.wal, r.1 ≠ s.commitIdx + 1 := by
  intro r hr hidx
  rw [h.wal] at hr
  obtain ⟨x, hx, hxa⟩ := h.record r hr (by rw [hidx]; exact h.commit_le.1)
  rw [InmemLogStore.entryAt, ← hidx, hx, Option.some_or, Option.some.injEq] at he
  exact ha (he ▸ hxa)

/-- What is not applied is above `increase_id_`. -/
theorem applied_of_le (h : Sim parse s n) {r : Nat × Bytes} (hr : r ∈ s.wal) (hle : r.1 ≤ s.db.persistence.increaseID) :
    r ∈ s.applied := by
  rw [← h.wal, ← List.take_append_drop n.applied n.wal] at hr
  rcases List.mem_append.mp hr with hm | hm
  · exact h.applied r hm
  · have := h.logged.increaseID_lt r hm
    rw [h.db] at this
    omega

theorem savedCutoff_le (h : Sim parse s n) : s.savedCutoff ≤ s.db.persistence.increaseID := by
  have := h.logged.maxLogID_le
  rwa [h.db] at this

theorem append_lt (h : Sim parse s n) {e : LogEntry} {store : InmemLogStore} {idx : Nat} {ws : List WalWrite}
    (ha : s.store.append e = .ok (store, idx, ws)) : s.db.persistence.increaseID < idx ∧ ∀ r ∈ s.wal, r.1 < idx := by
  obtain ⟨rfl, -, -⟩ := InmemLogStore.append_eq_ok ha
  have h1 := h.start
  have h2 := h.contiguous.start_le
  exact ⟨by omega, h.wal_lt⟩

/-! ## The steps -/

theorem of_append (h : Sim parse s n) {e : LogEntry} {store : InmemLogStore} {idx : Nat} {ws : List WalWrite}
    (ha : s.store.append e = .ok (store, idx, ws)) {m : Node F} (hlogged : Node.Logged parse m)
    (hdb : m.db = s.db.writeWALLogs ws) (hnull : m.nullBitmaps = s.nullBitmaps)
    (hwal : m.wal = s.wal ++ records idx e) (happlied : m.applied = n.applied) :
    Sim parse { s with sm := { s.sm with vectorDatabase := s.db.writeWALLogs ws }, store := store, wal := s.wal ++ records idx e }
      m := by
  have hlt := h.append_lt ha
  obtain ⟨hnext, hcont⟩ := h.contiguous.append ha
  obtain ⟨rfl, rfl, -⟩ := InmemLogStore.append_eq_ok ha
  have hsplit : m.wal.take m.applied = n.wal.take n.applied ∧
      m.wal.drop m.applied = n.wal.drop n.applied ++ records s.store.nextSlot e := by
    have hle := h.logged.applied_le
    rw [hwal, happlied, ← h.wal]
    exact ⟨List.take_append_of_le_length hle, List.drop_append_of_le_length hle⟩
  constructor
  case logged => exact hlogged
  case db => exact hdb
  case nullBitmaps => exact hnull
  case wal => exact hwal
  case applied =>
    rw [hsplit.1]
    exact h.applied
  case contiguous => exact hcont
  case start =>
    show s.store.startIdx = (s.db.writeWALLogs ws).persistence.increaseID + 1
    rw [VectorDatabase.increaseID_writeWALLogs]
    exact h.start
  case commit_le =>
    have := h.commit_le
    exact ⟨this.1, this.2.trans (hnext ▸ Nat.le_succ _)⟩
  case entry =>
    intro i x hi hx hxa
    rw [InmemLogStore.getElem?_insert_nat] at hx
    split at hx
    · rename_i heq
      cases hx
      refine List.mem_append_right _ (mem_records.mpr ⟨?_, hxa⟩)
      rw [heq]
    · exact List.mem_append_left _ (h.entry i x hi hx hxa)
  case record =>
    show ∀ r ∈ s.wal ++ records s.store.nextSlot e, s.store.startIdx ≤ r.1 →
      ∃ x, (s.store.logs.insert s.store.nextSlot e)[r.1]? = some x ∧ _
    simp only [InmemLogStore.getElem?_insert_nat]
    apply forall_mem_append_records
    · intro r hr hle
      rw [if_neg (Nat.ne_of_lt (hlt.2 r hr))]
      exact h.record r hr hle
    · intro hea _
      rw [if_pos rfl]
      exact ⟨e, rfl, hea⟩
  case wal_lt =>
    show ∀ r ∈ s.wal ++ records s.store.nextSlot e,
      r.1 < InmemLogStore.nextSlot { s.store with logs := s.store.logs.insert s.store.nextSlot e }
    rw [hnext]
    apply forall_mem_append_records
    · intro r hr
      exact (h.wal_lt r hr).trans (Nat.lt_succ_self _)
    · intro _
      exact Nat.lt_succ_self _
  case taken =>
    rw [hsplit.1]
    exact h.taken
  case left =>
    rw [hsplit.2]
    apply forall_mem_append_records h.left
    intro _
    exact Nat.lt_of_succ_le h.commit_le.2
  case saved =>
    have hcut : (s.db.writeWALLogs ws).files = s.db.files := VectorDatabase.files_writeWALLogs s.db ws
    show ∀ r ∈ s.wal ++ records s.store.nextSlot e, r.1 ≤ (s.db.writeWALLogs ws).files.maxLogID.getD 0 → r ∈ s.saved
    rw [hcut]
    apply forall_mem_append_records h.saved
    intro _ hle
    have hle' : s.store.nextSlot ≤ s.savedCutoff := hle
    have := h.savedCutoff_le
    have := hlt.1
    omega

theorem of_commit (h : Sim parse s n) {e : LogEntry} (hlt : s.commitIdx + 1 < s.store.nextSlot)
    (he : s.store.entryAt (s.commitIdx + 1) = some e) {sm : LogStateMachine F} {m : Node F} (hlogged : Node.Logged parse m)
    (hdb : m.db = sm.vectorDatabase) (hpers : sm.vectorDatabase.persistence = s.db.persistence)
    (hfiles : sm.vectorDatabase.files = s.db.files) (hnull : m.nullBitmaps = n.nullBitmaps) (hwal : m.wal = n.wal)
    (happlied : m.applied = n.applied + (records (s.commitIdx + 1) e).length) :
    Sim parse { s with sm := sm, commitIdx := s.commitIdx + 1, applied := s.applied ++ records (s.commitIdx + 1) e } m := by
  have htake : m.wal.take m.applied = n.wal.take n.applied ++ records (s.commitIdx + 1) e := by
    rw [hwal, happlied]
    unfold records
    split
    · rename_i ha
      rw [List.length_singleton, List.take_add_one, h.next_record hlt he ha]
      rfl
    · rw [List.length_nil, Nat.add_zero, List.append_nil]
  constructor
  case logged => exact hlogged
  case db => exact hdb
  case nullBitmaps => exact hnull.trans h.nullBitmaps
  case wal => exact hwal.trans h.wal
  case applied =>
    rw [htake]
    intro r hr
    rcases List.mem_append.mp hr with hr | hr
    · exact List.mem_append_left _ (h.applied r hr)
    · exact List.mem_append_right _ hr
  case contiguous => exact h.contiguous
  case start =>
    show s.store.startIdx = sm.vectorDatabase.persistence.increaseID + 1
    rw [hpers]
    exact h.start
  case commit_le => exact ⟨h.commit_le.1.trans (Nat.le_succ _), hlt⟩
  case entry => exact h.entry
  case record => exact h.record
  case wal_lt => exact h.wal_lt
  case taken =>
    rw [htake]
    apply forall_mem_append_records
    · intro r hr
      exact (h.taken r hr).trans (Nat.le_succ _)
    · intro _
      exact Nat.le_refl _
  case left =>
    intro r hr
    show s.commitIdx + 1 < r.1
    rw [hwal] at hr
    have hr' : r ∈ n.wal.drop n.applied := List.drop_subset_drop_left n.wal (by rw [happlied]; exact Nat.le_add_right _ _) hr
    have hgt := h.left r hr'
    by_cases ha : e.valType = .appLog
    · -- the record that was applied comes before `r` in the WAL
      have hsorted := h.logged.sorted
      rw [← List.take_append_drop m.applied n.wal] at hsorted
      have hmem : (s.commitIdx + 1, e.buf) ∈ n.wal.take m.applied := by
        rw [← hwal, htake]
        exact List.mem_append_right _ (mem_records.mpr ⟨rfl, ha⟩)
      exact (List.pairwise_append.mp hsorted).2.2 _ hmem r hr
    · have hne := h.no_record he ha r (List.mem_of_mem_drop hr')
      omega
  case saved =>
    intro r hr hle
    apply h.saved r hr
    have hcut : (sm.vectorDatabase.files.maxLogID.getD 0) = s.savedCutoff := by
      rw [hfiles]
      rfl
    exact hcut ▸ hle

/-- Only the saved cutoff and the records it covers have changed. -/
theorem of_snapshot (h : Sim parse s n) (R : RoaringFormat) :
    Sim parse { s with sm := { s.sm with vectorDatabase := s.db.takeSnapshot R }, saved := s.applied }
      { n with sm.vectorDatabase := n.db.takeSnapshot R } where
  logged := ⟨h.logged.content, h.logged.reads, h.logged.pos, h.logged.sorted, h.logged.applied_le, Nat.le_refl _,
    h.logged.increaseID_le, h.logged.increaseID_lt⟩
  db := congrArg (VectorDatabase.takeSnapshot R) h.db
  nullBitmaps := h.nullBitmaps
  wal := h.wal
  applied := h.applied
  contiguous := h.contiguous
  start := h.start
  commit_le := h.commit_le
  entry := h.entry
  record := h.record
  wal_lt := h.wal_lt
  taken := h.taken
  left := h.left
  saved _ hr hle := h.applied_of_le hr hle

section
variable [CFloat F] {R : RoaringFormat} {dim : Nat}

/-- The database that a crashed node comes back with. -/
theorem reload_eq_ok (h : Sim parse s n) {writes : Nat} (hnull : 3 ≤ writes → s.nullBitmaps = ∅)
    {r : VectorDatabase F × Finset (Bytes × Int64)}
    (hr : ((s.db.takeSnapshotUpTo R writes).restart dim).reloadDatabase R parse = .ok r) :
    Node.Step R dim parse n (.restart writes) (Node.boot r.1 r.2 s.wal) ∧ r.1.persistence.increaseID = Node.maxId s.wal ∧
      r.1.files = (s.db.takeSnapshotUpTo R writes).files := by
  have hcrash : (n.crashed R dim writes).reloadDatabase R parse = .ok r := by
    rw [Node.crashed, h.db]
    exact hr
  obtain ⟨l, stores, -, -, -, hboot⟩ := (Node.reload_crashed_iff h.logged).mp hcrash
  refine ⟨⟨h.nullBitmaps ▸ hnull, r, hcrash, by rw [h.wal]⟩, ?_, by rw [hboot, h.db]⟩
  rw [hboot, ← h.wal]
  exact Node.increaseID_reloaded n writes

theorem of_restart (h : Sim parse s n) {writes : Nat} (hnull : 3 ≤ writes → s.nullBitmaps = ∅)
    {r : VectorDatabase F × Finset (Bytes × Int64)}
    (hr : ((s.db.takeSnapshotUpTo R writes).restart dim).reloadDatabase R parse = .ok r) :
    Sim parse (boot r.1 r.2 s.wal ((if 4 ≤ writes then s.applied else s.saved) ++
      above Prod.fst ((s.db.takeSnapshotUpTo R writes).files.maxLogID.getD 0) s.wal)
      (if 4 ≤ writes then s.applied else s.saved)) (Node.boot r.1 r.2 s.wal) := by
  obtain ⟨hstep, hid, hfiles⟩ := h.reload_eq_ok hnull hr
  have hsaved : ∀ r ∈ s.wal, r.1 ≤ (s.db.takeSnapshotUpTo R writes).files.maxLogID.getD 0 →
      r ∈ (if 4 ≤ writes then s.applied else s.saved) := by
    intro r hr hle
    rw [VectorDatabase.maxLogID_takeSnapshotUpTo] at hle
    split
    · rename_i hw
      rw [if_pos hw] at hle
      exact h.applied_of_le hr hle
    · rename_i hw
      rw [if_neg hw] at hle
      exact h.saved r hr hle
  apply sim_boot (Node.logged_step h.logged hstep)
  · intro r hr
    rw [hid]
    exact Node.le_maxId hr
  · intro r hr
    by_cases hle : r.1 ≤ (s.db.takeSnapshotUpTo R writes).files.maxLogID.getD 0
    · exact List.mem_append_left _ (hsaved r hr hle)
    · exact List.mem_append_right _ (List.mem_filter.mpr ⟨hr, decide_eq_true (Nat.not_le.mp hle)⟩)
  · rw [hfiles]
    exact hsaved

end
end Sim

/-! ## Runs -/

section
variable [CFloat F] {R : RoaringFormat} {dim : Nat} {parse : Bytes → Option Json} {s t : LogNode F}

theorem sim_append {e : LogEntry} {n : Node F} (h : Sim parse s n) (hst : Step R dim parse s (.append e) t) :
    ∃ m, Sim parse t m := by
  obtain ⟨store, idx, ws, ha, h64, hreads, rfl⟩ := hst
  have hlt := h.append_lt ha
  obtain ⟨-, -, hws⟩ := InmemLogStore.append_eq_ok ha
  by_cases he : e.valType = .appLog
  · have hlen : 4 ≤ e.buf.length := InmemLogStore.four_le_of_append ha he
    have hw : ws = [(idx, e.buf.drop 4)] := by rw [hws, InmemLogStore.walWrites, if_pos he]
    let m : Node F := ⟨{ n.sm with vectorDatabase := n.db.writeWALLogWithID idx (e.buf.drop 4) },
      n.wal ++ [(idx, e.buf)], n.applied, n.nullBitmaps⟩
    have hstep : Node.Step R dim parse n (.append idx e.buf) m := by
      refine ⟨⟨?_, ?_, h64⟩, hlen, hreads he, rfl⟩
      · rw [h.db]
        exact hlt.1
      · rw [h.wal]
        exact hlt.2
    refine ⟨m, h.of_append ha (Node.logged_step h.logged hstep) ?_ h.nullBitmaps ?_ rfl⟩
    · show n.db.writeWALLogWithID idx (e.buf.drop 4) = s.db.writeWALLogs ws
      rw [h.db, hw]
      rfl
    · show n.wal ++ _ = _
      rw [h.wal, records, if_pos he]
  · -- the node beside it does not see the entry
    have hw : ws = [] := by rw [hws, InmemLogStore.walWrites, if_neg he]
    subst hw
    refine ⟨n, h.of_append ha h.logged h.db h.nullBitmaps ?_ rfl⟩
    rw [records, if_neg he, List.append_nil, h.wal]

theorem sim_commit {n : Node F} (h : Sim parse s n) (hst : Step R dim parse s .commit t) : ∃ m, Sim parse t m := by
  obtain ⟨e, sm, hlt, he, hc, hnull, rfl⟩ := hst
  by_cases ha : e.valType = .appLog
  · simp only [CommitEntry, ha] at hc
    obtain ⟨out, hc⟩ := hc
    obtain ⟨hlen, stores, happ, hsm⟩ := (LogStateMachine.commit_eq_ok parse).mp hc
    obtain rfl : sm = ⟨s.commitIdx + 1, { s.sm.vectorDatabase with stores }⟩ := congrArg Prod.fst hsm
    let m : Node F := ⟨⟨s.commitIdx + 1, { n.db with stores }⟩, n.wal, n.applied + 1, n.nullBitmaps⟩
    have happ' : Applied n.db.stores (LogStateMachine.jsonRequest parse e.buf) stores := by
      rw [h.db]
      exact happ
    have hnull' : n.db.stores.followsNull n.nullBitmaps (LogStateMachine.jsonRequest parse e.buf) = false := by
      rw [h.db, h.nullBitmaps]
      exact hnull ha
    have hstep : Node.Step R dim parse n .commit m :=
      Node.step_commit_iff.mpr ⟨(s.commitIdx + 1, e.buf), stores, h.next_record hlt he ha, hlen, happ', hnull', rfl⟩
    refine ⟨m, h.of_commit hlt he (Node.logged_step h.logged hstep) ?_ rfl rfl rfl rfl ?_⟩
    · show { n.db with stores } = { s.db with stores }
      rw [h.db]
    · show n.applied + 1 = _
      rw [records, if_pos ha, List.length_singleton]
  · have hsm : sm.vectorDatabase = s.db := by
      unfold CommitEntry at hc
      split at hc
      · exact absurd (by assumption) ha
      · rw [hc]
        rfl
      · rw [hc]
        rfl
    refine ⟨n, h.of_commit hlt he h.logged ?_ ?_ ?_ rfl rfl ?_⟩
    · rw [hsm, h.db]
    · rw [hsm]
    · rw [hsm]
    · rw [records, if_neg ha, List.length_nil, Nat.add_zero]

/-- **One step** has a step of the node beside it, or none where it sees nothing. -/
theorem sim_step {a : LogNodeAction} {n : Node F} (h : Sim parse s n) (hst : Step R dim parse s a t) :
    ∃ m, Sim parse t m := by
  cases a with
  | append e => exact sim_append h hst
  | commit => exact sim_commit h hst
  | snapshot =>
    obtain ⟨-, rfl⟩ := hst
    exact ⟨_, h.of_snapshot R⟩
  | restart writes =>
    obtain ⟨hnull, r, hr, rfl⟩ := hst
    exact ⟨_, h.of_restart hnull hr⟩

theorem sim_run {as : List LogNodeAction} (h : Run (Step R dim parse) (first dim) as s) : ∃ n, Sim parse s n :=
  Run.invariant (I := fun s => ∃ n, Sim parse s n) ⟨Node.first dim, sim_first parse dim⟩
    (fun _ _ _ hs hst => sim_step hs.choose_spec hst) h

/-- Whatever a step logs is above the cutoff that is saved before it. -/
theorem wal_step {a : LogNodeAction} {n : Node F} (h : Sim parse s n) (hst : Step R dim parse s a t) :
    ∃ new, t.wal = s.wal ++ new ∧ ∀ r ∈ new, s.savedCutoff < r.1 := by
  cases a with
  | append e =>
    obtain ⟨store, idx, ws, ha, -, -, rfl⟩ := hst
    refine ⟨records idx e, rfl, fun r hr => ?_⟩
    have hlt := (h.append_lt ha).1
    have hle := h.savedCutoff_le
    rw [(mem_records.mp hr).1]
    exact hle.trans_lt hlt
  | commit =>
    obtain ⟨e, sm, -, -, -, -, rfl⟩ := hst
    exact ⟨[], (List.append_nil _).symm, fun r hr => by cases hr⟩
  | snapshot =>
    obtain ⟨-, rfl⟩ := hst
    exact ⟨[], (List.append_nil _).symm, fun r hr => by cases hr⟩
  | restart writes =>
    obtain ⟨-, r, -, rfl⟩ := hst
    exact ⟨[], (List.append_nil _).symm, fun r hr => by cases hr⟩

/-- A commit writes no WAL and no snapshot. -/
theorem commitEntry_frame {sm sm' : LogStateMachine F} {idx : Nat} {e : LogEntry} (h : CommitEntry parse sm idx e sm') :
    ∃ stores, sm'.vectorDatabase = { sm.vectorDatabase with stores } := by
  unfold CommitEntry at h
  split at h
  · obtain ⟨out, hc⟩ := h
    obtain ⟨-, stores, -, hsm⟩ := (LogStateMachine.commit_eq_ok parse).mp hc
    obtain rfl : sm' = ⟨idx, { sm.vectorDatabase with stores }⟩ := congrArg Prod.fst hsm
    exact ⟨stores, rfl⟩
  · rw [h]
    exact ⟨sm.vectorDatabase.stores, rfl⟩
  · rw [h]
    exact ⟨sm.vectorDatabase.stores, rfl⟩

/-- The saved cutoff does not go back. -/
theorem savedCutoff_step {a : LogNodeAction} {n : Node F} (h : Sim parse s n) (hst : Step R dim parse s a t) :
    s.savedCutoff ≤ t.savedCutoff := by
  cases a with
  | append e =>
    obtain ⟨store, idx, ws, -, -, -, rfl⟩ := hst
    show s.savedCutoff ≤ (s.db.writeWALLogs ws).files.maxLogID.getD 0
    rw [VectorDatabase.files_writeWALLogs]
    exact Nat.le_refl _
  | commit =>
    obtain ⟨e, sm, -, -, hc, -, rfl⟩ := hst
    obtain ⟨stores, hdb⟩ := commitEntry_frame hc
    show s.savedCutoff ≤ sm.vectorDatabase.files.maxLogID.getD 0
    rw [hdb]
    exact Nat.le_refl _
  | snapshot =>
    obtain ⟨-, rfl⟩ := hst
    exact h.savedCutoff_le
  | restart writes =>
    obtain ⟨hnull, r, hr, rfl⟩ := hst
    show s.savedCutoff ≤ r.1.files.maxLogID.getD 0
    rw [(h.reload_eq_ok hnull hr).2.2, VectorDatabase.maxLogID_takeSnapshotUpTo]
    split
    · exact h.savedCutoff_le
    · exact Nat.le_refl _

/-- Whatever a run logs is above the cutoff that is saved before it. -/
theorem wal_run {bs : List LogNodeAction} {n : Node F} (h : Sim parse s n) (hrun : Run (Step R dim parse) s bs t) :
    ∃ new, t.wal = s.wal ++ new ∧ ∀ r ∈ new, s.savedCutoff < r.1 := by
  have hinv : (∃ m, Sim parse t m) ∧ s.savedCutoff ≤ t.savedCutoff ∧
      ∃ new, t.wal = s.wal ++ new ∧ ∀ r ∈ new, s.savedCutoff < r.1 := by
    refine Run.invariant (I := fun u => (∃ m, Sim parse u m) ∧ s.savedCutoff ≤ u.savedCutoff ∧
      ∃ new, u.wal = s.wal ++ new ∧ ∀ r ∈ new, s.savedCutoff < r.1) ?_ ?_ hrun
    · exact ⟨⟨n, h⟩, Nat.le_refl _, [], (List.append_nil _).symm, fun r hr => by cases hr⟩
    · rintro u a v ⟨⟨m, hm⟩, hle, old, hwal, hold⟩ hst
      obtain ⟨new, hnew, hlt⟩ := wal_step hm hst
      refine ⟨sim_step hm hst, hle.trans (savedCutoff_step hm hst), old ++ new, ?_, ?_⟩
      · rw [hnew, hwal, List.append_assoc]
      · exact List.forall_mem_append.mpr ⟨hold, fun r hr => hle.trans_lt (hlt r hr)⟩
  exact hinv.2.2

omit [CFloat F] in
/-- What the next process reads of the WAL. -/
theorem readWAL_content {n : Node F} (h : Sim parse s n) : ∃ q,
    Persistence.readWAL parse (Persistence.init s.db.persistence.walLogFile.content s.db.files.maxLogID) =
      .ok ((above Prod.fst s.savedCutoff s.wal).map fun r => VectorDatabase.upsertEntry (entryDoc parse r), q) := by
  have hcontent : s.db.persistence.walLogFile.content = Persistence.fileOf (n.wal.map Node.record) := by
    rw [← h.db]
    exact h.logged.content
  rw [hcontent, Persistence.readWAL_init parse h.logged.framed, ← h.wal, List.filter_map, List.map_map]
  refine ⟨_, congrArg (fun es => Except.ok (es, _)) (List.map_congr_left fun r hr => ?_)⟩
  exact h.logged.entry_record (List.mem_of_mem_filter hr)

/-- What holds of the WAL and the cutoff. -/
structure CutoffSound (R : RoaringFormat) (dim : Nat) (parse : Bytes → Option Json) (s : LogNode F) : Prop where
  content : s.db.persistence.walLogFile.content = Persistence.fileOf (s.wal.map Node.record)
  increasing : s.wal.Pairwise fun a b => a.1 < b.1
  /-- What a reload skips was applied when the cutoff was saved. -/
  skipped : ∀ r ∈ s.wal, r.1 ≤ s.savedCutoff → r ∈ s.saved
  /-- What is logged later is above the cutoff. -/
  later : ∀ bs t, Run (Step R dim parse) s bs t → ∃ new, t.wal = s.wal ++ new ∧ ∀ r ∈ new, s.savedCutoff < r.1
  /-- A reload reads every record whose effect was not saved. -/
  read : ∃ es q, Persistence.readWAL parse
      (Persistence.init s.db.persistence.walLogFile.content s.db.files.maxLogID) = .ok (es, q) ∧
    ∀ r ∈ s.wal, r ∉ s.saved → VectorDatabase.upsertEntry (entryDoc parse r) ∈ es

/-- **The cutoff skips nothing that is not applied**, in any run of appends, commits, snapshots and crashes. -/
theorem cutoff_sound {as : List LogNodeAction} (h : Run (Step R dim parse) (first dim) as s) : CutoffSound R dim parse s := by
  obtain ⟨n, hn⟩ := sim_run h
  obtain ⟨q, hread⟩ := readWAL_content hn
  constructor
  case content =>
    rw [← hn.db, ← hn.wal]
    exact hn.logged.content
  case increasing =>
    rw [← hn.wal]
    exact hn.logged.sorted
  case skipped => exact hn.saved
  case later =>
    intro bs t hrun
    exact wal_run hn hrun
  case read =>
    refine ⟨_, q, hread, fun r hr hunsaved => List.mem_map_of_mem (List.mem_filter.mpr ⟨hr, decide_eq_true ?_⟩)⟩
    exact Nat.not_le.mp fun hle => hunsaved (hn.saved r hr hle)

end

/-- A snapshot between the append of id 1 and its commit. -/
theorem cutoff_sound_append : ∃ s : LogNode Number,
    Run (Step portable 1 LogStateMachine.newFieldParser) (first 1) [.append ⟨1, Node.newFieldData, .appLog⟩, .snapshot] s ∧
      s.wal = [(11, Node.newFieldData)] ∧ CutoffSound portable 1 LogStateMachine.newFieldParser s := by
  have happend : Step portable 1 LogStateMachine.newFieldParser (first 1 : LogNode Number)
      (.append ⟨1, Node.newFieldData, .appLog⟩) _ :=
    ⟨_, _, _, InmemLogStore.append_of_le (by decide), by decide, fun _ => by
      have hbody : cstr ((Node.newFieldData.drop 4).takeWhile (· ≠ bar)) = cstr (Node.newFieldData.drop 4) := by decide
      exact ⟨by decide, by rw [hbody, LogStateMachine.jsonRequest]⟩, rfl⟩
  have hrun := (Run.single happend).snoc (show Step portable 1 LogStateMachine.newFieldParser _ .snapshot _ from ⟨rfl, rfl⟩)
  exact ⟨_, hrun, rfl, cutoff_sound hrun⟩

end LogNode
end VectorDb
