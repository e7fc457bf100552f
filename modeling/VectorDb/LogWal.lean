import VectorDb.WalRoundTrip
import VectorDb.Lib.LastWriter

/-!
# The log store and the WAL it writes

* `LogWal`, `LogStep` : a log store with the WAL writes it has asked for, and one call of a mutator;
* `WholeFile`, `lastRaw_write_iff` : what one more record does to what is read of the WAL file;
* `LogInWal` : each app_log entry of the log is the last record of its index that a reload reads in the WAL file;
* `logInWal_iff` : over every run this holds exactly when each entry that is written keeps to its line, and
  `apply_pack` brings in only entries that the WAL has.
-/

namespace VectorDb
open Std (ExtTreeMap)

/-- A log store and the arguments of its `writeWALLogWithID` calls so far. -/
structure LogWal where
  store : InmemLogStore
  wal : List WalWrite

inductive LogAction where
  | append (entry : LogEntry)
  | writeAt (index : Nat) (entry : LogEntry)
  | applyPack (index : Nat) (pack : Bytes)
  | compact (lastLogIndex : Nat)

/-- One call. Payloads have the length prefix; `write_at` stays inside the log, and `apply_pack` continues it or
fills an empty one. -/
def LogStep (C : LogEntryCodec) (s : LogWal) : LogAction → LogWal → Prop
  | .append e, t => 4 ≤ e.buf.length ∧
      ∃ store idx ws, s.store.append e = .ok (store, idx, ws) ∧ t = ⟨store, s.wal ++ ws⟩
  | .writeAt index e, t => 4 ≤ e.buf.length ∧ (s.store.startIdx ≤ index ∧ index ≤ s.store.nextSlot) ∧
      ∃ store ws, s.store.writeAt index e = .ok (store, ws) ∧ t = ⟨store, s.wal ++ ws⟩
  | .applyPack index pack, t => (index = s.store.nextSlot ∨ s.store.startIdx = s.store.nextSlot) ∧
      ∃ store, s.store.applyPack C index pack = some store ∧ t = ⟨store, s.wal⟩
  | .compact n, t => t = ⟨s.store.compact n, s.wal⟩

namespace LogWal

/-- What a reload hands on for an entry of the log: the document its commit applies. -/
def walEntry (parse : Bytes → Option Json) (p : Nat × LogEntry) : Persistence.WalEntry :=
  ⟨p.1, VectorDatabase.operationUpsert, LogStateMachine.jsonRequest parse p.2.buf⟩

end LogWal

namespace Persistence
open VectorDatabase (upsertRecord operationUpsert)

/-! ## The last record of an index -/

/-- The last record of an index that a reload without a cutoff reads in the file, before its data are parsed. -/
def lastRaw (content : Bytes) (i : Nat) : Option RawEntry :=
  match scanLines 0 [] (lines content) with
  | .error _ => none
  | .ok (rs, _) => lastFor RawEntry.logId i rs

/-- The last record of an index that such a reload hands on. -/
def lastEntry (parse : Bytes → Option Json) (content : Bytes) (i : Nat) : Option WalEntry :=
  match readWAL parse (init content none) with
  | .error _ => none
  | .ok (es, _) => lastFor WalEntry.logId i es

theorem lastEntry_eq (parse : Bytes → Option Json) (content : Bytes) (i : Nat) :
    lastEntry parse content i = (lastRaw content i).map (RawEntry.entry parse) := by
  rw [lastEntry, lastRaw]
  cases hread : readWAL parse (init content none) with
  | error f =>
    cases hscan : scanLines 0 [] (lines content) with
    | error e => rfl
    | ok x =>
      have hok : (readWAL parse (init content none)).map Prod.fst = .ok (x.1.map (RawEntry.entry parse)) :=
        (readWAL_eq_ok_iff parse).mpr ⟨x.1, x.2, hscan, rfl⟩
      rw [hread] at hok
      cases hok
  | ok y =>
    have hfst : (readWAL parse (init content none)).map Prod.fst = .ok y.1 := by
      rw [hread]
      rfl
    obtain ⟨rs, e, hscan, hrs⟩ := (readWAL_eq_ok_iff parse).mp hfst
    rw [show scanLines 0 [] (lines content) = _ from hscan]
    simp only [← hrs]
    exact lastFor_map WalEntry.logId i (RawEntry.entry parse) rs

/-- The file is read to its end, and ends at a line end. -/
structure WholeFile (content : Bytes) : Prop where
  terminated : unterminated content = false
  through : ∃ rs op, scanLines 0 [] (lines content) = .ok (rs, .through op)

variable {content data : Bytes} {idx : Nat}

/-- A record that keeps to its line is read behind the others. -/
theorem WholeFile.scan_write (h : WholeFile content) (hpos : 0 < idx) (hidx : idx < 2 ^ 64) (hn : newline ∉ data)
    (hbar : bar ∉ data) : ∃ rs op, scanLines 0 [] (lines content) = .ok (rs, .through op) ∧
      scanLines 0 [] (lines (content ++ ((upsertRecord idx data).line ++ [newline]))) =
        .ok (rs ++ [⟨idx, operationUpsert, data⟩], .through []) := by
  obtain ⟨rs, op, hscan⟩ := h.through
  refine ⟨rs, op, hscan, ?_⟩
  have hline := scanLines_record (List.not_mem_nil (a := newline)) (List.not_mem_nil (a := bar)) hn (stoull_decimal hidx) hpos op []
  rw [List.nil_append] at hline
  rw [scanLines_whole h.terminated hscan, hline, takeWhile_ne_self hbar]
  rfl

theorem WholeFile.write (h : WholeFile content) (hpos : 0 < idx) (hidx : idx < 2 ^ 64) (hn : newline ∉ data)
    (hbar : bar ∉ data) : WholeFile (content ++ ((upsertRecord idx data).line ++ [newline])) := by
  obtain ⟨rs, op, -, hscan⟩ := h.scan_write hpos hidx hn hbar
  refine ⟨?_, _, _, hscan⟩
  rw [← List.append_assoc]
  exact unterminated_append_newline _

theorem WholeFile.lastRaw_write (h : WholeFile content) (hpos : 0 < idx) (hidx : idx < 2 ^ 64) (hn : newline ∉ data)
    (hbar : bar ∉ data) (i : Nat) :
    lastRaw (content ++ ((upsertRecord idx data).line ++ [newline])) i =
      if idx = i then some ⟨idx, operationUpsert, data⟩ else lastRaw content i := by
  obtain ⟨rs, op, hscan, hwrite⟩ := h.scan_write hpos hidx hn hbar
  rw [lastRaw, hwrite, lastRaw, hscan]
  exact lastFor_concat RawEntry.logId i rs _

/-- Of a record that leaves its line or its field, nothing as long as its data is read. -/
theorem WholeFile.data_lt_of_write (h : WholeFile content) (hpos : 0 < idx) (hidx : idx < 2 ^ 64)
    (hcut : newline ∈ data ∨ bar ∈ data) {rs' : List RawEntry} {e : ScanEnd}
    (hscan' : scanLines 0 [] (lines (content ++ ((upsertRecord idx data).line ++ [newline]))) = .ok (rs', e)) :
    ∃ rs first later, rs' = rs ++ first :: later ∧ first.logId = idx ∧
      ∀ r ∈ first :: later, r.jsonDataStr.length < data.length := by
  obtain ⟨rs, op, hscan⟩ := h.through
  obtain ⟨b, rest, more, rfl, hb, hlines, hmore⟩ := exists_firstLine data
  have hline := hlines idx [] List.not_mem_nil
  rw [List.nil_append, List.nil_append] at hline
  have hf := walFields_torn (List.not_mem_nil (a := bar)) idx b op
  rw [List.nil_append, List.nil_append] at hf
  rw [scanLines_whole h.terminated hscan, hline, scanLines_cons hf (stoull_decimal hidx), if_pos hpos,
    if_neg VectorDatabase.operationUpsert_ne] at hscan'
  obtain ⟨x, hx, heq⟩ := map_eq_ok.mp hscan'
  obtain ⟨⟨later, e'⟩, hlater, rfl⟩ := map_eq_ok.mp hx
  obtain ⟨rfl, -⟩ := Prod.mk.inj heq
  refine ⟨rs, _, later, rfl, rfl, List.forall_mem_cons.mpr ⟨?_, fun r hr => ?_⟩⟩
  · show (b.takeWhile (· ≠ bar)).length < (b ++ rest).length
    rcases hmore with ⟨rfl, -⟩ | ⟨b₂, rfl, -⟩
    · rw [List.append_nil] at hcut ⊢
      obtain ⟨b₁, b₂, hb₁, rfl⟩ := exists_split_of_mem (hcut.resolve_left hb)
      rw [takeWhile_ne_append hb₁, List.length_append, List.length_cons]
      omega
    · have hle : (b.takeWhile (· ≠ bar)).length ≤ b.length := (List.takeWhile_sublist _).length_le
      rw [List.length_append, List.length_cons]
      omega
  · rcases hmore with ⟨-, rfl⟩ | ⟨b₂, rfl, rfl⟩
    · cases hlater
      cases hr
    · obtain ⟨l, hl, u, w, rfl, -⟩ := scanLines_data hlater hr
      obtain ⟨a, b', rfl⟩ := mem_lines hl
      simp only [List.length_append, List.length_cons]
      omega

/-- **One record** is the last of its index exactly when it keeps to its line and its field, and its id is a `uint64_t`. -/
theorem WholeFile.lastRaw_write_iff (h : WholeFile content) (hpos : 0 < idx) :
    lastRaw (content ++ ((upsertRecord idx data).line ++ [newline])) idx = some ⟨idx, operationUpsert, data⟩ ↔
      idx < 2 ^ 64 ∧ newline ∉ data ∧ bar ∉ data := by
  constructor
  · intro hlast
    rw [lastRaw] at hlast
    cases hscan : scanLines 0 [] (lines (content ++ ((upsertRecord idx data).line ++ [newline]))) with
    | error e =>
      rw [hscan] at hlast
      cases hlast
    | ok x =>
      rw [hscan] at hlast
      have hidx : idx < 2 ^ 64 := by
        by_contra hge
        obtain ⟨rs, op, hbefore⟩ := h.through
        obtain ⟨b, rest, more, -, -, hlines, -⟩ := exists_firstLine data
        have hline := hlines idx [] List.not_mem_nil
        have hf := walFields_torn (List.not_mem_nil (a := bar)) idx b op
        have hnum : stoull (walFields ([] ++ (upsertRecord idx b).line) op).1 = .error .outOfRange := by
          rw [hf, List.nil_append, stoull, scanInt_decimal]
          exact if_pos (Nat.not_lt.mp hge)
        rw [List.nil_append] at hline
        rw [scanLines_whole h.terminated hbefore, hline, scanLines_error hnum] at hscan
        cases hscan
      refine ⟨hidx, ?_⟩
      by_contra hcut
      rw [not_and_or, not_not, not_not] at hcut
      obtain ⟨rs, first, later, hx, hfirst, hlt⟩ := h.data_lt_of_write hpos hidx hcut hscan
      obtain ⟨r, hr⟩ := exists_lastFor (List.mem_cons_self : first ∈ first :: later) hfirst
      have hlast' : lastFor RawEntry.logId idx x.1 = some r := by
        rw [hx, lastFor_append, hr]
        rfl
      obtain rfl := Option.some.inj (hlast'.symm.trans hlast)
      exact absurd (hlt _ (lastFor_mem hr).1) (Nat.lt_irrefl _)
  · rintro ⟨hidx, hn, hbar⟩
    rw [h.lastRaw_write hpos hidx hn hbar, if_pos rfl]

end Persistence

namespace LogWal
open Persistence (WholeFile lastRaw lastEntry)
open VectorDatabase (operationUpsert)
variable {F : Type}

/-- The WAL file after the writes of the log store. -/
def file (db : VectorDatabase F) (s : LogWal) : Bytes := (db.writeWALLogs s.wal).persistence.walLogFile.content

/-- The last record of the index has the payload of the entry, and a restart hands on the document of its commit. -/
def Carried (content : Bytes) (i : Nat) (e : LogEntry) : Prop :=
  lastRaw content i = some ⟨i, operationUpsert, e.buf.drop 4⟩ ∧
    ∀ parse, lastEntry parse content i = some (walEntry parse (i, e))

/-- Each app_log entry of the log is carried by the WAL file. -/
def LogInWal (db : VectorDatabase F) (s : LogWal) : Prop :=
  ∀ i e, s.store.startIdx ≤ i → i < s.store.nextSlot → s.store.logs[i]? = some e → e.valType = .appLog →
    Carried (file db s) i e

/-- An app_log entry whose record keeps to its line and its field. -/
def KeepsLine (idx : Nat) (e : LogEntry) : Prop :=
  e.valType = .appLog → idx < 2 ^ 64 ∧ newline ∉ e.buf.drop 4 ∧ bar ∉ e.buf.drop 4

/-- What is written keeps to its line, and the app_log entries of a pack are in the WAL already. -/
def Logged (C : LogEntryCodec) (db : VectorDatabase F) (s : LogWal) : LogAction → Prop
  | .append e => KeepsLine s.store.nextSlot e
  | .writeAt index e => KeepsLine index e
  | .applyPack index pack => ∀ les, InmemLogStore.unpack C pack = some les → ∀ j e, les[j]? = some e →
      e.valType = .appLog → index + j ≠ 0 → Carried (file db s) (index + j) e
  | .compact _ => True

/-- The document follows from the payload. -/
theorem carried_iff {content : Bytes} {i : Nat} {e : LogEntry} :
    Carried content i e ↔ lastRaw content i = some ⟨i, operationUpsert, e.buf.drop 4⟩ := by
  refine and_iff_left_of_imp fun h parse => ?_
  rw [Persistence.lastEntry_eq, h]
  rfl

theorem logStep_unique {C : LogEntryCodec} (s : LogWal) (a : LogAction) (t u : LogWal) (ht : LogStep C s a t)
    (hu : LogStep C s a u) : t = u := by
  cases a with
  | append e =>
    obtain ⟨-, store, idx, ws, h, rfl⟩ := ht
    obtain ⟨-, store', idx', ws', h', rfl⟩ := hu
    cases h.symm.trans h'
    rfl
  | writeAt index e =>
    obtain ⟨-, -, store, ws, h, rfl⟩ := ht
    obtain ⟨-, -, store', ws', h', rfl⟩ := hu
    cases h.symm.trans h'
    rfl
  | applyPack index pack =>
    obtain ⟨-, store, h, rfl⟩ := ht
    obtain ⟨-, store', h', rfl⟩ := hu
    cases h.symm.trans h'
    rfl
  | compact n => exact Eq.trans ht hu.symm

theorem contiguous_step {C : LogEntryCodec} {s t : LogWal} {a : LogAction} (hs : s.store.Contiguous)
    (h : LogStep C s a t) : t.store.Contiguous := by
  cases a with
  | append e =>
    obtain ⟨-, store, idx, ws, h, rfl⟩ := h
    exact (hs.append h).2
  | writeAt index e =>
    obtain ⟨-, hi, store, ws, h, rfl⟩ := h
    exact (hs.writeAt hi h).2
  | applyPack index pack =>
    obtain ⟨hi, store, h, rfl⟩ := h
    exact hs.applyPack hi h
  | compact n =>
    obtain rfl := h
    exact (hs.compact n).2

/-! ## Every entry in the WAL -/

/-- The same for every index of the map but 0. -/
theorem logInWal_iff_of_contiguous {db : VectorDatabase F} {s : LogWal} (h : s.store.Contiguous) : LogInWal db s ↔
    ∀ i e, i ≠ 0 → s.store.logs[i]? = some e → e.valType = .appLog → Carried (file db s) i e := by
  constructor
  · intro hl i e hi he ha
    have hr := h.mem_range_iff.mpr ⟨hi, by rw [he]; rfl⟩
    exact hl i e hr.1 hr.2 he ha
  · intro hl i e h1 h2 he ha
    exact hl i e (h.mem_range_iff.mp ⟨h1, h2⟩).1 he ha

theorem file_write (db : VectorDatabase F) (s : LogWal) (store : InmemLogStore) (idx : Nat) (e : LogEntry) :
    file db ⟨store, s.wal ++ InmemLogStore.walWrites idx e⟩ =
      if e.valType = .appLog then
        file db s ++ ((VectorDatabase.upsertRecord idx (e.buf.drop 4)).line ++ [newline])
      else file db s := by
  rw [file, file, VectorDatabase.content_writeWALLogs, VectorDatabase.content_writeWALLogs, List.map_append,
    Persistence.fileOf_append, InmemLogStore.walWrites]
  split
  · simp [Persistence.fileOf]
  · simp [Persistence.fileOf]

theorem wholeFile_write {db : VectorDatabase F} {s : LogWal} (h : WholeFile (file db s)) {idx : Nat} (hpos : 0 < idx)
    {e : LogEntry} (he : KeepsLine idx e) (store : InmemLogStore) :
    WholeFile (file db ⟨store, s.wal ++ InmemLogStore.walWrites idx e⟩) := by
  rw [file_write]
  split
  · rename_i ha
    obtain ⟨hidx, hn, hbar⟩ := he ha
    exact h.write hpos hidx hn hbar
  · exact h

/-- Entries and records change together at one index, exactly when the new record keeps to its line. -/
theorem carried_of_write_iff {db : VectorDatabase F} {s : LogWal} (hf : WholeFile (file db s)) {idx : Nat} (hpos : 0 < idx)
    {e : LogEntry} {store : InmemLogStore}
    (hlogs : ∀ i, i ≠ idx → ∀ x, store.logs[i]? = some x → s.store.logs[i]? = some x) (hidx : store.logs[idx]? = some e)
    (h : ∀ (i : Nat) (x : LogEntry), i ≠ 0 → s.store.logs[i]? = some x → x.valType = .appLog → Carried (file db s) i x) :
    (∀ (i : Nat) (x : LogEntry), i ≠ 0 → store.logs[i]? = some x → x.valType = .appLog →
      Carried (file db ⟨store, s.wal ++ InmemLogStore.walWrites idx e⟩) i x) ↔ KeepsLine idx e := by
  constructor
  · intro hc ha
    have hlast := carried_iff.mp (hc idx e (Nat.ne_of_gt hpos) hidx ha)
    rwa [file_write, if_pos ha, hf.lastRaw_write_iff hpos] at hlast
  · intro he i x hi hx ha
    rw [carried_iff, file_write]
    by_cases hii : i = idx
    · subst hii
      obtain rfl : e = x := Option.some.inj (hidx.symm.trans hx)
      rw [if_pos ha]
      exact (hf.lastRaw_write_iff hpos).mpr (he ha)
    · have hold := carried_iff.mp (h i x hi (hlogs i hii x hx) ha)
      split
      · rename_i happ
        obtain ⟨hlt, hn, hbar⟩ := he happ
        rw [hf.lastRaw_write hpos hlt hn hbar, if_neg (Ne.symm hii), hold]
      · exact hold

/-- What is written lies above 0. -/
theorem start_pos_next {s : LogWal} (h : s.store.Contiguous) : 0 < s.store.nextSlot :=
  Nat.lt_of_lt_of_le h.start_pos h.start_le

theorem wholeFile_step {C : LogEntryCodec} {db : VectorDatabase F} {s t : LogWal} {a : LogAction} (hs : s.store.Contiguous)
    (hf : WholeFile (file db s)) (h : LogStep C s a t) (ha : Logged C db s a) : WholeFile (file db t) := by
  cases a with
  | append e =>
    obtain ⟨-, store, idx, ws, h, rfl⟩ := h
    obtain ⟨rfl, -, rfl⟩ := InmemLogStore.append_eq_ok h
    exact wholeFile_write hf (start_pos_next hs) ha store
  | writeAt index e =>
    obtain ⟨-, hi, store, ws, h, rfl⟩ := h
    obtain ⟨-, rfl⟩ := InmemLogStore.writeAt_eq_ok h
    exact wholeFile_write hf (Nat.lt_of_lt_of_le hs.start_pos hi.1) ha store
  | applyPack index pack =>
    obtain ⟨-, store, -, rfl⟩ := h
    exact hf
  | compact n =>
    obtain rfl := h
    exact hf

/-- **One call** leaves every app_log entry in the WAL exactly when what it writes keeps to its line, and its pack, if it
is one, was there before. -/
theorem logInWal_step_iff {C : LogEntryCodec} {db : VectorDatabase F} {s t : LogWal} {a : LogAction}
    (hs : s.store.Contiguous) (hf : WholeFile (file db s)) (hl : LogInWal db s) (h : LogStep C s a t) :
    LogInWal db t ↔ Logged C db s a := by
  have hct := contiguous_step hs h
  rw [logInWal_iff_of_contiguous hs] at hl
  rw [logInWal_iff_of_contiguous hct]
  cases a with
  | append e =>
    obtain ⟨-, store, idx, ws, h, rfl⟩ := h
    obtain ⟨rfl, rfl, rfl⟩ := InmemLogStore.append_eq_ok h
    apply carried_of_write_iff hf (start_pos_next hs) _ _ hl
    · intro i hi x hx
      rwa [InmemLogStore.getElem?_insert_nat, if_neg hi] at hx
    · rw [InmemLogStore.getElem?_insert_nat, if_pos rfl]
  | writeAt index e =>
    obtain ⟨-, hi, store, ws, h, rfl⟩ := h
    obtain ⟨rfl, rfl⟩ := InmemLogStore.writeAt_eq_ok h
    apply carried_of_write_iff hf (Nat.lt_of_lt_of_le hs.start_pos hi.1) _ _ hl
    · intro i hi x hx
      rw [InmemLogStore.getElem?_insert_nat, if_neg hi, InmemLogStore.getElem?_filter_key] at hx
      split at hx
      · exact hx
      · cases hx
    · rw [InmemLogStore.getElem?_insert_nat, if_pos rfl]
  | applyPack index pack =>
    obtain ⟨-, store, h, rfl⟩ := h
    obtain ⟨les, hles, hlogs, -⟩ := InmemLogStore.applyPack_eq_some h
    have hfile : file db ⟨store, s.wal⟩ = file db s := rfl
    simp only [Logged, hles, Option.some.injEq, forall_eq', hfile]
    constructor
    · intro hp j e hj ha hne
      have hlt : j < les.length := (List.getElem?_eq_some_iff.mp hj).1
      refine hp (index + j) e hne ?_ ha
      rw [hlogs, InmemLogStore.getElem?_insertAll, if_pos (by omega), Nat.add_sub_cancel_left]
      exact hj
    · intro hp i e hi he ha
      rw [hlogs, InmemLogStore.getElem?_insertAll] at he
      split at he
      · rename_i hr
        have hij : index + (i - index) = i := by omega
        have hcarried := hp (i - index) e he ha (by omega)
        rwa [hij] at hcarried
      · exact hl i e hi he ha
  | compact n =>
    refine iff_of_true ?_ trivial
    obtain rfl := h
    intro i e hi he ha
    rw [InmemLogStore.getElem?_compact] at he
    split at he
    · cases he
    · exact hl i e hi he ha

/-- A new log store over a WAL. -/
def fresh (startIndexID : Nat) (wal : List WalWrite) : LogWal := ⟨InmemLogStore.mk' startIndexID, wal⟩

theorem logInWal_fresh (db : VectorDatabase F) (n : Nat) (wal : List WalWrite) : LogInWal db (fresh n wal) := by
  intro i e h1 h2
  have hn : (fresh n wal).store.nextSlot = n + 1 := InmemLogStore.nextSlot_mk' n
  have hs : (fresh n wal).store.startIdx = n + 1 := rfl
  omega

theorem contiguous_run {C : LogEntryCodec} {n : Nat} {wal : List WalWrite} {as : List LogAction} {s : LogWal}
    (h : Run (LogStep C) (fresh n wal) as s) : s.store.Contiguous :=
  Run.invariant (I := fun s => s.store.Contiguous) (InmemLogStore.contiguous_mk' n)
    (fun _ _ _ hs hst => contiguous_step hs hst) h

theorem wholeFile_run {C : LogEntryCodec} {db : VectorDatabase F} (hdb : WholeFile db.persistence.walLogFile.content) {n : Nat}
    {as : List LogAction} {s : LogWal} (h : Run (fun s a t => LogStep C s a t ∧ Logged C db s a) (fresh n []) as s) :
    s.store.Contiguous ∧ WholeFile (file db s) :=
  Run.invariant (I := fun s => s.store.Contiguous ∧ WholeFile (file db s))
    ⟨InmemLogStore.contiguous_mk' n, show WholeFile (file db (fresh n [])) from hdb⟩
    (fun _ _ _ hs hst => ⟨contiguous_step hs.1 hst.1, wholeFile_step hs.1 hs.2 hst.1 hst.2⟩) h

/-- **Every log entry is in the WAL.** In every run of the four mutators over a WAL file that is read to its end, each
app_log entry of the log is always carried by the last record of its index that is read in the file, exactly when each
app_log entry that is appended or overwrites another keeps to its line, and every pack holds only app_log entries that
already are in the WAL. -/
theorem logInWal_iff {C : LogEntryCodec} {db : VectorDatabase F} (hdb : WholeFile db.persistence.walLogFile.content) {n : Nat}
    {as : List LogAction} {s : LogWal} (h : Run (LogStep C) (fresh n []) as s) :
    (∀ bs u, bs <+: as → Run (LogStep C) (fresh n []) bs u → LogInWal db u) ↔
      Run (fun s a t => LogStep C s a t ∧ Logged C db s a) (fresh n []) as s := by
  apply h.forall_prefix_iff logStep_unique (logInWal_fresh db n [])
  intro bs t a u _ ht hlt hstep
  have hrun := wholeFile_run hdb ht
  exact logInWal_step_iff hrun.1 hrun.2 hlt hstep

/-- The entry of a request with an empty body. -/
def emptyEntry : LogEntry := ⟨1, lengthPrefix.putStr [], .appLog⟩

/-- The log after one append. -/
def appended : LogWal :=
  ⟨⟨11, (InmemLogStore.mk' 10).logs.insert (InmemLogStore.mk' 10).nextSlot emptyEntry⟩,
    InmemLogStore.walWrites (InmemLogStore.mk' 10).nextSlot emptyEntry⟩

theorem logStep_append : LogStep termTypeBuf (fresh 10 []) (.append emptyEntry) appended :=
  ⟨by decide, _, _, _, InmemLogStore.append_of_le (by decide), rfl⟩

/-- A pack of one entry. -/
def emptyPack : Bytes := leBytes 4 1 ++ (leBytes 4 13 ++ termTypeBuf.serialize emptyEntry)

theorem unpack_emptyPack : InmemLogStore.unpack termTypeBuf emptyPack = some [emptyEntry] := by decide

/-- A store after the pack. -/
def repack (s : LogWal) : LogWal :=
  let logs := InmemLogStore.insertAll s.store.logs 11 [emptyEntry]
  ⟨⟨(logs.keys.find? fun i => 0 < i).getD 1, logs⟩, s.wal⟩

theorem applyPack_emptyPack (s : LogWal) : s.store.applyPack termTypeBuf 11 emptyPack = some s.repack.store := by
  rw [InmemLogStore.applyPack, unpack_emptyPack, Option.map_some]
  rfl

/-- The log after its entry was overwritten by another leader's, and after that one was compacted. -/
def overwritten : LogWal :=
  ⟨⟨11, (appended.store.logs.filter fun i _ => i < 11).insert 11 emptyEntry⟩,
    appended.wal ++ InmemLogStore.walWrites 11 emptyEntry⟩

def compacted : LogWal := ⟨overwritten.store.compact 11, overwritten.wal⟩

theorem logStep_overwritten : LogStep termTypeBuf appended (.writeAt 11 emptyEntry) overwritten :=
  ⟨by decide, ⟨Nat.le_refl 11, by decide +kernel⟩, _, _, InmemLogStore.writeAt_of_le (by decide) 11, rfl⟩

theorem logStep_compacted : LogStep termTypeBuf overwritten (.compact 11) compacted := rfl

theorem logStep_repack : LogStep termTypeBuf compacted (.applyPack 11 emptyPack) compacted.repack :=
  ⟨Or.inr (by decide +kernel), _, applyPack_emptyPack compacted, rfl⟩

/-- An entry is appended, overwritten and compacted, and comes back in a pack. -/
theorem run_repack : Run (fun s a t => LogStep termTypeBuf s a t ∧
    Logged termTypeBuf (VectorDatabase.fresh 1 : VectorDatabase Number) s a) (fresh 10 [])
    [.append emptyEntry, .writeAt 11 emptyEntry, .compact 11, .applyPack 11 emptyPack] compacted.repack := by
  have hkeeps : ∀ idx < 2 ^ 64, KeepsLine idx emptyEntry := fun idx h _ => ⟨h, by decide, by decide⟩
  have happend : Run (fun s a t => LogStep termTypeBuf s a t ∧
      Logged termTypeBuf (VectorDatabase.fresh 1 : VectorDatabase Number) s a) (fresh 10 []) [.append emptyEntry] appended :=
    Run.single ⟨logStep_append, hkeeps _ (by rw [fresh, InmemLogStore.nextSlot_mk']; decide)⟩
  have hwhole := (wholeFile_run ⟨rfl, [], [], rfl⟩ happend).2
  have hcarried : Carried (file (VectorDatabase.fresh 1 : VectorDatabase Number) compacted) 11 emptyEntry := by
    have happ : emptyEntry.valType = LogValType.appLog := rfl
    have hfile := file_write (VectorDatabase.fresh 1 : VectorDatabase Number) appended compacted.store 11 emptyEntry
    rw [if_pos happ] at hfile
    rw [carried_iff, show file (VectorDatabase.fresh 1 : VectorDatabase Number) compacted = _ from hfile,
      hwhole.lastRaw_write_iff (by decide)]
    exact hkeeps 11 (by decide) happ
  refine ((happend.snoc ⟨logStep_overwritten, hkeeps 11 (by decide)⟩).snoc ⟨logStep_compacted, trivial⟩).snoc
    ⟨logStep_repack, ?_⟩
  intro les hles j e hj _ _
  obtain rfl := Option.some.inj (unpack_emptyPack.symm.trans hles)
  cases j with
  | zero =>
    obtain rfl := Option.some.inj hj
    exact hcarried
  | succ j => cases hj

theorem logInWal_iff_repack : LogInWal (VectorDatabase.fresh 1 : VectorDatabase Number) compacted.repack := by
  have hrun := run_repack.mono fun _ _ _ h => h.1
  exact (logInWal_iff ⟨rfl, [], [], rfl⟩ hrun).mpr run_repack _ _ List.prefix_rfl hrun

/-- A pack goes into the log alone. -/
theorem pack_not_in_wal : ¬ ∀ (n : Nat) (as : List LogAction) (s : LogWal),
    Run (LogStep termTypeBuf) (fresh n []) as s → LogInWal (VectorDatabase.fresh 1 : VectorDatabase Number) s := by
  intro h
  have hstep : LogStep termTypeBuf (fresh 10 []) (.applyPack 11 emptyPack) (fresh 10 []).repack :=
    ⟨Or.inl (InmemLogStore.nextSlot_mk' 10).symm, _, applyPack_emptyPack (fresh 10 []), rfl⟩
  have hlast := h 10 _ _ (Run.single hstep) 11 emptyEntry (by decide +kernel) (by decide +kernel) (by decide +kernel) rfl
  cases carried_iff.mp hlast

end LogWal
end VectorDb
