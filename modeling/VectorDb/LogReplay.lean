import VectorDb.LogWal

/-!
# What a reload replays of a log

* `held` : the app_log entries of a log store in index order;
* `KeepsEntries` : a call discards no app_log entry, and its payload stays on its line;
* `replaysHeld_of_keeps` : after a run of appends and overwrites that keep entries, a reload replays exactly
  `held`;
* `overwritten_entry_replayed` : an entry that an overwrite discards comes back from the WAL.
-/

namespace VectorDb
open Std (ExtTreeMap)

namespace InmemLogStore

/-- The app_log entry at an index. -/
def appEntry (logs : ExtTreeMap Nat LogEntry) (i : Nat) : Option (Nat × LogEntry) :=
  (logs[i]?).bind fun e => if e.valType = .appLog then some (i, e) else none

/-- The app_log entries below an index, in index order. -/
def heldBelow (s : InmemLogStore) (n : Nat) : List (Nat × LogEntry) :=
  (List.range' s.startIdx (n - s.startIdx)).filterMap (appEntry s.logs)

/-- The app_log entries of the log. -/
def held (s : InmemLogStore) : List (Nat × LogEntry) := s.heldBelow s.nextSlot

theorem heldBelow_congr {s t : InmemLogStore} (hstart : s.startIdx = t.startIdx) {n : Nat}
    (h : ∀ i, s.startIdx ≤ i → i < n → s.logs[i]? = t.logs[i]?) : s.heldBelow n = t.heldBelow n := by
  rw [heldBelow, heldBelow, ← hstart]
  apply List.filterMap_congr
  intro i hi
  rw [List.mem_range'_1] at hi
  rw [appEntry, appEntry, h i hi.1 (by omega)]

theorem heldBelow_succ {s : InmemLogStore} {n : Nat} (hn : s.startIdx ≤ n) :
    s.heldBelow (n + 1) = s.heldBelow n ++ (appEntry s.logs n).toList := by
  have hlen : n + 1 - s.startIdx = (n - s.startIdx) + 1 := by omega
  have hlast : s.startIdx + (n - s.startIdx) = n := by omega
  rw [heldBelow, hlen, List.range'_concat, Nat.one_mul, hlast, List.filterMap_append, heldBelow]
  cases h : appEntry s.logs n <;> simp [h]

/-- Indices without an app_log entry add nothing. -/
theorem heldBelow_of_none {s : InmemLogStore} {n m : Nat} (hn : s.startIdx ≤ n) (hm : n ≤ m)
    (h : ∀ i, n ≤ i → i < m → appEntry s.logs i = none) : s.heldBelow m = s.heldBelow n := by
  induction m, hm using Nat.le_induction with
  | base => rfl
  | succ m hm ih =>
    rw [heldBelow_succ (hn.trans hm), h m hm (Nat.lt_succ_self m), Option.toList_none, List.append_nil,
      ih fun i h1 h2 => h i h1 (h2.trans (Nat.lt_succ_self m))]

theorem mem_heldBelow {s : InmemLogStore} {n : Nat} {p : Nat × LogEntry} (h : p ∈ s.heldBelow n) :
    s.startIdx ≤ p.1 ∧ p.1 < n ∧ s.logs[p.1]? = some p.2 ∧ p.2.valType = .appLog := by
  obtain ⟨i, hi, hp⟩ := List.mem_filterMap.mp h
  obtain ⟨e, he, hp⟩ := Option.bind_eq_some_iff.mp hp
  rw [List.mem_range'_1] at hi
  split at hp
  · rename_i ha
    cases hp
    exact ⟨hi.1, by omega, he, ha⟩
  · cases hp

theorem appEntry_insert_self (logs : ExtTreeMap Nat LogEntry) (i : Nat) (e : LogEntry) :
    appEntry (logs.insert i e) i = if e.valType = .appLog then some (i, e) else none := by
  rw [appEntry, getElem?_insert_nat, if_pos rfl, Option.bind_some]

end InmemLogStore

/-- The calls of a log that is neither compacted nor filled by packs. -/
def LogAction.Writes : LogAction → Prop
  | .append _ => True
  | .writeAt _ _ => True
  | _ => False

namespace LogWal
open InmemLogStore

/-- The payload of an app_log entry keeps to its line and its field. -/
def OneLine (e : LogEntry) : Prop := e.valType = .appLog → newline ∉ e.buf.drop 4 ∧ bar ∉ cstr (e.buf.drop 4)

/-- The call discards no app_log entry, and its payload keeps to its line. -/
def KeepsEntries (s : LogWal) : LogAction → Prop
  | .append e => OneLine e
  | .writeAt index e => OneLine e ∧ ∀ i x, index ≤ i → s.store.logs[i]? = some x → x.valType ≠ .appLog
  | _ => True

/-- The record of an entry. -/
def record (p : Nat × LogEntry) : WalWrite := (p.1, p.2.buf.drop 4)

/-- The WAL holds the app_log entries of the log, in their order. -/
structure Mirrors (s : LogWal) : Prop where
  contiguous : s.store.Contiguous
  wal_eq : s.wal = s.store.held.map record
  oneLine : ∀ p ∈ s.store.held, OneLine p.2

theorem walWrites_eq (idx : Nat) (e : LogEntry) : walWrites idx e =
    (if e.valType = .appLog then some (idx, e) else none).toList.map record := by
  unfold walWrites
  split <;> rfl

/-- Entries below `n` stay, and one comes in at `n`. -/
theorem mirrors_of_write {s t : LogWal} {n : Nat} {e : LogEntry} (hs : Mirrors s) (ht : t.store.Contiguous)
    (hstart : t.store.startIdx = s.store.startIdx) (hn : s.store.startIdx ≤ n) (hnext : t.store.nextSlot = n + 1)
    (hlogs : ∀ i, i < n → t.store.logs[i]? = s.store.logs[i]?)
    (hself : appEntry t.store.logs n = if e.valType = .appLog then some (n, e) else none)
    (hheld : s.store.held = s.store.heldBelow n) (hwal : t.wal = s.wal ++ walWrites n e) (he : OneLine e) : Mirrors t := by
  have hbelow : t.store.heldBelow n = s.store.held := by
    rw [hheld]
    exact heldBelow_congr hstart fun i _ hi => hlogs i hi
  have hnew : t.store.held = s.store.held ++ (if e.valType = .appLog then some (n, e) else none).toList := by
    rw [held, hnext, heldBelow_succ (hstart ▸ hn), hbelow, hself]
  refine ⟨ht, ?_, fun p hp => ?_⟩
  · rw [hwal, hs.wal_eq, hnew, List.map_append, walWrites_eq]
  · rw [hnew] at hp
    rcases List.mem_append.mp hp with hp | hp
    · exact hs.oneLine p hp
    · split at hp
      · rw [Option.toList_some, List.mem_singleton] at hp
        rw [hp]
        exact he
      · cases hp

theorem mirrors_step {C : LogEntryCodec} {s t : LogWal} {a : LogAction} (hs : Mirrors s) (ha : a.Writes)
    (h : LogStep C s a t) (hk : KeepsEntries s a) : Mirrors t := by
  have hct := contiguous_step hs.contiguous h
  have h2 := hs.contiguous.start_le
  cases a with
  | append e =>
    obtain ⟨-, store, idx, ws, h, rfl⟩ := h
    have hnext := (hs.contiguous.append h).1
    obtain ⟨rfl, rfl, rfl⟩ := append_eq_ok h
    apply mirrors_of_write hs hct rfl h2 hnext _ (appEntry_insert_self _ _ _) rfl rfl hk
    intro i hi
    rw [getElem?_insert_nat, if_neg (Nat.ne_of_lt hi)]
  | writeAt index e =>
    obtain ⟨-, hi, store, ws, h, rfl⟩ := h
    have hnext := (hs.contiguous.writeAt hi h).1
    obtain ⟨rfl, rfl⟩ := writeAt_eq_ok h
    apply mirrors_of_write hs hct rfl hi.1 hnext _ (appEntry_insert_self _ _ _) _ rfl hk.1
    · intro i hlt
      rw [getElem?_insert_nat, if_neg (Nat.ne_of_lt hlt), getElem?_filter_key, if_pos (decide_eq_true hlt)]
    · apply heldBelow_of_none hi.1 hi.2
      intro i hle _
      rw [appEntry]
      cases hl : s.store.logs[i]? with
      | none => rfl
      | some x => rw [Option.bind_some, if_neg (hk.2 i x hle hl)]
  | applyPack index pack => exact absurd ha id
  | compact n => exact absurd ha id

theorem mirrors_fresh (n : Nat) : Mirrors (fresh n []) := by
  have hheld : (fresh n []).store.held = [] := by
    have hn : (fresh n []).store.nextSlot - (fresh n []).store.startIdx = 0 := by
      rw [show (fresh n []).store.nextSlot = n + 1 from nextSlot_mk' n]
      exact Nat.sub_self _
    rw [held, heldBelow, hn]
    rfl
  refine ⟨contiguous_mk' n, ?_, fun p hp => ?_⟩
  · rw [hheld]
    rfl
  · rw [hheld] at hp
    cases hp

/-! ## The reload -/

theorem cstr_takeWhile_bar {s : Bytes} (h : bar ∉ cstr s) : cstr (s.takeWhile (· ≠ bar)) = cstr s := by
  induction s with
  | nil => rfl
  | cons c s ih =>
    by_cases h0 : c = 0
    · subst h0
      rfl
    · have hc : cstr (c :: s) = c :: cstr s := by simp [cstr, h0]
      rw [hc, List.mem_cons, not_or] at h
      have htw : (c :: s).takeWhile (· ≠ bar) = c :: s.takeWhile (· ≠ bar) := by
        simp [Ne.symm h.1]
      rw [hc, htw, show cstr (c :: s.takeWhile (· ≠ bar)) = c :: cstr (s.takeWhile (· ≠ bar)) by simp [cstr, h0], ih h.2]

theorem entry_record (parse : Bytes → Option Json) {p : Nat × LogEntry} (hp : p.2.valType = .appLog)
    (h : OneLine p.2) : (VectorDatabase.upsertRecord (record p).1 (record p).2).entry parse = walEntry parse p := by
  simp only [Persistence.WalRecord.entry, VectorDatabase.upsertRecord, record, walEntry, LogStateMachine.jsonRequest,
    cstr_takeWhile_bar (h hp).2]

/-- A node that comes up after a crash, with the WAL that its log store wrote. -/
def crashed (F : Type) (dim : Nat) (s : LogWal) : VectorDatabase F :=
  ((VectorDatabase.fresh dim).writeWALLogs s.wal).restart dim

theorem persistence_crashed (F : Type) (dim : Nat) (s : LogWal) : (crashed F dim s).persistence =
    Persistence.init (Persistence.fileOf (s.wal.map fun w => VectorDatabase.upsertRecord w.1 w.2)) none := by
  rw [crashed, VectorDatabase.restart, VectorDatabase.content_writeWALLogs, VectorDatabase.files_writeWALLogs]
  rfl

theorem stores_crashed (F : Type) (dim : Nat) (s : LogWal) : (crashed F dim s).stores = Stores.fresh dim := by
  rw [crashed, VectorDatabase.restart, VectorDatabase.stores_writeWALLogs]
  rfl

/-- A mirroring WAL is read back as the log stood. -/
theorem readWAL_of_mirrors {s : LogWal} (hs : Mirrors s) (hlt : s.store.nextSlot ≤ 2 ^ 64) (F : Type) (dim : Nat)
    (parse : Bytes → Option Json) : ∃ q, Persistence.readWAL parse (crashed F dim s).persistence =
      .ok (s.store.held.map (walEntry parse), q) := by
  have hstart := hs.contiguous.start_pos
  let rs := s.wal.map fun w => VectorDatabase.upsertRecord w.1 w.2
  have hrs : rs = s.store.held.map fun p => VectorDatabase.upsertRecord (record p).1 (record p).2 := by
    show List.map _ s.wal = _
    rw [hs.wal_eq, List.map_map]
    rfl
  have hframed : ∀ r ∈ rs, r.Framed := by
    intro r hr
    rw [hrs] at hr
    obtain ⟨p, hp, rfl⟩ := List.mem_map.mp hr
    obtain ⟨-, hi, -, ha⟩ := mem_heldBelow hp
    exact VectorDatabase.upsertRecord_framed (Nat.lt_of_lt_of_le hi hlt) (hs.oneLine p hp ha).1
  have hall : (Persistence.init (Persistence.fileOf rs) none).replayed rs = rs := by
    apply List.filter_eq_self.mpr
    intro r hr
    rw [hrs] at hr
    obtain ⟨p, hp, rfl⟩ := List.mem_map.mp hr
    obtain ⟨hi, -⟩ := mem_heldBelow hp
    exact decide_eq_true (show 0 < p.1 by omega)
  have hmap : rs.map (Persistence.WalRecord.entry parse) = s.store.held.map (walEntry parse) := by
    rw [hrs, List.map_map]
    apply List.map_congr_left
    intro p hp
    exact entry_record parse (mem_heldBelow hp).2.2.2 (hs.oneLine p hp)
  have hread := Persistence.readWAL_init parse hframed none
  rw [← Persistence.replayed_init (Persistence.fileOf rs), hall, hmap] at hread
  rw [persistence_crashed]
  exact ⟨_, hread⟩

/-- **Discarded entries are not resurrected**, as long as no overwrite discards an app_log entry: after a run of
appends and overwrites whose calls keep entries, a reload from empty stores replays the app_log entries of the log,
each once, in index order. -/
theorem replaysHeld_of_keeps {F : Type} [CFloat F] (dim : Nat) (R : RoaringFormat) (parse : Bytes → Option Json)
    {C : LogEntryCodec} {n : Nat} {as : List LogAction} {s : LogWal} (has : ∀ a ∈ as, a.Writes)
    (h : Run (fun s a t => LogStep C s a t ∧ KeepsEntries s a) (fresh n []) as s) (hlt : s.store.nextSlot ≤ 2 ^ 64) :
    ∃ q, Persistence.readWAL parse (crashed F dim s).persistence = .ok (s.store.held.map (walEntry parse), q) ∧
      (crashed F dim s).reloadDatabase R parse =
        (VectorDatabase.replay ∅ (Stores.fresh dim) (s.store.held.map (walEntry parse))).map fun stores =>
          ({ crashed F dim s with stores, persistence := q }, ∅) := by
  have hm : Mirrors s := by
    clear hlt
    induction h with
    | nil => exact mirrors_fresh n
    | snoc hr ha ih =>
      rw [List.forall_mem_append] at has
      exact mirrors_step (ih has.1) (has.2 _ (List.mem_singleton_self _)) ha.1 ha.2
  obtain ⟨q, hread⟩ := readWAL_of_mirrors hm hlt F dim parse
  refine ⟨q, hread, ?_⟩
  have hload : (crashed F dim s).loadSnapshot R = .ok (crashed F dim s, ∅) := by
    apply VectorDatabase.loadSnapshot_of_no_files
    · exact VectorDatabase.files_writeWALLogs _ _
    · rw [stores_crashed]
      rfl
  rw [VectorDatabase.reloadDatabase_eq R parse hload hread, stores_crashed]

/-! ## One entry, and its overwrite -/

/-- The entry of a first leader. -/
def firstEntry : LogEntry := ⟨1, lengthPrefix.putStr LogStateMachine.newFieldBody, .appLog⟩

/-- The entry of a second leader. -/
def secondEntry : LogEntry := ⟨2, lengthPrefix.putStr [], .appLog⟩

/-- The log with the first entry. -/
def afterFirst : LogWal :=
  ⟨⟨11, (InmemLogStore.mk' 10).logs.insert (InmemLogStore.mk' 10).nextSlot firstEntry⟩,
    walWrites (InmemLogStore.mk' 10).nextSlot firstEntry⟩

theorem logStep_firstEntry : LogStep termTypeBuf (fresh 10 []) (.append firstEntry) afterFirst :=
  ⟨by decide, _, _, _, append_of_le (by decide), rfl⟩

theorem oneLine_firstEntry : OneLine firstEntry := fun _ => by decide

theorem nextSlot_afterFirst : afterFirst.store.nextSlot = 12 := by decide +kernel

theorem replaysHeld_afterFirst :
    ∃ q, Persistence.readWAL LogStateMachine.newFieldParser (crashed Number 1 afterFirst).persistence =
        .ok (afterFirst.store.held.map (walEntry LogStateMachine.newFieldParser), q) ∧
      (crashed Number 1 afterFirst).reloadDatabase portable LogStateMachine.newFieldParser =
        (VectorDatabase.replay ∅ (Stores.fresh 1) (afterFirst.store.held.map (walEntry LogStateMachine.newFieldParser))).map
          fun stores => ({ crashed Number 1 afterFirst with stores, persistence := q }, ∅) :=
  replaysHeld_of_keeps 1 portable LogStateMachine.newFieldParser (by simp [LogAction.Writes])
    (Run.single ⟨logStep_firstEntry, oneLine_firstEntry⟩) (by rw [nextSlot_afterFirst]; decide)

/-- The log with the second entry in place of the first. -/
def afterSecond : LogWal :=
  ⟨⟨11, (afterFirst.store.logs.filter fun i _ => i < 11).insert 11 secondEntry⟩, afterFirst.wal ++ walWrites 11 secondEntry⟩

theorem logStep_secondEntry : LogStep termTypeBuf afterFirst (.writeAt 11 secondEntry) afterSecond :=
  ⟨by decide, ⟨Nat.le_refl 11, by rw [nextSlot_afterFirst]; decide⟩, _, _, writeAt_of_le (by decide) 11, rfl⟩

/-- An overwritten entry is replayed. -/
theorem overwritten_entry_replayed : ¬ ∀ (as : List LogAction) (s : LogWal), (∀ a ∈ as, a.Writes) →
    Run (LogStep termTypeBuf) (fresh 10 []) as s → s.store.nextSlot ≤ 2 ^ 64 →
    ∃ q, Persistence.readWAL LogStateMachine.newFieldParser (crashed Number 1 s).persistence =
      .ok (s.store.held.map (walEntry LogStateMachine.newFieldParser), q) := by
  intro h
  have hwrites : ∀ a ∈ [LogAction.append firstEntry, .writeAt 11 secondEntry], a.Writes := by simp [LogAction.Writes]
  obtain ⟨q, hq⟩ := h _ afterSecond hwrites ((Run.single logStep_firstEntry).snoc logStep_secondEntry) (by decide +kernel)
  have hwal : afterSecond.wal = [(11, LogStateMachine.newFieldBody), (11, [])] := by decide +kernel
  have hframed : ∀ r ∈ [VectorDatabase.upsertRecord 11 LogStateMachine.newFieldBody, VectorDatabase.upsertRecord 11 []],
      r.Framed := by
    simp only [List.mem_cons, List.not_mem_nil, or_false, forall_eq_or_imp, forall_eq]
    exact ⟨VectorDatabase.upsertRecord_framed (by decide) (by decide),
      VectorDatabase.upsertRecord_framed (by decide) (by decide)⟩
  have hread := Persistence.readWAL_init LogStateMachine.newFieldParser hframed none
  rw [persistence_crashed, hwal] at hq
  have hlen := congrArg List.length (congrArg Prod.fst (Except.ok.inj (hread.symm.trans hq)))
  rw [List.length_map, List.length_map] at hlen
  exact absurd hlen (by decide +kernel)

end LogWal
end VectorDb
