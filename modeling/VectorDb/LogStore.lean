import VectorDb.Basic

/-!
# `inmem_log_store`: the log of one Raft server

* `InmemLogStore` : `start_idx_` and `logs_`, with the dummy entry 0;
* `lastEntry`, `entryAt`, `termAt`, `logEntries`, `logEntriesExt`, `pack` : what is read out of it;
* `append`, `writeAt`, `applyPack`, `compact` : the four mutators. A write to the WAL is an output of the
  call, the arguments of `writeWALLogWithID`;
* `append_eq_ok`, `writeAt_eq_ok`, `applyPack_eq_some`, `getElem?_compact` : the entries after each.

Log indices are natural numbers; the `ulong` of the source does not wrap before `2^64`.
-/

namespace VectorDb
open Std (ExtTreeMap)

/-- `nuraft::log_val_type`. -/
inductive LogValType where
  | appLog
  | conf
  | clusterServer
  | logPack
  | snpSyncReq
  | custom
  deriving DecidableEq, Repr

/-- `nuraft::log_entry`: the term, the payload buffer and its kind. -/
structure LogEntry where
  term : Nat
  buf : Bytes
  valType : LogValType
  deriving DecidableEq, Repr

/-- The arguments of one `writeWALLogWithID` call. -/
abbrev WalWrite := Nat × Bytes

/-- The text after the length prefix of a payload; a payload shorter than the prefix makes `std::string`
throw. -/
def LogEntry.content (e : LogEntry) : Except Fault Bytes :=
  if e.buf.length < 4 then .error .lengthError else .ok (e.buf.drop 4)

theorem LogEntry.content_eq_ok {e : LogEntry} {c : Bytes} : e.content = .ok c ↔ 4 ≤ e.buf.length ∧ c = e.buf.drop 4 := by
  unfold content
  split
  · simp; omega
  · simp only [Except.ok.injEq, eq_comm (a := c)]
    exact ⟨fun h => ⟨by omega, h⟩, And.right⟩

/-- NuRaft's serialization of one entry, and of an `int32` in a `buffer`. -/
structure LogEntryCodec where
  serialize : LogEntry → Bytes
  deserialize : Bytes → Option LogEntry
  putInt : Nat → Bytes
  getInt : Bytes → Option (Int × Bytes)
  getInt_putInt : ∀ n < 2 ^ 31, ∀ rest, getInt (putInt n ++ rest) = some ((n : Int), rest)

/-- The byte of an entry's kind. -/
def LogValType.byte : LogValType → UInt8
  | .appLog => 1
  | .conf => 2
  | .clusterServer => 3
  | .logPack => 4
  | .snpSyncReq => 5
  | .custom => 231

/-- The layout of NuRaft: term, kind, payload; integers in four bytes, the lowest first. -/
def termTypeBuf : LogEntryCodec where
  serialize e := leBytes 8 e.term ++ e.valType.byte :: e.buf
  deserialize s :=
    (readLE 8 s).bind fun (term, s) =>
      match s with
      | [] => none
      | t :: buf =>
        ([.appLog, .conf, .clusterServer, .logPack, .snpSyncReq, .custom].find? fun k => LogValType.byte k = t).map
          fun valType => ⟨term, buf, valType⟩
  putInt n := leBytes 4 n
  getInt s := (readLE 4 s).map fun r => (if r.1 < 2 ^ 31 then (r.1 : Int) else r.1 - 2 ^ 32, r.2)
  getInt_putInt n hn rest := by rw [readLE_leBytes (Nat.lt_of_lt_of_le hn (by omega)), Option.map_some, if_pos hn]

structure InmemLogStore where
  startIdx : Nat
  logs : ExtTreeMap Nat LogEntry

namespace InmemLogStore

/-- The constructor, on `getStartIndexID()`; entry 0 is a dummy of eight bytes. -/
def mk' (startIndexID : Nat) : InmemLogStore :=
  ⟨startIndexID + 1, (∅ : ExtTreeMap Nat LogEntry).insert 0 ⟨0, List.replicate 8 0, .appLog⟩⟩

/-- Excludes the dummy entry. -/
def nextSlot (s : InmemLogStore) : Nat := s.startIdx + s.logs.size - 1

def startIndex (s : InmemLogStore) : Nat := s.startIdx

/-- `entry_at`: the dummy entry stands for an absent one. -/
def entryAt (s : InmemLogStore) (index : Nat) : Option LogEntry := (s.logs[index]?).or s.logs[0]?

def termAt (s : InmemLogStore) (index : Nat) : Option Nat := (s.entryAt index).map LogEntry.term

def lastEntry (s : InmemLogStore) : Option LogEntry := s.entryAt (s.nextSlot - 1)

/-- One round of a loop over indices: an absent entry is `assert(0)`. -/
def loopEntry (s : InmemLogStore) (ii : Nat) : Except Fault LogEntry :=
  match s.logs[ii]? with
  | some src => .ok src
  | none => .error .assertion

/-- The entries at some indices, one after the other. -/
def entriesAt (s : InmemLogStore) : List Nat → Except Fault (List LogEntry)
  | [] => .ok []
  | ii :: is =>
    match s.loopEntry ii with
    | .error f => .error f
    | .ok src => (s.entriesAt is).map (src :: ·)

/-- `resize(end - start)` comes before the loop. -/
def logEntries (s : InmemLogStore) (start stop : Nat) : Except Fault (List LogEntry) :=
  if stop < start then .error .lengthError else s.entriesAt (List.range' start (stop - start))

/-- The loop of `log_entries_ext`; a hint of 0 is no limit. -/
def extLoop (s : InmemLogStore) (hint : Nat) : List Nat → Nat → Except Fault (List LogEntry)
  | [], _ => .ok []
  | ii :: is, accumSize =>
    match s.loopEntry ii with
    | .error f => .error f
    | .ok src =>
      let accumSize := accumSize + src.buf.length
      if hint ≠ 0 ∧ hint ≤ accumSize then .ok [src] else (s.extLoop hint is accumSize).map (src :: ·)

def logEntriesExt (s : InmemLogStore) (start stop : Nat) (batchSizeHintInBytes : Int) : Except Fault (List LogEntry) :=
  if batchSizeHintInBytes < 0 then .ok []
  else s.extLoop batchSizeHintInBytes.toNat (List.range' start (stop - start)) 0

def append (s : InmemLogStore) (entry : LogEntry) : Except Fault (InmemLogStore × Nat × List WalWrite) :=
  let idx := s.startIdx + s.logs.size - 1
  let s' : InmemLogStore := { s with logs := s.logs.insert idx entry }
  if entry.valType = .appLog then
    match entry.content with
    | .error f => .error f
    | .ok content => .ok (s', idx, [(idx, content)])
  else .ok (s', idx, [])

/-- Discards every entry from `index` on. The content is cut out of the payload for every kind of entry. -/
def writeAt (s : InmemLogStore) (index : Nat) (entry : LogEntry) : Except Fault (InmemLogStore × List WalWrite) :=
  let s' : InmemLogStore := { s with logs := (s.logs.filter fun i _ => i < index).insert index entry }
  match entry.content with
  | .error f => .error f
  | .ok content => .ok (s', if entry.valType = .appLog then [(index, content)] else [])

/-- One entry of a pack, after its size. -/
def putEntry (C : LogEntryCodec) (e : LogEntry) : Bytes := C.putInt (C.serialize e).length ++ C.serialize e

/-- The entries at `cnt` indices, after their number. Where an entry is absent, `assert(le.get())` fails. -/
def pack (C : LogEntryCodec) (s : InmemLogStore) (index cnt : Nat) : Except Fault Bytes :=
  (s.entriesAt (List.range' index cnt)).map fun les => C.putInt cnt ++ les.flatMap (putEntry C)

/-- One entry of a pack: its size and its bytes. -/
def getEntry (C : LogEntryCodec) (s : Bytes) : Option (LogEntry × Bytes) :=
  (C.getInt s).bind fun (bufSize, s) =>
    if bufSize < 0 ∨ s.length < bufSize.toNat then none
    else (C.deserialize (s.take bufSize.toNat)).map fun le => (le, s.drop bufSize.toNat)

/-- The entries a pack holds; `none` when a read runs past its end. -/
def unpack (C : LogEntryCodec) (pack : Bytes) : Option (List LogEntry) :=
  (C.getInt pack).bind fun (numLogs, s) => (readMany (getEntry C) numLogs.toNat s).map Prod.fst

/-- The writes of the pack loop, from `index` on. -/
def insertAll (logs : ExtTreeMap Nat LogEntry) : Nat → List LogEntry → ExtTreeMap Nat LogEntry
  | _, [] => logs
  | index, le :: les => insertAll (logs.insert index le) (index + 1) les

/-- Afterwards `start_idx_` is the first index above 0, or 1. -/
def applyPack (C : LogEntryCodec) (s : InmemLogStore) (index : Nat) (pack : Bytes) : Option InmemLogStore :=
  (unpack C pack).map fun les =>
    let logs := insertAll s.logs index les
    ⟨(logs.keys.find? fun i => 0 < i).getD 1, logs⟩

def compact (s : InmemLogStore) (lastLogIndex : Nat) : InmemLogStore where
  logs := s.logs.filter fun i _ => ¬ (s.startIdx ≤ i ∧ i ≤ lastLogIndex)
  startIdx := if s.startIdx ≤ lastLogIndex then lastLogIndex + 1 else s.startIdx

/-! ## Entries after each operation -/

@[simp] theorem startIdx_mk' (n : Nat) : (mk' n).startIdx = n + 1 := rfl

@[simp] theorem nextSlot_mk' (n : Nat) : (mk' n).nextSlot = n + 1 := by
  simp [nextSlot, mk', ExtTreeMap.size_insert]

theorem getElem?_mk' (n i : Nat) : (mk' n).logs[i]? = if i = 0 then some ⟨0, List.replicate 8 0, .appLog⟩ else none := by
  simp only [mk', ExtTreeMap.getElem?_insert, Std.compare_eq_iff_eq, ExtTreeMap.getElem?_empty, eq_comm (a := 0)]

/-- The WAL record an entry asks for. -/
def walWrites (idx : Nat) (e : LogEntry) : List WalWrite :=
  if e.valType = .appLog then [(idx, e.buf.drop 4)] else []

theorem append_eq_ok {s s' : InmemLogStore} {e : LogEntry} {idx : Nat} {ws : List WalWrite}
    (h : s.append e = .ok (s', idx, ws)) :
    idx = s.nextSlot ∧ s' = { s with logs := s.logs.insert s.nextSlot e } ∧ ws = walWrites idx e := by
  unfold append at h
  simp only at h
  split at h
  · rename_i ha
    split at h
    · cases h
    · rename_i c hc
      cases h
      exact ⟨rfl, rfl, by rw [walWrites, if_pos ha, (LogEntry.content_eq_ok.mp hc).2]⟩
  · rename_i ha
    cases h
    exact ⟨rfl, rfl, by rw [walWrites, if_neg ha]⟩

theorem four_le_of_append {s s' : InmemLogStore} {e : LogEntry} {idx : Nat} {ws : List WalWrite}
    (h : s.append e = .ok (s', idx, ws)) (he : e.valType = .appLog) : 4 ≤ e.buf.length := by
  unfold append at h
  simp only [if_pos he] at h
  split at h
  · cases h
  · rename_i c hc
    exact (LogEntry.content_eq_ok.mp hc).1

theorem writeAt_eq_ok {s s' : InmemLogStore} {index : Nat} {e : LogEntry} {ws : List WalWrite}
    (h : s.writeAt index e = .ok (s', ws)) :
    s' = { s with logs := (s.logs.filter fun i _ => i < index).insert index e } ∧ ws = walWrites index e := by
  unfold writeAt at h
  simp only at h
  split at h
  · cases h
  · rename_i c hc
    cases h
    refine ⟨rfl, ?_⟩
    rw [walWrites, (LogEntry.content_eq_ok.mp hc).2]

theorem append_of_le {s : InmemLogStore} {e : LogEntry} (h : 4 ≤ e.buf.length) :
    s.append e = .ok ({ s with logs := s.logs.insert s.nextSlot e }, s.nextSlot, walWrites s.nextSlot e) := by
  have hc : e.content = .ok (e.buf.drop 4) := LogEntry.content_eq_ok.mpr ⟨h, rfl⟩
  unfold append walWrites
  simp only [hc]
  split <;> rfl

theorem writeAt_of_le {s : InmemLogStore} {e : LogEntry} (h : 4 ≤ e.buf.length) (index : Nat) :
    s.writeAt index e =
      .ok ({ s with logs := (s.logs.filter fun i _ => i < index).insert index e }, walWrites index e) := by
  have hc : e.content = .ok (e.buf.drop 4) := LogEntry.content_eq_ok.mpr ⟨h, rfl⟩
  simp only [writeAt, hc, walWrites]

theorem getElem?_filter_key (m : ExtTreeMap Nat LogEntry) (p : Nat → Bool) (i : Nat) :
    (m.filter fun k _ => p k)[i]? = if p i then m[i]? else none := by
  rw [ExtTreeMap.getElem?_filter]
  simp only [ExtTreeMap.getKey_eq]
  cases m[i]? with
  | none => simp
  | some e => simp [Option.filter_some]

theorem getElem?_insert_nat (m : ExtTreeMap Nat LogEntry) (k i : Nat) (e : LogEntry) :
    (m.insert k e)[i]? = if i = k then some e else m[i]? := by
  simp only [ExtTreeMap.getElem?_insert, Std.compare_eq_iff_eq, eq_comm (a := k)]

theorem getElem?_insertAll (les : List LogEntry) (m : ExtTreeMap Nat LogEntry) (index i : Nat) :
    (insertAll m index les)[i]? = if index ≤ i ∧ i < index + les.length then les[i - index]? else m[i]? := by
  induction les generalizing m index with
  | nil => rw [insertAll, if_neg (by simp)]
  | cons le les ih =>
    rw [insertAll, ih, getElem?_insert_nat, List.length_cons]
    by_cases h1 : i = index
    · subst h1
      rw [if_neg (by omega), if_pos rfl, if_pos (by omega), Nat.sub_self, List.getElem?_cons_zero]
    · by_cases h2 : index + 1 ≤ i ∧ i < index + 1 + les.length
      · rw [if_pos h2, if_pos (by omega), show i - index = i - (index + 1) + 1 by omega, List.getElem?_cons_succ]
      · rw [if_neg h2, if_neg h1, if_neg (by omega)]

theorem getElem?_compact (s : InmemLogStore) (n i : Nat) :
    (s.compact n).logs[i]? = if s.startIdx ≤ i ∧ i ≤ n then none else s.logs[i]? := by
  have h := getElem?_filter_key s.logs (fun i => decide (¬ (s.startIdx ≤ i ∧ i ≤ n))) i
  unfold compact
  rw [h]
  by_cases hc : s.startIdx ≤ i ∧ i ≤ n
  · rw [if_pos hc, if_neg (by simp [hc])]
  · rw [if_neg hc, if_pos (decide_eq_true hc)]

theorem applyPack_eq_some {C : LogEntryCodec} {s s' : InmemLogStore} {index : Nat} {pack : Bytes}
    (h : applyPack C s index pack = some s') :
    ∃ les, unpack C pack = some les ∧ s'.logs = insertAll s.logs index les ∧
      s'.startIdx = (s'.logs.keys.find? fun i => 0 < i).getD 1 := by
  obtain ⟨les, hu, rfl⟩ := Option.map_eq_some_iff.mp h
  exact ⟨les, hu, rfl, rfl⟩

/-! ## Contiguity -/

/-- The keys are 0, for the dummy, and the indices from `startIdx` up to `nextSlot`. -/
structure Contiguous (s : InmemLogStore) : Prop where
  start_pos : 1 ≤ s.startIdx
  start_le : s.startIdx ≤ s.nextSlot
  isSome_iff : ∀ i, (s.logs[i]?).isSome = true ↔ i = 0 ∨ (s.startIdx ≤ i ∧ i < s.nextSlot)

theorem keys_of_isSome {m : ExtTreeMap Nat LogEntry} {a b : Nat} (ha : 1 ≤ a)
    (h : ∀ i, (m[i]?).isSome = true ↔ i = 0 ∨ (a ≤ i ∧ i < b)) : m.keys = 0 :: List.range' a (b - a) := by
  have hsorted : (0 :: List.range' a (b - a)).Pairwise (· < ·) := by
    refine List.pairwise_cons.mpr ⟨fun i hi => ?_, List.pairwise_lt_range'⟩
    rw [List.mem_range'_1] at hi
    omega
  refine (m.ordered_keys.imp fun h => Std.compare_eq_lt.mp h).eq_of_mem_iff hsorted fun {i} => ?_
  rw [ExtTreeMap.mem_keys, ExtTreeMap.mem_iff_isSome_getElem?, h i, List.mem_cons, List.mem_range'_1]
  omega

theorem contiguous_of_isSome {s : InmemLogStore} {b : Nat} (hs : 1 ≤ s.startIdx) (hb : s.startIdx ≤ b)
    (h : ∀ i, (s.logs[i]?).isSome = true ↔ i = 0 ∨ (s.startIdx ≤ i ∧ i < b)) : s.nextSlot = b ∧ s.Contiguous := by
  have hnext : s.nextSlot = b := by
    rw [nextSlot, ← ExtTreeMap.length_keys, keys_of_isSome hs h, List.length_cons, List.length_range']
    omega
  exact ⟨hnext, hs, hnext ▸ hb, hnext ▸ h⟩

theorem contiguous_mk' (n : Nat) : (mk' n).Contiguous := by
  apply (contiguous_of_isSome (b := n + 1) _ _ _).2
  · exact Nat.succ_le_succ n.zero_le
  · exact Nat.le_refl _
  · intro i
    rw [getElem?_mk', startIdx_mk']
    by_cases hi : i = 0
    · simp [hi]
    · simp [hi]

namespace Contiguous
variable {s s' : InmemLogStore}

/-- The range of the log, read off the map. -/
theorem mem_range_iff (h : s.Contiguous) {i : Nat} :
    s.startIdx ≤ i ∧ i < s.nextSlot ↔ i ≠ 0 ∧ (s.logs[i]?).isSome = true := by
  have h1 := h.start_pos
  rw [h.isSome_iff i]
  omega

theorem append (h : s.Contiguous) {e : LogEntry} {idx : Nat} {ws : List WalWrite} (ha : s.append e = .ok (s', idx, ws)) :
    s'.nextSlot = s.nextSlot + 1 ∧ s'.Contiguous := by
  obtain ⟨-, hs', -⟩ := append_eq_ok ha
  have h1 := h.start_pos
  have h2 := h.start_le
  have hstart : s'.startIdx = s.startIdx := by rw [hs']
  have hlogs : s'.logs = s.logs.insert s.nextSlot e := by rw [hs']
  apply contiguous_of_isSome
  · omega
  · omega
  · intro i
    rw [hlogs, hstart, getElem?_insert_nat]
    split
    · simp only [Option.isSome_some, true_iff]
      omega
    · rw [h.isSome_iff i]
      omega

theorem writeAt (h : s.Contiguous) {index : Nat} (hi : s.startIdx ≤ index ∧ index ≤ s.nextSlot) {e : LogEntry}
    {ws : List WalWrite} (hw : s.writeAt index e = .ok (s', ws)) : s'.nextSlot = index + 1 ∧ s'.Contiguous := by
  obtain ⟨hs', -⟩ := writeAt_eq_ok hw
  have h1 := h.start_pos
  have hstart : s'.startIdx = s.startIdx := by rw [hs']
  have hlogs : s'.logs = (s.logs.filter fun i _ => i < index).insert index e := by rw [hs']
  apply contiguous_of_isSome
  · omega
  · omega
  · intro i
    rw [hlogs, hstart, getElem?_insert_nat, getElem?_filter_key]
    split
    · simp only [Option.isSome_some, true_iff]
      omega
    · simp only [decide_eq_true_eq]
      split
      · rw [h.isSome_iff i]
        omega
      · simp only [Option.isSome_none, Bool.false_eq_true, false_iff]
        omega

theorem compact (h : s.Contiguous) (n : Nat) : (s.compact n).nextSlot = max s.nextSlot (s.compact n).startIdx ∧
    (s.compact n).Contiguous := by
  have h1 := h.start_pos
  have h2 := h.start_le
  have hstart : (s.compact n).startIdx = if s.startIdx ≤ n then n + 1 else s.startIdx := rfl
  apply contiguous_of_isSome
  · rw [hstart]
    split <;> omega
  · exact Nat.le_max_right _ _
  · intro i
    rw [getElem?_compact, hstart]
    have hi := h.isSome_iff i
    split
    · rw [if_pos (by omega)]
      simp only [Option.isSome_none, Bool.false_eq_true, false_iff]
      omega
    · rw [hi]
      split <;> omega

/-- A store whose start is its first index above 0, or 1. -/
theorem of_first_key {a b : Nat} (ha : 1 ≤ a) (hk : ∀ i, (s.logs[i]?).isSome = true ↔ i = 0 ∨ (a ≤ i ∧ i < b))
    (hs : s.startIdx = (s.logs.keys.find? fun i => 0 < i).getD 1) : s.Contiguous := by
  rw [keys_of_isSome ha hk, List.find?_cons_of_neg (by decide)] at hs
  rcases Nat.lt_or_ge a b with hab | hab
  · obtain ⟨n, hn⟩ : ∃ n, b - a = n + 1 := ⟨b - a - 1, by omega⟩
    have hpos : 0 < a := ha
    rw [hn, List.range'_succ, List.find?_cons_of_pos (by simpa using hpos), Option.getD_some] at hs
    refine (contiguous_of_isSome ?_ (hs ▸ hab.le) (hs ▸ hk)).2
    omega
  · rw [Nat.sub_eq_zero_of_le hab, List.range'_zero, List.find?_nil, Option.getD_none] at hs
    refine (contiguous_of_isSome (b := 1) ?_ ?_ fun i => ?_).2
    · omega
    · omega
    · rw [hk i]
      omega

/-- The pack goes to the end of the log, or into an empty one. -/
theorem applyPack (h : s.Contiguous) {C : LogEntryCodec} {index : Nat} {pack : Bytes}
    (hi : index = s.nextSlot ∨ s.startIdx = s.nextSlot) (hp : applyPack C s index pack = some s') : s'.Contiguous := by
  have h1 := h.start_pos
  have h2 := h.start_le
  obtain ⟨les, -, hlogs, hstart⟩ := applyPack_eq_some hp
  have hk : ∀ i, (s'.logs[i]?).isSome = true ↔
      (index ≤ i ∧ i < index + les.length) ∨ i = 0 ∨ (s.startIdx ≤ i ∧ i < s.nextSlot) := by
    intro i
    rw [hlogs, getElem?_insertAll]
    split
    · have hlt : i - index < les.length := by omega
      simp only [List.getElem?_eq_getElem hlt, Option.isSome_some, true_iff]
      omega
    · rw [h.isSome_iff i]
      omega
  rcases hi with hi | hi
  · refine of_first_key (b := index + les.length) h1 (fun i => ?_) hstart
    rw [hk i]
    omega
  · refine of_first_key (a := max 1 index) (b := index + les.length) (Nat.le_max_left _ _) (fun i => ?_) hstart
    rw [hk i]
    omega

end Contiguous

end InmemLogStore
end VectorDb
