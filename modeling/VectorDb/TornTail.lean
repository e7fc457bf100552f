import VectorDb.StateMachine

/-!
# The WAL after a crash during a write

* `readStream` : the calls of a reload, with the `eofbit` in which they leave the stream: a record that is read from
  an unterminated last line sets it, and only the end of the reading loop clears it;
* `cut` : the complete records of a truncated file, and the part of a line after them;
* `readStream_cons` : what one line does; `readStream_records` : complete records in front of other lines;
* `recovers_iff` : a reload hands over the complete records, and the next one reads what was appended, exactly when
  the complete ones can be upserted and nothing that matters is left of the torn one.
-/

namespace VectorDb
namespace Persistence

/-! ## The state of the stream -/

/-- The file ends within a line. -/
def unterminated (content : Bytes) : Bool := content ≠ [] && content.getLast? ≠ some newline

/-- `wal_log_file_` with its `eofbit`. -/
structure WalStream where
  persistence : Persistence
  eofbit : Bool

/-- The state a call leaves: a record that ends at the end of the file; the end of the loop, which logs no id,
clears the state. -/
def WalRead.eofbit (r : WalRead) : Bool :=
  r.logId ≠ 0 && r.persistence.walLogFile.unread.isEmpty && unterminated r.persistence.walLogFile.content

/-- The `operator<<` of a stream that is not good writes nothing. -/
def WalStream.writeWALRawLog (w : WalStream) (r : WalRecord) : WalStream :=
  if w.eofbit then w else { w with persistence := w.persistence.writeWALRawLog r.logId r.operationType r.rawData r.version }

def WalStream.writeWALRawLogs (w : WalStream) (rs : List WalRecord) : WalStream := rs.foldl writeWALRawLog w

variable (parse : Bytes → Option Json)

/-- The calls of a reload, the first with the operation string `op`. -/
def readStream : Nat → Bytes → Persistence → Except Fault (List WalEntry × WalStream)
  | 0, _, p => .ok ([], ⟨p, false⟩)
  | fuel + 1, op, p =>
    match readNextWALLog parse p op .null with
    | .error f => .error f
    | .ok r =>
      if r.operationType = [] then .ok ([], ⟨r.persistence, r.eofbit⟩)
      else
        match readStream fuel [] r.persistence with
        | .error f => .error f
        | .ok (es, w) => .ok (⟨r.logId, r.operationType, r.jsonData⟩ :: es, w)

def readWALStream (p : Persistence) : Except Fault (List WalEntry × WalStream) :=
  readStream parse (p.walLogFile.unread.length + 1) [] p

/-- Up to the state of the stream it is `readAll`. -/
theorem readStream_eq (fuel : Nat) (p : Persistence) :
    (readStream parse fuel [] p).map (fun x => (x.1, x.2.persistence)) = readAll parse fuel p := by
  induction fuel generalizing p with
  | zero => rfl
  | succ fuel ih =>
    simp only [readStream, readAll]
    cases hr : readNextWALLog parse p [] .null with
    | error f => rfl
    | ok r =>
      by_cases hop : r.operationType = []
      · simp only [hop, if_true]
        rfl
      · simp only [hop, if_false, ← ih]
        cases readStream parse fuel [] r.persistence <;> rfl

theorem readWALStream_eq (p : Persistence) :
    (readWALStream parse p).map (fun x => (x.1, x.2.persistence)) = readWAL parse p := readStream_eq parse _ p

/-- Good streams get every record. -/
theorem content_writeWALRawLogs (w : WalStream) (rs : List WalRecord) :
    (w.writeWALRawLogs rs).persistence.walLogFile.content =
      if w.eofbit then w.persistence.walLogFile.content else w.persistence.walLogFile.content ++ fileOf rs := by
  induction rs generalizing w with
  | nil =>
    show w.persistence.walLogFile.content = _
    simp [fileOf]
  | cons r rs ih =>
    show ((w.writeWALRawLog r).writeWALRawLogs rs).persistence.walLogFile.content = _
    rw [ih]
    cases hw : w.eofbit with
    | true => simp [WalStream.writeWALRawLog, hw]
    | false =>
      have hc : (w.writeWALRawLog r).persistence.walLogFile.content =
          w.persistence.walLogFile.content ++ (r.line ++ [newline]) := by
        simp [WalStream.writeWALRawLog, hw, Persistence.writeWALRawLog, WalRecord.line]
      have hb : (w.writeWALRawLog r).eofbit = false := by simp [WalStream.writeWALRawLog, hw]
      rw [hc, hb, fileOf_cons, List.append_assoc]
      rfl

/-! ## One line -/

/-- **One line**: it ends the reload, it is delivered, or it is skipped and leaves its operation behind. -/
theorem readStream_cons {l idStr op op' data : Bytes} {n : Nat} (hf : walFields l op = (idStr, op', data))
    (hn : stoull idStr = .ok n) (fuel : Nat) (ls : List Bytes) (p : Persistence) :
    readStream parse (fuel + 1) op (p.withUnread (l :: ls)) =
      if p.lastSnapshotID < n then
        if op' = [] then .ok ([], ⟨(p.bump n).withUnread ls, ls.isEmpty && unterminated p.walLogFile.content⟩)
        else (readStream parse fuel [] ((p.bump n).withUnread ls)).map fun x =>
          (⟨n, op', (parse (cstr data)).getD .null⟩ :: x.1, x.2)
      else readStream parse (fuel + 1) op' ((p.bump n).withUnread ls) := by
  by_cases hid : p.lastSnapshotID < n
  · have hpos : n ≠ 0 := Nat.ne_of_gt (Nat.zero_lt_of_lt hid)
    have hread : readNextWALLog parse (p.withUnread (l :: ls)) op .null =
        .ok ⟨(p.bump n).withUnread ls, op', (parse (cstr data)).getD .null, n⟩ := by
      rw [readNextWALLog, unread_withUnread, readLines_withUnread]
      simp only [readLines, hf, hn, lastSnapshotID_bump, if_pos hid, withUnread]
    simp only [readStream, hread, if_pos hid]
    by_cases hop : op' = []
    · simp only [hop, if_true, WalRead.eofbit, unread_withUnread]
      simp [hpos, withUnread, bump]
    · simp only [hop, if_false]
      cases readStream parse fuel [] ((p.bump n).withUnread ls) <;> rfl
  · have hread : readNextWALLog parse (p.withUnread (l :: ls)) op .null =
        readNextWALLog parse ((p.bump n).withUnread ls) op' .null := by
      rw [readNextWALLog, readNextWALLog, unread_withUnread, unread_withUnread, readLines_withUnread, readLines_withUnread]
      simp only [readLines, hf, hn, lastSnapshotID_bump, if_neg hid]
    rw [if_neg hid]
    simp only [readStream, hread]

/-- A line whose id is no number ends the reload with an exception. -/
theorem readStream_error {l op : Bytes} {e : StoError} (hn : stoull (walFields l op).1 = .error e) (fuel : Nat)
    (ls : List Bytes) (p : Persistence) :
    readStream parse (fuel + 1) op (p.withUnread (l :: ls)) = .error (.sto e) := by
  simp only [readStream, readNextWALLog, unread_withUnread, readLines, hn]

theorem readStream_end (fuel : Nat) (op : Bytes) (p : Persistence) :
    readStream parse (fuel + 1) op (p.withUnread []) = .ok ([], ⟨p.withUnread [], false⟩) := by
  simp only [readStream, readNextWALLog, unread_withUnread, readLines, if_true]
  rfl

/-- The operation string that the next line finds: a skipped record leaves its own, a delivered one a cleared string. -/
def staleOperation (cutoff : Nat) (op : Bytes) (rs : List WalRecord) : Bytes :=
  rs.foldl (fun _ r => if cutoff < r.logId then [] else r.operationType) op

/-- **Complete records** in front of other lines. -/
theorem readStream_records {rs : List WalRecord} (h : ∀ r ∈ rs, r.Framed) (ls : List Bytes) (k : Nat) (op : Bytes)
    (p : Persistence) :
    readStream parse (k + 1 + (p.replayed rs).length) op (p.withUnread (rs.map WalRecord.line ++ ls)) =
      (readStream parse (k + 1) (staleOperation p.lastSnapshotID op rs) ((p.bumpAll rs).withUnread ls)).map fun x =>
        ((p.replayed rs).map (WalRecord.entry parse) ++ x.1, x.2) := by
  induction rs generalizing p op with
  | nil =>
    change readStream parse (k + 1) op (p.withUnread ls) = (readStream parse (k + 1) op (p.withUnread ls)).map _
    cases readStream parse (k + 1) op (p.withUnread ls) <;> rfl
  | cons r rs ih =>
    have hr := h r List.mem_cons_self
    have ih' := fun op => ih (fun x hx => h x (List.mem_cons_of_mem _ hx)) op (p.bump r.logId)
    simp only [replayed_bump, lastSnapshotID_bump] at ih'
    have hcons := fun fuel => readStream_cons parse (hr.walFields_line op) (stoull_decimal hr.logId_lt) fuel
      (rs.map WalRecord.line ++ ls) p
    by_cases hid : p.lastSnapshotID < r.logId
    · have hrep : p.replayed (r :: rs) = r :: p.replayed rs := by simp [replayed, hid]
      have hstale : staleOperation p.lastSnapshotID op (r :: rs) = staleOperation p.lastSnapshotID [] rs := by
        simp [staleOperation, hid]
      rw [hrep, List.length_cons, List.map_cons, List.cons_append, ← Nat.add_assoc, hcons, if_pos hid,
        if_neg hr.operation_ne, ih', hstale]
      change _ = (readStream parse (k + 1) _ (((p.bump r.logId).bumpAll rs).withUnread ls)).map _
      cases readStream parse (k + 1) (staleOperation p.lastSnapshotID [] rs) (((p.bump r.logId).bumpAll rs).withUnread ls)
      · rfl
      · rfl
    · have hrep : p.replayed (r :: rs) = p.replayed rs := by simp [replayed, hid]
      have hstale : staleOperation p.lastSnapshotID op (r :: rs) = staleOperation p.lastSnapshotID r.operationType rs := by
        simp [staleOperation, hid]
      rw [hrep, List.map_cons, List.cons_append, Nat.add_right_comm, hcons, if_neg hid, Nat.add_right_comm, ih', hstale]
      rfl

theorem replayed_length_le (p : Persistence) (rs : List WalRecord) : (p.replayed rs).length ≤ rs.length :=
  List.length_filter_le _ _

theorem readStream_framed {rs : List WalRecord} (h : ∀ r ∈ rs, r.Framed) {fuel : Nat} (hf : rs.length < fuel) (op : Bytes)
    (p : Persistence) : readStream parse fuel op (p.withUnread (rs.map WalRecord.line)) =
      .ok ((p.replayed rs).map (WalRecord.entry parse), ⟨(p.bumpAll rs).withUnread [], false⟩) := by
  have hlen := replayed_length_le p rs
  obtain ⟨k, rfl⟩ : ∃ k, fuel = k + 1 + (p.replayed rs).length := ⟨fuel - (p.replayed rs).length - 1, by omega⟩
  have hread := readStream_records parse h [] k op p
  rw [List.append_nil] at hread
  rw [hread, readStream_end]
  simp [Except.map]

theorem framed_nil : ∀ r ∈ ([] : List WalRecord), r.Framed := fun _ h => absurd h List.not_mem_nil

/-- The entries of records above the cutoff. -/
def delivered (cutoff : Option Nat) (rs : List WalRecord) : List WalEntry :=
  (rs.filter fun r => cutoff.getD 0 < r.logId).map (WalRecord.entry parse)

theorem delivered_append (cutoff : Option Nat) (rs ss : List WalRecord) :
    delivered parse cutoff (rs ++ ss) = delivered parse cutoff rs ++ delivered parse cutoff ss := by
  rw [delivered, List.filter_append, List.map_append]
  rfl

/-- The rest of a file behind complete records. -/
theorem readWALStream_records {cs : List WalRecord} (hcs : ∀ r ∈ cs, r.Framed) {content : Bytes} {ls : List Bytes}
    (hlines : lines content = cs.map WalRecord.line ++ ls) (cutoff : Option Nat) : ∃ k, ls.length ≤ k ∧
      readWALStream parse (init content cutoff) =
        (readStream parse (k + 1) (staleOperation (cutoff.getD 0) [] cs)
          (((init content cutoff).bumpAll cs).withUnread ls)).map fun x => (delivered parse cutoff cs ++ x.1, x.2) := by
  let p := init content cutoff
  have hunread : p.walLogFile.unread = cs.map WalRecord.line ++ ls := hlines
  have hlen := replayed_length_le p cs
  obtain ⟨k, hk, hlt⟩ : ∃ k, p.walLogFile.unread.length + 1 = k + 1 + (p.replayed cs).length ∧ ls.length ≤ k := by
    refine ⟨p.walLogFile.unread.length - (p.replayed cs).length, ?_, ?_⟩ <;>
      simp only [hunread, List.length_append, List.length_map] <;> omega
  have hread := readStream_records parse hcs ls k [] p
  rw [← hunread, withUnread_unread, ← hk] at hread
  exact ⟨k, hlt, hread⟩

/-- **A line between complete records.** -/
theorem readWALStream_line {cs rest : List WalRecord} (hcs : ∀ r ∈ cs, r.Framed) (hrest : ∀ r ∈ rest, r.Framed)
    {content l : Bytes} (hlines : lines content = cs.map WalRecord.line ++ l :: rest.map WalRecord.line)
    {cutoff : Option Nat} {idStr op' data : Bytes} {n : Nat}
    (hf : walFields l (staleOperation (cutoff.getD 0) [] cs) = (idStr, op', data)) (hn : stoull idStr = .ok n) :
    readWALStream parse (init content cutoff) =
      if cutoff.getD 0 < n ∧ op' = [] then
        .ok (delivered parse cutoff cs, ⟨(((init content cutoff).bumpAll cs).bump n).withUnread (rest.map WalRecord.line),
          rest.isEmpty && unterminated content⟩)
      else
        .ok (delivered parse cutoff cs ++ ((if cutoff.getD 0 < n then [⟨n, op', (parse (cstr data)).getD .null⟩] else []) ++
          delivered parse cutoff rest), ⟨((((init content cutoff).bumpAll cs).bump n).bumpAll rest).withUnread [], false⟩) := by
  let q := (init content cutoff).bumpAll cs
  have hcut : q.lastSnapshotID = cutoff.getD 0 := lastSnapshotID_bumpAll _ cs
  have hcontent : q.walLogFile.content = content := congrArg WalFile.content (walLogFile_bumpAll _ cs)
  obtain ⟨k, hlt, hread⟩ := readWALStream_records parse hcs hlines cutoff
  rw [List.length_cons, List.length_map] at hlt
  have hline := readStream_cons parse hf hn k (rest.map WalRecord.line) q
  have hrest' : ∀ (op : Bytes) (fuel : Nat), rest.length < fuel →
      readStream parse fuel op ((q.bump n).withUnread (rest.map WalRecord.line)) =
        .ok (delivered parse cutoff rest, ⟨((q.bump n).bumpAll rest).withUnread [], false⟩) := by
    intro op fuel hfuel
    rw [readStream_framed parse hrest hfuel, delivered, ← hcut]
    rfl
  rw [hread, hline, hcut, hcontent]
  by_cases hid : cutoff.getD 0 < n
  · by_cases hop : op' = []
    · rw [if_pos hid, if_pos hop, if_pos ⟨hid, hop⟩, List.isEmpty_map]
      simp only [Except.map, List.append_nil]
      rfl
    · rw [if_pos hid, if_neg hop, if_neg (fun h => hop h.2), hrest' [] k hlt, if_pos hid]
      rfl
  · rw [if_neg hid, if_neg (fun h => hid h.1), hrest' op' (k + 1) (Nat.lt_succ_of_lt hlt), if_neg hid]
    rfl

theorem fst_readWAL_of_stream {p : Persistence} {x : List WalEntry × WalStream} (h : readWALStream parse p = .ok x) :
    (readWAL parse p).map Prod.fst = .ok x.1 := by
  rw [← readWALStream_eq, h]
  rfl

/-! ## A truncated file -/

/-- The complete records among the first `n` bytes, and what is left of the next one. -/
def cut : List WalRecord → Nat → List WalRecord × Bytes
  | [], _ => ([], [])
  | r :: rs, n =>
    if r.line.length < n then
      let (cs, torn) := cut rs (n - (r.line.length + 1))
      (r :: cs, torn)
    else ([], r.line.take n)

theorem take_fileOf (rs : List WalRecord) (n : Nat) : (fileOf rs).take n = fileOf (cut rs n).1 ++ (cut rs n).2 := by
  induction rs generalizing n with
  | nil => simp [fileOf, cut]
  | cons r rs ih =>
    rw [fileOf_cons, cut]
    by_cases hn : r.line.length < n
    · have hle : (r.line ++ [newline]).length ≤ n := by
        rw [List.length_append]
        exact hn
      rw [if_pos hn, List.take_append, List.take_of_length_le hle, List.length_append, List.length_singleton, ih, ← List.append_assoc,
        ← fileOf_cons]
    · have hle : n ≤ r.line.length := Nat.not_lt.mp hn
      rw [if_neg hn, List.append_assoc, List.take_append_of_le_length hle]
      rfl

theorem prefix_cut (rs : List WalRecord) (n : Nat) : (cut rs n).1 <+: rs := by
  induction rs generalizing n with
  | nil => exact List.prefix_rfl
  | cons r rs ih =>
    rw [cut]
    split
    · exact List.cons_prefix_cons.mpr ⟨rfl, ih _⟩
    · exact List.nil_prefix

theorem cut_torn (rs : List WalRecord) (n : Nat) : (cut rs n).2 = [] ∨ ∃ r ∈ rs, (cut rs n).2 <+: r.line := by
  induction rs generalizing n with
  | nil => exact Or.inl rfl
  | cons r rs ih =>
    rw [cut]
    split
    · rcases ih (n - (r.line.length + 1)) with h | ⟨x, hx, h⟩
      · exact Or.inl h
      · exact Or.inr ⟨x, List.mem_cons_of_mem _ hx, h⟩
    · exact Or.inr ⟨r, List.mem_cons_self, List.take_prefix _ _⟩

theorem lines_torn {cs : List WalRecord} (hcs : ∀ r ∈ cs, r.Framed) {torn : Bytes} (hn : newline ∉ torn) (hne : torn ≠ []) :
    lines (fileOf cs ++ torn) = cs.map WalRecord.line ++ [torn] := by
  rw [lines_fileOf_append hcs, lines_unterminated hn hne]

/-- The first record appended after a torn one is on its line. -/
theorem lines_merged {cs rest : List WalRecord} (hcs : ∀ r ∈ cs, r.Framed) {r : WalRecord} (hr : r.Framed)
    (hrest : ∀ r ∈ rest, r.Framed) {torn : Bytes} (hn : newline ∉ torn) :
    lines (fileOf cs ++ torn ++ fileOf (r :: rest)) = cs.map WalRecord.line ++ (torn ++ r.line) :: rest.map WalRecord.line := by
  have hnl : newline ∉ torn ++ r.line := by
    rw [List.mem_append, not_or]
    exact ⟨hn, hr.notMem_line⟩
  have happ : torn ++ fileOf (r :: rest) = (torn ++ r.line) ++ newline :: fileOf rest := by
    rw [fileOf_cons, List.append_assoc, List.append_assoc]
    rfl
  rw [List.append_assoc, lines_fileOf_append hcs, happ, lines_append_newline hnl, lines_fileOf hrest]

theorem unterminated_torn (s : Bytes) {torn : Bytes} (hn : newline ∉ torn) (hne : torn ≠ []) :
    unterminated (s ++ torn) = true := by
  have hlast : (s ++ torn).getLast? = some (torn.getLast hne) := by
    rw [List.getLast?_append, List.getLast?_eq_some_getLast hne, Option.some_or]
  have hne' : torn.getLast hne ≠ newline := fun h => hn (h ▸ List.getLast_mem hne)
  simp [unterminated, hlast, hne, hne']

/-! ## The fields of a torn line -/

theorem walFields_fst (l op : Bytes) : (walFields l op).1 = l.takeWhile (· ≠ bar) := by
  simp [walFields, IStream.getline, IStream.of]

theorem walFields_id {ds : Bytes} (hd : bar ∉ ds) (op : Bytes) : walFields ds op = (ds, op, []) := by
  simp only [walFields, IStream.getline_last hd, IStream.getline_ended]

theorem walFields_version {ds ver : Bytes} (hd : bar ∉ ds) (hv : bar ∉ ver) (op : Bytes) :
    walFields (ds ++ bar :: ver) op = (ds, op, []) := by
  simp only [walFields, IStream.getline_append hd, IStream.getline_last hv, IStream.getline_ended]

theorem walFields_operation {ds ver o : Bytes} (hd : bar ∉ ds) (hv : bar ∉ ver) (ho : bar ∉ o) (op : Bytes) :
    walFields (ds ++ bar :: (ver ++ bar :: o)) op = (ds, o, []) := by
  simp only [walFields, IStream.getline_append hd, IStream.getline_append hv, IStream.getline_last ho, IStream.getline_ended]

theorem walFields_data {ds ver o : Bytes} (hd : bar ∉ ds) (hv : bar ∉ ver) (ho : bar ∉ o) (data op : Bytes) :
    walFields (ds ++ bar :: (ver ++ bar :: (o ++ bar :: data))) op = (ds, o, data.takeWhile (· ≠ bar)) := by
  simp only [walFields, IStream.getline_append hd, IStream.getline_append hv, IStream.getline_append ho]
  rfl

theorem prefix_append_cons {a b s : Bytes} {c : UInt8} (h : s <+: a ++ c :: b) :
    s <+: a ∨ ∃ s', s = a ++ c :: s' ∧ s' <+: b := by
  rcases List.prefix_or_prefix_of_prefix h (List.prefix_append a _) with h' | ⟨t, rfl⟩
  · exact Or.inl h'
  · rw [List.prefix_append_right_inj] at h
    cases t with
    | nil => exact Or.inl (by rw [List.append_nil])
    | cons x t =>
      obtain ⟨rfl, ht⟩ := List.cons_prefix_cons.mp h
      exact Or.inr ⟨t, rfl, ht⟩

theorem notMem_of_prefix {a b : Bytes} {c : UInt8} (h : a <+: b) (hc : c ∉ b) : c ∉ a := fun hm => hc (h.mem hm)

/-- The line ends in its id, or behind it. -/
theorem WalRecord.Framed.torn_cases {r : WalRecord} (h : r.Framed) (hbar : bar ∉ r.rawData) {torn : Bytes}
    (ht : torn <+: r.line) : torn <+: decimal r.logId ∨ (∃ ver, bar ∉ ver ∧ torn = decimal r.logId ++ bar :: ver) ∨
      (∃ o, bar ∉ o ∧ torn = decimal r.logId ++ bar :: (r.version ++ bar :: o)) ∨
      ∃ d, bar ∉ d ∧ torn = decimal r.logId ++ bar :: (r.version ++ bar :: (r.operationType ++ bar :: d)) := by
  rcases prefix_append_cons ht with ht | ⟨s₁, rfl, h₁⟩
  · exact Or.inl ht
  · rcases prefix_append_cons h₁ with h₁ | ⟨s₂, rfl, h₂⟩
    · exact Or.inr (Or.inl ⟨s₁, notMem_of_prefix h₁ h.bar_version, rfl⟩)
    · rcases prefix_append_cons h₂ with h₂ | ⟨s₃, rfl, h₃⟩
      · exact Or.inr (Or.inr (Or.inl ⟨s₂, notMem_of_prefix h₂ h.bar_operation, rfl⟩))
      · exact Or.inr (Or.inr (Or.inr ⟨s₃, notMem_of_prefix h₃ hbar, rfl⟩))

/-! ## What a torn line does to the next reload -/

/-- The record of the largest id. -/
def lastRecord : WalRecord := VectorDatabase.upsertRecord (2 ^ 64 - 1) []

theorem lastRecord_framed : lastRecord.Framed := VectorDatabase.upsertRecord_framed (by decide) (by simp)

theorem delivered_lastRecord {cutoff : Option Nat} (h : cutoff.getD 0 < 2 ^ 64 - 1) :
    delivered parse cutoff [lastRecord] = [lastRecord.entry parse] := by
  have hid : lastRecord.logId = 2 ^ 64 - 1 := rfl
  rw [delivered, List.filter_cons, hid, if_pos (decide_eq_true h)]
  rfl

/-- The id in front of a record's line takes the id of the record in. -/
theorem walFields_fst_append {ds : Bytes} (hd : bar ∉ ds) (r : WalRecord) (op : Bytes) :
    (walFields (ds ++ r.line) op).1 = ds ++ decimal r.logId := by
  have hbar : bar ∉ ds ++ decimal r.logId := by
    rw [List.mem_append, not_or]
    exact ⟨hd, notMem_decimal (by decide) _⟩
  rw [walFields_fst, WalRecord.line, walLine, ← List.append_assoc, takeWhile_ne_append hbar]

/-- A nonzero prefix makes the largest id too large. -/
theorem stoull_append_lastRecord {n : Nat} {ds : Bytes} (h : ds <+: decimal n) (hne : ds ≠ []) (h0 : ds ≠ [48]) :
    stoull (ds ++ decimal lastRecord.logId) = .error .outOfRange := by
  have hdigits : ∀ c ∈ ds ++ decimal lastRecord.logId, isDigit c = true := by
    intro c hc
    rcases List.mem_append.mp hc with hc | hc
    · exact isDigit_of_mem_decimal (h.mem hc)
    · exact isDigit_of_mem_decimal hc
  have hval : digitsVal (ds ++ decimal lastRecord.logId) =
      digitsVal ds * 10 ^ (decimal lastRecord.logId).length + (2 ^ 64 - 1) := by
    rw [digitsVal_append_digits, digitsVal_decimal]
    rfl
  have hpos : 0 < digitsVal ds * 10 ^ (decimal lastRecord.logId).length :=
    Nat.mul_pos (digitsVal_pos_of_prefix_decimal h hne h0) (Nat.pow_pos (by decide))
  rw [stoull_digits hdigits (by simp [hne]), if_pos (by omega)]

theorem stoull_of_prefix_decimal {n : Nat} (hn : n < 2 ^ 64) {ds : Bytes} (h : ds <+: decimal n) (hne : ds ≠ []) :
    stoull ds = .ok (digitsVal ds) := by
  have hle := digitsVal_le_of_prefix_decimal h
  rw [stoull_digits (fun c hc => isDigit_of_mem_decimal (h.mem hc)) hne, if_neg (by omega)]

/-- A line torn behind its id takes the next record in: the merged line keeps the id, and is no upsert unless the torn
one was. -/
theorem WalRecord.Framed.merged_cases {r : WalRecord} (h : r.Framed) (hbar : bar ∉ r.rawData) {torn : Bytes}
    (ht : torn <+: r.line) (hb : bar ∈ torn) (op : Bytes) : ∃ op₁ data₁ op₂ data₂,
      walFields torn op = (decimal r.logId, op₁, data₁) ∧
      (∀ op', walFields (torn ++ lastRecord.line) op' = (decimal r.logId, op₂, data₂)) ∧ op₂ ≠ [] ∧
      (op₁ ≠ VectorDatabase.operationUpsert → op₂ ≠ VectorDatabase.operationUpsert) := by
  have hd : ∀ n, bar ∉ decimal n := fun n => notMem_decimal (by decide) n
  have hline : lastRecord.line = decimal lastRecord.logId ++ bar :: (VectorDatabase.walVersion ++
      bar :: (VectorDatabase.operationUpsert ++ bar :: [])) := rfl
  have hversion := VectorDatabase.notMem_walVersion.1
  have hupsert := VectorDatabase.notMem_operationUpsert.1
  rcases h.torn_cases hbar ht with ht | ⟨ver, hv, rfl⟩ | ⟨o, ho, rfl⟩ | ⟨d, -, rfl⟩
  · exact absurd (ht.mem hb) (hd _)
  · -- the version is cut: it takes the new id, and the new version is the operation
    have hv' : bar ∉ ver ++ decimal lastRecord.logId := by
      rw [List.mem_append, not_or]
      exact ⟨hv, hd _⟩
    have hm : ∀ op', walFields (decimal r.logId ++ bar :: ver ++ lastRecord.line) op' = (decimal r.logId,
        VectorDatabase.walVersion, (VectorDatabase.operationUpsert ++ bar :: []).takeWhile (· ≠ bar)) := by
      intro op'
      rw [hline, List.append_assoc, List.cons_append, ← List.append_assoc ver]
      exact walFields_data (hd _) hv' hversion _ op'
    exact ⟨_, _, _, _, walFields_version (hd _) hv op, hm, by decide, fun _ => by decide⟩
  · -- the operation is cut: it takes the new id
    have ho' : bar ∉ o ++ decimal lastRecord.logId := by
      rw [List.mem_append, not_or]
      exact ⟨ho, hd _⟩
    have hm : ∀ op', walFields (decimal r.logId ++ bar :: (r.version ++ bar :: o) ++ lastRecord.line) op' =
        (decimal r.logId, o ++ decimal lastRecord.logId,
          (VectorDatabase.walVersion ++ bar :: (VectorDatabase.operationUpsert ++ bar :: [])).takeWhile (· ≠ bar)) := by
      intro op'
      rw [hline, List.append_assoc, List.cons_append, List.append_assoc, List.cons_append, ← List.append_assoc o]
      exact walFields_data (hd _) h.bar_version ho' _ op'
    refine ⟨o, [], o ++ decimal lastRecord.logId, _, walFields_operation (hd _) h.bar_version ho op, hm, ?_, fun _ heq => ?_⟩
    · exact List.append_ne_nil_of_right_ne_nil o (decimal_ne_nil _)
    · -- no letter of `upsert` is a digit
      obtain ⟨c, hc⟩ := List.exists_mem_of_ne_nil _ (decimal_ne_nil lastRecord.logId)
      have hmem : c ∈ VectorDatabase.operationUpsert := heq ▸ List.mem_append_right o hc
      have hletters : ∀ x ∈ VectorDatabase.operationUpsert, isDigit x = false := by decide +kernel
      have hdigit := isDigit_of_mem_decimal hc
      rw [hletters c hmem] at hdigit
      cases hdigit
  · have hm : ∀ op', walFields (decimal r.logId ++ bar :: (r.version ++ bar :: (r.operationType ++ bar :: d)) ++
        lastRecord.line) op' = (decimal r.logId, r.operationType, (d ++ lastRecord.line).takeWhile (· ≠ bar)) := by
      intro op'
      rw [List.append_assoc, List.cons_append, List.append_assoc, List.cons_append, List.append_assoc, List.cons_append]
      exact walFields_data (hd _) h.bar_version h.bar_operation _ op'
    exact ⟨_, _, _, _, walFields_data (hd _) h.bar_version h.bar_operation d op, hm, h.operation_ne, id⟩

/-! ## Recovery -/

/-- A file of complete records and a torn line: its reload hands over the upserts among the complete ones above the
cutoff, and what is appended then is read by the next reload. -/
def Survives (cutoff : Option Nat) (cs : List WalRecord) (torn : Bytes) : Prop :=
  ∃ es w, readWALStream parse (init (fileOf cs ++ torn) cutoff) = .ok (es, w) ∧
    VectorDatabase.upserts es = VectorDatabase.upserts (delivered parse cutoff cs) ∧
    ∀ rs, (∀ r ∈ rs, r.Framed ∧ bar ∉ r.rawData) →
      (readWAL parse (init (w.writeWALRawLogs rs).persistence.walLogFile.content cutoff)).map Prod.fst =
        .ok (delivered parse cutoff (cs ++ rs))

/-- Nothing is left of the torn line, or the id 0, or a line under the largest cutoff. -/
def Harmless (cutoff : Option Nat) (torn : Bytes) : Prop :=
  torn = [] ∨ torn = [48] ∨ (bar ∈ torn ∧ 2 ^ 64 ≤ cutoff.getD 0 + 1)

section
variable {parse : Bytes → Option Json} {cutoff : Option Nat} {cs : List WalRecord} {torn : Bytes}

/-- The reload of a file with a torn line. -/
theorem readWALStream_torn (hcs : ∀ r ∈ cs, r.Framed) (hnl : newline ∉ torn) (hne : torn ≠ []) {idStr op' data : Bytes}
    {n : Nat} (hf : walFields torn (staleOperation (cutoff.getD 0) [] cs) = (idStr, op', data)) (hn : stoull idStr = .ok n)
    {es : List WalEntry} {w : WalStream} (h : readWALStream parse (init (fileOf cs ++ torn) cutoff) = .ok (es, w)) :
    w.persistence.walLogFile.content = fileOf cs ++ torn ∧
      ((cutoff.getD 0 < n ∧ op' = []) ∧ es = delivered parse cutoff cs ∧ w.eofbit = true ∨
        ¬ (cutoff.getD 0 < n ∧ op' = []) ∧ w.eofbit = false ∧ es = delivered parse cutoff cs ++
          if cutoff.getD 0 < n then [⟨n, op', (parse (cstr data)).getD .null⟩] else []) := by
  have hcontent : ∀ ls, (((((init (fileOf cs ++ torn) cutoff).bumpAll cs).bump n).withUnread ls).walLogFile.content =
      fileOf cs ++ torn) := by
    intro ls
    show ((init (fileOf cs ++ torn) cutoff).bumpAll cs).walLogFile.content = _
    rw [walLogFile_bumpAll]
    rfl
  have hread := readWALStream_line parse hcs framed_nil (lines_torn hcs hnl hne) hf hn
  rw [h] at hread
  by_cases hstuck : cutoff.getD 0 < n ∧ op' = []
  · rw [if_pos hstuck, unterminated_torn _ hnl hne] at hread
    cases hread
    exact ⟨hcontent _, Or.inl ⟨hstuck, rfl, rfl⟩⟩
  · rw [if_neg hstuck] at hread
    cases hread
    refine ⟨hcontent _, Or.inr ⟨hstuck, rfl, ?_⟩⟩
    rw [show delivered parse cutoff [] = [] from rfl, List.append_nil]

/-- Under a smaller cutoff the largest id is read. -/
theorem delivered_concat_ne (h : cutoff.getD 0 < 2 ^ 64 - 1) :
    delivered parse cutoff (cs ++ [lastRecord]) ≠ delivered parse cutoff cs := by
  rw [delivered_append, delivered_lastRecord parse h]
  intro heq
  have := congrArg List.length heq
  simp at this

/-- A record that is appended to a stream in its error state is lost. -/
theorem not_lost {es : List WalEntry} {w : WalStream} (hread : readWALStream parse (init (fileOf cs ++ torn) cutoff) = .ok (es, w))
    (hcontent : w.persistence.walLogFile.content = fileOf cs ++ torn) (hes : es = delivered parse cutoff cs)
    (heof : w.eofbit = true)
    (hlast : (readWAL parse (init (w.writeWALRawLogs [lastRecord]).persistence.walLogFile.content cutoff)).map Prod.fst =
      .ok (delivered parse cutoff (cs ++ [lastRecord]))) : ¬ cutoff.getD 0 < 2 ^ 64 - 1 := by
  intro hlt
  rw [content_writeWALRawLogs, heof, if_pos rfl, hcontent, fst_readWAL_of_stream parse hread] at hlast
  exact delivered_concat_ne hlt ((Except.ok.inj hlast).symm.trans hes)

theorem Survives.last (h : Survives parse cutoff cs torn) : ∃ es w,
    readWALStream parse (init (fileOf cs ++ torn) cutoff) = .ok (es, w) ∧
      VectorDatabase.upserts es = VectorDatabase.upserts (delivered parse cutoff cs) ∧
      (readWAL parse (init (w.writeWALRawLogs [lastRecord]).persistence.walLogFile.content cutoff)).map Prod.fst =
        .ok (delivered parse cutoff (cs ++ [lastRecord])) := by
  obtain ⟨es, w, hread, hup, hnext⟩ := h
  exact ⟨es, w, hread, hup, hnext [lastRecord] (List.forall_mem_singleton.mpr ⟨lastRecord_framed, List.not_mem_nil⟩)⟩

section
variable {r : WalRecord}

/-- A line torn behind its id does harm under every smaller cutoff. -/
theorem le_cutoff_of_survives (hcs : ∀ r ∈ cs, r.Framed) (hr : r.Framed) (hbar : bar ∉ r.rawData) (ht : torn <+: r.line)
    (hb : bar ∈ torn) (h : Survives parse cutoff cs torn) : ¬ cutoff.getD 0 < 2 ^ 64 - 1 := by
  intro hcut
  obtain ⟨es, w, hread, hup, hlast⟩ := h.last
  have hnl : newline ∉ torn := notMem_of_prefix ht hr.notMem_line
  obtain ⟨op₁, data₁, op₂, data₂, h₁, h₂, hop₂, hups⟩ :=
    hr.merged_cases hbar ht hb (staleOperation (cutoff.getD 0) [] cs)
  obtain ⟨hcontent, ⟨-, hes, heof⟩ | ⟨-, heof, hes⟩⟩ :=
    readWALStream_torn hcs hnl (List.ne_nil_of_mem hb) h₁ (stoull_decimal hr.logId_lt) hread
  · exact not_lost hread hcontent hes heof hlast hcut
  · have hline := readWALStream_line parse hcs framed_nil (lines_merged hcs lastRecord_framed framed_nil hnl)
      (h₂ (staleOperation (cutoff.getD 0) [] cs)) (stoull_decimal hr.logId_lt)
    rw [if_neg (fun h => hop₂ h.2)] at hline
    rw [content_writeWALRawLogs, heof, if_neg Bool.false_ne_true, hcontent, fst_readWAL_of_stream parse hline,
      delivered_append, delivered_lastRecord parse hcut] at hlast
    by_cases hid : cutoff.getD 0 < r.logId
    · -- the torn record is no upsert, so the merged one is none either
      rw [if_pos hid] at hlast hes
      rw [hes, VectorDatabase.upserts_append] at hup
      have hop₁ : op₁ ≠ VectorDatabase.operationUpsert := by
        rintro rfl
        have := congrArg List.length hup
        simp [VectorDatabase.upserts] at this
      have hentry := List.append_cancel_left (Except.ok.inj hlast)
      exact hups hop₁ (congrArg WalEntry.operationType (List.cons.inj hentry).1)
    · rw [if_neg hid] at hlast
      have := congrArg List.length (List.append_cancel_left (Except.ok.inj hlast))
      simp [delivered] at this

/-- A line torn within its id does harm, unless it is the id 0. -/
theorem eq_zero_of_survives (hcs : ∀ r ∈ cs, r.Framed) (hr : r.Framed) (hid : torn <+: decimal r.logId) (hne : torn ≠ [])
    (h : Survives parse cutoff cs torn) : torn = [48] := by
  by_contra h0
  obtain ⟨es, w, hread, -, hlast⟩ := h.last
  have hb : bar ∉ torn := notMem_of_prefix hid (notMem_decimal (by decide) _)
  have hnl : newline ∉ torn := notMem_of_prefix hid (notMem_decimal (by decide) _)
  obtain ⟨hcontent, ⟨⟨hlt, -⟩, hes, heof⟩ | ⟨-, heof, -⟩⟩ :=
    readWALStream_torn hcs hnl hne (walFields_id hb _) (stoull_of_prefix_decimal hr.logId_lt hid hne) hread
  · have hle := digitsVal_le_of_prefix_decimal hid
    have hid_lt := hr.logId_lt
    exact not_lost hread hcontent hes heof hlast (by omega)
  · -- the ids of the torn and the appended record make one that is out of range
    obtain ⟨k, -, hrecords⟩ := readWALStream_records parse hcs (lines_merged hcs lastRecord_framed framed_nil hnl) cutoff
    rw [readStream_error parse (by rw [walFields_fst_append hb]; exact stoull_append_lastRecord hid hne h0)] at hrecords
    rw [content_writeWALRawLogs, heof, if_neg Bool.false_ne_true, hcontent, ← readWALStream_eq, hrecords] at hlast
    cases hlast

/-- **A torn line that can do harm does**: to the reload, or to the record of the largest id appended next. -/
theorem harmless_of_survives (hcs : ∀ r ∈ cs, r.Framed) (hr : r.Framed) (hbar : bar ∉ r.rawData) (ht : torn <+: r.line)
    (h : Survives parse cutoff cs torn) : Harmless cutoff torn := by
  by_cases hne : torn = []
  · exact Or.inl hne
  · by_cases hb : bar ∈ torn
    · have hge := le_cutoff_of_survives hcs hr hbar ht hb h
      exact Or.inr (Or.inr ⟨hb, by omega⟩)
    · have hid : torn <+: decimal r.logId := by
        rcases hr.torn_cases hbar ht with h | ⟨_, _, heq⟩ | ⟨_, _, heq⟩ | ⟨_, _, heq⟩
        · exact h
        all_goals exact absurd (by simp [heq]) hb
      exact Or.inr (Or.inl (eq_zero_of_survives hcs hr hid hne h))

end

theorem delivered_of_le (h : 2 ^ 64 ≤ cutoff.getD 0 + 1) (hcs : ∀ r ∈ cs, r.Framed) : delivered parse cutoff cs = [] := by
  rw [delivered, List.map_eq_nil_iff, List.filter_eq_nil_iff]
  intro r hr
  have := (hcs r hr).logId_lt
  simp only [decide_eq_true_eq]
  omega

/-- A file of complete records leaves the stream good: later writes reach it, as everywhere else in the model. -/
theorem readWALStream_fileOf (hcs : ∀ r ∈ cs, r.Framed) : readWALStream parse (init (fileOf cs) cutoff) =
    .ok (delivered parse cutoff cs, ⟨((init (fileOf cs) cutoff).bumpAll cs).withUnread [], false⟩) := by
  have hlines : lines (fileOf cs) = cs.map WalRecord.line ++ [] := by rw [lines_fileOf hcs, List.append_nil]
  obtain ⟨k, -, hread⟩ := readWALStream_records parse hcs hlines cutoff
  rw [readStream_end] at hread
  rw [hread]
  simp [Except.map]

theorem survives_nil (hcs : ∀ r ∈ cs, r.Framed) : Survives parse cutoff cs [] := by
  rw [Survives, List.append_nil]
  refine ⟨_, _, readWALStream_fileOf hcs, rfl, fun rs hrs => ?_⟩
  have hall : ∀ r ∈ cs ++ rs, r.Framed := List.forall_mem_append.mpr ⟨hcs, fun r hr => (hrs r hr).1⟩
  have hcontent : (((init (fileOf cs) cutoff).bumpAll cs).withUnread []).walLogFile.content = fileOf cs :=
    congrArg WalFile.content (walLogFile_bumpAll _ cs)
  rw [content_writeWALRawLogs, if_neg Bool.false_ne_true, hcontent, ← fileOf_append, readWAL_init parse hall]
  rfl

/-- **A harmless line**: what follows it in the file is read as if it were not there. -/
theorem survives_of_line (hcs : ∀ r ∈ cs, r.Framed) (hnl : newline ∉ torn) (hne : torn ≠ []) {idStr op' data : Bytes} {n : Nat}
    (hf : walFields torn (staleOperation (cutoff.getD 0) [] cs) = (idStr, op', data)) (hn : stoull idStr = .ok n)
    (hle : n ≤ cutoff.getD 0)
    (hnext : ∀ r, r.Framed → ∃ idStr op' data m, walFields (torn ++ r.line) (staleOperation (cutoff.getD 0) [] cs) =
      (idStr, op', data) ∧ stoull idStr = .ok m ∧ ¬ (cutoff.getD 0 < m ∧ op' = []) ∧
      (if cutoff.getD 0 < m then [⟨m, op', (parse (cstr data)).getD .null⟩] else []) = delivered parse cutoff [r]) :
    Survives parse cutoff cs torn := by
  have hread := readWALStream_line parse hcs framed_nil (lines_torn hcs hnl hne) hf hn
  rw [if_neg (fun h => absurd h.1 (Nat.not_lt.mpr hle)), if_neg (Nat.not_lt.mpr hle)] at hread
  refine ⟨_, _, hread, by simp [delivered], fun rs hrs => ?_⟩
  obtain ⟨hcontent, ⟨⟨hlt, -⟩, -, -⟩ | -⟩ := readWALStream_torn hcs hnl hne hf hn hread
  · omega
  rw [content_writeWALRawLogs, if_neg Bool.false_ne_true, hcontent]
  cases rs with
  | nil =>
    rw [show fileOf [] = [] from rfl, List.append_nil, fst_readWAL_of_stream parse hread]
    simp [delivered]
  | cons r rs =>
    obtain ⟨idStr', op', data', m, hf', hm, hok, hentry⟩ := hnext r (hrs r List.mem_cons_self).1
    have hrest : ∀ r ∈ rs, r.Framed := fun x hx => (hrs x (List.mem_cons_of_mem _ hx)).1
    have hline := readWALStream_line parse hcs hrest (lines_merged hcs (hrs r List.mem_cons_self).1 hrest hnl) hf' hm
    rw [if_neg hok] at hline
    have hcons : delivered parse cutoff (r :: rs) = delivered parse cutoff [r] ++ delivered parse cutoff rs :=
      delivered_append parse cutoff [r] rs
    rw [fst_readWAL_of_stream parse hline, hentry, delivered_append, hcons]

theorem survives_zero (hcs : ∀ r ∈ cs, r.Framed) : Survives parse cutoff cs [48] := by
  have hbar : bar ∉ ([48] : Bytes) := by decide
  apply survives_of_line hcs (by decide) (by decide) (walFields_id hbar _) (by rfl : stoull [48] = .ok 0) (Nat.zero_le _)
  intro r hr
  have hd : bar ∉ 48 :: decimal r.logId := by
    rw [List.mem_cons, not_or]
    exact ⟨by decide, notMem_decimal (by decide) _⟩
  have hval : stoull (48 :: decimal r.logId) = .ok r.logId := by
    have hdigits : ∀ c ∈ 48 :: decimal r.logId, isDigit c = true :=
      List.forall_mem_cons.mpr ⟨by decide, fun c hc => isDigit_of_mem_decimal hc⟩
    have hdigitsVal : digitsVal (48 :: decimal r.logId) = r.logId := by
      rw [← List.singleton_append, digitsVal_append_digits, digitsVal_decimal, show digitsVal [48] = 0 from rfl]
      omega
    rw [stoull_digits hdigits (by simp), hdigitsVal, if_neg (Nat.not_le.mpr hr.logId_lt)]
  refine ⟨_, r.operationType, _, r.logId, walFields_data hd hr.bar_version hr.bar_operation r.rawData _, hval,
    fun h => hr.operation_ne h.2, ?_⟩
  rw [delivered, List.filter_cons]
  by_cases hid : cutoff.getD 0 < r.logId
  · rw [if_pos hid, if_pos (decide_eq_true hid)]
    rfl
  · rw [if_neg hid, if_neg (by simpa using hid)]
    rfl

theorem survives_skipped (hcs : ∀ r ∈ cs, r.Framed) {r : WalRecord} (hr : r.Framed) (ht : torn <+: r.line) (hb : bar ∈ torn)
    (hcut : 2 ^ 64 ≤ cutoff.getD 0 + 1) : Survives parse cutoff cs torn := by
  have hle : r.logId ≤ cutoff.getD 0 := by
    have := hr.logId_lt
    omega
  have hnl : newline ∉ torn := notMem_of_prefix ht hr.notMem_line
  have hd : bar ∉ decimal r.logId := notMem_decimal (by decide) _
  have hid : ∀ x op, (walFields (torn ++ x) op).1 = decimal r.logId := by
    intro x op
    rcases prefix_append_cons ht with h | ⟨s, rfl, -⟩
    · exact absurd (h.mem hb) hd
    · rw [walFields_fst, List.append_assoc, List.cons_append, takeWhile_ne_append hd]
  have hstoull := fun x op => (congrArg stoull (hid x op)).trans (stoull_decimal hr.logId_lt)
  have hid' := hstoull [] (staleOperation (cutoff.getD 0) [] cs)
  rw [List.append_nil] at hid'
  apply survives_of_line hcs hnl (List.ne_nil_of_mem hb) rfl hid' hle
  intro x hx
  refine ⟨_, _, _, r.logId, rfl, hstoull x.line (staleOperation (cutoff.getD 0) [] cs), fun h => absurd h.1 (Nat.not_lt.mpr hle), ?_⟩
  rw [if_neg (Nat.not_lt.mpr hle), delivered_of_le hcut (List.forall_mem_singleton.mpr hx)]

theorem survives_iff (hcs : ∀ r ∈ cs, r.Framed)
    (ht : torn = [] ∨ ∃ r : WalRecord, r.Framed ∧ bar ∉ r.rawData ∧ torn <+: r.line) :
    Survives parse cutoff cs torn ↔ Harmless cutoff torn := by
  constructor
  · intro h
    rcases ht with rfl | ⟨r, hr, hbar, ht⟩
    · exact Or.inl rfl
    · exact harmless_of_survives hcs hr hbar ht h
  · rintro (rfl | rfl | ⟨hb, hcut⟩)
    · exact survives_nil hcs
    · exact survives_zero hcs
    · rcases ht with rfl | ⟨r, hr, -, ht⟩
      · cases hb
      · exact survives_skipped hcs hr ht hb hcut

end
end Persistence

namespace VectorDatabase
open Persistence
variable {F : Type} [CFloat F]

/-- The first `n` bytes of the WAL are left by a crash. The loop of the reload completes and hands to `upsert` exactly the
complete records above the cutoff, and what is appended then is read by the next reload. -/
def Recovers (parse : Bytes → Option Json) (nullBitmaps : Finset (Bytes × Int64)) (db : VectorDatabase F)
    (cutoff : Option Nat) (rs : List WalRecord) (n : Nat) : Prop :=
  let p := init ((fileOf rs).take n) cutoff
  ∃ db' es w, reloadLoop parse nullBitmaps (p.walLogFile.unread.length + 1) { db with persistence := p } = .ok db' ∧
    readWALStream parse p = .ok (es, w) ∧ upserts es = upserts (delivered parse cutoff (cut rs n).1) ∧
    ∀ ss, (∀ r ∈ ss, r.Framed ∧ bar ∉ r.rawData) →
      (readWAL parse (init (w.writeWALRawLogs ss).persistence.walLogFile.content cutoff)).map Prod.fst =
        .ok (delivered parse cutoff ((cut rs n).1 ++ ss))

theorem reloadLoop_of_stream {parse : Bytes → Option Json} {p : Persistence} {es : List WalEntry} {w : WalStream}
    (h : readWALStream parse p = .ok (es, w)) (nullBitmaps : Finset (Bytes × Int64)) (db : VectorDatabase F) :
    reloadLoop parse nullBitmaps (p.walLogFile.unread.length + 1) { db with persistence := p } =
      (replay nullBitmaps db.stores es).map fun s => { db with stores := s, persistence := w.persistence } := by
  have hread : readWAL parse p = .ok (es, w.persistence) := by
    rw [← readWALStream_eq, h]
    rfl
  let db' : VectorDatabase F := { db with persistence := p }
  have hloop : reloadLoop parse nullBitmaps (db'.persistence.walLogFile.unread.length + 1) db' = _ :=
    reloadLoop_of_readAll parse nullBitmaps hread (Nat.lt_succ_self _)
  exact hloop

/-- **A crash during a write** is recovered from exactly when the complete records can be upserted, past the null pointers
that were loaded, and nothing is left of the torn one but, perhaps, the id 0 or a line under the largest cutoff. -/
theorem recovers_iff {parse : Bytes → Option Json} {nullBitmaps : Finset (Bytes × Int64)} {db : VectorDatabase F}
    {cutoff : Option Nat} {rs : List WalRecord} {n : Nat}
    (hrs : ∀ r ∈ rs, r.Framed ∧ bar ∉ r.rawData) : Recovers parse nullBitmaps db cutoff rs n ↔
      Harmless cutoff (cut rs n).2 ∧
        (∃ t, Run Applied db.stores ((upserts (delivered parse cutoff (cut rs n).1)).map WalEntry.jsonData) t) ∧
        Avoids (· ∈ nullBitmaps) db.stores.document ((upserts (delivered parse cutoff (cut rs n).1)).map WalEntry.jsonData) := by
  have hcs : ∀ r ∈ (cut rs n).1, r.Framed := fun r hr => (hrs r ((prefix_cut rs n).mem hr)).1
  have ht : (cut rs n).2 = [] ∨ ∃ r : WalRecord, r.Framed ∧ bar ∉ r.rawData ∧ (cut rs n).2 <+: r.line := by
    rcases cut_torn rs n with h | ⟨r, hr, h⟩
    · exact Or.inl h
    · exact Or.inr ⟨r, (hrs r hr).1, (hrs r hr).2, h⟩
  have hsurvives : Survives parse cutoff (cut rs n).1 (cut rs n).2 ↔ Harmless cutoff (cut rs n).2 := survives_iff hcs ht
  rw [Recovers, take_fileOf]
  constructor
  · rintro ⟨db', es, w, hloop, hread, hup, hnext⟩
    refine ⟨hsurvives.mp ⟨es, w, hread, hup, hnext⟩, ?_⟩
    rw [reloadLoop_of_stream hread, map_eq_ok] at hloop
    obtain ⟨t, ht, -⟩ := hloop
    obtain ⟨hrun, hav⟩ := replay_iff.mp ht
    rw [hup] at hrun hav
    exact ⟨⟨t, hrun⟩, hav⟩
  · rintro ⟨hharm, ⟨t, hrun⟩, hav⟩
    obtain ⟨es, w, hread, hup, hnext⟩ := hsurvives.mpr hharm
    have hreplay : replay nullBitmaps db.stores es = .ok t := by
      rw [replay_iff, hup]
      exact ⟨hrun, hav⟩
    refine ⟨{ db with stores := t, persistence := w.persistence }, es, w, ?_, hread, hup, hnext⟩
    rw [reloadLoop_of_stream hread, hreplay]
    rfl

/-! ## A record that is cut in its data -/

/-- The record of id 1. -/
def newFieldRecord : WalRecord := upsertRecord 11 LogStateMachine.newFieldBody

theorem newFieldRecord_framed : ∀ r ∈ [newFieldRecord], r.Framed ∧ bar ∉ r.rawData :=
  List.forall_mem_singleton.mpr ⟨upsertRecord_framed (by decide) (by decide), by decide⟩

/-- A record of id 0. -/
def zeroRecord : WalRecord := upsertRecord 0 LogStateMachine.newFieldBody

/-- The file is cut behind the first byte of its second record. -/
theorem recovers_newField :
    Recovers LogStateMachine.newFieldParser ∅ (fresh 1 : VectorDatabase Number) none [newFieldRecord, zeroRecord] 63 := by
  have hframed : ∀ r ∈ [newFieldRecord, zeroRecord], r.Framed ∧ bar ∉ r.rawData :=
    List.forall_mem_cons.mpr ⟨newFieldRecord_framed _ (List.mem_singleton_self _),
      List.forall_mem_singleton.mpr ⟨upsertRecord_framed (by decide) (by decide), by decide⟩⟩
  have hdoc : (upserts (delivered LogStateMachine.newFieldParser none (cut [newFieldRecord, zeroRecord] 63).1)).map
      WalEntry.jsonData = [LogStateMachine.newFieldDoc] := by rfl
  have hrun : Run Applied (fresh 1 : VectorDatabase Number).stores [LogStateMachine.newFieldDoc] _ :=
    Run.single ⟨1, [.int 0], rfl, ⟨by decide, by rfl, by decide, by decide⟩, rfl⟩
  exact (recovers_iff hframed).mpr ⟨Or.inr (Or.inl (by rfl)), ⟨_, hdoc ▸ hrun⟩, avoids_empty _ _⟩

/-- The reload hands the torn record to `upsert` without a document. -/
theorem torn_record_upserted :
    ¬ Recovers LogStateMachine.newFieldParser ∅ (fresh 1 : VectorDatabase Number) none [newFieldRecord] 15 := by
  rintro ⟨db', es, w, hloop, -⟩
  have hfail : reloadLoop LogStateMachine.newFieldParser ∅ 2 { (fresh 1 : VectorDatabase Number) with
      persistence := init ((fileOf [newFieldRecord]).take 15) none } = .error .assertion := by rfl
  cases hfail.symm.trans hloop

end VectorDatabase
end VectorDb
