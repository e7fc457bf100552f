import VectorDb.TornTail

/-!
# The lines of any WAL

* `scanLines` : what a reload delivers of some lines, before it parses the data, and how its loop ends;
* `readStream_scan` : the calls of a reload are this scan;
* `scanLines_append` : lines that are read to their end, with others behind them;
* `exists_torn` : a file is some whole lines and a torn one.
-/

namespace VectorDb
namespace Persistence

/-- A record as it is read from its line: the id, the operation and the data. -/
structure RawEntry where
  logId : Nat
  operationType : Bytes
  jsonDataStr : Bytes
  deriving DecidableEq

/-- What the caller of `readNextWALLog` gets of a record. -/
def RawEntry.entry (parse : Bytes → Option Json) (r : RawEntry) : WalEntry :=
  ⟨r.logId, r.operationType, (parse (cstr r.jsonDataStr)).getD .null⟩

/-- How the calls of a reload end: at a record without an operation, with the lines behind it, or at the end of the
file, with the operation string that a skipped record left. -/
inductive ScanEnd where
  | stopped (unread : List Bytes)
  | through (operationType : Bytes)

/-- The state of the stream afterwards. -/
def ScanEnd.eofbit (content : Bytes) : ScanEnd → Bool
  | .stopped ls => ls.isEmpty && unterminated content
  | .through _ => false

/-- The calls of a reload on some lines. -/
def scanLines (cutoff : Nat) : Bytes → List Bytes → Except StoError (List RawEntry × ScanEnd)
  | op, [] => .ok ([], .through op)
  | op, l :: ls =>
    let (idStr, op, data) := walFields l op
    match stoull idStr with
    | .error e => .error e
    | .ok n =>
      if cutoff < n then
        if op = [] then .ok ([], .stopped ls)
        else
          match scanLines cutoff [] ls with
          | .error e => .error e
          | .ok (rs, e) => .ok (⟨n, op, data⟩ :: rs, e)
      else scanLines cutoff op ls

theorem exists_walFields (l op : Bytes) : ∃ idStr op' data, walFields l op = (idStr, op', data) := ⟨_, _, _, rfl⟩

/-- **One line**, as in `readStream_cons`. -/
theorem scanLines_cons {cutoff : Nat} {l idStr op op' data : Bytes} {n : Nat} (hf : walFields l op = (idStr, op', data))
    (hn : stoull idStr = .ok n) (ls : List Bytes) :
    scanLines cutoff op (l :: ls) =
      if cutoff < n then
        if op' = [] then .ok ([], .stopped ls)
        else (scanLines cutoff [] ls).map fun x => (⟨n, op', data⟩ :: x.1, x.2)
      else scanLines cutoff op' ls := by
  simp only [scanLines, hf, hn]
  split
  · split
    · rfl
    · cases scanLines cutoff [] ls <;> rfl
  · rfl

theorem scanLines_error {l op : Bytes} {e : StoError} (hn : stoull (walFields l op).1 = .error e) (cutoff : Nat)
    (ls : List Bytes) : scanLines cutoff op (l :: ls) = .error e := by
  simp only [scanLines, hn]

variable (parse : Bytes → Option Json)

/-- What a reload returns of a scan. -/
def scanned (content : Bytes) : Except StoError (List RawEntry × ScanEnd) → Except Fault (List WalEntry × Bool × Bytes)
  | .error e => .error (.sto e)
  | .ok (rs, e) => .ok (rs.map (RawEntry.entry parse), e.eofbit content, content)

/-- **The calls of a reload are the scan** of the unread lines. -/
theorem readStream_scan {fuel : Nat} {ls : List Bytes} (h : ls.length < fuel) (op : Bytes) (p : Persistence) :
    (readStream parse fuel op (p.withUnread ls)).map
        (fun x => (x.1, x.2.eofbit, x.2.persistence.walLogFile.content)) =
      scanned parse p.walLogFile.content (scanLines p.lastSnapshotID op ls) := by
  induction ls generalizing op p fuel with
  | nil =>
    obtain ⟨k, rfl⟩ : ∃ k, fuel = k + 1 := ⟨fuel - 1, by omega⟩
    rw [readStream_end]
    rfl
  | cons l ls ih =>
    rw [List.length_cons] at h
    obtain ⟨k, rfl⟩ : ∃ k, fuel = k + 1 := ⟨fuel - 1, by omega⟩
    obtain ⟨idStr, op', data, hf⟩ := exists_walFields l op
    have hid : (walFields l op).1 = idStr := by rw [hf]
    cases hn : stoull idStr with
    | error e =>
      rw [readStream_error parse (hid ▸ hn), scanLines_error (hid ▸ hn)]
      rfl
    | ok n =>
      have hskip := ih (show ls.length < k + 1 by omega) op' (p.bump n)
      have hnext := ih (show ls.length < k by omega) [] (p.bump n)
      rw [lastSnapshotID_bump] at hskip hnext
      rw [readStream_cons parse hf hn, scanLines_cons hf hn]
      by_cases hc : p.lastSnapshotID < n
      · rw [if_pos hc, if_pos hc]
        by_cases hop : op' = []
        · rw [if_pos hop, if_pos hop]
          rfl
        · rw [if_neg hop, if_neg hop]
          have hmap : ∀ x : Except Fault (List WalEntry × WalStream),
              (x.map fun y => ((⟨n, op', (parse (cstr data)).getD .null⟩ : WalEntry) :: y.1, y.2)).map
                (fun y => (y.1, y.2.eofbit, y.2.persistence.walLogFile.content)) =
              (x.map fun y => (y.1, y.2.eofbit, y.2.persistence.walLogFile.content)).map
                fun y => ((⟨n, op', (parse (cstr data)).getD .null⟩ : WalEntry) :: y.1, y.2) := by
            intro x
            cases x <;> rfl
          rw [hmap, hnext]
          cases scanLines p.lastSnapshotID [] ls <;> rfl
      · rw [if_neg hc, if_neg hc, hskip]
        rfl

theorem readWALStream_scan (content : Bytes) (cutoff : Option Nat) :
    (readWALStream parse (init content cutoff)).map
        (fun x => (x.1, x.2.eofbit, x.2.persistence.walLogFile.content)) =
      scanned parse content (scanLines (cutoff.getD 0) [] (lines content)) :=
  readStream_scan parse (Nat.lt_succ_self (lines content).length) [] (init content cutoff)

theorem readWALStream_eq_ok {content : Bytes} {cutoff : Option Nat} {es : List WalEntry} {w : WalStream}
    (h : readWALStream parse (init content cutoff) = .ok (es, w)) :
    ∃ rs e, scanLines (cutoff.getD 0) [] (lines content) = .ok (rs, e) ∧ rs.map (RawEntry.entry parse) = es ∧
      e.eofbit content = w.eofbit ∧ w.persistence.walLogFile.content = content := by
  have hscan := readWALStream_scan parse content cutoff
  rw [h] at hscan
  cases hx : scanLines (cutoff.getD 0) [] (lines content) with
  | error e => rw [hx] at hscan; cases hscan
  | ok x =>
    rw [hx] at hscan
    simp only [Except.map, scanned, Except.ok.injEq, Prod.mk.injEq] at hscan
    exact ⟨x.1, x.2, rfl, hscan.1.symm, hscan.2.1.symm, hscan.2.2⟩

theorem exists_readWALStream {content : Bytes} {cutoff : Option Nat} {rs : List RawEntry} {e : ScanEnd}
    (h : scanLines (cutoff.getD 0) [] (lines content) = .ok (rs, e)) :
    ∃ w, readWALStream parse (init content cutoff) = .ok (rs.map (RawEntry.entry parse), w) ∧
      w.eofbit = e.eofbit content ∧ w.persistence.walLogFile.content = content := by
  have hscan := readWALStream_scan parse content cutoff
  rw [h] at hscan
  obtain ⟨⟨es, w⟩, hread, hx⟩ := map_eq_ok.mp hscan
  simp only [Prod.mk.injEq] at hx
  exact ⟨w, by rw [hread, hx.1], hx.2⟩

/-- **What a reload delivers** of any file. -/
theorem readWAL_eq_ok_iff {content : Bytes} {cutoff : Option Nat} {es : List WalEntry} :
    (readWAL parse (init content cutoff)).map Prod.fst = .ok es ↔
      ∃ rs e, scanLines (cutoff.getD 0) [] (lines content) = .ok (rs, e) ∧ rs.map (RawEntry.entry parse) = es := by
  constructor
  · intro h
    cases hread : readWALStream parse (init content cutoff) with
    | error f =>
      rw [← readWALStream_eq, hread] at h
      cases h
    | ok x =>
      obtain ⟨rs, e, hscan, hes, -⟩ := readWALStream_eq_ok parse hread
      rw [fst_readWAL_of_stream parse hread, Except.ok.injEq] at h
      exact ⟨rs, e, hscan, hes.trans h⟩
  · rintro ⟨rs, e, hscan, rfl⟩
    obtain ⟨w, hread, -⟩ := exists_readWALStream parse hscan
    exact fst_readWAL_of_stream parse hread

/-! ## Lines behind others -/

theorem scanLines_append (cutoff : Nat) (op : Bytes) (ls ms : List Bytes) :
    scanLines cutoff op (ls ++ ms) =
      match scanLines cutoff op ls with
      | .error e => .error e
      | .ok (rs, .stopped unread) => .ok (rs, .stopped (unread ++ ms))
      | .ok (rs, .through op') => (scanLines cutoff op' ms).map fun x => (rs ++ x.1, x.2) := by
  induction ls generalizing op with
  | nil =>
    simp only [List.nil_append, scanLines]
    cases scanLines cutoff op ms <;> rfl
  | cons l ls ih =>
    obtain ⟨idStr, op', data, hf⟩ := exists_walFields l op
    have hid : (walFields l op).1 = idStr := by rw [hf]
    rw [List.cons_append]
    cases hn : stoull idStr with
    | error e => rw [scanLines_error (hid ▸ hn), scanLines_error (hid ▸ hn)]
    | ok n =>
      rw [scanLines_cons hf hn, scanLines_cons hf hn]
      by_cases hc : cutoff < n
      · rw [if_pos hc, if_pos hc]
        by_cases hop : op' = []
        · rw [if_pos hop, if_pos hop]
        · rw [if_neg hop, if_neg hop, ih]
          cases scanLines cutoff [] ls with
          | error e => rfl
          | ok x =>
            obtain ⟨rs, e⟩ := x
            cases e with
            | stopped unread => rfl
            | through op'' =>
              simp only [Except.map]
              cases scanLines cutoff op'' ms <;> rfl
      · rw [if_neg hc, if_neg hc, ih]

/-- A file that ends at a line end, with more behind it. -/
theorem lines_append {s : Bytes} (h : unterminated s = false) (t : Bytes) : lines (s ++ t) = lines s ++ lines t := by
  induction s with
  | nil => rfl
  | cons c s ih =>
    by_cases hs : s = []
    · subst hs
      obtain rfl : c = newline := by simpa [unterminated] using h
      rw [List.cons_append, List.nil_append, lines_newline, lines_newline]
      rfl
    · have hlast : unterminated s = false := by
        rw [unterminated, List.getLast?_cons_of_ne_nil hs] at h
        simpa [unterminated, hs] using h
      rw [List.cons_append, lines, lines, ih hlast]
      split
      · rfl
      · obtain ⟨l, ls, hl⟩ : ∃ l ls, lines s = l :: ls := ⟨_, _, lines_eq hs⟩
        rw [hl]
        rfl

/-- Whole lines that are read to their end, with more behind them. -/
theorem scanLines_whole {whole : Bytes} (hw : unterminated whole = false) {cutoff : Nat} {op op' : Bytes}
    {rs : List RawEntry} (h : scanLines cutoff op (lines whole) = .ok (rs, .through op')) (s : Bytes) :
    scanLines cutoff op (lines (whole ++ s)) = (scanLines cutoff op' (lines s)).map fun x => (rs ++ x.1, x.2) := by
  rw [lines_append hw, scanLines_append, h]

/-- A file is some whole lines and a torn one. -/
theorem exists_torn (s : Bytes) : ∃ whole torn, s = whole ++ torn ∧ unterminated whole = false ∧ newline ∉ torn := by
  induction s using List.reverseRecOn with
  | nil => exact ⟨[], [], rfl, rfl, List.not_mem_nil⟩
  | append_singleton s c ih =>
    by_cases hc : c = newline
    · exact ⟨s ++ [c], [], (List.append_nil _).symm, by simp [unterminated, hc], List.not_mem_nil⟩
    · obtain ⟨whole, torn, rfl, hw, ht⟩ := ih
      refine ⟨whole, torn ++ [c], List.append_assoc _ _ _, hw, ?_⟩
      rw [List.mem_append, List.mem_singleton, not_or]
      exact ⟨ht, Ne.symm hc⟩

/-- A line of a text. -/
theorem mem_lines {s l : Bytes} (h : l ∈ lines (s ++ [newline])) : ∃ a b, s = a ++ (l ++ b) := by
  induction hn : s.length using Nat.strongRecOn generalizing s with
  | ind n ih =>
    by_cases hs : newline ∈ s
    · obtain ⟨a, b, ha, rfl⟩ := exists_split_of_mem hs
      rw [List.append_assoc, List.cons_append, lines_append_newline ha, List.mem_cons] at h
      rcases h with rfl | h
      · exact ⟨[], newline :: b, rfl⟩
      · have hlt : b.length < n := by
          rw [← hn, List.length_append, List.length_cons]
          omega
        obtain ⟨a', b', rfl⟩ := ih b.length hlt h rfl
        exact ⟨a ++ newline :: a', b', by simp⟩
    · rw [lines_append_newline hs, lines_nil, List.mem_singleton] at h
      exact ⟨[], [], by rw [h, List.nil_append, List.append_nil]⟩

/-- The data of a line stand behind its id. -/
theorem walFields_data_infix (l op : Bytes) :
    ∃ u w, l = u ++ ((walFields l op).2.2 ++ w) ∧ (walFields l op).1 <+: u := by
  by_cases h1 : bar ∈ l
  · obtain ⟨ds, l₁, hd, rfl⟩ := exists_split_of_mem h1
    by_cases h2 : bar ∈ l₁
    · obtain ⟨ver, l₂, hv, rfl⟩ := exists_split_of_mem h2
      by_cases h3 : bar ∈ l₂
      · obtain ⟨o, l₃, ho, rfl⟩ := exists_split_of_mem h3
        rw [walFields_data hd hv ho]
        refine ⟨ds ++ bar :: (ver ++ bar :: (o ++ [bar])), l₃.dropWhile (· ≠ bar), ?_, List.prefix_append _ _⟩
        rw [List.takeWhile_append_dropWhile]
        simp
      · rw [walFields_operation hd hv h3]
        exact ⟨_, [], (List.append_nil _).symm, List.prefix_append _ _⟩
    · rw [walFields_version hd h2]
      exact ⟨_, [], (List.append_nil _).symm, List.prefix_append _ _⟩
  · rw [walFields_id h1]
    exact ⟨l, [], (List.append_nil _).symm, List.prefix_rfl⟩

/-- A record that is delivered stands in one of the lines, its data behind something that is not blank. -/
theorem scanLines_data {cutoff : Nat} {op : Bytes} {ls : List Bytes} {rs : List RawEntry} {e : ScanEnd}
    (h : scanLines cutoff op ls = .ok (rs, e)) {r : RawEntry} (hr : r ∈ rs) :
    ∃ l ∈ ls, ∃ u w, l = u ++ (r.jsonDataStr ++ w) ∧ ∃ c ∈ u, isSpace c = false := by
  induction ls generalizing op rs e with
  | nil =>
    cases h
    cases hr
  | cons l ls ih =>
    obtain ⟨idStr, op', data, hf⟩ := exists_walFields l op
    have hid : (walFields l op).1 = idStr := by rw [hf]
    have htail : ∀ {op rs e}, scanLines cutoff op ls = .ok (rs, e) → r ∈ rs →
        ∃ l' ∈ l :: ls, ∃ u w, l' = u ++ (r.jsonDataStr ++ w) ∧ ∃ c ∈ u, isSpace c = false := by
      intro op rs e h hr
      obtain ⟨l', hl', hrest⟩ := ih h hr
      exact ⟨l', List.mem_cons_of_mem _ hl', hrest⟩
    cases hn : stoull idStr with
    | error f =>
      rw [scanLines_error (hid ▸ hn)] at h
      cases h
    | ok n =>
      rw [scanLines_cons hf hn] at h
      split at h
      · split at h
        · cases h
          cases hr
        · obtain ⟨⟨rs', e'⟩, hscan, hx⟩ := map_eq_ok.mp h
          cases hx
          rcases List.mem_cons.mp hr with rfl | hr
          · obtain ⟨u, w, hl, hpre⟩ := walFields_data_infix l op
            rw [hf] at hl hpre
            refine ⟨l, List.mem_cons_self, u, w, hl, ?_⟩
            by_contra hblank
            push Not at hblank
            have : scanInt idStr = none := scanInt_blank fun c hc => by
              simpa using hblank c (hpre.subset hc)
            rw [stoull, this] at hn
            cases hn
          · exact htail hscan hr
      · exact htail h hr

/-! ## Framed records -/

/-- What is read of a framed record. -/
def WalRecord.raw (r : WalRecord) : RawEntry := ⟨r.logId, r.operationType, r.rawData.takeWhile (· ≠ bar)⟩

theorem unterminated_append_newline (s : Bytes) : unterminated (s ++ [newline]) = false := by simp [unterminated]

theorem unterminated_fileOf (rs : List WalRecord) : unterminated (fileOf rs) = false := by
  induction rs using List.reverseRecOn with
  | nil => rfl
  | append_singleton rs r _ =>
    rw [fileOf_append, fileOf_cons, fileOf, fileOf, List.flatMap_nil, List.append_nil, ← List.append_assoc]
    exact unterminated_append_newline _

/-- **Framed records are read to their end.** -/
theorem scanLines_fileOf {rs : List WalRecord} (h : ∀ r ∈ rs, r.Framed) (cutoff : Nat) (op : Bytes) :
    ∃ op', scanLines cutoff op (lines (fileOf rs)) =
      .ok ((rs.filter fun r => cutoff < r.logId).map WalRecord.raw, .through op') := by
  rw [lines_fileOf h]
  induction rs generalizing op with
  | nil => exact ⟨op, rfl⟩
  | cons r rs ih =>
    have hr := h r List.mem_cons_self
    have hrest := ih fun x hx => h x (List.mem_cons_of_mem _ hx)
    rw [List.map_cons, scanLines_cons (hr.walFields_line op) (stoull_decimal hr.logId_lt)]
    by_cases hc : cutoff < r.logId
    · obtain ⟨op', hop'⟩ := hrest []
      rw [if_pos hc, if_neg hr.operation_ne, hop', List.filter_cons_of_pos (by simpa using hc)]
      exact ⟨op', rfl⟩
    · rw [if_neg hc, List.filter_cons_of_neg (by simpa using hc)]
      exact hrest r.operationType

end Persistence
end VectorDb
