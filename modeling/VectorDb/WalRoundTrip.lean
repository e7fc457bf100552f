import VectorDb.HttpServer
import VectorDb.WalScan

/-!
# What is replayed of a logged request

* `RootSingular`, `NotNested` : what may stand around the text of an object;
* `ReadBack` : a record comes back from the WAL with what stands before and after it;
* `TakesRecord` : a file behind which a record is read;
* `readWAL_body_iff` : an accepted body comes back as the document that was committed exactly when the file before it
  takes a record, the file after it is readable, and the body holds no newline and no `'|'`.
-/

namespace VectorDb

/-- After an object only white space may follow. -/
def RootSingular (parse : Bytes → Option Json) : Prop :=
  ∀ t u d e, parse t = some d → d.isObject = true → parse (t ++ u) = some e → ∀ c ∈ u, isSpace c = true

/-- No text of an object holds another text of it, but behind white space. -/
def NotNested (parse : Bytes → Option Json) : Prop :=
  ∀ u v w d, parse v = some d → d.isObject = true → parse (u ++ (v ++ w)) = some d → ∀ c ∈ u, isSpace c = true

namespace Persistence
open VectorDatabase (upsertRecord operationUpsert)

def WalStream.writeWALLogs (w : WalStream) (ws : List WalWrite) : WalStream :=
  w.writeWALRawLogs (ws.map fun x => upsertRecord x.1 x.2)

/-- A server is started on `before` and logs `ws`, and `after` is logged later: what is read has the entry between what
is read of the one and of the other. -/
def ReadBack (parse : Bytes → Option Json) (cutoff : Option Nat) (before : Bytes) (ws : List WalWrite) (after : Bytes)
    (entry : WalEntry) : Prop :=
  ∃ es w es', readWALStream parse (init before cutoff) = .ok (es, w) ∧
    (readWAL parse (init after cutoff)).map Prod.fst = .ok es' ∧
    (readWAL parse (init (w.writeWALLogs ws).persistence.walLogFile.content cutoff)).map Prod.fst = .ok (es ++ [entry]) ∧
    (readWAL parse (init ((w.writeWALLogs ws).persistence.walLogFile.content ++ after) cutoff)).map Prod.fst =
      .ok (es ++ entry :: es')

/-- The whole lines of the file are read to their end, and a torn one is a number that is skipped, and reads as `idx`
with `idx` behind it. -/
def TakesRecord (cutoff idx : Nat) (content : Bytes) : Prop :=
  ∃ whole torn rs op, content = whole ++ torn ∧ unterminated whole = false ∧ newline ∉ torn ∧ bar ∉ torn ∧
    scanLines cutoff [] (lines whole) = .ok (rs, .through op) ∧ (torn = [] ∨ ∃ n ≤ cutoff, stoull torn = .ok n) ∧
    stoull (torn ++ decimal idx) = .ok idx

/-- The file is read without an exception. -/
def Readable (cutoff : Nat) (content : Bytes) : Prop := ∃ x, scanLines cutoff [] (lines content) = .ok x

theorem content_writeWALLogs_single (w : WalStream) (idx : Nat) (data : Bytes) :
    (w.writeWALLogs [(idx, data)]).persistence.walLogFile.content =
      if w.eofbit then w.persistence.walLogFile.content
      else w.persistence.walLogFile.content ++ ((upsertRecord idx data).line ++ [newline]) := by
  rw [WalStream.writeWALLogs, content_writeWALRawLogs]
  simp [fileOf]

/-! ## The line of a record behind a torn one -/

theorem walFields_torn {torn : Bytes} (h : bar ∉ torn) (idx : Nat) (data op : Bytes) :
    walFields (torn ++ (upsertRecord idx data).line) op =
      (torn ++ decimal idx, operationUpsert, data.takeWhile (· ≠ bar)) := by
  have hid : bar ∉ torn ++ decimal idx := by
    rw [List.mem_append, not_or]
    exact ⟨h, notMem_decimal (by decide) _⟩
  rw [WalRecord.line, walLine, ← List.append_assoc]
  exact walFields_data hid VectorDatabase.notMem_walVersion.1 VectorDatabase.notMem_operationUpsert.1 data op

theorem newline_notMem_line {torn data : Bytes} (ht : newline ∉ torn) (hd : newline ∉ data) (idx : Nat) :
    newline ∉ torn ++ (upsertRecord idx data).line := by
  have hb : newline ≠ bar := by decide
  have hn : newline ∉ decimal idx := notMem_decimal (by decide) _
  simp only [WalRecord.line, walLine, upsertRecord, List.mem_append, List.mem_cons, not_or]
  exact ⟨ht, hn, hb, VectorDatabase.notMem_walVersion.2, hb, VectorDatabase.notMem_operationUpsert.2, hb, hd⟩

/-- A record that is read from its line. -/
theorem scanLines_record {cutoff idx : Nat} {torn data : Bytes} (ht : newline ∉ torn) (hb : bar ∉ torn)
    (hd : newline ∉ data) (hidx : stoull (torn ++ decimal idx) = .ok idx) (hc : cutoff < idx) (op after : Bytes) :
    scanLines cutoff op (lines (torn ++ ((upsertRecord idx data).line ++ newline :: after))) =
      (scanLines cutoff [] (lines after)).map fun x =>
        (⟨idx, operationUpsert, data.takeWhile (· ≠ bar)⟩ :: x.1, x.2) := by
  rw [← List.append_assoc, lines_append_newline (newline_notMem_line ht hd idx), scanLines_cons (walFields_torn hb idx data op)
    hidx, if_pos hc, if_neg VectorDatabase.operationUpsert_ne]

theorem scanLines_torn {cutoff : Nat} {torn : Bytes} (ht : newline ∉ torn) (hb : bar ∉ torn)
    (h : torn = [] ∨ ∃ n ≤ cutoff, stoull torn = .ok n) (op : Bytes) :
    scanLines cutoff op (lines torn) = .ok ([], .through op) := by
  rcases h with rfl | ⟨n, hle, hn⟩
  · rfl
  · by_cases hne : torn = []
    · subst hne
      rfl
    · rw [lines_unterminated ht hne, scanLines_cons (walFields_id hb op) hn, if_neg (Nat.not_lt.mpr hle)]
      rfl

variable {parse : Bytes → Option Json} {cutoff : Option Nat} {idx : Nat} {before after body : Bytes} {doc : Json}

/-- A record of one line comes back from a file that takes it. -/
theorem readBack_of_takes (hb : TakesRecord (cutoff.getD 0) idx before) (ha : Readable (cutoff.getD 0) after)
    (hc : cutoff.getD 0 < idx) (hn : newline ∉ body) (hdoc : parse (cstr (body.takeWhile (· ≠ bar))) = some doc) :
    ReadBack parse cutoff before [(idx, body)] after ⟨idx, operationUpsert, doc⟩ := by
  obtain ⟨whole, torn, rs, op, rfl, hw, ht, hbar, hscan, htorn, hidx⟩ := hb
  obtain ⟨⟨rs', e'⟩, hafter⟩ := ha
  have hbefore : scanLines (cutoff.getD 0) [] (lines (whole ++ torn)) = .ok (rs, .through op) := by
    rw [scanLines_whole hw hscan, scanLines_torn ht hbar htorn]
    simp [Except.map]
  have hwrite : ∀ s, scanLines (cutoff.getD 0) [] (lines (whole ++ torn ++ ((upsertRecord idx body).line ++ newline :: s))) =
      (scanLines (cutoff.getD 0) [] (lines s)).map fun x =>
        (rs ++ ⟨idx, operationUpsert, body.takeWhile (· ≠ bar)⟩ :: x.1, x.2) := by
    intro s
    rw [List.append_assoc, scanLines_whole hw hscan, scanLines_record ht hbar hn hidx hc]
    cases scanLines (cutoff.getD 0) [] (lines s) <;> rfl
  have hentry : (⟨idx, operationUpsert, body.takeWhile (· ≠ bar)⟩ : RawEntry).entry parse = ⟨idx, operationUpsert, doc⟩ := by
    rw [RawEntry.entry, hdoc, Option.getD_some]
  obtain ⟨w, hread, heof, hcontent⟩ := exists_readWALStream parse hbefore
  have hnew : (w.writeWALLogs [(idx, body)]).persistence.walLogFile.content =
      whole ++ torn ++ ((upsertRecord idx body).line ++ [newline]) := by
    rw [content_writeWALLogs_single, heof, hcontent]
    rfl
  refine ⟨_, w, rs'.map (RawEntry.entry parse), hread, (readWAL_eq_ok_iff parse).mpr ⟨rs', e', hafter, rfl⟩, ?_, ?_⟩
  · rw [hnew, readWAL_eq_ok_iff, hwrite]
    exact ⟨_, _, by rw [lines_nil, scanLines]; rfl, by rw [List.map_append, List.map_cons, hentry]; rfl⟩
  · rw [hnew, readWAL_eq_ok_iff, List.append_assoc _ _ after, List.append_assoc _ _ after, List.singleton_append, hwrite, hafter]
    exact ⟨_, _, rfl, by rw [List.map_append, List.map_cons, hentry]⟩

/-! ## What a record that comes back tells -/

/-- What is read of a part of an object's text leaves white space only. -/
theorem isSpace_of_entry (hroot : RootSingular parse) (hdoc : parse body = some doc) (hobj : doc.isObject = true)
    {data rest : Bytes} (hbody : body = data ++ rest) (h : parse (data.takeWhile (· ≠ bar)) = some doc) :
    ∀ c ∈ data.dropWhile (· ≠ bar) ++ rest, isSpace c = true := by
  refine hroot _ _ doc doc h hobj ?_
  rw [← List.append_assoc, List.takeWhile_append_dropWhile, ← hbody]
  exact hdoc

theorem parse_of_entry_eq (hnul : 0 ∉ body) (hobj : doc.isObject = true) {r : RawEntry} {u w : Bytes}
    (hbody : body = u ++ (r.jsonDataStr ++ w)) (h : r.entry parse = ⟨idx, operationUpsert, doc⟩) :
    parse r.jsonDataStr = some doc := by
  have hcstr : cstr r.jsonDataStr = r.jsonDataStr := by
    apply cstr_eq_self
    intro h0
    apply hnul
    rw [hbody]
    exact List.mem_append_right _ (List.mem_append_left _ h0)
  have hdata : (parse r.jsonDataStr).getD .null = doc := by
    rw [← hcstr]
    exact congrArg WalEntry.jsonData h
  cases hp : parse r.jsonDataStr with
  | none =>
    rw [hp] at hdata
    subst hdata
    cases hobj
  | some d =>
    rw [hp] at hdata
    exact congrArg some hdata

/-- The later lines of a body do not deliver its document. -/
theorem entry_ne_of_later_line (hnest : NotNested parse) (hnul : 0 ∉ body) (hdoc : parse body = some doc)
    (hobj : doc.isObject = true) {b₁ b₂ : Bytes} (hbody : body = b₁ ++ newline :: b₂) {c : Nat} {op : Bytes}
    {rs : List RawEntry} {e : ScanEnd} (hscan : scanLines c op (lines (b₂ ++ [newline])) = .ok (rs, e)) :
    ⟨idx, operationUpsert, doc⟩ ∉ rs.map (RawEntry.entry parse) := by
  intro hmem
  obtain ⟨r, hr, hentry⟩ := List.mem_map.mp hmem
  obtain ⟨l, hl, u, w, rfl, x, hx, hblank⟩ := scanLines_data hscan hr
  obtain ⟨a, b', rfl⟩ := mem_lines hl
  have hsplit : body = (b₁ ++ newline :: (a ++ u)) ++ (r.jsonDataStr ++ (w ++ b')) := by
    rw [hbody]
    simp
  have hsp := hnest _ _ _ doc (parse_of_entry_eq hnul hobj hsplit hentry) hobj (hsplit ▸ hdoc) x (by simp [hx])
  rw [hblank] at hsp
  cases hsp

/-- An entry that no later line delivers comes from the first, and nothing before it. -/
theorem first_line_delivers {c : Nat} {op l idStr op' data : Bytes} {more : List Bytes}
    (hf : walFields l op = (idStr, op', data)) {rs : List RawEntry} {e : ScanEnd}
    (hscan : scanLines c op (l :: more) = .ok (rs, e)) {xs : List WalEntry} {x : WalEntry}
    (hrs : rs.map (RawEntry.entry parse) = xs ++ [x])
    (hmore : ∀ {op rs e}, scanLines c op more = .ok (rs, e) → x ∉ rs.map (RawEntry.entry parse)) :
    xs = [] ∧ ∃ n, stoull idStr = .ok n ∧ c < n ∧ (⟨n, op', data⟩ : RawEntry).entry parse = x ∧
      ∃ rs' e', scanLines c [] more = .ok (rs', e') := by
  have hmem : x ∈ rs.map (RawEntry.entry parse) := by
    rw [hrs]
    exact List.mem_append_right _ (List.mem_singleton_self x)
  have hid : (walFields l op).1 = idStr := by rw [hf]
  cases hn : stoull idStr with
  | error f =>
    rw [scanLines_error (hid ▸ hn)] at hscan
    cases hscan
  | ok n =>
    rw [scanLines_cons hf hn] at hscan
    split at hscan
    · rename_i hc
      split at hscan
      · cases hscan
        cases hmem
      · obtain ⟨⟨rs', e'⟩, hscan', hx⟩ := map_eq_ok.mp hscan
        cases hx
        rw [List.map_cons] at hrs
        cases xs with
        | nil => exact ⟨rfl, n, rfl, hc, (List.cons.inj hrs).1, rs', e', hscan'⟩
        | cons y ys =>
          refine absurd ?_ (hmore hscan')
          rw [(List.cons.inj hrs).2]
          exact List.mem_append_right _ (List.mem_singleton_self x)
    · exact absurd hmem (hmore hscan)

/-- A torn line that delivers nothing and clears the state of the stream is skipped. -/
theorem skipped_of_torn {c : Nat} {torn op : Bytes} (ht : newline ∉ torn) (hne : torn ≠ []) {e : ScanEnd} (whole : Bytes)
    (hscan : scanLines c op (lines torn) = .ok ([], e)) (heof : e.eofbit (whole ++ torn) = false) :
    ∃ n ≤ c, stoull (torn.takeWhile (· ≠ bar)) = .ok n := by
  obtain ⟨idStr, op', data, hf⟩ := exists_walFields torn op
  have hid : (walFields torn op).1 = idStr := by rw [hf]
  rw [lines_unterminated ht hne] at hscan
  rw [← walFields_fst torn op, hid]
  cases hn : stoull idStr with
  | error f =>
    rw [scanLines_error (hid ▸ hn)] at hscan
    cases hscan
  | ok n =>
    refine ⟨n, ?_, rfl⟩
    by_contra hc
    rw [scanLines_cons hf hn, if_pos (Nat.not_le.mp hc)] at hscan
    split at hscan
    · cases hscan
      rw [ScanEnd.eofbit, unterminated_torn whole ht hne] at heof
      cases heof
    · cases hscan

/-- A number that is not above the cutoff is not the id of the line behind it. -/
theorem bar_notMem_torn {c idx : Nat} {torn l : Bytes}
    (htorn : torn = [] ∨ ∃ m ≤ c, stoull (torn.takeWhile (· ≠ bar)) = .ok m) (hc : c < idx)
    (hid : stoull ((torn ++ l).takeWhile (· ≠ bar)) = .ok idx) : bar ∉ torn := by
  intro hmem
  rcases htorn with rfl | ⟨m, hle, hm⟩
  · cases hmem
  · obtain ⟨t₁, t₂, ht, rfl⟩ := exists_split_of_mem hmem
    rw [List.append_assoc, List.cons_append, takeWhile_ne_append ht] at hid
    rw [takeWhile_ne_append ht, hid] at hm
    cases hm
    omega

/-- The first line of a record, and the lines that a newline in its data makes of the rest. -/
theorem exists_firstLine (body : Bytes) : ∃ b rest more, body = b ++ rest ∧ newline ∉ b ∧
    (∀ idx torn, newline ∉ torn →
      lines (torn ++ ((upsertRecord idx body).line ++ [newline])) = (torn ++ (upsertRecord idx b).line) :: more) ∧
    (rest = [] ∧ more = [] ∨ ∃ b₂, rest = newline :: b₂ ∧ more = lines (b₂ ++ [newline])) := by
  by_cases hn : newline ∈ body
  · obtain ⟨b₁, b₂, hb₁, rfl⟩ := exists_split_of_mem hn
    refine ⟨b₁, newline :: b₂, lines (b₂ ++ [newline]), rfl, hb₁, fun idx torn ht => ?_, Or.inr ⟨b₂, rfl, rfl⟩⟩
    have hline : torn ++ ((upsertRecord idx (b₁ ++ newline :: b₂)).line ++ [newline]) =
        (torn ++ (upsertRecord idx b₁).line) ++ newline :: (b₂ ++ [newline]) := by
      simp [WalRecord.line, walLine, upsertRecord]
    rw [hline, lines_append_newline (newline_notMem_line ht hb₁ idx)]
  · refine ⟨body, [], [], (List.append_nil body).symm, hn, fun idx torn ht => ?_, Or.inl ⟨rfl, rfl⟩⟩
    rw [← List.append_assoc, lines_append_newline (newline_notMem_line ht hn idx), lines_nil]

theorem mem_of_mem_firstLine {a b : Bytes} {c : UInt8} (h : c ∈ (a ++ newline :: b).takeWhile (· ≠ newline)) :
    c ∈ a := by
  by_cases hn : newline ∈ a
  · obtain ⟨a₁, a₂, ha, rfl⟩ := exists_split_of_mem hn
    rw [List.append_assoc, List.cons_append, takeWhile_ne_append ha] at h
    exact List.mem_append_left _ h
  · rwa [takeWhile_ne_append hn] at h

/-- A blank line ends a reload with an exception. -/
theorem scanLines_blank {c : Nat} {op s : Bytes} (hs : s ≠ []) (h : ∀ x ∈ s.takeWhile (· ≠ newline), isSpace x = true) :
    scanLines c op (lines s) = .error .invalidArgument := by
  rw [lines_eq hs]
  apply scanLines_error
  rw [walFields_fst, stoull, scanInt_blank fun x hx => h x ((List.takeWhile_sublist _).subset hx)]

/-- What the server read before, and the record that is read behind it. -/
theorem exists_record_scanned {entry : WalEntry} (h : ReadBack parse cutoff before [(idx, body)] after entry) :
    ∃ whole torn rs op xs e ys f, before = whole ++ torn ∧ unterminated whole = false ∧ newline ∉ torn ∧
      scanLines (cutoff.getD 0) [] (lines whole) = .ok (rs, .through op) ∧
      scanLines (cutoff.getD 0) op (lines torn) = .ok (xs, e) ∧ e.eofbit (whole ++ torn) = false ∧
      scanLines (cutoff.getD 0) op (lines (torn ++ ((upsertRecord idx body).line ++ [newline]))) = .ok (ys, f) ∧
      ys.map (RawEntry.entry parse) = xs.map (RawEntry.entry parse) ++ [entry] := by
  obtain ⟨es, w, es', hread, -, hwritten, -⟩ := h
  obtain ⟨rs₁, e₁, hscan₁, rfl, heof, hcontent⟩ := readWALStream_eq_ok parse hread
  obtain ⟨rs₂, e₂, hscan₂, hes⟩ := (readWAL_eq_ok_iff parse).mp hwritten
  rw [content_writeWALLogs_single, hcontent] at hscan₂
  have hlen : rs₂.length = rs₁.length + 1 := by
    have := congrArg List.length hes
    simpa using this
  have hgood : w.eofbit = false := by
    cases hw : w.eofbit with
    | false => rfl
    | true =>
      rw [hw, if_pos rfl, hscan₁] at hscan₂
      cases hscan₂
      omega
  rw [hgood, if_neg Bool.false_ne_true] at hscan₂
  obtain ⟨whole, torn, rfl, hw, ht⟩ := exists_torn before
  rw [List.append_assoc, lines_append hw, scanLines_append] at hscan₂
  have hscan₁' := hscan₁
  rw [lines_append hw, scanLines_append] at hscan₁'
  cases hscan : scanLines (cutoff.getD 0) [] (lines whole) with
  | error e =>
    rw [hscan] at hscan₁'
    cases hscan₁'
  | ok x =>
    obtain ⟨rs, e⟩ := x
    rw [hscan] at hscan₁' hscan₂
    cases e with
    | stopped unread =>
      cases hscan₁'
      cases hscan₂
      omega
    | through op =>
      obtain ⟨⟨xs, e⟩, hxs, hx⟩ := map_eq_ok.mp hscan₁'
      obtain ⟨⟨ys, f⟩, hys, hy⟩ := map_eq_ok.mp hscan₂
      cases hx
      cases hy
      refine ⟨whole, torn, rs, op, xs, _, ys, _, rfl, hw, ht, hscan, hxs, heof.trans hgood, hys, ?_⟩
      rw [List.map_append, List.map_append, List.append_assoc] at hes
      exact List.append_cancel_left hes

/-- A record that comes back has a line of its own. -/
theorem takes_of_readBack (hroot : RootSingular parse) (hnest : NotNested parse) (hnul : 0 ∉ body)
    (hdoc : parse body = some doc) (hobj : doc.isObject = true)
    (h : ReadBack parse cutoff before [(idx, body)] after ⟨idx, operationUpsert, doc⟩) :
    TakesRecord (cutoff.getD 0) idx before ∧ cutoff.getD 0 < idx ∧ newline ∉ body ∧ bar ∉ body := by
  obtain ⟨whole, torn, rs, op, xs, e, ys, f, rfl, hw, ht, hscan, hxs, heof, hys, hmap⟩ := exists_record_scanned h
  obtain ⟨b, rest, more, hbody, hb, hlines, hmore⟩ := exists_firstLine body
  rw [hlines idx torn ht] at hys
  have hlater : ∀ {op rs e}, scanLines (cutoff.getD 0) op more = .ok (rs, e) →
      ⟨idx, operationUpsert, doc⟩ ∉ rs.map (RawEntry.entry parse) := by
    intro op rs e hscan
    rcases hmore with ⟨-, rfl⟩ | ⟨b₂, rfl, rfl⟩
    · cases hscan
      exact List.not_mem_nil
    · exact entry_ne_of_later_line hnest hnul hdoc hobj hbody hscan
  obtain ⟨idStr, op', data, hf⟩ := exists_walFields (torn ++ (upsertRecord idx b).line) op
  obtain ⟨hnil, n, hn, hc, hentry, rs', e', hrest⟩ := first_line_delivers hf hys hmap hlater
  obtain rfl : xs = [] := List.map_eq_nil_iff.mp hnil
  obtain rfl : n = idx := congrArg WalEntry.logId hentry
  have htorn : torn = [] ∨ ∃ m ≤ cutoff.getD 0, stoull (torn.takeWhile (· ≠ bar)) = .ok m := by
    by_cases hne : torn = []
    · exact Or.inl hne
    · exact Or.inr (skipped_of_torn ht hne whole hxs heof)
  have hid : stoull ((torn ++ (upsertRecord n b).line).takeWhile (· ≠ bar)) = .ok n := by
    rw [← walFields_fst _ op, hf]
    exact hn
  have hbar := bar_notMem_torn htorn hc hid
  rw [walFields_torn hbar] at hf
  cases hf
  rw [takeWhile_ne_self hbar] at htorn
  have hdata : parse (b.takeWhile (· ≠ bar)) = some doc := by
    apply parse_of_entry_eq (w := b.dropWhile (· ≠ bar) ++ rest) (u := []) hnul hobj _ hentry
    rw [List.nil_append, ← List.append_assoc, List.takeWhile_append_dropWhile, hbody]
  have hsp := isSpace_of_entry hroot hdoc hobj hbody hdata
  refine ⟨⟨whole, torn, rs, op, rfl, hw, ht, hbar, hscan, htorn, hn⟩, hc, ?_⟩
  rcases hmore with ⟨rfl, rfl⟩ | ⟨b₂, rfl, rfl⟩
  · rw [List.append_nil] at hbody hsp
    rw [hbody]
    refine ⟨hb, fun hmem => ?_⟩
    obtain ⟨b₁, b₂, hb₁, rfl⟩ := exists_split_of_mem hmem
    rw [dropWhile_ne_append hb₁] at hsp
    exact absurd (hsp bar List.mem_cons_self) (by decide)
  · have hblank : ∀ x ∈ (b₂ ++ [newline]).takeWhile (· ≠ newline), isSpace x = true := by
      intro x hx
      apply hsp x
      exact List.mem_append_right _ (List.mem_cons_of_mem _ (mem_of_mem_firstLine hx))
    rw [scanLines_blank (by simp) hblank] at hrest
    cases hrest

theorem readable_fileOf {rs : List WalRecord} (h : ∀ r ∈ rs, r.Framed) (c : Nat) : Readable c (fileOf rs) := by
  obtain ⟨op, hscan⟩ := scanLines_fileOf h c []
  exact ⟨_, hscan⟩

/-- **What is replayed is what was committed.** A body that `/upsert` accepts, logged behind any content and before
any other, is read back as the document that its commit applies, with what is read of its neighbours, exactly when the
content before it takes its record, the content after it is readable, its index is above the cutoff, and it holds no
newline and no `'|'`. -/
theorem readWAL_body_iff {S : BufferSerializer} (hroot : RootSingular parse) (hnest : NotNested parse) {payload : Bytes}
    {res : HttpServer.Response} (hnul : 0 ∉ body)
    (hacc : HttpServer.upsertHandler parse S (some true) body = .ok (res, some payload)) {store store' : InmemLogStore}
    {term : Nat} {ws : List WalWrite} (happ : store.append ⟨term, payload, .appLog⟩ = .ok (store', idx, ws)) :
    ReadBack parse cutoff before ws after ⟨idx, operationUpsert, LogStateMachine.jsonRequest parse payload⟩ ↔
      TakesRecord (cutoff.getD 0) idx before ∧ Readable (cutoff.getD 0) after ∧ cutoff.getD 0 < idx ∧
        newline ∉ body ∧ bar ∉ body := by
  obtain ⟨rfl, doc, hdoc, hobj⟩ := HttpServer.upsertHandler_accepts parse hacc
  obtain ⟨-, -, rfl⟩ := InmemLogStore.append_eq_ok happ
  have hreq : LogStateMachine.jsonRequest parse (S.putStr body) = doc := by
    rw [HttpServer.jsonRequest_putStr, HttpServer.jsonRequest, hdoc, Option.getD_some]
  rw [cstr_eq_self hnul] at hdoc
  rw [InmemLogStore.walWrites, if_pos rfl, S.drop_putStr, hreq]
  constructor
  · intro h
    obtain ⟨hb, hc, hn, hbar⟩ := takes_of_readBack hroot hnest hnul hdoc hobj h
    obtain ⟨-, -, es', -, hafter, -⟩ := h
    obtain ⟨rs, e, hscan, -⟩ := (readWAL_eq_ok_iff parse).mp hafter
    exact ⟨hb, ⟨_, hscan⟩, hc, hn, hbar⟩
  · rintro ⟨hb, ha, hc, hn, hbar⟩
    apply readBack_of_takes hb ha hc hn
    rw [takeWhile_ne_self hbar, cstr_eq_self hnul, hdoc]

/-! ## A body between two records, and one with a newline -/

section
variable {body : Bytes} {doc : Json}

theorem eq_of_tableParser {t : Bytes} {d : Json} (h : tableParser [(body, doc)] t = some d) : body = t := by
  obtain ⟨e, he, -⟩ := Option.map_eq_some_iff.mp h
  have := List.find?_some he
  rw [List.mem_singleton.mp (List.mem_of_find?_eq_some he)] at this
  simpa using this

theorem rootSingular_tableParser (body : Bytes) (doc : Json) : RootSingular (tableParser [(body, doc)]) := by
  intro t u d e ht _ hu c hc
  obtain rfl : u = [] := by simpa using (eq_of_tableParser ht).symm.trans (eq_of_tableParser hu)
  cases hc

theorem notNested_tableParser (body : Bytes) (doc : Json) : NotNested (tableParser [(body, doc)]) := by
  intro u v w d hv _ hu c hc
  have hlen := congrArg List.length ((eq_of_tableParser hv).symm.trans (eq_of_tableParser hu))
  rw [List.length_append, List.length_append] at hlen
  obtain rfl : u = [] := List.length_eq_zero_iff.mp (by omega)
  cases hc

end

open LogStateMachine in
/-- Behind a record and the torn id of another, and before a third. -/
theorem readWAL_newFieldBody : ReadBack newFieldParser none (fileOf [upsertRecord 10 newFieldBody] ++ [48])
    (InmemLogStore.walWrites (InmemLogStore.mk' 10).nextSlot ⟨0, lengthPrefix.putStr newFieldBody, .appLog⟩)
    (fileOf [upsertRecord 12 newFieldBody]) ⟨(InmemLogStore.mk' 10).nextSlot, operationUpsert,
      jsonRequest newFieldParser (lengthPrefix.putStr newFieldBody)⟩ := by
  have hframed : ∀ n < 2 ^ 64, ∀ r ∈ [upsertRecord n newFieldBody], r.Framed := fun n hn =>
    List.forall_mem_singleton.mpr (VectorDatabase.upsertRecord_framed hn (by decide))
  obtain ⟨op, hscan⟩ := scanLines_fileOf (hframed 10 (by decide)) 0 []
  have htakes : TakesRecord 0 (InmemLogStore.mk' 10).nextSlot (fileOf [upsertRecord 10 newFieldBody] ++ [48]) := by
    refine ⟨_, _, _, op, rfl, unterminated_fileOf _, by decide, by decide, hscan, Or.inr ⟨0, Nat.le_refl 0, by rfl⟩, ?_⟩
    rw [InmemLogStore.nextSlot_mk']
    rfl
  exact (readWAL_body_iff (rootSingular_tableParser _ _) (notNested_tableParser _ _) (by decide)
    (by rfl : HttpServer.upsertHandler newFieldParser lengthPrefix (some true) newFieldBody =
      .ok (HttpServer.success [], some (lengthPrefix.putStr newFieldBody)))
    (InmemLogStore.append_of_le (by decide))).mpr
      ⟨htakes, readable_fileOf (hframed 12 (by decide)) 0, by simp, by decide, by decide⟩

/-- A request body printed over two lines. -/
def prettyBody : Bytes := ascii "\x7b\"id\":1,\n\"vectors\":[0],\"indexType\":\"FLAT\"\x7d"

def prettyParser : Bytes → Option Json := tableParser [(prettyBody, flatDocument 1 0 [])]

/-- A newline in the body cuts its record in two, wherever it is logged. -/
theorem pretty_body_not_replayed : ¬ ∀ (body payload : Bytes) (res : HttpServer.Response) (store store' : InmemLogStore)
    (term idx : Nat) (ws : List WalWrite) (before after : List WalRecord) (cutoff : Option Nat), 0 ∉ body →
    HttpServer.upsertHandler prettyParser lengthPrefix (some true) body = .ok (res, some payload) →
    store.append ⟨term, payload, .appLog⟩ = .ok (store', idx, ws) → idx < 2 ^ 64 → (∀ r ∈ before, r.Framed) →
    (∀ r ∈ after, r.Framed) → cutoff.getD 0 < idx →
    ReadBack prettyParser cutoff (fileOf before) ws (fileOf after)
      ⟨idx, operationUpsert, LogStateMachine.jsonRequest prettyParser payload⟩ := by
  intro h
  have hdoc : prettyParser prettyBody = some (flatDocument 1 0 []) := by rfl
  have hread := h prettyBody (lengthPrefix.putStr prettyBody) (HttpServer.success []) (InmemLogStore.mk' 10) _ 0 _ _ [] []
    none (by decide) (by rfl) (InmemLogStore.append_of_le (by decide)) (by simp) framed_nil framed_nil (by simp)
  rw [HttpServer.jsonRequest_putStr, InmemLogStore.walWrites, if_pos rfl, lengthPrefix.drop_putStr] at hread
  have hclean := takes_of_readBack (rootSingular_tableParser _ _) (notNested_tableParser _ _) (by decide) hdoc rfl hread
  exact absurd hclean.2.2.1 (by decide)

end Persistence
end VectorDb
