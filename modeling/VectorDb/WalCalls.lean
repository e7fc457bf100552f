import VectorDb.Persistence

/-!
# The calls that read a WAL

* `Calls` : `readNextWALLog` with a cleared operation, again and again until it leaves the operation empty;
* `calls_iff_readWAL` : they are what a reload's `readWAL` makes;
* `written`, `opened` : a WAL that `writeWALRawLog` wrote, read from its start;
* `calls_written_iff` : on it the calls end, and return the records above the cutoff.
-/

namespace VectorDb
namespace Persistence

variable (parse : Bytes → Option Json)

/-- The calls until one leaves the operation empty: what the others return, and the state after the last. Call `i` is
given the document `docs i`. -/
inductive Calls : (Nat → Json) → Persistence → List WalEntry → Persistence → Prop where
  | last {docs : Nat → Json} {p : Persistence} {r : WalRead} (hread : readNextWALLog parse p [] (docs 0) = .ok r)
      (hop : r.operationType = []) : Calls docs p [] r.persistence
  | more {docs : Nat → Json} {p q : Persistence} {r : WalRead} {es : List WalEntry}
      (hread : readNextWALLog parse p [] (docs 0) = .ok r) (hop : r.operationType ≠ [])
      (rest : Calls (fun i => docs (i + 1)) r.persistence es q) :
      Calls docs p (⟨r.logId, r.operationType, r.jsonData⟩ :: es) q

namespace Calls
variable {parse} {docs : Nat → Json} {p q : Persistence} {es : List WalEntry} {r : WalRead}

/-- A call that leaves the operation empty is the last. -/
theorem last_iff (hread : readNextWALLog parse p [] (docs 0) = .ok r) (hop : r.operationType = []) :
    Calls parse docs p es q ↔ es = [] ∧ q = r.persistence := by
  constructor
  · intro h
    cases h with
    | last hread' hop' =>
      cases hread.symm.trans hread'
      exact ⟨rfl, rfl⟩
    | more hread' hop' rest =>
      cases hread.symm.trans hread'
      exact absurd hop hop'
  · rintro ⟨rfl, rfl⟩
    exact last hread hop

/-- A call that does not is followed by others. -/
theorem more_iff (hread : readNextWALLog parse p [] (docs 0) = .ok r) (hop : r.operationType ≠ []) :
    Calls parse docs p es q ↔ ∃ es', es = ⟨r.logId, r.operationType, r.jsonData⟩ :: es' ∧
      Calls parse (fun i => docs (i + 1)) r.persistence es' q := by
  constructor
  · intro h
    cases h with
    | last hread' hop' =>
      cases hread.symm.trans hread'
      exact absurd hop' hop
    | more hread' hop' rest =>
      cases hread.symm.trans hread'
      exact ⟨_, rfl, rest⟩
  · rintro ⟨es', rfl, rest⟩
    exact more hread hop rest

/-- A call that throws is none of them. -/
theorem not_of_error {e : Fault} (hread : readNextWALLog parse p [] (docs 0) = .error e) : ¬ Calls parse docs p es q := by
  intro h
  cases h with
  | last hread' _ => cases hread.symm.trans hread'
  | more hread' _ _ => cases hread.symm.trans hread'

/-- Calls that start alike are alike. -/
theorem congr {p' : Persistence} (h : readNextWALLog parse p [] (docs 0) = readNextWALLog parse p' [] (docs 0)) :
    Calls parse docs p es q ↔ Calls parse docs p' es q := by
  cases hread : readNextWALLog parse p' [] (docs 0) with
  | error e => exact iff_of_false (not_of_error (h.trans hread)) (not_of_error hread)
  | ok r =>
    by_cases hop : r.operationType = []
    · rw [last_iff (h.trans hread) hop, last_iff hread hop]
    · rw [more_iff (h.trans hread) hop, more_iff hread hop]

end Calls

/-- **A reload reads by these calls**, each with an empty document. -/
theorem calls_iff_readWAL {p q : Persistence} {es : List WalEntry} :
    Calls parse (fun _ => .null) p es q ↔ readWAL parse p = .ok (es, q) := by
  unfold readWAL
  generalize hn : p.walLogFile.unread.length = n
  induction n using Nat.strongRecOn generalizing p es with
  | ind n ih =>
    simp only [readAll]
    cases hread : readNextWALLog parse p [] .null with
    | error e =>
      refine iff_of_false (Calls.not_of_error hread) ?_
      simp
    | ok r =>
      by_cases hop : r.operationType = []
      · rw [Calls.last_iff hread hop]
        simp only [hop, if_true, Except.ok.injEq, Prod.mk.injEq]
        constructor
        · rintro ⟨rfl, rfl⟩
          exact ⟨rfl, rfl⟩
        · rintro ⟨rfl, rfl⟩
          exact ⟨rfl, rfl⟩
      · have hlt : r.persistence.walLogFile.unread.length < n := hn ▸ unread_lt_of_readLines parse hread hop
        have hfuel : readAll parse n r.persistence = readWAL parse r.persistence := readAll_fuel parse hlt
        rw [Calls.more_iff hread hop]
        simp only [hop, if_false, hfuel, readWAL]
        constructor
        · rintro ⟨es', rfl, hrest⟩
          rw [(ih _ hlt rfl).mp hrest]
        · intro hall
          split at hall
          · cases hall
          · rename_i es' q' hrest
            cases hall
            exact ⟨es', rfl, (ih _ hlt rfl).mpr hrest⟩

/-! ## A WAL and its reading -/

/-- The state after these `writeWALRawLog` calls on an empty file. -/
def written (rs : List WalRecord) : Persistence :=
  rs.foldl (fun p r => p.writeWALRawLog r.logId r.operationType r.rawData r.version) (init [] none)

theorem content_written (rs : List WalRecord) : (written rs).walLogFile.content = fileOf rs := by
  induction rs using List.reverseRecOn with
  | nil => rfl
  | append_singleton rs r ih =>
    rw [written, List.foldl_append, ← written, fileOf_append, ← ih]
    exact congrArg _ (List.append_nil _).symm

/-- The file, not read yet. -/
def opened (content : Bytes) (increaseID lastSnapshotID : Nat) : Persistence :=
  ⟨increaseID, lastSnapshotID, ⟨content, lines content⟩⟩

/-- What call `i` returns of a record. -/
def WalRecord.returned (docs : Nat → Json) (i : Nat) (r : WalRecord) : WalEntry :=
  ⟨r.logId, r.operationType, (parse (cstr (r.rawData.takeWhile (· ≠ bar)))).getD (docs i)⟩

/-- **Framed records** are returned from the cutoff on, one by each call, and all are counted. -/
theorem calls_records_iff {rs : List WalRecord} (h : ∀ r ∈ rs, r.Framed) {docs : Nat → Json} {p q : Persistence}
    {es : List WalEntry} : Calls parse docs (p.withUnread (rs.map WalRecord.line)) es q ↔
      es = (p.replayed rs).mapIdx (WalRecord.returned parse docs) ∧ q = (p.bumpAll rs).withUnread [] := by
  induction rs generalizing p docs es with
  | nil => exact Calls.last_iff (r := ⟨p.withUnread [], [], docs 0, 0⟩) rfl rfl
  | cons r rs ih =>
    have hr := h r List.mem_cons_self
    have hrs : ∀ x ∈ rs, x.Framed := fun x hx => h x (List.mem_cons_of_mem _ hx)
    rw [List.map_cons]
    rcases Nat.lt_or_ge p.lastSnapshotID r.logId with hid | hid
    · have hread : readNextWALLog parse (p.withUnread (r.line :: rs.map WalRecord.line)) [] (docs 0) =
          .ok ⟨(p.bump r.logId).withUnread (rs.map WalRecord.line), r.operationType,
            (parse (cstr (r.rawData.takeWhile (· ≠ bar)))).getD (docs 0), r.logId⟩ := by
        rw [readNextWALLog, unread_withUnread, readLines_withUnread, readLines_delivered parse hr (docs 0) _ hid]
      have hrep : p.replayed (r :: rs) = r :: p.replayed rs := by simp [replayed, hid]
      rw [Calls.more_iff hread hr.operation_ne, hrep, List.mapIdx_cons]
      simp only [ih hrs, replayed_bump]
      constructor
      · rintro ⟨es', rfl, rfl, rfl⟩
        exact ⟨rfl, rfl⟩
      · rintro ⟨rfl, rfl⟩
        exact ⟨_, rfl, rfl, rfl⟩
    · -- the skipped record leaves its operation behind, and the next line overwrites it
      have hop : OpFree (rs.map WalRecord.line) := by
        cases rs with
        | nil => exact Or.inl rfl
        | cons x rs => exact Or.inr ⟨x, rs.map WalRecord.line, hrs x List.mem_cons_self, rfl⟩
      have hread : readNextWALLog parse (p.withUnread (r.line :: rs.map WalRecord.line)) [] (docs 0) =
          readNextWALLog parse ((p.bump r.logId).withUnread (rs.map WalRecord.line)) [] (docs 0) := by
        rw [readNextWALLog, readNextWALLog, unread_withUnread, unread_withUnread, readLines_withUnread,
          readLines_withUnread, readLines_skipped parse hr (docs 0) _ hid, hop.readLines_eq]
      have hrep : p.replayed (r :: rs) = p.replayed rs := by simp [replayed, Nat.not_lt.mpr hid]
      rw [Calls.congr hread, ih hrs, replayed_bump, hrep]
      rfl

section
variable {rs : List WalRecord} (increaseID lastSnapshotID : Nat)

theorem withUnread_opened (h : ∀ r ∈ rs, r.Framed) : (opened (fileOf rs) increaseID lastSnapshotID).withUnread
    (rs.map WalRecord.line) = opened (fileOf rs) increaseID lastSnapshotID := by
  rw [← lines_fileOf h]
  rfl

/-- Without a `'|'` in the payloads the calls return all of them. -/
theorem returned_replayed (docs : Nat → Json) (hdata : ∀ r ∈ rs, bar ∉ r.rawData) (content : Bytes) :
    ((opened content increaseID lastSnapshotID).replayed rs).mapIdx (WalRecord.returned parse docs) =
      (rs.filter fun r => lastSnapshotID < r.logId).mapIdx
        fun i r => ⟨r.logId, r.operationType, (parse (cstr r.rawData)).getD (docs i)⟩ := by
  show (rs.filter fun r => lastSnapshotID < r.logId).mapIdx _ = _
  apply List.ext_getElem
  · rw [List.length_mapIdx, List.length_mapIdx]
  · intro i hi _
    rw [List.length_mapIdx] at hi
    have hmem := List.mem_of_mem_filter (List.getElem_mem hi)
    rw [List.getElem_mapIdx, List.getElem_mapIdx, WalRecord.returned, takeWhile_ne_self (hdata _ hmem)]

theorem bumpAll_opened (content : Bytes) : ((opened content increaseID lastSnapshotID).bumpAll rs).withUnread [] =
    ⟨(rs.map WalRecord.logId).foldl max increaseID, lastSnapshotID, ⟨content, []⟩⟩ := by
  unfold withUnread
  rw [increaseID_bumpAll, lastSnapshotID_bumpAll, walLogFile_bumpAll]
  rfl

end

/-- **The records above the cutoff.** On every WAL that `writeWALRawLog` wrote of framed records whose payloads have no
`'|'`, from every cutoff and counter, the calls end: they return the operation and the payload of each record above the
cutoff, in file order, and leave the counter at the maximum of its start and all ids. -/
theorem calls_written_iff (docs : Nat → Json) {rs : List WalRecord} (h : ∀ r ∈ rs, r.Framed)
    (hdata : ∀ r ∈ rs, bar ∉ r.rawData) (increaseID lastSnapshotID : Nat) {es : List WalEntry} {q : Persistence} :
    Calls parse docs (opened (written rs).walLogFile.content increaseID lastSnapshotID) es q ↔
      es = (rs.filter fun r => lastSnapshotID < r.logId).mapIdx
        (fun i r => ⟨r.logId, r.operationType, (parse (cstr r.rawData)).getD (docs i)⟩) ∧
      q = ⟨(rs.map WalRecord.logId).foldl max increaseID, lastSnapshotID, ⟨(written rs).walLogFile.content, []⟩⟩ := by
  rw [content_written, ← withUnread_opened increaseID lastSnapshotID h, calls_records_iff parse h,
    returned_replayed parse increaseID lastSnapshotID docs hdata, bumpAll_opened]

/-- A record that the cutoff 20 skips, and one above it. -/
def twoRecords : List WalRecord :=
  [⟨12, ascii "remove", ascii "0", ascii "1.0"⟩, ⟨21, ascii "upsert", ascii "1", ascii "1.0"⟩]

theorem calls_written_twoRecords : Calls (tableParser [(ascii "1", .int 1)]) (fun _ => .null)
    (opened (written twoRecords).walLogFile.content 30 20) [⟨21, ascii "upsert", .int 1⟩]
    ⟨30, 20, ⟨(written twoRecords).walLogFile.content, []⟩⟩ := by
  have hframed : ∀ r ∈ twoRecords, r.Framed := by
    intro r hr
    rcases List.mem_cons.mp hr with rfl | hr
    · exact ⟨by decide, by decide, by decide, by decide, by decide⟩
    · obtain rfl := List.mem_singleton.mp hr
      exact ⟨by decide, by decide, by decide, by decide, by decide⟩
  exact (calls_written_iff _ _ hframed (by decide) 30 20).mpr ⟨by rfl, by rfl⟩

end Persistence
end VectorDb
