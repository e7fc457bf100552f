import VectorDb.Lib.SeqLog
import VectorDb.LogWal

/-!
# The log store as a sequence

* `SeqStep` : what each mutator does to a sequence of entries that begins at an index;
* `Refines` : the store holds the dummy entry, and from 1 on the entries of the sequence;
* `BehavesAs` : what the store returns, in terms of the sequence;
* `refines_run`, `behavesAs_run` : every run of the four mutators keeps a store and its sequence together.
-/

namespace VectorDb
open Std (ExtTreeMap)

/-- A pack continues the sequence; in an empty one it sets the start, an empty pack to 1. -/
def SeqLog.addPack (l : SeqLog LogEntry) (index : Nat) (les : List LogEntry) : SeqLog LogEntry :=
  if l.entries = [] then (if les = [] then ⟨1, []⟩ else ⟨index, les⟩) else l.extend les

/-- One call on the sequence. -/
def SeqStep (C : LogEntryCodec) (l : SeqLog LogEntry) : LogAction → SeqLog LogEntry → Prop
  | .append e, m => m = l.append e
  | .writeAt index e, m => m = l.writeAt index e
  | .applyPack index pack, m => ∃ les, InmemLogStore.unpack C pack = some les ∧ m = l.addPack index les
  | .compact n, m => m = l.compact n

/-- A pack goes to an index from 1 on. -/
def LogAction.FromOne : LogAction → Prop
  | .applyPack index _ => 1 ≤ index
  | _ => True

namespace InmemLogStore

/-- The store holds the sequence beside its dummy entry. -/
structure Refines (s : InmemLogStore) (l : SeqLog LogEntry) : Prop where
  pos : 1 ≤ l.start
  start : s.startIdx = l.start
  dummy : (s.logs[0]?).isSome = true
  get : ∀ i, i ≠ 0 → s.logs[i]? = l.get? i

/-- What the store returns, and that an append finds its index. -/
structure BehavesAs (s : InmemLogStore) (l : SeqLog LogEntry) : Prop where
  keys : s.logs.keys = 0 :: List.range' s.startIndex (s.nextSlot - s.startIndex)
  startIndex : s.startIndex = l.start
  nextSlot : s.nextSlot = l.next
  entryAt : ∀ i, s.startIndex ≤ i → i < s.nextSlot →
    ∃ e, l.get? i = some e ∧ s.entryAt i = some e ∧ s.termAt i = some e.term
  lastEntry : ∀ e, l.entries.getLast? = some e → s.lastEntry = some e
  logEntries : ∀ i j, s.startIndex ≤ i → i ≤ j → j ≤ s.nextSlot → s.logEntries i j = .ok (l.slice i j)
  logEntriesExt_zero : ∀ i j, s.startIndex ≤ i → i ≤ j → j ≤ s.nextSlot → s.logEntriesExt i j 0 = .ok (l.slice i j)
  logEntriesExt_pos : ∀ i j (hint : Int), s.startIndex ≤ i → i ≤ j → j ≤ s.nextSlot → 0 < hint →
    ∃ p, s.logEntriesExt i j hint = .ok p ∧ ReachedBy (fun e => e.buf.length) hint.toNat p (l.slice i j)
  append : ∀ e, 4 ≤ e.buf.length → ∃ t ws, s.append e = .ok (t, s.nextSlot, ws) ∧ t.Refines (l.append e)
  writeAt : ∀ i e, s.startIndex ≤ i → i ≤ s.nextSlot → 4 ≤ e.buf.length →
    ∃ t ws, s.writeAt i e = .ok (t, ws) ∧ t.Refines (l.writeAt i e)
  compact : ∀ n, (s.compact n).Refines (l.compact n)

/-! ## The operations -/

theorem refines_mk' (n : Nat) : (mk' n).Refines ⟨n + 1, []⟩ where
  pos := Nat.succ_le_succ n.zero_le
  start := rfl
  dummy := by rw [getElem?_mk', if_pos rfl]; rfl
  get i hi := by
    rw [getElem?_mk', if_neg hi]
    exact (SeqLog.get?_eq_none_iff.mpr (Nat.lt_or_ge i (n + 1))).symm

namespace Refines
variable {s t : InmemLogStore} {l : SeqLog LogEntry}

theorem nextSlot_and_contiguous (h : s.Refines l) : s.nextSlot = l.next ∧ s.Contiguous := by
  have hpos := h.pos
  have hstart := h.start
  apply contiguous_of_isSome
  · omega
  · rw [hstart]
    exact Nat.le_add_right _ _
  · intro i
    by_cases hi : i = 0
    · subst hi
      simp [h.dummy]
    · rw [h.get i hi, SeqLog.isSome_get?_iff, hstart]
      omega

theorem nextSlot (h : s.Refines l) : s.nextSlot = l.next := h.nextSlot_and_contiguous.1

theorem contiguous (h : s.Refines l) : s.Contiguous := h.nextSlot_and_contiguous.2

theorem append (h : s.Refines l) {e : LogEntry} {idx : Nat} {ws : List WalWrite} (ha : s.append e = .ok (t, idx, ws)) :
    t.Refines (l.append e) := by
  obtain ⟨-, rfl, -⟩ := append_eq_ok ha
  have hnext := h.nextSlot
  have hpos := h.pos
  have hle : l.start ≤ l.next := Nat.le_add_right _ _
  constructor
  case pos => exact h.pos
  case start => exact h.start
  case dummy =>
    show ((s.logs.insert s.nextSlot e)[0]?).isSome = true
    rw [getElem?_insert_nat, if_neg (by omega)]
    exact h.dummy
  case get =>
    intro i hi
    show (s.logs.insert s.nextSlot e)[i]? = _
    rw [getElem?_insert_nat, hnext, SeqLog.get?_append, h.get i hi]

theorem writeAt (h : s.Refines l) {index : Nat} (hi : s.startIdx ≤ index ∧ index ≤ s.nextSlot) {e : LogEntry}
    {ws : List WalWrite} (hw : s.writeAt index e = .ok (t, ws)) : t.Refines (l.writeAt index e) := by
  obtain ⟨rfl, -⟩ := writeAt_eq_ok hw
  have hpos := h.pos
  rw [h.start, h.nextSlot] at hi
  constructor
  case pos => exact h.pos
  case start => exact h.start
  case dummy =>
    show (((s.logs.filter fun i _ => i < index).insert index e)[0]?).isSome = true
    rw [getElem?_insert_nat, if_neg (by omega), getElem?_filter_key, if_pos (by simp only [decide_eq_true_eq]; omega)]
    exact h.dummy
  case get =>
    intro i hi0
    show ((s.logs.filter fun i _ => i < index).insert index e)[i]? = _
    rw [getElem?_insert_nat, getElem?_filter_key, SeqLog.get?_writeAt hi, h.get i hi0]
    simp only [decide_eq_true_eq]

theorem compact (h : s.Refines l) (n : Nat) : (s.compact n).Refines (l.compact n) := by
  have hpos := h.pos
  have hstart : (s.compact n).startIdx = (l.compact n).start := by
    unfold InmemLogStore.compact SeqLog.compact
    rw [h.start]
    split <;> rfl
  constructor
  case pos =>
    unfold SeqLog.compact
    split
    · exact Nat.succ_le_succ n.zero_le
    · exact hpos
  case start => exact hstart
  case dummy =>
    rw [getElem?_compact, if_neg (by rw [h.start]; omega)]
    exact h.dummy
  case get =>
    intro i hi
    rw [getElem?_compact, SeqLog.get?_compact, h.get i hi, h.start]
    by_cases hn : i ≤ n
    · rw [if_pos hn]
      split
      · rfl
      · exact SeqLog.get?_eq_none_iff.mpr (by omega)
    · rw [if_neg hn, if_neg (by omega)]

/-- A store whose entries from 1 on are those of a sequence, and whose start is recomputed. -/
theorem of_first_key {les : List LogEntry} {a : Nat} (ha : 1 ≤ a) (hdummy : (t.logs[0]?).isSome = true)
    (hget : ∀ i, i ≠ 0 → t.logs[i]? = SeqLog.get? ⟨a, les⟩ i)
    (hs : t.startIdx = (t.logs.keys.find? fun i => 0 < i).getD 1) :
    t.Refines (if les = [] then ⟨1, []⟩ else ⟨a, les⟩) := by
  have hkeys : t.logs.keys = 0 :: List.range' a (a + les.length - a) := by
    apply keys_of_isSome ha
    intro i
    by_cases hi : i = 0
    · subst hi
      simp [hdummy]
    · rw [hget i hi, SeqLog.isSome_get?_iff]
      show a ≤ i ∧ i < a + les.length ↔ _
      omega
  rw [hkeys, List.find?_cons_of_neg (by decide), Nat.add_sub_cancel_left] at hs
  cases les with
  | nil =>
    refine ⟨Nat.le_refl 1, hs, hdummy, fun i hi => ?_⟩
    rw [hget i hi]
    exact (SeqLog.get?_eq_none_iff.mpr (Nat.lt_or_ge i a)).trans (SeqLog.get?_eq_none_iff.mpr (Nat.lt_or_ge i 1)).symm
  | cons e les =>
    have hpos : 0 < a := ha
    rw [List.length_cons, List.range'_succ, List.find?_cons_of_pos (by simpa using hpos), Option.getD_some] at hs
    exact ⟨ha, hs, hdummy, hget⟩

theorem applyPack (h : s.Refines l) {C : LogEntryCodec} {index : Nat} {pack : Bytes} (hindex : 1 ≤ index)
    (hi : index = s.nextSlot ∨ s.startIdx = s.nextSlot) (hp : applyPack C s index pack = some t) :
    ∃ les, unpack C pack = some les ∧ t.Refines (l.addPack index les) := by
  obtain ⟨les, hles, hlogs, hstart⟩ := applyPack_eq_some hp
  have hnext := h.nextSlot
  have hpos := h.pos
  have hdummy : (t.logs[0]?).isSome = true := by
    rw [hlogs, getElem?_insertAll, if_neg (by omega)]
    exact h.dummy
  refine ⟨les, hles, ?_⟩
  unfold SeqLog.addPack
  split
  · rename_i hnil
    apply of_first_key hindex hdummy _ hstart
    intro i hi
    have hnone : l.get? i = none := by
      rw [SeqLog.get?_eq_none_iff, SeqLog.next, hnil]
      exact Nat.lt_or_ge i l.start
    rw [hlogs, getElem?_insertAll, h.get i hi, hnone]
    unfold SeqLog.get?
    simp only
    split
    · rw [if_pos (by omega)]
    · split
      · rw [eq_comm, List.getElem?_eq_none_iff]
        omega
      · rfl
  · rename_i hne
    have hlen : 0 < l.entries.length := List.length_pos_of_ne_nil hne
    have hidx : index = l.next := by
      rw [h.start, hnext] at hi
      unfold SeqLog.next at hi ⊢
      omega
    have hext : (l.entries ++ les) ≠ [] := List.append_ne_nil_of_left_ne_nil hne les
    have hget : ∀ i, i ≠ 0 → t.logs[i]? = SeqLog.get? ⟨l.start, l.entries ++ les⟩ i := by
      intro i hi
      have hextend : SeqLog.get? ⟨l.start, l.entries ++ les⟩ i = _ := SeqLog.get?_extend les i
      rw [hextend, hlogs, getElem?_insertAll, h.get i hi, hidx]
      by_cases hle : l.next ≤ i
      · rw [if_pos hle]
        split
        · rfl
        · rw [SeqLog.get?_eq_none_iff.mpr (Or.inr hle), eq_comm, List.getElem?_eq_none_iff]
          omega
      · rw [if_neg hle, if_neg (by omega)]
    have hr := of_first_key hpos hdummy hget hstart
    rwa [if_neg hext] at hr

/-! ## What is read -/

theorem loopEntry (h : s.Refines l) {i : Nat} {e : LogEntry} (he : l.get? i = some e) : s.loopEntry i = .ok e := by
  have hpos := h.pos
  have hr := SeqLog.isSome_get?_iff.mp (show (l.get? i).isSome = true by rw [he]; rfl)
  rw [InmemLogStore.loopEntry, h.get i (by omega), he]

theorem entryAt (h : s.Refines l) {i : Nat} {e : LogEntry} (he : l.get? i = some e) : s.entryAt i = some e := by
  have hpos := h.pos
  have hr := SeqLog.isSome_get?_iff.mp (show (l.get? i).isSome = true by rw [he]; rfl)
  rw [InmemLogStore.entryAt, h.get i (by omega), he, Option.some_or]

theorem entriesAt (h : s.Refines l) {i : Nat} (hi : l.start ≤ i) (n : Nat) (hn : i + n ≤ l.next) :
    s.entriesAt (List.range' i n) = .ok (l.slice i (i + n)) := by
  induction n generalizing i with
  | zero => rw [List.range'_zero, InmemLogStore.entriesAt, SeqLog.slice_of_le (Nat.le_of_eq (Nat.add_zero i))]
  | succ n ih =>
    obtain ⟨e, he⟩ := Option.isSome_iff_exists.mp (SeqLog.isSome_get?_iff.mpr ⟨hi, show i < l.next by omega⟩)
    have hrest := ih (i := i + 1) (by omega) (by omega)
    rw [show i + 1 + n = i + (n + 1) by omega] at hrest
    rw [List.range'_succ, InmemLogStore.entriesAt, h.loopEntry he, SeqLog.slice_cons (by omega) he]
    simp only [hrest, Except.map]

/-- Without a limit the loop goes to its end. -/
theorem extLoop_zero (h : s.Refines l) {i : Nat} (hi : l.start ≤ i) (n : Nat) (hn : i + n ≤ l.next) (accum : Nat) :
    s.extLoop 0 (List.range' i n) accum = .ok (l.slice i (i + n)) := by
  induction n generalizing i accum with
  | zero => rw [List.range'_zero, InmemLogStore.extLoop, SeqLog.slice_of_le (Nat.le_of_eq (Nat.add_zero i))]
  | succ n ih =>
    obtain ⟨e, he⟩ := Option.isSome_iff_exists.mp (SeqLog.isSome_get?_iff.mpr ⟨hi, show i < l.next by omega⟩)
    have hrest := ih (i := i + 1) (by omega) (by omega) (accum + e.buf.length)
    rw [show i + 1 + n = i + (n + 1) by omega] at hrest
    rw [List.range'_succ, InmemLogStore.extLoop, h.loopEntry he, SeqLog.slice_cons (by omega) he]
    simp [hrest, Except.map]

/-- The loop stops at the first entry at which the sizes reach the hint. -/
theorem extLoop_pos (h : s.Refines l) {i : Nat} (hi : l.start ≤ i) (n : Nat) (hn : i + n ≤ l.next) {hint accum : Nat}
    (hlt : accum < hint) : ∃ p, s.extLoop hint (List.range' i n) accum = .ok p ∧
      ReachedBy (fun e => e.buf.length) (hint - accum) p (l.slice i (i + n)) := by
  induction n generalizing i accum with
  | zero =>
    rw [List.range'_zero, SeqLog.slice_of_le (Nat.le_of_eq (Nat.add_zero i))]
    exact ⟨[], rfl, ReachedBy.nil⟩
  | succ n ih =>
    obtain ⟨e, he⟩ := Option.isSome_iff_exists.mp (SeqLog.isSome_get?_iff.mpr ⟨hi, show i < l.next by omega⟩)
    rw [List.range'_succ, InmemLogStore.extLoop, h.loopEntry he, SeqLog.slice_cons (by omega) he]
    simp only
    by_cases hreach : hint ≤ accum + e.buf.length
    · rw [if_pos ⟨by omega, hreach⟩]
      exact ⟨[e], rfl, ReachedBy.singleton (by omega) (by omega)⟩
    · obtain ⟨p, hp, hr⟩ := ih (show l.start ≤ i + 1 by omega) (by omega) (show accum + e.buf.length < hint by omega)
      rw [show i + 1 + n = i + (n + 1) by omega] at hr
      rw [if_neg fun hc => hreach hc.2, hp]
      refine ⟨e :: p, rfl, ReachedBy.cons (by omega) ?_⟩
      rwa [Nat.sub_sub]

/-- **What a store returns** is what its sequence holds. -/
theorem behavesAs (h : s.Refines l) : s.BehavesAs l := by
  have hstart : s.startIndex = l.start := h.start
  have hnext := h.nextSlot
  constructor
  case keys =>
    apply keys_of_isSome (hstart ▸ h.pos)
    exact h.contiguous.isSome_iff
  case startIndex => exact hstart
  case nextSlot => exact hnext
  case entryAt =>
    intro i h1 h2
    rw [hstart] at h1
    rw [hnext] at h2
    obtain ⟨e, he⟩ := Option.isSome_iff_exists.mp (SeqLog.isSome_get?_iff.mpr ⟨h1, h2⟩)
    exact ⟨e, he, h.entryAt he, by rw [termAt, h.entryAt he]; rfl⟩
  case lastEntry =>
    intro e he
    have hne : l.entries ≠ [] := by
      intro hnil
      rw [hnil] at he
      cases he
    rw [SeqLog.getLast?_entries hne, ← hnext] at he
    exact h.entryAt he
  case logEntries =>
    intro i j hi hij hj
    rw [InmemLogStore.logEntries, if_neg (Nat.not_lt.mpr hij), h.entriesAt (hstart ▸ hi) (j - i) (by omega),
      Nat.add_sub_cancel' hij]
  case logEntriesExt_zero =>
    intro i j hi hij hj
    have hr := h.extLoop_zero (hstart ▸ hi) (j - i) (by omega) 0
    rw [Nat.add_sub_cancel' hij] at hr
    exact hr
  case logEntriesExt_pos =>
    intro i j hint hi hij hj hpos
    obtain ⟨p, hp, hr⟩ := h.extLoop_pos (hstart ▸ hi) (j - i) (by omega) (show 0 < hint.toNat by omega)
    rw [Nat.add_sub_cancel' hij, Nat.sub_zero] at hr
    exact ⟨p, by rw [InmemLogStore.logEntriesExt, if_neg (by omega), hp], hr⟩
  case append =>
    intro e he
    exact ⟨_, _, append_of_le he, h.append (append_of_le he)⟩
  case writeAt =>
    intro i e h1 h2 he
    exact ⟨_, _, writeAt_of_le he i, h.writeAt ⟨h1, h2⟩ (writeAt_of_le he i)⟩
  case compact => exact h.compact

end Refines
end InmemLogStore

/-! ## Runs -/

namespace LogWal

theorem refines_step {C : LogEntryCodec} {s t : LogWal} {a : LogAction} {l : SeqLog LogEntry} (hs : s.store.Refines l)
    (h : LogStep C s a t ∧ a.FromOne) : ∃ m, SeqStep C l a m ∧ t.store.Refines m := by
  obtain ⟨h, hone⟩ := h
  cases a with
  | append e =>
    obtain ⟨-, store, idx, ws, h, rfl⟩ := h
    exact ⟨_, rfl, hs.append h⟩
  | writeAt index e =>
    obtain ⟨-, hi, store, ws, h, rfl⟩ := h
    exact ⟨_, rfl, hs.writeAt hi h⟩
  | applyPack index pack =>
    obtain ⟨hi, store, h, rfl⟩ := h
    obtain ⟨les, hles, hr⟩ := hs.applyPack hone hi h
    exact ⟨_, ⟨les, hles, rfl⟩, hr⟩
  | compact n =>
    obtain rfl := h
    exact ⟨_, rfl, hs.compact n⟩

/-- The store and the sequence, side by side. -/
theorem refines_run {C : LogEntryCodec} {n : Nat} {wal : List WalWrite} {as : List LogAction} {s : LogWal}
    (h : Run (fun s a t => LogStep C s a t ∧ a.FromOne) (fresh n wal) as s) :
    ∃ l, Run (SeqStep C) ⟨n + 1, []⟩ as l ∧ s.store.Refines l :=
  h.simulates (R := fun s l => s.store.Refines l) (InmemLogStore.refines_mk' n) fun _ _ _ _ => refines_step

/-- **The log store is a sequence.** After every run of the four mutators it behaves as the sequence that the same
calls make. -/
theorem behavesAs_run {C : LogEntryCodec} {n : Nat} {wal : List WalWrite} {as : List LogAction} {s : LogWal}
    (h : Run (fun s a t => LogStep C s a t ∧ a.FromOne) (fresh n wal) as s) :
    ∃ l, Run (SeqStep C) ⟨n + 1, []⟩ as l ∧ s.store.BehavesAs l := by
  obtain ⟨l, hl, hr⟩ := refines_run h
  exact ⟨l, hl, hr.behavesAs⟩

/-- All four mutators. -/
theorem behavesAs_run_repack : ∃ l, Run (SeqStep termTypeBuf) ⟨11, []⟩
    [.append emptyEntry, .writeAt 11 emptyEntry, .compact 11, .applyPack 11 emptyPack] l ∧
      compacted.repack.store.BehavesAs l :=
  behavesAs_run (((Run.single ⟨logStep_append, trivial⟩ :
    Run (fun s a t => LogStep termTypeBuf s a t ∧ a.FromOne) (fresh 10 []) [.append emptyEntry] appended).snoc
    ⟨logStep_overwritten, trivial⟩).snoc ⟨logStep_compacted, trivial⟩ |>.snoc ⟨logStep_repack, Nat.le_add_left 1 10⟩)

end LogWal
end VectorDb
