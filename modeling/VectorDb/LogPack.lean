import VectorDb.LogRefine

/-!
# Batch catch-up

* `getEntry_putEntry`, `unpack_pack` : the loop of `apply_pack` cuts a pack where the loop of `pack` joined it;
* `catchUp` : a range of one store sent to another in consecutive packs;
* `pack_transfers` : one pack carries the range unchanged, and so does any splitting of it.
-/

namespace VectorDb
open Std (ExtTreeMap)

namespace InmemLogStore
variable {C : LogEntryCodec}

/-- Consecutive packs of these sizes, applied in order. -/
def catchUp (C : LogEntryCodec) (source : InmemLogStore) : Nat → List Nat → InmemLogStore → Option InmemLogStore
  | _, [], store => some store
  | index, cnt :: cnts, store =>
    match source.pack C index cnt with
    | .error _ => none
    | .ok pack => (store.applyPack C index pack).bind (catchUp C source (index + cnt) cnts)

/-- NuRaft reads the entry back, and its size is an `int32`. -/
structure Packable (C : LogEntryCodec) (e : LogEntry) : Prop where
  deserialize : C.deserialize (C.serialize e) = some e
  size_lt : (C.serialize e).length < 2 ^ 31

/-! ## The format of a pack -/

theorem getEntry_putEntry {e : LogEntry} (he : Packable C e) (rest : Bytes) :
    getEntry C (putEntry C e ++ rest) = some (e, rest) := by
  rw [putEntry, List.append_assoc, getEntry, C.getInt_putInt _ he.size_lt, Option.bind_some]
  simp only [Int.toNat_natCast, List.take_left, List.drop_left, he.deserialize, Option.map_some]
  rw [if_neg (by rw [List.length_append]; omega)]

theorem unpack_pack {les : List LogEntry} (hn : les.length < 2 ^ 31) (he : ∀ e ∈ les, Packable C e) :
    unpack C (C.putInt les.length ++ les.flatMap (putEntry C)) = some les := by
  have hmany := readMany_flatMap (fun e hmem => getEntry_putEntry (he e hmem)) []
  rw [List.append_nil] at hmany
  rw [unpack, C.getInt_putInt _ hn, Option.bind_some]
  simp only [Int.toNat_natCast, hmany, Option.map_some]

/-! ## Writing entries -/

theorem insertAll_append (m : ExtTreeMap Nat LogEntry) (index : Nat) (les les' : List LogEntry) :
    insertAll m index (les ++ les') = insertAll (insertAll m index les) (index + les.length) les' := by
  induction les generalizing m index with
  | nil => rfl
  | cons le les ih =>
    rw [List.cons_append, insertAll, ih, insertAll, List.length_cons, Nat.add_right_comm, Nat.add_assoc]

/-- The store after the entries of a pack. -/
def packed (s : InmemLogStore) (index : Nat) (les : List LogEntry) : InmemLogStore :=
  ⟨((insertAll s.logs index les).keys.find? fun i => 0 < i).getD 1, insertAll s.logs index les⟩

theorem packed_packed (s : InmemLogStore) (index : Nat) (les les' : List LogEntry) :
    (s.packed index les).packed (index + les.length) les' = s.packed index (les ++ les') := by
  unfold packed
  rw [insertAll_append]

/-- The start does not depend on what it was. -/
theorem applyPack_pack {les : List LogEntry} (hn : les.length < 2 ^ 31) (he : ∀ e ∈ les, Packable C e)
    (s : InmemLogStore) (index : Nat) :
    s.applyPack C index (C.putInt les.length ++ les.flatMap (putEntry C)) = some (s.packed index les) := by
  rw [applyPack, unpack_pack hn he, Option.map_some]
  rfl

/-! ## A range of entries -/

/-- The entries of `source` at `cnt` indices from `index` on. -/
structure Range (C : LogEntryCodec) (source : InmemLogStore) (index : Nat) (les : List LogEntry) : Prop where
  get : ∀ i, i < les.length → source.logs[index + i]? = les[i]?
  packable : ∀ e ∈ les, Packable C e
  length_lt : les.length < 2 ^ 31

namespace Range
variable {source : InmemLogStore} {index : Nat} {les les' : List LogEntry}

theorem left (h : Range C source index (les ++ les')) : Range C source index les where
  get i hi := by
    rw [h.get i (by rw [List.length_append]; omega), List.getElem?_append_left hi]
  packable e he := h.packable e (List.mem_append_left _ he)
  length_lt := by
    have := h.length_lt
    rw [List.length_append] at this
    omega

theorem right (h : Range C source index (les ++ les')) : Range C source (index + les.length) les' where
  get i hi := by
    rw [Nat.add_assoc, h.get _ (by rw [List.length_append]; omega), List.getElem?_append_right (Nat.le_add_right _ _),
      Nat.add_sub_cancel_left]
  packable e he := h.packable e (List.mem_append_right _ he)
  length_lt := by
    have := h.length_lt
    rw [List.length_append] at this
    omega

theorem entriesAt (h : Range C source index les) : source.entriesAt (List.range' index les.length) = .ok les := by
  induction les generalizing index with
  | nil => rfl
  | cons e les ih =>
    have hget := h.get 0 (Nat.succ_pos _)
    have hrest := ih (right (show Range C source index ([e] ++ les) from h))
    rw [Nat.add_zero, List.getElem?_cons_zero] at hget
    rw [List.length_cons, List.range'_succ, InmemLogStore.entriesAt, loopEntry, hget]
    simp only
    rw [show index + 1 = index + [e].length from rfl, hrest]
    rfl

theorem pack (h : Range C source index les) :
    source.pack C index les.length = .ok (C.putInt les.length ++ les.flatMap (putEntry C)) := by
  rw [InmemLogStore.pack, h.entriesAt]
  rfl

/-- Packs of any sizes that make up the range put the whole range into the store. -/
theorem catchUp (h : Range C source index les) (store : InmemLogStore) {cnts : List Nat} (hcnts : cnts ≠ []) (hsum : cnts.sum = les.length) :
    InmemLogStore.catchUp C source index cnts store = some (store.packed index les) := by
  induction cnts generalizing index les store with
  | nil => exact absurd rfl hcnts
  | cons cnt cnts ih =>
    rw [List.sum_cons] at hsum
    obtain ⟨first, rest, rfl, hfirst⟩ : ∃ first rest, les = first ++ rest ∧ first.length = cnt :=
      ⟨les.take cnt, les.drop cnt, (List.take_append_drop cnt les).symm, by rw [List.length_take]; omega⟩
    subst hfirst
    rw [InmemLogStore.catchUp, h.left.pack]
    simp only [applyPack_pack h.left.length_lt h.left.packable, Option.bind_some]
    rw [List.length_append] at hsum
    cases cnts with
    | nil =>
      have hnil : rest = [] := List.length_eq_zero_iff.mp (by simp only [List.sum_nil] at hsum; omega)
      subst hnil
      rw [InmemLogStore.catchUp, List.append_nil]
    | cons n ns =>
      rw [ih h.right _ (List.cons_ne_nil n ns) (by omega), packed_packed]

end Range

/-- A range inside a contiguous store. -/
theorem range_of_contiguous {source : InmemLogStore} (h : source.Contiguous) {index cnt : Nat} (hcnt : cnt < 2 ^ 31)
    (hin : ∀ i, index ≤ i → i < index + cnt → source.startIdx ≤ i ∧ i < source.nextSlot)
    (hpack : ∀ i e, index ≤ i → i < index + cnt → source.logs[i]? = some e → Packable C e) :
    ∃ les, les.length = cnt ∧ Range C source index les := by
  induction cnt generalizing index with
  | zero =>
    refine ⟨[], rfl, fun i hi => absurd hi (Nat.not_lt_zero i), fun e he => ?_, Nat.two_pow_pos 31⟩
    cases he
  | succ cnt ih =>
    have hin' : ∀ i, index + 1 ≤ i → i < index + 1 + cnt → source.startIdx ≤ i ∧ i < source.nextSlot :=
      fun i h1 h2 => hin i (by omega) (by omega)
    obtain ⟨les, hlen, hr⟩ := ih (by omega) hin' (fun i e h1 h2 => hpack i e (by omega) (by omega))
    have hsome := (h.isSome_iff index).mpr (Or.inr (hin index (Nat.le_refl _) (by omega)))
    obtain ⟨e, he⟩ := Option.isSome_iff_exists.mp hsome
    refine ⟨e :: les, by rw [List.length_cons, hlen], ?_, ?_, ?_⟩
    · intro i hi
      cases i with
      | zero => rw [Nat.add_zero, he, List.getElem?_cons_zero]
      | succ i =>
        rw [List.length_cons] at hi
        rw [show index + (i + 1) = index + 1 + i by omega, hr.get i (by omega), List.getElem?_cons_succ]
    · exact List.forall_mem_cons.mpr ⟨hpack index e (Nat.le_refl _) (by omega) he, hr.packable⟩
    · rw [List.length_cons, hlen]
      exact hcnt

/-! ## The store that catches up -/

/-- Only the dummy entry is left. -/
def NoEntries (s : InmemLogStore) : Prop := s.logs.keys = [0]

theorem isSome_of_noEntries {s : InmemLogStore} (h : s.NoEntries) (i : Nat) : (s.logs[i]?).isSome = true ↔ i = 0 := by
  rw [← ExtTreeMap.mem_iff_isSome_getElem?, ← ExtTreeMap.mem_keys, h, List.mem_singleton]

/-- A pack that goes to the end of a log, or into an empty one, ends the log. -/
theorem nextSlot_packed {s : InmemLogStore} {index : Nat} {les : List LogEntry} (hindex : 1 ≤ index) (hles : 1 ≤ les.length)
    (hs : s.NoEntries ∨ (s.Contiguous ∧ s.nextSlot = index)) : (s.packed index les).nextSlot = index + les.length := by
  have key : ∀ a, 1 ≤ a → a ≤ index → (∀ i, (s.logs[i]?).isSome = true ↔ i = 0 ∨ (a ≤ i ∧ i < index)) →
      (s.packed index les).nextSlot = index + les.length := by
    intro a ha hle hk
    have hk' : ∀ i, ((s.packed index les).logs[i]?).isSome = true ↔ i = 0 ∨ (a ≤ i ∧ i < index + les.length) := by
      intro i
      show ((insertAll s.logs index les)[i]?).isSome = true ↔ _
      rw [getElem?_insertAll]
      split
      · have hlt : i - index < les.length := by omega
        simp only [List.getElem?_eq_getElem hlt, Option.isSome_some, true_iff]
        omega
      · rw [hk i]
        omega
    have hstart : (s.packed index les).startIdx = a := by
      have hkeys := keys_of_isSome ha hk'
      obtain ⟨n, hn⟩ : ∃ n, index + les.length - a = n + 1 := ⟨index + les.length - a - 1, by omega⟩
      have hpos : 0 < a := ha
      have hfind : (s.packed index les).startIdx = ((s.packed index les).logs.keys.find? fun i => 0 < i).getD 1 := rfl
      rw [hfind, hkeys, List.find?_cons_of_neg (by decide), hn, List.range'_succ,
        List.find?_cons_of_pos (by simpa using hpos), Option.getD_some]
    apply (contiguous_of_isSome (by omega) (by omega) _).1
    rwa [hstart]
  rcases hs with hs | ⟨hs, rfl⟩
  · apply key index hindex (Nat.le_refl _)
    intro i
    rw [isSome_of_noEntries hs]
    omega
  · exact key s.startIdx hs.start_pos hs.start_le hs.isSome_iff

/-- **Batch catch-up.** A pack of a range of a contiguous store, applied at the same index, gives the other store the
entries of the range and leaves those below it; the next slot is the end of the range where the pack continued the
log or filled an empty one; and the same range in any consecutive packs gives the same store. -/
theorem pack_transfers {source : InmemLogStore} (hsource : source.Contiguous) {index cnt : Nat} (hcnt : cnt < 2 ^ 31)
    (hin : ∀ i, index ≤ i → i < index + cnt → source.startIdx ≤ i ∧ i < source.nextSlot)
    (hpack : ∀ i e, index ≤ i → i < index + cnt → source.logs[i]? = some e → Packable C e)
    (store : InmemLogStore) :
    ∃ pack t, source.pack C index cnt = .ok pack ∧ store.applyPack C index pack = some t ∧
      (∀ i, index ≤ i → i < index + cnt → ∃ e, source.logs[i]? = some e ∧ t.logs[i]? = some e) ∧
      (∀ i, i < index → t.logs[i]? = store.logs[i]?) ∧
      (1 ≤ cnt → store.NoEntries ∨ (store.Contiguous ∧ store.nextSlot = index) → t.nextSlot = index + cnt) ∧
      ∀ cnts, cnts ≠ [] → cnts.sum = cnt → catchUp C source index cnts store = some t := by
  obtain ⟨les, rfl, hr⟩ := range_of_contiguous hsource hcnt hin hpack
  refine ⟨_, store.packed index les, hr.pack, applyPack_pack hr.length_lt hr.packable store index, ?_, ?_, ?_, ?_⟩
  · intro i h1 h2
    have hlt : i - index < les.length := by omega
    refine ⟨les[i - index], ?_, ?_⟩
    · have hget := hr.get (i - index) hlt
      rwa [Nat.add_sub_cancel' h1, List.getElem?_eq_getElem hlt] at hget
    · show (insertAll store.logs index les)[i]? = _
      rw [getElem?_insertAll, if_pos ⟨h1, h2⟩, List.getElem?_eq_getElem hlt]
  · intro i hi
    show (insertAll store.logs index les)[i]? = _
    rw [getElem?_insertAll, if_neg (by omega)]
  · intro hpos hs
    have h1 := (hin index (Nat.le_refl _) (by omega)).1
    exact nextSlot_packed (hsource.start_pos.trans h1) hpos hs
  · intro cnts hne hsum
    exact hr.catchUp store hne hsum

/-- A log of two entries, one of them a configuration. -/
def twoEntries : LogWal :=
  ⟨⟨11, LogWal.appended.store.logs.insert LogWal.appended.store.nextSlot ⟨2, [0, 0, 0, 7], .conf⟩⟩,
    LogWal.appended.wal ++ walWrites LogWal.appended.store.nextSlot ⟨2, [0, 0, 0, 7], .conf⟩⟩

/-- A follower gets both in two packs. -/
theorem pack_transfers_two :
    ∃ pack t, twoEntries.store.pack termTypeBuf 11 2 = .ok pack ∧ (mk' 10).applyPack termTypeBuf 11 pack = some t ∧
      (∀ i, 11 ≤ i → i < 11 + 2 → ∃ e, twoEntries.store.logs[i]? = some e ∧ t.logs[i]? = some e) ∧
      t.nextSlot = 13 ∧ catchUp termTypeBuf twoEntries.store 11 [1, 1] (mk' 10) = some t := by
  have h11 : twoEntries.store.logs[11]? = some LogWal.emptyEntry := by decide +kernel
  have h12 : twoEntries.store.logs[12]? = some ⟨2, [0, 0, 0, 7], .conf⟩ := by decide +kernel
  have hnext : twoEntries.store.nextSlot = 13 := by decide +kernel
  have hcontiguous : twoEntries.store.Contiguous :=
    ((LogWal.contiguous_run (Run.single LogWal.logStep_append)).append (append_of_le (by decide))).2
  have hin : ∀ i, 11 ≤ i → i < 11 + 2 → twoEntries.store.startIdx ≤ i ∧ i < twoEntries.store.nextSlot := by
    intro i h1 h2
    rw [hnext]
    exact ⟨h1, h2⟩
  have hpack : ∀ i e, 11 ≤ i → i < 11 + 2 → twoEntries.store.logs[i]? = some e → Packable termTypeBuf e := by
    intro i e h1 h2 he
    rcases (show i = 11 ∨ i = 12 by omega) with rfl | rfl
    · obtain rfl := Option.some.inj (h11.symm.trans he)
      exact ⟨by decide, by decide⟩
    · obtain rfl := Option.some.inj (h12.symm.trans he)
      exact ⟨by decide, by decide⟩
  obtain ⟨pack, t, h1, h2, h3, -, h5, h6⟩ := pack_transfers hcontiguous (by decide) hin hpack (mk' 10)
  have hempty : (mk' 10).logs.keys = [0] := by decide +kernel
  exact ⟨pack, t, h1, h2, h3, h5 (by decide) (Or.inl hempty), h6 [1, 1] (by decide) rfl⟩

end InmemLogStore
end VectorDb
