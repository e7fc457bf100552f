import VectorDb.FilterIndex
import VectorDb.Lib.LastWriter
import VectorDb.Lib.Roaring

/-!
# The saved text of a `FilterIndex`

* `serializeIntFieldFilter`, `deserializeIntFieldFilter` : one line `field|value|bitmap` for each bitmap; what is no
  bitmap is read as a null pointer, and stored (`LoadedFilter`);
* `exists_deserialize_iff`, `mem_nullBitmaps_iff` : a text is read when the value of each line is a number, and the last
  line of a field and a value decides whether a null pointer is left there;
* `deserialize_serialize_iff` : an index is read back exactly when no field name holds a separator and no
  serialized bitmap a newline byte (`TextSafe`);
* `deserialize_serialize_id_ten` : id 10 alone puts a newline into its bitmap.
-/

namespace VectorDb
open Std (ExtTreeMap)

/-- The index without a bitmap at `intFieldFilter[f][v]`. -/
def FilterIndex.unset (fi : FilterIndex) (f : Bytes) (v : Int64) : FilterIndex where
  intFieldFilter :=
    if ((fi.intFieldFilter.getD f ∅).erase v).isEmpty then fi.intFieldFilter.erase f
    else fi.intFieldFilter.insert f ((fi.intFieldFilter.getD f ∅).erase v)
  value_of_field g vm h := by
    split at h
    · rw [ExtTreeMap.getElem?_erase] at h
      split at h
      · cases h
      · exact fi.value_of_field g vm h
    · rename_i hne
      rw [ExtTreeMap.getElem?_insert] at h
      split at h
      · cases h
        by_contra hall
        simp only [not_exists] at hall
        refine hne (ExtTreeMap.isEmpty_iff.mpr (ExtTreeMap.ext_getElem? fun w => ?_))
        rw [ExtTreeMap.getElem?_empty]
        exact Option.eq_none_iff_forall_ne_some.mpr (hall w)
      · exact fi.value_of_field g vm h

theorem FilterIndex.bitmap?_unset (fi : FilterIndex) (f g : Bytes) (v w : Int64) :
    (fi.unset f v).bitmap? g w = if g = f ∧ w = v then none else fi.bitmap? g w := by
  have hget : ∀ u, (fi.intFieldFilter.getD f ∅)[u]? = fi.bitmap? f u := by
    intro u
    rw [ExtTreeMap.getD_eq_getD_getElem?, bitmap?]
    cases fi.intFieldFilter[f]? <;> simp
  have herase : ∀ u, ((fi.intFieldFilter.getD f ∅).erase v)[u]? = if u = v then none else fi.bitmap? f u := by
    intro u
    rw [ExtTreeMap.getElem?_erase, hget]
    simp only [Std.compare_eq_iff_eq, eq_comm (a := v)]
  by_cases hf : g = f
  · subst hf
    simp only [true_and]
    rw [← herase, bitmap?, unset]
    split
    · rename_i hempty
      rw [ExtTreeMap.getElem?_erase_self, ExtTreeMap.isEmpty_iff.mp hempty, ExtTreeMap.getElem?_empty, Option.bind_none]
    · rw [ExtTreeMap.getElem?_insert_self, Option.bind_some]
  · have hcmp : ¬ compare f g = .eq := fun h => hf (Std.compare_eq_iff_eq.mp h).symm
    rw [if_neg fun h => hf h.1, bitmap?, bitmap?, unset]
    split
    · rw [ExtTreeMap.getElem?_erase, if_neg hcmp]
    · rw [ExtTreeMap.getElem?_insert, if_neg hcmp]

/-- An index that was read. Where `roaring_bitmap_portable_deserialize` finds no bitmap it returns a null pointer, which
is stored unchecked: `nullBitmaps` are the fields and values with a null pointer, `filter` has the bitmaps. -/
structure LoadedFilter where
  filter : FilterIndex
  nullBitmaps : Finset (Bytes × Int64)

/-- The assignment `intFieldFilter[f][v] = bitmap`. -/
def LoadedFilter.set (l : LoadedFilter) (f : Bytes) (v : Int64) : Option (Finset UInt32) → LoadedFilter
  | some bitmap => ⟨l.filter.set f v bitmap, l.nullBitmaps.erase (f, v)⟩
  | none => ⟨l.filter.unset f v, insert (f, v) l.nullBitmaps⟩

namespace FilterIndex
variable (R : RoaringFormat)

def serializeIntFieldFilter (fi : FilterIndex) : Bytes :=
  fi.intFieldFilter.toList.flatMap fun (fieldName, valueMap) =>
    valueMap.toList.flatMap fun (value, bitmap) =>
      fieldName ++ bar :: (decimalInt value ++ bar :: (R.serialize bitmap ++ [newline]))

/-- The body of the reading loop: one line into the index. -/
def deserializeLine (l : LoadedFilter) (line : Bytes) : Except Fault LoadedFilter :=
  let (fieldName, lineIss) := (IStream.of line).getline [] bar
  let (valueStr, lineIss) := lineIss.getline [] bar
  match stol valueStr with
  | .error e => .error (.sto e)
  | .ok value => .ok (l.set fieldName value (R.deserialize lineIss.rest))

/-- Into an index without null pointers. -/
def deserializeIntFieldFilter (fi : FilterIndex) (serializedData : Bytes) : Except Fault LoadedFilter :=
  (lines serializedData).foldlM (deserializeLine R) ⟨fi, ∅⟩

/-! ## Lines -/

/-- What is before the first `'|'` of a line. -/
def fieldText (line : Bytes) : Bytes := ((IStream.of line).getline [] bar).1

/-- What is between the first and the second. -/
def valueText (line : Bytes) : Bytes := (((IStream.of line).getline [] bar).2.getline [] bar).1

/-- What is behind the second. -/
def blobText (line : Bytes) : Bytes := (((IStream.of line).getline [] bar).2.getline [] bar).2.rest

/-- The field and the value of a line. -/
def lineKey (line : Bytes) : Option (Bytes × Int64) := (stol (valueText line)).toOption.map fun v => (fieldText line, v)

/-- Every line of a text has a value that `std::stol` reads. -/
def ValuesReadable (text : Bytes) : Prop := ∀ line ∈ lines text, ∃ v, stol (valueText line) = .ok v

/-- The last line of a field and a value has no bitmap. -/
def NullAt (text : Bytes) (k : Bytes × Int64) : Prop :=
  ∃ line, lastFor lineKey (some k) (lines text) = some line ∧ R.deserialize (blobText line) = none

theorem deserializeLine_eq_ok {l l' : LoadedFilter} {line : Bytes} : deserializeLine R l line = .ok l' ↔
    ∃ v, stol (valueText line) = .ok v ∧ l' = l.set (fieldText line) v (R.deserialize (blobText line)) := by
  have hline : deserializeLine R l line = match stol (valueText line) with
    | .error e => .error (.sto e)
    | .ok v => .ok (l.set (fieldText line) v (R.deserialize (blobText line))) := rfl
  rw [hline]
  cases stol (valueText line) with
  | error e => simp
  | ok v => simp [eq_comm (a := l')]

/-- The texts of a line with two separators. -/
theorem texts_append {f v : Bytes} (hf : bar ∉ f) (hv : bar ∉ v) (blob : Bytes) :
    fieldText (f ++ bar :: (v ++ bar :: blob)) = f ∧ valueText (f ++ bar :: (v ++ bar :: blob)) = v ∧
      blobText (f ++ bar :: (v ++ bar :: blob)) = blob := by
  simp only [fieldText, valueText, blobText, IStream.getline_append hf, IStream.getline_append hv, IStream.rest_of,
    and_self]

theorem bar_notMem_fieldText (line : Bytes) : bar ∉ fieldText line := by
  intro hm
  have := List.mem_takeWhile_imp (show bar ∈ line.takeWhile (· ≠ bar) from hm)
  simp at this

theorem getline_rest_sublist (iss : IStream) (str : Bytes) (delim : UInt8) :
    (iss.getline str delim).2.rest.Sublist iss.rest := by
  unfold IStream.getline
  split
  · have hdrop : (iss.rest.dropWhile (· ≠ delim)).Sublist iss.rest := List.dropWhile_sublist _
    split
    · exact List.nil_sublist _
    · rename_i c rest hrest
      rw [hrest] at hdrop
      exact (List.sublist_cons_self c rest).trans hdrop
  · exact List.Sublist.refl _

theorem fieldText_sublist (line : Bytes) : (fieldText line).Sublist line := List.takeWhile_sublist _

theorem blobText_sublist (line : Bytes) : (blobText line).Sublist line :=
  (getline_rest_sublist _ _ _).trans (getline_rest_sublist (IStream.of line) [] bar)

/-! ## Reading a text -/

theorem exists_foldlM_iff {ls : List Bytes} {l : LoadedFilter} :
    (∃ l', ls.foldlM (deserializeLine R) l = .ok l') ↔ ∀ line ∈ ls, ∃ v, stol (valueText line) = .ok v := by
  induction ls generalizing l with
  | nil => exact ⟨fun _ _ h => absurd h List.not_mem_nil, fun _ => ⟨l, rfl⟩⟩
  | cons line ls ih =>
    simp only [List.foldlM_cons, bind_eq_ok, deserializeLine_eq_ok, List.forall_mem_cons]
    constructor
    · rintro ⟨l', l₁, ⟨v, hv, -⟩, hrest⟩
      exact ⟨⟨v, hv⟩, ih.mp ⟨l', hrest⟩⟩
    · rintro ⟨⟨v, hv⟩, hall⟩
      obtain ⟨l', hrest⟩ := ih.mpr hall
      exact ⟨l', _, ⟨v, hv, rfl⟩, hrest⟩

/-- **When a text is read.** The only failures are those of `std::stol`. -/
theorem exists_deserialize_iff (fi : FilterIndex) {text : Bytes} :
    (∃ l, fi.deserializeIntFieldFilter R text = .ok l) ↔ ValuesReadable text := exists_foldlM_iff R

theorem mem_nullBitmaps_set (l : LoadedFilter) (f : Bytes) (v : Int64) (b : Option (Finset UInt32)) (k : Bytes × Int64) :
    k ∈ (l.set f v b).nullBitmaps ↔ if (f, v) = k then b = none else k ∈ l.nullBitmaps := by
  cases b with
  | some b =>
    show k ∈ l.nullBitmaps.erase (f, v) ↔ _
    rw [Finset.mem_erase]
    split
    · rename_i h
      simp [h]
    · rename_i h
      exact ⟨And.right, fun hm => ⟨fun he => h he.symm, hm⟩⟩
  | none =>
    show k ∈ insert (f, v) l.nullBitmaps ↔ _
    rw [Finset.mem_insert]
    split
    · rename_i h
      simp [h]
    · rename_i h
      exact ⟨fun hm => hm.resolve_left fun he => h he.symm, Or.inr⟩

theorem mem_nullBitmaps_foldlM {ls : List Bytes} {l l' : LoadedFilter} (h : ls.foldlM (deserializeLine R) l = .ok l')
    (k : Bytes × Int64) : k ∈ l'.nullBitmaps ↔
      match lastFor lineKey (some k) ls with
      | some line => R.deserialize (blobText line) = none
      | none => k ∈ l.nullBitmaps := by
  induction ls using List.reverseRecOn generalizing l' with
  | nil =>
    cases h
    rfl
  | append_singleton ls line ih =>
    rw [List.foldlM_append] at h
    obtain ⟨l₁, hfirst, hlast⟩ := bind_eq_ok.mp h
    simp only [List.foldlM_cons, List.foldlM_nil, bind_pure, deserializeLine_eq_ok] at hlast
    obtain ⟨v, hv, rfl⟩ := hlast
    have hkey : lineKey line = some (fieldText line, v) := by
      rw [lineKey, hv]
      rfl
    have hk : lineKey line = some k ↔ (fieldText line, v) = k := by rw [hkey, Option.some.injEq]
    rw [mem_nullBitmaps_set, lastFor_concat]
    simp only [hk]
    split
    · rfl
    · exact ih hfirst

/-- **Where a text leaves a null pointer.** -/
theorem mem_nullBitmaps_iff {fi : FilterIndex} {text : Bytes} {l : LoadedFilter}
    (h : fi.deserializeIntFieldFilter R text = .ok l) (k : Bytes × Int64) : k ∈ l.nullBitmaps ↔ NullAt R text k := by
  rw [mem_nullBitmaps_foldlM R h, NullAt]
  cases lastFor lineKey (some k) (lines text) <;> simp

/-- The line of a name with a separator is read under another field, and leaves a null pointer there. -/
example : (empty.deserializeIntFieldFilter portable (ascii "a|5|49|x\n")).map (fun l => l.nullBitmaps) =
    .ok {(ascii "a", 5)} := by decide +kernel

/-! ## Records -/

/-- The stored bitmaps in the order of the text. -/
def entries (fi : FilterIndex) : List (Bytes × Int64 × Finset UInt32) :=
  fi.intFieldFilter.toList.flatMap fun p => p.2.toList.map fun q => (p.1, q.1, q.2)

theorem mem_entries {fi : FilterIndex} {f : Bytes} {v : Int64} {b : Finset UInt32} :
    (f, v, b) ∈ fi.entries ↔ fi.bitmap? f v = some b := by
  simp only [entries, bitmap?, List.mem_flatMap, List.mem_map, Prod.mk.injEq, Prod.exists,
    ExtTreeMap.mem_toList_iff_getElem?_eq_some, Option.bind_eq_some_iff]
  constructor
  · rintro ⟨g, vm, hg, w, c, hw, rfl, rfl, rfl⟩
    exact ⟨vm, hg, hw⟩
  · rintro ⟨vm, hg, hw⟩
    exact ⟨f, vm, hg, v, b, hw, rfl, rfl, rfl⟩

/-- The line of one bitmap, without its newline. -/
def entryLine (e : Bytes × Int64 × Finset UInt32) : Bytes :=
  e.1 ++ bar :: (decimalInt e.2.1 ++ bar :: R.serialize e.2.2)

theorem serialize_eq (fi : FilterIndex) :
    fi.serializeIntFieldFilter R = fi.entries.flatMap fun e => entryLine R e ++ [newline] := by
  simp only [serializeIntFieldFilter, entries, entryLine, List.flatMap_assoc, List.flatMap_map, List.append_assoc,
    List.cons_append]

theorem deserializeLine_entryLine {e : Bytes × Int64 × Finset UInt32} (hf : bar ∉ e.1) (l : LoadedFilter) :
    deserializeLine R l (entryLine R e) = .ok (l.set e.1 e.2.1 (some e.2.2)) := by
  have hv : bar ∉ decimalInt e.2.1 := notMem_decimalInt (by decide) (by decide) _
  have hblob := R.deserialize_serialize e.2.2 []
  rw [List.append_nil] at hblob
  obtain ⟨hfield, hvalue, hrest⟩ := texts_append hf hv (R.serialize e.2.2)
  refine (deserializeLine_eq_ok R).mpr ⟨e.2.1, ?_, ?_⟩
  · rw [entryLine, hvalue, stol_decimalInt]
  · rw [entryLine, hfield, hrest, hblob]

/-! ## Reading back a text -/

/-- A record stays one record: its field name holds no separator and its bitmap no newline. -/
def EntrySafe (e : Bytes × Int64 × Finset UInt32) : Prop :=
  bar ∉ e.1 ∧ newline ∉ e.1 ∧ newline ∉ R.serialize e.2.2

/-- Every record of the text stays one record. -/
def TextSafe (fi : FilterIndex) : Prop :=
  ∀ f v b, fi.bitmap? f v = some b → bar ∉ f ∧ newline ∉ f ∧ newline ∉ R.serialize b

theorem newline_notMem_entryLine {e : Bytes × Int64 × Finset UInt32} (h : EntrySafe R e) :
    newline ∉ entryLine R e := by
  have hv : newline ∉ decimalInt e.2.1 := notMem_decimalInt (by decide) (by decide) _
  have hb : newline ≠ bar := by decide
  simp only [entryLine, List.mem_append, List.mem_cons, not_or]
  exact ⟨h.2.1, hb, hv, hb, h.2.2⟩

theorem lines_entries {es : List (Bytes × Int64 × Finset UInt32)} (h : ∀ e ∈ es, EntrySafe R e) :
    lines (es.flatMap fun e => entryLine R e ++ [newline]) = es.map (entryLine R) := by
  induction es with
  | nil => rfl
  | cons e es ih =>
    rw [List.flatMap_cons, List.append_assoc, List.singleton_append,
      lines_append_newline (newline_notMem_entryLine R (h e List.mem_cons_self)), List.map_cons,
      ih fun x hx => h x (List.mem_cons_of_mem _ hx)]

theorem foldlM_entryLine {es : List (Bytes × Int64 × Finset UInt32)} (h : ∀ e ∈ es, bar ∉ e.1) (fi : FilterIndex) :
    (es.map (entryLine R)).foldlM (deserializeLine R) ⟨fi, ∅⟩ =
      .ok ⟨es.foldl (fun fi e => fi.set e.1 e.2.1 e.2.2) fi, ∅⟩ := by
  induction es generalizing fi with
  | nil => rfl
  | cons e es ih =>
    rw [List.map_cons, List.foldlM_cons, deserializeLine_entryLine R (h e List.mem_cons_self)]
    show (es.map (entryLine R)).foldlM (deserializeLine R) ⟨fi.set e.1 e.2.1 e.2.2, Finset.erase ∅ _⟩ = _
    rw [Finset.erase_empty]
    exact ih (fun x hx => h x (List.mem_cons_of_mem _ hx)) _

/-- Assigning records that agree on equal keys stores each of them. -/
theorem bitmap?_foldl_set {es : List (Bytes × Int64 × Finset UInt32)}
    (hfun : ∀ f v b c, (f, v, b) ∈ es → (f, v, c) ∈ es → b = c) (fi : FilterIndex) (g : Bytes) (w : Int64) :
    (es.foldl (fun fi e => fi.set e.1 e.2.1 e.2.2) fi).bitmap? g w =
      match es.find? fun e => e.1 = g ∧ e.2.1 = w with
      | some e => some e.2.2
      | none => fi.bitmap? g w := by
  induction es using List.reverseRecOn with
  | nil => rfl
  | append_singleton es e ih =>
    rw [List.foldl_append, List.foldl_cons, List.foldl_nil, bitmap?_set, List.find?_append,
      ih fun f v b c hb hc => hfun f v b c (List.mem_append_left _ hb) (List.mem_append_left _ hc)]
    cases hfind : es.find? fun e => e.1 = g ∧ e.2.1 = w with
    | none =>
      by_cases he : e.1 = g ∧ e.2.1 = w
      · simp [he, eq_comm]
      · have he' : ¬ (g = e.1 ∧ w = e.2.1) := fun h => he ⟨h.1.symm, h.2.symm⟩
        simp [he, he']
    | some x =>
      have hx := List.find?_some hfind
      have hmem := List.mem_of_find?_eq_some hfind
      simp only [decide_eq_true_eq] at hx
      split
      · rename_i h
        obtain ⟨rfl, rfl⟩ := h
        have : x.2.2 = e.2.2 := hfun e.1 e.2.1 _ _
          (List.mem_append_left _ (by rw [← hx.1, ← hx.2]; exact hmem)) (by simp)
        simp [this]
      · simp

theorem foldl_set_entries (fi : FilterIndex) :
    fi.entries.foldl (fun fi e => fi.set e.1 e.2.1 e.2.2) empty = fi := by
  refine ext_bitmap? fun g w => ?_
  rw [bitmap?_foldl_set fun f v b c hb hc => by
    rw [mem_entries] at hb hc
    exact Option.some.inj (hb.symm.trans hc)]
  cases hfind : fi.entries.find? fun e => e.1 = g ∧ e.2.1 = w with
  | some e =>
    have he := List.find?_some hfind
    simp only [decide_eq_true_eq] at he
    obtain ⟨f, v, b⟩ := e
    obtain ⟨rfl, rfl⟩ := he
    exact (mem_entries.mp (List.mem_of_find?_eq_some hfind)).symm
  | none =>
    rw [bitmap?_empty]
    cases hb : fi.bitmap? g w with
    | none => rfl
    | some b =>
      have := List.find?_eq_none.mp hfind _ (mem_entries.mpr hb)
      simp at this

/-- A safe text is read back. -/
theorem deserialize_serialize {fi : FilterIndex} (h : TextSafe R fi) :
    empty.deserializeIntFieldFilter R (fi.serializeIntFieldFilter R) = .ok ⟨fi, ∅⟩ := by
  have hsafe : ∀ e ∈ fi.entries, EntrySafe R e := fun e he => h e.1 e.2.1 e.2.2 (mem_entries.mp he)
  rw [deserializeIntFieldFilter, serialize_eq, lines_entries R hsafe,
    foldlM_entryLine R fun e he => (hsafe e he).1, foldl_set_entries]

/-! ## A text that is not safe -/

theorem newline_notMem_of_mem_lines {s l : Bytes} (h : l ∈ lines s) : newline ∉ l := by
  induction s generalizing l with
  | nil => cases h
  | cons c cs ih =>
    rw [lines] at h
    split at h
    · rcases List.mem_cons.mp h with rfl | h
      · exact List.not_mem_nil
      · exact ih h
    · rename_i hc
      split at h
      · rw [List.mem_singleton] at h
        subst h
        simpa using Ne.symm hc
      · rename_i l' ls hls
        rcases List.mem_cons.mp h with rfl | h
        · rw [List.mem_cons, not_or]
          exact ⟨Ne.symm hc, ih (hls ▸ List.mem_cons_self)⟩
        · exact ih (hls ▸ List.mem_cons_of_mem _ h)

/-- What was read under a field and a value was in a line, behind its separators. -/
theorem safe_of_foldlM {ls : List Bytes} (hl : ∀ line ∈ ls, newline ∉ line) {l l' : LoadedFilter}
    (h : ls.foldlM (deserializeLine R) l = .ok l') {f : Bytes} {v : Int64} {b : Finset UInt32}
    (hb : l'.filter.bitmap? f v = some b) :
    (bar ∉ f ∧ newline ∉ f ∧ newline ∉ R.serialize b) ∨ l.filter.bitmap? f v = some b := by
  induction ls generalizing l with
  | nil =>
    cases h
    exact Or.inr hb
  | cons line ls ih =>
    rw [List.foldlM_cons] at h
    obtain ⟨l₁, hline, hrest⟩ := bind_eq_ok.mp h
    obtain ⟨v₁, -, rfl⟩ := (deserializeLine_eq_ok R).mp hline
    have hnl : newline ∉ line := hl line List.mem_cons_self
    rcases ih (fun x hx => hl x (List.mem_cons_of_mem _ hx)) hrest with hc | hc
    · exact Or.inl hc
    · cases hd : R.deserialize (blobText line) with
      | none =>
        rw [hd] at hc
        have hset : (l.filter.unset (fieldText line) v₁).bitmap? f v = some b := hc
        rw [bitmap?_unset] at hset
        split at hset
        · cases hset
        · exact Or.inr hset
      | some c =>
        rw [hd] at hc
        have hset : (l.filter.set (fieldText line) v₁ c).bitmap? f v = some b := hc
        rw [bitmap?_set] at hset
        split at hset
        · rename_i hk
          obtain ⟨rfl, rfl⟩ := hk
          cases hset
          refine Or.inl ⟨bar_notMem_fieldText line, fun hm => hnl ((fieldText_sublist line).subset hm), fun hm => ?_⟩
          exact hnl ((blobText_sublist line).subset ((R.serialize_of_deserialize _ _ hd).subset hm))
        · exact Or.inr hset

/-- An index that is read back unchanged had a safe text. -/
theorem textSafe_of_deserialize {fi : FilterIndex}
    (h : empty.deserializeIntFieldFilter R (fi.serializeIntFieldFilter R) = .ok ⟨fi, ∅⟩) : TextSafe R fi := by
  intro f v b hb
  rcases safe_of_foldlM R (fun line hline => newline_notMem_of_mem_lines hline) h hb with hsafe | hempty
  · exact hsafe
  · rw [bitmap?_empty] at hempty
    cases hempty

/-- **Reading back a saved index.** The text of an index is read back to the same index exactly when no field
name holds `'|'` or a newline and no serialized bitmap a newline byte. -/
theorem deserialize_serialize_iff (fi : FilterIndex) :
    deserializeIntFieldFilter R empty (fi.serializeIntFieldFilter R) = .ok ⟨fi, ∅⟩ ↔ TextSafe R fi :=
  ⟨textSafe_of_deserialize R, deserialize_serialize R⟩

/-- The index after one update with id 10. -/
def idTen : FilterIndex := empty.updateIntFieldFilter (ascii "int_field") none 49 10

theorem deserialize_serialize_id_ten :
    deserializeIntFieldFilter portable empty (idTen.serializeIntFieldFilter portable) ≠ .ok ⟨idTen, ∅⟩ := by
  intro h
  have hsafe := textSafe_of_deserialize portable h
  have hb : idTen.bitmap? (ascii "int_field") 49 = some {10} := by decide +kernel
  refine (hsafe _ _ _ hb).2.2 ?_
  have hc : Portable.containers {10} = [(0, [10])] := by
    simp [Portable.containers, Portable.highs, Portable.lows, Portable.high, Portable.low, Finset.filter_singleton]
  change newline ∈ Portable.encode (Portable.containers {10})
  rw [hc]
  decide

end FilterIndex
end VectorDb
