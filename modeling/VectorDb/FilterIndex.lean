import VectorDb.Basic

/-!
# `FilterIndex`: a bitmap of ids for each field and value

* `FilterIndex` : `std::map<std::string, std::map<long, roaring_bitmap_t*>>`; a field is created together with
  a first value, so no field has an empty value map, and two indexes with the same bitmaps are equal
  (`FilterIndex.ext_bitmap?`);
* `mem_bitmap_update` : what `updateIntFieldFilter` does to every bitmap;
* `mem_bitmap_updateAll` : the same for the updates of one document;
* `mem_getIntFieldFilterBitmap` : the ids a filter answers.
-/

namespace VectorDb
open Std (ExtTreeMap)

/-- `intFieldFilter`. A CRoaring bitmap is a finite set of `uint32_t`. -/
structure FilterIndex where
  intFieldFilter : ExtTreeMap Bytes (ExtTreeMap Int64 (Finset UInt32))
  value_of_field : ∀ (f : Bytes) (vm : ExtTreeMap Int64 (Finset UInt32)), intFieldFilter[f]? = some vm →
    ∃ (v : Int64) (b : Finset UInt32), vm[v]? = some b

inductive Operation where
  | equal
  | notEqual
  deriving DecidableEq, Repr

/-- Whether the integer `w` satisfies the comparison with `value`. -/
def Operation.test : Operation → Int64 → Int64 → Prop
  | .equal, value, w => w = value
  | .notEqual, value, w => w ≠ value

namespace FilterIndex

def empty : FilterIndex := ⟨∅, fun f vm h => by simp at h⟩

/-- The bitmap stored for a field and a value. -/
def bitmap? (fi : FilterIndex) (f : Bytes) (v : Int64) : Option (Finset UInt32) :=
  fi.intFieldFilter[f]?.bind fun vm => vm[v]?

/-- The ids stored for a field and a value. -/
def bitmap (fi : FilterIndex) (f : Bytes) (v : Int64) : Finset UInt32 := (fi.bitmap? f v).getD ∅

/-- The assignment `intFieldFilter[f][v] = b`. -/
def set (fi : FilterIndex) (f : Bytes) (v : Int64) (b : Finset UInt32) : FilterIndex where
  intFieldFilter := fi.intFieldFilter.insert f ((fi.intFieldFilter.getD f ∅).insert v b)
  value_of_field g vm h := by
    rw [ExtTreeMap.getElem?_insert] at h
    split at h
    · cases h
      exact ⟨v, b, ExtTreeMap.getElem?_insert_self⟩
    · exact fi.value_of_field g vm h

/-! ## The operations -/

def addIntFieldFilter (fi : FilterIndex) (fieldname : Bytes) (value : Int64) (id : UInt64) : FilterIndex :=
  fi.set fieldname value {id.toUInt32}

/-- The first half of `updateIntFieldFilter`: take the id out of the old value's bitmap. -/
def removeOldValue (fi : FilterIndex) (fieldname : Bytes) (oldValue : Option Int64) (id : UInt64) : FilterIndex :=
  match oldValue with
  | none => fi
  | some old =>
    match fi.bitmap? fieldname old with
    | none => fi
    | some oldBitmap => fi.set fieldname old (oldBitmap.erase id.toUInt32)

def updateIntFieldFilter (fi : FilterIndex) (fieldname : Bytes) (oldValue : Option Int64) (newValue : Int64)
    (id : UInt64) : FilterIndex :=
  match fi.intFieldFilter[fieldname]? with
  | some _ =>
    let fi := fi.removeOldValue fieldname oldValue id
    -- a value without a bitmap gets an empty one first
    fi.set fieldname newValue (insert id.toUInt32 (fi.bitmap fieldname newValue))
  | none => fi.addIntFieldFilter fieldname newValue id

/-- The answer is added to the caller's bitmap. -/
def getIntFieldFilterBitmap (fi : FilterIndex) (fieldname : Bytes) (op : Operation) (value : Int64)
    (result : Finset UInt32) : Finset UInt32 :=
  match fi.intFieldFilter[fieldname]? with
  | none => result
  | some valueMap =>
    match op with
    | .equal =>
      match valueMap[value]? with
      | some b => result ∪ b
      | none => result
    | .notEqual => valueMap.foldl (fun r v b => if v ≠ value then r ∪ b else r) result

/-! ## Bitmaps after an update -/

@[simp] theorem bitmap?_empty (f : Bytes) (v : Int64) : empty.bitmap? f v = none := by simp [bitmap?, empty]

@[simp] theorem bitmap_empty (f : Bytes) (v : Int64) : empty.bitmap f v = ∅ := by simp [bitmap]

theorem bitmap?_set (fi : FilterIndex) (f g : Bytes) (v w : Int64) (b : Finset UInt32) :
    (fi.set f v b).bitmap? g w = if g = f ∧ w = v then some b else fi.bitmap? g w := by
  unfold bitmap? set
  rw [ExtTreeMap.getElem?_insert]
  by_cases hf : g = f
  · subst hf
    simp only [Std.compare_self, if_true, true_and, Option.bind_some, ExtTreeMap.getElem?_insert,
      Std.compare_eq_iff_eq, ExtTreeMap.getD_eq_getD_getElem?, eq_comm (a := v)]
    split
    · rfl
    · cases fi.intFieldFilter[g]? <;> simp
  · rw [if_neg (fun h => hf (Std.compare_eq_iff_eq.mp h).symm), if_neg (fun h => hf h.1)]

theorem bitmap_set (fi : FilterIndex) (f g : Bytes) (v w : Int64) (b : Finset UInt32) :
    (fi.set f v b).bitmap g w = if g = f ∧ w = v then b else fi.bitmap g w := by
  unfold bitmap
  rw [bitmap?_set]
  split <;> rfl

/-- An index is determined by its bitmaps. -/
theorem ext_bitmap? {a b : FilterIndex} (h : ∀ f v, a.bitmap? f v = b.bitmap? f v) : a = b := by
  have key : ∀ {x y : FilterIndex}, (∀ f v, x.bitmap? f v = y.bitmap? f v) → ∀ {f : Bytes} {vm},
      x.intFieldFilter[f]? = some vm → y.intFieldFilter[f]? = some vm := by
    intro x y hxy f vm hx
    obtain ⟨v, c, hv⟩ := x.value_of_field f vm hx
    have hy := hxy f v
    simp only [bitmap?, hx, Option.bind_some, hv] at hy
    obtain ⟨vm', hvm', -⟩ := Option.bind_eq_some_iff.mp hy.symm
    rw [hvm']
    congr 1
    refine ExtTreeMap.ext_getElem? fun w => ?_
    have hw := hxy f w
    simp only [bitmap?, hx, hvm', Option.bind_some] at hw
    exact hw.symm
  have hmap : a.intFieldFilter = b.intFieldFilter := by
    refine ExtTreeMap.ext_getElem? fun f => ?_
    cases hb : b.intFieldFilter[f]? with
    | some vm => exact key (fun f v => (h f v).symm) hb
    | none =>
      cases ha : a.intFieldFilter[f]? with
      | none => rfl
      | some vm => rw [key h ha] at hb; cases hb
  cases a
  cases b
  cases hmap
  rfl

theorem mem_bitmap_removeOldValue (fi : FilterIndex) (f g : Bytes) (old : Option Int64) (w : Int64) (id : UInt64)
    (x : UInt32) : x ∈ (fi.removeOldValue f old id).bitmap g w ↔
      x ∈ fi.bitmap g w ∧ ¬ (g = f ∧ old = some w ∧ x = id.toUInt32) := by
  cases old with
  | none => simp [removeOldValue]
  | some o =>
    cases hb : fi.bitmap? f o with
    | none =>
      have hr : fi.removeOldValue f (some o) id = fi := by simp only [removeOldValue, hb]
      rw [hr]
      refine ⟨fun h => ⟨h, ?_⟩, And.left⟩
      rintro ⟨rfl, ho, -⟩
      cases ho
      simp [bitmap, hb] at h
    | some b =>
      have hr : fi.removeOldValue f (some o) id = fi.set f o (b.erase id.toUInt32) := by
        simp only [removeOldValue, hb]
      rw [hr, bitmap_set]
      split
      · rename_i h
        obtain ⟨rfl, rfl⟩ := h
        simp only [Finset.mem_erase, bitmap, hb, Option.getD_some, true_and]
        exact and_comm
      · rename_i h
        refine ⟨fun hx => ⟨hx, ?_⟩, And.left⟩
        rintro ⟨rfl, ho, -⟩
        exact h ⟨rfl, (Option.some.inj ho).symm⟩

/-- A field that is not there has no bitmap. -/
theorem bitmap_of_field_none {fi : FilterIndex} {f : Bytes} (h : fi.intFieldFilter[f]? = none) (v : Int64) :
    fi.bitmap f v = ∅ := by simp [bitmap, bitmap?, h]

/-- **One update.** The id leaves the old value's bitmap and enters the new value's; no other id and no other
bitmap changes. -/
theorem mem_bitmap_update (fi : FilterIndex) (f g : Bytes) (old : Option Int64) (new w : Int64) (id : UInt64)
    (x : UInt32) : x ∈ (fi.updateIntFieldFilter f old new id).bitmap g w ↔
      (g = f ∧ w = new ∧ x = id.toUInt32) ∨
        (x ∈ fi.bitmap g w ∧ ¬ (g = f ∧ old = some w ∧ x = id.toUInt32)) := by
  unfold updateIntFieldFilter
  cases hf : fi.intFieldFilter[f]? with
  | some vm =>
    simp only [bitmap_set]
    split
    · rename_i h
      obtain ⟨rfl, rfl⟩ := h
      rw [Finset.mem_insert, mem_bitmap_removeOldValue]
      simp
    · rename_i h
      rw [mem_bitmap_removeOldValue]
      have : ¬ (g = f ∧ w = new ∧ x = id.toUInt32) := fun hc => h ⟨hc.1, hc.2.1⟩
      tauto
  | none =>
    simp only [addIntFieldFilter, bitmap_set]
    split
    · rename_i h
      obtain ⟨rfl, rfl⟩ := h
      simp [bitmap_of_field_none hf]
    · rename_i h
      have h1 : ¬ (g = f ∧ w = new ∧ x = id.toUInt32) := fun hc => h ⟨hc.1, hc.2.1⟩
      by_cases hg : g = f
      · subst hg
        simpa [bitmap_of_field_none hf] using h1
      · simp [hg]

/-! ## The updates of one document -/

/-- An update for each of `fields`, with the old values that `old` gives. -/
def updateAll (fi : FilterIndex) (old : Bytes → Option Int64) (id : UInt64) (fields : List (Bytes × Int64)) :
    FilterIndex :=
  fields.foldl (fun fi p => fi.updateIntFieldFilter p.1 (old p.1) p.2 id) fi

/-- The value of the last pair under a name. -/
def lastValue (fields : List (Bytes × Int64)) (g : Bytes) : Option Int64 :=
  fields.foldl (fun r p => if p.1 = g then some p.2 else r) none

theorem lastValue_concat (fields : List (Bytes × Int64)) (p : Bytes × Int64) (g : Bytes) :
    lastValue (fields ++ [p]) g = if p.1 = g then some p.2 else lastValue fields g := by
  simp [lastValue]

theorem updateAll_concat (fi : FilterIndex) (old : Bytes → Option Int64) (id : UInt64)
    (fields : List (Bytes × Int64)) (p : Bytes × Int64) :
    fi.updateAll old id (fields ++ [p]) = (fi.updateAll old id fields).updateIntFieldFilter p.1 (old p.1) p.2 id := by
  simp [updateAll]

theorem lastValue_mem {fields : List (Bytes × Int64)} {g : Bytes} {w : Int64} (h : lastValue fields g = some w) :
    (g, w) ∈ fields := by
  induction fields using List.reverseRecOn with
  | nil => simp [lastValue] at h
  | append_singleton fields p ih =>
    rw [lastValue_concat] at h
    split at h
    · rename_i hp
      cases h
      rw [← hp]
      simp
    · exact List.mem_append_left _ (ih h)

theorem exists_lastValue {fields : List (Bytes × Int64)} {g : Bytes} {v : Int64} (h : (g, v) ∈ fields) :
    ∃ w, lastValue fields g = some w := by
  induction fields using List.reverseRecOn with
  | nil => cases h
  | append_singleton fields p ih =>
    rw [lastValue_concat]
    split
    · exact ⟨_, rfl⟩
    · rename_i hp
      rcases List.mem_append.mp h with h | h
      · exact ih h
      · rw [List.mem_singleton] at h
        exact absurd (congrArg Prod.fst h).symm hp

/-- **The updates of one document.** Of a name that occurs, the last value gets the id, the values before it
keep the id unless the update removes the old value, and an old value loses it. -/
theorem mem_bitmap_updateAll (fi : FilterIndex) (old : Bytes → Option Int64) (id : UInt64)
    (fields : List (Bytes × Int64)) (g : Bytes) (w : Int64) (x : UInt32) :
    x ∈ (fi.updateAll old id fields).bitmap g w ↔
      (x = id.toUInt32 ∧ (g, w) ∈ fields ∧ (lastValue fields g = some w ∨ old g ≠ some w)) ∨
        (x ∈ fi.bitmap g w ∧ ¬ (x = id.toUInt32 ∧ old g = some w ∧ ∃ v, (g, v) ∈ fields)) := by
  induction fields using List.reverseRecOn with
  | nil => simp [updateAll]
  | append_singleton fields p ih =>
    obtain ⟨f, v⟩ := p
    rw [updateAll_concat, mem_bitmap_update, ih, lastValue_concat]
    by_cases hx : x = id.toUInt32
    · by_cases hg : g = f
      · subst hg
        by_cases hw : w = v
        · subst hw
          simp [hx]
        · have hvw : ¬ v = w := fun h => hw h.symm
          by_cases ho : old g = some w <;> simp [hx, hw, hvw, ho]
      · have hfg : ¬ f = g := fun h => hg h.symm
        have hmem : ∀ u, (g, u) ∈ fields ++ [(f, v)] ↔ (g, u) ∈ fields := fun u => by simp [hg]
        simp only [hg, hfg, hmem, false_and, not_false_eq_true, and_true, false_or, if_false]
    · simp [hx]

/-! ## Answers -/

theorem mem_foldl_union (l : List (Int64 × Finset UInt32)) (value : Int64) (r : Finset UInt32) (x : UInt32) :
    x ∈ l.foldl (fun r p => if p.1 ≠ value then r ∪ p.2 else r) r ↔
      x ∈ r ∨ ∃ p ∈ l, p.1 ≠ value ∧ x ∈ p.2 := by
  induction l generalizing r with
  | nil => simp
  | cons p l ih =>
    rw [List.foldl_cons, ih]
    by_cases hp : p.1 = value
    · simp [hp]
    · simp only [ne_eq, hp, not_false_eq_true, if_true, Finset.mem_union, List.mem_cons, exists_eq_or_imp, true_and,
        or_assoc]

theorem mem_get_equal (fi : FilterIndex) (f : Bytes) (v : Int64) (r : Finset UInt32) (x : UInt32) :
    x ∈ fi.getIntFieldFilterBitmap f .equal v r ↔ x ∈ r ∨ x ∈ fi.bitmap f v := by
  unfold getIntFieldFilterBitmap bitmap bitmap?
  cases fi.intFieldFilter[f]? with
  | none => simp
  | some vm => cases h : vm[v]? <;> simp [h]

theorem mem_get_notEqual (fi : FilterIndex) (f : Bytes) (v : Int64) (r : Finset UInt32) (x : UInt32) :
    x ∈ fi.getIntFieldFilterBitmap f .notEqual v r ↔ x ∈ r ∨ ∃ w, w ≠ v ∧ x ∈ fi.bitmap f w := by
  unfold getIntFieldFilterBitmap bitmap bitmap?
  cases fi.intFieldFilter[f]? with
  | none => simp
  | some vm =>
    simp only [ExtTreeMap.foldl_eq_foldl_toList, mem_foldl_union, Option.bind_some, Prod.exists,
      ExtTreeMap.mem_toList_iff_getElem?_eq_some]
    refine or_congr Iff.rfl ⟨?_, ?_⟩
    · rintro ⟨w, b, hw, hne, hx⟩
      exact ⟨w, hne, by simpa [hw] using hx⟩
    · rintro ⟨w, hne, hx⟩
      cases hw : vm[w]? with
      | none => simp [hw] at hx
      | some b => exact ⟨w, b, hw, hne, by simpa [hw] using hx⟩


/-- **The ids a filter answers**: those stored under some value that satisfies the comparison. -/
theorem mem_getIntFieldFilterBitmap (fi : FilterIndex) (f : Bytes) (op : Operation) (v : Int64) (x : UInt32) :
    x ∈ fi.getIntFieldFilterBitmap f op v ∅ ↔ ∃ w, op.test v w ∧ x ∈ fi.bitmap f w := by
  cases op
  · simp [mem_get_equal, Operation.test]
  · simp [mem_get_notEqual, Operation.test]

end FilterIndex
end VectorDb
