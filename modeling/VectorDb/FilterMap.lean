import VectorDb.StaleFilter

/-!
# `FilterIndex` as a partial map

* `FieldMap`, `FieldMap.Step` : a value for each field and id, and a call that is told the present value;
* `FilterIndex.Refines` : the bitmaps list each id under its value, and nowhere else;
* `FilterIndex.AnswersAs` : what the two operations answer, in terms of the map;
* `refines_run`, `answersAs_run` : every sequence of calls that are told the present values keeps an index and its map
  together.
-/

namespace VectorDb

/-- The arguments of one `updateIntFieldFilter`. -/
structure FilterCall where
  fieldname : Bytes
  oldValue : Option Int64
  newValue : Int64
  id : UInt64

/-- A value for some fields and ids. -/
abbrev FieldMap := Bytes → UInt64 → Option Int64

namespace FieldMap

def empty : FieldMap := fun _ _ => none

/-- The map with a value for one field and id. -/
def set (m : FieldMap) (f : Bytes) (id : UInt64) (v : Int64) : FieldMap :=
  fun g i => if g = f ∧ i = id then some v else m g i

/-- A call that is told the value its id has. -/
def Step (m : FieldMap) (c : FilterCall) (m' : FieldMap) : Prop :=
  c.oldValue = m c.fieldname c.id ∧ m' = m.set c.fieldname c.id c.newValue

end FieldMap

namespace FilterIndex

/-- The index after some calls. -/
def updates (calls : List FilterCall) : FilterIndex :=
  calls.foldl (fun fi c => fi.updateIntFieldFilter c.fieldname c.oldValue c.newValue c.id) empty

theorem updates_concat (calls : List FilterCall) (c : FilterCall) :
    updates (calls ++ [c]) = (updates calls).updateIntFieldFilter c.fieldname c.oldValue c.newValue c.id := by
  simp [updates]

/-- Each id is in the bitmap of its value, and in no other. -/
structure Refines (fi : FilterIndex) (m : FieldMap) : Prop where
  small : ∀ f i v, m f i = some v → SmallId i
  mem : ∀ f v x, x ∈ fi.bitmap f v ↔ m f x.toUInt64 = some v

/-- The answers of an index, in terms of a map. -/
structure AnswersAs (fi : FilterIndex) (m : FieldMap) : Prop where
  small : ∀ f i v, m f i = some v → SmallId i
  equal : ∀ f v r x, x ∈ fi.getIntFieldFilterBitmap f .equal v r ↔ x ∈ r ∨ m f x.toUInt64 = some v
  notEqual : ∀ f v r x, x ∈ fi.getIntFieldFilterBitmap f .notEqual v r ↔ x ∈ r ∨ ∃ w, w ≠ v ∧ m f x.toUInt64 = some w
  /-- An id is in one bitmap of a field at most. -/
  oneBitmap : ∀ f v w x, x ∈ fi.bitmap f v → x ∈ fi.bitmap f w → v = w
  disjoint : ∀ f v, Disjoint (fi.getIntFieldFilterBitmap f .equal v ∅) (fi.getIntFieldFilterBitmap f .notEqual v ∅)
  /-- Together the two operations give every id that has the field. -/
  union : ∀ f v x, x ∈ fi.getIntFieldFilterBitmap f .equal v ∅ ∪ fi.getIntFieldFilterBitmap f .notEqual v ∅ ↔
    ∃ w, m f x.toUInt64 = some w
  adds : ∀ f op v r, r ⊆ fi.getIntFieldFilterBitmap f op v r

theorem refines_empty : empty.Refines FieldMap.empty where
  small f i v h := by cases h
  mem f v x := by simp [FieldMap.empty]

/-- **One call** that is told the present value. -/
theorem refines_step {fi : FilterIndex} {m m' : FieldMap} {c : FilterCall} (h : fi.Refines m) (hid : SmallId c.id)
    (hst : FieldMap.Step m c m') :
    (fi.updateIntFieldFilter c.fieldname c.oldValue c.newValue c.id).Refines m' := by
  obtain ⟨hold, rfl⟩ := hst
  constructor
  · intro f i v hv
    rw [FieldMap.set] at hv
    split at hv
    · rename_i heq
      rw [heq.2]
      exact hid
    · exact h.small f i v hv
  · intro f v x
    have hx : x = c.id.toUInt32 ↔ x.toUInt64 = c.id := by
      constructor
      · intro heq
        rw [heq, hid.toUInt64]
      · intro heq
        rw [← heq, UInt32.toUInt32_toUInt64]
    rw [mem_bitmap_update, h.mem, hx, hold, FieldMap.set]
    by_cases hc : f = c.fieldname ∧ x.toUInt64 = c.id
    · obtain ⟨rfl, hxi⟩ := hc
      rw [if_pos ⟨rfl, hxi⟩, hxi, Option.some.injEq]
      -- the id leaves the bitmap of its old value, which is the only one that lists it
      constructor
      · rintro (⟨-, rfl, -⟩ | ⟨hv, hno⟩)
        · rfl
        · exact absurd ⟨rfl, hv, rfl⟩ hno
      · intro hv
        exact Or.inl ⟨rfl, hv.symm, rfl⟩
    · rw [if_neg hc]
      constructor
      · rintro (⟨hf, -, hxi⟩ | ⟨hv, -⟩)
        · exact absurd ⟨hf, hxi⟩ hc
        · exact hv
      · intro hv
        exact Or.inr ⟨hv, fun hno => hc ⟨hno.1, hno.2.2⟩⟩

theorem refines_run {calls : List FilterCall} {m : FieldMap} (h : Run FieldMap.Step FieldMap.empty calls m)
    (hid : ∀ c ∈ calls, SmallId c.id) : (updates calls).Refines m := by
  induction h with
  | nil => exact refines_empty
  | snoc _ ha ih =>
    rw [List.forall_mem_append, List.forall_mem_singleton] at hid
    rw [updates_concat]
    exact refines_step (ih hid.1) hid.2 ha

theorem Refines.answersAs {fi : FilterIndex} {m : FieldMap} (h : fi.Refines m) : fi.AnswersAs m where
  small := h.small
  equal f v r x := by rw [mem_get_equal, h.mem]
  notEqual f v r x := by simp only [mem_get_notEqual, h.mem]
  oneBitmap f v w x hv hw := by
    rw [h.mem] at hv hw
    exact Option.some.inj (hv.symm.trans hw)
  disjoint f v := by
    rw [Finset.disjoint_left]
    intro x hx hnx
    simp only [mem_get_equal, mem_get_notEqual, h.mem, Finset.notMem_empty, false_or] at hx hnx
    obtain ⟨w, hne, hw⟩ := hnx
    exact hne (Option.some.inj (hw.symm.trans hx))
  union f v x := by
    simp only [Finset.mem_union, mem_get_equal, mem_get_notEqual, h.mem, Finset.notMem_empty, false_or]
    constructor
    · rintro (hv | ⟨w, -, hw⟩)
      · exact ⟨v, hv⟩
      · exact ⟨w, hw⟩
    · rintro ⟨w, hw⟩
      by_cases hwv : w = v
      · exact Or.inl (hwv ▸ hw)
      · exact Or.inr ⟨w, hwv, hw⟩
  adds f op v r x hx := by
    cases op with
    | equal => exact (mem_get_equal fi f v r x).mpr (Or.inl hx)
    | notEqual => exact (mem_get_notEqual fi f v r x).mpr (Or.inl hx)

/-- **The index is a partial map.** After every sequence of calls that are told the present values, for ids below
`2^32`, it answers as the map that the same calls make. -/
theorem answersAs_run {calls : List FilterCall} {m : FieldMap} (h : Run FieldMap.Step FieldMap.empty calls m)
    (hid : ∀ c ∈ calls, SmallId c.id) : (updates calls).AnswersAs m := (refines_run h hid).answersAs

/-- Id 1 goes from 5 to 6 in one field. -/
theorem answersAs_run_moved : ∃ m, Run FieldMap.Step FieldMap.empty
      [⟨ascii "f", none, 5, 1⟩, ⟨ascii "f", some 5, 6, 1⟩] m ∧ m (ascii "f") 1 = some 6 ∧
    (updates [⟨ascii "f", none, 5, 1⟩, ⟨ascii "f", some 5, 6, 1⟩]).AnswersAs m := by
  have hrun : Run FieldMap.Step FieldMap.empty [⟨ascii "f", none, 5, 1⟩, ⟨ascii "f", some 5, 6, 1⟩]
      ((FieldMap.empty.set (ascii "f") 1 5).set (ascii "f") 1 6) :=
    (Run.single ⟨rfl, rfl⟩ : Run FieldMap.Step FieldMap.empty [⟨ascii "f", none, 5, 1⟩] _).snoc ⟨rfl, rfl⟩
  exact ⟨_, hrun, rfl, answersAs_run hrun (by decide)⟩

end FilterIndex
end VectorDb
