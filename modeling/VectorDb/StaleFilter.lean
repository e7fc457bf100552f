import VectorDb.Upsert
import VectorDb.Lib.Run

/-!
# Runs of upserts, and what the filters still list

* `UpsertStep` : one completed upsert;
* `Stores.NoStale` : every id a filter answers has a stored document that satisfies the filter;
* `ListsNoDropped`, `OneValue` : the two conditions on an upsert that keep it so;
* `noStale_iff` : over every run, the filters are never stale exactly when every step meets both.
-/

namespace VectorDb

variable {F : Type}

/-- The arguments of one upsert. -/
structure UpsertArgs where
  id : UInt64
  data : Json
  indexType : IndexType

/-- One upsert that completes. -/
def UpsertStep [CFloat F] (s : Stores F) (a : UpsertArgs) (s' : Stores F) : Prop :=
  s.upsert .ok a.id a.data a.indexType = .ok s'

theorem UpsertStep.unique [CFloat F] (s : Stores F) (a : UpsertArgs) (t u : Stores F) (ht : UpsertStep s a t)
    (hu : UpsertStep s a u) : t = u := Except.ok.inj (ht.symm.trans hu)

/-- The id fits into a CRoaring bitmap. -/
def SmallId (id : UInt64) : Prop := id.toNat < 2 ^ 32

instance (id : UInt64) : Decidable (SmallId id) := inferInstanceAs (Decidable (_ < _))

theorem SmallId.toUInt64 {id : UInt64} (h : SmallId id) : id.toUInt32.toUInt64 = id := by
  unfold SmallId at h
  apply UInt64.toNat_inj.mp
  simp only [UInt32.toNat_toUInt64, UInt64.toNat_toUInt32]
  exact Nat.mod_eq_of_lt h

/-- Every id that a filter answers has a stored document whose field is an integer that satisfies it. -/
def Stores.NoStale (s : Stores F) : Prop :=
  ∀ (f : Bytes) (op : Operation) (v : Int64) (x : UInt32), x ∈ s.indexes.filter.getIntFieldFilterBitmap f op v ∅ →
    ∃ w, (s.document x.toUInt64).memberInt64? f = some w ∧ op.test v w

/-- Every field under which the index lists the id is an integer field of the new document. -/
def ListsNoDropped (s : Stores F) (a : UpsertArgs) : Prop :=
  ∀ f w, a.id.toUInt32 ∈ s.indexes.filter.bitmap f w → ∃ v, (f, v) ∈ intFields a.data

/-- A value that an integer field of the new document leaves in the index is the one the field's name finds. Only
a repeated name, or one cut short by a NUL, can break this. -/
def OneValue (s : Stores F) (a : UpsertArgs) : Prop :=
  ∀ f w, (f, w) ∈ intFields a.data →
    FilterIndex.lastValue (intFields a.data) f = some w ∨ (s.document a.id).memberInt64? f ≠ some w →
    a.data.memberInt64? f = some w

namespace Stores

/-! ## What the bitmaps hold -/

/-- Each bitmap lists ids whose document has that value. -/
def FilterSound (s : Stores F) : Prop :=
  ∀ (f : Bytes) (w : Int64) (x : UInt32), x ∈ s.indexes.filter.bitmap f w →
    (s.document x.toUInt64).memberInt64? f = some w

theorem noStale_iff_filterSound {s : Stores F} : s.NoStale ↔ s.FilterSound := by
  constructor
  · intro h f w x hx
    obtain ⟨u, hu, ht⟩ := h f .equal w x
      ((FilterIndex.mem_getIntFieldFilterBitmap _ f .equal w x).mpr ⟨w, rfl, hx⟩)
    obtain rfl : u = w := ht
    exact hu
  · intro h f op v x hx
    obtain ⟨w, hw, hx⟩ := (FilterIndex.mem_getIntFieldFilterBitmap _ f op v x).mp hx
    exact ⟨w, h f w x hx, hw⟩

/-- Fields and values of the index come from documents. -/
def FromFields (s : Stores F) : Prop :=
  ∀ (f : Bytes) (w : Int64) (x : UInt32), x ∈ s.indexes.filter.bitmap f w → ∃ d, (f, w) ∈ intFields d

theorem mem_bitmap_upserted (s : Stores F) (id : UInt64) (d : Json) (v : List F) (t : IndexType) (g : Bytes)
    (w : Int64) (x : UInt32) : x ∈ (s.upserted id d v t).indexes.filter.bitmap g w ↔
      (x = id.toUInt32 ∧ (g, w) ∈ intFields d ∧ (FilterIndex.lastValue (intFields d) g = some w ∨
        (s.document id).memberInt64? g ≠ some w)) ∨
      (x ∈ s.indexes.filter.bitmap g w ∧ ¬ (x = id.toUInt32 ∧ (s.document id).memberInt64? g = some w ∧
        ∃ u, (g, u) ∈ intFields d)) := by
  rw [filter_upserted, FilterIndex.mem_bitmap_updateAll]

theorem fromFields_upserted {s : Stores F} (h : s.FromFields) (id : UInt64) (d : Json) (v : List F) (t : IndexType) :
    (s.upserted id d v t).FromFields := by
  intro f w x hx
  rcases (mem_bitmap_upserted s id d v t f w x).mp hx with ⟨-, hd, -⟩ | ⟨hx, -⟩
  · exact ⟨d, hd⟩
  · exact h f w x hx

end Stores

/-- A value that some document brings into the index is a 32-bit integer of every document that holds it under a name
cut to the same one. -/
theorem mem_intFields_of_memberInt64? {d e : Json} {name : Bytes} {w : Int64} (he : (cstr name, w) ∈ intFields e)
    (h : d.memberInt64? name = some w) : (cstr name, w) ∈ intFields d := by
  obtain ⟨m, -, hm, -, hid, hw⟩ := mem_intFields.mp he
  obtain ⟨j, hj, hjw⟩ := Option.bind_eq_some_iff.mp h
  exact mem_intFields.mpr ⟨_, Json.mem_members_of_member? hj, Json.isInt_of_int64?_eq hm hw hjw, rfl, hid, hjw⟩

/-- The names of the index hold no NUL. -/
theorem cstr_of_mem_intFields {d : Json} {f : Bytes} {w : Int64} (h : (f, w) ∈ intFields d) : cstr f = f :=
  cstr_eq_self (zero_notMem_of_mem_intFields h)

namespace Stores

/-- **One upsert** keeps the bitmaps sound exactly when it drops no listed field and leaves one value each. -/
theorem filterSound_upserted_iff {s : Stores F} {a : UpsertArgs} (hid : SmallId a.id) (hs : s.FilterSound)
    (hf : s.FromFields) (v : List F) :
    (s.upserted a.id a.data v a.indexType).FilterSound ↔ ListsNoDropped s a ∧ OneValue s a := by
  have hdoc : (s.upserted a.id a.data v a.indexType).document a.id.toUInt32.toUInt64 = a.data := by
    rw [document_upserted, if_pos hid.toUInt64]
  constructor
  · intro h
    constructor
    · intro f w hx
      by_contra hno
      have hx' : a.id.toUInt32 ∈ (s.upserted a.id a.data v a.indexType).indexes.filter.bitmap f w :=
        (mem_bitmap_upserted s _ _ v _ f w _).mpr (Or.inr ⟨hx, fun hc => hno hc.2.2⟩)
      have hw := h f w _ hx'
      rw [hdoc] at hw
      obtain ⟨e, he⟩ := hf f w _ hx
      have hcut : cstr f = f := cstr_of_mem_intFields he
      have hmem : (cstr f, w) ∈ intFields a.data := mem_intFields_of_memberInt64? (by rwa [hcut]) hw
      rw [hcut] at hmem
      exact hno ⟨w, hmem⟩
    · intro f w hw hlast
      have hx' := (mem_bitmap_upserted s a.id a.data v a.indexType f w _).mpr (Or.inl ⟨rfl, hw, hlast⟩)
      have := h f w _ hx'
      rwa [hdoc] at this
  · rintro ⟨hdrop, hone⟩ f w x hx
    rcases (mem_bitmap_upserted s _ _ v _ f w x).mp hx with ⟨rfl, hw, hlast⟩ | ⟨hx, hno⟩
    · rw [hdoc]
      exact hone f w hw hlast
    · rw [document_upserted]
      split
      · rename_i hxid
        have hx32 : x = a.id.toUInt32 := by rw [← hxid, UInt32.toUInt32_toUInt64]
        subst hx32
        have hold := hs f w _ hx
        rw [hid.toUInt64] at hold
        exact absurd ⟨rfl, hold, hdrop f w hx⟩ hno
      · exact hs f w x hx

variable [CFloat F]

theorem fromFields_run {dim : Nat} {as : List UpsertArgs} {s : Stores F} (h : Run UpsertStep (fresh dim) as s) :
    s.FromFields := by
  refine h.invariant (fun f w x hx => ?_) fun t a u ht hu => ?_
  · simp [fresh, IndexFactory.init] at hx
  · obtain ⟨v, -, rfl⟩ := upsert_eq_ok.mp hu
    exact fromFields_upserted ht _ _ _ _

/-- **No stale membership.** In every run of upserts with ids below `2^32`, the filters are never stale exactly
when each upsert drops no field under which the index lists its id and leaves one value in each field. -/
theorem noStale_iff {dim : Nat} {as : List UpsertArgs} {s : Stores F} (h : Run UpsertStep (fresh dim) as s)
    (hid : ∀ a ∈ as, SmallId a.id) :
    (∀ bs (u : Stores F), bs <+: as → Run UpsertStep (fresh dim) bs u → u.NoStale) ↔
      Run (fun s a t => UpsertStep s a t ∧ ListsNoDropped s a ∧ OneValue s a) (fresh dim) as s := by
  refine h.forall_prefix_iff UpsertStep.unique ?_ ?_
  · rw [noStale_iff_filterSound]
    intro f w x hx
    simp [fresh, IndexFactory.init] at hx
  · intro bs t a u hbs ht hst hstep
    rw [noStale_iff_filterSound] at hst ⊢
    obtain ⟨v, -, rfl⟩ := upsert_eq_ok.mp hstep
    exact filterSound_upserted_iff (hid a (hbs.subset (by simp))) hst (fromFields_run (ht.mono fun _ _ _ h => h.1)) v

/-- Id 1 with `f = 1`. -/
def withField : UpsertArgs := ⟨1, flatDocument 1 0 [(ascii "f", .int 1)], .flat⟩

/-- Id 1 without `f`. -/
def withoutField : UpsertArgs := ⟨1, flatDocument 1 0 [], .flat⟩

/-- The stores after `withField`. -/
def storedWithField : Stores Number := (fresh 1).upserted withField.id withField.data [.int 0] .flat

theorem upsertStep_withField : UpsertStep (fresh 1) withField storedWithField :=
  upsert_eq_ok.mpr ⟨[.int 0], ⟨by decide, by rfl, by decide, by decide⟩, rfl⟩

theorem noStale_iff_withField : (∀ bs (u : Stores Number), bs <+: [withField] → Run UpsertStep (fresh 1) bs u → u.NoStale) ↔
    Run (fun s a t => UpsertStep s a t ∧ ListsNoDropped s a ∧ OneValue s a) (fresh 1) [withField] storedWithField :=
  noStale_iff (Run.single upsertStep_withField) (by decide)

/-- A dropped field leaves its value behind. -/
theorem stale_of_dropped_field : ¬ ∀ (as : List UpsertArgs) (s : Stores Number), Run UpsertStep (fresh 1) as s →
    (∀ a ∈ as, SmallId a.id) → s.NoStale := by
  intro h
  let s₂ : Stores Number := storedWithField.upserted withoutField.id withoutField.data [.int 0] .flat
  have h₂ : UpsertStep storedWithField withoutField s₂ :=
    upsert_eq_ok.mpr ⟨[.int 0], ⟨by decide +kernel, by rfl, by decide, by decide +kernel⟩, rfl⟩
  obtain ⟨w, hw, -⟩ := h [withField, withoutField] s₂ ((Run.single upsertStep_withField).snoc h₂) (by decide)
    (ascii "f") .equal 1 1 (by decide +kernel)
  have hnone : (s₂.document (UInt32.toUInt64 1)).memberInt64? (ascii "f") = none := by decide +kernel
  rw [hnone] at hw
  cases hw

end Stores
end VectorDb
