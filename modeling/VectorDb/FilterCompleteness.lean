import VectorDb.Interference

/-!
# Which integers the filters find

* `Stores.FindsAll` : a filter that an integer member satisfies answers the id of its document;
* `IntegersStay` : the upsert files each integer member of its document, and leaves it there;
* `findsAll_iff` : over every run the filters find all integers exactly when each upsert files its own.
-/

namespace VectorDb

variable {F : Type}

/-- Every filter that an integer member of a stored document satisfies answers the id. The name of a filter ends at its
first NUL. -/
def Stores.FindsAll (s : Stores F) : Prop :=
  ∀ (i : UInt64) (name : Bytes) (w : Int64), (s.document i).memberInt64? name = some w → name ≠ ascii "id" →
    ∀ (op : Operation) (v : Int64), op.test v w →
      i.toUInt32 ∈ s.indexes.filter.getIntFieldFilterBitmap (cstr name) op v ∅

/-- Each 64-bit integer member other than `id` is one of 32 bits, under a name that a NUL does not make `id`; its value
is the last one of the cut name, or not the stored one. -/
def IntegersStay (s : Stores F) (a : UpsertArgs) : Prop :=
  ∀ (name : Bytes) (j : Json) (w : Int64), a.data.member? name = some j → j.int64? = some w → name ≠ ascii "id" →
    (j.isInt = true ∧ cstr name ≠ ascii "id") ∧
      (FilterIndex.lastValue (intFields a.data) (cstr name) = some w ∨ (s.document a.id).memberInt64? (cstr name) ≠ some w)

/-- A member is filed when it is a 32-bit integer and its cut name is not `id`. -/
theorem mem_intFields_cstr_iff {d : Json} {name : Bytes} {j : Json} {w : Int64} (hj : d.member? name = some j)
    (hw : j.int64? = some w) : (cstr name, w) ∈ intFields d ↔ j.isInt = true ∧ cstr name ≠ ascii "id" := by
  constructor
  · intro h
    obtain ⟨m, -, hm, -, hid, hmw⟩ := mem_intFields.mp h
    exact ⟨Json.isInt_of_int64?_eq hm hmw hw, hid⟩
  · rintro ⟨hint, hid⟩
    exact mem_intFields.mpr ⟨(name, j), Json.mem_members_of_member? hj, hint, rfl, hid, hw⟩

theorem integersStay_iff {s : Stores F} {a : UpsertArgs} : IntegersStay s a ↔
    ∀ name w, a.data.memberInt64? name = some w → name ≠ ascii "id" → Stays s a (cstr name) w := by
  unfold IntegersStay Stays
  constructor
  · intro h name w hmember hname
    obtain ⟨j, hj, hw⟩ := Option.bind_eq_some_iff.mp hmember
    rw [mem_intFields_cstr_iff hj hw]
    exact h name j w hj hw hname
  · intro h name j w hj hw hname
    rw [← mem_intFields_cstr_iff hj hw]
    exact h name w (Option.bind_eq_some_iff.mpr ⟨j, hj, hw⟩) hname

namespace Stores

theorem findsAll_iff_bitmap {s : Stores F} : s.FindsAll ↔ ∀ (i : UInt64) (name : Bytes) (w : Int64),
    (s.document i).memberInt64? name = some w → name ≠ ascii "id" → i.toUInt32 ∈ s.indexes.filter.bitmap (cstr name) w := by
  unfold FindsAll
  constructor
  · intro h i name w hw hid
    have hget := h i name w hw hid .equal w rfl
    obtain ⟨u, hu, hmem⟩ := (FilterIndex.mem_getIntFieldFilterBitmap _ _ _ _ _).mp hget
    obtain rfl : u = w := hu
    exact hmem
  · intro h i name w hw hid op v htest
    rw [FilterIndex.mem_getIntFieldFilterBitmap]
    exact ⟨w, htest, h i name w hw hid⟩

/-- **One upsert** keeps every integer found exactly when its own integers stay. -/
theorem findsAll_upserted_iff {s : Stores F} {a : UpsertArgs} (hid : SmallId a.id)
    (hsmall : ∀ i name w, (s.document i).memberInt64? name = some w → SmallId i) (hf : s.FromFields) (hs : s.FindsAll)
    (v : List F) : (s.upserted a.id a.data v a.indexType).FindsAll ↔ IntegersStay s a := by
  rw [findsAll_iff_bitmap] at hs ⊢
  rw [integersStay_iff]
  have hdoc : (s.upserted a.id a.data v a.indexType).document a.id = a.data := by
    rw [document_upserted, if_pos rfl]
  constructor
  · intro h name w hw hname
    have hmem := h a.id name w (by rwa [hdoc]) hname
    rw [mem_bitmap_upserted_iff, if_pos rfl] at hmem
    rcases hmem with hstays | ⟨hold, hno⟩
    · exact hstays
    · -- the index lists the value already, so it is one that documents bring in
      obtain ⟨e, he⟩ := hf _ _ _ hold
      have hnew := mem_intFields_of_memberInt64? he hw
      exact ⟨hnew, Or.inr fun hstored => hno ⟨hstored, w, hnew⟩⟩
  · intro h i name w hw hname
    by_cases hi : i = a.id
    · subst hi
      rw [hdoc] at hw
      rw [mem_bitmap_upserted_iff, if_pos rfl]
      exact Or.inl (h name w hw hname)
    · rw [document_upserted, if_neg hi] at hw
      have hne : i.toUInt32 ≠ a.id.toUInt32 := by
        intro heq
        apply hi
        rw [← (hsmall i name w hw).toUInt64, heq, hid.toUInt64]
      rw [mem_bitmap_upserted_iff, if_neg hne]
      exact hs i name w hw hname

variable [CFloat F]

/-- Only ids that were upserted have documents. -/
theorem small_of_stored {dim : Nat} {as : List UpsertArgs} {s : Stores F} (h : Run UpsertStep (fresh dim) as s)
    (hid : ∀ a ∈ as, SmallId a.id) {i : UInt64} {name : Bytes} {w : Int64}
    (hw : (s.document i).memberInt64? name = some w) : SmallId i := by
  induction h with
  | nil =>
    rw [document_fresh] at hw
    cases hw
  | snoc _ ha ih =>
    rw [List.forall_mem_append, List.forall_mem_singleton] at hid
    obtain ⟨v, -, rfl⟩ := upsert_eq_ok.mp ha
    rw [document_upserted] at hw
    split at hw
    · rename_i hi
      rw [hi]
      exact hid.2
    · exact ih hid.1 hw

/-- **Every integer is found.** In every run of upserts with ids below `2^32`, the filters always find every integer
member of a stored document exactly when each upsert files its integer members and leaves them filed. -/
theorem findsAll_iff {dim : Nat} {as : List UpsertArgs} {s : Stores F} (h : Run UpsertStep (fresh dim) as s)
    (hid : ∀ a ∈ as, SmallId a.id) :
    (∀ bs (u : Stores F), bs <+: as → Run UpsertStep (fresh dim) bs u → u.FindsAll) ↔
      Run (fun s a t => UpsertStep s a t ∧ IntegersStay s a) (fresh dim) as s := by
  refine h.forall_prefix_iff UpsertStep.unique ?_ ?_
  · intro i name w hw
    rw [document_fresh] at hw
    cases hw
  · intro bs t a u hbs ht hst hstep
    have hrun : Run UpsertStep (fresh dim) bs t := ht.mono fun _ _ _ h => h.1
    have hbs' : ∀ b ∈ bs, SmallId b.id := fun b hb => hid b (hbs.subset (List.mem_append_left _ hb))
    obtain ⟨v, -, rfl⟩ := upsert_eq_ok.mp hstep
    exact findsAll_upserted_iff (hid a (hbs.subset (by simp))) (fun _ _ _ hw => small_of_stored hrun hbs' hw)
      (fromFields_run hrun) hst v

theorem findsAll_iff_withField : (∀ bs (u : Stores Number), bs <+: [withField] → Run UpsertStep (fresh 1) bs u → u.FindsAll) ↔
    Run (fun s a t => UpsertStep s a t ∧ IntegersStay s a) (fresh 1) [withField] storedWithField :=
  findsAll_iff (Run.single upsertStep_withField) (by decide)

/-- Id 1 with `f = 2^32`. -/
def wideField : UpsertArgs := ⟨1, flatDocument 1 0 [(ascii "f", .int 4294967296)], .flat⟩

/-- A value above 32 bits is stored, and not found. -/
theorem wide_integer_not_found : ¬ ∀ (as : List UpsertArgs) (s : Stores Number), Run UpsertStep (fresh 1) as s →
    (∀ a ∈ as, SmallId a.id) → s.FindsAll := by
  intro h
  let s : Stores Number := (fresh 1).upserted wideField.id wideField.data [.int 0] .flat
  have hstep : UpsertStep (fresh 1) wideField s :=
    upsert_eq_ok.mpr ⟨[.int 0], ⟨by decide, by rfl, by decide, by decide⟩, rfl⟩
  have hdoc : (s.document 1).memberInt64? (ascii "f") = some 4294967296 := by decide +kernel
  have hmem := h [wideField] s (Run.single hstep) (by decide) 1 (ascii "f") _ hdoc (by decide) .equal 4294967296 rfl
  exact absurd hmem (by decide +kernel)

end Stores
end VectorDb
