import VectorDb.Search
import VectorDb.StaleFilter

/-!
# Upserts of different ids

* `PassesFilter` : an id passes a filter in the index that holds it;
* `Settled` : an upsert has nothing to change for the low 32 bits of its id;
* `passesFilter_upsert_iff` : an upsert leaves another id's answers alone exactly when the ids differ in their low
  32 bits or the upsert is settled;
* `upserts_commute` : two upserts with different ids below `2^32` can be exchanged.
-/

namespace VectorDb
open Std (ExtTreeMap)

variable {F : Type}

/-- The id passes the filter in the FLAT index and in the HNSW index. -/
def PassesFilter (s : Stores F) (id : UInt64) (fieldName : Bytes) (op : Operation) (value : Int64) : Prop :=
  let bitmap := s.indexes.filter.getIntFieldFilterBitmap fieldName op value ∅
  RoaringBitmapIDSelector.isMember bitmap id.toInt64 = true ∧ RoaringBitmapIDFilter.call bitmap id = true

theorem passesFilter_iff {s : Stores F} {id : UInt64} {f : Bytes} {op : Operation} {v : Int64} :
    PassesFilter s id f op v ↔ ∃ w, op.test v w ∧ id.toUInt32 ∈ s.indexes.filter.bitmap f w := by
  rw [PassesFilter, isMember_toInt64, and_self, RoaringBitmapIDFilter.call, decide_eq_true_eq,
    FilterIndex.mem_getIntFieldFilterBitmap]

/-- The answers about an id are those of its low 32 bits. -/
theorem passesFilter_congr_iff {s t : Stores F} {id : UInt64} :
    (∀ f op v, PassesFilter t id f op v ↔ PassesFilter s id f op v) ↔
      ∀ f w, id.toUInt32 ∈ t.indexes.filter.bitmap f w ↔ id.toUInt32 ∈ s.indexes.filter.bitmap f w := by
  simp only [passesFilter_iff]
  constructor
  · intro h f w
    have := h f .equal w
    simpa [Operation.test] using this
  · intro h f op v
    exact exists_congr fun w => and_congr_right fun _ => h f w

/-- The value stays in a field after the upsert: it is the last one of its name, or not the stored one. -/
def Stays (s : Stores F) (a : UpsertArgs) (f : Bytes) (w : Int64) : Prop :=
  (f, w) ∈ intFields a.data ∧
    (FilterIndex.lastValue (intFields a.data) f = some w ∨ (s.document a.id).memberInt64? f ≠ some w)

/-- The index lists the low 32 bits of the id under every value that stays, and not under a stored value that the
upsert replaces. -/
structure Settled (s : Stores F) (a : UpsertArgs) : Prop where
  listed : ∀ f w, Stays s a f w → a.id.toUInt32 ∈ s.indexes.filter.bitmap f w
  notListed : ∀ f w, (∃ u, (f, u) ∈ intFields a.data) → (s.document a.id).memberInt64? f = some w → ¬ Stays s a f w →
    a.id.toUInt32 ∉ s.indexes.filter.bitmap f w

namespace Stores

/-- One membership after an upsert. -/
theorem mem_bitmap_upserted_iff (s : Stores F) (a : UpsertArgs) (v : List F) (f : Bytes) (w : Int64) (x : UInt32) :
    x ∈ (s.upserted a.id a.data v a.indexType).indexes.filter.bitmap f w ↔
      if x = a.id.toUInt32 then
        Stays s a f w ∨ (x ∈ s.indexes.filter.bitmap f w ∧
          ¬ ((s.document a.id).memberInt64? f = some w ∧ ∃ u, (f, u) ∈ intFields a.data))
      else x ∈ s.indexes.filter.bitmap f w := by
  rw [mem_bitmap_upserted]
  by_cases hx : x = a.id.toUInt32
  · simp only [hx, true_and, if_true, Stays]
  · simp only [hx, false_and, false_or, not_false_eq_true, and_true, if_false]

theorem settled_iff (s : Stores F) (a : UpsertArgs) (v : List F) : Settled s a ↔
    ∀ f w, a.id.toUInt32 ∈ (s.upserted a.id a.data v a.indexType).indexes.filter.bitmap f w ↔
      a.id.toUInt32 ∈ s.indexes.filter.bitmap f w := by
  simp only [mem_bitmap_upserted_iff, if_true]
  constructor
  · intro h f w
    constructor
    · rintro (hs | hm)
      · exact h.listed f w hs
      · exact hm.1
    · intro hm
      by_cases hs : Stays s a f w
      · exact Or.inl hs
      · refine Or.inr ⟨hm, fun hold => ?_⟩
        exact h.notListed f w hold.2 hold.1 hs hm
  · intro h
    constructor
    · intro f w hs
      exact (h f w).mp (Or.inl hs)
    · intro f w hu hold hs hm
      rcases (h f w).mpr hm with hs' | hm'
      · exact hs hs'
      · exact hm'.2 ⟨hold, hu⟩

variable [CFloat F]

/-- **Different ids.** A completed upsert leaves every answer about an id as it was exactly when the low 32 bits of
that id are not those of the upserted one, or the upsert has nothing to change for them. -/
theorem passesFilter_upsert_iff {s t : Stores F} {a : UpsertArgs} (h : UpsertStep s a t) (b : UInt64) :
    (∀ f op v, PassesFilter t b f op v ↔ PassesFilter s b f op v) ↔ b.toUInt32 ≠ a.id.toUInt32 ∨ Settled s a := by
  obtain ⟨v, -, rfl⟩ := upsert_eq_ok.mp h
  rw [passesFilter_congr_iff]
  by_cases hx : b.toUInt32 = a.id.toUInt32
  · rw [settled_iff s a v, hx]
    simp
  · refine iff_of_true (fun f w => ?_) (Or.inl hx)
    rw [mem_bitmap_upserted_iff, if_neg hx]

theorem passesFilter_upsert_iff_withField :
    (∀ f op v, PassesFilter storedWithField 2 f op v ↔ PassesFilter (fresh 1 : Stores Number) 2 f op v) ↔
      UInt64.toUInt32 2 ≠ withField.id.toUInt32 ∨ Settled (fresh 1 : Stores Number) withField :=
  passesFilter_upsert_iff upsertStep_withField 2

/-- An id whose low 32 bits are those of id 1. -/
def aboveWord : UpsertArgs := ⟨4294967297, flatDocument 4294967297 0 [(ascii "f", .int 5)], .flat⟩

theorem other_id_passes : ¬ ∀ (as : List UpsertArgs) (s t : Stores Number) (a : UpsertArgs) (b : UInt64),
    Run UpsertStep (fresh 1) as s → UpsertStep s a t → b ≠ a.id →
    ∀ f op v, PassesFilter t b f op v ↔ PassesFilter s b f op v := by
  intro h
  let t : Stores Number := (fresh 1).upserted aboveWord.id aboveWord.data [.int 0] .flat
  have hstep : UpsertStep (fresh 1) aboveWord t :=
    upsert_eq_ok.mpr ⟨[.int 0], ⟨by decide, by rfl, by decide, by decide⟩, rfl⟩
  have hpass : PassesFilter t 1 (ascii "f") .equal 5 := by
    rw [passesFilter_iff]
    exact ⟨5, rfl, by decide +kernel⟩
  obtain ⟨w, -, hw⟩ := passesFilter_iff.mp ((h [] _ t aboveWord 1 Run.nil hstep (by decide) _ _ _).mp hpass)
  simp [fresh, IndexFactory.init] at hw

end Stores

/-! ## The order of two upserts -/

namespace Stores

variable {s : Stores F} {a b : UpsertArgs} {va vb : List F}

/-- One order of two upserts, and the other. -/
def inOrder (s : Stores F) (a b : UpsertArgs) (va vb : List F) : Stores F :=
  (s.upserted a.id a.data va a.indexType).upserted b.id b.data vb b.indexType

theorem docs_comm (hab : a.id ≠ b.id) :
    (s.inOrder a b va vb).scalarStorage = (s.inOrder b a vb va).scalarStorage := by
  have hdocs : (s.inOrder a b va vb).scalarStorage.docs = (s.inOrder b a vb va).scalarStorage.docs := by
    show (s.scalarStorage.docs.insert a.id a.data).insert b.id b.data =
      (s.scalarStorage.docs.insert b.id b.data).insert a.id a.data
    apply ExtTreeMap.ext_getElem?
    intro i
    simp only [ExtTreeMap.getElem?_insert, Std.compare_eq_iff_eq]
    split
    · rename_i hb
      rw [if_neg fun ha => hab (ha.trans hb.symm)]
    · rfl
  exact congrArg (ScalarStorage.mk · s.scalarStorage.blobs) hdocs

theorem entries_comm (hab : a.id ≠ b.id) :
    ((s.inOrder a b va vb).indexes.flat.entries : Multiset (Int64 × List F)) =
      (s.inOrder b a vb va).indexes.flat.entries := by
  have hne : a.id.toInt64 ≠ b.id.toInt64 := fun h => hab (FaissIndex.toInt64_inj.mp h)
  have hd : ∀ (c : UpsertArgs) (v : List F), (s.upserted c.id c.data v c.indexType).indexes.flat.d = s.indexes.flat.d :=
    fun c v => dim_upserted s c.id c.data v c.indexType .flat
  have hdoca : (s.upserted b.id b.data vb b.indexType).document a.id = s.document a.id := by
    rw [document_upserted, if_neg hab]
  have hdocb : (s.upserted a.id a.data va a.indexType).document b.id = s.document b.id := by
    rw [document_upserted, if_neg hab.symm]
  apply Multiset.coe_eq_coe.mpr
  unfold inOrder
  simp only [entries_upserted, hd, hdoca, hdocb]
  by_cases ha : a.indexType = .flat
  · by_cases hb : b.indexType = .flat
    · simp only [ha, hb, if_true, List.filter_append]
      have hka : ([(a.id.toInt64, va.take s.indexes.flat.d)].filter fun e =>
          ¬ ((s.document b.id).isObject = true ∧ e.1 = b.id.toInt64)) = [(a.id.toInt64, va.take s.indexes.flat.d)] := by
        simp [hne]
      have hkb : ([(b.id.toInt64, vb.take s.indexes.flat.d)].filter fun e =>
          ¬ ((s.document a.id).isObject = true ∧ e.1 = a.id.toInt64)) = [(b.id.toInt64, vb.take s.indexes.flat.d)] := by
        simp [hne.symm]
      rw [hka, hkb, List.filter_filter, List.filter_filter, List.append_assoc, List.append_assoc]
      apply List.Perm.append
      · apply List.Perm.of_eq
        apply List.filter_congr
        intro e _
        exact Bool.and_comm _ _
      · exact List.Perm.swap _ _ []
    · simp only [ha, hb, if_true, if_false]
      exact List.Perm.refl _
  · simp only [ha, if_false]
    exact List.Perm.refl _

theorem points_comm (hab : a.id ≠ b.id) :
    (s.inOrder a b va vb).indexes.hnsw.points = (s.inOrder b a vb va).indexes.hnsw.points := by
  have hd : ∀ (c : UpsertArgs) (v : List F), (s.upserted c.id c.data v c.indexType).indexes.hnsw.d = s.indexes.hnsw.d :=
    fun c v => dim_upserted s c.id c.data v c.indexType .hnsw
  apply ExtTreeMap.ext_getElem?
  intro i
  unfold inOrder
  rw [points_upserted, points_upserted, points_upserted, points_upserted, hd, hd]
  by_cases hb : i = b.id
  · have ha : i ≠ a.id := fun h => hab (h.symm.trans hb)
    simp only [ha, false_and, if_false]
  · simp only [hb, false_and, if_false]

theorem bitmap_comm (ha : SmallId a.id) (hb : SmallId b.id) (hab : a.id ≠ b.id) (f : Bytes) (w : Int64) :
    (s.inOrder a b va vb).indexes.filter.bitmap f w = (s.inOrder b a vb va).indexes.filter.bitmap f w := by
  have hne : a.id.toUInt32 ≠ b.id.toUInt32 := by
    intro h
    apply hab
    rw [← ha.toUInt64, ← hb.toUInt64, h]
  have hstays : ∀ (c d : UpsertArgs) (v : List F), c.id ≠ d.id →
      (s.upserted d.id d.data v d.indexType).document c.id = s.document c.id := by
    intro c d v hcd
    rw [document_upserted, if_neg hcd]
  ext x
  unfold inOrder
  simp only [mem_bitmap_upserted_iff, Stays, hstays _ _ _ hab, hstays _ _ _ hab.symm]
  by_cases hx : x = b.id.toUInt32
  · have hxa : ¬ x = a.id.toUInt32 := fun h => hne (h.symm.trans hx)
    simp only [hxa, if_false]
  · simp only [hx, if_false]

variable [CFloat F]

/-- **Two upserts with different ids** below `2^32`, in either order, leave the same documents, the same FLAT entries
up to their order, the same HNSW points and the same bitmaps. -/
theorem upserts_commute {t u : Stores F} (ha : SmallId a.id) (hb : SmallId b.id) (hab : a.id ≠ b.id)
    (ht : Run UpsertStep s [a, b] t) (hu : Run UpsertStep s [b, a] u) :
    t.scalarStorage = u.scalarStorage ∧
      (t.indexes.flat.entries : Multiset (Int64 × List F)) = u.indexes.flat.entries ∧
      t.indexes.hnsw.points = u.indexes.hnsw.points ∧
      ∀ f v, t.indexes.filter.bitmap f v = u.indexes.filter.bitmap f v := by
  have split : ∀ {c d : UpsertArgs} {t : Stores F}, Run UpsertStep s [c, d] t → ∃ vc vd,
      readVector F c.data = some vc ∧ readVector F d.data = some vd ∧ t = s.inOrder c d vc vd := by
    intro c d t h
    obtain ⟨m, hm, hd⟩ := Run.snoc_iff.mp (show Run UpsertStep s ([c] ++ [d]) t from h)
    obtain ⟨r, hr, hc⟩ := Run.snoc_iff.mp (show Run UpsertStep s ([] ++ [c]) m from hm)
    obtain rfl := Run.eq_of_nil hr
    obtain ⟨vc, hlc, rfl⟩ := upsert_eq_ok.mp hc
    obtain ⟨vd, hld, rfl⟩ := upsert_eq_ok.mp hd
    exact ⟨vc, vd, hlc.vector, hld.vector, rfl⟩
  obtain ⟨va, vb, hva, hvb, rfl⟩ := split ht
  obtain ⟨vb', va', hvb', hva', rfl⟩ := split hu
  obtain rfl : va = va' := Option.some.inj (hva.symm.trans hva')
  obtain rfl : vb = vb' := Option.some.inj (hvb.symm.trans hvb')
  exact ⟨docs_comm hab, entries_comm hab, points_comm hab, bitmap_comm ha hb hab⟩

theorem run_inOrder (ha : s.Legal a.id a.data va a.indexType)
    (hb : (s.upserted a.id a.data va a.indexType).Legal b.id b.data vb b.indexType) :
    Run UpsertStep s [a, b] (s.inOrder a b va vb) :=
  (Run.single (upsert_eq_ok.mpr ⟨va, ha, rfl⟩)).snoc (upsert_eq_ok.mpr ⟨vb, hb, rfl⟩)

/-- Id 2 with `f = 1`. -/
def secondId : UpsertArgs := ⟨2, flatDocument 2 0 [(ascii "f", .int 1)], .flat⟩

def firstThenSecond : Stores Number := (fresh 1).inOrder withField secondId [.int 0] [.int 0]

def secondThenFirst : Stores Number := (fresh 1).inOrder secondId withField [.int 0] [.int 0]

/-- Ids 1 and 2 share a bitmap. -/
theorem upserts_commute_sharedField : firstThenSecond.scalarStorage = secondThenFirst.scalarStorage ∧
    (firstThenSecond.indexes.flat.entries : Multiset (Int64 × List Number)) = secondThenFirst.indexes.flat.entries ∧
    firstThenSecond.indexes.hnsw.points = secondThenFirst.indexes.hnsw.points ∧
    ∀ f v, firstThenSecond.indexes.filter.bitmap f v = secondThenFirst.indexes.filter.bitmap f v := by
  apply upserts_commute (s := fresh 1) (a := withField) (b := secondId)
  · decide
  · decide
  · decide
  · exact run_inOrder ⟨by decide, by rfl, by decide, by decide⟩ ⟨by decide +kernel, by rfl, by decide, by decide +kernel⟩
  · exact run_inOrder ⟨by decide, by rfl, by decide, by decide⟩ ⟨by decide +kernel, by rfl, by decide, by decide +kernel⟩

end Stores

end VectorDb
