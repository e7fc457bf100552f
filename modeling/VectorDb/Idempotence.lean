import VectorDb.Interference
import VectorDb.VectorEntries

/-!
# The same upsert twice

* `FiledOnce` : what the first upsert leaves filed under a cut name, the second one leaves too;
* `upsert_twice_iff` : a second upsert of the same document completes and changes nothing exactly when the document
  can be read by its own field names, and is filed once.
-/

namespace VectorDb
open Std (ExtTreeMap)

variable {F : Type}

/-- A value that is not the last one filed under its name is found by that name in the new document exactly when it is
found in the stored one. -/
def FiledOnce (s : Stores F) (a : UpsertArgs) : Prop :=
  ∀ f w, (f, w) ∈ intFields a.data → FilterIndex.lastValue (intFields a.data) f ≠ some w →
    (a.data.memberInt64? f = some w ↔ (s.document a.id).memberInt64? f = some w)

namespace Stores

theorem document_upserted_self (s : Stores F) (id : UInt64) (d : Json) (v : List F) (t : IndexType) :
    (s.upserted id d v t).document id = d := by rw [document_upserted, if_pos rfl]

/-- The bitmaps settle at once exactly when the document is filed once. -/
theorem settled_upserted_iff {s : Stores F} (hf : s.FromFields) (a : UpsertArgs) (v : List F) :
    Settled (s.upserted a.id a.data v a.indexType) a ↔ FiledOnce s a := by
  rw [settled_iff _ a v]
  simp only [mem_bitmap_upserted_iff, if_true, Stays, document_upserted_self]
  constructor
  · intro h f w hw hlast
    have hfw := h f w
    simp only [hw, hlast, true_and, false_or] at hfw
    have hu : ∃ u, (f, u) ∈ intFields a.data := ⟨w, hw⟩
    simp only [hu, and_true] at hfw
    tauto
  · intro h f w
    by_cases hw : (f, w) ∈ intFields a.data
    · have hu : ∃ u, (f, u) ∈ intFields a.data := ⟨w, hw⟩
      by_cases hlast : FilterIndex.lastValue (intFields a.data) f = some w
      · simp only [hw, hlast, true_or, and_self]
      · have hfw := h f w hw hlast
        simp only [hw, hlast, hu, true_and, false_or, and_true, hfw]
        tauto
    · -- a value that no field of the document has is not read from it either
      have hno : a.id.toUInt32 ∈ s.indexes.filter.bitmap f w → a.data.memberInt64? f ≠ some w := by
        intro hmem hread
        obtain ⟨e, he⟩ := hf f w _ hmem
        have hcut : cstr f = f := cstr_of_mem_intFields he
        have hnew : (cstr f, w) ∈ intFields a.data := mem_intFields_of_memberInt64? (by rwa [hcut]) hread
        rw [hcut] at hnew
        exact hw hnew
      simp only [hw, false_and, false_or]
      tauto

/-- The scalar store takes the document a second time. -/
theorem scalarStorage_twice (s : Stores F) (a : UpsertArgs) (v : List F) :
    ((s.upserted a.id a.data v a.indexType).upserted a.id a.data v a.indexType).scalarStorage =
      (s.upserted a.id a.data v a.indexType).scalarStorage := by
  have hstored : (s.upserted a.id a.data v a.indexType).scalarStorage.docs[a.id]? = some a.data :=
    ExtTreeMap.getElem?_insert_self
  exact ScalarStorage.insertScalar_of_stored hstored true

/-- The entry that the second upsert removes is the one that it adds. -/
theorem entries_twice {s : Stores F} (hs : s.Rooted) (a : UpsertArgs) (v : List F) (ho : a.data.isObject = true) :
    ((s.upserted a.id a.data v a.indexType).upserted a.id a.data v a.indexType).indexes.flat.entries =
      (s.upserted a.id a.data v a.indexType).indexes.flat.entries := by
  have hd : (s.upserted a.id a.data v a.indexType).indexes.flat.d = s.indexes.flat.d :=
    dim_upserted s a.id a.data v a.indexType .flat
  rw [entries_upserted (s.upserted _ _ _ _), hd, document_upserted_self]
  by_cases ht : a.indexType = .flat
  · simp only [entries_upserted, ht, if_true, ho, true_and, List.filter_append, List.filter_filter]
    congr 1
    rw [List.filter_cons_of_neg (by simp), List.filter_nil, List.append_nil]
    apply List.filter_congr
    intro e he
    rcases hs.isObject_or a.id .flat with hold | hnone
    · simp [hold]
    · -- without a stored document there is no entry of the id
      have hne : e.1 ≠ a.id.toInt64 := by
        intro heq
        have hmem : e.2 ∈ s.indexes.flat.vectorsOf a.id := List.mem_map_of_mem (List.mem_filter.mpr ⟨he, by simpa using heq⟩)
        rw [show s.indexes.flat.vectorsOf a.id = [] from hnone] at hmem
        cases hmem
      simp [hne]
  · simp only [ht, if_false]

theorem points_twice (s : Stores F) (a : UpsertArgs) (v : List F) :
    ((s.upserted a.id a.data v a.indexType).upserted a.id a.data v a.indexType).indexes.hnsw.points =
      (s.upserted a.id a.data v a.indexType).indexes.hnsw.points := by
  have hd : (s.upserted a.id a.data v a.indexType).indexes.hnsw.d = s.indexes.hnsw.d :=
    dim_upserted s a.id a.data v a.indexType .hnsw
  apply ExtTreeMap.ext_getElem?
  intro i
  rw [points_upserted (s.upserted _ _ _ _), hd]
  split
  · rename_i hi
    rw [points_upserted, if_pos hi]
  · rfl

variable [CFloat F]

theorem rooted_run {dim : Nat} {as : List UpsertArgs} {s : Stores F} (h : Run UpsertStep (fresh dim) as s) : s.Rooted := by
  refine h.invariant (rooted_fresh dim) fun t a u ht hu => ?_
  obtain ⟨v, hl, rfl⟩ := upsert_eq_ok.mp hu
  exact rooted_upserted ht a.id hl.vector _

/-- The second upsert completes exactly when the document can be read by its own field names. -/
theorem upsert_again_iff {s u : Stores F} {a : UpsertArgs} {v : List F} (hl : s.Legal a.id a.data v a.indexType) :
    UpsertStep (s.upserted a.id a.data v a.indexType) a u ↔ Readable a.data a.data ∧
      u = (s.upserted a.id a.data v a.indexType).upserted a.id a.data v a.indexType := by
  have hread : (readVector F a.data).isSome = true := by rw [hl.vector, Option.isSome_some]
  rw [UpsertStep, upsert_eq_ok]
  constructor
  · rintro ⟨w, hw, rfl⟩
    obtain rfl : v = w := Option.some.inj (hl.vector.symm.trans hw.vector)
    have hfields := hw.fields
    rw [document_upserted_self] at hfields
    exact ⟨hfields, rfl⟩
  · rintro ⟨hfields, rfl⟩
    refine ⟨v, ⟨fun _ => ?_, hl.vector, ?_, ?_⟩, rfl⟩
    · rwa [document_upserted_self]
    · rw [dim_upserted]
      exact hl.length
    · rwa [document_upserted_self]

/-- **The same upsert twice.** In every state reached by upserts, a second upsert right after a completed one completes
and changes nothing exactly when the document holds an integer under each name that its integer fields are filed under,
and is filed once. -/
theorem upsert_twice_iff {dim : Nat} {as : List UpsertArgs} {s t : Stores F} {a : UpsertArgs}
    (hrun : Run UpsertStep (fresh dim) as s) (h : UpsertStep s a t) :
    (∃ u, UpsertStep t a u ∧ SameStores t u) ↔ Readable a.data a.data ∧ FiledOnce s a := by
  obtain ⟨v, hl, rfl⟩ := upsert_eq_ok.mp h
  have hsettled := settled_upserted_iff (fromFields_run hrun) a v
  constructor
  · rintro ⟨u, hu, hsame⟩
    obtain ⟨hread, rfl⟩ := (upsert_again_iff hl).mp hu
    refine ⟨hread, hsettled.mp ((settled_iff _ a v).mpr fun f w => ?_)⟩
    rw [hsame.filter f w]
  · rintro ⟨hread, honce⟩
    refine ⟨_, (upsert_again_iff hl).mpr ⟨hread, rfl⟩, ?_⟩
    constructor
    case scalarStorage => exact scalarStorage_twice s a v
    case flat => rw [entries_twice (rooted_run hrun) a v (isObject_of_readVector hl.vector)]
    case hnsw => exact points_twice s a v
    case filter =>
      intro f w
      ext x
      by_cases hx : x = a.id.toUInt32
      · rw [hx]
        exact (settled_iff _ a v).mp (hsettled.mpr honce) f w
      · rw [mem_bitmap_upserted_iff _ a v, if_neg hx]

theorem upsert_twice_iff_withField : (∃ u, UpsertStep storedWithField withField u ∧ SameStores storedWithField u) ↔
    Readable withField.data withField.data ∧ FiledOnce (fresh 1 : Stores Number) withField :=
  upsert_twice_iff (Run.nil : Run UpsertStep (fresh 1) [] _) upsertStep_withField

/-- Id 1 with a field whose name holds a NUL. -/
def cutField : UpsertArgs := ⟨1, flatDocument 1 0 [(ascii "f" ++ 0 :: ascii "a", .int 1)], .flat⟩

/-- The second upsert looks the field up under its cut name, and aborts. -/
theorem cut_field_upserted_twice : ¬ ∀ (as : List UpsertArgs) (s t : Stores Number) (a : UpsertArgs),
    Run UpsertStep (fresh 1) as s → (a.data.members.map Prod.fst).Nodup → UpsertStep s a t →
    ∃ u, UpsertStep t a u ∧ SameStores t u := by
  intro h
  let t : Stores Number := (fresh 1).upserted cutField.id cutField.data [.int 0] .flat
  have hlegal : (fresh 1 : Stores Number).Legal cutField.id cutField.data [.int 0] .flat :=
    ⟨by decide, by rfl, by decide, by decide⟩
  have hstep : UpsertStep (fresh 1) cutField t := upsert_eq_ok.mpr ⟨[.int 0], hlegal, rfl⟩
  obtain ⟨u, hu, -⟩ := h [] _ t cutField Run.nil (by decide) hstep
  obtain ⟨hread, -⟩ := (upsert_again_iff hlegal).mp hu
  exact absurd hread (by decide)

end Stores
end VectorDb
