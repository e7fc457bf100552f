import VectorDb.Indexes

/-!
# `VectorDatabase::upsert`

* `Stores` : what an upsert reads and writes, the scalar store and the global indexes;
* `Stores.upsert` : the steps of the source in their order, with the state a failure leaves;
* `intFields` : the fields of a document that reach the `FilterIndex`;
* `upsert_eq_ok_of_status`, `upsert_eq_ok` : an upsert completes exactly when its accessors and its vector are legal,
  and then leaves `upsertedFrom`; without library failures that is `upserted`;
* `SameStores` : stores that answer alike.
-/

namespace VectorDb
open Std (ExtTreeMap)

variable {F : Type}

/-- The floats of `d["vectors"]`; `none` is a failed assertion. -/
def readVector (F : Type) [CFloat F] (d : Json) : Option (List F) :=
  (d.member? requestVectors).bind fun v => v.elems?.bind fun xs => xs.mapM Json.float?

/-- The document of an `/upsert` request that names FLAT, with a vector of one integer. -/
def flatDocument (id : Nat) (x : Int) (ms : List (Bytes × Json)) : Json :=
  .obj ((requestId, .int id) :: (requestVectors, .arr [.int x]) :: (requestIndexType, .str indexTypeFlat) :: ms)

/-- The `char*` comparisons see an index type up to its first NUL. -/
def getIndexTypeFromRequest (jsonRequest : Json) : IndexType :=
  match (jsonRequest.member? requestIndexType).bind Json.string? with
  | some s =>
    if cstr s = indexTypeFlat then .flat
    else if cstr s = indexTypeHnsw then .hnsw
    else .unknown
  | none => .unknown

/-- The scalar store and the indexes. -/
structure Stores (F : Type) where
  scalarStorage : ScalarStorage
  indexes : IndexFactory F

/-- Empty stores with indexes of dimension `dim`. -/
def Stores.fresh (dim : Nat) : Stores F := ⟨ScalarStorage.empty, IndexFactory.init dim⟩

/-- The stored document of an id, null where there is none. -/
def Stores.document (s : Stores F) (id : UInt64) : Json := s.scalarStorage.getScalar true id

namespace Stores
variable [CFloat F]

/-- An existing vector is read, and its entry removed from the index that the new document names. -/
def removeExisting (existingData : Json) (id : UInt64) (indexType : IndexType) (ixs : IndexFactory F) :
    Except Fault (IndexFactory F) :=
  if existingData.isObject then
    match readVector F existingData with
    | none => .error .assertion
    | some _ =>
      match indexType with
      | .flat => .ok { ixs with flat := ixs.flat.removeVectors [id.toInt64] }
      | _ => .ok ixs
  else .ok ixs

def insertNew (st : LibStatus) (data : Json) (id : UInt64) (indexType : IndexType) (ixs : IndexFactory F) :
    Except Fault (IndexFactory F) :=
  match readVector F data with
  | none => .error .assertion
  | some newVector =>
    match indexType with
    | .flat => (ixs.flat.insertVectors newVector id).map fun flat => { ixs with flat }
    | .hnsw => (ixs.hnsw.insertVectors st.addPoint newVector id).map fun hnsw => { ixs with hnsw }
    | _ => .ok ixs

/-- The loop over the members. The old value is looked up by the name that `GetString` returned. -/
def updateFilter (existingData : Json) (id : UInt64) :
    List (Bytes × Json) → FilterIndex → Except (Fault × FilterIndex) FilterIndex
  | [], fi => .ok fi
  | (name, value) :: ms, fi =>
    let fieldName := cstr name
    if value.isInt ∧ fieldName ≠ ascii "id" then
      match value.int64? with
      | none => .error (.assertion, fi)
      | some fieldValue =>
        if existingData.isObject then
          match existingData.memberInt64? fieldName with
          | none => .error (.assertion, fi)
          | some old => updateFilter existingData id ms (fi.updateIntFieldFilter fieldName (some old) fieldValue id)
        else updateFilter existingData id ms (fi.updateIntFieldFilter fieldName none fieldValue id)
    else updateFilter existingData id ms fi

def upsert (st : LibStatus) (s : Stores F) (id : UInt64) (data : Json) (indexType : IndexType) :
    Except (Fault × Stores F) (Stores F) :=
  let existingData := s.scalarStorage.getScalar st.get id
  match removeExisting existingData id indexType s.indexes with
  | .error e => .error (e, s)
  | .ok ixs =>
    match insertNew st data id indexType ixs with
    | .error e => .error (e, { s with indexes := ixs })
    | .ok ixs =>
      match updateFilter existingData id data.members ixs.filter with
      | .error (e, filter) => .error (e, { s with indexes := { ixs with filter } })
      | .ok filter =>
        .ok ⟨s.scalarStorage.insertScalar st.put id data, { ixs with filter }⟩

end Stores

/-! ## The integer fields of a document -/

/-- The name and value under which one member reaches the `FilterIndex`. -/
def intField (m : Bytes × Json) : Option (Bytes × Int64) :=
  if m.2.isInt ∧ cstr m.1 ≠ ascii "id" then m.2.int64?.map fun v => (cstr m.1, v) else none

/-- The fields that reach the `FilterIndex`, in the order of the members. -/
def intFields (d : Json) : List (Bytes × Int64) := d.members.filterMap intField

theorem mem_intFields {d : Json} {f : Bytes} {v : Int64} : (f, v) ∈ intFields d ↔
    ∃ m ∈ d.members, m.2.isInt ∧ cstr m.1 = f ∧ f ≠ ascii "id" ∧ m.2.int64? = some v := by
  simp only [intFields, List.mem_filterMap, intField]
  refine exists_congr fun m => and_congr_right fun _ => ?_
  by_cases h : m.2.isInt = true ∧ cstr m.1 ≠ ascii "id"
  · rw [if_pos h]
    cases hv : m.2.int64? with
    | none => simp
    | some u =>
      simp only [Option.map_some, Option.some.injEq, Prod.mk.injEq]
      exact ⟨fun he => ⟨h.1, he.1, he.1 ▸ h.2, he.2⟩, fun he => ⟨he.2.1, he.2.2.2⟩⟩
  · rw [if_neg h]
    constructor
    · intro he
      cases he
    · intro he
      exact absurd ⟨he.1, he.2.1 ▸ he.2.2.1⟩ h

theorem zero_notMem_of_mem_intFields {d : Json} {p : Bytes × Int64} (h : p ∈ intFields d) : 0 ∉ p.1 := by
  obtain ⟨f, v⟩ := p
  obtain ⟨m, -, -, rfl, -⟩ := mem_intFields.mp h
  exact zero_notMem_cstr _

/-- The integer fields of `d` that `existingData`, where it is a document, holds as integers. -/
def Readable (existingData d : Json) : Prop :=
  existingData.isObject = true → ∀ f v, (f, v) ∈ intFields d → ∃ w, existingData.memberInt64? f = some w

instance (existingData d : Json) : Decidable (Readable existingData d) :=
  decidable_of_iff (existingData.isObject = true → ∀ p ∈ intFields d, (existingData.memberInt64? p.1).isSome = true) <| by
    simp only [Readable, Option.isSome_iff_exists, Prod.forall]

/-- The fields and values whose bitmaps the updates for `d` come to: for each integer field its new value, and the old one
that is looked up. -/
def followed (existingData d : Json) : List (Bytes × Int64) :=
  (intFields d).flatMap fun p => p :: (existingData.memberInt64? p.1).toList.map fun old => (p.1, old)

namespace Stores

/-- **The loop over the members** completes exactly when each old value can be read. -/
theorem updateFilter_eq_ok (existingData : Json) (id : UInt64) (ms : List (Bytes × Json)) (fi fi' : FilterIndex) :
    updateFilter existingData id ms fi = .ok fi' ↔
      Readable existingData (.obj ms) ∧ fi' = fi.updateAll existingData.memberInt64? id (intFields (.obj ms)) := by
  induction ms generalizing fi with
  | nil =>
    have hnil : intFields (.obj []) = [] := rfl
    simp only [updateFilter, Readable, hnil, FilterIndex.updateAll, List.foldl_nil, List.not_mem_nil, false_imp_iff,
      implies_true, true_and, Except.ok.injEq, eq_comm (a := fi)]
  | cons m ms ih =>
    obtain ⟨name, value⟩ := m
    have hcons : intFields (.obj ((name, value) :: ms)) =
        (intField (name, value)).toList ++ intFields (.obj ms) := by
      cases h : intField (name, value) <;> simp [intFields, h]
    by_cases hc : value.isInt = true ∧ cstr name ≠ ascii "id"
    · obtain ⟨v, hv⟩ := Json.int64?_isSome_of_isInt hc.1
      have hf : intField (name, value) = some (cstr name, v) := by simp [intField, hc, hv]
      rw [hf, Option.toList_some, List.singleton_append] at hcons
      have hread : Readable existingData (.obj ((name, value) :: ms)) ↔
          (existingData.isObject = true → ∃ w, existingData.memberInt64? (cstr name) = some w) ∧
            Readable existingData (.obj ms) := by
        simp only [Readable, hcons, List.mem_cons, Prod.mk.injEq]
        constructor
        · exact fun h => ⟨fun ho => h ho _ _ (Or.inl ⟨rfl, rfl⟩), fun ho f w hm => h ho f w (Or.inr hm)⟩
        · rintro ⟨h1, h2⟩ ho f w (⟨rfl, -⟩ | hm)
          · exact h1 ho
          · exact h2 ho f w hm
      simp only [updateFilter, if_pos hc, hv, hread, hcons, FilterIndex.updateAll, List.foldl_cons]
      by_cases ho : existingData.isObject = true
      · cases hold : existingData.memberInt64? (cstr name) with
        | none => simp [ho]
        | some old =>
          simp only [ho, if_true, ih, FilterIndex.updateAll, Option.some.injEq, exists_eq', imp_self, true_and]
      · simp only [ho, if_false, ih, Json.memberInt64?_of_not_isObject ho, FilterIndex.updateAll, false_imp_iff, true_and,
          Bool.false_eq_true]
    · have hf : intField (name, value) = none := by
        simp only [intField, if_neg hc]
      rw [hf, Option.toList_none, List.nil_append] at hcons
      have hread : Readable existingData (.obj ((name, value) :: ms)) ↔ Readable existingData (.obj ms) := by
        simp only [Readable, hcons]
      simp only [updateFilter, if_neg hc, ih, hread, hcons]

end Stores

/-! ## A completed upsert -/

theorem isObject_of_readVector [CFloat F] {d : Json} {v : List F} (h : readVector F d = some v) : d.isObject = true := by
  obtain ⟨x, hx, -⟩ := Option.bind_eq_some_iff.mp h
  exact Json.isObject_of_member? hx

namespace Stores

/-- The stores after an upsert of the vector `v`. -/
def upserted (s : Stores F) (id : UInt64) (data : Json) (v : List F) (t : IndexType) : Stores F where
  scalarStorage := s.scalarStorage.insertScalar true id data
  indexes :=
    { (s.indexes.removed (s.document id) id t).inserted id v t with
      filter := s.indexes.filter.updateAll (s.document id).memberInt64? id (intFields data) }

/-- The stores after an upsert of the vector `v` that read `existingData`; `upserted` is the case without failures. -/
def upsertedFrom (st : LibStatus) (s : Stores F) (existingData : Json) (id : UInt64) (data : Json) (v : List F)
    (t : IndexType) : Stores F where
  scalarStorage := s.scalarStorage.insertScalar st.put id data
  indexes :=
    { (s.indexes.removed existingData id t).inserted id v t with
      filter := s.indexes.filter.updateAll existingData.memberInt64? id (intFields data) }

variable [CFloat F]

/-- What an upsert needs to complete. -/
structure Legal (s : Stores F) (id : UInt64) (data : Json) (v : List F) (t : IndexType) : Prop where
  existing : (s.document id).isObject = true → (readVector F (s.document id)).isSome = true
  vector : readVector F data = some v
  length : s.indexes.dim t ≤ v.length
  fields : Readable (s.document id) data

theorem removeExisting_eq_ok {existing : Json} {id : UInt64} {t : IndexType} {ixs ixs' : IndexFactory F} :
    removeExisting existing id t ixs = .ok ixs' ↔
      (existing.isObject = true → (readVector F existing).isSome = true) ∧ ixs' = ixs.removed existing id t := by
  unfold removeExisting IndexFactory.removed
  by_cases ho : existing.isObject = true
  · cases hv : readVector F existing with
    | none => simp [ho]
    | some u => cases t <;> simp [ho, eq_comm (a := ixs')]
  · simp [ho, eq_comm (a := ixs')]

theorem insertNew_eq_ok {st : LibStatus} {data : Json} {id : UInt64} {t : IndexType} {ixs ixs' : IndexFactory F} :
    insertNew st data id t ixs = .ok ixs' ↔ ∃ v, readVector F data = some v ∧ ixs.dim t ≤ v.length ∧
      (t = .hnsw → id ∈ ixs.hnsw.points ∨ st.addPoint = true) ∧ ixs' = ixs.inserted id v t := by
  unfold insertNew
  cases readVector F data with
  | none => simp
  | some v =>
    simp only [Option.some.injEq, exists_eq_left']
    cases t with
    | flat =>
      simp only [map_eq_ok, FaissIndex.insertVectors_eq_ok, reduceCtorEq, false_imp_iff, true_and]
      exact ⟨fun ⟨_, ⟨hd, rfl⟩, h⟩ => ⟨hd, h.symm⟩, fun ⟨hd, h⟩ => ⟨_, ⟨hd, rfl⟩, h.symm⟩⟩
    | hnsw =>
      simp only [map_eq_ok, HNSWLibIndex.insertVectors_eq_ok, true_imp_iff]
      exact ⟨fun ⟨_, ⟨hd, hr, rfl⟩, h⟩ => ⟨hd, hr, h.symm⟩, fun ⟨hd, hr, h⟩ => ⟨_, ⟨hd, hr, rfl⟩, h.symm⟩⟩
    | filter => simp [IndexFactory.dim, IndexFactory.inserted, eq_comm (a := ixs')]
    | unknown => simp [IndexFactory.dim, IndexFactory.inserted, eq_comm (a := ixs')]

/-- What an upsert that reads `existingData` needs to complete. -/
structure Accepts (st : LibStatus) (s : Stores F) (existingData : Json) (id : UInt64) (data : Json) (v : List F)
    (t : IndexType) : Prop where
  existing : existingData.isObject = true → (readVector F existingData).isSome = true
  vector : readVector F data = some v
  length : s.indexes.dim t ≤ v.length
  room : t = .hnsw → id ∈ s.indexes.hnsw.points ∨ st.addPoint = true
  fields : Readable existingData data

/-- **Any outcome of the library calls**: an upsert completes exactly when its accessors, its vector and the index are
legal, and then leaves `upsertedFrom`. -/
theorem upsert_eq_ok_of_status {st : LibStatus} {s s' : Stores F} {id : UInt64} {data : Json} {t : IndexType} :
    s.upsert st id data t = .ok s' ↔ ∃ v, Accepts st s (s.scalarStorage.getScalar st.get id) id data v t ∧
      s' = s.upsertedFrom st (s.scalarStorage.getScalar st.get id) id data v t := by
  unfold upsert
  generalize s.scalarStorage.getScalar st.get id = existing
  constructor
  · intro h
    simp only at h
    split at h
    · cases h
    · rename_i ixs hrem
      obtain ⟨hex, rfl⟩ := removeExisting_eq_ok.mp hrem
      split at h
      · cases h
      · rename_i ixs hins
        obtain ⟨v, hv, hdim, hroom, rfl⟩ := insertNew_eq_ok.mp hins
        split at h
        · cases h
        · rename_i filter hfil
          obtain ⟨hread, rfl⟩ := (updateFilter_eq_ok _ _ _ _ _).mp hfil
          cases h
          rw [Json.obj_members (isObject_of_readVector hv)] at hread ⊢
          rw [IndexFactory.dim_removed] at hdim
          rw [IndexFactory.hnsw_removed] at hroom
          refine ⟨v, ⟨hex, hv, hdim, hroom, hread⟩, ?_⟩
          rw [IndexFactory.filter_inserted, IndexFactory.filter_removed]
          rfl
  · rintro ⟨v, hl, rfl⟩
    have hobj := Json.obj_members (isObject_of_readVector hl.vector)
    have hrem : removeExisting existing id t s.indexes = .ok (s.indexes.removed existing id t) :=
      removeExisting_eq_ok.mpr ⟨hl.existing, rfl⟩
    have hdim : (s.indexes.removed existing id t).dim t ≤ v.length := by
      rw [IndexFactory.dim_removed]
      exact hl.length
    have hroom : t = .hnsw → id ∈ (s.indexes.removed existing id t).hnsw.points ∨ st.addPoint = true := by
      rw [IndexFactory.hnsw_removed]
      exact hl.room
    have hins : insertNew st data id t (s.indexes.removed existing id t) = .ok ((s.indexes.removed existing id t).inserted id v t) :=
      insertNew_eq_ok.mpr ⟨v, hl.vector, hdim, hroom, rfl⟩
    have hfil := (updateFilter_eq_ok existing id data.members s.indexes.filter _).mpr
      ⟨by rw [hobj]; exact hl.fields, rfl⟩
    simp only [hrem, hins, IndexFactory.filter_inserted, IndexFactory.filter_removed, hfil, hobj]
    rfl

/-- **A completed upsert** of legal data leaves `upserted`. -/
theorem upsert_eq_ok {s s' : Stores F} {id : UInt64} {data : Json} {t : IndexType} :
    s.upsert .ok id data t = .ok s' ↔ ∃ v, s.Legal id data v t ∧ s' = s.upserted id data v t := by
  rw [upsert_eq_ok_of_status]
  refine exists_congr fun v => and_congr ⟨fun h => ?_, fun h => ?_⟩ Iff.rfl
  · exact ⟨h.existing, h.vector, h.length, h.fields⟩
  · exact ⟨h.existing, h.vector, h.length, fun _ => Or.inr rfl, h.fields⟩

/-! ## Each store after an upsert -/

omit [CFloat F]

@[simp] theorem document_upserted (s : Stores F) (id i : UInt64) (d : Json) (v : List F) (t : IndexType) :
    (s.upserted id d v t).document i = if i = id then d else s.document i := by
  simp only [document, upserted, ScalarStorage.getScalar, ScalarStorage.insertScalar, if_true,
    ExtTreeMap.getElem?_insert, Std.compare_eq_iff_eq, eq_comm (a := id)]
  split <;> rfl

@[simp] theorem dim_upserted (s : Stores F) (id : UInt64) (d : Json) (v : List F) (t u : IndexType) :
    (s.upserted id d v t).indexes.dim u = s.indexes.dim u := by
  have h : (s.upserted id d v t).indexes.dim u =
      ((s.indexes.removed (s.document id) id t).inserted id v t).dim u := by
    cases u <;> rfl
  rw [h, IndexFactory.dim_inserted, IndexFactory.dim_removed]

@[simp] theorem blobs_upserted (s : Stores F) (id : UInt64) (d : Json) (v : List F) (t : IndexType) :
    (s.upserted id d v t).scalarStorage.blobs = s.scalarStorage.blobs := rfl

@[simp] theorem filter_upserted (s : Stores F) (id : UInt64) (d : Json) (v : List F) (t : IndexType) :
    (s.upserted id d v t).indexes.filter =
      s.indexes.filter.updateAll (s.document id).memberInt64? id (intFields d) := rfl

/-- The new entry of an id, next to those of the other ids. -/
theorem entries_upserted (s : Stores F) (id : UInt64) (d : Json) (v : List F) (t : IndexType) :
    (s.upserted id d v t).indexes.flat.entries =
      if t = .flat then
        (s.indexes.flat.entries.filter fun e => ¬ ((s.document id).isObject = true ∧ e.1 = id.toInt64)) ++
          [(id.toInt64, v.take s.indexes.flat.d)]
      else s.indexes.flat.entries := by
  have h : (s.upserted id d v t).indexes.flat = ((s.indexes.removed (s.document id) id t).inserted id v t).flat := rfl
  rw [h]
  cases t with
  | flat =>
    unfold IndexFactory.removed IndexFactory.inserted
    by_cases ho : (s.document id).isObject = true
    · simp [ho, FaissIndex.removeVectors]
    · simp [ho]
  | hnsw => simp [IndexFactory.inserted, IndexFactory.removed]
  | filter => simp [IndexFactory.inserted, IndexFactory.removed]
  | unknown => simp [IndexFactory.inserted, IndexFactory.removed]

theorem vectorsOf_upserted (s : Stores F) (id i : UInt64) (d : Json) (v : List F) (t : IndexType) :
    (s.upserted id d v t).indexes.flat.vectorsOf i =
      if i = id ∧ t = .flat then
        (if (s.document id).isObject = true then [] else s.indexes.flat.vectorsOf i) ++ [v.take s.indexes.flat.d]
      else s.indexes.flat.vectorsOf i := by
  have h : (s.upserted id d v t).indexes.flat = ((s.indexes.removed (s.document id) id t).inserted id v t).flat := rfl
  rw [h]
  cases t with
  | flat =>
    simp only [IndexFactory.inserted, FaissIndex.vectorsOf_append, IndexFactory.removed, and_true]
    by_cases ho : (s.document id).isObject = true
    · simp only [ho, if_true, FaissIndex.vectorsOf_removeVectors]
      by_cases hi : i = id <;> simp [hi, FaissIndex.removeVectors]
    · by_cases hi : i = id <;> simp [hi, ho]
  | hnsw => simp [IndexFactory.inserted, IndexFactory.removed]
  | filter => simp [IndexFactory.inserted, IndexFactory.removed]
  | unknown => simp [IndexFactory.inserted, IndexFactory.removed]

theorem points_upserted (s : Stores F) (id i : UInt64) (d : Json) (v : List F) (t : IndexType) :
    (s.upserted id d v t).indexes.hnsw.points[i]? =
      if i = id ∧ t = .hnsw then some (v.take s.indexes.hnsw.d) else s.indexes.hnsw.points[i]? := by
  have h : (s.upserted id d v t).indexes.hnsw = ((s.indexes.removed (s.document id) id t).inserted id v t).hnsw := rfl
  rw [h]
  cases t with
  | hnsw =>
    simp only [IndexFactory.inserted, IndexFactory.hnsw_removed, ExtTreeMap.getElem?_insert, Std.compare_eq_iff_eq, eq_comm (a := id), and_true]
  | flat => simp [IndexFactory.inserted]
  | filter => simp [IndexFactory.inserted]
  | unknown => simp [IndexFactory.inserted]

end Stores

/-- The same documents, FLAT entries up to their order, HNSW points and bitmaps. -/
structure SameStores (t u : Stores F) : Prop where
  scalarStorage : u.scalarStorage = t.scalarStorage
  flat : (u.indexes.flat.entries : Multiset (Int64 × List F)) = t.indexes.flat.entries
  hnsw : u.indexes.hnsw.points = t.indexes.hnsw.points
  filter : ∀ f v, u.indexes.filter.bitmap f v = t.indexes.filter.bitmap f v

theorem SameStores.refl (s : Stores F) : SameStores s s := ⟨rfl, rfl, rfl, fun _ _ => rfl⟩

end VectorDb
