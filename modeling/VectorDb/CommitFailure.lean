import VectorDb.VectorEntries

/-!
# Commits whose library calls fail

* `AllOrNothing` : a commit applies the whole upsert and its index, or reports a failure and changes nothing;
* `Unfailing` : the failures leave the upsert as it would be without them;
* `sameStores_upsertedFrom_iff` : what a failed `Get` or `Put` takes away from the stores;
* `allOrNothing_iff` : in every state a commit is all or nothing exactly when its failures have no effect.
-/

namespace VectorDb
open Std (ExtTreeMap)

variable {F : Type}

/-- A failed `Get` hides nothing that the upsert has to take out: there is no old FLAT entry, and an old value of a
field that it files is the new one, or filed nowhere. -/
structure NothingToRemove (s : Stores F) (id : UInt64) (doc : Json) (t : IndexType) : Prop where
  flat : t = .flat → (s.document id).isObject = true → FlatFree s id
  fields : ∀ f w, (s.document id).memberInt64? f = some w → (∃ u, (f, u) ∈ intFields doc) →
    FilterIndex.lastValue (intFields doc) f = some w ∨ ((f, w) ∉ intFields doc ∧ id.toUInt32 ∉ s.indexes.filter.bitmap f w)

/-- The library calls fail, if at all, where it makes no difference. -/
structure Unfailing [CFloat F] (st : LibStatus) (s : Stores F) (id : UInt64) (doc : Json) (t : IndexType) : Prop where
  /-- `Put` succeeds, or the document is stored already. -/
  put : st.put = true ∨ s.document id = doc
  /-- `addPoint` finds the label, or room for it. -/
  addPoint : t = .hnsw → id ∈ s.indexes.hnsw.points ∨ st.addPoint = true
  /-- `Get` succeeds, and the stored document can be read, or there is nothing to remove. -/
  get : if st.get then ((s.document id).isObject = true → (readVector F (s.document id)).isSome = true) ∧
    Readable (s.document id) doc else NothingToRemove s id doc t

namespace Stores

/-- What the upsert reads. -/
theorem getScalar_eq (st : LibStatus) (s : Stores F) (id : UInt64) :
    s.scalarStorage.getScalar st.get id = if st.get then s.document id else .null := by
  unfold document ScalarStorage.getScalar
  cases st.get <;> rfl

/-! ## Each store after failures -/

section
variable (st : LibStatus) (s : Stores F) (e : Json) (id : UInt64) (doc : Json) (v : List F) (t : IndexType)

theorem scalarStorage_upsertedFrom_iff (ho : doc.isObject = true) :
    (s.upsertedFrom st e id doc v t).scalarStorage = (s.upserted id doc v t).scalarStorage ↔
      st.put = true ∨ s.document id = doc := by
  show s.scalarStorage.insertScalar st.put id doc = s.scalarStorage.insertScalar true id doc ↔ _
  cases hput : st.put with
  | true => simp
  | false =>
    simp only [ScalarStorage.insertScalar, if_true, Bool.false_eq_true, if_false, false_or]
    constructor
    · intro h
      have hdoc := congrArg (fun r : ScalarStorage => (r.docs[id]?).getD .null) h
      simp only [ExtTreeMap.getElem?_insert_self, Option.getD_some] at hdoc
      exact hdoc
    · intro hdoc
      have hsome : s.scalarStorage.docs[id]? = some doc := by
        have hget : (s.scalarStorage.docs[id]?).getD .null = doc := hdoc
        cases hd : s.scalarStorage.docs[id]? with
        | some d =>
          rw [hd, Option.getD_some] at hget
          rw [hget]
        | none =>
          rw [hd, Option.getD_none] at hget
          rw [← hget] at ho
          cases ho
      exact (ScalarStorage.insertScalar_of_stored hsome true).symm

/-- A removal matters where there is an entry to remove. -/
theorem entries_upsertedFrom_null_iff :
    ((s.upsertedFrom st .null id doc v t).indexes.flat.entries : Multiset (Int64 × List F)) =
      (s.upserted id doc v t).indexes.flat.entries ↔ (t = .flat → (s.document id).isObject = true → FlatFree s id) := by
  have hnull : (s.upsertedFrom st .null id doc v t).indexes.flat.entries =
      if t = .flat then s.indexes.flat.entries ++ [(id.toInt64, v.take s.indexes.flat.d)] else s.indexes.flat.entries := by
    cases t <;> rfl
  rw [hnull, entries_upserted]
  by_cases ht : t = .flat
  · simp only [ht, if_true, true_imp_iff, Multiset.coe_eq_coe, List.perm_append_right_iff]
    constructor
    · intro hperm ho hmem
      obtain ⟨x, hx, hlabel⟩ := List.mem_map.mp hmem
      have hfil := hperm.subset hx
      rw [List.mem_filter] at hfil
      simp [ho, hlabel] at hfil
    · intro hfree
      apply List.Perm.of_eq
      symm
      rw [List.filter_eq_self]
      intro x hx
      rw [decide_eq_true_eq]
      rintro ⟨ho, hlabel⟩
      exact hfree ho (List.mem_map.mpr ⟨x, hx, hlabel⟩)
  · simp [ht]

theorem bitmap_upsertedFrom_null_iff :
    (∀ f w, (s.upsertedFrom st .null id doc v t).indexes.filter.bitmap f w = (s.upserted id doc v t).indexes.filter.bitmap f w) ↔
      ∀ f w, (s.document id).memberInt64? f = some w → (∃ u, (f, u) ∈ intFields doc) →
        FilterIndex.lastValue (intFields doc) f = some w ∨
          ((f, w) ∉ intFields doc ∧ id.toUInt32 ∉ s.indexes.filter.bitmap f w) := by
  have hnull : ∀ f w x, x ∈ (s.upsertedFrom st .null id doc v t).indexes.filter.bitmap f w ↔
      (x = id.toUInt32 ∧ (f, w) ∈ intFields doc) ∨ x ∈ s.indexes.filter.bitmap f w := by
    intro f w x
    show x ∈ (s.indexes.filter.updateAll _ id (intFields doc)).bitmap f w ↔ _
    rw [FilterIndex.mem_bitmap_updateAll]
    simp [Json.memberInt64?, Json.member?, Json.members]
  constructor
  · intro h f w hold hf
    have hx := hnull f w id.toUInt32
    rw [h f w, mem_bitmap_upserted] at hx
    by_cases hlast : FilterIndex.lastValue (intFields doc) f = some w
    · exact Or.inl hlast
    · simp only [hold, hf, hlast, true_and, and_true, ne_eq, not_true_eq_false, or_false, and_false, false_iff,
        not_or] at hx
      exact Or.inr hx
  · intro h f w
    ext x
    rw [hnull, mem_bitmap_upserted]
    by_cases hx : x = id.toUInt32
    · by_cases hold : (s.document id).memberInt64? f = some w
      · by_cases hf : ∃ u, (f, u) ∈ intFields doc
        · rcases h f w hold hf with hlast | ⟨hno, hmem⟩
          · simp [hx, FilterIndex.lastValue_mem hlast, hlast]
          · simp [hx, hno, hmem, hold, hf]
        · have hno : (f, w) ∉ intFields doc := fun hm => hf ⟨w, hm⟩
          simp [hno, hf]
      · simp [hx, hold]
    · simp [hx]

/-- **What failures take away.** The stores are those of an upsert without failures exactly when `Put` loses no document
and `Get` hides nothing. -/
theorem sameStores_upsertedFrom_iff (ho : doc.isObject = true) :
    SameStores (s.upserted id doc v t) (s.upsertedFrom st (s.scalarStorage.getScalar st.get id) id doc v t) ↔
      (st.put = true ∨ s.document id = doc) ∧ (st.get = true ∨ NothingToRemove s id doc t) := by
  have hhnsw : ∀ e, (s.upsertedFrom st e id doc v t).indexes.hnsw.points = (s.upserted id doc v t).indexes.hnsw.points := by
    intro e
    show ((s.indexes.removed e id t).inserted id v t).hnsw.points =
      ((s.indexes.removed (s.document id) id t).inserted id v t).hnsw.points
    cases t <;> simp [IndexFactory.inserted]
  rw [getScalar_eq]
  cases hget : st.get with
  | true =>
    constructor
    · intro h
      exact ⟨(scalarStorage_upsertedFrom_iff st s _ id doc v t ho).mp h.scalarStorage, Or.inl rfl⟩
    · rintro ⟨hput, -⟩
      exact ⟨(scalarStorage_upsertedFrom_iff st s _ id doc v t ho).mpr hput, rfl, hhnsw _, fun _ _ => rfl⟩
  | false =>
    simp only [Bool.false_eq_true, if_false, false_or]
    constructor
    · intro h
      refine ⟨(scalarStorage_upsertedFrom_iff st s _ id doc v t ho).mp h.scalarStorage, ?_, ?_⟩
      · exact (entries_upsertedFrom_null_iff st s id doc v t).mp h.flat
      · exact (bitmap_upsertedFrom_null_iff st s id doc v t).mp h.filter
    · rintro ⟨hput, hnone⟩
      constructor
      case scalarStorage => exact (scalarStorage_upsertedFrom_iff st s _ id doc v t ho).mpr hput
      case flat => exact (entries_upsertedFrom_null_iff st s id doc v t).mpr hnone.flat
      case hnsw => exact hhnsw _
      case filter => exact (bitmap_upsertedFrom_null_iff st s id doc v t).mpr hnone.fields

end

variable [CFloat F]

/-- When the upsert goes through, and leaves what it would leave without failures. -/
theorem unfailing_iff {st : LibStatus} {s : Stores F} {id : UInt64} {doc : Json} {v : List F} {t : IndexType}
    (hv : readVector F doc = some v) (hlen : s.indexes.dim t ≤ v.length) : Unfailing st s id doc t ↔
      Accepts st s (s.scalarStorage.getScalar st.get id) id doc v t ∧
        SameStores (s.upserted id doc v t) (s.upsertedFrom st (s.scalarStorage.getScalar st.get id) id doc v t) := by
  rw [sameStores_upsertedFrom_iff st s id doc v t (isObject_of_readVector hv), getScalar_eq]
  constructor
  · intro h
    have hget := h.get
    cases hst : st.get with
    | true =>
      rw [hst, if_pos rfl] at hget
      exact ⟨⟨hget.1, hv, hlen, h.addPoint, hget.2⟩, h.put, Or.inl rfl⟩
    | false =>
      rw [hst, if_neg (by decide)] at hget
      exact ⟨⟨fun ho => (by cases ho), hv, hlen, h.addPoint, fun ho => (by cases ho)⟩, h.put, Or.inr hget⟩
  · rintro ⟨hacc, hput, hrest⟩
    refine ⟨hput, hacc.room, ?_⟩
    cases hst : st.get with
    | true =>
      have hex := hacc.existing
      have hfields := hacc.fields
      rw [hst, if_pos rfl] at hex hfields
      rw [if_pos rfl]
      exact ⟨hex, hfields⟩
    | false =>
      rw [hst] at hrest
      rw [if_neg (by decide)]
      exact hrest.resolve_left (by decide)

end Stores

namespace LogStateMachine
variable [CFloat F] (parse : Bytes → Option Json)

/-- The commit returns with every store showing the upsert and the index moved, or fails with all as it was. -/
def AllOrNothing (st : LibStatus) (sm : LogStateMachine F) (logIdx : Nat) (data : Bytes) (upserted : Stores F) : Prop :=
  (∃ sm' out, commit parse st sm logIdx data = .ok (sm', out) ∧ sm'.lastCommittedIdx = logIdx ∧
    SameStores upserted sm'.vectorDatabase.stores) ∨
  ∃ e sm', commit parse st sm logIdx data = .error (e, sm') ∧ sm'.lastCommittedIdx = sm.lastCommittedIdx ∧
    SameStores sm.vectorDatabase.stores sm'.vectorDatabase.stores

/-- **All or nothing.** In every state, for every outcome of the library calls, the commit of a well-typed entry above
the committed index is all or nothing exactly when no call fails where it matters. -/
theorem allOrNothing_iff (st : LibStatus) {sm : LogStateMachine F} {logIdx : Nat} (hidx : sm.lastCommittedIdx < logIdx)
    {data : Bytes} (hdata : 4 ≤ data.length) {doc : Json} (hdoc : parse (cstr (data.drop 4)) = some doc) {id : UInt64}
    (hid : docId doc = some id) {v : List F} (hv : readVector F doc = some v)
    (hlen : sm.vectorDatabase.stores.indexes.dim (getIndexTypeFromRequest doc) ≤ v.length) :
    AllOrNothing parse st sm logIdx data (sm.vectorDatabase.stores.upserted id doc v (getIndexTypeFromRequest doc)) ↔
      Unfailing st sm.vectorDatabase.stores id doc (getIndexTypeFromRequest doc) := by
  have hreq : jsonRequest parse data = doc := by rw [jsonRequest, hdoc, Option.getD_some]
  have hid' : (doc.member? requestId).bind Json.uint64? = some id := hid
  rw [Stores.unfailing_iff hv hlen]
  unfold AllOrNothing commit
  simp only [if_neg (Nat.not_lt.mpr hdata), hreq, hid']
  cases hup : sm.vectorDatabase.stores.upsert st id doc (getIndexTypeFromRequest doc) with
  | ok s' =>
    obtain ⟨w, hacc, rfl⟩ := Stores.upsert_eq_ok_of_status.mp hup
    obtain rfl : v = w := Option.some.inj (hv.symm.trans hacc.vector)
    constructor
    · rintro (⟨sm', out, hok, -, hsame⟩ | ⟨_, _, herr, -⟩)
      · cases hok
        exact ⟨hacc, hsame⟩
      · cases herr
    · rintro ⟨-, hsame⟩
      exact Or.inl ⟨_, _, rfl, rfl, hsame⟩
  | error e =>
    constructor
    · rintro (⟨_, _, hok, -⟩ | ⟨_, _, herr, hmoved, -⟩)
      · cases hok
      · -- the index has moved before the upsert starts
        cases herr
        exact absurd hmoved (Nat.ne_of_gt hidx)
    · rintro ⟨hacc, -⟩
      have hok := Stores.upsert_eq_ok_of_status.mpr ⟨v, hacc, rfl⟩
      cases hup.symm.trans hok

/-- `newFieldDoc` is stored already when its `Put` fails. -/
theorem allOrNothing_iff_stored :
    let stored := (Stores.fresh 1 : Stores Number).upserted 1 newFieldDoc [.int 0] .flat
    AllOrNothing newFieldParser ⟨true, false, true⟩ (ofStores stored) 12 (leBytes 4 47 ++ newFieldBody)
      (stored.upserted 1 newFieldDoc [.int 0] (getIndexTypeFromRequest newFieldDoc)) := by
  intro stored
  have hidx : (ofStores stored).lastCommittedIdx < 12 := by decide
  have hdoc : stored.document 1 = newFieldDoc := by rfl
  refine (allOrNothing_iff newFieldParser ⟨true, false, true⟩ hidx (by decide) (by rfl) (by rfl) (by rfl) (by decide)).mpr
    ⟨Or.inr hdoc, fun h => absurd h (by decide), ?_⟩
  rw [if_pos rfl]
  have hread : Readable (stored.document 1) newFieldDoc := by decide +kernel
  exact ⟨fun _ => by rfl, hread⟩

/-- A failed `Put` is logged: the commit succeeds, the indexes have the document, and the scalar store does not. -/
theorem committed_without_document : ¬ ∀ (st : LibStatus) (as : List UpsertArgs) (sm : LogStateMachine Number)
    (logIdx : Nat) (data : Bytes) (doc : Json) (id : UInt64) (v : List Number),
    Run UpsertStep (Stores.fresh 1) as sm.vectorDatabase.stores → sm.lastCommittedIdx < logIdx → 4 ≤ data.length →
    newFieldParser (cstr (data.drop 4)) = some doc → docId doc = some id → readVector Number doc = some v →
    v.length = 1 → AllOrNothing newFieldParser st sm logIdx data
      (sm.vectorDatabase.stores.upserted id doc v (getIndexTypeFromRequest doc)) := by
  intro h
  have hall := h ⟨true, false, true⟩ [] (ofStores (Stores.fresh 1)) 11 (leBytes 4 47 ++ newFieldBody) newFieldDoc 1
    [.int 0] Run.nil (by decide) (by decide) (by rfl) (by rfl) (by rfl) rfl
  rcases hall with ⟨sm', out, hok, -, hsame⟩ | ⟨e, sm', herr, -⟩
  · have hstored := congrArg (fun r : ScalarStorage => (r.docs[(1 : UInt64)]?).isSome) hsame.scalarStorage
    have hsm : sm'.vectorDatabase.stores.scalarStorage = ScalarStorage.empty := by
      cases hok
      rfl
    rw [hsm] at hstored
    exact absurd hstored (by decide +kernel)
  · cases herr

end LogStateMachine
end VectorDb
