import VectorDb.CommitFailure
import VectorDb.HybridSearch

/-!
# Requests that pass the checks

* `HttpServer.Passes` : the checks of `/search`, `/insert` and `/upsert`;
* `HttpServer.Sound` : after them no accessor fails, in the handler, in the search or in a later commit on any replica,
  `k` is positive, and the vector has the dimension of its index;
* `HttpServer.Shape` : the members that the accessors need, with their types and ranges;
* `sound_iff` : a request that passes the checks is served soundly exactly when it has that shape.
-/

namespace VectorDb

variable {F : Type}

/-- Both vector indexes have this dimension. -/
def OfDim (dim : Nat) (ixs : IndexFactory F) : Prop := ixs.flat.d = dim ∧ ixs.hnsw.d = dim

theorem OfDim.dim_eq {dim : Nat} {ixs : IndexFactory F} (h : OfDim dim ixs) {d : Json}
    (ht : getIndexTypeFromRequest d ≠ .unknown) : ixs.dim (getIndexTypeFromRequest d) = dim := by
  cases htype : getIndexTypeFromRequest d with
  | flat => exact h.1
  | hnsw => exact h.2
  | filter => exact absurd htype (HttpServer.getIndexTypeFromRequest_ne_filter d)
  | unknown => exact absurd htype ht

/-- The accessors that an upsert applies to the stored document succeed. -/
def StoredReadable [CFloat F] (st : LibStatus) (s : Stores F) (doc : Json) : Prop :=
  ∀ id, docId doc = some id → ((s.scalarStorage.getScalar st.get id).isObject = true →
    (readVector F (s.scalarStorage.getScalar st.get id)).isSome = true) ∧ Readable (s.scalarStorage.getScalar st.get id) doc

/-- The vector for a vector index has its dimension. -/
def HandsOver [CFloat F] (ixs : IndexFactory F) (d : Json) : Prop :=
  ∀ v, readVector F d = some v → getIndexTypeFromRequest d ≠ .unknown → v.length = ixs.dim (getIndexTypeFromRequest d)

theorem HandsOver.dim_le [CFloat F] {ixs : IndexFactory F} {d : Json} (h : HandsOver ixs d) {v : List F}
    (hv : readVector F d = some v) : ixs.dim (getIndexTypeFromRequest d) ≤ v.length := by
  by_cases ht : getIndexTypeFromRequest d = .unknown
  · rw [ht]
    exact Nat.zero_le _
  · exact (h v hv ht).ge

/-! ## The shape of a request -/

/-- An array of numbers, as many as the dimension of the index it is for. -/
def VectorShape (dim : Nat) (d : Json) : Prop :=
  ∃ xs, d.member? requestVectors = some (.arr xs) ∧ (∀ x ∈ xs, x.isNumber = true) ∧
    (getIndexTypeFromRequest d ≠ .unknown → xs.length = dim)

def IdShape (d : Json) : Prop := ∃ n, d.member? requestId = some (.int n) ∧ 0 ≤ n ∧ n < 2 ^ 64

def KShape (d : Json) : Prop := ∃ n, d.member? requestK = some (.int n) ∧ 0 < n ∧ n < 2 ^ 31

/-- A filter that is an object names a field, an operation and a 64-bit value. -/
def FilterShape (d : Json) : Prop :=
  ∀ filter, d.member? requestFilter = some filter → filter.isObject = true → ∃ f op n,
    filter.member? filterFieldName = some (.str f) ∧ filter.member? filterOp = some (.str op) ∧
      filter.member? filterValue = some (.int n) ∧ -2 ^ 63 ≤ n ∧ n < 2 ^ 63

section
variable [CFloat F] {dim : Nat} {d : Json}

theorem vectorShape_iff {ixs : IndexFactory F} (hdim : OfDim dim ixs) :
    VectorShape dim d ↔ (∃ v, readVector F d = some v) ∧ HandsOver ixs d := by
  have hread : ∀ v, readVector F d = some v ↔ ∃ xs, d.member? requestVectors = some (.arr xs) ∧ xs.mapM Json.float? = some v := by
    intro v
    unfold readVector
    simp only [Option.bind_eq_some_iff, Json.elems?_eq_some_iff]
    constructor
    · rintro ⟨_, hm, xs, rfl, hv⟩
      exact ⟨xs, hm, hv⟩
    · rintro ⟨xs, hm, hv⟩
      exact ⟨_, hm, xs, rfl, hv⟩
  constructor
  · rintro ⟨xs, hm, hnum, hlen⟩
    obtain ⟨v, hv, -⟩ := (Json.exists_mapM_float?_iff (F := F)).mpr ⟨rfl, hnum⟩
    refine ⟨⟨v, (hread v).mpr ⟨xs, hm, hv⟩⟩, fun w hw ht => ?_⟩
    obtain ⟨ys, hys, hw⟩ := (hread w).mp hw
    cases hm.symm.trans hys
    obtain ⟨hl, -⟩ := Json.exists_mapM_float?_iff.mp ⟨w, hw, rfl⟩
    rw [← hl, hlen ht, hdim.dim_eq ht]
  · rintro ⟨⟨v, hv⟩, hlen⟩
    obtain ⟨xs, hm, hmap⟩ := (hread v).mp hv
    obtain ⟨hl, hnum⟩ := Json.exists_mapM_float?_iff.mp ⟨v, hmap, rfl⟩
    refine ⟨xs, hm, hnum, fun ht => ?_⟩
    rw [hl, hlen v hv ht, hdim.dim_eq ht]

theorem idShape_iff : IdShape d ↔ ∃ id, docId d = some id := by
  unfold IdShape docId
  cases d.member? requestId with
  | none => simp
  | some j => simp only [Option.some.injEq, Option.bind_some, Json.exists_uint64?_iff]

theorem kShape_iff : KShape d ↔ (∃ k, (d.member? requestK).bind Json.int32? = some k) ∧
    ∀ k, (d.member? requestK).bind Json.int32? = some k → 0 < k := by
  unfold KShape
  cases d.member? requestK with
  | none => simp
  | some j =>
    simp only [Option.some.injEq, Option.bind_some, Json.int32?_eq_some_iff]
    constructor
    · rintro ⟨n, rfl, hpos, hlt⟩
      refine ⟨⟨n, rfl, by omega, hlt⟩, ?_⟩
      rintro k ⟨hk, -⟩
      cases hk
      exact hpos
    · rintro ⟨⟨n, rfl, hn⟩, hpos⟩
      exact ⟨n, rfl, hpos n ⟨rfl, hn⟩, hn.2⟩

theorem filterShape_iff (fi : FilterIndex) : FilterShape d ↔ ∃ b, filterBitmap fi d = .ok b := by
  unfold FilterShape filterBitmap
  cases d.member? requestFilter with
  | none => simp
  | some filter =>
    simp only [Option.some.injEq, forall_eq']
    by_cases ho : filter.isObject = true
    · have hstr : ∀ name, (∃ f, filter.member? name = some (.str f)) ↔ ∃ s, filter.cstring? name = some s := by
        intro name
        unfold Json.cstring?
        cases filter.member? name with
        | none => simp
        | some j => simp [Json.string?_eq_some_iff]
      have hint : (∃ n, filter.member? filterValue = some (.int n) ∧ -2 ^ 63 ≤ n ∧ n < 2 ^ 63) ↔
          ∃ v, filter.memberInt64? filterValue = some v := by
        unfold Json.memberInt64?
        cases filter.member? filterValue with
        | none => simp
        | some j => simp only [Option.some.injEq, Option.bind_some, Json.exists_int64?_iff]
      simp only [ho, if_true, true_imp_iff, exists_and_left, exists_and_right, hstr, hint]
      cases filter.cstring? filterFieldName <;> cases filter.cstring? filterOp <;>
        cases filter.memberInt64? filterValue <;> simp
    · simp [ho]

end

/-! ## Which faults there are -/

section
variable [CFloat F] (L : SearchLibs F)

/-- A search fails by an accessor exactly when one of the three readers does. -/
theorem VectorDatabase.search_ne_assertion_iff {db : VectorDatabase F} {d : Json} :
    db.search L d ≠ .error .assertion ↔ (∃ query, readVector F d = some query) ∧
      (∃ k, (d.member? requestK).bind Json.int32? = some k) ∧ FilterShape d := by
  rw [filterShape_iff db.stores.indexes.filter, VectorDatabase.search]
  have hfault : ∀ e, filterBitmap db.stores.indexes.filter d = .error e → e = .assertion := by
    intro e he
    unfold filterBitmap at he
    split at he
    · cases he
    · split at he
      · split at he
        · cases he
        · cases he
          rfl
      · cases he
  cases readVector F d with
  | none => simp
  | some query =>
    cases (d.member? requestK).bind Json.int32? with
    | none => simp
    | some k =>
      simp only [Option.some.injEq, exists_eq', true_and]
      cases hfil : filterBitmap db.stores.indexes.filter d with
      | error e => simp [hfault e hfil]
      | ok bitmap =>
        refine iff_of_true ?_ ⟨bitmap, rfl⟩
        cases getIndexTypeFromRequest d with
        | flat =>
          simp only [FaissIndex.searchVectors]
          split
          · simp
          · split
            · simp
            · split <;> simp
        | hnsw =>
          simp only [HNSWLibIndex.searchVectors]
          split <;> simp
        | filter => simp
        | unknown => simp

/-- With legal accessors an upsert fails, if at all, because the index is full. -/
theorem Stores.upsert_ne_assertion {st : LibStatus} {s : Stores F} {id : UInt64} {doc : Json} {v : List F} {t : IndexType}
    (hex : (s.scalarStorage.getScalar st.get id).isObject = true →
      (readVector F (s.scalarStorage.getScalar st.get id)).isSome = true)
    (hread : Readable (s.scalarStorage.getScalar st.get id) doc) (hv : readVector F doc = some v)
    (hlen : s.indexes.dim t ≤ v.length) (s' : Stores F) : s.upsert st id doc t ≠ .error (.assertion, s') := by
  by_cases hroom : t = .hnsw → id ∈ s.indexes.hnsw.points ∨ st.addPoint = true
  · rw [upsert_eq_ok_of_status.mpr ⟨v, ⟨hex, hv, hlen, hroom, hread⟩, rfl⟩]
    simp
  · obtain ⟨rfl, hfull⟩ := Classical.not_imp.mp hroom
    have hle : ¬ v.length < s.indexes.hnsw.d := Nat.not_lt.mpr hlen
    simp [upsert, removeExisting_eq_ok.mpr ⟨hex, rfl⟩, insertNew, hv, HNSWLibIndex.insertVectors, IndexFactory.hnsw_removed,
      hle, hfull, Except.map]

end

namespace HttpServer
variable [CFloat F] (S : BufferSerializer) (L : SearchLibs F) (parse : Bytes → Option Json)

/-- The checks of a handler; `/upsert` takes any index type. -/
def Passes (body : Bytes) (c : CheckType) : Prop :=
  (jsonRequest parse body).isObject = true ∧ isRequestValid (jsonRequest parse body) c = true ∧
    match c with
    | .upsert => True
    | _ => getIndexTypeFromRequest (jsonRequest parse body) ≠ .unknown

/-- No accessor fails from there on. The accessors that a commit applies to the stored document are not the request's. -/
def Sound (dim : Nat) (db : VectorDatabase F) (body : Bytes) : CheckType → Prop
  | .search => searchHandler L parse db body ≠ .error .assertion ∧ HandsOver db.stores.indexes (jsonRequest parse body) ∧
      ∀ k, ((jsonRequest parse body).member? requestK).bind Json.int32? = some k → 0 < k
  | .insert => (∀ st, insertHandler parse st db.stores.indexes body ≠ .error .assertion) ∧
      HandsOver db.stores.indexes (jsonRequest parse body)
  | .upsert => ∀ isLeader, upsertHandler parse S isLeader body ≠ .error .assertion ∧
      ∀ res payload, upsertHandler parse S isLeader body = .ok (res, some payload) →
        ∀ (st : LibStatus) (sm : LogStateMachine F) (logIdx : Nat), OfDim dim sm.vectorDatabase.stores.indexes →
          StoredReadable st sm.vectorDatabase.stores (LogStateMachine.jsonRequest parse payload) →
          (∀ sm', sm.commit parse st logIdx payload ≠ .error (.assertion, sm')) ∧
            HandsOver sm.vectorDatabase.stores.indexes (LogStateMachine.jsonRequest parse payload)

/-- What the accessors need. -/
def Shape (dim : Nat) (d : Json) : CheckType → Prop
  | .search => VectorShape dim d ∧ KShape d ∧ FilterShape d
  | .insert => VectorShape dim d ∧ IdShape d
  | .upsert => VectorShape dim d ∧ IdShape d

section
variable {S} {L} {parse} {dim : Nat} {db : VectorDatabase F} {body : Bytes}

theorem sound_search_iff (hdim : OfDim dim db.stores.indexes) (h : Passes parse body .search) :
    Sound S L parse dim db body .search ↔ Shape dim (jsonRequest parse body) .search := by
  obtain ⟨hobj, hval, htype⟩ := h
  have hhandler : searchHandler L parse db body ≠ .error .assertion ↔
      db.search L (jsonRequest parse body) ≠ .error .assertion := by
    unfold searchHandler
    simp only [← jsonRequest.eq_def, hobj, hval, not_true_eq_false, if_false]
    cases hv : readVector F (jsonRequest parse body) with
    | none => simp [VectorDatabase.search, hv]
    | some query =>
      cases hk : ((jsonRequest parse body).member? requestK).bind Json.int32? with
      | none => simp [VectorDatabase.search, hv, hk]
      | some k =>
        simp only [htype, if_false]
        cases db.search L (jsonRequest parse body) <;> simp [Except.map]
  simp only [Sound, Shape, hhandler, VectorDatabase.search_ne_assertion_iff, vectorShape_iff hdim, kShape_iff]
  tauto

theorem sound_insert_iff (hdim : OfDim dim db.stores.indexes) (h : Passes parse body .insert) :
    Sound S L parse dim db body .insert ↔ Shape dim (jsonRequest parse body) .insert := by
  obtain ⟨hobj, hval, htype⟩ := h
  have hhandler : ∀ st, insertHandler parse st db.stores.indexes body ≠ .error .assertion ↔
      (∃ v, readVector F (jsonRequest parse body) = some v) ∧ ∃ id, docId (jsonRequest parse body) = some id := by
    intro st
    unfold insertHandler docId
    simp only [hobj, hval, not_true_eq_false, if_false]
    cases readVector F (jsonRequest parse body) with
    | none => simp
    | some v =>
      cases ((jsonRequest parse body).member? requestId).bind Json.uint64? with
      | none => simp
      | some id =>
        refine iff_of_true ?_ ⟨⟨v, rfl⟩, id, rfl⟩
        simp only
        split
        · simp
        · simp only [FaissIndex.insertVectors]
          split <;> simp [Except.map]
        · simp only [HNSWLibIndex.insertVectors]
          split
          · simp [Except.map]
          · split <;> simp [Except.map]
        · simp
  have hstatus : Nonempty LibStatus := ⟨.ok⟩
  simp only [Sound, Shape, hhandler, vectorShape_iff hdim, idShape_iff, forall_const]
  tauto

/-- The payload has its length in front. -/
theorem not_lt_four_putStr (body : Bytes) : ¬ (S.putStr body).length < 4 := by
  rw [S.length_putStr]
  exact Nat.not_lt.mpr (Nat.le_add_right 4 _)

omit [CFloat F] in
theorem getScalar_fresh (id : UInt64) :
    (VectorDatabase.fresh dim : VectorDatabase F).stores.scalarStorage.getScalar LibStatus.ok.get id = .null :=
  Stores.document_fresh dim id

/-- An accepted body, committed on a replica whose stored document can be read. -/
theorem commit_putStr_sound {st : LibStatus} {sm : LogStateMachine F} {logIdx : Nat} {v : List F}
    (hv : readVector F (jsonRequest parse body) = some v) {id : UInt64} (hid : docId (jsonRequest parse body) = some id)
    (hlen : HandsOver sm.vectorDatabase.stores.indexes (jsonRequest parse body))
    (hstored : StoredReadable st sm.vectorDatabase.stores (jsonRequest parse body)) (sm' : LogStateMachine F) :
    sm.commit parse st logIdx (S.putStr body) ≠ .error (.assertion, sm') := by
  obtain ⟨hex, hread⟩ := hstored id hid
  have hup := Stores.upsert_ne_assertion hex hread hv (hlen.dim_le hv)
  have hid' : ((jsonRequest parse body).member? requestId).bind Json.uint64? = some id := hid
  unfold LogStateMachine.commit
  simp only [if_neg (not_lt_four_putStr body), jsonRequest_putStr, hid']
  split
  · rename_i e s' heq
    simp only [ne_eq, Except.error.injEq, Prod.mk.injEq, not_and]
    intro he
    subst he
    exact absurd heq (hup s')
  · simp

/-- On an empty replica nothing but the request is read. -/
theorem commit_putStr_fresh {id : UInt64} (hid : docId (jsonRequest parse body) = some id)
    (hv : readVector F (jsonRequest parse body) = none) :
    (⟨0, VectorDatabase.fresh dim⟩ : LogStateMachine F).commit parse .ok 1 (S.putStr body) =
      .error (.assertion, ⟨1, VectorDatabase.fresh dim⟩) := by
  have hid' : ((jsonRequest parse body).member? requestId).bind Json.uint64? = some id := hid
  unfold LogStateMachine.commit
  simp only [if_neg (not_lt_four_putStr body), jsonRequest_putStr, hid', Stores.upsert, getScalar_fresh, Stores.removeExisting, Stores.insertNew, hv]
  rfl

/-- After the checks `/upsert` reads the id alone. -/
theorem upsertHandler_of_passes (h : Passes parse body .upsert) (isLeader : Option Bool) :
    (docId (jsonRequest parse body) = none → upsertHandler parse S isLeader body = .error .assertion) ∧
      ∀ id, docId (jsonRequest parse body) = some id →
        upsertHandler parse S isLeader body = .ok (success [], RaftStuff.appendEntries S isLeader body) := by
  obtain ⟨hobj, hval, -⟩ := h
  unfold docId upsertHandler
  constructor
  · intro hid
    simp only [← jsonRequest.eq_def, hobj, hval, not_true_eq_false, if_false, hid]
  · intro id hid
    simp only [← jsonRequest.eq_def, hobj, hval, not_true_eq_false, if_false, hid]

/-- The dimension may be that of any replica. -/
theorem shape_upsert_iff {ixs : IndexFactory F} (hdim : OfDim dim ixs) {d : Json} : Shape dim d .upsert ↔
    ((∃ v, readVector F d = some v) ∧ HandsOver ixs d) ∧ ∃ id, docId d = some id := by
  rw [Shape, vectorShape_iff hdim, idShape_iff]

/-- On an empty replica every stored document can be read: there is none. -/
theorem storedReadable_fresh (d : Json) : StoredReadable .ok (VectorDatabase.fresh dim : VectorDatabase F).stores d := by
  intro i _
  rw [getScalar_fresh]
  exact ⟨fun ho => (by cases ho), fun ho => (by cases ho)⟩

/-- Raft is handed the body. -/
theorem appendEntries_eq_some {isLeader : Option Bool} {payload : Bytes}
    (h : RaftStuff.appendEntries S isLeader body = some payload) : payload = S.putStr body := by
  unfold RaftStuff.appendEntries at h
  split at h
  · exact (Option.some.inj h).symm
  · cases h

theorem sound_upsert_iff (h : Passes parse body .upsert) :
    Sound S L parse dim db body .upsert ↔ Shape dim (jsonRequest parse body) .upsert := by
  cases hid : docId (jsonRequest parse body) with
  | none =>
    simp only [Sound, (upsertHandler_of_passes h _).1 hid]
    constructor
    · intro hsound
      exact absurd rfl (hsound none).1
    · rintro ⟨-, hno⟩
      rw [idShape_iff, hid] at hno
      cases hno.choose_spec
  | some id =>
    simp only [Sound, (upsertHandler_of_passes h _).2 id hid]
    constructor
    · intro hsound
      -- the leader hands the body to Raft, and an empty replica commits it
      have hdim : OfDim dim (VectorDatabase.fresh dim : VectorDatabase F).stores.indexes := ⟨rfl, rfl⟩
      obtain ⟨hcommit, hlen⟩ := (hsound (some true)).2 _ _ rfl .ok ⟨0, VectorDatabase.fresh dim⟩ 1 hdim (storedReadable_fresh _)
      rw [jsonRequest_putStr] at hlen
      refine (shape_upsert_iff hdim).mpr ⟨⟨?_, hlen⟩, id, hid⟩
      rw [← Option.isSome_iff_exists, Option.isSome_iff_ne_none]
      intro hv
      exact hcommit _ (commit_putStr_fresh hid hv)
    · intro hshape isLeader
      refine ⟨by simp, fun res payload hres st sm logIdx hdim hstored => ?_⟩
      obtain rfl := appendEntries_eq_some (congrArg Prod.snd (Except.ok.inj hres))
      rw [jsonRequest_putStr] at hstored ⊢
      obtain ⟨⟨⟨v, hv⟩, hlen⟩, -⟩ := (shape_upsert_iff hdim).mp hshape
      exact ⟨commit_putStr_sound hv hid hlen hstored, hlen⟩

/-- **Requests that pass the checks.** For every text and each of the three handlers, a request that passes the checks
is served without a failing accessor, with a positive `k` and a vector of the index's dimension, exactly when its members
have the types and ranges that the accessors need. -/
theorem sound_iff (S : BufferSerializer) (L : SearchLibs F) (parse : Bytes → Option Json) {dim : Nat} {db : VectorDatabase F}
    (hdim : OfDim dim db.stores.indexes) (body : Bytes) (c : CheckType) :
    (Passes parse body c → Sound S L parse dim db body c) ↔
      (Passes parse body c → Shape dim (jsonRequest parse body) c) := by
  refine imp_congr_right fun h => ?_
  cases c with
  | search => exact sound_search_iff hdim h
  | insert => exact sound_insert_iff hdim h
  | upsert => exact sound_upsert_iff h

theorem sound_iff_filterRequest :
    (Passes (fun _ => some (filterRequest 5)) [] .search →
        Sound lengthPrefix lineLibs (fun _ => some (filterRequest 5)) 1 (VectorDatabase.fresh 1) [] .search) ↔
      (Passes (fun _ => some (filterRequest 5)) [] .search →
        Shape 1 (jsonRequest (fun _ => some (filterRequest 5)) []) .search) :=
  sound_iff lengthPrefix lineLibs _ ⟨rfl, rfl⟩ [] .search

/-- A text where an array belongs. -/
def textVectorRequest : Json :=
  .obj [(requestVectors, .str (ascii "x")), (requestK, .int 1), (requestIndexType, .str indexTypeFlat)]

/-- The checks let it through, and `GetArray` aborts. -/
theorem unsound_search : ¬ ∀ (parse : Bytes → Option Json) (db : VectorDatabase Int) (body : Bytes) (c : CheckType),
    OfDim 1 db.stores.indexes → Passes parse body c → Sound lengthPrefix lineLibs parse 1 db body c := by
  intro h
  have hpass : Passes (fun _ => some textVectorRequest) [] .search := ⟨by rfl, by rfl, by decide⟩
  have hsound := h (fun _ => some textVectorRequest) (VectorDatabase.fresh 1) [] .search ⟨rfl, rfl⟩ hpass
  exact hsound.1 (by rfl)

end

end HttpServer
end VectorDb
