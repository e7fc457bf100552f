import VectorDb.Replay

/-!
# `log_state_machine`: committing one log entry

* `commit` : the document is parsed out of the payload, the index recorded, and the upsert applied;
* `commit_completes_iff` : in every reachable state a well-typed entry is committed exactly when the stored
  document of its id holds the integer fields of the new one.
-/

namespace VectorDb

variable {F : Type}

structure LogStateMachine (F : Type) where
  lastCommittedIdx : Nat
  vectorDatabase : VectorDatabase F

namespace LogStateMachine

def setVectorDatabase (vectorDatabase : VectorDatabase F) : LogStateMachine F :=
  ⟨vectorDatabase.getStartIndexID, vectorDatabase⟩

section
variable [CFloat F] (parse : Bytes → Option Json)

/-- The document that a commit of this payload applies. -/
def jsonRequest (data : Bytes) : Json := (parse (cstr (data.drop 4))).getD .null

/-- The result is the log index as eight bytes. -/
def commit (st : LibStatus) (sm : LogStateMachine F) (logIdx : Nat) (data : Bytes) :
    Except (Fault × LogStateMachine F) (LogStateMachine F × Bytes) :=
  if data.length < 4 then .error (.lengthError, sm)
  else
    let jsonRequest := jsonRequest parse data
    match (jsonRequest.member? requestId).bind Json.uint64? with
    | none => .error (.assertion, sm)
    | some label =>
      let sm := { sm with lastCommittedIdx := logIdx }
      match sm.vectorDatabase.stores.upsert st label jsonRequest (getIndexTypeFromRequest jsonRequest) with
      | .error (e, stores) => .error (e, { sm with vectorDatabase.stores := stores })
      | .ok stores => .ok ({ sm with vectorDatabase.stores := stores }, leBytes 8 logIdx)

/-- **A commit that completes** applies the document of the entry. -/
theorem commit_eq_ok {sm : LogStateMachine F} {logIdx : Nat} {data : Bytes} {r : LogStateMachine F × Bytes} :
    commit parse .ok sm logIdx data = .ok r ↔ 4 ≤ data.length ∧
      ∃ stores, Applied sm.vectorDatabase.stores (jsonRequest parse data) stores ∧
        r = (⟨logIdx, { sm.vectorDatabase with stores }⟩, leBytes 8 logIdx) := by
  have hid : ((jsonRequest parse data).member? requestId).bind Json.uint64? = docId (jsonRequest parse data) := rfl
  unfold commit
  by_cases hlen : data.length < 4
  · rw [if_pos hlen]
    constructor
    · intro h
      cases h
    · intro h
      omega
  · have hle : 4 ≤ data.length := Nat.not_lt.mp hlen
    simp only [if_neg hlen, hid, hle, true_and, ← Stores.upsertRequest_eq_ok, Stores.upsertRequest]
    cases docId (jsonRequest parse data) with
    | none => simp
    | some i =>
      simp only
      cases sm.vectorDatabase.stores.upsert .ok i (jsonRequest parse data)
        (getIndexTypeFromRequest (jsonRequest parse data)) with
      | error e => simp
      | ok u => simp [eq_comm (b := r)]

end

/-- Configuration entries only move the index. -/
def commitConfig (sm : LogStateMachine F) (logIdx : Nat) : LogStateMachine F := { sm with lastCommittedIdx := logIdx }

end LogStateMachine

/-! ## Stored documents -/

namespace Stores

theorem document_fresh (dim : Nat) (id : UInt64) : (fresh dim : Stores F).document id = .null := by
  simp [document, fresh, ScalarStorage.getScalar, ScalarStorage.empty]

variable [CFloat F]

/-- Every stored document has a readable vector. -/
def VectorsReadable (s : Stores F) : Prop :=
  ∀ id, (s.document id).isObject = true → (readVector F (s.document id)).isSome = true

theorem vectorsReadable_upserted {s : Stores F} (h : s.VectorsReadable) {id : UInt64} {d : Json} {v u : List F}
    (hv : readVector F d = some u) (t : IndexType) : (s.upserted id d v t).VectorsReadable := by
  intro i hi
  rw [document_upserted] at hi ⊢
  split
  · rw [hv]
    rfl
  · rename_i hne
    rw [if_neg hne] at hi
    exact h i hi

theorem vectorsReadable_run {dim : Nat} {as : List UpsertArgs} {s : Stores F}
    (h : Run UpsertStep (fresh dim) as s) : s.VectorsReadable := by
  refine h.invariant (fun id hid => ?_) fun t a u ht hu => ?_
  · rw [document_fresh] at hid
    cases hid
  · obtain ⟨v, hl, rfl⟩ := upsert_eq_ok.mp hu
    exact vectorsReadable_upserted ht hl.vector _

theorem dim_run {dim : Nat} {as : List UpsertArgs} {s : Stores F} (h : Run UpsertStep (fresh dim) as s)
    (t : IndexType) : s.indexes.dim t ≤ dim := by
  refine Run.invariant (I := fun s => s.indexes.dim t ≤ dim) ?_ (fun u a w hu hw => ?_) h
  · cases t <;> simp [fresh, IndexFactory.init, IndexFactory.dim]
  · obtain ⟨v, -, rfl⟩ := upsert_eq_ok.mp hw
    rw [dim_upserted]
    exact hu

end Stores

namespace LogStateMachine
variable [CFloat F] (parse : Bytes → Option Json)

theorem readable_of_commit {sm : LogStateMachine F} {data : Bytes} {doc : Json}
    (hdoc : parse (cstr (data.drop 4)) = some doc) {id : UInt64}
    (hid : (doc.member? requestId).bind Json.uint64? = some id) {logIdx : Nat} {r : LogStateMachine F × Bytes}
    (h : commit parse .ok sm logIdx data = .ok r) : Readable (sm.vectorDatabase.stores.document id) doc := by
  have hreq : jsonRequest parse data = doc := by rw [jsonRequest, hdoc, Option.getD_some]
  simp only [commit, hreq, hid] at h
  split at h
  · cases h
  · split at h
    · cases h
    · rename_i hup
      obtain ⟨_, hl, -⟩ := Stores.upsert_eq_ok.mp hup
      exact hl.fields

/-- **When an entry can be committed.** In a state reached by upserts, the commit of an entry that is well typed
by itself completes exactly when the stored document of its id, if there is one, holds each 32-bit integer field of
the new document as an integer. -/
theorem commit_completes_iff {dim : Nat} {as : List UpsertArgs} {sm : LogStateMachine F}
    (hrun : Run UpsertStep (Stores.fresh dim) as sm.vectorDatabase.stores) {data : Bytes} (hdata : 4 ≤ data.length)
    {doc : Json} (hdoc : parse (cstr (data.drop 4)) = some doc) {id : UInt64}
    (hid : (doc.member? requestId).bind Json.uint64? = some id) {v : List F} (hv : readVector F doc = some v)
    (hlen : v.length = dim) (logIdx : Nat) :
    (∃ r, commit parse .ok sm logIdx data = .ok r) ↔ Readable (sm.vectorDatabase.stores.document id) doc := by
  refine ⟨fun ⟨_, hr⟩ => readable_of_commit parse hdoc hid hr, fun hread => ?_⟩
  have hreq : jsonRequest parse data = doc := by rw [jsonRequest, hdoc, Option.getD_some]
  have hl : sm.vectorDatabase.stores.Legal id doc v (getIndexTypeFromRequest doc) :=
    ⟨Stores.vectorsReadable_run hrun id, hv, hlen ▸ Stores.dim_run hrun _, hread⟩
  simp only [commit, if_neg (Nat.not_lt.mpr hdata), hreq, hid, Stores.upsert_eq_ok.mpr ⟨v, hl, rfl⟩]
  exact ⟨_, rfl⟩

end LogStateMachine

/-! ## A field that the stored document lacks -/

namespace LogStateMachine

/-- Id 1 with `f = 5`, as a request body. -/
def newFieldBody : Bytes := ascii "\x7b\"id\":1,\"vectors\":[0],\"indexType\":\"FLAT\",\"f\":5\x7d"

def newFieldDoc : Json := flatDocument 1 0 [(ascii "f", .int 5)]

def newFieldParser : Bytes → Option Json := tableParser [(newFieldBody, newFieldDoc)]

theorem intFields_newFieldDoc : intFields newFieldDoc = [(ascii "f", 5)] := by rfl

theorem wellNamed_newFieldDoc : WellNamed newFieldDoc := by
  intro f v h
  rw [intFields_newFieldDoc, List.mem_singleton, Prod.mk.injEq] at h
  obtain ⟨rfl, rfl⟩ := h
  rfl

/-- A node with these stores and empty files. -/
def ofStores (stores : Stores Number) : LogStateMachine Number :=
  ⟨10, stores, Persistence.init [] none, ⟨none, none, none⟩⟩

/-- Id 1 is stored with another `f`. -/
theorem commit_completes_iff_stored :
    ∃ r, commit newFieldParser .ok (ofStores Stores.storedWithField) 12 (leBytes 4 47 ++ newFieldBody) = .ok r := by
  have hread : Readable ((ofStores Stores.storedWithField).vectorDatabase.stores.document 1) newFieldDoc := by decide +kernel
  exact (commit_completes_iff newFieldParser (Run.single Stores.upsertStep_withField) (by decide) (by rfl) (by rfl)
    (by rfl : readVector Number newFieldDoc = some [.int 0]) rfl 12).mpr hread

/-- The entry is well typed, but the stored document of id 1 has no `f`. -/
theorem commit_fails_on_new_field : ¬ ∀ (as : List UpsertArgs) (sm : LogStateMachine Number) (data : Bytes)
    (doc : Json) (id : UInt64) (v : List Number), Run UpsertStep (Stores.fresh 1) as sm.vectorDatabase.stores →
    4 ≤ data.length → newFieldParser (cstr (data.drop 4)) = some doc →
    (doc.member? requestId).bind Json.uint64? = some id → readVector Number doc = some v → v.length = 1 →
    getIndexTypeFromRequest doc = .flat → ∃ r, commit newFieldParser .ok sm 12 data = .ok r := by
  intro h
  let s₁ : Stores Number := (Stores.fresh 1).upserted 1 Stores.withoutField.data [.int 0] .flat
  have h₁ : UpsertStep (Stores.fresh 1) Stores.withoutField s₁ :=
    Stores.upsert_eq_ok.mpr ⟨[.int 0], ⟨by decide, by rfl, by decide, by decide⟩, rfl⟩
  obtain ⟨r, hr⟩ := h [Stores.withoutField] (ofStores s₁) (leBytes 4 47 ++ newFieldBody) newFieldDoc 1 [.int 0]
    (Run.single h₁) (by decide) (by rfl) (by rfl) (by rfl) rfl (by decide)
  have hread : Readable (s₁.document 1) newFieldDoc := readable_of_commit newFieldParser (by rfl) (by rfl) hr
  exact absurd hread (by decide +kernel)

end LogStateMachine
end VectorDb
