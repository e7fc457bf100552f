import VectorDb.StateMachine

/-!
# `HttpServer` and `RaftStuff`: from a request body to a log entry

* `BufferSerializer` : how NuRaft frames a string;
* `RaftStuff.appendEntries` : a body is framed;
* `HttpServer.upsertHandler` : the checks of `/upsert`, and the entry it hands to Raft;
* `HttpServer.insertHandler` : the checks of `/insert`, and the index it writes;
* `upsertHandler_accepts`, `upsertHandler_eq_ok`, `insertHandler_eq_ok` : what an accepted body is, and what is
  answered.
-/

namespace VectorDb

/-- NuRaft's `buffer_serializer`: `put_str` writes four bytes for the length, and the string. -/
structure BufferSerializer where
  putStr : Bytes → Bytes
  length_putStr : ∀ s, (putStr s).length = 4 + s.length
  drop_putStr : ∀ s, (putStr s).drop 4 = s

/-- The length in four bytes, the lowest first. -/
def lengthPrefix : BufferSerializer where
  putStr s := leBytes 4 s.length ++ s
  length_putStr s := by rw [List.length_append, leBytes_length]
  drop_putStr s := List.drop_left' (leBytes_length 4 _)

namespace RaftStuff

/-- The payload handed to Raft. `isLeader` is `none` where there is no Raft instance. -/
def appendEntries (S : BufferSerializer) (isLeader : Option Bool) (entry : Bytes) : Option Bytes :=
  match isLeader with
  | some true => some (S.putStr entry)
  | _ => none

end RaftStuff

namespace HttpServer

inductive CheckType where
  | search
  | insert
  | upsert

structure Response where
  status : Nat
  body : Json

/-- The `retCode` of a response. -/
def Response.retCode (res : Response) : Option Int :=
  match res.body.member? (ascii "retCode") with
  | some (.num (.int n)) => some n
  | _ => none

def setErrorJsonResponse (errorCode : Int) (errorMsg : Bytes) : Json :=
  .obj [(ascii "retCode", .int errorCode), (ascii "errorMsg", .str errorMsg)]

def badRequest (errorMsg : Bytes) : Response := ⟨400, setErrorJsonResponse (-1) errorMsg⟩

def success (ms : List (Bytes × Json)) : Response := ⟨200, .obj (ms ++ [(ascii "retCode", .int 0)])⟩

/-- An index type, where there is one, is a string. -/
def indexTypeValid (jsonRequest : Json) : Bool :=
  match jsonRequest.member? requestIndexType with
  | none => true
  | some v => v.string?.isSome

def isRequestValid (jsonRequest : Json) : CheckType → Bool
  | .search => jsonRequest.hasMember requestVectors && jsonRequest.hasMember requestK && indexTypeValid jsonRequest
  | .insert => jsonRequest.hasMember requestVectors && jsonRequest.hasMember requestId && indexTypeValid jsonRequest
  | .upsert => jsonRequest.hasMember requestVectors && jsonRequest.hasMember requestId && indexTypeValid jsonRequest

def getIndexTypeFromRequest (jsonRequest : Json) : IndexType := VectorDb.getIndexTypeFromRequest jsonRequest

theorem retCode_badRequest (errorMsg : Bytes) : (badRequest errorMsg).retCode = some (-1) := by
  have h : (badRequest errorMsg).body.member? (ascii "retCode") = some (.int (-1)) := by
    simp [badRequest, setErrorJsonResponse, Json.member?]
  rw [Response.retCode, h]

theorem retCode_success_nil : (success []).retCode = some 0 := by
  have h : (success []).body.member? (ascii "retCode") = some (.int 0) := by
    simp [success, Json.member?]
  rw [Response.retCode, h]

variable (parse : Bytes → Option Json)

/-- The document of a request body. -/
def jsonRequest (body : Bytes) : Json := (parse (cstr body)).getD .null

/-- What a commit parses of a framed body. -/
theorem jsonRequest_putStr (S : BufferSerializer) (body : Bytes) :
    LogStateMachine.jsonRequest parse (S.putStr body) = jsonRequest parse body := by
  rw [LogStateMachine.jsonRequest, S.drop_putStr, jsonRequest]

/-- The response, and the payload that Raft took. -/
def upsertHandler (S : BufferSerializer) (isLeader : Option Bool) (body : Bytes) : Except Fault (Response × Option Bytes) :=
  let jsonRequest := (parse (cstr body)).getD .null
  if ¬ jsonRequest.isObject then .ok (badRequest (ascii "Invalid JSON request"), none)
  else if ¬ isRequestValid jsonRequest .upsert then
    .ok (badRequest (ascii "Missing vectors or id parameter in the request"), none)
  else
    match (jsonRequest.member? requestId).bind Json.uint64? with
    | none => .error .assertion
    | some _ => .ok (success [], RaftStuff.appendEntries S isLeader body)

/-- A body that reaches Raft is an object, and is framed as it came. -/
theorem upsertHandler_accepts {S : BufferSerializer} {isLeader : Option Bool} {body payload : Bytes} {res : Response}
    (h : upsertHandler parse S isLeader body = .ok (res, some payload)) :
    payload = S.putStr body ∧ ∃ doc, parse (cstr body) = some doc ∧ doc.isObject = true := by
  simp only [upsertHandler] at h
  split at h
  · cases h
  · rename_i hobj
    split at h
    · cases h
    · split at h
      · cases h
      · simp only [Except.ok.injEq, Prod.mk.injEq] at h
        obtain ⟨-, hp⟩ := h
        constructor
        · cases isLeader with
          | none => cases hp
          | some b =>
            cases b
            · cases hp
            · exact (Option.some.inj hp).symm
        · cases hd : parse (cstr body) with
          | none => simp [hd, Json.isObject] at hobj
          | some doc => exact ⟨doc, rfl, by simpa [hd] using hobj⟩

/-- The body has passed the checks of `/upsert`. -/
def UpsertValid (body : Bytes) : Prop :=
  (jsonRequest parse body).isObject = true ∧ isRequestValid (jsonRequest parse body) .upsert = true

/-- **What `/upsert` answers**: an error to a body that fails a check; else success, whatever Raft does. -/
theorem upsertHandler_eq_ok {S : BufferSerializer} {isLeader : Option Bool} {body : Bytes} {r : Response × Option Bytes}
    (h : upsertHandler parse S isLeader body = .ok r) :
    (¬ UpsertValid parse body ∧ r.1.retCode = some (-1) ∧ r.2 = none) ∨
      (UpsertValid parse body ∧ r = (success [], RaftStuff.appendEntries S isLeader body)) := by
  unfold upsertHandler at h
  simp only [← jsonRequest.eq_def] at h
  split at h
  · rename_i hobj
    cases h
    exact Or.inl ⟨fun hv => hobj hv.1, retCode_badRequest _, rfl⟩
  · rename_i hobj
    split at h
    · rename_i hval
      cases h
      exact Or.inl ⟨fun hv => hval hv.2, retCode_badRequest _, rfl⟩
    · rename_i hval
      split at h
      · cases h
      · cases h
        exact Or.inr ⟨⟨by simpa using hobj, by simpa using hval⟩, rfl⟩

section
variable {F : Type} [CFloat F]

/-- The response, and the indexes afterwards. Nothing is handed to Raft. -/
def insertHandler (st : LibStatus) (indexes : IndexFactory F) (body : Bytes) :
    Except Fault (Response × IndexFactory F) :=
  let jsonRequest := jsonRequest parse body
  if ¬ jsonRequest.isObject then .ok (badRequest (ascii "Invalid JSON request"), indexes)
  else if ¬ isRequestValid jsonRequest .insert then
    .ok (badRequest (ascii "Missing vectors or k parameter in the request"), indexes)
  else
    match readVector F jsonRequest, (jsonRequest.member? requestId).bind Json.uint64? with
    | some data, some label =>
      match getIndexTypeFromRequest jsonRequest with
      | .unknown => .ok (badRequest (ascii "Invalid indexType parameter in the request"), indexes)
      | .flat => (indexes.flat.insertVectors data label).map fun flat => (success [], { indexes with flat })
      | .hnsw => (indexes.hnsw.insertVectors st.addPoint data label).map fun hnsw => (success [], { indexes with hnsw })
      | .filter => .ok (success [], indexes)
    | _, _ => .error .assertion

/-- The body has passed the checks of `/insert`. -/
def InsertValid (body : Bytes) : Prop :=
  (jsonRequest parse body).isObject = true ∧ isRequestValid (jsonRequest parse body) .insert = true ∧
    getIndexTypeFromRequest (jsonRequest parse body) ≠ .unknown

theorem getIndexTypeFromRequest_ne_filter (d : Json) : VectorDb.getIndexTypeFromRequest d ≠ .filter := by
  unfold VectorDb.getIndexTypeFromRequest
  split
  · split
    · decide
    · split <;> decide
  · decide

/-- **What `/insert` answers**: an error to a body that fails a check; else success, and the index that the body names
has the vector. -/
theorem insertHandler_eq_ok {st : LibStatus} {ixs : IndexFactory F} {body : Bytes} {r : Response × IndexFactory F}
    (h : insertHandler parse st ixs body = .ok r) :
    (¬ InsertValid parse body ∧ r.1.retCode = some (-1) ∧ r.2 = ixs) ∨
      (InsertValid parse body ∧ r.1 = success [] ∧ ∃ v id, readVector F (jsonRequest parse body) = some v ∧
        ((jsonRequest parse body).member? requestId).bind Json.uint64? = some id ∧
        r.2 = ixs.inserted id v (getIndexTypeFromRequest (jsonRequest parse body))) := by
  unfold insertHandler at h
  simp only at h
  split at h
  · rename_i hobj
    cases h
    exact Or.inl ⟨fun hv => hobj hv.1, retCode_badRequest _, rfl⟩
  · rename_i hobj
    split at h
    · rename_i hval
      cases h
      exact Or.inl ⟨fun hv => hval hv.2.1, retCode_badRequest _, rfl⟩
    · rename_i hval
      have hobj' : (jsonRequest parse body).isObject = true := by simpa using hobj
      have hval' : isRequestValid (jsonRequest parse body) .insert = true := by simpa using hval
      split at h
      · rename_i v id hv hid
        split at h
        · rename_i ht
          cases h
          exact Or.inl ⟨fun hc => hc.2.2 ht, retCode_badRequest _, rfl⟩
        · rename_i ht
          obtain ⟨flat, hflat, rfl⟩ := map_eq_ok.mp h
          obtain ⟨-, rfl⟩ := FaissIndex.insertVectors_eq_ok.mp hflat
          exact Or.inr ⟨⟨hobj', hval', by rw [ht]; decide⟩, rfl, v, id, hv, hid, by rw [ht]; rfl⟩
        · rename_i ht
          obtain ⟨hnsw, hhnsw, rfl⟩ := map_eq_ok.mp h
          obtain ⟨-, -, rfl⟩ := HNSWLibIndex.insertVectors_eq_ok.mp hhnsw
          exact Or.inr ⟨⟨hobj', hval', by rw [ht]; decide⟩, rfl, v, id, hv, hid, by rw [ht]; rfl⟩
        · rename_i ht
          exact absurd ht (getIndexTypeFromRequest_ne_filter _)
      · cases h

end

end HttpServer
end VectorDb
