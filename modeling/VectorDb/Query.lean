import VectorDb.HttpServer
import VectorDb.VectorRestart

/-!
# `/query`

* `VectorDatabase.query`, `HttpServer.queryHandler` : the stored document of an id, and the answer made of its members;
* `HttpServer.queryHandler_eq` : what is answered, from the stored document;
* `answerTo`, `Node.Stored.queryHandler_eq` : what a node answers to any body, from the documents that it has applied.
-/

namespace VectorDb

variable {F : Type}

def VectorDatabase.query (getOk : Bool) (db : VectorDatabase F) (id : UInt64) : Json :=
  db.stores.scalarStorage.getScalar getOk id

namespace HttpServer
variable (parse : Bytes → Option Json)

/-- The members of a stored value; one that is neither null nor an object has none to iterate over. -/
def queryHandler (getOk : Bool) (db : VectorDatabase F) (body : Bytes) : Except Fault Response :=
  let jsonRequest := jsonRequest parse body
  if ¬ jsonRequest.isObject then .ok (badRequest (ascii "Invalid JSON request"))
  else
    match (jsonRequest.member? requestId).bind Json.uint64? with
    | none => .error .assertion
    | some id =>
      match db.query getOk id with
      | .null => .ok (success [])
      | .obj ms => .ok (success ms)
      | _ => .error .assertion

/-- The answer that shows a document, where there is one. -/
def answerOf (doc : Option Json) : Response := success ((doc.getD .null).members)

/-- The answer to a body, after these documents. -/
def answerTo (ds : List Json) (body : Bytes) : Except Fault Response :=
  let jsonRequest := jsonRequest parse body
  if ¬ jsonRequest.isObject then .ok (badRequest (ascii "Invalid JSON request"))
  else
    match (jsonRequest.member? requestId).bind Json.uint64? with
    | none => .error .assertion
    | some id => .ok (answerOf (lastDoc id ds))

variable {parse}

theorem answerOf_obj {doc : Option Json} (hall : ∀ d, doc = some d → d.isObject = true) :
    doc.getD .null = .null ∧ answerOf doc = success [] ∨
      ∃ ms, doc.getD .null = .obj ms ∧ answerOf doc = success ms := by
  cases doc with
  | none => exact Or.inl ⟨rfl, rfl⟩
  | some d =>
    have hd := hall d rfl
    cases d with
    | obj ms => exact Or.inr ⟨ms, rfl, rfl⟩
    | null => cases hd
    | bool b => cases hd
    | num n => cases hd
    | str s => cases hd
    | arr xs => cases hd

/-- Stores with the last documents, all of them objects. -/
theorem queryHandler_eq {db : VectorDatabase F} {ds : List Json}
    (hdoc : ∀ id, db.stores.document id = (lastDoc id ds).getD .null) (hall : ∀ d ∈ ds, d.isObject = true) (body : Bytes) :
    queryHandler parse true db body = answerTo parse ds body := by
  unfold queryHandler answerTo
  dsimp only
  split
  · rfl
  · cases ((jsonRequest parse body).member? requestId).bind Json.uint64? with
    | none => rfl
    | some id =>
      have hquery : db.query true id = (lastDoc id ds).getD .null := hdoc id
      dsimp only
      rw [hquery]
      rcases answerOf_obj fun d hd => hall d (lastDoc_mem hd).1 with ⟨hnull, hans⟩ | ⟨ms, hobj, hans⟩
      · rw [hnull, hans]
      · rw [hobj, hans]

end HttpServer

namespace Node
variable [CFloat F] {R : RoaringFormat} {dim : Nat} {parse : Bytes → Option Json} {s : Node F}

/-- What a node that holds the applied documents answers. -/
theorem Stored.queryHandler_eq (h : Stored dim parse s) (body : Bytes) :
    HttpServer.queryHandler parse true s.db body =
      HttpServer.answerTo parse ((s.appliedDocs parse).map Prod.snd) body :=
  HttpServer.queryHandler_eq h.holds.document (fun _ hd => h.holds.legal.isObject hd) body

end Node
end VectorDb
