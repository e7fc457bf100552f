import VectorDb.HttpServer

/-!
# `VectorDatabase::search` and `/search`

* `RoaringBitmapIDSelector.isMember`, `RoaringBitmapIDFilter.call` : the membership tests that Faiss and hnswlib
  make; both cut an id to 32 bits (`isMember_toInt64`);
* `SearchLibs` : the searches of Faiss and hnswlib themselves;
* `FaissIndex.searchVectors`, `HNSWLibIndex.searchVectors`, `VectorDatabase.search`, `HttpServer.searchHandler` : from
  the request to the response.
-/

namespace VectorDb

variable {F : Type}

/-! ## Membership -/

/-- `roaring_bitmap_contains(bitmap_, static_cast<uint32_t>(id))`. -/
def RoaringBitmapIDSelector.isMember (bitmap : Finset UInt32) (id : Int64) : Bool := decide (id.toUInt64.toUInt32 ∈ bitmap)

def RoaringBitmapIDFilter.call (bitmap : Finset UInt32) (label : UInt64) : Bool := decide (label.toUInt32 ∈ bitmap)

/-- The two tests agree on the id that was inserted. -/
theorem isMember_toInt64 (bitmap : Finset UInt32) (id : UInt64) :
    RoaringBitmapIDSelector.isMember bitmap id.toInt64 = RoaringBitmapIDFilter.call bitmap id := by
  rw [RoaringBitmapIDSelector.isMember, RoaringBitmapIDFilter.call, UInt64.toUInt64_toInt64]

/-! ## The two indexes -/

/-- Faiss answers `n` queries with `k` labels and distances each, hnswlib one query with the points it pops; a float
of a response is written as a number. -/
structure SearchLibs (F : Type) where
  faissSearch : FaissIndex F → Nat → List F → Nat → Option (Int64 → Bool) → List (Int64 × F)
  searchKnn : HNSWLibIndex F → List F → Int → Option (UInt64 → Bool) → List (UInt64 × F)
  toNumber : F → Number

def FaissIndex.searchVectors (L : SearchLibs F) (ix : FaissIndex F) (query : List F) (k : Int)
    (bitmap : Option (Finset UInt32)) : Except Fault (List (Int64 × F)) :=
  if ix.d = 0 then .error .divisionByZero
  else if k ≤ 0 then .error .badCount
  -- `num_queries * k` is an `int`
  else if 2 ^ 31 ≤ ((query.length / ix.d : Nat) : Int) * k then .error .overflow
  else .ok (L.faissSearch ix (query.length / ix.d) query k.toNat (bitmap.map RoaringBitmapIDSelector.isMember))

def HNSWLibIndex.searchVectors (L : SearchLibs F) (ix : HNSWLibIndex F) (query : List F) (k : Int)
    (bitmap : Option (Finset UInt32)) : Except Fault (List (Int64 × F)) :=
  if query.length < ix.d then .error .outOfBounds
  else .ok ((L.searchKnn ix query k (bitmap.map RoaringBitmapIDFilter.call)).map fun r => (r.1.toInt64, r.2))

/-! ## The request -/

def requestFilter : Bytes := ascii "filter"
def filterFieldName : Bytes := ascii "fieldName"
def filterOp : Bytes := ascii "op"
def filterValue : Bytes := ascii "value"

/-- A `std::string` made from a `char*`. -/
def Json.cstring? (d : Json) (name : Bytes) : Option Bytes := ((d.member? name).bind Json.string?).map cstr

/-- Every operation but `"="` is the other one. -/
def operationOf (opStr : Bytes) : Operation := if opStr = ascii "=" then .equal else .notEqual

/-- The ids that pass the filter of a request, where it has one. -/
def filterBitmap (filterIndex : FilterIndex) (jsonRequest : Json) : Except Fault (Option (Finset UInt32)) :=
  match jsonRequest.member? requestFilter with
  | none => .ok none
  | some filter =>
    if filter.isObject then
      match filter.cstring? filterFieldName, filter.cstring? filterOp, filter.memberInt64? filterValue with
      | some fieldName, some opStr, some value =>
        .ok (some (filterIndex.getIntFieldFilterBitmap fieldName (operationOf opStr) value ∅))
      | _, _, _ => .error .assertion
    else .ok none

variable [CFloat F] (L : SearchLibs F)

def VectorDatabase.search (db : VectorDatabase F) (jsonRequest : Json) : Except Fault (List (Int64 × F)) :=
  match readVector F jsonRequest, (jsonRequest.member? requestK).bind Json.int32? with
  | some query, some k =>
    match filterBitmap db.stores.indexes.filter jsonRequest with
    | .error e => .error e
    | .ok bitmap =>
      match getIndexTypeFromRequest jsonRequest with
      | .flat => db.stores.indexes.flat.searchVectors L query k bitmap
      | .hnsw => db.stores.indexes.hnsw.searchVectors L query k bitmap
      | _ => .ok []
  | _, _ => .error .assertion

namespace HttpServer

/-- The members of a search response, from the results that are not padding. -/
def searchMembers (results : List (Int64 × F)) : List (Bytes × Json) :=
  let valid := results.filter fun r => r.1 ≠ -1
  if valid = [] then []
  else [(ascii "vectors", .arr (valid.map fun r => .int r.1.toInt)), (ascii "distances", .arr (valid.map fun r => .num (L.toNumber r.2)))]

def searchHandler (parse : Bytes → Option Json) (db : VectorDatabase F) (body : Bytes) : Except Fault Response :=
  let jsonRequest := (parse (cstr body)).getD .null
  if ¬ jsonRequest.isObject then .ok (badRequest (ascii "Invalid JSON request"))
  else if ¬ isRequestValid jsonRequest .search then
    .ok (badRequest (ascii "Missing vectors or k parameter in the request"))
  else
    match readVector F jsonRequest, (jsonRequest.member? requestK).bind Json.int32? with
    | some _, some _ =>
      if getIndexTypeFromRequest jsonRequest = .unknown then
        .ok (badRequest (ascii "Invalid indexType parameter in the request"))
      else (db.search L jsonRequest).map fun results => success (searchMembers L results)
    | _, _ => .error .assertion

end HttpServer
end VectorDb
