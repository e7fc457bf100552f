import VectorDb.Lib.Json

/-!
# Names and failures shared by the components

* the request members of `constants.h`;
* `Fault` : how a call can end other than by returning;
* `LibStatus` : what RocksDB and hnswlib answer during one call.
-/

namespace VectorDb

/-! ## `constants.h` -/

def requestVectors : Bytes := ascii "vectors"
def requestK : Bytes := ascii "k"
def requestId : Bytes := ascii "id"
def requestIndexType : Bytes := ascii "indexType"
def indexTypeFlat : Bytes := ascii "FLAT"
def indexTypeHnsw : Bytes := ascii "HNSW"

/-! ## Failures -/

/-- How a call can fail. -/
inductive Fault where
  /-- `RAPIDJSON_ASSERT` failed: the process aborts. -/
  | assertion
  /-- A library reads past the end of a vector. -/
  | outOfBounds
  /-- An exception of `std::stoull` or `std::stol`. -/
  | sto (e : StoError)
  /-- A CRoaring call got a null pointer. -/
  | nullPointer
  /-- `std::length_error` of a string cut out of a payload shorter than its prefix. -/
  | lengthError
  /-- hnswlib's `runtime_error` of a full index. -/
  | indexFull
  /-- An integer division by zero. -/
  | divisionByZero
  /-- A number of neighbours that `std::vector` or Faiss refuses. -/
  | badCount
  /-- A product of `int`s out of range: what happens is undefined. -/
  | overflow
  deriving DecidableEq, Repr

theorem map_eq_ok {ε α β : Type} {f : α → β} {e : Except ε α} {b : β} :
    e.map f = .ok b ↔ ∃ a, e = .ok a ∧ f a = b := by
  cases e <;> simp [Except.map]

theorem bind_eq_ok {ε α β : Type} {e : Except ε α} {f : α → Except ε β} {b : β} :
    (e >>= f) = .ok b ↔ ∃ a, e = .ok a ∧ f a = .ok b := by
  cases e <;> simp [bind, Except.bind]

/-- Whether the library calls of one operation succeed: RocksDB `Get` and `Put` return an ok status, and
hnswlib's `addPoint` finds room. -/
structure LibStatus where
  get : Bool
  put : Bool
  addPoint : Bool
  deriving DecidableEq, Repr

def LibStatus.ok : LibStatus := ⟨true, true, true⟩

end VectorDb
