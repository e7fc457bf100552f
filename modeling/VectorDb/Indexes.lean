import VectorDb.FilterFormat

/-!
# The indexes of one process, their files, and the scalar store

* `FaissIndex` : an `IndexIDMap` over an `IndexFlat`; an add appends an entry, a removal takes out every entry
  with one of the ids;
* `HNSWLibIndex` : hnswlib's map from labels to vectors; adding a known label replaces its vector;
* `ScalarStorage` : RocksDB, with the documents by id and the other keys apart;
* `IndexFactory.saveIndex`, `loadIndex` : FLAT, then HNSW, then FILTER; the first two are files, the third is a
  key of the scalar store.
-/

namespace VectorDb
open Std (ExtTreeMap)

variable {F : Type}

/-! ## FLAT -/

structure FaissIndex (F : Type) where
  d : Nat
  entries : List (Int64 × List F)

namespace FaissIndex

/-- `add_with_ids(1, data.data(), &id)` copies `d` floats. -/
def insertVectors (ix : FaissIndex F) (data : List F) (label : UInt64) : Except Fault (FaissIndex F) :=
  if data.length < ix.d then .error .outOfBounds
  else .ok { ix with entries := ix.entries ++ [(label.toInt64, data.take ix.d)] }

def removeVectors (ix : FaissIndex F) (ids : List Int64) : FaissIndex F :=
  { ix with entries := ix.entries.filter fun e => e.1 ∉ ids }

/-- The vectors stored under an id. -/
def vectorsOf (ix : FaissIndex F) (id : UInt64) : List (List F) :=
  (ix.entries.filter fun e => e.1 = id.toInt64).map Prod.snd

theorem toInt64_inj {a b : UInt64} : a.toInt64 = b.toInt64 ↔ a = b :=
  ⟨fun h => by simpa using congrArg Int64.toUInt64 h, congrArg _⟩

theorem insertVectors_eq_ok {ix ix' : FaissIndex F} {data : List F} {label : UInt64} :
    ix.insertVectors data label = .ok ix' ↔
      ix.d ≤ data.length ∧ ix' = { ix with entries := ix.entries ++ [(label.toInt64, data.take ix.d)] } := by
  unfold insertVectors
  split
  · simp; omega
  · simp only [Except.ok.injEq, eq_comm (a := ix')]
    exact ⟨fun h => ⟨by omega, h⟩, And.right⟩

theorem vectorsOf_append (ix : FaissIndex F) (l id : UInt64) (v : List F) :
    vectorsOf { ix with entries := ix.entries ++ [(l.toInt64, v)] } id =
      ix.vectorsOf id ++ if id = l then [v] else [] := by
  unfold vectorsOf
  rw [List.filter_append, List.map_append]
  by_cases h : id = l
  · subst h
    simp
  · have h' : l.toInt64 ≠ id.toInt64 := fun he => h (toInt64_inj.mp he).symm
    simp [h, h']

theorem vectorsOf_removeVectors (ix : FaissIndex F) (l id : UInt64) :
    (ix.removeVectors [l.toInt64]).vectorsOf id = if id = l then [] else ix.vectorsOf id := by
  unfold vectorsOf removeVectors
  rw [List.filter_filter]
  by_cases h : id = l
  · subst h
    simp
  · have h' : id.toInt64 ≠ l.toInt64 := fun he => h (toInt64_inj.mp he)
    rw [if_neg h]
    congr 1
    refine List.filter_congr fun e _ => ?_
    by_cases he : e.1 = id.toInt64
    · simp [he, h']
    · simp [he]

end FaissIndex

/-! ## HNSW -/

structure HNSWLibIndex (F : Type) where
  d : Nat
  points : ExtTreeMap UInt64 (List F)

namespace HNSWLibIndex

/-- `addPoint`; a new label needs room. -/
def insertVectors (hasRoom : Bool) (ix : HNSWLibIndex F) (data : List F) (label : UInt64) :
    Except Fault (HNSWLibIndex F) :=
  if data.length < ix.d then .error .outOfBounds
  else if label ∈ ix.points ∨ hasRoom = true then .ok { ix with points := ix.points.insert label (data.take ix.d) }
  else .error .indexFull

theorem insertVectors_eq_ok {hasRoom : Bool} {ix ix' : HNSWLibIndex F} {data : List F} {label : UInt64} :
    ix.insertVectors hasRoom data label = .ok ix' ↔
      ix.d ≤ data.length ∧ (label ∈ ix.points ∨ hasRoom = true) ∧
        ix' = { ix with points := ix.points.insert label (data.take ix.d) } := by
  unfold insertVectors
  split
  · simp; omega
  · rename_i hd
    split
    · rename_i hr
      simp only [Except.ok.injEq, eq_comm (a := ix')]
      exact ⟨fun h => ⟨by omega, hr, h⟩, fun h => h.2.2⟩
    · rename_i hr
      simp only [hr, false_and, and_false, reduceCtorEq]

end HNSWLibIndex

/-! ## RocksDB -/

/-- The documents are kept as the text RapidJSON writes, under the decimal id; a text that was written parses
back to the document. The other keys are not numerals. -/
structure ScalarStorage where
  docs : ExtTreeMap UInt64 Json
  blobs : ExtTreeMap Bytes Bytes

namespace ScalarStorage

def empty : ScalarStorage := ⟨∅, ∅⟩

/-- A failed `Put` is only logged. -/
def insertScalar (putOk : Bool) (s : ScalarStorage) (id : UInt64) (data : Json) : ScalarStorage :=
  if putOk then { s with docs := s.docs.insert id data } else s

/-- A failed `Get` and an absent key both return an empty document. -/
def getScalar (getOk : Bool) (s : ScalarStorage) (id : UInt64) : Json :=
  if getOk then (s.docs[id]?).getD .null else .null

def put (putOk : Bool) (s : ScalarStorage) (key value : Bytes) : ScalarStorage :=
  if putOk then { s with blobs := s.blobs.insert key value } else s

def get (getOk : Bool) (s : ScalarStorage) (key : Bytes) : Bytes :=
  if getOk then (s.blobs[key]?).getD [] else []

/-- A document that is stored already changes nothing. -/
theorem insertScalar_of_stored {s : ScalarStorage} {id : UInt64} {d : Json} (h : s.docs[id]? = some d) (putOk : Bool) :
    s.insertScalar putOk id d = s := by
  have hdocs : s.docs.insert id d = s.docs := by
    apply ExtTreeMap.ext_getElem?
    intro i
    rw [ExtTreeMap.getElem?_insert]
    split
    · rename_i hi
      rw [← Std.compare_eq_iff_eq.mp hi, h]
    · rfl
  unfold insertScalar
  rw [hdocs]
  cases putOk <;> rfl

end ScalarStorage

/-! ## The factory -/

inductive IndexType where
  | flat
  | hnsw
  | filter
  | unknown
  deriving DecidableEq, Repr

/-- The global `IndexFactory` after the three `init` calls of `main`. -/
structure IndexFactory (F : Type) where
  flat : FaissIndex F
  hnsw : HNSWLibIndex F
  filter : FilterIndex

/-- The files of a snapshot, where they exist: `snapshots_0.index`, `snapshots_1.index` and
`snapshots_MaxLogID`. -/
structure SnapshotFiles (F : Type) where
  flat : Option (FaissIndex F)
  hnsw : Option (HNSWLibIndex F)
  maxLogID : Option Nat

namespace IndexFactory

/-- Fresh indexes of dimension `dim`. -/
def init (dim : Nat) : IndexFactory F := ⟨⟨dim, []⟩, ⟨dim, ∅⟩, FilterIndex.empty⟩

/-- The key of the saved `FilterIndex`. -/
def filterPath : Bytes := ascii "snapshots_2.index"

/-- `FaissIndex::loadIndex` and `HNSWLibIndex::loadIndex` skip an absent file; an absent key is an empty text. The
null pointers of the filter index are returned beside its bitmaps. -/
def loadIndex (R : RoaringFormat) (getOk : Bool) (ixs : IndexFactory F) (files : SnapshotFiles F)
    (store : ScalarStorage) : Except Fault (IndexFactory F × Finset (Bytes × Int64)) :=
  match ixs.filter.deserializeIntFieldFilter R (store.get getOk filterPath) with
  | .error f => .error f
  | .ok l => .ok (⟨files.flat.getD ixs.flat, files.hnsw.getD ixs.hnsw, l.filter⟩, l.nullBitmaps)

/-! ## One entry -/

/-- The dimension of the index a type names. -/
def dim (ixs : IndexFactory F) : IndexType → Nat
  | .flat => ixs.flat.d
  | .hnsw => ixs.hnsw.d
  | _ => 0

/-- The indexes without the old entry of an id. -/
def removed (ixs : IndexFactory F) (existingData : Json) (id : UInt64) (t : IndexType) : IndexFactory F :=
  if existingData.isObject = true ∧ t = .flat then { ixs with flat := ixs.flat.removeVectors [id.toInt64] } else ixs

/-- The indexes with a new entry. -/
def inserted (ixs : IndexFactory F) (id : UInt64) (v : List F) : IndexType → IndexFactory F
  | .flat => { ixs with flat.entries := ixs.flat.entries ++ [(id.toInt64, v.take ixs.flat.d)] }
  | .hnsw => { ixs with hnsw.points := ixs.hnsw.points.insert id (v.take ixs.hnsw.d) }
  | _ => ixs

@[simp] theorem dim_removed (ixs : IndexFactory F) (e : Json) (id : UInt64) (t u : IndexType) :
    (ixs.removed e id t).dim u = ixs.dim u := by
  unfold removed
  split <;> cases u <;> rfl

@[simp] theorem dim_inserted (ixs : IndexFactory F) (id : UInt64) (v : List F) (t u : IndexType) :
    (ixs.inserted id v t).dim u = ixs.dim u := by
  cases t <;> cases u <;> rfl

@[simp] theorem filter_removed (ixs : IndexFactory F) (e : Json) (id : UInt64) (t : IndexType) :
    (ixs.removed e id t).filter = ixs.filter := by
  unfold removed
  split <;> rfl

@[simp] theorem hnsw_removed (ixs : IndexFactory F) (e : Json) (id : UInt64) (t : IndexType) :
    (ixs.removed e id t).hnsw = ixs.hnsw := by
  unfold removed
  split <;> rfl

@[simp] theorem filter_inserted (ixs : IndexFactory F) (id : UInt64) (v : List F) (t : IndexType) :
    (ixs.inserted id v t).filter = ixs.filter := by
  cases t <;> rfl

end IndexFactory
end VectorDb
