import VectorDb.Basic
import VectorDb.Similarity
import VectorDb.Lib.Nearest

/-!
# `AnnoyIndex`

* `Annoy.Index` : Annoy's own index: the item slots, and the forest built over them;
* `Annoy.Libs` : how a forest is made, and the file of the nodes;
* `addItem`, `build`, `save`, `load`, `getNnsByVector` : the calls of Annoy that the wrapper makes;
* `AnnoyIndex` : the wrapper, with `need_rebuild_` and the removed ids beside the index.
-/

namespace VectorDb
open Std (ExtTreeMap)

/-- How a call can fail. -/
inductive AnnoyFault where
  /-- `std::invalid_argument`. -/
  | invalidArgument (what : Bytes)
  /-- `std::runtime_error`. -/
  | runtimeError (what : Bytes)
  /-- A slot before the first one, or a vector with too few floats. -/
  | outOfBounds
  /-- An integer out of range: what happens is undefined. -/
  | overflow
  /-- Trees are made without end. -/
  | endless
  deriving DecidableEq, Repr

inductive AnnoyIndex.MetricType where
  | l2
  | ip
  deriving DecidableEq, Repr

variable {F : Type}

/-! ## Annoy -/

namespace AnnoyIndex.MetricType
variable [FloatArith F]

/-- `D::distance` of the query and an item, where the index is built. -/
def distance : MetricType → List F → List F → F
  | .l2, x, y => (x.zip y).foldl (fun d p => d + (p.1 - p.2) * (p.1 - p.2)) 0
  | .ip, x, y => -(x.zip y).foldl (fun s p => s + p.1 * p.2) 0

/-- `D::normalized_distance`. -/
def normalizedDistance [LinearOrder F] : MetricType → F → F
  | .l2, distance => FloatArith.sqrt (max distance 0)
  | .ip, distance => -distance

end AnnoyIndex.MetricType

namespace Annoy
open AnnoyIndex (MetricType)

/-- A forest is what its traversal reaches: the ids in `nns`, from the query, `n` and `search_k`. -/
abbrev Forest (F : Type) := List F → Nat → Int32 → List Int64

/-- The slots of `_nodes` with an item. -/
@[ext]
structure Items (F : Type) (f : Nat) where
  slots : ExtTreeMap Int64 (List F)
  nonneg_of_slot : ∀ (item : Int64) (v : List F), slots[item]? = some v → 0 ≤ item
  length_of_slot : ∀ (item : Int64) (v : List F), slots[item]? = some v → v.length = f

/-- The trees that `thread_build` makes (always from the same seed), and the file of the nodes. -/
structure Libs (F : Type) where
  File : Type
  makeForest : MetricType → ExtTreeMap Int64 (List F) → Int32 → Forest F
  nodes : MetricType → (f : Nat) → Items F f → Forest F → File
  readNodes : MetricType → (f : Nat) → File → Except Bytes (Items F f × Forest F)
  infinity : F

/-- `_built` is whether there is a forest. -/
structure Index (F : Type) where
  f : Nat
  items : Items F f
  forest : Option (Forest F)
  loaded : Bool

namespace Items
variable {f : Nat}

def empty : Items F f where
  slots := ∅
  nonneg_of_slot item v h := by simp at h
  length_of_slot item v h := by simp at h

def insert (items : Items F f) (item : Int64) (w : List F) (hitem : 0 ≤ item) (hw : w.length = f) : Items F f where
  slots := items.slots.insert item w
  nonneg_of_slot id v h := by
    rw [ExtTreeMap.getElem?_insert] at h
    split at h
    · next heq => exact Std.LawfulEqOrd.eq_of_compare heq ▸ hitem
    · exact items.nonneg_of_slot id v h
  length_of_slot id v h := by
    rw [ExtTreeMap.getElem?_insert] at h
    split at h
    · exact Option.some.inj h ▸ hw
    · exact items.length_of_slot id v h

end Items

namespace Index

def init (f : Nat) : Index F := ⟨f, .empty, none, false⟩

/-- An item that is added to a built index may take the place of a tree's node, but the next build fails. -/
def addItem (ix : Index F) (item : Int64) (w : List F) : Except AnnoyFault (Index F) :=
  if ix.loaded then .error (.runtimeError (ascii "You can't add an item to a loaded index"))
  -- `item + 1`
  else if item = Int64.maxValue then .error .overflow
  else if hitem : 0 ≤ item then
    if hw : (w.take ix.f).length = ix.f then .ok { ix with items := ix.items.insert item (w.take ix.f) hitem hw }
    else .error .outOfBounds
  else .error .outOfBounds

variable (L : Libs F) (metric : MetricType)

def build (ix : Index F) (q : Int32) : Except AnnoyFault (Index F) :=
  if ix.loaded then .error (.runtimeError (ascii "You can't build a loaded index"))
  else if ix.forest.isSome then .error (.runtimeError (ascii "You can't build a built index"))
  -- `thread_roots.size() >= (size_t)q`
  else if q < -1 then .error .endless
  else .ok { ix with forest := some (L.makeForest metric ix.items.slots q) }

def load (f : Nat) (file : L.File) : Except AnnoyFault (Index F) :=
  match L.readNodes metric f file with
  | .error what => .error (.runtimeError what)
  | .ok (items, forest) => .ok ⟨f, items, some forest, true⟩

/-- The file is written and loaded again. `diskError` is what the file system answers, where it fails. -/
def save (ix : Index F) (diskError : Option Bytes) : Except AnnoyFault (Index F × L.File) :=
  match ix.forest, diskError with
  | none, _ => .error (.runtimeError (ascii "You can't save an index that hasn't been built"))
  | some _, some what => .error (.runtimeError what)
  | some forest, none =>
    let file := L.nodes metric ix.f ix.items forest
    (load L metric ix.f file).map fun loaded => (loaded, file)

variable [FloatArith F] [LinearOrder F]

/-- `std::partial_sort` compares the distance first, then the id. -/
def nearestKey (query : List F) (p : Int64 × List F) : F ×ₗ Int := toLex (metric.distance query p.2, p.1.toInt)

/-- `_get_all_nns`: each item that was reached, once. -/
def getNnsByVector (ix : Index F) (w : List F) (n : Nat) (searchK : Int32) : List (Int64 × F) :=
  match ix.forest with
  | none => []
  | some forest =>
    let query := w.take ix.f
    let nns := forest query n searchK
    let nnsDist := ix.items.slots.toList.filter fun p => decide (p.1 ∈ nns)
    (takeNearest (nearestKey metric query) n nnsDist).map fun p =>
      (p.1, metric.normalizedDistance (metric.distance query p.2))

end Index

/-- Integers, every item in one tree. -/
def intLibs : Libs Int where
  File := (f : Nat) × Items Int f × Forest Int
  makeForest _ items _ := fun _ _ _ => items.keys
  nodes _ f items forest := ⟨f, items, forest⟩
  readNodes _ f file :=
    if h : file.1 = f then .ok (h ▸ file.2) else .error (ascii "Index size is not a multiple of vector size")
  infinity := 2 ^ 31

end Annoy

/-! ## The wrapper -/

/-- One of `l2_index_` and `ip_index_` is there, by the metric. -/
structure AnnoyIndex (F : Type) where
  dim : Int32
  metric : AnnoyIndex.MetricType
  nTrees : Int32
  needRebuild : Bool
  deletedIds : Finset Int64
  index : Annoy.Index F

namespace AnnoyIndex

/-- `AnnoyIndex::Impl`. -/
def init (dim : Int32) (metric : MetricType) (nTrees : Int32) : Except AnnoyFault (AnnoyIndex F) :=
  if dim ≤ 0 then .error (.invalidArgument (ascii "AnnoyIndex dim must be positive"))
  else .ok ⟨dim, metric, nTrees, false, ∅, .init dim.toInt.toNat⟩

variable (L : Annoy.Libs F)

def rebuildIfNeeded (ix : AnnoyIndex F) : Except AnnoyFault (AnnoyIndex F) :=
  if ix.needRebuild then
    (ix.index.build L ix.metric ix.nTrees).map fun index => { ix with index := index, needRebuild := false }
  else .ok ix

def ensureBuilt (ix : AnnoyIndex F) : Except AnnoyFault (AnnoyIndex F) := ix.rebuildIfNeeded L

def insertVectors (ix : AnnoyIndex F) (data : List F) (label : UInt64) : Except AnnoyFault (AnnoyIndex F) :=
  if Int32.ofNat data.length ≠ ix.dim then .error (.invalidArgument (ascii "AnnoyIndex insert vector dim mismatch"))
  else
    (ix.index.addItem label.toInt64 data).map fun index =>
      { ix with index := index, deletedIds := ix.deletedIds.erase label.toInt64, needRebuild := true }

def removeVectors (ix : AnnoyIndex F) (ids : List Int64) : AnnoyIndex F :=
  { ix with deletedIds := ids.foldl (fun deleted id => insert id deleted) ix.deletedIds }

/-- The tests of the loop in `search_vectors`; the bitmap is asked for `static_cast<uint32_t>(id)`. -/
def isLive (ix : AnnoyIndex F) (bitmap : Option (Finset UInt32)) (id : Int64) : Bool :=
  decide (id ∉ ix.deletedIds) && bitmap.all fun b => decide (id.toUInt64.toUInt32 ∈ b)

/-- The loop over the candidates, with `k` places left. -/
def pickLive (live : Int64 → Bool) : List (Int64 × F) → Nat → List (Int64 × F)
  | [], _ => []
  | _ :: _, 0 => []
  | c :: candidates, k + 1 => if live c.1 then c :: pickLive live candidates k else pickLive live candidates (k + 1)

/-- The index after the rebuild, and the entries. -/
def searchVectors [FloatArith F] [LinearOrder F] (ix : AnnoyIndex F) (query : List F) (k : Int32)
    (bitmap : Option (Finset UInt32)) (searchK : Int32) : Except AnnoyFault (AnnoyIndex F × List (Int64 × F)) :=
  if k ≤ 0 then .ok (ix, [])
  else if Int32.ofNat query.length ≠ ix.dim then .error (.invalidArgument (ascii "AnnoyIndex query vector dim mismatch"))
  else
    match ix.rebuildIfNeeded L with
    | .error e => .error e
    | .ok ix =>
      -- `k * 4`
      if 2 ^ 31 ≤ k.toInt * 4 then .error .overflow
      else
        let candidateK := max (k.toInt * 4) k.toInt
        let candidates := ix.index.getNnsByVector ix.metric query candidateK.toNat searchK
        let found := pickLive (ix.isLive bitmap) candidates k.toInt.toNat
        .ok (ix, found ++ List.replicate (k.toInt.toNat - found.length) (-1, L.infinity))

def saveIndex (ix : AnnoyIndex F) (diskError : Option Bytes) : Except AnnoyFault (AnnoyIndex F × L.File) :=
  match ix.rebuildIfNeeded L with
  | .error e => .error e
  | .ok ix => (ix.index.save L ix.metric diskError).map fun r => ({ ix with index := r.1 }, r.2)

/-- `none` is a file that is not there. -/
def loadIndex (ix : AnnoyIndex F) (file : Option L.File) : Except AnnoyFault (AnnoyIndex F) :=
  match file with
  | none => .ok ix
  | some file =>
    (Annoy.Index.load L ix.metric ix.dim.toInt.toNat file).map fun index =>
      { ix with index := index, deletedIds := ∅, needRebuild := false }

/-! ## When the calls complete -/

theorem eq_of_init {dim nTrees : Int32} {metric : MetricType} {fresh : AnnoyIndex F}
    (h : init dim metric nTrees = .ok fresh) : fresh = ⟨dim, metric, nTrees, false, ∅, .init dim.toInt.toNat⟩ := by
  unfold init at h
  split at h
  · cases h
  · exact (Except.ok.inj h).symm

/-- A vector that passes the check of its length has no fewer floats than `dim_`. -/
theorem toNat_toInt_le_of_ofNat_eq {n : Nat} {d : Int32} (h : Int32.ofNat n = d) : d.toInt.toNat ≤ n := by
  rw [← h, Int32.toInt_ofNat', Int.bmod_def]
  unfold Int32.size
  omega

theorem ofNat_eq_of_length {n : Nat} {d : Int32} (h : (n : Int) = d.toInt) : Int32.ofNat n = d := by
  apply Int32.toInt_inj.mp
  have hlt := d.toInt_lt
  rw [Int32.toInt_ofNat_of_lt (by omega), h]

/-- `add_item` takes the labels below `2 ^ 63 - 1`. -/
theorem label_iff (label : UInt64) :
    (label.toInt64 ≠ Int64.maxValue ∧ 0 ≤ label.toInt64) ↔ label.toNat + 1 < 2 ^ 63 := by
  have hint : label.toInt64.toInt = if 2 * label.toNat < 2 ^ 64 then (label.toNat : Int) else label.toNat - 2 ^ 64 :=
    BitVec.toInt_eq_toNat_cond label.toBitVec
  have hlt := label.toNat_lt
  rw [ne_eq, ← Int64.toInt_inj, Int64.toInt_maxValue, Int64.le_iff_toInt_le, Int64.toInt_zero, hint]
  split
  · omega
  · omega

/-- The index after a build. -/
def rebuilt (ix : AnnoyIndex F) : AnnoyIndex F :=
  { ix with
    index := { ix.index with forest := some (L.makeForest ix.metric ix.index.items.slots ix.nTrees) }
    needRebuild := false }

/-- A rebuild has nothing to do, or it is the first build. -/
theorem rebuildIfNeeded_eq_ok_iff {ix ix' : AnnoyIndex F} (hloaded : ix.index.loaded = false) :
    ix.rebuildIfNeeded L = .ok ix' ↔ (ix.needRebuild = false ∧ ix' = ix) ∨
      (ix.needRebuild = true ∧ ix.index.forest = none ∧ -1 ≤ ix.nTrees ∧ ix' = ix.rebuilt L) := by
  unfold rebuildIfNeeded Annoy.Index.build rebuilt
  rw [hloaded]
  by_cases hneed : ix.needRebuild
  · cases hforest : ix.index.forest with
    | some forest => simp [hneed, Except.map]
    | none =>
      by_cases hq : ix.nTrees < -1
      · simp [hneed, hq, Except.map]
      · simp [hneed, hq, Except.map, hloaded, Int32.not_lt.mp hq, eq_comm]
  · simp [hneed, eq_comm]

theorem needRebuild_of_rebuildIfNeeded {ix ix' : AnnoyIndex F} (hloaded : ix.index.loaded = false)
    (h : ix.rebuildIfNeeded L = .ok ix') : ix'.needRebuild = false := by
  rcases (rebuildIfNeeded_eq_ok_iff L hloaded).mp h with ⟨hno, rfl⟩ | ⟨-, -, -, rfl⟩
  · exact hno
  · rfl

/-- The floats that `add_item` copies are there. -/
theorem length_take_data {ix : AnnoyIndex F} {data : List F} (hf : ix.index.f = ix.dim.toInt.toNat)
    (hdim : Int32.ofNat data.length = ix.dim) : (data.take ix.index.f).length = ix.index.f := by
  have hle := toNat_toInt_le_of_ofNat_eq hdim
  rw [List.length_take]
  omega

theorem insertVectors_eq_ok_iff {ix ix' : AnnoyIndex F} {data : List F} {label : UInt64} (hloaded : ix.index.loaded = false)
    (hf : ix.index.f = ix.dim.toInt.toNat) :
    ix.insertVectors data label = .ok ix' ↔ Int32.ofNat data.length = ix.dim ∧ label.toNat + 1 < 2 ^ 63 ∧
      ∃ items : Annoy.Items F ix.index.f, items.slots = ix.index.items.slots.insert label.toInt64 (data.take ix.index.f) ∧
        ix' = { ix with
          index := { ix.index with items := items }
          deletedIds := ix.deletedIds.erase label.toInt64
          needRebuild := true } := by
  unfold insertVectors Annoy.Index.addItem
  rw [if_neg (ne_true_of_eq_false hloaded), ← label_iff]
  by_cases hdim : Int32.ofNat data.length = ix.dim
  · have hlen := length_take_data hf hdim
    by_cases hmax : label.toInt64 = Int64.maxValue
    · simp [hdim, hmax, Except.map]
    · by_cases hitem : 0 ≤ label.toInt64
      · rw [if_neg (not_not.mpr hdim), if_neg hmax, dif_pos hitem, dif_pos hlen]
        constructor
        · intro h
          exact ⟨hdim, ⟨hmax, hitem⟩, _, rfl, (Except.ok.inj h).symm⟩
        · rintro ⟨-, -, items, hslots, rfl⟩
          rw [Annoy.Items.ext (y := ix.index.items.insert label.toInt64 (data.take ix.index.f) hitem hlen) hslots]
          rfl
      · simp [hdim, hmax, hitem, Except.map]
  · simp [hdim]

theorem exists_insertVectors_iff {ix : AnnoyIndex F} {data : List F} {label : UInt64} (hloaded : ix.index.loaded = false)
    (hf : ix.index.f = ix.dim.toInt.toNat) (hdim : Int32.ofNat data.length = ix.dim) :
    (∃ ix', ix.insertVectors data label = .ok ix') ↔ label.toNat + 1 < 2 ^ 63 := by
  simp only [insertVectors_eq_ok_iff hloaded hf]
  constructor
  · rintro ⟨ix', -, hlabel, -⟩
    exact hlabel
  · intro hlabel
    exact ⟨_, hdim, hlabel, ix.index.items.insert _ _ ((label_iff label).mpr hlabel).2 (length_take_data hf hdim), rfl, rfl⟩

section
variable [FloatArith F] [LinearOrder F] {ix ix' : AnnoyIndex F} {query : List F} {k searchK : Int32}
  {bitmap : Option (Finset UInt32)}

/-- A search that looks for something rebuilds first. -/
theorem searchVectors_eq_ok_iff (hk : 0 < k) {found : List (Int64 × F)} :
    ix.searchVectors L query k bitmap searchK = .ok (ix', found) ↔ Int32.ofNat query.length = ix.dim ∧
      ix.rebuildIfNeeded L = .ok ix' ∧ k.toInt * 4 < 2 ^ 31 ∧ found =
        let candidates := ix'.index.getNnsByVector ix'.metric query (k.toInt * 4).toNat searchK
        let found := pickLive (ix'.isLive bitmap) candidates k.toInt.toNat
        found ++ List.replicate (k.toInt.toNat - found.length) (-1, L.infinity) := by
  unfold searchVectors
  rw [if_neg (Int32.not_le.mpr hk)]
  by_cases hdim : Int32.ofNat query.length = ix.dim
  · rw [if_neg (not_not.mpr hdim)]
    cases hre : ix.rebuildIfNeeded L with
    | error e => simp
    | ok ix₁ =>
      dsimp only
      by_cases hlarge : 2 ^ 31 ≤ k.toInt * 4
      · rw [if_pos hlarge]
        constructor
        · intro h
          cases h
        · intro h
          exact absurd h.2.2.1 (not_lt.mpr hlarge)
      · have hmax : max (k.toInt * 4) k.toInt = k.toInt * 4 := by
          rw [Int32.lt_iff_toInt_lt, Int32.toInt_zero] at hk
          exact max_eq_left (by omega)
        rw [if_neg hlarge, hmax, Except.ok.injEq, Except.ok.injEq, Prod.mk.injEq]
        constructor
        · rintro ⟨rfl, rfl⟩
          exact ⟨hdim, rfl, not_le.mp hlarge, rfl⟩
        · rintro ⟨-, rfl, -, rfl⟩
          exact ⟨rfl, rfl⟩
  · simp [hdim]

theorem exists_searchVectors_iff (hdim : Int32.ofNat query.length = ix.dim) :
    (∃ r, ix.searchVectors L query k bitmap searchK = .ok r) ↔
      k.toInt * 4 < 2 ^ 31 ∧ (0 < k → ∃ ix', ix.rebuildIfNeeded L = .ok ix') := by
  by_cases hk : 0 < k
  · constructor
    · rintro ⟨r, hr⟩
      obtain ⟨-, hre, hlarge, -⟩ := (searchVectors_eq_ok_iff L hk).mp hr
      exact ⟨hlarge, fun _ => ⟨_, hre⟩⟩
    · rintro ⟨hlarge, hre⟩
      obtain ⟨ix', hre⟩ := hre hk
      exact ⟨_, (searchVectors_eq_ok_iff L hk).mpr ⟨hdim, hre, hlarge, rfl⟩⟩
  · have hle := Int32.not_lt.mp hk
    constructor
    · intro _
      rw [Int32.le_iff_toInt_le, Int32.toInt_zero] at hle
      exact ⟨by omega, fun h => absurd h hk⟩
    · intro _
      unfold searchVectors
      rw [if_pos hle]
      exact ⟨_, rfl⟩

end

/-! ## Vectors of integers -/

def freshInt : AnnoyIndex Int := ⟨1, .l2, 10, false, ∅, .init 1⟩

theorem init_freshInt : init 1 .l2 10 = .ok freshInt := rfl

end AnnoyIndex
end VectorDb
