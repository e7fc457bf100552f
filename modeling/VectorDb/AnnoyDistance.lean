import VectorDb.AnnoyIndex

/-!
# The metrics of Annoy's trees

* `Annoy.Random`, `Kiss64Random` : a generator of random bits, and the one that the wrapper's indexes use;
* `Payload` : what a node holds for the metric: its vector, and the fields of `Minkowski::Node` and `DotProduct::Node`;
* `FloatLibs` : the conversions and powers of `float` and `double`;
* `twoMeans`, `createSplit`, `side`, `margin`, `preprocess` : the static methods of `Euclidean` and `DotProduct`;
* `Distance` : what building and searching a tree needs of a metric, whatever it is;
* `map_v_preprocess` : the vectors of the items stay as they are.
-/

namespace VectorDb
namespace Annoy
open AnnoyIndex (MetricType)

/-! ## Random bits -/

class Random (R : Type) where
  /-- From the default seed. -/
  init : R
  kiss : R → UInt64 × R

namespace Random
variable {R : Type} [Random R]

/-- `kiss() & 1`. -/
def flip (random : R) : Bool × R := (decide ((kiss random).1 % 2 = 1), (kiss random).2)

def index (random : R) (n : Nat) : Nat × R := ((kiss random).1.toNat % n, (kiss random).2)

end Random

structure Kiss64Random where
  x : UInt64
  y : UInt64
  z : UInt64
  c : UInt64
  deriving DecidableEq, Repr

namespace Kiss64Random

def ofSeed (seed : UInt64) : Kiss64Random := ⟨seed, 362436362436362436, 1066149217761810, 123456123456123456⟩

def kiss (s : Kiss64Random) : UInt64 × Kiss64Random :=
  -- linear congruence
  let z := 6906969069 * s.z + 1234567
  -- xor shift
  let y := s.y ^^^ (s.y <<< 13)
  let y := y ^^^ (y >>> 17)
  let y := y ^^^ (y <<< 43)
  -- multiply with carry
  let t := (s.x <<< 58) + s.c
  let x := s.x + t
  let c := (s.x >>> 6) + if x < t then 1 else 0
  (x + y + z, ⟨x, y, z, c⟩)

instance : Random Kiss64Random := ⟨ofSeed 1234567890987654321, kiss⟩

end Kiss64Random

/-! ## Nodes and their metric -/

/-- `a` is a field of `Minkowski::Node`, the last three are of `DotProduct::Node`. -/
structure Payload (F : Type) where
  v : List F
  a : F
  dotFactor : F
  norm : F
  built : Bool
  deriving DecidableEq

/-- What the metrics need of `float` (here `F`) and `double` (here `D`) beyond their arithmetic. -/
structure FloatLibs (F D : Type) where
  ofNat : Nat → F
  two : D
  widen : F → D
  narrow : D → F
  powf : F → F → F
  pow : D → D → D
  infinity : F

/-- What building and searching a tree needs of the template parameter `Distance`. -/
structure Distance (F V R : Type) where
  /-- Of bytes that are zero. -/
  zero : V
  createSplit : List V → R → V × R
  side : V → V → R → Bool × R
  /-- `m->v[z] = 0` for every `z`. -/
  clear : V → V
  margin : V → List F → F
  /-- Of the query and a node. -/
  distance : List F → V → F
  normalizedDistance : F → F
  pqInitialValue : F
  preprocess : List V → List V
  length_preprocess : ∀ items, (preprocess items).length = items.length
  postprocess : V → V

section
variable {F D R : Type} [FloatArith F] [FloatArith D] [LinearOrder F] [Random R] (M : FloatLibs F D)

def dot (x y : List F) : F := (x.zip y).foldl (fun s p => s + p.1 * p.2) 0

def zeroPayload (f : Nat) : Payload F := ⟨List.replicate f 0, 0, 0, 0, false⟩

namespace Payload

def copyNode (metric : MetricType) (dest source : Payload F) : Payload F :=
  match metric with
  | .l2 => { dest with v := source.v }
  | .ip => { dest with v := source.v, dotFactor := source.dotFactor }

def initNode (metric : MetricType) (n : Payload F) : Payload F :=
  match metric with
  | .l2 => n
  | .ip => { n with built := false, norm := dot n.v n.v + n.dotFactor * n.dotFactor }

def getNorm (metric : MetricType) (n : Payload F) : F :=
  match metric with
  | .l2 => FloatArith.sqrt (dot n.v n.v)
  | .ip => FloatArith.sqrt (dot n.v n.v + n.dotFactor * n.dotFactor)

/-- `DotProduct` squares the factor with `pow(float, int)`, in `double`. -/
def normalize (metric : MetricType) (n : Payload F) : Payload F :=
  match metric with
  | .l2 =>
    let norm := n.getNorm .l2
    if 0 < norm then { n with v := n.v.map fun x => x / norm } else n
  | .ip =>
    let norm := M.narrow (FloatArith.sqrt (M.widen (dot n.v n.v) + M.pow (M.widen n.dotFactor) M.two))
    if 0 < norm then { n with v := n.v.map fun x => x / norm, dotFactor := n.dotFactor / norm } else n

/-- One mean of a coordinate: `(mean * c + new / norm) / (c + 1)`. -/
def mean (c : Nat) (norm : F) (mean new : F) : F := (mean * M.ofNat c + new / norm) / M.ofNat (c + 1)

def updateMean (metric : MetricType) (p new : Payload F) (norm : F) (c : Nat) : Payload F :=
  match metric with
  | .l2 => { p with v := p.v.zipWith (mean M c norm) new.v }
  | .ip => { p with v := p.v.zipWith (mean M c norm) new.v, dotFactor := mean M c norm p.dotFactor new.dotFactor }

/-- `D::distance`. `DotProduct` is the angle of the extended vectors until one of them is in a built index. -/
def distance (metric : MetricType) (x y : Payload F) : F :=
  match metric with
  | .l2 => MetricType.distance .l2 x.v y.v
  | .ip =>
    if x.built || y.built then MetricType.distance .ip x.v y.v
    else
      let pp := if x.norm ≠ 0 then x.norm else dot x.v x.v + x.dotFactor * x.dotFactor
      let qq := if y.norm ≠ 0 then y.norm else dot y.v y.v + y.dotFactor * y.dotFactor
      let pq := dot x.v y.v + x.dotFactor * y.dotFactor
      let ppqq := pp * qq
      if 0 < ppqq then M.narrow (M.two - M.two * M.widen pq / M.widen (FloatArith.sqrt ppqq)) else M.narrow M.two

end Payload

/-! ## Splits -/

/-- The two centroids, and how many points each has. -/
structure Means (F : Type) where
  p : Payload F
  q : Payload F
  ic : Nat
  jc : Nat

/-- One of the 200 rounds of `two_means`. -/
def meansStep (metric : MetricType) (nodes : List (Payload F)) (s : Means F × R) : Means F × R :=
  let (k, random) := Random.index s.2 nodes.length
  let s := s.1
  let node := nodes.getD k (zeroPayload 0)
  let di := M.ofNat s.ic * s.p.distance M metric node
  let dj := M.ofNat s.jc * s.q.distance M metric node
  let norm :=
    match metric with
    | .l2 => M.ofNat 1
    | .ip => node.getNorm metric
  if ¬ 0 < norm then (s, random)
  else if di < dj then ({ s with p := (s.p.updateMean M metric node norm s.ic).initNode metric, ic := s.ic + 1 }, random)
  else if dj < di then ({ s with q := (s.q.updateMean M metric node norm s.jc).initNode metric, jc := s.jc + 1 }, random)
  else (s, random)

/-- There are at least two nodes. -/
def twoMeans (metric : MetricType) (f : Nat) (nodes : List (Payload F)) (random : R) : Means F × R :=
  let (i, random) := Random.index random nodes.length
  let (j, random) := Random.index random (nodes.length - 1)
  -- ensures that `i` and `j` differ
  let j := if i ≤ j then j + 1 else j
  let start := fun k => (zeroPayload f).copyNode metric (nodes.getD k (zeroPayload 0))
  let scaled := fun n : Payload F =>
    match metric with
    | .l2 => n.initNode metric
    | .ip => (n.normalize M metric).initNode metric
  (meansStep M metric nodes)^[200] (⟨scaled (start i), scaled (start j), 1, 1⟩, random)

def createSplit (metric : MetricType) (f : Nat) (nodes : List (Payload F)) (random : R) : Payload F × R :=
  let (s, random) := twoMeans M metric f nodes random
  let n := { zeroPayload f with v := s.p.v.zipWith (· - ·) s.q.v }
  match metric with
  | .l2 =>
    let n := n.normalize M .l2
    let sums := s.p.v.zipWith (· + ·) s.q.v
    ({ n with a := (n.v.zip sums).foldl (fun a z => a + -z.1 * z.2 / M.ofNat 2) 0 }, random)
  | .ip => ({ n with dotFactor := s.p.dotFactor - s.q.dotFactor }.normalize M .ip, random)

/-- `D::margin` of a plane and an item. -/
def nodeMargin (metric : MetricType) (n y : Payload F) : F :=
  match metric with
  | .l2 => n.a + dot n.v y.v
  | .ip => dot n.v y.v + n.dotFactor * y.dotFactor

/-- An item on the plane may go to either side. -/
def side (metric : MetricType) (n y : Payload F) (random : R) : Bool × R :=
  let dot := nodeMargin metric n y
  if dot ≠ 0 then (decide (0 < dot), random) else Random.flip random

/-- `D::margin` of a plane and the query. -/
def margin (metric : MetricType) (n : Payload F) (y : List F) : F :=
  match metric with
  | .l2 => n.a + dot n.v y
  | .ip => dot n.v y

/-! ## Before and after the trees are built -/

/-- Each vector gets one more coordinate, that makes all of them as long as the longest. -/
def preprocess (metric : MetricType) (items : List (Payload F)) : List (Payload F) :=
  match metric with
  | .l2 => items
  | .ip =>
    let norms := items.map fun n =>
      let d := dot n.v n.v
      if d < 0 then 0 else FloatArith.sqrt d
    let maxNorm := norms.foldl (fun m x => if m < x then x else m) 0
    let squared := M.powf maxNorm (M.ofNat 2)
    items.zipWith (fun n norm =>
      let squaredNormDiff := squared - M.powf norm (M.ofNat 2)
      let dotFactor := if squaredNormDiff < 0 then 0 else FloatArith.sqrt squaredNormDiff
      { n with norm := squared, dotFactor := dotFactor, built := false }) norms

def postprocess (metric : MetricType) (n : Payload F) : Payload F :=
  match metric with
  | .l2 => n
  | .ip => { n with built := true }

omit [FloatArith F] [LinearOrder F] in
@[simp] theorem v_postprocess (metric : MetricType) (n : Payload F) : (postprocess metric n).v = n.v := by
  cases metric with
  | l2 => rfl
  | ip => rfl

omit [FloatArith D] in
theorem map_v_preprocess (metric : MetricType) (items : List (Payload F)) :
    (preprocess M metric items).map Payload.v = items.map Payload.v := by
  unfold preprocess
  cases metric with
  | l2 => rfl
  | ip => simp [List.zipWith_map_right]

def distanceOf (metric : MetricType) (f : Nat) : Distance F (Payload F) R where
  zero := zeroPayload f
  createSplit := createSplit M metric f
  side := side metric
  clear n := { n with v := List.replicate f 0 }
  margin := margin metric
  distance query := Payload.distance M metric ({ zeroPayload f with v := query }.initNode metric)
  normalizedDistance := metric.normalizedDistance
  pqInitialValue := M.infinity
  preprocess := preprocess M metric
  length_preprocess items := by
    have h := congrArg List.length (map_v_preprocess M metric items)
    rwa [List.length_map, List.length_map] at h
  postprocess := postprocess metric

end

/-! ## Integers -/

def intFloatLibs : FloatLibs Int Int where
  ofNat n := n
  two := 2
  widen x := x
  narrow x := x
  powf x _ := x
  pow x y := x ^ y.toNat
  infinity := 2 ^ 31

end Annoy
end VectorDb
