import VectorDb.Lib.PriorityQueue

/-!
# `VectorSimilarity`

* `computeSimilarity` : the three measures; the second vector is read up to the length of the first;
* `findTopKSimilarVectors` : a queue of `k` pairs, emptied from its top and reversed;
* `TopK` : the `k` most similar vectors;
* `findTopK_eq` : the result is the `k` least pairs, which has all of `TopK` but the choice of the best;
* `topK_iff` : the queue pops the most similar pair, so the result is the top `k` only where nothing is left out, or
  there is nothing to choose.
-/

namespace VectorDb

/-- What the similarities need of `float`. -/
class FloatArith (F : Type) extends Zero F, Add F, Sub F, Mul F, Div F, Neg F where
  sqrt : F → F

namespace VectorSimilarity
open FloatArith (sqrt)

inductive MetricType where
  | cosine
  | dotProduct
  | euclidean

variable {F : Type} [FloatArith F]

/-- `dot`, `denom_a` and `denom_b` after one position. -/
def cosineStep (acc : F × F × F) (p : F × F) : F × F × F :=
  (acc.1 + p.1 * p.2, acc.2.1 + p.1 * p.1, acc.2.2 + p.2 * p.2)

def cosineSimilarity (v1 v2 : List F) : F :=
  let acc := (v1.zip v2).foldl cosineStep (0, 0, 0)
  acc.1 / (sqrt acc.2.1 * sqrt acc.2.2)

def dotProduct (v1 v2 : List F) : F := (v1.zip v2).foldl (fun sum p => sum + p.1 * p.2) 0

def euclideanDistance (v1 v2 : List F) : F :=
  sqrt ((v1.zip v2).foldl (fun sum p => sum + (p.1 - p.2) * (p.1 - p.2)) 0)

/-- `none` is a read past the end of `v2`. -/
def computeSimilarity (v1 v2 : List F) (metric : MetricType) : Option F :=
  if v2.length < v1.length then none
  else
    match metric with
    | .cosine => some (cosineSimilarity v1 v2)
    | .dotProduct => some (dotProduct v1 v2)
    | .euclidean => some (-euclideanDistance v1 v2)

theorem exists_computeSimilarity_iff {v1 v2 : List F} {metric : MetricType} :
    (∃ s, computeSimilarity v1 v2 metric = some s) ↔ v1.length ≤ v2.length := by
  unfold computeSimilarity
  by_cases h : v2.length < v1.length
  · rw [if_pos h]
    simp [h]
  · rw [if_neg h]
    refine iff_of_true ?_ (Nat.not_lt.mp h)
    cases metric <;> exact ⟨_, rfl⟩

/-- All similarities can be computed where no vector is shorter than the target. -/
theorem exists_similarities_iff {target : List F} {vectors : List (List F)} {metric : MetricType} :
    (∃ sims : List F, vectors.map (fun v => computeSimilarity target v metric) = sims.map some) ↔
      ∀ v ∈ vectors, target.length ≤ v.length := by
  constructor
  · rintro ⟨sims, hsims⟩ v hv
    have hmem : computeSimilarity target v metric ∈ sims.map some := hsims ▸ List.mem_map_of_mem hv
    obtain ⟨s, -, hs⟩ := List.mem_map.mp hmem
    exact exists_computeSimilarity_iff.mp ⟨s, hs.symm⟩
  · intro hlong
    have hsome : ∀ v ∈ vectors, (computeSimilarity target v metric).isSome = true := fun v hv =>
      Option.isSome_iff_exists.mpr (exists_computeSimilarity_iff.mpr (hlong v hv))
    exact ⟨vectors.attach.map fun v => (computeSimilarity target v.1 metric).get (hsome v.1 v.2), by simp⟩

variable [LinearOrder F]

/-- An `int` compared with a `size_t`. -/
def toSizeT (k : Int) : Nat := (k % 2 ^ 64).toNat

/-- One round of the loop. `std::pair` compares the similarity first, then the index. -/
def pushSimilarity (target : List F) (k : Int) (metric : MetricType) (pq : PriorityQueue (F ×ₗ Nat)) (v : List F × Nat) :
    Option (PriorityQueue (F ×ₗ Nat)) :=
  (computeSimilarity target v.1 metric).map fun similarity => pq.pushBounded (toSizeT k) (toLex (similarity, v.2))

def findTopKSimilarVectors (target : List F) (vectors : List (List F)) (k : Int) (metric : MetricType) :
    Option (List (F × Nat)) :=
  (vectors.zipIdx.foldlM (pushSimilarity target k metric) PriorityQueue.empty).map fun pq => pq.drain.reverse.map ofLex

/-- `k` vectors (or all, where there are fewer), each with its similarity, in the order of the similarities, and none left
out that is more similar. -/
structure TopK (similarity : List F → Option F) (vectors : List (List F)) (k : Nat) (r : List (F × Nat)) : Prop where
  length : r.length = min k vectors.length
  nodup : (r.map Prod.snd).Nodup
  carries : ∀ p ∈ r, ∃ v, vectors[p.2]? = some v ∧ similarity v = some p.1
  sorted : r.Pairwise fun a b => a.1 ≤ b.1
  best : ∀ i v s, vectors[i]? = some v → similarity v = some s → i ∉ r.map Prod.snd → ∀ p ∈ r, s ≤ p.1

/-! ## The loop -/

omit [FloatArith F] [LinearOrder F] in
theorem mapM_eq_some_iff {f : List F → Option F} {vectors : List (List F)} {sims : List F} :
    vectors.mapM f = some sims ↔ vectors.map f = sims.map some := by
  induction vectors generalizing sims with
  | nil => cases sims <;> simp
  | cons v vectors ih =>
    rw [List.mapM_cons, List.map_cons]
    constructor
    · intro h
      obtain ⟨s, hs, h⟩ := Option.bind_eq_some_iff.mp h
      obtain ⟨rest, hrest, h⟩ := Option.bind_eq_some_iff.mp h
      cases h
      rw [hs, ih.mp hrest, List.map_cons]
    · intro h
      cases sims with
      | nil => cases h
      | cons s sims =>
        rw [List.map_cons, List.cons.injEq] at h
        rw [h.1, ih.mpr h.2]
        rfl

/-- The similarities first, then the pushes. -/
theorem foldlM_pushSimilarity (target : List F) (k : Int) (metric : MetricType) (vectors : List (List F)) (i : Nat)
    (pq : PriorityQueue (F ×ₗ Nat)) : (vectors.zipIdx i).foldlM (pushSimilarity target k metric) pq =
      (vectors.mapM fun v => computeSimilarity target v metric).map fun sims =>
        ((sims.zipIdx i).map toLex).foldl (PriorityQueue.pushBounded (toSizeT k)) pq := by
  induction vectors generalizing i pq with
  | nil => rfl
  | cons v vectors ih =>
    rw [List.zipIdx_cons, List.foldlM_cons, List.mapM_cons]
    unfold pushSimilarity
    cases computeSimilarity target v metric with
    | none => rfl
    | some s =>
      simp only [Option.map_some, Option.bind_eq_bind, Option.bind_some]
      have hrest := ih (i + 1) (pq.pushBounded (toSizeT k) (toLex (s, i)))
      unfold pushSimilarity at hrest
      rw [hrest]
      cases vectors.mapM fun v => computeSimilarity target v metric <;> rfl

/-- The result is the `k` least of the pairs, the least one first. -/
theorem findTopK_eq {target : List F} {vectors : List (List F)} {metric : MetricType} {sims : List F}
    (h : vectors.map (fun v => computeSimilarity target v metric) = sims.map some) (k : Int) :
    ∃ found, findTopKSimilarVectors target vectors k metric = some (found.map ofLex) ∧
      Nearest (fun p => p) (toSizeT k) (sims.zipIdx.map toLex) found := by
  refine ⟨_, ?_, PriorityQueue.keeps_foldl (toSizeT k) (sims.zipIdx.map toLex)⟩
  rw [findTopKSimilarVectors, foldlM_pushSimilarity, mapM_eq_some_iff.mpr h, Option.map_some, Option.map_some,
    PriorityQueue.drain_eq]

/-- There is a result only where all similarities can be computed. -/
theorem exists_similarities {target : List F} {vectors : List (List F)} {k : Int} {metric : MetricType} {r : List (F × Nat)}
    (h : findTopKSimilarVectors target vectors k metric = some r) :
    ∃ sims : List F, vectors.map (fun v => computeSimilarity target v metric) = sims.map some := by
  rw [findTopKSimilarVectors, foldlM_pushSimilarity] at h
  cases hmap : vectors.mapM fun v => computeSimilarity target v metric with
  | none =>
    rw [hmap] at h
    cases h
  | some sims => exact ⟨sims, mapM_eq_some_iff.mp hmap⟩

/-! ## What the queue keeps -/

section
variable {similarity : List F → Option F} {vectors : List (List F)} {sims : List F}

omit [FloatArith F] [LinearOrder F] in
theorem length_of_similarities (h : vectors.map similarity = sims.map some) : sims.length = vectors.length := by
  have hlen := congrArg List.length h
  rw [List.length_map, List.length_map] at hlen
  exact hlen.symm

omit [FloatArith F] [LinearOrder F] in
/-- A pair is the similarity of the vector at its index. -/
theorem mem_zipIdx_iff (h : vectors.map similarity = sims.map some) {s : F} {i : Nat} :
    (s, i) ∈ sims.zipIdx ↔ ∃ v, vectors[i]? = some v ∧ similarity v = some s := by
  have hi := congrArg (fun l => l[i]?) h
  simp only [List.getElem?_map] at hi
  rw [List.mk_mem_zipIdx_iff_getElem?]
  cases hv : vectors[i]? with
  | none =>
    rw [hv] at hi
    simp only [Option.map_none, eq_comm (a := none), Option.map_eq_none_iff] at hi
    simp [hi]
  | some v =>
    rw [hv, Option.map_some] at hi
    cases hs : sims[i]? with
    | none =>
      rw [hs] at hi
      cases hi
    | some t =>
      rw [hs, Option.map_some, Option.some.injEq] at hi
      simp [hi]

omit [FloatArith F] [LinearOrder F] in
/-- Each index comes once. -/
theorem nodup_indices (sims : List F) : ((sims.zipIdx.map toLex).map fun p : F ×ₗ Nat => (ofLex p).2).Nodup := by
  have hindex : (sims.zipIdx.map toLex).map (fun p : F ×ₗ Nat => (ofLex p).2) = List.range' 0 sims.length := by
    rw [List.map_map]
    exact List.zipIdx_map_snd 0 sims
  rw [hindex]
  exact List.nodup_range'

omit [FloatArith F] in
/-- The least pairs have every property of a top `k` but the one about what is left out. -/
theorem topK_of_nearest (h : vectors.map similarity = sims.map some) {k : Nat} {found : List (F ×ₗ Nat)}
    (hnear : Nearest (fun p => p) k (sims.zipIdx.map toLex) found)
    (hbest : ∀ i v s, vectors[i]? = some v → similarity v = some s → i ∉ (found.map ofLex).map Prod.snd →
      ∀ p ∈ found.map ofLex, s ≤ p.1) : TopK similarity vectors k (found.map ofLex) where
  length := by rw [List.length_map, hnear.length, List.length_map, List.length_zipIdx, length_of_similarities h]
  nodup := by
    rw [List.map_map]
    exact hnear.nodup_map (nodup_indices sims)
  carries p hp := by
    obtain ⟨q, hq, rfl⟩ := List.mem_map.mp hp
    obtain ⟨⟨s, i⟩, hs, rfl⟩ := List.mem_map.mp (hnear.mem hq)
    exact (mem_zipIdx_iff h).mp hs
  sorted := by
    rw [List.pairwise_map]
    exact hnear.sorted.imp fun hab => Prod.Lex.monotone_fst_ofLex hab
  best := hbest

omit [FloatArith F] in
/-- With `k = 0` nothing is kept. -/
theorem topK_zero (h : vectors.map similarity = sims.map some) {found : List (F ×ₗ Nat)}
    (hnear : Nearest (fun p => p) 0 (sims.zipIdx.map toLex) found) : TopK similarity vectors 0 (found.map ofLex) := by
  refine topK_of_nearest h hnear fun i v s _ _ _ p hp => ?_
  have hnil : found = [] := by
    apply List.eq_nil_of_length_eq_zero
    rw [hnear.length]
    exact Nat.zero_min _
  rw [hnil] at hp
  cases hp

omit [FloatArith F] in
/-- With at most `k` vectors nothing is left out. -/
theorem topK_of_le (h : vectors.map similarity = sims.map some) {k : Nat} (hle : vectors.length ≤ k)
    {found : List (F ×ₗ Nat)} (hnear : Nearest (fun p => p) k (sims.zipIdx.map toLex) found) :
    TopK similarity vectors k (found.map ofLex) := by
  refine topK_of_nearest h hnear fun i v s hv hs hi p _ => ?_
  have hperm := hnear.perm_of_le (by rwa [List.length_map, List.length_zipIdx, length_of_similarities h])
  have hmem : toLex (s, i) ∈ found := hperm.symm.subset (List.mem_map_of_mem ((mem_zipIdx_iff h).mpr ⟨v, hv, hs⟩))
  exact absurd (List.mem_map_of_mem (List.mem_map_of_mem hmem)) hi

omit [FloatArith F] in
/-- Among equally similar vectors any choice is a best one. -/
theorem topK_of_eq (h : vectors.map similarity = sims.map some)
    (heq : ∀ v ∈ vectors, ∀ w ∈ vectors, similarity v = similarity w) {k : Nat} {found : List (F ×ₗ Nat)}
    (hnear : Nearest (fun p => p) k (sims.zipIdx.map toLex) found) : TopK similarity vectors k (found.map ofLex) := by
  refine topK_of_nearest h hnear fun i v s hv hs _ p hp => ?_
  obtain ⟨q, hq, rfl⟩ := List.mem_map.mp hp
  obtain ⟨⟨t, j⟩, ht, rfl⟩ := List.mem_map.mp (hnear.mem hq)
  obtain ⟨w, hw, hwt⟩ := (mem_zipIdx_iff h).mp ht
  have hst := heq v (List.mem_of_getElem? hv) w (List.mem_of_getElem? hw)
  rw [hs, hwt, Option.some.injEq] at hst
  exact hst.le

omit [FloatArith F] in
/-- In a top `k` of least pairs what is left out is neither below nor above what stays. -/
theorem left_out_eq (h : vectors.map similarity = sims.map some) {k : Nat} {found rest : List (F ×ₗ Nat)}
    (htop : TopK similarity vectors k (found.map ofLex)) (hperm : (found ++ rest).Perm (sims.zipIdx.map toLex))
    (hle : ∀ p ∈ found, ∀ q ∈ rest, p ≤ q) : ∀ p ∈ found, ∀ q ∈ rest, (ofLex p).1 = (ofLex q).1 := by
  have hnodup := (hperm.map fun p => (ofLex p).2).nodup_iff.mpr (nodup_indices sims)
  rw [List.map_append, List.nodup_append] at hnodup
  intro p hp q hq
  apply le_antisymm
  · exact Prod.Lex.monotone_fst_ofLex (hle p hp q hq)
  · have hmem : q ∈ sims.zipIdx.map toLex := hperm.subset (List.mem_append_right found hq)
    obtain ⟨⟨s, i⟩, hs, rfl⟩ := List.mem_map.mp hmem
    obtain ⟨v, hv, hsim⟩ := (mem_zipIdx_iff h).mp hs
    refine htop.best i v s hv hsim ?_ (ofLex p) (List.mem_map_of_mem hp)
    rw [List.map_map]
    intro hi
    exact hnodup.2.2 i hi i (List.mem_map.mpr ⟨_, hq, rfl⟩) rfl

omit [FloatArith F] in
/-- Where a pair stays and one is left out, the result is a top `k` only if all similarities are the same. -/
theorem similarities_eq (h : vectors.map similarity = sims.map some) {k : Nat} (hk : 0 < k) (hlt : k < vectors.length)
    {found : List (F ×ₗ Nat)} (hnear : Nearest (fun p => p) k (sims.zipIdx.map toLex) found)
    (htop : TopK similarity vectors k (found.map ofLex)) :
    ∀ v ∈ vectors, ∀ w ∈ vectors, similarity v = similarity w := by
  obtain ⟨rest, hperm, hle⟩ := hnear.exists_rest
  have hfound : found.length = k := by
    rw [hnear.length, List.length_map, List.length_zipIdx, length_of_similarities h]
    exact Nat.min_eq_left hlt.le
  have htotal := hperm.length_eq
  rw [List.length_append, List.length_map, List.length_zipIdx, length_of_similarities h, hfound] at htotal
  have heq := left_out_eq h htop hperm hle
  obtain ⟨p₀, hp₀⟩ := List.exists_mem_of_length_pos (hfound ▸ hk)
  obtain ⟨q₀, hq₀⟩ := List.exists_mem_of_length_pos (l := rest) (by omega)
  have hall : ∀ v ∈ vectors, similarity v = some (ofLex p₀).1 := by
    intro v hv
    obtain ⟨i, hi⟩ := List.mem_iff_getElem?.mp hv
    have hsome := congrArg (fun l => l[i]?) h
    simp only [List.getElem?_map, hi, Option.map_some] at hsome
    obtain ⟨s, hs, hsim⟩ := Option.map_eq_some_iff.mp hsome.symm
    have hmem : toLex (s, i) ∈ found ++ rest := by
      apply hperm.symm.subset
      exact List.mem_map_of_mem (List.mk_mem_zipIdx_iff_getElem?.mpr hs)
    rw [← hsim]
    congr 1
    rcases List.mem_append.mp hmem with hf | hr
    · exact (heq _ hf q₀ hq₀).trans (heq p₀ hp₀ q₀ hq₀).symm
    · exact (heq p₀ hp₀ _ hr).symm
  intro v hv w hw
  rw [hall v hv, hall w hw]

end

/-- **The top `k`.** The result is right exactly when every vector is as long as the target, and nothing has to be chosen:
`k` is 0, or not below the number of vectors, or all vectors are equally similar. -/
theorem topK_iff (target : List F) (vectors : List (List F)) {k : Int} (hk : 0 ≤ k) (hint : k < 2 ^ 31) (metric : MetricType) :
    (∃ r, findTopKSimilarVectors target vectors k metric = some r ∧
      TopK (fun v => computeSimilarity target v metric) vectors k.toNat r) ↔
    (∀ v ∈ vectors, target.length ≤ v.length) ∧ (k = 0 ∨ vectors.length ≤ k ∨
      ∀ v ∈ vectors, ∀ w ∈ vectors, computeSimilarity target v metric = computeSimilarity target w metric) := by
  have hsize : toSizeT k = k.toNat := by rw [toSizeT, Int.emod_eq_of_lt hk (by omega)]
  constructor
  · rintro ⟨r, hr, htop⟩
    obtain ⟨sims, hsims⟩ := exists_similarities hr
    obtain ⟨found, hfound, hnear⟩ := findTopK_eq hsims k
    obtain rfl : found.map ofLex = r := Option.some.inj (hfound.symm.trans hr)
    rw [hsize] at hnear
    refine ⟨exists_similarities_iff.mp ⟨sims, hsims⟩, ?_⟩
    by_cases hzero : k = 0
    · exact Or.inl hzero
    · by_cases hle : vectors.length ≤ k
      · exact Or.inr (Or.inl hle)
      · exact Or.inr (Or.inr (similarities_eq hsims (by omega) (by omega) hnear htop))
  · rintro ⟨hlong, hcond⟩
    obtain ⟨sims, hsims⟩ := exists_similarities_iff.mpr hlong
    obtain ⟨found, hfound, hnear⟩ := findTopK_eq hsims k
    rw [hsize] at hnear
    refine ⟨_, hfound, ?_⟩
    rcases hcond with rfl | hle | heq
    · exact topK_zero hsims hnear
    · exact topK_of_le hsims (by omega) hnear
    · exact topK_of_eq hsims heq hnear

/-! ## Vectors of integers -/

instance : FloatArith Int := { sqrt := id }

/-- Two of three equally similar vectors are popped. -/
theorem topK_iff_evicted : ∃ r, findTopKSimilarVectors [1, 0] [[1, 0], [1, 1], [(1 : Int), 2]] 1 .dotProduct = some r ∧
    TopK (fun v => computeSimilarity [1, 0] v .dotProduct) [[1, 0], [1, 1], [(1 : Int), 2]] (1 : Int).toNat r :=
  (topK_iff [1, 0] [[1, 0], [1, 1], [1, 2]] (by decide) (by decide) .dotProduct).mpr
    ⟨by decide, Or.inr (Or.inr (by decide))⟩

/-- With two vectors and `k = 1` the more similar one is popped. -/
theorem most_similar_popped : ¬ ∀ (target : List Int) (vectors : List (List Int)) (k : Int) (metric : MetricType),
    0 ≤ k → k < 2 ^ 31 → (∀ v ∈ vectors, target.length ≤ v.length) →
    ∃ r, findTopKSimilarVectors target vectors k metric = some r ∧
      TopK (fun v => computeSimilarity target v metric) vectors k.toNat r := by
  intro h
  obtain ⟨r, hr, htop⟩ := h [1, 0] [[1, 0], [0, 1]] 1 .dotProduct (by decide) (by decide) (by decide)
  obtain rfl : [((0 : Int), 1)] = r := Option.some.inj ((show findTopKSimilarVectors _ _ _ _ = _ by decide +kernel).symm.trans hr)
  have hbest := htop.best 0 [1, 0] 1 rfl (by decide) (by decide) (0, 1) (by decide)
  exact absurd hbest (by decide)

end VectorSimilarity
end VectorDb
