import VectorDb.Validation

/-!
# What a `/search` response lists

* `SearchLibs.FaissAnswers`, `SearchLibs.KnnPops` : Faiss answers each query with its nearest entries and padding; hnswlib
  pops the farthest point first;
* `HttpServer.SearchRequest` : a request that the handler searches for; `Response.vectors` : the ids that it lists;
* `nearestFirst_iff` : FLAT lists the nearest first, HNSW only where all distances are the same;
* `oneQuery_of_few`, `oneQuery_iff` : FLAT answers one query for each `d` floats of the request;
* `lists_id_iff` : an id is listed as it is exactly below `2^63`.
-/

namespace VectorDb

variable {F : Type}

/-! ## The libraries -/

/-- The queries in an array of floats; what is left over is not one. -/
def queriesOf (d : Nat) (query : List F) : List (List F) :=
  (List.range (query.length / d)).map fun j => (query.drop (j * d)).take d

/-- The entries that a selector accepts, where there is one. -/
def selectedBy (sel : Option (Int64 → Bool)) (entries : List (Int64 × List F)) : List (Int64 × List F) :=
  entries.filter fun e => (sel.getD fun _ => true) e.1

section
variable [LinearOrder F] (dist : List F → List F → F)

/-- The `k` nearest entries, nearest first, padded with -1. -/
def AnswersQuery (entries : List (Int64 × List F)) (k : Nat) (query : List F) (answer : List (Int64 × F)) : Prop :=
  ∃ found pad, Nearest (fun e => dist query e.2) k entries found ∧
    answer = found.map (fun e => (e.1, dist query e.2)) ++ List.replicate (k - found.length) (-1, pad)

/-- Faiss answers the queries one after the other. -/
def SearchLibs.FaissAnswers (L : SearchLibs F) : Prop :=
  ∀ (ix : FaissIndex F) (query : List F) (k : Nat) (sel : Option (Int64 → Bool)), 0 < ix.d → 1 ≤ k →
    ∃ answers, List.Forall₂ (AnswersQuery dist (selectedBy sel ix.entries) k) (queriesOf ix.d query) answers ∧
      L.faissSearch ix (query.length / ix.d) query k sel = answers.flatten

end

/-- The top of hnswlib's queue is the farthest point. -/
def SearchLibs.KnnPops [LinearOrder F] (L : SearchLibs F) : Prop :=
  ∀ (ix : HNSWLibIndex F) (query : List F) (k : Int) (sel : Option (UInt64 → Bool)),
    (L.searchKnn ix query k sel).Pairwise fun a b => b.2 ≤ a.2

/-! ## Requests and responses -/

/-- The results that are not padding. -/
def listed (results : List (Int64 × F)) : List (Int64 × F) := results.filter fun r => r.1 ≠ -1

theorem listed_append (rs ss : List (Int64 × F)) : listed (rs ++ ss) = listed rs ++ listed ss := List.filter_append ..

theorem listed_replicate (n : Nat) (pad : F) : listed (List.replicate n ((-1 : Int64), pad)) = [] := by
  rw [listed, List.filter_eq_nil_iff]
  intro r hr
  rw [List.eq_of_mem_replicate hr]
  exact fun hc => of_decide_eq_true hc rfl

namespace HttpServer

/-- The ids in a response. -/
def Response.vectors (res : Response) : List Json := ((res.body.member? (ascii "vectors")).bind Json.elems?).getD []

theorem vectors_success (L : SearchLibs F) (results : List (Int64 × F)) :
    (success (searchMembers L results)).vectors = (listed results).map fun r => .int r.1.toInt := by
  unfold Response.vectors success searchMembers
  by_cases h : listed results = []
  · rw [h]
    have h' : results.filter (fun r => r.1 ≠ -1) = [] := h
    rw [if_pos h']
    rfl
  · have h' : results.filter (fun r => r.1 ≠ -1) ≠ [] := h
    rw [if_neg h']
    rfl

variable [CFloat F]

/-- A request that passes the checks, and what its accessors return. -/
structure SearchRequest (parse : Bytes → Option Json) (db : VectorDatabase F) (body : Bytes) (query : List F) (k : Int)
    (bitmap : Option (Finset UInt32)) : Prop where
  passes : Passes parse body .search
  vectors : readVector F (jsonRequest parse body) = some query
  k : ((jsonRequest parse body).member? requestK).bind Json.int32? = some k
  filter : filterBitmap db.stores.indexes.filter (jsonRequest parse body) = .ok bitmap

namespace SearchRequest
variable {L : SearchLibs F} {parse : Bytes → Option Json} {db : VectorDatabase F} {body : Bytes} {query : List F} {k : Int}
  {bitmap : Option (Finset UInt32)}

theorem searchHandler_eq (h : SearchRequest parse db body query k bitmap) : searchHandler L parse db body =
    (db.search L (jsonRequest parse body)).map fun results => success (searchMembers L results) := by
  obtain ⟨hobj, hval, htype⟩ := h.passes
  have htype' : getIndexTypeFromRequest (jsonRequest parse body) ≠ .unknown := htype
  unfold searchHandler
  simp only [← jsonRequest.eq_def, hobj, hval, not_true_eq_false, if_false, h.vectors, h.k, htype']

theorem search_flat (h : SearchRequest parse db body query k bitmap)
    (ht : getIndexTypeFromRequest (jsonRequest parse body) = .flat) :
    db.search L (jsonRequest parse body) = db.stores.indexes.flat.searchVectors L query k bitmap := by
  have ht' : VectorDb.getIndexTypeFromRequest (jsonRequest parse body) = .flat := ht
  simp only [VectorDatabase.search, h.vectors, h.k, h.filter, ht']

theorem search_hnsw (h : SearchRequest parse db body query k bitmap)
    (ht : getIndexTypeFromRequest (jsonRequest parse body) = .hnsw) :
    db.search L (jsonRequest parse body) = db.stores.indexes.hnsw.searchVectors L query k bitmap := by
  have ht' : VectorDb.getIndexTypeFromRequest (jsonRequest parse body) = .hnsw := ht
  simp only [VectorDatabase.search, h.vectors, h.k, h.filter, ht']

/-- Only two types are searched for. -/
theorem flat_or_hnsw (h : SearchRequest parse db body query k bitmap) :
    getIndexTypeFromRequest (jsonRequest parse body) = .flat ∨ getIndexTypeFromRequest (jsonRequest parse body) = .hnsw := by
  have htype : getIndexTypeFromRequest (jsonRequest parse body) ≠ .unknown := h.passes.2.2
  cases ht : getIndexTypeFromRequest (jsonRequest parse body) with
  | flat => exact Or.inl rfl
  | hnsw => exact Or.inr rfl
  | filter => exact absurd ht (getIndexTypeFromRequest_ne_filter _)
  | unknown => exact absurd ht htype

theorem k_lt (h : SearchRequest parse db body query k bitmap) : k < 2 ^ 31 := by
  obtain ⟨j, -, hj⟩ := Option.bind_eq_some_iff.mp h.k
  exact (Json.int32?_eq_some_iff.mp hj).2.2

/-- What FLAT answers to a number of queries that fits. -/
theorem search_flat_eq_ok [LinearOrder F] {dist : List F → List F → F} (hL : L.FaissAnswers dist)
    (h : SearchRequest parse db body query k bitmap) (ht : getIndexTypeFromRequest (jsonRequest parse body) = .flat)
    (hd : 0 < db.stores.indexes.flat.d) (hk : 1 ≤ k)
    (hfits : ((query.length / db.stores.indexes.flat.d : Nat) : Int) * k < 2 ^ 31) :
    ∃ answers, List.Forall₂
        (AnswersQuery dist (selectedBy (bitmap.map RoaringBitmapIDSelector.isMember) db.stores.indexes.flat.entries) k.toNat)
        (queriesOf db.stores.indexes.flat.d query) answers ∧
      db.search L (jsonRequest parse body) = .ok answers.flatten := by
  obtain ⟨answers, hanswers, hsearch⟩ := hL db.stores.indexes.flat query k.toNat
    (bitmap.map RoaringBitmapIDSelector.isMember) hd (by omega)
  refine ⟨answers, hanswers, ?_⟩
  rw [h.search_flat ht, FaissIndex.searchVectors, if_neg (Nat.ne_of_gt hd), if_neg (by omega), if_neg (by omega), hsearch]

end SearchRequest

/-! ## The order of the results -/

/-- The distances that are listed do not decrease. -/
def NearestFirst [LinearOrder F] (results : List (Int64 × F)) : Prop := (listed results).Pairwise fun a b => a.2 ≤ b.2

/-- All points, but one with the label of the padding, are equally far. -/
def OneDistance (popped : List (UInt64 × F)) : Prop :=
  ∀ a ∈ popped, ∀ b ∈ popped, a.1.toInt64 ≠ -1 → b.1.toInt64 ≠ -1 → a.2 = b.2

omit [CFloat F] in
/-- What one query finds is listed in its order. -/
theorem listed_answer [LinearOrder F] {dist : List F → List F → F} {entries : List (Int64 × List F)} {k : Nat}
    {query : List F} {answer : List (Int64 × F)} (h : AnswersQuery dist entries k query answer) :
    ∃ found, Nearest (fun e => dist query e.2) k entries found ∧
      listed answer = (found.filter fun e => e.1 ≠ -1).map fun e => (e.1, dist query e.2) := by
  obtain ⟨found, pad, hnear, rfl⟩ := h
  refine ⟨found, hnear, ?_⟩
  rw [listed_append, listed_replicate, List.append_nil, listed, List.filter_map]
  rfl

omit [CFloat F] in
theorem nearestFirst_answer [LinearOrder F] {dist : List F → List F → F} {entries : List (Int64 × List F)} {k : Nat}
    {query : List F} {answer : List (Int64 × F)} (h : AnswersQuery dist entries k query answer) : NearestFirst answer := by
  obtain ⟨found, hnear, hlisted⟩ := listed_answer h
  rw [NearestFirst, hlisted, List.pairwise_map]
  exact hnear.sorted.sublist List.filter_sublist

omit [CFloat F] in
/-- A queue emptied from its farthest point is in the order of the distances only if they are all the same. -/
theorem nearestFirst_popped_iff [LinearOrder F] {popped : List (UInt64 × F)} (h : popped.Pairwise fun a b => b.2 ≤ a.2) :
    NearestFirst (popped.map fun r => (r.1.toInt64, r.2)) ↔ OneDistance popped := by
  have hlisted : listed (popped.map fun r => (r.1.toInt64, r.2)) =
      (popped.filter fun r => r.1.toInt64 ≠ -1).map fun r => (r.1.toInt64, r.2) := List.filter_map ..
  rw [NearestFirst, hlisted, List.pairwise_map]
  constructor
  · intro hsorted a ha b hb hla hlb
    have heq : (popped.filter fun r => r.1.toInt64 ≠ -1).Pairwise fun a b => a.2 = b.2 :=
      hsorted.imp₂ (fun _ _ hab hba => le_antisymm hab hba) (h.sublist List.filter_sublist)
    have hmem : ∀ r ∈ popped, r.1.toInt64 ≠ -1 → r ∈ popped.filter fun r => r.1.toInt64 ≠ -1 := fun r hr hl =>
      List.mem_filter.mpr ⟨hr, decide_eq_true hl⟩
    have hsymm : Std.Symm fun a b : UInt64 × F => a.2 = b.2 := ⟨fun _ _ hab => hab.symm⟩
    exact List.Pairwise.forall_of_forall (R := fun a b : UInt64 × F => a.2 = b.2) (fun _ _ => rfl) heq (hmem a ha hla)
      (hmem b hb hlb)
  · intro hone
    apply List.pairwise_of_forall_mem_list
    intro a ha b hb
    rw [List.mem_filter] at ha hb
    exact (hone a ha.1 b hb.1 (of_decide_eq_true ha.2) (of_decide_eq_true hb.2)).le

/-- **The order of a response.** For every stored set of vectors, query of the index's dimension, `k` and filter, the
results are listed nearest first exactly when the request names FLAT, or HNSW returns points at one distance only. -/
theorem nearestFirst_iff [LinearOrder F] {L : SearchLibs F} {dist : List F → List F → F} (hL : L.FaissAnswers dist)
    (hknn : L.KnnPops) {parse : Bytes → Option Json} {db : VectorDatabase F} {body : Bytes} {query : List F} {k : Int}
    {bitmap : Option (Finset UInt32)} (h : SearchRequest parse db body query k bitmap) (hk : 1 ≤ k)
    (hpos : 0 < query.length)
    (hdim : query.length = db.stores.indexes.dim (getIndexTypeFromRequest (jsonRequest parse body))) :
    ∃ results, db.search L (jsonRequest parse body) = .ok results ∧
      searchHandler L parse db body = .ok (success (searchMembers L results)) ∧
      (NearestFirst results ↔ getIndexTypeFromRequest (jsonRequest parse body) = .flat ∨
        OneDistance (L.searchKnn db.stores.indexes.hnsw query k (bitmap.map RoaringBitmapIDFilter.call))) := by
  rw [h.searchHandler_eq]
  rcases h.flat_or_hnsw with ht | ht
  · rw [ht] at hdim ⊢
    have hd : query.length = db.stores.indexes.flat.d := hdim
    have hone : query.length / db.stores.indexes.flat.d = 1 := by rw [← hd, Nat.div_self hpos]
    obtain ⟨answers, hanswers, hsearch⟩ := h.search_flat_eq_ok hL ht (hd ▸ hpos) hk (by rw [hone]; have := h.k_lt; omega)
    rw [queriesOf, hone] at hanswers
    obtain ⟨answer, rest, hanswer, hrest, rfl⟩ := List.forall₂_cons_left_iff.mp hanswers
    obtain rfl := List.forall₂_nil_left_iff.mp hrest
    rw [hsearch]
    refine ⟨_, rfl, rfl, iff_of_true ?_ (Or.inl rfl)⟩
    rw [List.flatten_cons, List.flatten_nil, List.append_nil]
    exact nearestFirst_answer hanswer
  · have hd : ¬ query.length < db.stores.indexes.hnsw.d := by
      rw [ht] at hdim
      exact Nat.not_lt.mpr hdim.ge
    rw [h.search_hnsw ht, HNSWLibIndex.searchVectors, if_neg hd]
    refine ⟨_, rfl, rfl, ?_⟩
    rw [nearestFirst_popped_iff (hknn _ _ _ _)]
    constructor
    · intro hone
      exact Or.inr hone
    · rintro (hflat | hone)
      · cases ht.symm.trans hflat
      · exact hone

/-! ## The number of queries -/

/-- A response with at most `k` ids, all distinct, or an exception; undefined behaviour is neither. -/
def OneQuery (k : Int) : Except Fault Response → Prop
  | .ok res => res.vectors.length ≤ k ∧ res.vectors.Nodup
  | .error e => e ≠ .overflow

/-- Faiss gets one query at most, or nothing to find and a number of results that fits an `int`. -/
def FewQueries (d : Nat) (query : List F) (k : Int) (entries : List (Int64 × List F)) : Prop :=
  query.length / d ≤ 1 ∨ (((query.length / d : Nat) : Int) * k < 2 ^ 31 ∧ ∀ e ∈ entries, e.1 = -1)

omit [CFloat F] in
theorem oneQuery_success_iff (L : SearchLibs F) (k : Int) (results : List (Int64 × F)) :
    OneQuery k (.ok (success (searchMembers L results))) ↔
      ((listed results).length : Int) ≤ k ∧ ((listed results).map Prod.fst).Nodup := by
  have hmap : (listed results).map (fun r => Json.int r.1.toInt) =
      ((listed results).map Prod.fst).map fun l => Json.int l.toInt := by rw [List.map_map]; rfl
  have hinj : Function.Injective fun l : Int64 => Json.int l.toInt := by
    intro a b hab
    simp only [Json.num.injEq, Number.int.injEq] at hab
    exact Int64.toInt_inj.mp hab
  rw [OneQuery, vectors_success, List.length_map, hmap, List.nodup_map_iff hinj]

omit [CFloat F] in
/-- The ids that one query finds. -/
theorem labels_answer [LinearOrder F] {dist : List F → List F → F} {entries : List (Int64 × List F)} {k : Nat}
    {query : List F} {answer : List (Int64 × F)} (h : AnswersQuery dist entries k query answer) :
    ∃ found, Nearest (fun e => dist query e.2) k entries found ∧
      (listed answer).map Prod.fst = (found.map Prod.fst).filter fun l => l ≠ -1 := by
  obtain ⟨found, hnear, hlisted⟩ := listed_answer h
  refine ⟨found, hnear, ?_⟩
  rw [hlisted, List.map_map, List.filter_map]
  rfl

section
variable [LinearOrder F] {L : SearchLibs F} {dist : List F → List F → F} {entries : List (Int64 × List F)} {k : Nat}

omit [CFloat F] in
/-- One answer lists at most `k` ids, all distinct. -/
theorem one_answer {query : List F} {answer : List (Int64 × F)} (h : AnswersQuery dist entries k query answer)
    (hnodup : (entries.map Prod.fst).Nodup) : (listed answer).length ≤ k ∧ ((listed answer).map Prod.fst).Nodup := by
  obtain ⟨found, hnear, hlabels⟩ := labels_answer h
  constructor
  · rw [← @List.length_map _ _ (listed answer) Prod.fst, hlabels]
    calc ((found.map Prod.fst).filter fun l => l ≠ -1).length ≤ (found.map Prod.fst).length := List.length_filter_le _ _
      _ = found.length := List.length_map ..
      _ = min k entries.length := hnear.length
      _ ≤ k := Nat.min_le_left _ _
  · rw [hlabels]
    exact (hnear.nodup_map hnodup).filter _

omit [CFloat F] in
/-- Where there is nothing to find, nothing is listed. -/
theorem listed_flatten_of_none {queries : List (List F)} {answers : List (List (Int64 × F))}
    (h : List.Forall₂ (AnswersQuery dist entries k) queries answers) (hnone : ∀ e ∈ entries, e.1 = -1) :
    listed answers.flatten = [] := by
  induction h with
  | nil => rfl
  | cons ha _ ih =>
    obtain ⟨found, hnear, hlisted⟩ := listed_answer ha
    have hempty : (found.filter fun e => e.1 ≠ -1) = [] := by
      rw [List.filter_eq_nil_iff]
      intro e he
      simpa using hnone e (hnear.mem he)
    rw [List.flatten_cons, listed_append, hlisted, hempty, ih]
    rfl

omit [CFloat F] in
/-- Two answers list an id twice, or more than `k` ids. -/
theorem two_answers {query query' : List F} {answer answer' : List (Int64 × F)} {rest : List (List (Int64 × F))}
    (h : AnswersQuery dist entries k query answer) (h' : AnswersQuery dist entries k query' answer') (hk : 1 ≤ k)
    (hlabels : ∀ e ∈ entries, e.1 ≠ -1) (hsome : entries ≠ [])
    (hlen : (listed (answer :: answer' :: rest).flatten).length ≤ k) :
    ¬ ((listed (answer :: answer' :: rest).flatten).map Prod.fst).Nodup := by
  have hall : ∀ {q : List F} {found}, Nearest (fun e => dist q e.2) k entries found →
      (found.map Prod.fst).filter (fun l => l ≠ -1) = found.map Prod.fst := by
    intro q found hnear
    rw [List.filter_eq_self]
    intro l hl
    obtain ⟨e, he, rfl⟩ := List.mem_map.mp hl
    exact decide_eq_true (hlabels e (hnear.mem he))
  obtain ⟨found, hnear, hfst⟩ := labels_answer h
  obtain ⟨found', hnear', hfst'⟩ := labels_answer h'
  rw [hall hnear] at hfst
  rw [hall hnear'] at hfst'
  have hlen₁ : (listed answer).length = found.length := by
    rw [← @List.length_map _ _ (listed answer) Prod.fst, hfst, List.length_map]
  have hlen₂ : (listed answer').length = found'.length := by
    rw [← @List.length_map _ _ (listed answer') Prod.fst, hfst', List.length_map]
  have hpos := List.length_pos_of_ne_nil hsome
  rw [List.flatten_cons, List.flatten_cons, listed_append, listed_append, List.length_append, List.length_append, hlen₁,
    hlen₂, hnear.length, hnear'.length] at hlen
  -- there are no more entries than `k`, so both answers have all of them
  have hle : entries.length ≤ k := by omega
  obtain ⟨e, he⟩ := List.exists_mem_of_ne_nil entries hsome
  rw [List.flatten_cons, List.flatten_cons, listed_append, listed_append, List.map_append, List.map_append, hfst, hfst']
  intro hnodup
  rw [List.nodup_append] at hnodup
  have hleft : e.1 ∈ found.map Prod.fst := List.mem_map_of_mem ((hnear.perm_of_le hle).symm.subset he)
  have hright : e.1 ∈ found'.map Prod.fst := List.mem_map_of_mem ((hnear'.perm_of_le hle).symm.subset he)
  exact hnodup.2.2 _ hleft _ (List.mem_append_left _ hright) rfl

variable {parse : Bytes → Option Json} {db : VectorDatabase F} {body : Bytes} {query : List F} {k : Int}
  {bitmap : Option (Finset UInt32)}

omit [LinearOrder F] in
/-- Too many results to count. -/
theorem searchHandler_overflow (h : SearchRequest parse db body query k bitmap)
    (ht : getIndexTypeFromRequest (jsonRequest parse body) = .flat) (hd : 0 < db.stores.indexes.flat.d) (hk : 1 ≤ k)
    (hover : 2 ^ 31 ≤ ((query.length / db.stores.indexes.flat.d : Nat) : Int) * k) :
    searchHandler L parse db body = .error .overflow := by
  rw [h.searchHandler_eq, h.search_flat ht, FaissIndex.searchVectors, if_neg (Nat.ne_of_gt hd), if_neg (by omega), if_pos hover]
  rfl

/-- One query at most, or nothing to find. -/
theorem oneQuery_of_few (hL : L.FaissAnswers dist) (h : SearchRequest parse db body query k bitmap)
    (ht : getIndexTypeFromRequest (jsonRequest parse body) = .flat) (hd : 0 < db.stores.indexes.flat.d) (hk : 1 ≤ k)
    (hnodup : FlatNodup db.stores) (hfew : FewQueries db.stores.indexes.flat.d query k
      (selectedBy (bitmap.map RoaringBitmapIDSelector.isMember) db.stores.indexes.flat.entries)) :
    OneQuery k (searchHandler L parse db body) := by
  have hfits : ((query.length / db.stores.indexes.flat.d : Nat) : Int) * k < 2 ^ 31 := by
    rcases hfew with hfew | ⟨hfits, -⟩
    · have hone : ((query.length / db.stores.indexes.flat.d : Nat) : Int) ≤ 1 := by exact_mod_cast hfew
      calc ((query.length / db.stores.indexes.flat.d : Nat) : Int) * k ≤ 1 * k := Int.mul_le_mul_of_nonneg_right hone (by omega)
        _ = k := Int.one_mul k
        _ < 2 ^ 31 := h.k_lt
    · exact hfits
  obtain ⟨answers, hanswers, hsearch⟩ := h.search_flat_eq_ok hL ht hd hk hfits
  rw [h.searchHandler_eq, hsearch]
  refine (oneQuery_success_iff L k _).mpr ?_
  have hnone : listed answers.flatten = [] → ((listed answers.flatten).length : Int) ≤ k ∧
      ((listed answers.flatten).map Prod.fst).Nodup := by
    intro hnil
    rw [hnil, List.length_nil]
    exact ⟨by omega, List.nodup_nil⟩
  rcases hfew with hfew | ⟨-, hempty⟩
  · unfold queriesOf at hanswers
    rcases Nat.le_one_iff_eq_zero_or_eq_one.mp hfew with hn | hn
    · rw [hn] at hanswers
      obtain rfl := List.forall₂_nil_left_iff.mp hanswers
      exact hnone rfl
    · rw [hn] at hanswers
      obtain ⟨answer, rest, hanswer, hrest, rfl⟩ := List.forall₂_cons_left_iff.mp hanswers
      obtain rfl := List.forall₂_nil_left_iff.mp hrest
      rw [List.flatten_cons, List.flatten_nil, List.append_nil]
      obtain ⟨hlen, hdistinct⟩ := one_answer hanswer (List.Nodup.sublist (List.filter_sublist.map Prod.fst) hnodup)
      exact ⟨by omega, hdistinct⟩
  · exact hnone (listed_flatten_of_none hanswers hempty)

/-- Without an entry of the label -1, more queries list an id twice, or more than `k` ids. -/
theorem few_of_oneQuery (hL : L.FaissAnswers dist) (h : SearchRequest parse db body query k bitmap)
    (ht : getIndexTypeFromRequest (jsonRequest parse body) = .flat) (hd : 0 < db.stores.indexes.flat.d) (hk : 1 ≤ k)
    (hlabels : ∀ e ∈ db.stores.indexes.flat.entries, e.1 ≠ -1) (hone : OneQuery k (searchHandler L parse db body)) :
    FewQueries db.stores.indexes.flat.d query k
      (selectedBy (bitmap.map RoaringBitmapIDSelector.isMember) db.stores.indexes.flat.entries) := by
  by_contra hmany
  unfold FewQueries at hmany
  rw [not_or] at hmany
  by_cases hfits : ((query.length / db.stores.indexes.flat.d : Nat) : Int) * k < 2 ^ 31
  · obtain ⟨answers, hanswers, hsearch⟩ := h.search_flat_eq_ok hL ht hd hk hfits
    rw [h.searchHandler_eq, hsearch] at hone
    obtain ⟨hlen, hdistinct⟩ := (oneQuery_success_iff L k _).mp hone
    -- there are two queries at least, and something to find
    have hsel : ∀ e ∈ selectedBy (bitmap.map RoaringBitmapIDSelector.isMember) db.stores.indexes.flat.entries, e.1 ≠ -1 :=
      fun e he => hlabels e (List.mem_filter.mp he).1
    have hsome : selectedBy (bitmap.map RoaringBitmapIDSelector.isMember) db.stores.indexes.flat.entries ≠ [] := by
      intro hnil
      refine hmany.2 ⟨hfits, fun e he => ?_⟩
      rw [hnil] at he
      cases he
    obtain ⟨n, hn⟩ : ∃ n, query.length / db.stores.indexes.flat.d = n + 2 := ⟨_, (Nat.sub_add_cancel (by omega)).symm⟩
    rw [queriesOf, hn, List.range_succ_eq_map, List.range_succ_eq_map] at hanswers
    obtain ⟨answer, rest, hanswer, hrest, rfl⟩ := List.forall₂_cons_left_iff.mp hanswers
    obtain ⟨answer', rest', hanswer', -, rfl⟩ := List.forall₂_cons_left_iff.mp hrest
    exact two_answers hanswer hanswer' (by omega) hsel hsome (by omega) hdistinct
  · rw [searchHandler_overflow h ht hd hk (by omega)] at hone
    exact hone rfl

/-- **One query.** In every FLAT index with at most one entry for each id, an accepted request is answered with at most
`k` distinct ids if its array holds one whole query at most, or nothing passes the filter and the number of results fits
an `int`. Without an entry of the label -1 this is needed too. -/
theorem oneQuery_iff (hL : L.FaissAnswers dist) (h : SearchRequest parse db body query k bitmap)
    (ht : getIndexTypeFromRequest (jsonRequest parse body) = .flat) (hd : 0 < db.stores.indexes.flat.d) (hk : 1 ≤ k)
    (hnodup : FlatNodup db.stores) :
    (FewQueries db.stores.indexes.flat.d query k
        (selectedBy (bitmap.map RoaringBitmapIDSelector.isMember) db.stores.indexes.flat.entries) →
      OneQuery k (searchHandler L parse db body)) ∧
    ((∀ e ∈ db.stores.indexes.flat.entries, e.1 ≠ -1) → OneQuery k (searchHandler L parse db body) →
      FewQueries db.stores.indexes.flat.d query k
        (selectedBy (bitmap.map RoaringBitmapIDSelector.isMember) db.stores.indexes.flat.entries)) :=
  ⟨oneQuery_of_few hL h ht hd hk hnodup, few_of_oneQuery hL h ht hd hk⟩

end

/-! ## The ids -/

/-- The library answers with the entry that an upsert of the id has left, between others: FLAT's with the label of the
last entry after the upsert, HNSW's with the id, which the wrapper makes a `long`. -/
def Finds (L : SearchLibs F) (upserted : Stores F) (db : VectorDatabase F) (query : List F) (k : Int) (id : UInt64) (x : F)
    (before after : List (Int64 × F)) : IndexType → Prop
  | .flat => ∃ e, upserted.indexes.flat.entries.getLast? = some e ∧
      L.faissSearch db.stores.indexes.flat (query.length / db.stores.indexes.flat.d) query k.toNat none =
        before ++ (e.1, x) :: after
  | .hnsw => ∃ us vs, L.searchKnn db.stores.indexes.hnsw query k none = us ++ (id, x) :: vs ∧
      before = us.map (fun r => (r.1.toInt64, r.2)) ∧ after = vs.map fun r => (r.1.toInt64, r.2)
  | _ => False

/-- The ids of the results that are not padding. -/
def idsOf (results : List (Int64 × F)) : List Json := (listed results).map fun r => .int r.1.toInt

omit [CFloat F] in
/-- A `long` holds the id exactly below `2^63`. -/
theorem toInt_toInt64_iff (id : UInt64) : id.toInt64.toInt = id.toNat ↔ id.toNat < 2 ^ 63 := by
  show id.toBitVec.toInt = (id.toBitVec.toNat : Int) ↔ id.toBitVec.toNat < 2 ^ 63
  have hlt := id.toBitVec.isLt
  rw [BitVec.toInt_eq_toNat_cond]
  split
  · omega
  · omega

omit [CFloat F] in
theorem idsOf_append_cons_iff (before after : List (Int64 × F)) (id : UInt64) (x : F) :
    idsOf (before ++ (id.toInt64, x) :: after) = idsOf before ++ .int id.toNat :: idsOf after ↔ id.toNat < 2 ^ 63 := by
  rw [← toInt_toInt64_iff]
  unfold idsOf
  rw [listed_append, List.map_append, List.append_cancel_left_eq]
  by_cases hpad : id.toInt64 = -1
  · -- the label of the padding is not listed
    have hcons : listed ((id.toInt64, x) :: after) = listed after := List.filter_cons_of_neg (by simp [hpad])
    rw [hcons]
    constructor
    · intro h
      have hlen := congrArg List.length h
      rw [List.length_cons] at hlen
      omega
    · intro h
      rw [hpad] at h
      have hneg : (-1 : Int64).toInt = -1 := by decide
      omega
  · have hcons : listed ((id.toInt64, x) :: after) = (id.toInt64, x) :: listed after :=
      List.filter_cons_of_pos (by simpa using hpad)
    rw [hcons, List.map_cons, List.cons.injEq, Json.num.injEq, Number.int.injEq]
    exact and_iff_left rfl

/-- An upsert into FLAT leaves its entry at the end. -/
theorem getLast?_entries_applied {s t : Stores F} {d : Json} (h : Applied s d t) {id : UInt64} (hid : docId d = some id)
    (ht : VectorDb.getIndexTypeFromRequest d = .flat) {e : Int64 × List F} (he : t.indexes.flat.entries.getLast? = some e) :
    e.1 = id.toInt64 := by
  obtain ⟨i, v, hi, -, rfl⟩ := h
  obtain rfl : i = id := Option.some.inj (hi.symm.trans hid)
  rw [Stores.entries_upserted, if_pos ht, List.getLast?_concat] at he
  rw [← Option.some.inj he]

/-- **The id in a response.** When an unfiltered search finds the entry that an upsert of an id has left in the index that
the request names, the response lists that id, between the other ids as they are listed without it, exactly when it is
below `2^63`. -/
theorem lists_id_iff {L : SearchLibs F} {parse : Bytes → Option Json} {db : VectorDatabase F} {body : Bytes} {query : List F}
    {k : Int} (h : SearchRequest parse db body query k none) {results : List (Int64 × F)}
    (hok : db.search L (jsonRequest parse body) = .ok results) {s t : Stores F} {d : Json} (hup : Applied s d t)
    {id : UInt64} (hid : docId d = some id)
    (htype : VectorDb.getIndexTypeFromRequest d = getIndexTypeFromRequest (jsonRequest parse body)) {x : F}
    {before after : List (Int64 × F)}
    (hfinds : Finds L t db query k id x before after (getIndexTypeFromRequest (jsonRequest parse body))) :
    ∃ res, searchHandler L parse db body = .ok res ∧
      (res.vectors = idsOf before ++ .int id.toNat :: idsOf after ↔ id.toNat < 2 ^ 63) := by
  have hresults : results = before ++ (id.toInt64, x) :: after := by
    rcases h.flat_or_hnsw with ht | ht
    · rw [ht] at hfinds
      obtain ⟨e, he, hsearch⟩ := hfinds
      rw [getLast?_entries_applied hup hid (htype.trans ht) he] at hsearch
      rw [h.search_flat ht, FaissIndex.searchVectors] at hok
      split at hok
      · cases hok
      · split at hok
        · cases hok
        · split at hok
          · cases hok
          · exact (Except.ok.inj hok).symm.trans hsearch
    · rw [ht] at hfinds
      obtain ⟨us, vs, hknn, rfl, rfl⟩ := hfinds
      rw [h.search_hnsw ht, HNSWLibIndex.searchVectors] at hok
      split at hok
      · cases hok
      · rw [Option.map_none, hknn, List.map_append, List.map_cons] at hok
        exact (Except.ok.inj hok).symm
  refine ⟨_, by rw [h.searchHandler_eq, hok, Except.map], ?_⟩
  rw [vectors_success, hresults]
  exact idsOf_append_cons_iff before after id x

/-! ## Searches of small indexes -/

/-- Libraries for vectors of one number. -/
def batchLibs : SearchLibs Int where
  faissSearch ix _ query k sel := (queriesOf ix.d query).flatMap fun q =>
    let found := takeNearest (fun e => lineDist q e.2) k (selectedBy sel ix.entries)
    found.map (fun e => (e.1, lineDist q e.2)) ++ List.replicate (k - found.length) (-1, 0)
  searchKnn ix query k sel :=
    (takeNearest Prod.snd k.toNat
      ((ix.points.toList.filter fun p => (sel.getD fun _ => true) p.1).map fun p => (p.1, lineDist query p.2))).reverse
  toNumber := .int

theorem batchLibs_answers : batchLibs.FaissAnswers lineDist := by
  intro ix query k sel _ _
  refine ⟨(queriesOf ix.d query).map _, ?_, List.flatMap_def⟩
  rw [List.forall₂_map_right_iff, List.forall₂_same]
  intro q _
  exact ⟨_, 0, nearest_takeNearest _ _ _, rfl⟩

theorem batchLibs_pops : batchLibs.KnnPops := by
  intro ix query k sel
  show List.Pairwise _ (List.reverse _)
  rw [List.pairwise_reverse]
  exact (nearest_takeNearest _ _ _).sorted

/-- A request without a filter. -/
def plainRequest (xs : List Int) (k : Int) (indexType : Bytes) : Json :=
  .obj [(requestVectors, .arr (xs.map .int)), (requestK, .int k), (requestIndexType, .str indexType)]

def plainParser (xs : List Int) (k : Int) (indexType : Bytes) : Bytes → Option Json := fun _ => some (plainRequest xs k indexType)

/-- A database with these stores. -/
def ofStores (stores : Stores Int) : VectorDatabase Int := { (VectorDatabase.fresh 1 : VectorDatabase Int) with stores }

/-- One entry in FLAT. -/
def inFlat (id : UInt64) : VectorDatabase Int := ofStores ((Stores.fresh 1).upserted id (flatDocument id.toNat 0 []) [0] .flat)

/-- Two points in HNSW. -/
def twoPoints : VectorDatabase Int :=
  ofStores (((Stores.fresh 1).upserted 1 LogStateMachine.hnswDoc [0] .hnsw).upserted 2 LogStateMachine.hnswDoc [5] .hnsw)

theorem searchRequest_inFlat (id : UInt64) :
    SearchRequest (plainParser [0] 1 indexTypeFlat) (inFlat id) [] ([0] : List Int) 1 none :=
  ⟨⟨by rfl, by rfl, by decide⟩, by rfl, by rfl, by rfl⟩

theorem entries_inFlat (id : UInt64) : (inFlat id).stores.indexes.flat.entries = [(id.toInt64, [0])] := by
  show (Stores.upserted _ id _ _ _).indexes.flat.entries = _
  rw [Stores.entries_upserted]
  rfl

theorem flatNodup_inFlat (id : UInt64) : FlatNodup (inFlat id).stores := by
  rw [FlatNodup, entries_inFlat]
  exact List.nodup_singleton _

theorem nearestFirst_iff_inFlat : ∃ results,
    (inFlat 1).search batchLibs (jsonRequest (plainParser [0] 1 indexTypeFlat) []) = .ok results ∧
    searchHandler batchLibs (plainParser [0] 1 indexTypeFlat) (inFlat 1) [] = .ok (success (searchMembers batchLibs results)) ∧
    (NearestFirst results ↔ getIndexTypeFromRequest (jsonRequest (plainParser [0] 1 indexTypeFlat) []) = .flat ∨
      OneDistance (batchLibs.searchKnn (inFlat 1).stores.indexes.hnsw [0] 1 (Option.map RoaringBitmapIDFilter.call none))) :=
  nearestFirst_iff batchLibs_answers batchLibs_pops (searchRequest_inFlat 1) (by decide) (by decide) (by decide +kernel)

/-- HNSW lists the farther point first. -/
theorem farthest_first : ¬ ∀ (parse : Bytes → Option Json) (db : VectorDatabase Int) (body : Bytes) (query : List Int)
    (k : Int) (bitmap : Option (Finset UInt32)), SearchRequest parse db body query k bitmap → 1 ≤ k →
    query.length = 1 → OfDim 1 db.stores.indexes →
    ∃ results, db.search batchLibs (jsonRequest parse body) = .ok results ∧ NearestFirst results := by
  intro h
  obtain ⟨results, hok, hsorted⟩ := h (plainParser [0] 2 indexTypeHnsw) twoPoints [] [0] 2 none
    ⟨⟨by rfl, by rfl, by decide⟩, by rfl, by rfl, by rfl⟩ (by decide) (by decide) ⟨rfl, rfl⟩
  have hresults : twoPoints.search batchLibs (jsonRequest (plainParser [0] 2 indexTypeHnsw) []) = .ok [(2, 5), (1, 0)] := by
    rfl
  cases hresults.symm.trans hok
  have hle : (listed [((2 : Int64), (5 : Int)), (1, 0)]).Pairwise fun a b => a.2 ≤ b.2 := hsorted
  exact absurd hle (by decide)

theorem oneQuery_iff_inFlat :
    (FewQueries 1 ([0] : List Int) 1 (selectedBy (Option.map RoaringBitmapIDSelector.isMember none) (inFlat 1).stores.indexes.flat.entries) →
      OneQuery 1 (searchHandler batchLibs (plainParser [0] 1 indexTypeFlat) (inFlat 1) [])) ∧
    ((∀ e ∈ (inFlat 1).stores.indexes.flat.entries, e.1 ≠ -1) →
      OneQuery 1 (searchHandler batchLibs (plainParser [0] 1 indexTypeFlat) (inFlat 1) []) →
      FewQueries 1 ([0] : List Int) 1
        (selectedBy (Option.map RoaringBitmapIDSelector.isMember none) (inFlat 1).stores.indexes.flat.entries)) :=
  oneQuery_iff batchLibs_answers (searchRequest_inFlat 1) (by decide) (by decide) (by decide) (flatNodup_inFlat 1)

/-- Two queries in one array find the same id. -/
theorem id_listed_twice : ¬ ∀ (parse : Bytes → Option Json) (db : VectorDatabase Int) (body : Bytes) (query : List Int)
    (k : Int) (bitmap : Option (Finset UInt32)), SearchRequest parse db body query k bitmap → 1 ≤ k →
    getIndexTypeFromRequest (jsonRequest parse body) = .flat → 0 < db.stores.indexes.flat.d → FlatNodup db.stores →
    OneQuery k (searchHandler batchLibs parse db body) := by
  intro h
  have hone := h (plainParser [0, 0] 1 indexTypeFlat) (inFlat 1) [] [0, 0] 1 none
    ⟨⟨by rfl, by rfl, by decide⟩, by rfl, by rfl, by rfl⟩ (by decide) (by decide) (by decide) (flatNodup_inFlat 1)
  have hres : searchHandler batchLibs (plainParser [0, 0] 1 indexTypeFlat) (inFlat 1) [] =
      .ok (success (searchMembers batchLibs [(1, 0), (1, 0)])) := by rfl
  rw [hres, oneQuery_success_iff] at hone
  exact absurd hone.1 (by decide +kernel)

theorem docId_flatDocument (id : UInt64) : docId (flatDocument id.toNat 0 []) = some id := by
  have hlt : ((id.toNat : Nat) : Int) < 2 ^ 64 := by exact_mod_cast id.toNat_lt
  have hid : (flatDocument id.toNat 0 []).member? requestId = some (.int id.toNat) := by simp [flatDocument, Json.member?]
  rw [docId, hid, Option.bind_some, Json.uint64?, if_pos ⟨Int.natCast_nonneg _, hlt⟩, Int.toNat_natCast, UInt64.ofNat_toNat]

/-- The upsert of `inFlat`. -/
theorem applied_inFlat (id : UInt64) :
    Applied (Stores.fresh 1) (flatDocument id.toNat 0 []) (inFlat id).stores := by
  have hnull : (Stores.fresh 1 : Stores Int).document id = .null := Stores.document_fresh 1 id
  refine ⟨id, [0], docId_flatDocument id, ⟨?_, rfl, Nat.le_refl 1, ?_⟩, rfl⟩
  · rw [hnull]
    decide
  · rw [hnull]
    intro h
    cases h

theorem getLast?_inFlat (id : UInt64) : (inFlat id).stores.indexes.flat.entries.getLast? = some (id.toInt64, [0]) := by
  rw [entries_inFlat]
  rfl

theorem lists_id_iff_one : ∃ res, searchHandler batchLibs (plainParser [0] 1 indexTypeFlat) (inFlat 1) [] = .ok res ∧
    (res.vectors = idsOf ([] : List (Int64 × Int)) ++ .int (1 : UInt64).toNat :: idsOf ([] : List (Int64 × Int)) ↔
      (1 : UInt64).toNat < 2 ^ 63) :=
  have hok : (inFlat 1).search batchLibs (jsonRequest (plainParser [0] 1 indexTypeFlat) []) = .ok [(1, 0)] := by rfl
  lists_id_iff (searchRequest_inFlat 1) hok (applied_inFlat 1) (docId_flatDocument 1) rfl ⟨_, getLast?_inFlat 1, by rfl⟩

/-- The least id that a `long` does not hold. -/
theorem negative_id_listed : ¬ ∀ (parse : Bytes → Option Json) (db : VectorDatabase Int) (body : Bytes) (query : List Int)
    (k : Int) (results : List (Int64 × Int)) (s t : Stores Int) (d : Json) (id : UInt64) (x : Int)
    (before after : List (Int64 × Int)), SearchRequest parse db body query k none → db.search batchLibs (jsonRequest parse body) = .ok results →
    Applied s d t → docId d = some id →
    VectorDb.getIndexTypeFromRequest d = getIndexTypeFromRequest (jsonRequest parse body) →
    Finds batchLibs t db query k id x before after (getIndexTypeFromRequest (jsonRequest parse body)) →
    ∃ res, searchHandler batchLibs parse db body = .ok res ∧ res.vectors = idsOf before ++ .int id.toNat :: idsOf after := by
  intro h
  obtain ⟨res, hok, hlist⟩ := h (plainParser [0] 1 indexTypeFlat) (inFlat 9223372036854775808) [] [0] 1
    [(-9223372036854775808, 0)] _ _ _ 9223372036854775808 0 [] [] (searchRequest_inFlat _) (by rfl)
    (applied_inFlat _) (docId_flatDocument _) rfl ⟨_, getLast?_inFlat _, by rfl⟩
  have hres : searchHandler batchLibs (plainParser [0] 1 indexTypeFlat) (inFlat 9223372036854775808) [] =
      .ok (success (searchMembers batchLibs [(-9223372036854775808, 0)])) := by rfl
  cases hres.symm.trans hok
  rw [vectors_success] at hlist
  have hhead := congrArg (fun l => l.head?.bind Json.int64?) hlist
  exact absurd hhead (by decide +kernel)

end HttpServer
end VectorDb
