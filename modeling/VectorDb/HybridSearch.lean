import VectorDb.StateMachine
import VectorDb.Search
import VectorDb.Lib.Nearest

/-!
# What a filtered FLAT search returns

* `SearchLibs.FaissExact` : Faiss returns the nearest entries whose ids its selector accepts, then padding;
* `Matches` : the document satisfies the comparison of a filter;
* `matches_iff`, `mem_entries_applied`, `isMember_iff` : what the bitmaps and the entries hold after a run of documents
  that `HybridDocs` describes;
* `ExactAnswer`, `hybrid_search_exact` : a filtered search answers with the nearest ids whose last document satisfies
  the comparison, when every integer field is found by the name that `GetString` returns;
* `cut_name_matches` : a name with a NUL is filed under another one.
-/

namespace VectorDb

variable {F : Type}

/-! ## The library -/

/-- The `k` nearest entries whose id the selector accepts, nearest first, padded with -1. -/
def SearchLibs.FaissExact [LinearOrder F] (L : SearchLibs F) (dist : List F → List F → F) : Prop :=
  ∀ (ix : FaissIndex F) (query : List F) (k : Nat) (sel : Int64 → Bool), query.length = ix.d → 1 ≤ k →
    ∃ found pad, Nearest (fun e => dist query e.2) k (ix.entries.filter fun e => sel e.1) found ∧
      L.faissSearch ix 1 query k (some sel) =
        found.map (fun e => (e.1, dist query e.2)) ++ List.replicate (k - found.length) (-1, pad)

/-! ## Documents and filters -/

/-- A 32-bit integer member of this name. -/
def HasInt (d : Json) (name : Bytes) : Prop := ∃ j, d.member? name = some j ∧ j.isInt = true

/-- The field is a 32-bit integer that satisfies the comparison; `id` is no field. -/
def Matches (d : Json) (f : Bytes) (op : Operation) (value : Int64) : Prop :=
  f ≠ ascii "id" ∧ ∃ j w, d.member? f = some j ∧ j.isInt = true ∧ j.int64? = some w ∧ op.test value w

/-- Documents for FLAT with small ids, vectors of its dimension, distinct member names, and the same integer fields in
all documents of an id. -/
structure HybridDocs (F : Type) [CFloat F] (dim : Nat) (ds : List Json) : Prop where
  small : ∀ d ∈ ds, ∀ i, docId d = some i → SmallId i
  flat : ∀ d ∈ ds, getIndexTypeFromRequest d = .flat
  length : ∀ d ∈ ds, ∀ v, readVector F d = some v → v.length = dim
  nodup : ∀ d ∈ ds, (d.members.map Prod.fst).Nodup
  same : ∀ d ∈ ds, ∀ e ∈ ds, docId d = docId e → ∀ name, HasInt d name ↔ HasInt e name

theorem exists_mem_intFields_iff {d : Json} (h : (d.members.map Prod.fst).Nodup) (f : Bytes) :
    (∃ v, (f, v) ∈ intFields d) ↔ f ≠ ascii "id" ∧ ∃ name, cstr name = f ∧ HasInt d name := by
  constructor
  · rintro ⟨v, hv⟩
    obtain ⟨m, hm, hint, hcstr, hid, -⟩ := mem_intFields.mp hv
    exact ⟨hid, m.1, hcstr, m.2, Json.member?_of_nodup h hm, hint⟩
  · rintro ⟨hid, name, hcstr, j, hj, hint⟩
    obtain ⟨v, hv⟩ := Json.int64?_isSome_of_isInt hint
    exact ⟨v, mem_intFields.mpr ⟨(name, j), Json.mem_members_of_member? hj, hint, hcstr, hid, hv⟩⟩

theorem HybridDocs.uniform [CFloat F] {dim : Nat} {ds : List Json} (h : HybridDocs F dim ds) (hn : ∀ d ∈ ds, WellNamed d) :
    UniformFields ds where
  small := h.small
  wellNamed := hn
  same d hd e he hid f := by
    rw [exists_mem_intFields_iff (h.nodup d hd), exists_mem_intFields_iff (h.nodup e he)]
    simp only [h.same d hd e he hid]

/-- The fields filed in the index are those that a filter without a NUL in its name can ask for. -/
theorem matches_iff {d : Json} (hd : WellNamed d) {f : Bytes} (hf : 0 ∉ f) (op : Operation) (value : Int64) :
    Matches d f op value ↔ ∃ w, op.test value w ∧ (f, w) ∈ intFields d := by
  constructor
  · rintro ⟨hid, j, w, hj, hint, hw, htest⟩
    exact ⟨w, htest, mem_intFields.mpr ⟨(f, j), Json.mem_members_of_member? hj, hint, cstr_eq_self hf, hid, hw⟩⟩
  · rintro ⟨w, htest, hw⟩
    obtain ⟨m, -, hm, -, hid, hmw⟩ := mem_intFields.mp hw
    obtain ⟨j, hj, hjw⟩ := Option.bind_eq_some_iff.mp (hd f w hw)
    exact ⟨hid, j, w, hj, Json.isInt_of_int64?_eq hm hmw hjw, hjw, htest⟩

/-! ## The stores after a run -/

theorem FaissIndex.mem_entries_iff (ix : FaissIndex F) (l : Int64) (v : List F) :
    (l, v) ∈ ix.entries ↔ v ∈ ix.vectorsOf l.toUInt64 := by
  simp only [vectorsOf, List.mem_map, List.mem_filter, decide_eq_true_eq, Int64.toInt64_toUInt64]
  constructor
  · intro h
    exact ⟨(l, v), ⟨h, rfl⟩, rfl⟩
  · rintro ⟨⟨l', v'⟩, ⟨h, rfl⟩, rfl⟩
    exact h

/-- At most one vector under each id. -/
theorem FaissIndex.nodup_labels {ix : FaissIndex F} (h : ∀ i, (ix.vectorsOf i).length ≤ 1) :
    (ix.entries.map Prod.fst).Nodup := by
  rw [List.nodup_iff_count_le_one]
  intro l
  have hl := h l.toUInt64
  rw [vectorsOf, List.length_map, Int64.toInt64_toUInt64] at hl
  rw [List.count_eq_countP, List.countP_map, List.countP_eq_length_filter]
  exact hl

namespace Stores
variable [CFloat F] {dim : Nat} {ds : List Json} {t : Stores F}

theorem vectorsOf_applied (h : Run Applied (fresh dim) ds t) (hds : HybridDocs F dim ds) (i : UInt64) :
    t.indexes.flat.vectorsOf i = ((lastDoc i ds).map fun d => [vectorOf F dim d]).getD [] :=
  vectorsAt_applied h (Or.inl rfl) (Or.inr rfl) fun d hd _ => hds.flat d hd

/-- FLAT holds the vector of each id's last document, and nothing else. -/
theorem mem_entries_applied (h : Run Applied (fresh dim) ds t) (hds : HybridDocs F dim ds) (l : Int64) (v : List F) :
    (l, v) ∈ t.indexes.flat.entries ↔ ∃ d, lastDoc l.toUInt64 ds = some d ∧ v = vectorOf F dim d := by
  rw [FaissIndex.mem_entries_iff, vectorsOf_applied h hds]
  cases lastDoc l.toUInt64 ds <;> simp

theorem nodup_labels_applied (h : Run Applied (fresh dim) ds t) (hds : HybridDocs F dim ds) :
    (t.indexes.flat.entries.map Prod.fst).Nodup := by
  apply FaissIndex.nodup_labels
  intro i
  rw [vectorsOf_applied h hds]
  cases lastDoc i ds <;> simp

/-- The bitmaps show the last documents. -/
theorem shows_applied_fresh (h : Run Applied (fresh dim) ds t) (hu : UniformFields ds) :
    t.indexes.filter.Shows (overwritten (fun _ => none) ds) := by
  have hstored : (fresh dim : Stores F).StoredIn ds := by
    intro i hi
    rw [document_fresh] at hi
    cases hi
  have hempty : ∀ x g w, x ∉ (fresh dim : Stores F).indexes.filter.bitmap g w := by
    intro x g w hx
    rw [show (fresh dim : Stores F).indexes.filter = FilterIndex.empty from rfl, FilterIndex.bitmap_empty] at hx
    cases hx
  have hshows : (fresh dim : Stores F).indexes.filter.Shows fun _ => none := by
    intro x g w
    constructor
    · intro hx
      exact absurd hx (hempty x g w)
    · rintro ⟨d, hd, -⟩
      cases hd
  exact (shows_applied_iff h hu hstored (fun _ hd => hd) hshows).mpr fun x g w hx _ => absurd hx (hempty x g w)

/-- The selector accepts the ids whose last document satisfies the comparison. -/
theorem isMember_iff (h : Run Applied (fresh dim) ds t) (hds : HybridDocs F dim ds) (hn : ∀ d ∈ ds, WellNamed d)
    {f : Bytes} (hf : 0 ∉ f) (op : Operation) (value : Int64) {i : UInt64} {d : Json} (hd : lastDoc i ds = some d) :
    RoaringBitmapIDSelector.isMember (t.indexes.filter.getIntFieldFilterBitmap f op value ∅) i.toInt64 = true ↔
      Matches d f op value := by
  obtain ⟨hmem, hid⟩ := lastDoc_mem hd
  have hsmall : i.toUInt32.toUInt64 = i := (hds.small d hmem i hid).toUInt64
  have hshows := shows_applied_fresh h (hds.uniform hn)
  rw [isMember_toInt64, RoaringBitmapIDFilter.call, decide_eq_true_eq, FilterIndex.mem_getIntFieldFilterBitmap,
    matches_iff (hn d hmem) hf]
  refine exists_congr fun w => and_congr_right fun _ => ?_
  rw [hshows i.toUInt32 f w, hsmall, overwritten, hd]
  simp

end Stores

/-! ## The request and its answer -/

/-- The text of an operation. -/
def Operation.text : Operation → Bytes
  | .equal => ascii "="
  | .notEqual => ascii "!="

theorem operationOf_text (op : Operation) : operationOf (cstr op.text) = op := by
  cases op <;> decide

/-- A filtered search of FLAT. -/
structure HybridRequest (jsonRequest : Json) [CFloat F] (query : List F) (k : Nat) (f : Bytes) (op : Operation)
    (value : Int64) : Prop where
  vectors : readVector F jsonRequest = some query
  k : (jsonRequest.member? requestK).bind Json.int32? = some (k : Int)
  indexType : getIndexTypeFromRequest jsonRequest = .flat
  filter : ∃ filter, jsonRequest.member? requestFilter = some filter ∧ filter.member? filterFieldName = some (.str f) ∧
    filter.member? filterOp = some (.str op.text) ∧ filter.memberInt64? filterValue = some value

section
variable [CFloat F] (L : SearchLibs F) {jsonRequest : Json} {query : List F} {k : Nat} {f : Bytes} {op : Operation} {value : Int64}

theorem HybridRequest.filterBitmap (h : HybridRequest jsonRequest query k f op value) (hf : 0 ∉ f) (fi : FilterIndex) :
    filterBitmap fi jsonRequest = .ok (some (fi.getIntFieldFilterBitmap f op value ∅)) := by
  obtain ⟨filter, hfilter, hname, hop, hvalue⟩ := h.filter
  have hname' : filter.cstring? filterFieldName = some f := by
    rw [Json.cstring?, hname]
    exact congrArg some (cstr_eq_self hf)
  have hop' : filter.cstring? filterOp = some (cstr op.text) := by
    rw [Json.cstring?, hop]
    rfl
  rw [VectorDb.filterBitmap, hfilter]
  simp only [Json.isObject_of_member? hname, if_true, hname', hop', hvalue, operationOf_text]

theorem HybridRequest.search (h : HybridRequest jsonRequest query k f op value) (hf : 0 ∉ f) (db : VectorDatabase F) :
    db.search L jsonRequest = db.stores.indexes.flat.searchVectors L query k
      (some (db.stores.indexes.filter.getIntFieldFilterBitmap f op value ∅)) := by
  rw [VectorDatabase.search, h.vectors, h.k]
  simp only [h.filterBitmap hf, h.indexType]

theorem HybridRequest.valid (h : HybridRequest jsonRequest query k f op value) :
    HttpServer.isRequestValid jsonRequest .search = true := by
  obtain ⟨v, hv, -⟩ := Option.bind_eq_some_iff.mp h.vectors
  obtain ⟨j, hj, -⟩ := Option.bind_eq_some_iff.mp h.k
  have hindex : HttpServer.indexTypeValid jsonRequest = true := by
    have htype := h.indexType
    unfold getIndexTypeFromRequest at htype
    unfold HttpServer.indexTypeValid
    cases hm : jsonRequest.member? requestIndexType with
    | none => rfl
    | some t =>
      rw [hm, Option.bind_some] at htype
      cases hs : t.string? with
      | none =>
        rw [hs] at htype
        cases htype
      | some _ => simp [hs]
  simp only [HttpServer.isRequestValid, Json.hasMember, hv, hj, hindex, Option.isSome_some, Bool.and_true]

theorem HybridRequest.searchHandler (h : HybridRequest jsonRequest query k f op value) (hf : 0 ∉ f) {parse : Bytes → Option Json}
    {body : Bytes} (hparse : parse (cstr body) = some jsonRequest) (db : VectorDatabase F) :
    HttpServer.searchHandler L parse db body = (db.stores.indexes.flat.searchVectors L query k
      (some (db.stores.indexes.filter.getIntFieldFilterBitmap f op value ∅))).map
        fun results => HttpServer.success (HttpServer.searchMembers L results) := by
  have hobj : jsonRequest.isObject = true := Json.isObject_of_member? h.filter.choose_spec.1
  have hindex : HttpServer.getIndexTypeFromRequest jsonRequest ≠ .unknown := by
    intro hunknown
    cases h.indexType.symm.trans hunknown
  rw [HttpServer.searchHandler, hparse, Option.getD_some]
  simp only [hobj, not_true_eq_false, if_false, h.valid, h.vectors, h.k, hindex, h.search L hf]

end

/-- The members of a response that lists these ids and distances. -/
def answerMembers (L : SearchLibs F) (found : List (UInt64 × F)) : List (Bytes × Json) :=
  if found = [] then []
  else [(ascii "vectors", .arr (found.map fun r => .int r.1.toNat)),
    (ascii "distances", .arr (found.map fun r => .num (L.toNumber r.2)))]

/-- The label of a small id is the id, and no padding. -/
theorem toInt_of_small {l : Int64} (h : SmallId l.toUInt64) : l.toInt = l.toUInt64.toNat := by
  have hlt : l.toUInt64.toNat < 2 ^ 32 := h
  show l.toBitVec.toInt = (l.toBitVec.toNat : Int)
  have hlt' : l.toBitVec.toNat < 2 ^ 32 := hlt
  exact BitVec.toInt_eq_toNat_of_lt (by omega)

/-- The padding does not reach the response. -/
theorem searchMembers_padded (L : SearchLibs F) {rs : List (Int64 × F)} (h : ∀ r ∈ rs, SmallId r.1.toUInt64) (n : Nat)
    (pad : F) : HttpServer.searchMembers L (rs ++ List.replicate n (-1, pad)) =
      answerMembers L (rs.map fun r => (r.1.toUInt64, r.2)) := by
  have hne : ∀ r ∈ rs, r.1 ≠ -1 := by
    intro r hr heq
    have hpos := toInt_of_small (h r hr)
    rw [heq] at hpos
    have hneg : (-1 : Int64).toInt = -1 := by decide
    omega
  have hvalid : (rs ++ List.replicate n (-1, pad)).filter (fun r => r.1 ≠ -1) = rs := by
    have hpad : (List.replicate n ((-1 : Int64), pad)).filter (fun r => r.1 ≠ -1) = [] := by
      rw [List.filter_eq_nil_iff]
      intro r hr
      rw [List.eq_of_mem_replicate hr]
      exact fun hc => of_decide_eq_true hc rfl
    rw [List.filter_append, hpad, List.append_nil, List.filter_eq_self]
    intro r hr
    exact decide_eq_true (hne r hr)
  have hids : rs.map (fun r => Json.int r.1.toInt) = rs.map fun r => Json.int r.1.toUInt64.toNat := by
    apply List.map_congr_left
    intro r hr
    rw [toInt_of_small (h r hr)]
  rw [HttpServer.searchMembers, answerMembers]
  simp only [hvalid, List.map_eq_nil_iff, List.map_map, hids]
  rfl

/-! ## Exactness -/

/-- The ids whose last document satisfies the comparison. -/
def matching (ds : List Json) (f : Bytes) (op : Operation) (value : Int64) : Set UInt64 :=
  {i | ∃ d, lastDoc i ds = some d ∧ Matches d f op value}

/-- The nearest of the ids that satisfy the comparison, each with the distance of the vector in its last document. -/
structure ExactAnswer [CFloat F] [LinearOrder F] (dist : List F → List F → F) (dim : Nat) (ds : List Json) (query : List F)
    (k : Nat) (f : Bytes) (op : Operation) (value : Int64) (found : List (UInt64 × F)) : Prop where
  length : found.length = min k (matching ds f op value).ncard
  nodup : (found.map Prod.fst).Nodup
  sound : ∀ r ∈ found, ∃ d, lastDoc r.1 ds = some d ∧ Matches d f op value ∧ r.2 = dist query (vectorOf F dim d)
  sorted : found.Pairwise fun a b => a.2 ≤ b.2
  nearest : ∀ i d, lastDoc i ds = some d → Matches d f op value → i ∉ found.map Prod.fst →
    ∀ r ∈ found, r.2 ≤ dist query (vectorOf F dim d)

section
variable [CFloat F] {dim : Nat} {ds : List Json} {t : Stores F} {f : Bytes} {op : Operation} {value : Int64}

/-- The entries that the selector accepts. -/
def selected (t : Stores F) (f : Bytes) (op : Operation) (value : Int64) : List (Int64 × List F) :=
  t.indexes.flat.entries.filter fun e =>
    RoaringBitmapIDSelector.isMember (t.indexes.filter.getIntFieldFilterBitmap f op value ∅) e.1

theorem nodup_selected (h : Run Applied (Stores.fresh dim) ds t) (hds : HybridDocs F dim ds) :
    ((selected t f op value).map Prod.fst).Nodup :=
  (Stores.nodup_labels_applied h hds).sublist (List.filter_sublist.map Prod.fst)

omit [CFloat F] in
/-- Distinct labels are distinct ids. -/
theorem nodup_ids {es : List (Int64 × List F)} (h : (es.map Prod.fst).Nodup) : (es.map fun e => e.1.toUInt64).Nodup := by
  have hmap := h.map (f := Int64.toUInt64) fun a b hab => by
    rw [← Int64.toInt64_toUInt64 a, hab, Int64.toInt64_toUInt64]
  rwa [List.map_map] at hmap

theorem mem_selected_iff (h : Run Applied (Stores.fresh dim) ds t) (hds : HybridDocs F dim ds) (hn : ∀ d ∈ ds, WellNamed d)
    (hf : 0 ∉ f) (l : Int64) (v : List F) : (l, v) ∈ selected t f op value ↔
      ∃ d, lastDoc l.toUInt64 ds = some d ∧ Matches d f op value ∧ v = vectorOf F dim d := by
  rw [selected, List.mem_filter, Stores.mem_entries_applied h hds]
  constructor
  · rintro ⟨⟨d, hd, rfl⟩, hsel⟩
    have hmem := Stores.isMember_iff h hds hn hf op value hd
    rw [Int64.toInt64_toUInt64] at hmem
    exact ⟨d, hd, hmem.mp hsel, rfl⟩
  · rintro ⟨d, hd, hmatch, rfl⟩
    have hmem := Stores.isMember_iff h hds hn hf op value hd
    rw [Int64.toInt64_toUInt64] at hmem
    exact ⟨⟨d, hd, rfl⟩, hmem.mpr hmatch⟩

/-- There is one of them for each id that satisfies the comparison. -/
theorem length_selected (h : Run Applied (Stores.fresh dim) ds t) (hds : HybridDocs F dim ds) (hn : ∀ d ∈ ds, WellNamed d)
    (hf : 0 ∉ f) : (selected t f op value).length = (matching ds f op value).ncard := by
  have hnodup : ((selected t f op value).map fun e => e.1.toUInt64).Nodup := nodup_ids (nodup_selected h hds)
  have hset : matching ds f op value = (((selected t f op value).map fun e => e.1.toUInt64).toFinset : Set UInt64) := by
    ext i
    simp only [matching, Set.mem_ofPred_eq, List.coe_toFinset, List.mem_map]
    constructor
    · rintro ⟨d, hd, hmatch⟩
      refine ⟨(i.toInt64, vectorOf F dim d), (mem_selected_iff h hds hn hf _ _).mpr ⟨d, ?_, hmatch, rfl⟩,
        UInt64.toUInt64_toInt64 i⟩
      rw [UInt64.toUInt64_toInt64]
      exact hd
    · rintro ⟨⟨l, v⟩, he, rfl⟩
      obtain ⟨d, hd, hmatch, -⟩ := (mem_selected_iff h hds hn hf _ _).mp he
      exact ⟨d, hd, hmatch⟩
  rw [hset, Set.ncard_coe_finset, List.toFinset_card_of_nodup hnodup, List.length_map]

variable [LinearOrder F] {dist : List F → List F → F} {query : List F} {k : Nat}

/-- What the nearest of the selected entries are for the caller. -/
theorem exactAnswer_of_nearest (h : Run Applied (Stores.fresh dim) ds t) (hds : HybridDocs F dim ds)
    (hn : ∀ d ∈ ds, WellNamed d) (hf : 0 ∉ f) {found : List (Int64 × List F)}
    (hnear : Nearest (fun e => dist query e.2) k (selected t f op value) found) :
    ExactAnswer dist dim ds query k f op value (found.map fun e => (e.1.toUInt64, dist query e.2)) where
  length := by rw [List.length_map, hnear.length, length_selected h hds hn hf]
  nodup := by
    rw [List.map_map]
    exact nodup_ids (hnear.nodup_map (nodup_selected h hds))
  sound r hr := by
    obtain ⟨⟨l, v⟩, he, rfl⟩ := List.mem_map.mp hr
    obtain ⟨d, hd, hmatch, rfl⟩ := (mem_selected_iff h hds hn hf l v).mp (hnear.mem he)
    exact ⟨d, hd, hmatch, rfl⟩
  sorted := by
    rw [List.pairwise_map]
    exact hnear.sorted
  nearest i d hd hmatch hi r hr := by
    obtain ⟨e, he, rfl⟩ := List.mem_map.mp hr
    have hentry : (i.toInt64, vectorOf F dim d) ∈ selected t f op value := by
      rw [mem_selected_iff h hds hn hf, UInt64.toUInt64_toInt64]
      exact ⟨d, hd, hmatch, rfl⟩
    have hout : (i.toInt64, vectorOf F dim d) ∉ found := by
      intro hmem
      apply hi
      rw [List.map_map, List.mem_map]
      exact ⟨_, hmem, UInt64.toUInt64_toInt64 i⟩
    exact hnear.le_of_notMem he hentry hout

/-- **A filtered search of FLAT is exact** after every run of upserts, when every 32-bit integer member is found, with its
value, under the name up to its first NUL, and the name in the filter holds no NUL. -/
theorem hybrid_search_exact {L : SearchLibs F} (hL : L.FaissExact dist) (hdim : 0 < dim) {db : VectorDatabase F}
    (h : Run Applied (Stores.fresh dim) ds db.stores) (hds : HybridDocs F dim ds) (hn : ∀ d ∈ ds, WellNamed d)
    {parse : Bytes → Option Json} {body : Bytes} {jsonRequest : Json} (hparse : parse (cstr body) = some jsonRequest)
    (hreq : HybridRequest jsonRequest query k f op value) (hquery : query.length = dim) (hk : 1 ≤ k) (hf : 0 ∉ f) :
    ∃ found, HttpServer.searchHandler L parse db body = .ok (HttpServer.success (answerMembers L found)) ∧
      ExactAnswer dist dim ds query k f op value found := by
  have hd : db.stores.indexes.flat.d = dim := Stores.dim_applied h .flat
  obtain ⟨found, pad, hnear, hsearch⟩ := hL db.stores.indexes.flat query k
    (RoaringBitmapIDSelector.isMember (db.stores.indexes.filter.getIntFieldFilterBitmap f op value ∅)) (hquery.trans hd.symm) hk
  refine ⟨_, ?_, exactAnswer_of_nearest h hds hn hf hnear⟩
  have hflat : db.stores.indexes.flat.searchVectors L query k
      (some (db.stores.indexes.filter.getIntFieldFilterBitmap f op value ∅)) =
        .ok (found.map (fun e => (e.1, dist query e.2)) ++ List.replicate (k - found.length) (-1, pad)) := by
    have hint : (k : Int) < 2 ^ 31 := by
      obtain ⟨j, -, hj⟩ := Option.bind_eq_some_iff.mp hreq.k
      exact (Json.int32?_eq_some_iff.mp hj).2.2
    rw [FaissIndex.searchVectors, hd, if_neg (Nat.ne_of_gt hdim), if_neg (by omega), hquery, Nat.div_self hdim, if_neg (by omega)]
    exact congrArg Except.ok hsearch
  have hsmall : ∀ r ∈ found.map (fun e => (e.1, dist query e.2)), SmallId r.1.toUInt64 := by
    intro r hr
    obtain ⟨⟨l, v⟩, he, rfl⟩ := List.mem_map.mp hr
    obtain ⟨d, hlast, -⟩ := (mem_selected_iff h hds hn hf l v).mp (hnear.mem he)
    obtain ⟨hmem, hid⟩ := lastDoc_mem hlast
    exact hds.small d hmem _ hid
  rw [hreq.searchHandler L hf hparse, hflat]
  show Except.ok (HttpServer.success (HttpServer.searchMembers L _)) = _
  rw [searchMembers_padded L hsmall, List.map_map]
  rfl

end

/-! ## A search of one document -/

/-- Floats that hold integers only. -/
instance : CFloat Int where
  ofNumber
    | .int n => n
    | .double _ => 0

/-- The distance of vectors of one number. -/
def lineDist (x y : List Int) : Int := ((x.headD 0 - y.headD 0).natAbs : Int)

def lineLibs : SearchLibs Int where
  faissSearch ix _ query k sel :=
    let found := takeNearest (fun e => lineDist query e.2) k (ix.entries.filter fun e => (sel.getD fun _ => true) e.1)
    found.map (fun e => (e.1, lineDist query e.2)) ++ List.replicate (k - found.length) (-1, 0)
  searchKnn _ _ _ _ := []
  toNumber := .int

theorem lineLibs_exact : lineLibs.FaissExact lineDist := by
  intro ix query k sel _ _
  exact ⟨_, 0, nearest_takeNearest _ _ _, rfl⟩

def filterRequest (value : Int) : Json :=
  .obj [(requestVectors, .arr [.int 0]), (requestK, .int 1), (requestIndexType, .str indexTypeFlat),
    (requestFilter, .obj [(filterFieldName, .str (ascii "f")), (filterOp, .str (ascii "=")), (filterValue, .int value)])]

theorem filterRequest_hybrid (value : Int) (h : -2 ^ 63 ≤ value ∧ value < 2 ^ 63) :
    HybridRequest (F := Int) (filterRequest value) [0] 1 (ascii "f") .equal (Int64.ofInt value) where
  vectors := by rfl
  k := by rfl
  indexType := by rfl
  filter := by
    refine ⟨_, rfl, rfl, rfl, ?_⟩
    show (Json.int value).int64? = _
    rw [Json.int64?, if_pos h]

/-- A database that holds one document. -/
def oneDocument (d : Json) : VectorDatabase Int :=
  { (VectorDatabase.fresh 1 : VectorDatabase Int) with stores := (Stores.fresh 1).upserted 1 d [0] .flat }

theorem hybridDocs_singleton {d : Json} (hid : docId d = some 1) (hflat : getIndexTypeFromRequest d = .flat)
    (hv : readVector Int d = some [0]) (hnd : (d.members.map Prod.fst).Nodup) : HybridDocs Int 1 [d] where
  small := by
    intro e he i hi
    rw [List.mem_singleton.mp he, hid, Option.some.injEq] at hi
    subst hi
    decide
  flat := List.forall_mem_singleton.mpr hflat
  length := by
    intro e he v hv'
    rw [List.mem_singleton.mp he, hv, Option.some.injEq] at hv'
    rw [← hv']
    rfl
  nodup := List.forall_mem_singleton.mpr hnd
  same := by
    intro a ha b hb _ name
    rw [List.mem_singleton.mp ha, List.mem_singleton.mp hb]

theorem hybrid_search_exact_newField : ∃ found,
    HttpServer.searchHandler lineLibs (fun _ => some (filterRequest 5)) (oneDocument LogStateMachine.newFieldDoc) [] =
        .ok (HttpServer.success (answerMembers lineLibs found)) ∧
      ExactAnswer lineDist 1 [LogStateMachine.newFieldDoc] [0] 1 (ascii "f") .equal (Int64.ofInt 5) found := by
  have hrun : Run Applied (Stores.fresh 1 : Stores Int) [LogStateMachine.newFieldDoc]
      (oneDocument LogStateMachine.newFieldDoc).stores :=
    Run.single ⟨1, [0], rfl, ⟨by decide, by rfl, by decide, by decide⟩, rfl⟩
  exact hybrid_search_exact lineLibs_exact (by decide) hrun (hybridDocs_singleton rfl rfl (by rfl) (by decide))
    (List.forall_mem_singleton.mpr LogStateMachine.wellNamed_newFieldDoc) rfl (filterRequest_hybrid 5 (by decide)) rfl (by decide) (by decide)

/-- `f` is 5, and another name becomes `f` at its NUL. -/
def cutNameDoc : Json := flatDocument 1 0 [(ascii "f", .int 5), (ascii "f" ++ 0 :: ascii "a", .int 1)]

/-- The document is found under a value that its field does not have. -/
theorem cut_name_matches : ¬ ∀ (ds : List Json) (db : VectorDatabase Int) (body : Bytes) (value : Int64),
    Run Applied (Stores.fresh 1) ds db.stores → HybridDocs Int 1 ds →
    HybridRequest (F := Int) (filterRequest 1) [0] 1 (ascii "f") .equal value → ∃ found,
      HttpServer.searchHandler lineLibs (fun _ => some (filterRequest 1)) db body =
          .ok (HttpServer.success (answerMembers lineLibs found)) ∧
        ExactAnswer lineDist 1 ds [0] 1 (ascii "f") .equal value found := by
  intro h
  have hrun : Run Applied (Stores.fresh 1 : Stores Int) [cutNameDoc] (oneDocument cutNameDoc).stores :=
    Run.single ⟨1, [0], rfl, ⟨by decide, by rfl, by decide, by decide⟩, rfl⟩
  obtain ⟨found, hresp, hexact⟩ := h [cutNameDoc] (oneDocument cutNameDoc) [] (Int64.ofInt 1) hrun
    (hybridDocs_singleton rfl rfl (by rfl) (by decide)) (filterRequest_hybrid 1 (by decide))
  have hnone : matching [cutNameDoc] (ascii "f") .equal (Int64.ofInt 1) = ∅ := by
    rw [Set.eq_empty_iff_forall_notMem]
    rintro i ⟨d, hd, -, j, w, hj, -, hw, htest⟩
    obtain rfl : d = cutNameDoc := List.mem_singleton.mp (lastDoc_mem hd).1
    cases hj.symm.trans (show cutNameDoc.member? (ascii "f") = some (.int 5) by rfl)
    cases hw.symm.trans (show (Json.int 5).int64? = some 5 by rfl)
    exact absurd htest (show ¬ (5 : Int64) = Int64.ofInt 1 by decide)
  have hempty : found = [] := by
    apply List.eq_nil_of_length_eq_zero
    rw [hexact.length, hnone, Set.ncard_empty, Nat.min_zero]
  subst hempty
  have hone : HttpServer.searchHandler lineLibs (fun _ => some (filterRequest 1)) (oneDocument cutNameDoc) [] =
      .ok (HttpServer.success (answerMembers lineLibs [(1, 0)])) := by rfl
  have hlen := congrArg (fun r => r.body.members.length) (Except.ok.inj (hone.symm.trans hresp))
  exact absurd hlen (by decide)

end VectorDb
