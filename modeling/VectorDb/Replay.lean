import VectorDb.VectorDatabase
import VectorDb.StaleFilter
import VectorDb.Lib.LastWriter

/-!
# Documents applied one after the other

* `Applied` : what a commit or a replayed record does to the stores;
* `replay_iff`, `replay_eq_ok` : a replay that completes is a run of `Applied` that comes to no null pointer (`Avoids`);
* `document_applied`, `vectorsAt_applied`, `mem_bitmap_applied` : each store after such a run, for one id, from
  the id's last document and from what the store held before.
-/

namespace VectorDb

variable {F : Type}

/-- `d["id"].GetUint64()`. -/
def docId (d : Json) : Option UInt64 := (d.member? requestId).bind Json.uint64?

/-- The last document of an id. -/
def lastDoc (i : UInt64) (ds : List Json) : Option Json := lastFor docId (some i) ds

/-- The documents `m`, with those of `ds` written over them. -/
def overwritten (m : UInt64 → Option Json) (ds : List Json) (i : UInt64) : Option Json := (lastDoc i ds).or (m i)

/-- The fields of a document that reach the `FilterIndex`, each found by its name. Repeated names, and names that
are cut at a NUL, can break this. -/
def WellNamed (d : Json) : Prop := ∀ f v, (f, v) ∈ intFields d → d.memberInt64? f = some v

/-- The same integer fields, with whatever values. -/
def SameFields (d e : Json) : Prop := ∀ f, (∃ v, (f, v) ∈ intFields d) ↔ ∃ v, (f, v) ∈ intFields e

theorem lastDoc_concat (i : UInt64) (ds : List Json) (d : Json) :
    lastDoc i (ds ++ [d]) = if docId d = some i then some d else lastDoc i ds := lastFor_concat ..

theorem lastDoc_append (i : UInt64) (ds es : List Json) : lastDoc i (ds ++ es) = (lastDoc i es).or (lastDoc i ds) :=
  lastFor_append ..

theorem lastDoc_eq_none {i : UInt64} {ds : List Json} : lastDoc i ds = none ↔ ∀ d ∈ ds, docId d ≠ some i :=
  lastFor_eq_none

theorem lastDoc_mem {i : UInt64} {ds : List Json} {d : Json} (h : lastDoc i ds = some d) :
    d ∈ ds ∧ docId d = some i := lastFor_mem h

theorem WellNamed.lastValue {d : Json} (h : WellNamed d) {f : Bytes} {v : Int64} (hm : (f, v) ∈ intFields d) :
    FilterIndex.lastValue (intFields d) f = some v := by
  obtain ⟨w, hw⟩ := FilterIndex.exists_lastValue hm
  rw [hw]
  exact (h f w (FilterIndex.lastValue_mem hw)).symm.trans (h f v hm)

section
variable [CFloat F]

/-- An upsert of the document under its own id, into the index that it names, completes. -/
def Applied (s : Stores F) (d : Json) (t : Stores F) : Prop :=
  ∃ i v, docId d = some i ∧ s.Legal i d v (getIndexTypeFromRequest d) ∧
    t = s.upserted i d v (getIndexTypeFromRequest d)

theorem Stores.upsertRequest_eq_ok {s t : Stores F} {d : Json} : s.upsertRequest .ok d = .ok t ↔ Applied s d t := by
  have hid : (d.member? requestId).bind Json.uint64? = docId d := rfl
  rw [upsertRequest, hid, Applied]
  cases docId d with
  | none => simp
  | some i => simp only [upsert_eq_ok, Option.some.injEq, exists_and_left, exists_eq_left']

theorem applied_unique (s : Stores F) (d : Json) (t u : Stores F) (ht : Applied s d t) (hu : Applied s d u) : t = u :=
  Except.ok.inj ((Stores.upsertRequest_eq_ok.mpr ht).symm.trans (Stores.upsertRequest_eq_ok.mpr hu))

theorem Stores.document_applied {s t : Stores F} {ds : List Json} (h : Run Applied s ds t) (i : UInt64) :
    t.document i = (lastDoc i ds).getD (s.document i) := by
  induction h with
  | nil => rfl
  | @snoc ds d t u hr ha ih =>
    obtain ⟨j, v, hj, -, rfl⟩ := ha
    rw [document_upserted, lastDoc_concat, hj]
    by_cases hij : i = j
    · rw [if_pos hij, if_pos (congrArg some hij.symm), Option.getD_some]
    · rw [if_neg hij, if_neg fun h => hij (Option.some.inj h).symm, ih]

/-! ## Null pointers -/

/-- None of the documents, applied in order over the stored ones, comes to a null pointer: neither a new value of an
integer field has one, nor the value that the last document of the same id holds under its name. -/
def Avoids (null : Bytes × Int64 → Prop) (stored : UInt64 → Json) (ds : List Json) : Prop :=
  ∀ xs d, xs ++ [d] <+: ds → ∀ i, docId d = some i → ∀ p ∈ followed ((lastDoc i xs).getD (stored i)) d, ¬ null p

omit [CFloat F] in
theorem avoids_nil {null : Bytes × Int64 → Prop} {stored : UInt64 → Json} : Avoids null stored [] := by
  intro xs d h
  simp at h

omit [CFloat F] in
/-- Without null pointers there is nothing to avoid. -/
theorem avoids_empty (stored : UInt64 → Json) (ds : List Json) :
    Avoids (· ∈ (∅ : Finset (Bytes × Int64))) stored ds :=
  fun _ _ _ _ _ _ _ => Finset.notMem_empty _

omit [CFloat F] in
theorem avoids_concat {null : Bytes × Int64 → Prop} {stored : UInt64 → Json} {ds : List Json} {d : Json} :
    Avoids null stored (ds ++ [d]) ↔ Avoids null stored ds ∧
      ∀ i, docId d = some i → ∀ p ∈ followed ((lastDoc i ds).getD (stored i)) d, ¬ null p := by
  constructor
  · exact fun h => ⟨fun xs e hx => h xs e (hx.trans (List.prefix_append _ _)), h ds d List.prefix_rfl⟩
  · rintro ⟨hall, hlast⟩ xs e hx
    rcases List.prefix_concat_iff.mp hx with heq | hx
    · obtain ⟨rfl, he⟩ := List.append_inj' heq rfl
      obtain rfl := List.singleton_inj.mp he
      exact hlast
    · exact hall xs e hx

theorem Stores.followsNull_applied {nullBitmaps : Finset (Bytes × Int64)} {s t : Stores F} {ds : List Json}
    (h : Run Applied s ds t) {d : Json} : t.followsNull nullBitmaps d = false ↔
      ∀ i, docId d = some i → ∀ p ∈ followed ((lastDoc i ds).getD (s.document i)) d, p ∉ nullBitmaps := by
  have hid : (d.member? requestId).bind Json.uint64? = docId d := rfl
  rw [followsNull, hid]
  cases docId d with
  | none => simp
  | some i => simp [document_applied h, Prod.forall]

namespace VectorDatabase

/-- The entry that a reload reads for a logged document. -/
def upsertEntry (r : Nat × Json) : Persistence.WalEntry := ⟨r.1, operationUpsert, r.2⟩

theorem replayEntry_eq_ok {nullBitmaps : Finset (Bytes × Int64)} {s t : Stores F} {d : Json} :
    replayEntry nullBitmaps s operationUpsert d = .ok t ↔ Applied s d t ∧ s.followsNull nullBitmaps d = false := by
  rw [← Stores.upsertRequest_eq_ok, replayEntry, if_pos rfl]
  cases s.upsertRequest .ok d with
  | error e => simp
  | ok u => cases s.followsNull nullBitmaps d <;> simp

/-- The entries that a reload hands to `upsert`. -/
def upserts (es : List Persistence.WalEntry) : List Persistence.WalEntry :=
  es.filter fun e => e.operationType = operationUpsert

theorem upserts_append (es fs : List Persistence.WalEntry) : upserts (es ++ fs) = upserts es ++ upserts fs :=
  List.filter_append _ _

theorem upserts_map_upsertEntry (rs : List (Nat × Json)) : upserts (rs.map upsertEntry) = rs.map upsertEntry := by
  apply List.filter_eq_self.mpr
  intro e he
  obtain ⟨r, -, rfl⟩ := List.mem_map.mp he
  exact decide_eq_true rfl

/-- **A replay that completes** applies the documents of its upserts in order, and comes to no null pointer. -/
theorem replay_iff {nullBitmaps : Finset (Bytes × Int64)} {s t : Stores F} {es : List Persistence.WalEntry} :
    replay nullBitmaps s es = .ok t ↔ Run Applied s ((upserts es).map Persistence.WalEntry.jsonData) t ∧
      Avoids (· ∈ nullBitmaps) s.document ((upserts es).map Persistence.WalEntry.jsonData) := by
  induction es using List.reverseRecOn generalizing t with
  | nil =>
    constructor
    · intro h
      cases h
      exact ⟨Run.nil, avoids_nil⟩
    · rintro ⟨h, -⟩
      rw [Run.eq_of_nil h]
      rfl
  | append_singleton es e ih =>
    have hone : replay nullBitmaps s (es ++ [e]) = .ok t ↔ ∃ u, replay nullBitmaps s es = .ok u ∧
        replayEntry nullBitmaps u e.operationType e.jsonData = .ok t := by
      rw [replay, List.foldlM_append]
      simp only [bind_eq_ok, List.foldlM_cons, List.foldlM_nil]
      constructor
      · rintro ⟨u, hu, w, hw, hwt⟩
        cases hwt
        exact ⟨u, hu, hw⟩
      · rintro ⟨u, hu, hw⟩
        exact ⟨u, hu, t, hw, rfl⟩
    rw [hone, upserts_append, List.map_append]
    by_cases hop : e.operationType = operationUpsert
    · have hlast : (upserts [e]).map Persistence.WalEntry.jsonData = [e.jsonData] := by simp [upserts, hop]
      rw [hlast, Run.snoc_iff, hop, avoids_concat]
      simp only [ih, replayEntry_eq_ok]
      constructor
      · rintro ⟨u, ⟨hrun, hav⟩, ha, hnull⟩
        exact ⟨⟨u, hrun, ha⟩, hav, (Stores.followsNull_applied hrun).mp hnull⟩
      · rintro ⟨⟨u, hrun, ha⟩, hav, hnull⟩
        exact ⟨u, ⟨hrun, hav⟩, ha, (Stores.followsNull_applied hrun).mpr hnull⟩
    · have hlast : (upserts [e]).map Persistence.WalEntry.jsonData = [] := by simp [upserts, hop]
      simp only [hlast, List.append_nil, replayEntry, hop, if_false, Except.ok.injEq, exists_eq_right, ih]

theorem replay_eq_ok {nullBitmaps : Finset (Bytes × Int64)} {s t : Stores F} {rs : List (Nat × Json)} :
    replay nullBitmaps s (rs.map upsertEntry) = .ok t ↔
      Run Applied s (rs.map Prod.snd) t ∧ Avoids (· ∈ nullBitmaps) s.document (rs.map Prod.snd) := by
  rw [replay_iff, upserts_map_upsertEntry, List.map_map]
  rfl

end VectorDatabase

/-! ## Runs of documents -/

namespace Stores
variable {s t : Stores F} {ds : List Json}

theorem dim_applied (h : Run Applied s ds t) (u : IndexType) : t.indexes.dim u = s.indexes.dim u := by
  refine Run.invariant (I := fun t => t.indexes.dim u = s.indexes.dim u) rfl (fun t d w ht hw => ?_) h
  obtain ⟨i, v, -, -, rfl⟩ := hw
  rw [dim_upserted, ht]

theorem blobs_applied (h : Run Applied s ds t) : t.scalarStorage.blobs = s.scalarStorage.blobs := by
  refine Run.invariant (I := fun t => t.scalarStorage.blobs = s.scalarStorage.blobs) rfl (fun t d w ht hw => ?_) h
  obtain ⟨i, v, -, -, rfl⟩ := hw
  rw [blobs_upserted, ht]

/-- Every document of a run has an id and a vector for the index it names. -/
theorem legal_applied (h : Run Applied s ds t) : ∀ d ∈ ds, ∃ i v, docId d = some i ∧ readVector F d = some v ∧
    s.indexes.dim (getIndexTypeFromRequest d) ≤ v.length := by
  induction h with
  | nil => intro d hd; cases hd
  | snoc hr ha ih =>
    intro d hd
    rcases List.mem_append.mp hd with hd | hd
    · exact ih d hd
    · obtain rfl := List.mem_singleton.mp hd
      obtain ⟨i, v, hi, hl, -⟩ := ha
      exact ⟨i, v, hi, hl.vector, dim_applied hr _ ▸ hl.length⟩

theorem isObject_of_applied (h : Run Applied s ds t) {i : UInt64} {d : Json} (hd : lastDoc i ds = some d) :
    d.isObject = true := by
  obtain ⟨-, v, -, hv, -⟩ := legal_applied h d (lastDoc_mem hd).1
  exact isObject_of_readVector hv

end Stores

/-! ## Vectors -/

/-- The vectors that the index of a type holds under an id. -/
def IndexFactory.vectorsAt (ixs : IndexFactory F) (i : UInt64) : IndexType → List (List F)
  | .flat => ixs.flat.vectorsOf i
  | .hnsw => (ixs.hnsw.points[i]?).toList
  | _ => []

/-- The floats of a document that an index of dimension `n` keeps. -/
def vectorOf (F : Type) [CFloat F] (n : Nat) (d : Json) : List F := ((readVector F d).getD []).take n

namespace Stores
variable {s t : Stores F} {ds : List Json}

omit [CFloat F] in
/-- The new vector is the only one, if an old one can be found through the stored document. -/
theorem vectorsAt_upserted {i j : UInt64} {u k : IndexType} (hk : k = .flat ∨ k = .hnsw)
    (hs : (s.document i).isObject = true ∨ s.indexes.vectorsAt i k = []) (d : Json) (v : List F) :
    (s.upserted j d v u).indexes.vectorsAt i k =
      if i = j ∧ u = k then [v.take (s.indexes.dim k)] else s.indexes.vectorsAt i k := by
  rcases hk with rfl | rfl
  · show (s.upserted j d v u).indexes.flat.vectorsOf i = _
    rw [vectorsOf_upserted]
    split
    · rename_i h
      obtain ⟨rfl, -⟩ := h
      rcases hs with hs | hs
      · rw [if_pos hs]
        rfl
      · rw [show s.indexes.flat.vectorsOf i = [] from hs, ite_self]
        rfl
    · rfl
  · show (Option.toList _) = _
    rw [points_upserted]
    split
    · rfl
    · rfl

theorem vectorsAt_applied (h : Run Applied s ds t) {i : UInt64} {k : IndexType} (hk : k = .flat ∨ k = .hnsw)
    (hs : (s.document i).isObject = true ∨ s.indexes.vectorsAt i k = [])
    (hds : ∀ d ∈ ds, docId d = some i → getIndexTypeFromRequest d = k) :
    t.indexes.vectorsAt i k =
      ((lastDoc i ds).map fun d => [vectorOf F (s.indexes.dim k) d]).getD (s.indexes.vectorsAt i k) := by
  induction h with
  | nil => rfl
  | @snoc ds d t u hr ha ih =>
    have ih := ih fun e he => hds e (List.mem_append_left _ he)
    obtain ⟨j, v, hj, hl, rfl⟩ := ha
    have ht : (t.document i).isObject = true ∨ t.indexes.vectorsAt i k = [] := by
      rw [document_applied hr, ih]
      cases hlast : lastDoc i ds with
      | some e => exact Or.inl (isObject_of_applied hr hlast)
      | none => exact hs
    rw [vectorsAt_upserted hk ht, lastDoc_concat, hj, ih, dim_applied hr]
    by_cases hij : i = j
    · have hu := hds d (List.mem_append_right _ (List.mem_singleton_self d)) (hij ▸ hj)
      rw [if_pos ⟨hij, hu⟩, if_pos (congrArg some hij.symm), Option.map_some, Option.getD_some, vectorOf, hl.vector,
        Option.getD_some]
    · rw [if_neg fun h => hij h.1, if_neg fun h => hij (Option.some.inj h).symm]

end Stores

end

/-! ## Filters -/

/-- The ids fit into a bitmap, and documents of one id have the same integer fields, each found by its name. -/
structure UniformFields (ds : List Json) : Prop where
  small : ∀ d ∈ ds, ∀ i, docId d = some i → SmallId i
  wellNamed : ∀ d ∈ ds, WellNamed d
  same : ∀ d ∈ ds, ∀ e ∈ ds, docId d = docId e → SameFields d e

theorem UniformFields.mono {ds es : List Json} (h : UniformFields ds) (hes : ∀ e ∈ es, e ∈ ds) : UniformFields es :=
  ⟨fun d hd => h.small d (hes d hd), fun d hd => h.wellNamed d (hes d hd),
    fun d hd e he => h.same d (hes d hd) e (hes e he)⟩

/-- The bitmaps list each id under the integer fields of its document. -/
def FilterIndex.Shows (fi : FilterIndex) (m : UInt64 → Option Json) : Prop :=
  ∀ x g w, x ∈ fi.bitmap g w ↔ ∃ d, m x.toUInt64 = some d ∧ (g, w) ∈ intFields d

theorem intFields_of_not_isObject {d : Json} (h : ¬ d.isObject = true) : intFields d = [] := by
  cases d <;> first | rfl | exact absurd rfl h

namespace Stores

/-- The stored documents are among `ds`, under their own ids. -/
def StoredIn (s : Stores F) (ds : List Json) : Prop :=
  ∀ i, (s.document i).isObject = true → s.document i ∈ ds ∧ docId (s.document i) = some i

/-- **One upsert** among uniform documents: the id leaves every value of the stored document and enters those of
the new one. -/
theorem mem_bitmap_upserted_of_uniform {ds : List Json} (hu : UniformFields ds) {s : Stores F} (hs : s.StoredIn ds)
    {i : UInt64} {d : Json} (hd : d ∈ ds) (hi : docId d = some i) (v : List F) (t : IndexType) (g : Bytes) (w : Int64)
    (x : UInt32) : x ∈ (s.upserted i d v t).indexes.filter.bitmap g w ↔
      if x.toUInt64 = i then
        (g, w) ∈ intFields d ∨ (x ∈ s.indexes.filter.bitmap g w ∧ (g, w) ∉ intFields (s.document i))
      else x ∈ s.indexes.filter.bitmap g w := by
  have hx : x = i.toUInt32 ↔ x.toUInt64 = i := by
    constructor
    · intro h
      rw [h]
      exact (hu.small d hd i hi).toUInt64
    · intro h
      rw [← h, UInt32.toUInt32_toUInt64]
  have hlast : (g, w) ∈ intFields d ∧ (FilterIndex.lastValue (intFields d) g = some w ∨
      (s.document i).memberInt64? g ≠ some w) ↔ (g, w) ∈ intFields d :=
    ⟨And.left, fun h => ⟨h, Or.inl ((hu.wellNamed d hd).lastValue h)⟩⟩
  have hold : ((s.document i).memberInt64? g = some w ∧ ∃ u, (g, u) ∈ intFields d) ↔
      (g, w) ∈ intFields (s.document i) := by
    by_cases ho : (s.document i).isObject = true
    · obtain ⟨hmem, hid⟩ := hs i ho
      have hsame := hu.same d hd _ hmem (hi.trans hid.symm) g
      constructor
      · rintro ⟨hw, hg⟩
        obtain ⟨u, hgu⟩ := hsame.mp hg
        have := hu.wellNamed _ hmem g u hgu
        rw [hw, Option.some.injEq] at this
        rwa [this]
      · intro hw
        exact ⟨hu.wellNamed _ hmem g w hw, hsame.mpr ⟨w, hw⟩⟩
    · rw [Json.memberInt64?_of_not_isObject ho, intFields_of_not_isObject ho]
      simp
  rw [mem_bitmap_upserted, hlast, hold, hx]
  split
  · rename_i h
    simp only [h, true_and]
  · rename_i h
    simp only [h, false_and, false_or, not_false_eq_true, and_true]

variable [CFloat F] {s t : Stores F} {ds all : List Json}

theorem storedIn_applied (h : Run Applied s ds t) (hs : s.StoredIn all) (hds : ∀ d ∈ ds, d ∈ all) : t.StoredIn all := by
  intro i hi
  rw [document_applied h] at hi ⊢
  cases hlast : lastDoc i ds with
  | none =>
    rw [hlast] at hi
    exact hs i hi
  | some d =>
    obtain ⟨hd, hid⟩ := lastDoc_mem hlast
    exact ⟨hds d hd, hid⟩

/-- An id without a document in the run keeps its bitmaps. -/
theorem mem_bitmap_applied_of_none (h : Run Applied s ds t) (hu : UniformFields all) (hs : s.StoredIn all)
    (hds : ∀ d ∈ ds, d ∈ all) {x : UInt32} (hx : lastDoc x.toUInt64 ds = none) (g : Bytes) (w : Int64) :
    x ∈ t.indexes.filter.bitmap g w ↔ x ∈ s.indexes.filter.bitmap g w := by
  induction h with
  | nil => rfl
  | @snoc ds d t u hr ha ih =>
    rw [List.forall_mem_append] at hds
    obtain ⟨i, v, hi, -, rfl⟩ := ha
    have hne := lastDoc_eq_none.mp hx
    have hxi : x.toUInt64 ≠ i := by
      intro h
      rw [← h] at hi
      exact hne d (List.mem_append_right _ (List.mem_singleton_self d)) hi
    rw [mem_bitmap_upserted_of_uniform hu (storedIn_applied hr hs hds.1) (hds.2 d (List.mem_singleton_self d)) hi,
      if_neg hxi]
    exact ih hds.1 (lastDoc_eq_none.mpr fun e he => hne e (List.mem_append_left _ he))

/-- **The bitmaps after a run**: an id is under the values of its last document, and under those it started with
that neither the stored document nor any document of the run gives it. -/
theorem mem_bitmap_applied (h : Run Applied s ds t) (hu : UniformFields all) (hs : s.StoredIn all)
    (hds : ∀ d ∈ ds, d ∈ all) {x : UInt32} {d : Json} (hx : lastDoc x.toUInt64 ds = some d) (g : Bytes) (w : Int64) :
    x ∈ t.indexes.filter.bitmap g w ↔ (g, w) ∈ intFields d ∨ (x ∈ s.indexes.filter.bitmap g w ∧
      (g, w) ∉ intFields (s.document x.toUInt64) ∧
      ∀ e ∈ ds, docId e = some x.toUInt64 → (g, w) ∉ intFields e) := by
  induction h generalizing d with
  | nil => cases hx
  | @snoc ds e t u hr ha ih =>
    rw [List.forall_mem_append] at hds
    obtain ⟨i, v, hi, -, rfl⟩ := ha
    rw [mem_bitmap_upserted_of_uniform hu (storedIn_applied hr hs hds.1) (hds.2 e (List.mem_singleton_self e)) hi]
    rw [lastDoc_concat, hi] at hx
    simp only [List.forall_mem_append, List.forall_mem_singleton, hi]
    by_cases hxi : x.toUInt64 = i
    · subst hxi
      rw [if_pos rfl, Option.some.injEq] at hx
      subst hx
      rw [if_pos rfl, document_applied hr]
      cases hlast : lastDoc x.toUInt64 ds with
      | none =>
        have hnone : ∀ e ∈ ds, docId e = some x.toUInt64 → (g, w) ∉ intFields e :=
          fun e he hid => absurd hid (lastDoc_eq_none.mp hlast e he)
        rw [Option.getD_none, mem_bitmap_applied_of_none hr hu hs hds.1 hlast]
        tauto
      | some c =>
        obtain ⟨hc, hcid⟩ := lastDoc_mem hlast
        rw [Option.getD_some, ih hds.1 hlast]
        have := fun h : ∀ e ∈ ds, docId e = some x.toUInt64 → (g, w) ∉ intFields e => h c hc hcid
        tauto
    · have hne : ¬ some i = some x.toUInt64 := fun h => hxi (Option.some.inj h).symm
      rw [if_neg hne] at hx
      rw [if_neg hxi, ih hds.1 hx]
      simp only [hne, false_imp_iff, and_true]

/-- Every value under which the filter lists an id of `ds` is one of the stored document or of the id's documents
in `ds`. -/
def Covered (s : Stores F) (ds : List Json) : Prop :=
  ∀ x g w, x ∈ s.indexes.filter.bitmap g w → (∃ d ∈ ds, docId d = some x.toUInt64) →
    (g, w) ∈ intFields (s.document x.toUInt64) ∨ ∃ d ∈ ds, docId d = some x.toUInt64 ∧ (g, w) ∈ intFields d

/-- **A run of documents** over a filter that shows `m` leaves one that shows the last documents exactly when the
documents cover what the filter lists. -/
theorem shows_applied_iff (h : Run Applied s ds t) (hu : UniformFields all) (hs : s.StoredIn all)
    (hds : ∀ d ∈ ds, d ∈ all) {m : UInt64 → Option Json} (hm : s.indexes.filter.Shows m) :
    t.indexes.filter.Shows (overwritten m ds) ↔ s.Covered ds := by
  simp only [FilterIndex.Shows, overwritten] at hm ⊢
  constructor
  · intro ht x g w hx hex
    by_contra hno
    rw [not_or] at hno
    obtain ⟨d, hd⟩ : ∃ d, lastDoc x.toUInt64 ds = some d := by
      obtain ⟨e, he, hid⟩ := hex
      exact exists_lastFor he hid
    have hno' : ∀ e ∈ ds, docId e = some x.toUInt64 → (g, w) ∉ intFields e :=
      fun e he hid hw => hno.2 ⟨e, he, hid, hw⟩
    have hxt := (mem_bitmap_applied h hu hs hds hd g w).mpr (Or.inr ⟨hx, hno.1, hno'⟩)
    obtain ⟨e, he, hw⟩ := (ht x g w).mp hxt
    rw [hd, Option.some_or, Option.some.injEq] at he
    subst he
    obtain ⟨hd, hid⟩ := lastDoc_mem hd
    exact hno' d hd hid hw
  · intro hc x g w
    cases hlast : lastDoc x.toUInt64 ds with
    | none => rw [mem_bitmap_applied_of_none h hu hs hds hlast, hm x g w, Option.none_or]
    | some d =>
      rw [mem_bitmap_applied h hu hs hds hlast, Option.some_or]
      simp only [Option.some.injEq, exists_eq_left']
      refine ⟨fun hor => ?_, Or.inl⟩
      rcases hor with hw | ⟨hx, hst, hall⟩
      · exact hw
      · obtain ⟨hd, hid⟩ := lastDoc_mem hlast
        rcases hc x g w hx ⟨d, hd, hid⟩ with hw | ⟨e, he, heid, hw⟩
        · exact absurd hw hst
        · exact absurd hw (hall e he heid)

end Stores

end VectorDb
