import VectorDb.HttpServer

/-!
# The entries of an id in the vector indexes

* `CommitStep`, `OneEntry` : commits of accepted bodies, and each stored document in exactly the index it names;
* `oneEntry_iff` : over every run this holds exactly when each document names FLAT or HNSW, the same as the stored
  one, and has a vector of the index's dimension;
* `FlatStep`, `FlatNodup` : accepted `/insert` requests and committed upserts naming FLAT, and no label twice;
* `flatNodup_iff` : over every run this holds exactly when a new entry replaces one that is found through a stored
  document, or there is none yet.
-/

namespace VectorDb
open Std (ExtTreeMap)

variable {F : Type}

/-- Only FLAT and HNSW hold vectors. -/
theorem IndexFactory.named_of_vectorsAt {ixs : IndexFactory F} {i : UInt64} {k : IndexType} (h : ixs.vectorsAt i k ≠ []) :
    k = .flat ∨ k = .hnsw := by
  cases k with
  | flat => exact Or.inl rfl
  | hnsw => exact Or.inr rfl
  | filter => exact absurd rfl h
  | unknown => exact absurd rfl h

namespace Stores

/-! ## One index for each document -/

/-- An id with entries has a document, and documents are objects. -/
structure Rooted (s : Stores F) : Prop where
  isObject : ∀ (i : UInt64) (d : Json), s.scalarStorage.docs[i]? = some d → d.isObject = true
  unstored : ∀ (i : UInt64) (k : IndexType), s.scalarStorage.docs[i]? = none → s.indexes.vectorsAt i k = []

/-- Each stored document has its vector in the index it names, and nothing in any other. -/
def OneEntry [CFloat F] (s : Stores F) : Prop :=
  ∀ (i : UInt64) (d : Json), s.scalarStorage.docs[i]? = some d → ∃ v, readVector F d = some v ∧
    ∀ k, s.indexes.vectorsAt i k = if k = getIndexTypeFromRequest d then [v] else []

/-- The document names FLAT or HNSW, as the stored one did, and has a vector of that dimension. -/
structure SameIndex [CFloat F] (s : Stores F) (d : Json) : Prop where
  named : getIndexTypeFromRequest d = .flat ∨ getIndexTypeFromRequest d = .hnsw
  stored : ∀ (i : UInt64) (e : Json), docId d = some i → s.scalarStorage.docs[i]? = some e →
    getIndexTypeFromRequest e = getIndexTypeFromRequest d
  dim : ∀ v, readVector F d = some v → v.length = s.indexes.dim (getIndexTypeFromRequest d)

theorem docs_upserted (s : Stores F) (id i : UInt64) (d : Json) (v : List F) (t : IndexType) :
    (s.upserted id d v t).scalarStorage.docs[i]? = if i = id then some d else s.scalarStorage.docs[i]? := by
  show (s.scalarStorage.docs.insert id d)[i]? = _
  simp only [ExtTreeMap.getElem?_insert, Std.compare_eq_iff_eq, eq_comm (a := id)]

theorem document_of_docs {s : Stores F} {i : UInt64} {d : Json} (h : s.scalarStorage.docs[i]? = some d) :
    s.document i = d := by
  rw [document, ScalarStorage.getScalar, if_pos rfl, h, Option.getD_some]

/-- In a rooted store an old entry is found through the stored document. -/
theorem Rooted.isObject_or {s : Stores F} (h : s.Rooted) (i : UInt64) (k : IndexType) :
    (s.document i).isObject = true ∨ s.indexes.vectorsAt i k = [] := by
  cases hd : s.scalarStorage.docs[i]? with
  | some d =>
    rw [document_of_docs hd]
    exact Or.inl (h.isObject i d hd)
  | none => exact Or.inr (h.unstored i k hd)

theorem Rooted.vectorsAt_upserted {s : Stores F} (h : s.Rooted) (i j : UInt64) (d : Json) (v : List F) (u k : IndexType)
    (hk : k = .flat ∨ k = .hnsw) : (s.upserted j d v u).indexes.vectorsAt i k =
      if i = j ∧ u = k then [v.take (s.indexes.dim k)] else s.indexes.vectorsAt i k :=
  Stores.vectorsAt_upserted hk (h.isObject_or i k) d v

/-- Another id keeps its entries. -/
theorem Rooted.vectorsAt_upserted_of_ne {s : Stores F} (h : s.Rooted) {i j : UInt64} (hij : i ≠ j) (d : Json) (v : List F)
    (u k : IndexType) : (s.upserted j d v u).indexes.vectorsAt i k = s.indexes.vectorsAt i k := by
  cases k with
  | flat => rw [h.vectorsAt_upserted i j d v u .flat (Or.inl rfl), if_neg fun hc => hij hc.1]
  | hnsw => rw [h.vectorsAt_upserted i j d v u .hnsw (Or.inr rfl), if_neg fun hc => hij hc.1]
  | filter => rfl
  | unknown => rfl

theorem rooted_fresh (dim : Nat) : (fresh dim : Stores F).Rooted where
  isObject i d h := by simp [fresh, ScalarStorage.empty] at h
  unstored i k _ := by cases k <;> simp [fresh, IndexFactory.init, IndexFactory.vectorsAt, FaissIndex.vectorsOf]

variable [CFloat F]

theorem rooted_upserted {s : Stores F} (hs : s.Rooted) (j : UInt64) {d : Json} {v : List F} (hv : readVector F d = some v)
    (u : IndexType) : (s.upserted j d v u).Rooted := by
  constructor
  · intro i e he
    rw [docs_upserted] at he
    split at he
    · cases he
      exact isObject_of_readVector hv
    · exact hs.isObject i e he
  · intro i k hi
    rw [docs_upserted] at hi
    split at hi
    · cases hi
    · rename_i hij
      rw [hs.vectorsAt_upserted_of_ne hij]
      exact hs.unstored i k hi

theorem rooted_applied {s t : Stores F} {d : Json} (hs : s.Rooted) (h : Applied s d t) : t.Rooted := by
  obtain ⟨j, v, -, hl, rfl⟩ := h
  exact rooted_upserted hs j hl.vector _

/-- The index of a stored document. -/
theorem OneEntry.named {s : Stores F} (hs : s.OneEntry) {i : UInt64} {d : Json} (hd : s.scalarStorage.docs[i]? = some d) :
    getIndexTypeFromRequest d = .flat ∨ getIndexTypeFromRequest d = .hnsw := by
  obtain ⟨v, -, hk⟩ := hs i d hd
  have hne : s.indexes.vectorsAt i (getIndexTypeFromRequest d) ≠ [] := by
    rw [hk, if_pos rfl]
    exact List.cons_ne_nil v []
  exact IndexFactory.named_of_vectorsAt hne

/-- No other index than the named one holds an entry of the id. -/
theorem SameIndex.vectorsAt_of_ne {s : Stores F} {d : Json} (h : s.SameIndex d) (hr : s.Rooted) (hs : s.OneEntry)
    {j : UInt64} (hj : docId d = some j) {k : IndexType} (hk : k ≠ getIndexTypeFromRequest d) :
    s.indexes.vectorsAt j k = [] := by
  cases hd : s.scalarStorage.docs[j]? with
  | none => exact hr.unstored j k hd
  | some e =>
    obtain ⟨v, -, he⟩ := hs j e hd
    rw [he, if_neg]
    rwa [h.stored j e hj hd]

/-- **One upsert** keeps each document in the index it names exactly when its own document stays in one. -/
theorem oneEntry_applied_iff {s t : Stores F} {d : Json} (hr : s.Rooted) (hs : s.OneEntry) (h : Applied s d t) :
    t.OneEntry ↔ s.SameIndex d := by
  obtain ⟨j, v, hj, hl, rfl⟩ := h
  have hvec : ∀ k, k = .flat ∨ k = .hnsw → (s.upserted j d v (getIndexTypeFromRequest d)).indexes.vectorsAt j k =
      if getIndexTypeFromRequest d = k then [v.take (s.indexes.dim k)] else s.indexes.vectorsAt j k := by
    intro k hk
    rw [hr.vectorsAt_upserted j j d v _ k hk]
    simp only [true_and]
  have hself : (s.upserted j d v (getIndexTypeFromRequest d)).scalarStorage.docs[j]? = some d := by
    rw [docs_upserted, if_pos rfl]
  constructor
  · intro ht
    have hnamed := ht.named hself
    obtain ⟨w, hw, hk⟩ := ht j d hself
    obtain rfl : v = w := Option.some.inj (hl.vector.symm.trans hw)
    refine ⟨hnamed, fun i e hi he => ?_, fun u hu => ?_⟩
    · obtain rfl : j = i := Option.some.inj (hj.symm.trans hi)
      by_contra hne
      obtain ⟨x, -, hx⟩ := hs j e he
      -- the old entry would still be in the index of the stored document
      have hold := hk (getIndexTypeFromRequest e)
      rw [hvec _ (hs.named he), if_neg (Ne.symm hne), hx, if_pos rfl, if_neg hne] at hold
      cases hold
    · obtain rfl : v = u := Option.some.inj (hl.vector.symm.trans hu)
      have hnew := hk (getIndexTypeFromRequest d)
      rw [hvec _ hnamed, if_pos rfl, if_pos rfl, List.singleton_inj] at hnew
      have hlen := congrArg List.length hnew
      rw [List.length_take] at hlen
      have hle := hl.length
      omega
  · intro hsame i e he
    by_cases hij : i = j
    · subst hij
      obtain rfl : d = e := Option.some.inj (hself.symm.trans he)
      refine ⟨v, hl.vector, fun k => ?_⟩
      by_cases hk : k = .flat ∨ k = .hnsw
      · rw [hvec k hk]
        by_cases ht : getIndexTypeFromRequest d = k
        · rw [if_pos ht, if_pos ht.symm, ← ht, ← hsame.dim v hl.vector, List.take_length]
        · rw [if_neg ht, if_neg (Ne.symm ht), hsame.vectorsAt_of_ne hr hs hj (Ne.symm ht)]
      · rw [if_neg fun hc => hk (by rw [hc]; exact hsame.named)]
        by_contra hne
        exact hk (IndexFactory.named_of_vectorsAt hne)
    · rw [docs_upserted, if_neg hij] at he
      obtain ⟨x, hx, hk⟩ := hs i e he
      refine ⟨x, hx, fun k => ?_⟩
      rw [hr.vectorsAt_upserted_of_ne hij, hk]

end Stores

/-! ## Commits of accepted bodies -/

section
variable [CFloat F] (S : BufferSerializer) (parse : Bytes → Option Json)

/-- The leader accepts the body, and the entry is committed at this index. -/
def CommitStep (s : LogStateMachine F) (a : Nat × Bytes) (t : LogStateMachine F) : Prop :=
  ∃ res payload out, HttpServer.upsertHandler parse S (some true) a.2 = .ok (res, some payload) ∧
    s.commit parse .ok a.1 payload = .ok (t, out)

variable {S} {parse}

theorem commitStep_unique (s : LogStateMachine F) (a : Nat × Bytes) (t u : LogStateMachine F) (ht : CommitStep S parse s a t)
    (hu : CommitStep S parse s a u) : t = u := by
  obtain ⟨res, payload, out, h, hc⟩ := ht
  obtain ⟨res', payload', out', h', hc'⟩ := hu
  cases h.symm.trans h'
  cases hc.symm.trans hc'
  rfl

/-- A committed body is applied as the document that the handler parsed. -/
theorem applied_of_commitStep {s t : LogStateMachine F} {a : Nat × Bytes} (h : CommitStep S parse s a t) :
    Applied s.vectorDatabase.stores (HttpServer.jsonRequest parse a.2) t.vectorDatabase.stores := by
  obtain ⟨res, payload, out, h, hc⟩ := h
  obtain ⟨rfl, -⟩ := HttpServer.upsertHandler_accepts parse h
  obtain ⟨-, stores, happ, heq⟩ := (LogStateMachine.commit_eq_ok parse).mp hc
  cases heq
  rwa [HttpServer.jsonRequest_putStr] at happ

/-- **Each document in one index.** In every run of commits of accepted bodies from empty stores, each stored document
always has its vector in the index it names and in no other exactly when each committed document names FLAT or HNSW,
the same as the document stored under its id, with a vector of that index's dimension. -/
theorem oneEntry_iff {dim : Nat} {s₀ s : LogStateMachine F} (h₀ : s₀.vectorDatabase.stores = Stores.fresh dim)
    {as : List (Nat × Bytes)} (h : Run (CommitStep S parse) s₀ as s) :
    (∀ bs u, bs <+: as → Run (CommitStep S parse) s₀ bs u → u.vectorDatabase.stores.OneEntry) ↔
      Run (fun s a t => CommitStep S parse s a t ∧
        s.vectorDatabase.stores.SameIndex (HttpServer.jsonRequest parse a.2)) s₀ as s := by
  have hrooted : ∀ {bs u}, Run (CommitStep S parse) s₀ bs u → u.vectorDatabase.stores.Rooted := by
    intro bs u hu
    refine Run.invariant (I := fun s => s.vectorDatabase.stores.Rooted) ?_ (fun s a t hs hst => ?_) hu
    · rw [h₀]
      exact Stores.rooted_fresh dim
    · exact Stores.rooted_applied hs (applied_of_commitStep hst)
  refine h.forall_prefix_iff commitStep_unique ?_ fun bs t a u _ ht hone hstep => ?_
  · intro i d hd
    rw [h₀] at hd
    simp [Stores.fresh, ScalarStorage.empty] at hd
  · exact Stores.oneEntry_applied_iff (hrooted (ht.mono fun _ _ _ h => h.1)) hone (applied_of_commitStep hstep)

end

namespace LogStateMachine

/-- Id 1 in HNSW. -/
def hnswBody : Bytes := ascii "\x7b\"id\":1,\"vectors\":[0],\"indexType\":\"HNSW\"\x7d"

def hnswDoc : Json := .obj [(requestId, .int 1), (requestVectors, .arr [.int 0]), (requestIndexType, .str indexTypeHnsw)]

def bothIndexesParser : Bytes → Option Json := tableParser [(newFieldBody, newFieldDoc), (hnswBody, hnswDoc)]

/-- Id 1 in FLAT. -/
def inFlat : LogStateMachine Number :=
  ⟨11, { (ofStores (Stores.fresh 1)).vectorDatabase with
    stores := (Stores.fresh 1).upserted 1 newFieldDoc [.int 0] .flat }⟩

/-- Id 1 in HNSW, over `inFlat`. -/
def inBoth : LogStateMachine Number :=
  ⟨12, { inFlat.vectorDatabase with stores := inFlat.vectorDatabase.stores.upserted 1 hnswDoc [.int 0] .hnsw }⟩

theorem commitStep_inFlat : CommitStep lengthPrefix bothIndexesParser (ofStores (Stores.fresh 1)) (11, newFieldBody) inFlat := by
  refine ⟨HttpServer.success [], lengthPrefix.putStr newFieldBody, leBytes 8 11, by rfl, ?_⟩
  refine (commit_eq_ok bothIndexesParser).mpr ⟨by decide, _, ?_, rfl⟩
  exact ⟨1, [.int 0], by rfl, ⟨by decide, by rfl, by decide, by decide⟩, rfl⟩

theorem commitStep_inBoth : CommitStep lengthPrefix bothIndexesParser inFlat (12, hnswBody) inBoth := by
  refine ⟨HttpServer.success [], lengthPrefix.putStr hnswBody, leBytes 8 12, by rfl, ?_⟩
  refine (commit_eq_ok bothIndexesParser).mpr ⟨by decide, _, ?_, rfl⟩
  exact ⟨1, [.int 0], by rfl, ⟨by decide +kernel, by rfl, by decide, by decide +kernel⟩, rfl⟩

theorem oneEntry_iff_inFlat :
    (∀ bs u, bs <+: [(11, newFieldBody)] → Run (CommitStep lengthPrefix bothIndexesParser) (ofStores (Stores.fresh 1)) bs u →
      u.vectorDatabase.stores.OneEntry) ↔
      Run (fun s a t => CommitStep lengthPrefix bothIndexesParser s a t ∧
        s.vectorDatabase.stores.SameIndex (HttpServer.jsonRequest bothIndexesParser a.2))
        (ofStores (Stores.fresh 1)) [(11, newFieldBody)] inFlat :=
  oneEntry_iff rfl (Run.single commitStep_inFlat)

/-- A document that moves to HNSW stays in FLAT. -/
theorem moved_document_in_both : ¬ ∀ (as : List (Nat × Bytes)) (s : LogStateMachine Number),
    Run (CommitStep lengthPrefix bothIndexesParser) (ofStores (Stores.fresh 1)) as s → s.vectorDatabase.stores.OneEntry := by
  intro h
  have hone := h _ inBoth ((Run.single commitStep_inFlat).snoc commitStep_inBoth)
  have hdoc : inBoth.vectorDatabase.stores.scalarStorage.docs[(1 : UInt64)]? = some hnswDoc := by
    show (Stores.upserted _ 1 hnswDoc _ _).scalarStorage.docs[(1 : UInt64)]? = _
    rw [Stores.docs_upserted, if_pos rfl]
  obtain ⟨v, -, hk⟩ := hone 1 hnswDoc hdoc
  have hflat := hk .flat
  rw [if_neg (by decide)] at hflat
  exact absurd hflat (by decide +kernel)

end LogStateMachine

/-! ## Labels of FLAT -/

inductive FlatAction where
  | insert (st : LibStatus) (body : Bytes)
  | upsert (doc : Json)

/-- No label twice. -/
def FlatNodup (s : Stores F) : Prop := (s.indexes.flat.entries.map Prod.fst).Nodup

/-- FLAT has no entry of the id. -/
def FlatFree (s : Stores F) (id : UInt64) : Prop := id.toInt64 ∉ s.indexes.flat.entries.map Prod.fst

section
variable [CFloat F] (parse : Bytes → Option Json)

/-- An `/insert` that is answered with success, or a committed upsert that names FLAT. -/
def FlatStep (s : Stores F) : FlatAction → Stores F → Prop
  | .insert st body, t => ∃ r, HttpServer.insertHandler parse st s.indexes body = .ok r ∧ r.1.retCode = some 0 ∧
      t = { s with indexes := r.2 }
  | .upsert doc, t => getIndexTypeFromRequest doc = .flat ∧ Applied s doc t

end

/-- An `/insert` into FLAT is of an id without an entry; an upsert has none to replace, or finds it through the stored
document. -/
def Replaces (parse : Bytes → Option Json) (s : Stores F) : FlatAction → Prop
  | .insert _ body => getIndexTypeFromRequest (HttpServer.jsonRequest parse body) = .flat →
      ∀ id, docId (HttpServer.jsonRequest parse body) = some id → FlatFree s id
  | .upsert doc => ∀ id, docId doc = some id → (s.document id).isObject = true ∨ FlatFree s id

/-- A new label at the end. -/
theorem nodup_labels_concat {es : List (Int64 × List F)} (h : (es.map Prod.fst).Nodup) (l : Int64) (v : List F) :
    ((es ++ [(l, v)]).map Prod.fst).Nodup ↔ l ∉ es.map Prod.fst := by
  rw [List.map_append, List.map_singleton, List.nodup_append]
  constructor
  · rintro ⟨-, -, hne⟩ hmem
    exact hne l hmem l (List.mem_singleton_self l) rfl
  · intro hl
    refine ⟨h, List.nodup_singleton l, fun a ha b hb hab => ?_⟩
    have heq : a = l := hab.trans (List.mem_singleton.mp hb)
    exact hl (heq ▸ ha)

section
variable [CFloat F] {parse : Bytes → Option Json}

theorem flatStep_unique (s : Stores F) (a : FlatAction) (t u : Stores F) (ht : FlatStep parse s a t)
    (hu : FlatStep parse s a u) : t = u := by
  cases a with
  | insert st body =>
    obtain ⟨r, hr, -, rfl⟩ := ht
    obtain ⟨q, hq, -, rfl⟩ := hu
    cases hr.symm.trans hq
    rfl
  | upsert doc => exact applied_unique s doc t u ht.2 hu.2

/-- **One write** keeps the labels distinct exactly when it replaces the entry of its id or brings the first one. -/
theorem flatNodup_step_iff {s t : Stores F} {a : FlatAction} (hs : FlatNodup s) (h : FlatStep parse s a t) :
    FlatNodup t ↔ Replaces parse s a := by
  cases a with
  | insert st body =>
    obtain ⟨r, hr, hret, rfl⟩ := h
    rcases HttpServer.insertHandler_eq_ok parse hr with ⟨-, hbad, -⟩ | ⟨-, -, v, id, -, hid, hixs⟩
    · rw [hbad] at hret
      cases hret
    · have hid' : docId (HttpServer.jsonRequest parse body) = some id := hid
      have hunique : ∀ i, docId (HttpServer.jsonRequest parse body) = some i ↔ i = id := by
        intro i
        rw [hid', Option.some.injEq, eq_comm]
      have heq : HttpServer.getIndexTypeFromRequest (HttpServer.jsonRequest parse body) =
        getIndexTypeFromRequest (HttpServer.jsonRequest parse body) := rfl
      simp only [Replaces, FlatNodup, hixs, hunique, forall_eq, heq]
      cases htype : getIndexTypeFromRequest (HttpServer.jsonRequest parse body) with
      | flat =>
        simp only [IndexFactory.inserted, true_imp_iff]
        exact nodup_labels_concat hs _ _
      | hnsw => exact iff_of_true hs fun hc => by cases hc
      | filter => exact iff_of_true hs fun hc => by cases hc
      | unknown => exact iff_of_true hs fun hc => by cases hc
  | upsert doc =>
    obtain ⟨htype, id, v, hid, -, rfl⟩ := h
    have hunique : ∀ i, docId doc = some i ↔ i = id := by
      intro i
      rw [hid, Option.some.injEq, eq_comm]
    simp only [Replaces, FlatNodup, hunique, forall_eq, htype, Stores.entries_upserted, if_true]
    have hsub : ((s.indexes.flat.entries.filter fun e =>
        ¬ ((s.document id).isObject = true ∧ e.1 = id.toInt64)).map Prod.fst).Nodup :=
      hs.sublist (List.filter_sublist.map _)
    rw [nodup_labels_concat hsub]
    by_cases ho : (s.document id).isObject = true
    · refine iff_of_true ?_ (Or.inl ho)
      simp [ho]
    · simp [ho, FlatFree]

/-- **No label twice.** In every run of accepted `/insert` requests and committed upserts naming FLAT from empty
stores, FLAT always has at most one entry for each id exactly when each `/insert` into it is of an id without an entry
and each upsert finds the entry of its id, if there is one, through the stored document. -/
theorem flatNodup_iff {dim : Nat} {as : List FlatAction} {s : Stores F} (h : Run (FlatStep parse) (Stores.fresh dim) as s) :
    (∀ bs (u : Stores F), bs <+: as → Run (FlatStep parse) (Stores.fresh dim) bs u → FlatNodup u) ↔
      Run (fun s a t => FlatStep parse s a t ∧ Replaces parse s a) (Stores.fresh dim) as s :=
  h.forall_prefix_iff flatStep_unique List.nodup_nil fun _ _ _ _ _ _ ht hstep => flatNodup_step_iff ht hstep

end

namespace LogStateMachine

/-- The stores after `/insert` of id 1. -/
def insertedOnce : Stores Number :=
  { (Stores.fresh 1 : Stores Number) with indexes := (Stores.fresh 1).indexes.inserted 1 [.int 0] .flat }

theorem flatStep_insert : FlatStep newFieldParser (Stores.fresh 1) (.insert .ok newFieldBody) insertedOnce :=
  ⟨(HttpServer.success [], insertedOnce.indexes), by rfl, HttpServer.retCode_success_nil, rfl⟩

theorem flatNodup_iff_insert :
    (∀ bs (u : Stores Number), bs <+: [FlatAction.insert .ok newFieldBody] →
      Run (FlatStep newFieldParser) (Stores.fresh 1) bs u → FlatNodup u) ↔
      Run (fun s a t => FlatStep newFieldParser s a t ∧ Replaces newFieldParser s a) (Stores.fresh 1)
        [.insert .ok newFieldBody] insertedOnce :=
  flatNodup_iff (Run.single flatStep_insert)

/-- The same `/insert` twice. -/
theorem inserted_twice : ¬ ∀ (as : List FlatAction) (s : Stores Number),
    Run (FlatStep newFieldParser) (Stores.fresh 1) as s → FlatNodup s := by
  intro h
  let s₂ : Stores Number := { insertedOnce with indexes := insertedOnce.indexes.inserted 1 [.int 0] .flat }
  have h₂ : FlatStep newFieldParser insertedOnce (.insert .ok newFieldBody) s₂ :=
    ⟨(HttpServer.success [], s₂.indexes), by rfl, HttpServer.retCode_success_nil, rfl⟩
  have hnodup : (s₂.indexes.flat.entries.map Prod.fst).Nodup := h _ s₂ ((Run.single flatStep_insert).snoc h₂)
  exact absurd hnodup (by decide +kernel)

end LogStateMachine
end VectorDb
