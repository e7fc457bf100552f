import VectorDb.Node

/-!
# What a node recovers

* `Stores.Holds` : the scalar store holds the last document of each id, and the documents were applied in order;
* `exists_covers`, `lastDoc_replayed_or` : each file covers the cutoff, wherever a snapshot was cut, so that a replay
  over it ends with the last documents of the whole log;
* `Stored`, `stored_run` : in every run the stores hold the applied documents.
-/

namespace VectorDb

variable {F : Type}

/-! ## Stores that hold some documents -/

/-- The document can be applied after those of `ds`. -/
def LegalAfter (F : Type) [CFloat F] (dim : Nat) (ds : List Json) (d : Json) : Prop :=
  ∃ i v, docId d = some i ∧ readVector F d = some v ∧
    (IndexFactory.init dim : IndexFactory F).dim (getIndexTypeFromRequest d) ≤ v.length ∧
    Readable ((lastDoc i ds).getD .null) d

/-- Each document can be applied after those before it. -/
def LegalLog (F : Type) [CFloat F] (dim : Nat) (ds : List Json) : Prop :=
  ∀ es d, es ++ [d] <+: ds → LegalAfter F dim es d

section
variable [CFloat F] {dim : Nat} {ds : List Json}

theorem legalLog_nil : LegalLog F dim [] := by
  intro es d h
  have := List.prefix_nil.mp h
  simp at this

theorem LegalLog.concat {d : Json} (h : LegalLog F dim ds) (hd : LegalAfter F dim ds d) : LegalLog F dim (ds ++ [d]) := by
  intro es e he
  rcases List.prefix_concat_iff.mp he with heq | he
  · obtain ⟨rfl, hde⟩ := List.append_inj' heq rfl
    cases hde
    exact hd
  · exact h es e he

theorem LegalLog.mem (h : LegalLog F dim ds) {d : Json} (hd : d ∈ ds) : ∃ i v, docId d = some i ∧
    readVector F d = some v ∧ (IndexFactory.init dim : IndexFactory F).dim (getIndexTypeFromRequest d) ≤ v.length := by
  obtain ⟨es, fs, rfl⟩ := List.append_of_mem hd
  obtain ⟨i, v, hi, hv, hlen, -⟩ := h es d ⟨fs, by simp⟩
  exact ⟨i, v, hi, hv, hlen⟩

theorem LegalLog.isObject (h : LegalLog F dim ds) {d : Json} (hd : d ∈ ds) : d.isObject = true := by
  obtain ⟨-, v, -, hv, -⟩ := h.mem hd
  exact isObject_of_readVector hv

/-- The scalar store holds the last document of each id, and the documents were applied one after the other. -/
structure Stores.Holds (s : Stores F) (dim : Nat) (ds : List Json) : Prop where
  document : ∀ i, s.document i = (lastDoc i ds).getD .null
  dims : ∀ t, s.indexes.dim t = (IndexFactory.init dim : IndexFactory F).dim t
  legal : LegalLog F dim ds

namespace Stores
variable {s t : Stores F}

theorem holds_fresh (dim : Nat) : (fresh dim : Stores F).Holds dim [] :=
  ⟨document_fresh dim, fun _ => rfl, legalLog_nil⟩

/-- Applying a document to stores whose documents were applied. -/
theorem applied_legal (hs : s.Holds dim ds) {d : Json} (h : Applied s d t) : LegalAfter F dim ds d := by
  obtain ⟨i, v, hi, hl, -⟩ := h
  exact ⟨i, v, hi, hl.vector, hs.dims _ ▸ hl.length, hs.document i ▸ hl.fields⟩

theorem holds_applied {es : List Json} (hs : s.Holds dim ds) (h : Run Applied s es t) : t.Holds dim (ds ++ es) := by
  induction h with
  | nil => rwa [List.append_nil]
  | @snoc es e t u hr ha ih =>
    have hrun := hr.snoc ha
    rw [← List.append_assoc]
    refine ⟨fun i => ?_, fun k => (dim_applied hrun k).trans (hs.dims k), ih.legal.concat (applied_legal ih ha)⟩
    rw [document_applied (Run.single ha), ih.document, lastDoc_append i (ds ++ es) [e]]
    cases lastDoc i [e] <;> rfl

/-- A stored document is the last one of its id. -/
theorem Holds.isObject_iff (hs : s.Holds dim ds) (i : UInt64) :
    (s.document i).isObject = true ↔ ∃ d, lastDoc i ds = some d := by
  rw [hs.document]
  cases h : lastDoc i ds with
  | none => simp [Json.isObject]
  | some d => simp [hs.legal.isObject (lastDoc_mem h).1]

end Stores
end

/-! ## What the files cover -/

namespace Node
section
variable {R : RoaringFormat} {dim : Nat} {parse : Bytes → Option Json} {s t : Node F}

theorem appliedDocs_append (s : Node F) (h : s.applied ≤ s.wal.length) (sm : LogStateMachine F) (e : Nat × Bytes) :
    (⟨sm, s.wal ++ [e], s.applied, s.nullBitmaps⟩ : Node F).appliedDocs parse = s.appliedDocs parse := by
  show ((s.wal ++ [e]).map (entryDoc parse)).take s.applied = _
  rw [List.map_append, List.take_append_of_le_length (by rwa [List.length_map])]
  rfl

theorem appliedDocs_commit {e : Nat × Bytes} (he : s.wal[s.applied]? = some e) (sm : LogStateMachine F) :
    (⟨sm, s.wal, s.applied + 1, s.nullBitmaps⟩ : Node F).appliedDocs parse = s.appliedDocs parse ++ [entryDoc parse e] := by
  show (s.wal.map (entryDoc parse)).take (s.applied + 1) = _
  rw [List.take_add_one, List.getElem?_map, he]
  rfl

theorem appliedDocs_of_all (h : s.applied = s.wal.length) : s.appliedDocs parse = s.docs parse := by
  rw [appliedDocs, h, docs, List.take_of_length_le (by rw [List.length_map])]

theorem docs_eq (s : Node F) : s.docs parse = s.appliedDocs parse ++ (s.wal.drop s.applied).map (entryDoc parse) := by
  rw [appliedDocs, docs, ← List.map_take, ← List.map_append, List.take_append_drop]

/-- What is still to be applied lies above the cutoff. -/
theorem cutoff_lt (h : Logged parse s) (writes : Nat) :
    ∀ r ∈ (s.wal.drop s.applied).map (entryDoc parse), s.cutoff R writes < r.1 := by
  intro r hr
  obtain ⟨e, he, rfl⟩ := List.mem_map.mp hr
  exact Nat.lt_of_le_of_lt (cutoff_le h writes) (h.increaseID_lt e he)

theorem replayed_eq (h : Logged parse s) (writes : Nat) : s.replayed R parse writes =
    above Prod.fst (s.cutoff R writes) (s.appliedDocs parse) ++ (s.wal.drop s.applied).map (entryDoc parse) := by
  rw [replayed, docs_eq, above, List.filter_append]
  congr 1
  apply List.filter_eq_self.mpr
  intro r hr
  exact decide_eq_true (cutoff_lt h writes r hr)

theorem covers_docs (h : Logged parse s) {writes : Nat} {p : List (Nat × Json)}
    (hp : Covers Prod.fst (s.cutoff R writes) p (s.appliedDocs parse)) :
    Covers Prod.fst (s.cutoff R writes) p (s.docs parse) := by
  rw [docs_eq]
  exact hp.append (cutoff_lt h writes)

/-- A file that a snapshot writes covers the cutoff, whether the snapshot got to it or not: the cutoff is written
last. -/
theorem exists_covers {p : List (Nat × Json)} (hp : Covers Prod.fst (s.db.files.maxLogID.getD 0) p (s.appliedDocs parse))
    {writes n : Nat} (hn : n ≤ 4) {Q : List (Nat × Json) → Prop} (hnew : n ≤ writes → Q (s.appliedDocs parse))
    (hold : writes < n → Q p) : ∃ q, Covers Prod.fst (s.cutoff R writes) q (s.appliedDocs parse) ∧ Q q := by
  rcases Nat.lt_or_ge writes n with h | h
  · refine ⟨p, ?_, hold h⟩
    rwa [cutoff, VectorDatabase.maxLogID_takeSnapshotUpTo, if_neg (by omega)]
  · exact ⟨_, Covers.refl _, hnew h⟩

/-- **The replay** over what a file covers has the last documents of the whole log. -/
theorem lastDoc_replayed_or (h : Logged parse s) {writes : Nat} {p : List (Nat × Json)}
    (hp : Covers Prod.fst (s.cutoff R writes) p (s.appliedDocs parse)) (i : UInt64) :
    (lastDoc i ((s.replayed R parse writes).map Prod.snd)).or (lastDoc i (p.map Prod.snd)) =
      lastDoc i ((s.docs parse).map Prod.snd) := by
  simp only [lastDoc, lastFor_map]
  rw [← lastFor_above_or h.docs_sorted (covers_docs h hp), replayed, Option.map_or]

/-! ## What is stored -/

variable [CFloat F]

/-- The stores hold the applied documents, and the files are for indexes of the same dimension. -/
structure Stored (dim : Nat) (parse : Bytes → Option Json) (s : Node F) : Prop where
  holds : s.db.stores.Holds dim ((s.appliedDocs parse).map Prod.snd)
  flat_d : (s.db.files.flat.getD ⟨dim, []⟩).d = dim
  hnsw_d : (s.db.files.hnsw.getD ⟨dim, ∅⟩).d = dim

theorem flat_d_saved (h : Stored dim parse s) (writes : Nat) :
    ((s.db.takeSnapshotUpTo R writes).files.flat.getD ⟨dim, []⟩).d = dim := by
  rw [VectorDatabase.flat_takeSnapshotUpTo]
  split
  · exact h.holds.dims .flat
  · exact h.flat_d

theorem hnsw_d_saved (h : Stored dim parse s) (writes : Nat) :
    ((s.db.takeSnapshotUpTo R writes).files.hnsw.getD ⟨dim, ∅⟩).d = dim := by
  rw [VectorDatabase.hnsw_takeSnapshotUpTo]
  split
  · exact h.holds.dims .hnsw
  · exact h.hnsw_d

theorem dims_loaded (h : Stored dim parse s) (writes : Nat) (filter : FilterIndex) (k : IndexType) :
    (s.loaded R dim writes filter).indexes.dim k = (IndexFactory.init dim : IndexFactory F).dim k := by
  cases k with
  | flat => exact flat_d_saved h writes
  | hnsw => exact hnsw_d_saved h writes
  | filter => rfl
  | unknown => rfl

/-- The replay of what was applied before puts the same documents back. -/
theorem holds_replayed (hl : Logged parse s) (h : Stored dim parse s) {writes : Nat} {filter : FilterIndex}
    {stores : Stores F} (hrun : Run Applied (s.loaded R dim writes filter)
      ((above Prod.fst (s.cutoff R writes) (s.appliedDocs parse)).map Prod.snd) stores) :
    stores.Holds dim ((s.appliedDocs parse).map Prod.snd) := by
  refine ⟨fun i => ?_, fun k => (Stores.dim_applied hrun k).trans (dims_loaded h writes filter k), h.holds.legal⟩
  have hsorted : (s.appliedDocs parse).Pairwise fun a b => a.1 < b.1 := hl.docs_sorted.sublist (List.take_sublist _ _)
  have hcovers : Covers Prod.fst (s.cutoff R writes) (s.appliedDocs parse) (s.appliedDocs parse) := Covers.refl _
  have hor := lastFor_above_or hsorted hcovers (fun r => docId r.2) (some i)
  rw [Stores.document_applied hrun, document_loaded, h.holds.document]
  simp only [lastDoc, lastFor_map]
  rw [← hor, Option.map_or]
  cases lastFor (fun r : Nat × Json => docId r.2) (some i) (above Prod.fst (s.cutoff R writes) (s.appliedDocs parse)) with
  | none => rfl
  | some r => rfl

theorem stored_step {a : NodeAction} (hl : Logged parse s) (h : Stored dim parse s) (hst : Step R dim parse s a t) :
    Stored dim parse t := by
  cases a with
  | append logIdx data =>
    obtain ⟨-, -, -, rfl⟩ := hst
    refine ⟨?_, h.flat_d, h.hnsw_d⟩
    rw [appliedDocs_append s hl.applied_le]
    exact h.holds
  | commit =>
    obtain ⟨e, stores, he, -, ha, -, rfl⟩ := step_commit_iff.mp hst
    refine ⟨?_, h.flat_d, h.hnsw_d⟩
    rw [appliedDocs_commit he, List.map_append]
    exact Stores.holds_applied h.holds (Run.single ha)
  | snapshot =>
    obtain ⟨-, rfl⟩ := hst
    exact ⟨⟨h.holds.document, h.holds.dims, h.holds.legal⟩, h.holds.dims .flat, h.holds.dims .hnsw⟩
  | restart writes =>
    obtain ⟨-, l, stores, -, hrun, -, rfl⟩ := (step_restart_iff hl).mp hst
    refine ⟨?_, flat_d_saved h writes, hnsw_d_saved h writes⟩
    rw [replayed_eq hl, List.map_append, Run.append_iff] at hrun
    obtain ⟨u, hu, hrest⟩ := hrun
    rw [appliedDocs_of_all rfl]
    show stores.Holds dim ((s.docs parse).map Prod.snd)
    rw [docs_eq, List.map_append]
    exact Stores.holds_applied (holds_replayed hl h hu) hrest

theorem stored_run {as : List NodeAction} (h : Run (Step R dim parse) (first dim) as s) : Stored dim parse s :=
  Run.invariant_and (J := Logged parse) logged_run ⟨Stores.holds_fresh dim, rfl, rfl⟩
    (fun _ _ _ => stored_step) h

end
end Node
end VectorDb
