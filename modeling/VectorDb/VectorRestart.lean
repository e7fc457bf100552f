import VectorDb.Recovery

/-!
# The vector indexes over restarts

* `ShowsVector` : an index holds one vector of an id, that of its last document;
* `VectorsKept` : the live index shows the applied documents, its file a part of them that covers the cutoff;
* `vectorsKept_step` : kept by every step, for an id whose documents name one index;
* `vectors_after_restart` : after any restart both indexes show the whole log.
-/

namespace VectorDb
open Std (ExtTreeMap)

variable {F : Type}

/-- The vector indexes that a load of these files gives. -/
def SnapshotFiles.indexes (files : SnapshotFiles F) (dim : Nat) : IndexFactory F :=
  ⟨files.flat.getD ⟨dim, []⟩, files.hnsw.getD ⟨dim, ∅⟩, FilterIndex.empty⟩

variable [CFloat F]

/-- The index `k` holds the vector of the id's last document, and nothing else under the id. -/
def ShowsVector (dim : Nat) (ixs : IndexFactory F) (k : IndexType) (i : UInt64) (last : Option Json) : Prop :=
  ixs.vectorsAt i k = (last.map (vectorOf F dim)).toList

namespace Stores

/-- **A run of documents** over an index that shows one that the stored document can find. -/
theorem showsVector_applied {s t : Stores F} {ds : List Json} (h : Run Applied s ds t) {dim : Nat} {k : IndexType}
    (hk : k = .flat ∨ k = .hnsw) (hdim : s.indexes.dim k = dim) {i : UInt64} {last : Option Json}
    (hlast : ∀ d, last = some d → (s.document i).isObject = true) (hs : ShowsVector dim s.indexes k i last)
    (hds : ∀ d ∈ ds, docId d = some i → getIndexTypeFromRequest d = k) :
    ShowsVector dim t.indexes k i ((lastDoc i ds).or last) := by
  have hold : (s.document i).isObject = true ∨ s.indexes.vectorsAt i k = [] := by
    cases last with
    | none => exact Or.inr hs
    | some d => exact Or.inl (hlast d rfl)
  rw [ShowsVector, vectorsAt_applied h hk hold hds, hdim]
  cases lastDoc i ds with
  | none => exact hs
  | some d => rfl

end Stores

namespace Node
section
variable {R : RoaringFormat} {dim : Nat} {parse : Bytes → Option Json} {s t : Node F} {i : UInt64} {k : IndexType}

/-- Every logged document of the id names the index `k`. -/
def NamesOnly (parse : Bytes → Option Json) (s : Node F) (i : UInt64) (k : IndexType) : Prop :=
  ∀ r ∈ s.docs parse, docId r.2 = some i → getIndexTypeFromRequest r.2 = k

/-- The index `k` shows the id's last applied document, and its file one that a replay can continue. -/
structure VectorsKept (dim : Nat) (parse : Bytes → Option Json) (i : UInt64) (k : IndexType) (s : Node F) : Prop where
  live : ShowsVector dim s.db.stores.indexes k i (lastDoc i ((s.appliedDocs parse).map Prod.snd))
  saved : ∃ p, Covers Prod.fst (s.db.files.maxLogID.getD 0) p (s.appliedDocs parse) ∧
    ShowsVector dim (s.db.files.indexes dim) k i (lastDoc i (p.map Prod.snd))

theorem vectorsKept_first (hk : k = .flat ∨ k = .hnsw) : VectorsKept dim parse i k (first dim : Node F) := by
  have hinit : ShowsVector dim (IndexFactory.init dim : IndexFactory F) k i none := by
    rcases hk with rfl | rfl
    · rfl
    · show ((∅ : ExtTreeMap UInt64 (List F))[i]?).toList = _
      rw [ExtTreeMap.getElem?_empty]
      rfl
  exact ⟨hinit, [], Covers.refl _, hinit⟩

/-- The file of `k` after a snapshot, complete or cut. -/
theorem exists_saved (h : VectorsKept dim parse i k s) (hk : k = .flat ∨ k = .hnsw) (writes : Nat) :
    ∃ p, Covers Prod.fst (s.cutoff R writes) p (s.appliedDocs parse) ∧
      ShowsVector dim ((s.db.takeSnapshotUpTo R writes).files.indexes dim) k i (lastDoc i (p.map Prod.snd)) := by
  obtain ⟨p, hp, hsaved⟩ := h.saved
  have hlive := h.live
  rcases hk with rfl | rfl
  · apply exists_covers hp (n := 1) (by omega)
    · intro hle
      rw [ShowsVector, IndexFactory.vectorsAt, SnapshotFiles.indexes, VectorDatabase.flat_takeSnapshotUpTo, if_pos hle]
      exact hlive
    · intro hlt
      rw [ShowsVector, IndexFactory.vectorsAt, SnapshotFiles.indexes, VectorDatabase.flat_takeSnapshotUpTo,
        if_neg (Nat.not_le.mpr hlt)]
      exact hsaved
  · apply exists_covers hp (n := 2) (by omega)
    · intro hle
      rw [ShowsVector, IndexFactory.vectorsAt, SnapshotFiles.indexes, VectorDatabase.hnsw_takeSnapshotUpTo, if_pos hle]
      exact hlive
    · intro hlt
      rw [ShowsVector, IndexFactory.vectorsAt, SnapshotFiles.indexes, VectorDatabase.hnsw_takeSnapshotUpTo,
        if_neg (Nat.not_le.mpr hlt)]
      exact hsaved

omit [CFloat F] in
theorem dim_init (dim : Nat) (hk : k = .flat ∨ k = .hnsw) : (IndexFactory.init dim : IndexFactory F).dim k = dim := by
  rcases hk with rfl | rfl <;> rfl

/-- **One step** keeps the vectors of an id whose documents name one index. -/
theorem vectorsKept_step {a : NodeAction} (hl : Logged parse s) (hs : Stored dim parse s) (hk : k = .flat ∨ k = .hnsw)
    (h : VectorsKept dim parse i k s) (hst : Step R dim parse s a t) (hn : t.NamesOnly parse i k) :
    VectorsKept dim parse i k t := by
  cases a with
  | append logIdx data =>
    obtain ⟨-, -, -, rfl⟩ := hst
    constructor
    · rw [appliedDocs_append s hl.applied_le]
      exact h.live
    · rw [appliedDocs_append s hl.applied_le]
      exact h.saved
  | commit =>
    obtain ⟨e, stores, he, -, ha, -, rfl⟩ := step_commit_iff.mp hst
    have hmem : e ∈ s.wal := List.mem_of_getElem? he
    have hname : ∀ d ∈ [(entryDoc parse e).2], docId d = some i → getIndexTypeFromRequest d = k :=
      List.forall_mem_singleton.mpr (hn _ (List.mem_map_of_mem hmem))
    have hdim : s.db.stores.indexes.dim k = dim := (hs.holds.dims k).trans (dim_init dim hk)
    constructor
    · rw [appliedDocs_commit he, List.map_append, lastDoc_append]
      exact Stores.showsVector_applied (Run.single ha) hk hdim (fun d hd => (hs.holds.isObject_iff i).mpr ⟨d, hd⟩) h.live
        hname
    · rw [appliedDocs_commit he]
      obtain ⟨p, hp, hsaved⟩ := h.saved
      exact ⟨p, hp.append (List.forall_mem_singleton.mpr (hl.maxLogID_lt he)), hsaved⟩
  | snapshot =>
    obtain ⟨-, rfl⟩ := hst
    exact ⟨h.live, exists_saved h hk 4⟩
  | restart writes =>
    obtain ⟨-, l, stores, -, hrun, -, rfl⟩ := (step_restart_iff hl).mp hst
    obtain ⟨p, hp, hsaved⟩ := exists_saved (R := R) h hk writes
    have hload : ShowsVector dim (s.loaded R dim writes l.filter).indexes k i (lastDoc i (p.map Prod.snd)) := by
      rcases hk with rfl | rfl <;> exact hsaved
    have hdim := (dims_loaded (R := R) hs writes l.filter k).trans (dim_init dim hk)
    have hobj : ∀ d, lastDoc i (p.map Prod.snd) = some d →
        ((s.loaded R dim writes l.filter).document i).isObject = true := by
      intro d hd
      obtain ⟨hmem, hid⟩ := lastDoc_mem hd
      rw [document_loaded, hs.holds.isObject_iff]
      exact exists_lastFor ((hp.initial.map Prod.snd).subset hmem) hid
    have hname : ∀ d ∈ (s.replayed R parse writes).map Prod.snd, docId d = some i → getIndexTypeFromRequest d = k := by
      intro d hd
      obtain ⟨r, hr, rfl⟩ := List.mem_map.mp hd
      exact hn r (List.mem_of_mem_filter hr)
    have hall : (boot ⟨stores, s.reloaded R writes, (s.db.takeSnapshotUpTo R writes).files⟩ l.nullBitmaps
        s.wal).appliedDocs parse = s.docs parse := appliedDocs_of_all rfl
    constructor
    · rw [hall, ← lastDoc_replayed_or hl hp]
      exact Stores.showsVector_applied hrun hk hdim hobj hload hname
    · rw [hall]
      exact ⟨p, covers_docs hl hp, hsaved⟩

omit [CFloat F] in
theorem NamesOnly.of_prefix_wal (h : t.NamesOnly parse i k) (hw : s.wal <+: t.wal) : s.NamesOnly parse i k :=
  fun r hr => h r ((hw.map (entryDoc parse)).subset hr)

theorem vectorsKept_run {as : List NodeAction} (h : Run (Step R dim parse) (first dim) as s) (hk : k = .flat ∨ k = .hnsw)
    (hn : s.NamesOnly parse i k) : VectorsKept dim parse i k s := by
  refine Run.invariant_and (J := fun s => Logged parse s ∧ Stored dim parse s)
    (I := fun s => s.NamesOnly parse i k → VectorsKept dim parse i k s) (fun hr => ⟨logged_run hr, stored_run hr⟩)
    (fun _ => vectorsKept_first hk) ?_ h hn
  intro s a t hJ hI hst ht
  exact vectorsKept_step hJ.1 hJ.2 hk (hI (ht.of_prefix_wal (prefix_wal hst))) hst ht

/-- What the vectors of a node show right after a restart. -/
theorem showsVector_restart {as : List NodeAction} {writes : Nat}
    (h : Run (Step R dim parse) (first dim) (as ++ [.restart writes]) t) (hk : k = .flat ∨ k = .hnsw)
    (hn : t.NamesOnly parse i k) :
    ShowsVector dim t.db.stores.indexes k i (lastDoc i ((t.docs parse).map Prod.snd)) := by
  obtain ⟨s, hs, hst⟩ := Run.snoc_iff.mp h
  have hall : t.applied = t.wal.length := by
    obtain ⟨-, r, -, rfl⟩ := hst
    rfl
  rw [← appliedDocs_of_all hall]
  exact (vectorsKept_run h hk hn).live

theorem showsVector_some {ixs : IndexFactory F} {ds : List Json} (hds : LegalLog F dim ds) (hk : k = .flat ∨ k = .hnsw)
    {d : Json} (hd : lastDoc i ds = some d) (hname : getIndexTypeFromRequest d = k)
    (h : ShowsVector dim ixs k i (lastDoc i ds)) :
    ∃ v, readVector F d = some v ∧ dim ≤ v.length ∧ ixs.vectorsAt i k = [v.take dim] := by
  obtain ⟨-, v, -, hv, hlen⟩ := hds.mem (lastDoc_mem hd).1
  rw [hname, dim_init dim hk] at hlen
  refine ⟨v, hv, hlen, ?_⟩
  rw [h, hd, Option.map_some, vectorOf, hv]
  rfl

/-- **The vector indexes survive any restart**, with the last writer's vectors: right after a restart, wherever the
snapshots of the run were cut, the index that all documents of an id name holds the vector of its last document and
nothing else under the id, and neither index holds an id that was never logged. -/
theorem vectors_after_restart {as : List NodeAction} {writes : Nat}
    (h : Run (Step R dim parse) (first dim) (as ++ [.restart writes]) t) (i : UInt64) :
    (t.NamesOnly parse i .flat → ∀ d, lastDoc i ((t.docs parse).map Prod.snd) = some d →
      ∃ v, readVector F d = some v ∧ dim ≤ v.length ∧ t.db.stores.indexes.flat.vectorsOf i = [v.take dim]) ∧
    (t.NamesOnly parse i .hnsw → ∀ d, lastDoc i ((t.docs parse).map Prod.snd) = some d →
      ∃ v, readVector F d = some v ∧ dim ≤ v.length ∧ t.db.stores.indexes.hnsw.points[i]? = some (v.take dim)) ∧
    ((∀ r ∈ t.docs parse, docId r.2 ≠ some i) →
      t.db.stores.indexes.flat.vectorsOf i = [] ∧ t.db.stores.indexes.hnsw.points[i]? = none) := by
  have hlegal : LegalLog F dim ((t.docs parse).map Prod.snd) := by
    obtain ⟨s, -, hst⟩ := Run.snoc_iff.mp h
    have hall : t.applied = t.wal.length := by
      obtain ⟨-, r, -, rfl⟩ := hst
      rfl
    rw [← appliedDocs_of_all hall]
    exact (stored_run h).holds.legal
  have hname : ∀ {k d}, t.NamesOnly parse i k → lastDoc i ((t.docs parse).map Prod.snd) = some d →
      getIndexTypeFromRequest d = k := by
    intro k d hn hd
    obtain ⟨hmem, hid⟩ := lastDoc_mem hd
    obtain ⟨r, hr, rfl⟩ := List.mem_map.mp hmem
    exact hn r hr hid
  refine ⟨fun hn d hd => ?_, fun hn d hd => ?_, fun hnone => ?_⟩
  · exact showsVector_some hlegal (Or.inl rfl) hd (hname hn hd) (showsVector_restart h (Or.inl rfl) hn)
  · obtain ⟨v, hv, hlen, hp⟩ := showsVector_some hlegal (Or.inr rfl) hd (hname hn hd) (showsVector_restart h (Or.inr rfl) hn)
    refine ⟨v, hv, hlen, ?_⟩
    exact Option.toList_eq_singleton_iff.mp hp
  · have hlast : lastDoc i ((t.docs parse).map Prod.snd) = none := by
      rw [lastDoc_eq_none]
      intro d hd
      obtain ⟨r, hr, rfl⟩ := List.mem_map.mp hd
      exact hnone r hr
    have hn : ∀ k, t.NamesOnly parse i k := fun k r hr hid => absurd hid (hnone r hr)
    have hflat := showsVector_restart h (Or.inl rfl) (hn .flat)
    have hhnsw := showsVector_restart h (Or.inr rfl) (hn .hnsw)
    rw [hlast] at hflat hhnsw
    exact ⟨hflat, Option.toList_eq_nil_iff.mp hhnsw⟩

end

theorem vectors_after_restart_oneUpsert : ∃ v, readVector Number LogStateMachine.newFieldDoc = some v ∧ 1 ≤ v.length ∧
    oneUpsertRestarted.db.stores.indexes.flat.vectorsOf 1 = [v.take 1] :=
  (vectors_after_restart ((run_oneUpsert newFieldParser_body).snoc (restart_oneUpsert newFieldParser_body)) 1).1
    (List.forall_mem_singleton.mpr fun _ => rfl) _ rfl

end Node
end VectorDb
