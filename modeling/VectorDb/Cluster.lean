import VectorDb.Query

/-!
# A cluster of nodes

* `Cluster`, `Cluster.Step` : the log that Raft keeps and the nodes that follow it; a body of `/upsert` enters the log, or
  one node takes a step of its own;
* `Following` : each node is in a run of its own, and has logged a part of the log, from its beginning;
* `Later`, `later_run` : nothing is withdrawn, from the log or from a node, not even by a crash;
* `replicas_answer` : what a node answers and holds, from the entries of the log that it has applied;
* `replicas_agree` : nodes that have applied as much answer alike, whenever they are asked; one that has applied more
  answers from a continuation.
-/

namespace VectorDb

variable {N F : Type}

/-- The entries that Raft has agreed on, none of which is withdrawn later, and the nodes. -/
structure Cluster (N F : Type) where
  log : List (Nat × Bytes)
  nodes : N → Node F

inductive ClusterAction (N : Type) where
  /-- The leader takes a body of `/upsert`. -/
  | upsert (logIdx : Nat) (body : Bytes)
  | node (n : N) (a : NodeAction)

namespace Node
variable [CFloat F] {R : RoaringFormat} {dim : Nat} {parse : Bytes → Option Json} {s t : Node F}

theorem applied_le_step {a : NodeAction} (h : Logged parse s) (hst : Step R dim parse s a t) : s.applied ≤ t.applied := by
  cases a with
  | append logIdx data =>
    obtain ⟨-, -, -, rfl⟩ := hst
    exact Nat.le_refl _
  | commit =>
    obtain ⟨e, r, -, -, -, rfl⟩ := hst
    exact Nat.le_succ _
  | snapshot =>
    obtain ⟨-, rfl⟩ := hst
    exact Nat.le_refl _
  | restart writes =>
    obtain ⟨-, r, -, rfl⟩ := hst
    exact h.applied_le

/-- The log grows by what is appended. -/
theorem wal_step {a : NodeAction} (hst : Step R dim parse s a t) :
    t.wal = s.wal ∨ ∃ logIdx data, a = .append logIdx data ∧ t.wal = s.wal ++ [(logIdx, data)] := by
  cases a with
  | append logIdx data =>
    obtain ⟨-, -, -, rfl⟩ := hst
    exact Or.inr ⟨logIdx, data, rfl, rfl⟩
  | commit =>
    obtain ⟨e, r, -, -, -, rfl⟩ := hst
    exact Or.inl rfl
  | snapshot =>
    obtain ⟨-, rfl⟩ := hst
    exact Or.inl rfl
  | restart writes =>
    obtain ⟨-, r, -, rfl⟩ := hst
    exact Or.inl rfl

end Node

namespace Cluster

/-- Before anything is upserted. -/
def first (dim : Nat) : Cluster N F := ⟨[], fun _ => Node.first dim⟩

/-- The documents of the log. -/
def docs (parse : Bytes → Option Json) (c : Cluster N F) : List Json := c.log.map fun e => (entryDoc parse e).2

/-- The documents that a node has applied, if it follows the log. -/
def appliedBy (parse : Bytes → Option Json) (c : Cluster N F) (n : N) : List Json :=
  (c.docs parse).take (c.nodes n).applied

section
variable [DecidableEq N] [CFloat F] (S : BufferSerializer) (R : RoaringFormat) (dim : Nat) (parse : Bytes → Option Json)

/-- A node appends the next entry of the log. -/
def Step (c : Cluster N F) : ClusterAction N → Cluster N F → Prop
  | .upsert logIdx body, d => ∃ res payload, HttpServer.upsertHandler parse S (some true) body = .ok (res, some payload) ∧
      (∀ e ∈ c.log, e.1 < logIdx) ∧ d = { c with log := c.log ++ [(logIdx, payload)] }
  | .node n a, d => ∃ t, Node.Step R dim parse (c.nodes n) a t ∧
      (∀ logIdx data, a = .append logIdx data → c.log[(c.nodes n).wal.length]? = some (logIdx, data)) ∧
      d = { c with nodes := Function.update c.nodes n t }

/-- The entry is the framed body of a request that was answered with success. -/
def Sent (e : Nat × Bytes) : Prop :=
  ∃ body, HttpServer.UpsertValid parse body ∧ e.2 = S.putStr body

structure Following (c : Cluster N F) : Prop where
  runs : ∀ n, ∃ as, Run (Node.Step R dim parse) (Node.first dim) as (c.nodes n)
  follows : ∀ n, (c.nodes n).wal <+: c.log
  sent : ∀ e ∈ c.log, Sent S parse e

end

section
variable [CFloat F] {S : BufferSerializer} {R : RoaringFormat} {dim : Nat} {parse : Bytes → Option Json} {c d : Cluster N F}

theorem following_first : Following S R dim parse (first dim : Cluster N F) where
  runs _ := ⟨[], Run.nil⟩
  follows _ := List.prefix_rfl
  sent _ h := by cases h

theorem Following.logged (h : Following S R dim parse c) (n : N) : Node.Logged parse (c.nodes n) := by
  obtain ⟨as, hrun⟩ := h.runs n
  exact Node.logged_run hrun

theorem Following.stored (h : Following S R dim parse c) (n : N) : Node.Stored dim parse (c.nodes n) := by
  obtain ⟨as, hrun⟩ := h.runs n
  exact Node.stored_run hrun

theorem Following.appliedDocs_eq (h : Following S R dim parse c) (n : N) :
    ((c.nodes n).appliedDocs parse).map Prod.snd = c.appliedBy parse n := by
  have hlog : (c.nodes n).docs parse <+: c.log.map (entryDoc parse) := (h.follows n).map _
  have hle : (c.nodes n).applied ≤ ((c.nodes n).docs parse).length := by
    rw [Node.docs, List.length_map]
    exact (h.logged n).applied_le
  have hdocs : c.docs parse = (c.log.map (entryDoc parse)).map Prod.snd := by
    rw [docs, List.map_map]
    rfl
  obtain ⟨r, hr⟩ := hlog
  rw [appliedBy, hdocs, ← List.map_take, ← hr, List.take_append_of_le_length hle, Node.appliedDocs]

variable [DecidableEq N]

theorem following_step {a : ClusterAction N} (h : Following S R dim parse c) (hst : Step S R dim parse c a d) :
    Following S R dim parse d := by
  cases a with
  | upsert logIdx body =>
    obtain ⟨res, payload, hup, -, rfl⟩ := hst
    refine ⟨h.runs, fun n => (h.follows n).trans (List.prefix_append _ _), ?_⟩
    refine List.forall_mem_append.mpr ⟨h.sent, List.forall_mem_singleton.mpr ⟨body, ?_⟩⟩
    refine ⟨?_, (HttpServer.upsertHandler_accepts parse hup).1⟩
    rcases HttpServer.upsertHandler_eq_ok parse hup with ⟨-, -, hnone⟩ | ⟨hvalid, -⟩
    · cases hnone
    · exact hvalid
  | node n a =>
    obtain ⟨t, hst, happend, rfl⟩ := hst
    have hfollows : t.wal <+: c.log := by
      rcases Node.wal_step hst with hwal | ⟨logIdx, data, rfl, hwal⟩
      · rw [hwal]
        exact h.follows n
      · obtain ⟨r, hr⟩ := h.follows n
        have hnext : r.head? = some (logIdx, data) := by
          rw [← happend logIdx data rfl, ← hr, List.getElem?_append_right (Nat.le_refl _), Nat.sub_self, List.head?_eq_getElem?]
        obtain ⟨r', rfl⟩ := List.head?_eq_some_iff.mp hnext
        rw [hwal]
        exact ⟨r', by rw [← hr, List.append_assoc, List.singleton_append]⟩
    obtain ⟨as, hrun⟩ := h.runs n
    constructor
    case runs =>
      refine (Function.forall_update_iff (c.nodes) (p := fun _ s => ∃ as, Run (Node.Step R dim parse) _ as s)).mpr ?_
      exact ⟨⟨_, hrun.snoc hst⟩, fun m _ => h.runs m⟩
    case follows =>
      refine (Function.forall_update_iff (c.nodes) (p := fun _ s => s.wal <+: c.log)).mpr ?_
      exact ⟨hfollows, fun m _ => h.follows m⟩
    case sent => exact h.sent

theorem following_run {as : List (ClusterAction N)} (h : Run (Step S R dim parse) (first dim) as c) :
    Following S R dim parse c :=
  Run.invariant (I := Following S R dim parse) following_first (fun _ _ _ => following_step) h

/-! ## What is later -/

/-- Nothing is withdrawn, from the log or from a node. -/
structure Later (c d : Cluster N F) : Prop where
  log : c.log <+: d.log
  applied : ∀ n, (c.nodes n).applied ≤ (d.nodes n).applied

omit [CFloat F] [DecidableEq N] in
theorem Later.refl (c : Cluster N F) : Later c c := ⟨List.prefix_rfl, fun _ => Nat.le_refl _⟩

omit [CFloat F] [DecidableEq N] in
theorem Later.trans {e : Cluster N F} (h : Later c d) (h' : Later d e) : Later c e :=
  ⟨h.log.trans h'.log, fun n => (h.applied n).trans (h'.applied n)⟩

theorem later_step {a : ClusterAction N} (h : Following S R dim parse c) (hst : Step S R dim parse c a d) : Later c d := by
  cases a with
  | upsert logIdx body =>
    obtain ⟨res, payload, -, -, rfl⟩ := hst
    exact ⟨List.prefix_append _ _, fun n => Nat.le_refl _⟩
  | node n a =>
    obtain ⟨t, hst, -, rfl⟩ := hst
    refine ⟨List.prefix_rfl, ?_⟩
    refine (Function.forall_update_iff (c.nodes) (p := fun m s => (c.nodes m).applied ≤ s.applied)).mpr ?_
    exact ⟨Node.applied_le_step (h.logged n) hst, fun m _ => Nat.le_refl _⟩

theorem later_run {as : List (ClusterAction N)} (h : Following S R dim parse c) (hrun : Run (Step S R dim parse) c as d) :
    Following S R dim parse d ∧ Later c d := by
  refine Run.invariant (I := fun d => Following S R dim parse d ∧ Later c d) ⟨h, .refl c⟩ ?_ hrun
  intro d a e hd hst
  exact ⟨following_step hd.1 hst, hd.2.trans (later_step hd.1 hst)⟩

/-- A node can go on by itself, along the log. -/
theorem run_node {as : List NodeAction} {n : N} {t : Node F} (h : Run (Node.Step R dim parse) (c.nodes n) as t)
    (hlog : t.wal <+: c.log) :
    Run (Step S R dim parse) c (as.map (.node n)) { c with nodes := Function.update c.nodes n t } := by
  induction h with
  | nil =>
    rw [Function.update_eq_self]
    exact Run.nil
  | @snoc as a s t _ hst ih =>
    have hs : s.wal <+: c.log := (Node.prefix_wal hst).trans hlog
    rw [List.map_append, List.map_singleton]
    refine (ih hs).snoc ⟨t, ?_, ?_, ?_⟩
    · show Node.Step R dim parse (Function.update c.nodes n s n) a t
      rwa [Function.update_self]
    · rintro logIdx data rfl
      show c.log[(Function.update c.nodes n s n).wal.length]? = _
      rw [Function.update_self]
      obtain ⟨-, -, -, rfl⟩ := hst
      obtain ⟨r, hr⟩ := hlog
      rw [← hr, List.append_assoc, List.getElem?_append_right (Nat.le_refl _), Nat.sub_self]
      rfl
    · show _ = { c with nodes := Function.update (Function.update c.nodes n s) n t }
      rw [Function.update_idem]

/-! ## What is answered -/

omit [DecidableEq N] in
theorem Following.queryHandler_eq (h : Following S R dim parse c) (n : N) (body : Bytes) :
    HttpServer.queryHandler parse true (c.nodes n).db body = HttpServer.answerTo parse (c.appliedBy parse n) body := by
  rw [(h.stored n).queryHandler_eq, h.appliedDocs_eq]

/-- The documents of an id name one index. -/
def NamesOnly (parse : Bytes → Option Json) (c : Cluster N F) (i : UInt64) (k : IndexType) : Prop :=
  ∀ e ∈ c.docs parse, docId e = some i → getIndexTypeFromRequest e = k

omit [DecidableEq N] in
theorem Following.showsVector (h : Following S R dim parse c) (n : N) {i : UInt64} {k : IndexType} (hk : k = .flat ∨ k = .hnsw)
    (hn : c.NamesOnly parse i k) :
    ShowsVector dim (c.nodes n).db.stores.indexes k i (lastDoc i (c.appliedBy parse n)) := by
  obtain ⟨as, hrun⟩ := h.runs n
  have hnode : (c.nodes n).NamesOnly parse i k := by
    intro r hr
    obtain ⟨e, he, rfl⟩ := List.mem_map.mp hr
    exact hn _ (List.mem_map_of_mem ((h.follows n).subset he))
  rw [← h.appliedDocs_eq]
  exact (Node.vectorsKept_run hrun hk hnode).live

/-- **What a replica answers.** Whatever the order in which the nodes of a cluster log, commit, take snapshots, crash
and start again, each of them has logged a beginning of one log, every entry of it the body of an accepted request;
`/query` on it answers with the last document of the entries that it has applied; and of an id whose documents name one
index, that index holds the vector of that document and no other. -/
theorem replicas_answer {as : List (ClusterAction N)} (h : Run (Step S R dim parse) (first dim) as c) (n : N) :
    (c.nodes n).wal <+: c.log ∧ (∀ e ∈ c.log, Sent S parse e) ∧
      (∀ body, HttpServer.queryHandler parse true (c.nodes n).db body =
        HttpServer.answerTo parse (c.appliedBy parse n) body) ∧
      ∀ i k, (k = .flat ∨ k = .hnsw) → c.NamesOnly parse i k →
        ShowsVector dim (c.nodes n).db.stores.indexes k i (lastDoc i (c.appliedBy parse n)) := by
  have hfollowing := following_run h
  exact ⟨hfollowing.follows n, hfollowing.sent, hfollowing.queryHandler_eq n, fun i k => hfollowing.showsVector n⟩

omit [DecidableEq N] in
/-- Whoever has applied more has applied a continuation. -/
theorem exists_newer (hc : Following S R dim parse c) (hd : Following S R dim parse d) (hlog : c.log <+: d.log) {m n : N}
    (hle : (c.nodes m).applied ≤ (d.nodes n).applied) : ∃ newer,
      newer.length = (d.nodes n).applied - (c.nodes m).applied ∧
        d.appliedBy parse n = c.appliedBy parse m ++ newer := by
  have hm : (c.nodes m).applied ≤ (c.docs parse).length := by
    rw [docs, List.length_map]
    exact (hc.logged m).applied_le.trans (hc.follows m).length_le
  have hn : (d.nodes n).applied ≤ (d.docs parse).length := by
    rw [docs, List.length_map]
    exact (hd.logged n).applied_le.trans (hd.follows n).length_le
  obtain ⟨r, hr⟩ : c.docs parse <+: d.docs parse := hlog.map _
  have hold : c.appliedBy parse m = (d.docs parse).take (c.nodes m).applied := by
    rw [appliedBy, ← hr, List.take_append_of_le_length hm]
  refine ⟨((d.docs parse).take (d.nodes n).applied).drop (c.nodes m).applied, ?_, ?_⟩
  · rw [List.length_drop, List.length_take, Nat.min_eq_left hn]
  · have htake : ((d.docs parse).take (d.nodes n).applied).take (c.nodes m).applied = c.appliedBy parse m := by
      rw [List.take_take, Nat.min_eq_left hle, hold]
    rw [← htake, List.take_append_drop, appliedBy]

/-- **Replicas agree.** From any state of a cluster to any later one, no node has applied less than before, whatever
crashed between; and if a node now has applied at least as much as a node had then, `/query` on it answers from the
documents that the other one answered from and as many newer ones: from the same ones, where both have applied as
much. -/
theorem replicas_agree {as bs : List (ClusterAction N)} (hc : Run (Step S R dim parse) (first dim) as c)
    (hcd : Run (Step S R dim parse) c bs d) : (∀ n, (c.nodes n).applied ≤ (d.nodes n).applied) ∧
      ∀ m n, (c.nodes m).applied ≤ (d.nodes n).applied → ∃ old newer,
        newer.length = (d.nodes n).applied - (c.nodes m).applied ∧ old ++ newer <+: d.docs parse ∧
        (∀ body, HttpServer.queryHandler parse true (c.nodes m).db body = HttpServer.answerTo parse old body) ∧
        ∀ body, HttpServer.queryHandler parse true (d.nodes n).db body = HttpServer.answerTo parse (old ++ newer) body := by
  have hthen := following_run hc
  obtain ⟨hnow, hlater⟩ := later_run hthen hcd
  refine ⟨hlater.applied, fun m n hle => ?_⟩
  obtain ⟨newer, hlen, hdocs⟩ := exists_newer hthen hnow hlater.log hle
  refine ⟨c.appliedBy parse m, newer, hlen, ?_, hthen.queryHandler_eq m, ?_⟩
  · rw [← hdocs]
    exact List.take_prefix _ _
  · rw [← hdocs]
    exact hnow.queryHandler_eq n

end

/-! ## Two replicas -/

/-- The payload of id 1. -/
def sentData : Bytes := lengthPrefix.putStr LogStateMachine.newFieldBody

/-- A node with id 1. -/
def sentOnce : Node Number :=
  (Node.first 1).upserted 11 sentData ((Stores.fresh 1).upserted 1 LogStateMachine.newFieldDoc [.int 0] .flat)

theorem run_sentOnce : Run (Node.Step portable 1 LogStateMachine.newFieldParser) (Node.first 1)
    [.append 11 sentData, .commit] sentOnce := by
  apply Node.run_upserted
  · rfl
  · exact ⟨by decide, by simp [Node.first, Node.boot], by decide⟩
  · decide
  · exact ⟨by decide, rfl⟩
  · exact ⟨1, [.int 0], rfl, ⟨by decide, by rfl, by decide, by decide⟩, rfl⟩
  · decide

/-- One entry in the log. -/
def oneEntry : Cluster Bool Number := ⟨[(11, sentData)], fun _ => Node.first 1⟩

/-- One of two nodes has applied it. -/
def oneApplied : Cluster Bool Number := ⟨oneEntry.log, Function.update oneEntry.nodes false sentOnce⟩

/-- The other one too. -/
def bothApplied : Cluster Bool Number := ⟨oneEntry.log, Function.update oneApplied.nodes true sentOnce⟩

theorem run_oneApplied : Run (Step lengthPrefix portable 1 LogStateMachine.newFieldParser) (first 1)
    ([.upsert 11 LogStateMachine.newFieldBody] ++ [.node false (.append 11 sentData), .node false .commit])
    oneApplied := by
  have hupsert : Step lengthPrefix portable 1 LogStateMachine.newFieldParser (first 1 : Cluster Bool Number)
      (.upsert 11 LogStateMachine.newFieldBody) oneEntry := by
    refine ⟨HttpServer.success [], sentData, rfl, fun e he => ?_, rfl⟩
    cases he
  exact (Run.single hupsert).append (run_node (c := oneEntry) run_sentOnce List.prefix_rfl)

theorem run_bothApplied : Run (Step lengthPrefix portable 1 LogStateMachine.newFieldParser) oneApplied
    [.node true (.append 11 sentData), .node true .commit] bothApplied :=
  run_node (c := oneApplied) (n := true) (show Run _ (Node.first 1) _ _ from run_sentOnce) List.prefix_rfl

theorem replicas_answer_oneApplied : HttpServer.queryHandler LogStateMachine.newFieldParser true (oneApplied.nodes false).db
    LogStateMachine.newFieldBody = .ok (HttpServer.answerOf (some LogStateMachine.newFieldDoc)) :=
  (replicas_answer run_oneApplied false).2.2.1 LogStateMachine.newFieldBody

theorem replicas_agree_bothApplied : ∃ old newer : List Json, newer.length = 0 ∧
    old ++ newer <+: bothApplied.docs LogStateMachine.newFieldParser ∧
    (∀ body, HttpServer.queryHandler LogStateMachine.newFieldParser true (oneApplied.nodes false).db body =
      HttpServer.answerTo LogStateMachine.newFieldParser old body) ∧
    ∀ body, HttpServer.queryHandler LogStateMachine.newFieldParser true (bothApplied.nodes true).db body =
      HttpServer.answerTo LogStateMachine.newFieldParser (old ++ newer) body :=
  (replicas_agree run_oneApplied run_bothApplied).2 false true (by decide)

end Cluster
end VectorDb
