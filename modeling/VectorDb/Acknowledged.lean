import VectorDb.HttpServer

/-!
# What a node acknowledges

* `WriteNode`, `WriteStep` : the indexes of one node and the outcome of every write request; Raft may take an entry
  or not, and commits may change the indexes between two requests;
* `Acknowledged` : only what Raft took is answered with success, and everything else with an error;
* `acknowledged_iff` : over every run this holds exactly when each valid request is an `/upsert` that Raft takes.
-/

namespace VectorDb
open HttpServer (Response UpsertValid InsertValid)

variable {F : Type}

/-- `raft_instance_` during one request: `isLeader` is `none` where there is no instance; `accepts` is what its
`append_entries` answers. -/
structure RaftStatus where
  isLeader : Option Bool
  accepts : Bool

/-- The payload that Raft takes of those it is handed. -/
def RaftStatus.takes (raft : RaftStatus) (payload : Option Bytes) : Option Bytes := payload.filter fun _ => raft.accepts

/-- The outcome of one write request. -/
structure Outcome where
  body : Bytes
  response : Response
  taken : Option Bytes

structure WriteNode (F : Type) where
  indexes : IndexFactory F
  outcomes : List Outcome

inductive WriteRequest (F : Type) where
  | upsert (raft : RaftStatus) (body : Bytes)
  | insert (st : LibStatus) (body : Bytes)
  /-- What commits do to the indexes between requests. -/
  | commits (indexes : IndexFactory F)

/-- An outcome as the client may read it. -/
structure Outcome.Kept (S : BufferSerializer) (o : Outcome) : Prop where
  taken : o.response.retCode = some 0 → o.taken = some (S.putStr o.body)
  refused : o.taken = none → o.response.retCode = some (-1)

/-- Success means that Raft took the entry, and whatever it did not take got an error. -/
def Acknowledged (S : BufferSerializer) (s : WriteNode F) : Prop := ∀ o ∈ s.outcomes, o.Kept S

section
variable [CFloat F] (S : BufferSerializer) (parse : Bytes → Option Json)

/-- One request that is answered. -/
def WriteStep (s : WriteNode F) : WriteRequest F → WriteNode F → Prop
  | .upsert raft body, t => ∃ r, HttpServer.upsertHandler parse S raft.isLeader body = .ok r ∧
      t = ⟨s.indexes, s.outcomes ++ [⟨body, r.1, raft.takes r.2⟩]⟩
  | .insert st body, t => ∃ r, HttpServer.insertHandler parse st s.indexes body = .ok r ∧
      t = ⟨r.2, s.outcomes ++ [⟨body, r.1, none⟩]⟩
  | .commits indexes, t => t = ⟨indexes, s.outcomes⟩

end

/-- A request that is refused as invalid, or an `/upsert` on a leader whose Raft takes the entry. -/
def TakenIfValid (parse : Bytes → Option Json) : WriteRequest F → Prop
  | .upsert raft body => UpsertValid parse body → raft.isLeader = some true ∧ raft.accepts = true
  | .insert _ body => ¬ InsertValid parse body
  | .commits _ => True

/-! ## One outcome -/

/-- A refused request. -/
theorem kept_of_refused {S : BufferSerializer} {o : Outcome} (h : o.response.retCode = some (-1)) : o.Kept S where
  taken h0 := by
    rw [h] at h0
    cases h0
  refused _ := h

theorem kept_success_iff {S : BufferSerializer} {body : Bytes} {taken : Option Bytes} :
    Outcome.Kept S ⟨body, HttpServer.success [], taken⟩ ↔ taken = some (S.putStr body) := by
  constructor
  · intro h
    exact h.taken HttpServer.retCode_success_nil
  · rintro rfl
    exact ⟨fun _ => rfl, fun h => by cases h⟩

theorem takes_appendEntries_iff {S : BufferSerializer} {raft : RaftStatus} {body : Bytes} :
    raft.takes (RaftStuff.appendEntries S raft.isLeader body) = some (S.putStr body) ↔
      raft.isLeader = some true ∧ raft.accepts = true := by
  obtain ⟨isLeader, accepts⟩ := raft
  match isLeader, accepts with
  | none, _ => simp [RaftStatus.takes, RaftStuff.appendEntries]
  | some false, _ => simp [RaftStatus.takes, RaftStuff.appendEntries]
  | some true, false => simp [RaftStatus.takes]
  | some true, true => simp [RaftStatus.takes, RaftStuff.appendEntries]

theorem acknowledged_concat {S : BufferSerializer} {ixs : IndexFactory F} {os : List Outcome} (h : ∀ o ∈ os, o.Kept S)
    (o : Outcome) : Acknowledged S ⟨ixs, os ++ [o]⟩ ↔ o.Kept S := by
  show (∀ p ∈ os ++ [o], p.Kept S) ↔ _
  rw [List.forall_mem_append, List.forall_mem_singleton]
  exact and_iff_right h

/-! ## Runs -/

section
variable [CFloat F] {S : BufferSerializer} {parse : Bytes → Option Json}

theorem writeStep_unique (s : WriteNode F) (a : WriteRequest F) (t u : WriteNode F) (ht : WriteStep S parse s a t)
    (hu : WriteStep S parse s a u) : t = u := by
  cases a with
  | upsert raft body =>
    obtain ⟨r, hr, rfl⟩ := ht
    obtain ⟨q, hq, rfl⟩ := hu
    cases hr.symm.trans hq
    rfl
  | insert st body =>
    obtain ⟨r, hr, rfl⟩ := ht
    obtain ⟨q, hq, rfl⟩ := hu
    cases hr.symm.trans hq
    rfl
  | commits ixs => exact Eq.trans ht (Eq.symm hu)

/-- **One request** keeps what is acknowledged exactly when it is refused or Raft takes its entry. -/
theorem acknowledged_step_iff {s t : WriteNode F} {a : WriteRequest F} (hs : Acknowledged S s)
    (h : WriteStep S parse s a t) : Acknowledged S t ↔ TakenIfValid parse a := by
  cases a with
  | upsert raft body =>
    obtain ⟨r, hr, rfl⟩ := h
    rw [acknowledged_concat hs, TakenIfValid]
    rcases HttpServer.upsertHandler_eq_ok parse hr with ⟨hv, hret, -⟩ | ⟨hv, rfl⟩
    · exact iff_of_true (kept_of_refused hret) fun hc => absurd hc hv
    · rw [kept_success_iff, takes_appendEntries_iff]
      exact ⟨fun hk _ => hk, fun hk => hk hv⟩
  | insert st body =>
    obtain ⟨r, hr, rfl⟩ := h
    rw [acknowledged_concat hs, TakenIfValid]
    rcases HttpServer.insertHandler_eq_ok parse hr with ⟨hv, hret, -⟩ | ⟨hv, hsucc, -⟩
    · exact iff_of_true (kept_of_refused hret) hv
    · rw [hsucc, kept_success_iff]
      refine iff_of_false (fun hc => ?_) fun hc => hc hv
      cases hc
  | commits ixs =>
    obtain rfl := h
    exact iff_of_true hs trivial

/-- **Acknowledged writes.** In every run of requests on a node, success always means that Raft took the entry, and
every other request is always answered with an error, exactly when each request that passes its checks is an
`/upsert` on a leader whose Raft takes the entry. -/
theorem acknowledged_iff {indexes : IndexFactory F} {as : List (WriteRequest F)} {s : WriteNode F}
    (h : Run (WriteStep S parse) ⟨indexes, []⟩ as s) :
    (∀ bs u, bs <+: as → Run (WriteStep S parse) ⟨indexes, []⟩ bs u → Acknowledged S u) ↔
      Run (fun s a t => WriteStep S parse s a t ∧ TakenIfValid parse a) ⟨indexes, []⟩ as s := by
  refine h.forall_prefix_iff writeStep_unique (fun o ho => ?_) fun bs t a u _ _ ht hstep => acknowledged_step_iff ht hstep
  cases ho

end

/-! ## An upsert on a leader, and on a follower -/

/-- A node without vectors. -/
def emptyNode : WriteNode Number := ⟨IndexFactory.init 1, []⟩

/-- The node after the upsert of id 1 with this Raft. -/
def afterUpsert (raft : RaftStatus) : WriteNode Number :=
  ⟨emptyNode.indexes, [⟨LogStateMachine.newFieldBody, HttpServer.success [],
    raft.takes (RaftStuff.appendEntries lengthPrefix raft.isLeader LogStateMachine.newFieldBody)⟩]⟩

theorem writeStep_newField (raft : RaftStatus) : WriteStep lengthPrefix LogStateMachine.newFieldParser emptyNode
    (.upsert raft LogStateMachine.newFieldBody) (afterUpsert raft) :=
  ⟨(HttpServer.success [], RaftStuff.appendEntries lengthPrefix raft.isLeader LogStateMachine.newFieldBody), by rfl, rfl⟩

theorem acknowledged_iff_leader :
    (∀ bs u, bs <+: [WriteRequest.upsert ⟨some true, true⟩ LogStateMachine.newFieldBody] →
      Run (WriteStep lengthPrefix LogStateMachine.newFieldParser) emptyNode bs u → Acknowledged lengthPrefix u) ↔
      Run (fun s a t => WriteStep lengthPrefix LogStateMachine.newFieldParser s a t ∧ TakenIfValid LogStateMachine.newFieldParser a)
        emptyNode [.upsert ⟨some true, true⟩ LogStateMachine.newFieldBody] (afterUpsert ⟨some true, true⟩) :=
  acknowledged_iff (Run.single (writeStep_newField ⟨some true, true⟩))

/-- A follower answers success and drops the entry. -/
theorem follower_drops_upsert : ¬ ∀ (as : List (WriteRequest Number)) (s : WriteNode Number),
    Run (WriteStep lengthPrefix LogStateMachine.newFieldParser) emptyNode as s → Acknowledged lengthPrefix s := by
  intro h
  have hack := h _ _ (Run.single (writeStep_newField ⟨some false, true⟩)) _ (List.mem_singleton_self _)
  have htaken := kept_success_iff.mp hack
  cases htaken

end VectorDb
