import VectorDb.LoggerRuns
import VectorDb.Lib.FlushQueue

/-!
# The order of the lines

* `Alone`, `Call` : a call whose thread runs alone until it returns;
* `stored`, `swept`, `flushed` : what `write` and `flush` do when no other thread moves;
* `Queued`, `queued_call` : a call and the queue of the lines that wait;
* `lines_in_order` : calls one after the other keep the lines in order, each of them ends, and none drops a line;
* `flush_overtakes` : beside another thread's flush a later line can come first.
-/

namespace VectorDb

/-- The calls of a logger that are not interrupted. -/
inductive LoggerCall (T : Type) where
  | put (t : T) (msg : SimpleLogger.Line)
  | flushAll (t : T)
  | compress

/-- The line that a call puts. -/
def LoggerCall.line? {T : Type} : LoggerCall T → Option Bytes
  | put _ msg => some msg.text
  | flushAll _ => none
  | compress => none

namespace SimpleLogger
variable {T : Type} [DecidableEq T]

section
variable (num maxLogFiles maxLogFileSize : Nat)

/-- Only `t` moves. -/
def Alone (t : T) : SimpleLogger T → SimpleLogger T → Prop :=
  Relation.ReflTransGen fun s u => u = s.go num maxLogFileSize t

def Call (s : SimpleLogger T) : LoggerCall T → SimpleLogger T → Prop
  | .put t msg, u => s.pc t = .outside ∧ Alone num maxLogFileSize t (s.put num t msg) u ∧ u.pc t = .outside
  | .flushAll t, u => s.pc t = .outside ∧ Alone num maxLogFileSize t (s.flushAll t) u ∧ u.pc t = .outside
  | .compress, u => u = { s with files := s.files.compress maxLogFiles }

/-- The call on the queue of the lines. -/
def queueCall (q : FlushQueue Bytes) : LoggerCall T → FlushQueue Bytes
  | .put _ msg => q.put msg.text num
  | .flushAll _ => q.flush
  | .compress => q

def queueOf (cs : List (LoggerCall T)) : FlushQueue Bytes := cs.foldl (queueCall num) .empty

end

/-- The line that waits in a slot. -/
def LogElem.line? (e : LogElem) : Option Bytes := if e.status = .dirty then some e.text else none

theorem LogElem.line?_eq_none_iff {e : LogElem} : e.line? = none ↔ e.status ≠ .dirty := by
  unfold line?
  split
  · exact iff_of_false (Option.some_ne_none _) (fun h => h ‹_›)
  · exact iff_of_true rfl ‹_›

/-- The slots from `start` on, once around. -/
def ring (num start : Nat) (s : SimpleLogger T) : List (Option Bytes) :=
  (circular num start).map fun i => (s.logs i).line?

/-! ## Calls alone -/

section
variable {num maxLogFiles maxLogFileSize : Nat} {s u v : SimpleLogger T} {t : T}

theorem Alone.step (h : Alone num maxLogFileSize t (s.go num maxLogFileSize t) u) : Alone num maxLogFileSize t s u :=
  Relation.ReflTransGen.head rfl h

theorem go_outside (h : s.pc t = .outside) : s.go num maxLogFileSize t = s := by
  unfold go
  rw [h]

theorem Alone.eq_of_outside (h : Alone num maxLogFileSize t s u) (hs : s.pc t = .outside) : u = s := by
  induction h with
  | refl => rfl
  | tail _ hu ih => rw [hu, ih, go_outside hs]

/-- A call alone ends in one state. -/
theorem Alone.unique (hu : Alone num maxLogFileSize t s u) (hv : Alone num maxLogFileSize t s v)
    (hu' : u.pc t = .outside) (hv' : v.pc t = .outside) : u = v := by
  have hright : Relator.RightUnique fun s u : SimpleLogger T => u = s.go num maxLogFileSize t :=
    fun s u v hu hv => hu.trans hv.symm
  rcases Relation.ReflTransGen.total_of_right_unique hright hu hv with h | h
  · exact (Alone.eq_of_outside h hu').symm
  · exact Alone.eq_of_outside h hv'

theorem Call.unique {c : LoggerCall T} (hu : Call num maxLogFiles maxLogFileSize s c u)
    (hv : Call num maxLogFiles maxLogFileSize s c v) : u = v := by
  cases c with
  | put t msg => exact hu.2.1.unique hv.2.1 hu.2.2 hv.2.2
  | flushAll t => exact hu.2.1.unique hv.2.1 hu.2.2 hv.2.2
  | compress => exact hu.trans hv.symm

theorem Alone.run (h : Alone num maxLogFileSize t s u) : ∃ as, Run (Step num maxLogFiles maxLogFileSize) s as u := by
  induction h with
  | refl => exact ⟨[], Run.nil⟩
  | @tail v w _ hu ih =>
    obtain ⟨as, h⟩ := ih
    have hstep : Step num maxLogFiles maxLogFileSize v (.go t) w := hu
    exact ⟨as ++ [.go t], h.snoc hstep⟩

/-- A call is a run of steps. -/
theorem Call.run {c : LoggerCall T} (h : Call num maxLogFiles maxLogFileSize s c u) :
    ∃ as, Run (Step num maxLogFiles maxLogFileSize) s as u := by
  cases c with
  | put t msg =>
    obtain ⟨hout, halone, -⟩ := h
    obtain ⟨as, hrun⟩ := halone.run
    exact ⟨[.put t msg] ++ as, (Run.single ⟨hout, rfl⟩).append hrun⟩
  | flushAll t =>
    obtain ⟨hout, halone, -⟩ := h
    obtain ⟨as, hrun⟩ := halone.run
    exact ⟨[.flushAll t] ++ as, (Run.single ⟨hout, rfl⟩).append hrun⟩
  | compress => exact ⟨[.compress], Run.single h⟩

theorem exists_run_of_calls {cs : List (LoggerCall T)} (h : Run (Call num maxLogFiles maxLogFileSize) s cs u) :
    ∃ as, Run (Step num maxLogFiles maxLogFileSize) s as u := by
  induction h with
  | nil => exact ⟨[], Run.nil⟩
  | snoc _ hc ih =>
    obtain ⟨as, has⟩ := ih
    obtain ⟨bs, hbs⟩ := hc.run
    exact ⟨as ++ bs, has.append hbs⟩

end

/-! ## `write` and `flush` alone -/

section
variable {num maxLogFileSize : Nat} {s : SimpleLogger T} {t : T} {k : Ticket}

/-- `n` bytes of the line are in its slot. -/
def filled (s : SimpleLogger T) (t : T) (k : Ticket) (n : Nat) : SimpleLogger T :=
  (s.setElem k.slot ⟨k.msg.text.length, k.msg.text.take n ++ (s.logs k.slot).ctx.drop n, .writing⟩).setPc t (.copies k n)

/-- The line is in its slot. -/
def stored (s : SimpleLogger T) (t : T) (k : Ticket) : SimpleLogger T :=
  { (s.setElem k.slot ⟨k.msg.text.length, k.msg.text ++ (s.logs k.slot).ctx.drop k.msg.text.length, .dirty⟩).setPc t
      .outside with taken := s.taken ++ [k.msg.text] }

@[simp] theorem setPc_setPc (s : SimpleLogger T) (t : T) (p q : Pc) : (s.setPc t p).setPc t q = s.setPc t q := by
  unfold setPc
  rw [Function.update_idem]

@[simp] theorem pc_setPc (s : SimpleLogger T) (t : T) (p : Pc) : (s.setPc t p).pc t = p := Function.update_self _ _ _

omit [DecidableEq T] in
@[simp] theorem setElem_setElem (s : SimpleLogger T) (i : Nat) (e f : LogElem) :
    (s.setElem i e).setElem i f = s.setElem i f := by
  unfold setElem
  rw [Function.update_idem]

theorem go_filled {n : Nat} (hn : n < k.msg.text.length) :
    (s.filled t k n).go num maxLogFileSize t = s.filled t k (n + 1) := by
  have hdrop : (k.msg.text.take n ++ (s.logs k.slot).ctx.drop n).drop (n + 1) = (s.logs k.slot).ctx.drop (n + 1) := by
    have hlen : (k.msg.text.take n).length = n := List.length_take_of_le (Nat.le_of_lt hn)
    rw [List.drop_append, hlen, List.drop_eq_nil_of_le (by omega), List.drop_drop, Nat.add_sub_cancel_left, List.nil_append]
  have helem : (s.filled t k n).logs k.slot =
      ⟨k.msg.text.length, k.msg.text.take n ++ (s.logs k.slot).ctx.drop n, .writing⟩ := Function.update_self _ _ _
  have hpc : (s.filled t k n).pc t = .copies k n := Function.update_self _ _ _
  unfold go
  rw [hpc]
  dsimp only
  rw [helem, if_pos hn]
  dsimp only
  rw [hdrop]
  show (((s.setElem _ _).setElem _ _).setPc t _).setPc t _ = _
  rw [setElem_setElem, setPc_setPc]
  rfl

theorem go_filled_all : (s.filled t k k.msg.text.length).go num maxLogFileSize t = s.stored t k := by
  have helem : (s.filled t k k.msg.text.length).logs k.slot =
      ⟨k.msg.text.length, k.msg.text ++ (s.logs k.slot).ctx.drop k.msg.text.length, .writing⟩ := by
    show Function.update _ _ _ _ = _
    rw [Function.update_self, List.take_length]
  have hpc : (s.filled t k k.msg.text.length).pc t = .copies k k.msg.text.length := Function.update_self _ _ _
  unfold go
  rw [hpc]
  dsimp only
  rw [helem, if_neg (Nat.lt_irrefl _)]
  show ({ ((((s.setElem _ _).setElem _ _).setPc t _).setPc t _) with taken := _ } : SimpleLogger T) = _
  rw [setElem_setElem, setPc_setPc]
  rfl

/-- The copy, from any byte on. -/
theorem alone_filled {n : Nat} (hn : n ≤ k.msg.text.length) :
    Alone num maxLogFileSize t (s.filled t k n) (s.stored t k) := by
  induction hm : k.msg.text.length - n generalizing n with
  | zero =>
    obtain rfl : n = k.msg.text.length := by omega
    exact Relation.ReflTransGen.single go_filled_all.symm
  | succ m ih =>
    apply Alone.step
    rw [go_filled (by omega)]
    exact ih (by omega) (by omega)

/-- `write` takes a clean slot. -/
theorem alone_stored (hp : s.pc t = .writes k) (hclean : (s.logs k.slot).status = .clean) :
    Alone num maxLogFileSize t s (s.stored t k) := by
  have htakes : s.go num maxLogFileSize t =
      (s.setElem k.slot { s.logs k.slot with status := .writing }).setPc t (.lens k) := by
    unfold go
    rw [hp]
    dsimp only
    rw [if_pos hclean]
  have hlens : ((s.setElem k.slot { s.logs k.slot with status := .writing }).setPc t (.lens k)).go num maxLogFileSize t =
      s.filled t k 0 := by
    have helem : ((s.setElem k.slot { s.logs k.slot with status := .writing }).setPc t (.lens k)).logs k.slot =
        { s.logs k.slot with status := .writing } := Function.update_self _ _ _
    have hlen : (if msgSize < k.msg.text.length then msgSize else k.msg.text.length) = k.msg.text.length :=
      if_neg (Nat.not_lt.mpr k.msg.length_le)
    unfold go
    rw [pc_setPc]
    dsimp only
    rw [helem, hlen]
    show (((s.setElem _ _).setElem _ _).setPc t _).setPc t _ = _
    rw [setElem_setElem, setPc_setPc]
    rfl
  apply Alone.step
  rw [htakes]
  apply Alone.step
  rw [hlens]
  exact alone_filled (Nat.zero_le _)

/-- A flush has passed these slots. -/
def swept (s : SimpleLogger T) (todo : List Nat) : SimpleLogger T :=
  { s with
    logs := fun i => if i ∈ todo ∧ (s.logs i).status = .dirty then { s.logs i with status := .clean } else s.logs i
    files := (todo.filterMap fun i => (s.logs i).line?).foldl LogFiles.write s.files
    streamed := s.streamed ++ todo.filterMap fun i => (s.logs i).line? }

/-- A flush is done. -/
def flushed (num maxLogFileSize : Nat) (s : SimpleLogger T) (t : T) (start : Nat) (k : Option Ticket) : SimpleLogger T :=
  { (s.swept (circular num start)).setPc t (.back k) with
    files := (s.swept (circular num start)).files.endFlush maxLogFileSize, flushingLogs := none }

omit [DecidableEq T] in
theorem swept_nil (s : SimpleLogger T) : s.swept [] = s := by
  unfold swept
  simp

omit [DecidableEq T] in
/-- The slots one after the other. -/
theorem swept_swept {i : Nat} {todo : List Nat} (hi : i ∉ todo) : (s.swept [i]).swept todo = s.swept (i :: todo) := by
  have hline : ∀ j ∈ todo, ((s.swept [i]).logs j).line? = (s.logs j).line? := by
    intro j hj
    have hne : j ≠ i := fun h => hi (h ▸ hj)
    simp [swept, hne]
  have hlines : (todo.filterMap fun j => ((s.swept [i]).logs j).line?) = todo.filterMap fun j => (s.logs j).line? :=
    List.filterMap_congr hline
  unfold swept at hlines ⊢
  simp only [hlines]
  congr 1
  · funext j
    by_cases hji : j = i
    · subst hji
      by_cases hd : (s.logs j).status = .dirty
      · simp [hd]
      · simp [hd]
    · simp [hji]
  · rw [← List.foldl_append, ← List.filterMap_append, List.singleton_append]
  · rw [List.append_assoc, ← List.filterMap_append, List.singleton_append]

omit [DecidableEq T] in
theorem swept_of_ne {i : Nat} (hi : (s.logs i).status ≠ .dirty) : s.swept [i] = s := by
  have hline : (s.logs i).line? = none := if_neg hi
  have hlogs : (s.swept [i]).logs = s.logs := by
    funext j
    apply if_neg
    rintro ⟨hj, hdirty⟩
    rw [List.mem_singleton.mp hj] at hdirty
    exact hi hdirty
  show (⟨_, (s.swept [i]).logs, _, _, _, _, _, _, _⟩ : SimpleLogger T) = s
  rw [hlogs]
  simp [hline]

omit [DecidableEq T] in
theorem swept_of_dirty {i : Nat} (hi : (s.logs i).status = .dirty) :
    s.swept [i] = { s.setElem i { s.logs i with status := .clean } with
      files := s.files.write (s.logs i).text, streamed := s.streamed ++ [(s.logs i).text] } := by
  have hline : (s.logs i).line? = some (s.logs i).text := if_pos hi
  have hlogs : (s.swept [i]).logs = Function.update s.logs i { s.logs i with status := .clean } := by
    funext j
    rcases eq_or_ne j i with rfl | hne
    · rw [Function.update_self]
      exact if_pos ⟨List.mem_singleton_self j, hi⟩
    · rw [Function.update_of_ne hne]
      exact if_neg fun h => hne (List.mem_singleton.mp h.1)
  show (⟨_, (s.swept [i]).logs, _, _, _, _, _, _, _⟩ : SimpleLogger T) = _
  rw [hlogs]
  simp [hline, setElem]

/-- The flush of one slot. -/
theorem alone_sweepOne {i : Nat} {todo : List Nat} {k : Option Ticket} :
    Alone num maxLogFileSize t (s.setPc t (.flushes (i :: todo) k)) ((s.swept [i]).setPc t (.flushes todo k)) := by
  by_cases hi : (s.logs i).status = .dirty
  case neg =>
    have hskips : (s.setPc t (.flushes (i :: todo) k)).go num maxLogFileSize t = s.setPc t (.flushes todo k) := by
      unfold go
      rw [pc_setPc]
      refine (if_neg hi).trans ?_
      rw [setPc_setPc]
    apply Alone.step
    rw [hskips, swept_of_ne hi]
    exact Relation.ReflTransGen.refl
  case pos =>
    have hholds : (s.setPc t (.flushes (i :: todo) k)).go num maxLogFileSize t =
        (s.setElem i { s.logs i with status := .flushing }).setPc t (.streams i todo k) := by
      unfold go
      rw [pc_setPc]
      refine (if_pos hi).trans ?_
      show ((s.setElem i _).setPc t _).setPc t _ = _
      rw [setPc_setPc]
      rfl
    have htext : (((s.setElem i { s.logs i with status := .flushing }).setPc t (.streams i todo k)).logs i).text =
        (s.logs i).text := by
      show (Function.update s.logs i _ i).text = _
      rw [Function.update_self]
      rfl
    have hstreams : ((s.setElem i { s.logs i with status := .flushing }).setPc t (.streams i todo k)).go num
        maxLogFileSize t = { (s.setElem i { s.logs i with status := .flushing }).setPc t (.cleans i todo k) with
          files := s.files.write (s.logs i).text, streamed := s.streamed ++ [(s.logs i).text] } := by
      unfold go
      rw [pc_setPc]
      dsimp only
      rw [htext, setPc_setPc]
      rfl
    have hcleans : ({ (s.setElem i { s.logs i with status := .flushing }).setPc t (.cleans i todo k) with
          files := s.files.write (s.logs i).text, streamed := s.streamed ++ [(s.logs i).text] } : SimpleLogger T).go num
        maxLogFileSize t = (s.swept [i]).setPc t (.flushes todo k) := by
      rw [swept_of_dirty hi]
      unfold go
      rw [show _ = Pc.cleans i todo k from pc_setPc _ t _]
      simp [setPc, setElem]
    apply Alone.step
    rw [hholds]
    apply Alone.step
    rw [hstreams]
    apply Alone.step
    rw [hcleans]
    exact Relation.ReflTransGen.refl

theorem alone_sweep {k : Option Ticket} {todo : List Nat} (hnodup : todo.Nodup) :
    Alone num maxLogFileSize t (s.setPc t (.flushes todo k)) ((s.swept todo).setPc t (.flushes [] k)) := by
  induction todo generalizing s with
  | nil =>
    rw [swept_nil]
    exact Relation.ReflTransGen.refl
  | cons i todo ih =>
    obtain ⟨hi, hnodup⟩ := List.nodup_cons.mp hnodup
    rw [← swept_swept hi]
    exact alone_sweepOne.trans (ih hnodup)

omit [DecidableEq T] in
theorem nodup_circular (num start : Nat) : (circular num start).Nodup := by
  unfold circular
  refine List.Nodup.append List.nodup_range' List.nodup_range fun i hi hlt => ?_
  rw [List.mem_range'_1] at hi
  rw [List.mem_range] at hlt
  omega

/-- `flush` where the lock is free. -/
theorem alone_flushed {start : Nat} {k : Option Ticket} (hp : s.pc t = .locks start k) (hfree : s.flushingLogs = none) :
    Alone num maxLogFileSize t s (flushed num maxLogFileSize s t start k) := by
  have hlocks : s.go num maxLogFileSize t =
      ({ s with flushingLogs := some t } : SimpleLogger T).setPc t (.flushes (circular num start) k) := by
    unfold go
    rw [hp]
    dsimp only
    rw [if_pos hfree]
    rfl
  have hends : ((({ s with flushingLogs := some t } : SimpleLogger T).swept (circular num start)).setPc t
      (.flushes [] k)).go num maxLogFileSize t = flushed num maxLogFileSize s t start k := by
    unfold go
    rw [pc_setPc]
    dsimp only
    rw [setPc_setPc]
    rfl
  apply Alone.step
  rw [hlocks]
  refine (alone_sweep (nodup_circular num start)).trans (Relation.ReflTransGen.single ?_)
  exact hends.symm

end

/-! ## The ring as a queue -/

section
variable {num maxLogFiles maxLogFileSize : Nat} {s u : SimpleLogger T} {t : T} {k : Ticket} {q : FlushQueue Bytes}

omit [DecidableEq T] in
/-- The ring from one slot and from the next. -/
theorem circular_succ {c : Nat} (hc : c < num) : ∃ rest, circular num c = c :: rest ∧ c ∉ rest ∧
    circular num ((c + 1) % num) = rest ++ [c] := by
  have hsplit : List.range' c (num - c) = c :: List.range' (c + 1) (num - (c + 1)) := by
    rw [show num - c = num - (c + 1) + 1 by omega, List.range'_succ]
  refine ⟨List.range' (c + 1) (num - (c + 1)) ++ List.range c, ?_, ?_, ?_⟩
  · unfold circular
    rw [hsplit, List.cons_append]
  · rw [List.mem_append, List.mem_range'_1, List.mem_range]
    omega
  · unfold circular
    rcases Nat.lt_or_ge (c + 1) num with hlt | hge
    · rw [Nat.mod_eq_of_lt hlt, List.range_succ, List.append_assoc]
    · obtain rfl : num = c + 1 := by omega
      rw [Nat.mod_self, Nat.sub_self, Nat.sub_zero, List.range_zero, List.append_nil, List.range'_zero, List.nil_append,
        ← List.range_eq_range', List.range_succ]

/-- The ring from `start` on ends with the lines of the queue. -/
structure Lined (num start : Nat) (s : SimpleLogger T) (q : FlushQueue Bytes) : Prop where
  lock : s.flushingLogs = none
  settled : ∀ i, (s.logs i).status = .clean ∨ (s.logs i).status = .dirty
  length_le : q.waiting.length ≤ num
  ring : s.ring num start = List.replicate (num - q.waiting.length) none ++ q.waiting.map some
  out : s.streamed = q.out
  dropped : s.dropped = []

omit [DecidableEq T] in
/-- The slot that is drawn next is dirty where the queue is full. -/
theorem Lined.status_start {c : Nat} (hc : c < num) (h : Lined num c s q) :
    (s.logs c).status = if q.waiting.length = num then .dirty else .clean := by
  obtain ⟨rest, hcons, -, -⟩ := circular_succ hc
  have hring := h.ring
  unfold SimpleLogger.ring at hring
  rw [hcons, List.map_cons] at hring
  split
  case isTrue hfull =>
    refine (h.settled c).resolve_left fun hclean => ?_
    have hline : (s.logs c).line? = none := LogElem.line?_eq_none_iff.mpr (by rw [hclean]; decide)
    rw [hfull, Nat.sub_self, hline] at hring
    cases hw : q.waiting with
    | nil =>
      rw [hw, List.length_nil] at hfull
      omega
    | cons line lines =>
      rw [hw] at hring
      cases hring
  case isFalse hroom =>
    refine (h.settled c).resolve_right fun hdirty => ?_
    have hle := h.length_le
    obtain ⟨n, hn⟩ : ∃ n, num - q.waiting.length = n + 1 := Nat.exists_eq_succ_of_ne_zero (by omega)
    rw [hn, List.replicate_succ, List.cons_append] at hring
    exact LogElem.line?_eq_none_iff.mp (List.cons.inj hring).1 hdirty

omit [DecidableEq T] in
/-- A flush that starts at the slot that is drawn next lets all out. -/
theorem Lined.lines_eq {c : Nat} (h : Lined num c s q) :
    ((circular num c).filterMap fun i => (s.logs i).line?) = q.waiting := by
  have hreduce := congrArg List.reduceOption h.ring
  unfold SimpleLogger.ring at hreduce
  rw [List.reduceOption_append, List.reduceOption_replicate_none, List.nil_append] at hreduce
  unfold List.reduceOption at hreduce
  rw [List.filterMap_map, List.filterMap_map] at hreduce
  exact hreduce.trans List.filterMap_some

theorem Lined.flushed {c : Nat} (h : Lined num c s q) (t : T) (k : Option Ticket) :
    Lined num c (SimpleLogger.flushed num maxLogFileSize s t c k) q.flush := by
  have hlogs : ∀ i, (SimpleLogger.flushed num maxLogFileSize s t c k).logs i =
      if i ∈ circular num c ∧ (s.logs i).status = .dirty then { s.logs i with status := .clean } else s.logs i :=
    fun _ => rfl
  constructor
  case lock => rfl
  case settled =>
    intro i
    rw [hlogs]
    split
    · exact Or.inl rfl
    · exact h.settled i
  case length_le => exact Nat.zero_le _
  case ring =>
    show _ = List.replicate num none ++ []
    rw [List.append_nil, List.eq_replicate_iff]
    constructor
    · have hlen := congrArg List.length h.ring
      have hle := h.length_le
      simp only [SimpleLogger.ring, List.length_map, List.length_append, List.length_replicate] at hlen ⊢
      omega
    · intro line hline
      obtain ⟨i, hi, rfl⟩ := List.mem_map.mp hline
      rw [LogElem.line?_eq_none_iff, hlogs]
      split
      case isTrue => exact Status.noConfusion
      case isFalse hno => exact fun hdirty => hno ⟨hi, hdirty⟩
  case out =>
    show s.streamed ++ (circular num c).filterMap _ = q.out ++ q.waiting
    rw [h.out, h.lines_eq]
  case dropped => exact h.dropped

theorem Lined.stored (hk : k.slot < num) (h : Lined num k.slot s q) (hroom : q.waiting.length < num) (t : T) :
    Lined num ((k.slot + 1) % num) (s.stored t k) (q.add k.msg.text) := by
  obtain ⟨rest, hcons, hnotin, hnext⟩ := circular_succ hk
  have hlogs : (s.stored t k).logs = Function.update s.logs k.slot
      ⟨k.msg.text.length, k.msg.text ++ (s.logs k.slot).ctx.drop k.msg.text.length, .dirty⟩ := rfl
  constructor
  case lock => exact h.lock
  case settled =>
    intro i
    rw [hlogs]
    rcases eq_or_ne i k.slot with rfl | hne
    · rw [Function.update_self]
      exact Or.inr rfl
    · rw [Function.update_of_ne hne]
      exact h.settled i
  case length_le =>
    show (q.waiting ++ [k.msg.text]).length ≤ num
    rw [List.length_append, List.length_singleton]
    exact hroom
  case ring =>
    obtain ⟨n, hn⟩ : ∃ n, num - q.waiting.length = n + 1 := Nat.exists_eq_succ_of_ne_zero (by omega)
    have hring := h.ring
    unfold SimpleLogger.ring at hring ⊢
    rw [hcons, List.map_cons, hn, List.replicate_succ, List.cons_append] at hring
    have hrest : (rest.map fun i => ((s.stored t k).logs i).line?) = rest.map fun i => (s.logs i).line? := by
      refine List.map_congr_left fun i hi => ?_
      rw [hlogs, Function.update_of_ne]
      rintro rfl
      exact hnotin hi
    have hself : ((s.stored t k).logs k.slot).line? = some k.msg.text := by
      rw [hlogs, Function.update_self]
      exact congrArg some (List.take_left' rfl)
    have hsub : num - (q.waiting ++ [k.msg.text]).length = n := by
      rw [List.length_append, List.length_singleton]
      omega
    show _ = List.replicate (num - (q.waiting ++ [k.msg.text]).length) none ++ (q.waiting ++ [k.msg.text]).map some
    rw [hnext, List.map_append, hrest, (List.cons.inj hring).2, List.map_singleton, hself, hsub, List.append_assoc,
      List.map_append]
    rfl
  case out => exact h.out
  case dropped => exact h.dropped

/-- No thread is in a call. -/
structure Queued (num : Nat) (s : SimpleLogger T) (q : FlushQueue Bytes) : Prop where
  outside : ∀ t, s.pc t = .outside
  cursor_lt : s.cursor < num
  lined : Lined num s.cursor s q

omit [DecidableEq T] in
theorem queued_first (hpos : 0 < num) (files : LogFiles) : Queued num (first files : SimpleLogger T) .empty := by
  refine ⟨fun _ => rfl, hpos, rfl, fun _ => Or.inl rfl, Nat.zero_le _, ?_, rfl, rfl⟩
  show _ = List.replicate num none ++ []
  rw [List.append_nil, List.eq_replicate_iff]
  constructor
  · simp [SimpleLogger.ring, circular, first]
  · intro line hline
    obtain ⟨i, -, rfl⟩ := List.mem_map.mp hline
    rfl

theorem update_outside (h : ∀ t, s.pc t = .outside) (t v : T) : Function.update s.pc t .outside v = .outside := by
  rcases eq_or_ne v t with rfl | hne
  · rw [Function.update_self]
  · rw [Function.update_of_ne hne, h v]

omit [DecidableEq T] in
theorem Lined.congr {c : Nat} (h : Lined num c s q) (hlogs : u.logs = s.logs) (hlock : u.flushingLogs = s.flushingLogs)
    (hstreamed : u.streamed = s.streamed) (hdropped : u.dropped = s.dropped) : Lined num c u q := by
  obtain ⟨hl, hs, hle, hr, ho, hd⟩ := h
  unfold SimpleLogger.ring at hr
  refine ⟨hlock.trans hl, fun i => hlogs ▸ hs i, hle, ?_, hstreamed.trans ho, hdropped.trans hd⟩
  unfold SimpleLogger.ring
  rw [hlogs, hr]

variable (maxLogFileSize) in
/-- `put`, as far as `write`: a full ring is flushed on the way. -/
theorem exists_writes (h : Queued num s q) (t : T) (msg : Line) : ∃ b : SimpleLogger T,
    Alone num maxLogFileSize t (s.put num t msg) b ∧ b.pc = Function.update s.pc t (.writes ⟨s.cursor, msg⟩) ∧
      b.cursor = (s.cursor + 1) % num ∧ Lined num s.cursor b (if q.waiting.length = num then q.flush else q) := by
  have hstatus := h.lined.status_start h.cursor_lt
  have hwaits : (s.put num t msg).go num maxLogFileSize t = (s.put num t msg).setPc t (.asks ⟨s.cursor, msg⟩) := by
    unfold go
    rw [show (s.put num t msg).pc t = .waits ⟨s.cursor, msg⟩ from Function.update_self _ _ _]
    exact if_pos (h.lined.settled s.cursor)
  have hlined : ∀ p : Pc, Lined num s.cursor ((s.put num t msg).setPc t p) q := fun p => h.lined.congr rfl rfl rfl rfl
  have hpc : ∀ p : Pc, ((s.put num t msg).setPc t p).pc = Function.update s.pc t p := by
    intro p
    exact congrArg SimpleLogger.pc (setPc_setPc s t (.waits ⟨s.cursor, msg⟩) p)
  by_cases hfull : q.waiting.length = num
  · rw [if_pos hfull] at hstatus ⊢
    have hasks : ((s.put num t msg).setPc t (.asks ⟨s.cursor, msg⟩)).go num maxLogFileSize t =
        (s.put num t msg).setPc t (.locks s.cursor (some ⟨s.cursor, msg⟩)) := by
      unfold go
      rw [pc_setPc]
      exact (if_pos hstatus).trans (setPc_setPc _ _ _ _)
    have hflush : Alone num maxLogFileSize t (s.put num t msg)
        (SimpleLogger.flushed num maxLogFileSize ((s.put num t msg).setPc t (.locks s.cursor (some ⟨s.cursor, msg⟩))) t
          s.cursor (some ⟨s.cursor, msg⟩)) := by
      apply Alone.step
      rw [hwaits]
      apply Alone.step
      rw [hasks]
      exact alone_flushed (pc_setPc _ _ _) h.lined.lock
    refine ⟨_, hflush, ?_, rfl, (hlined _).flushed t _⟩
    show Function.update ((s.put num t msg).setPc t _).pc t _ = _
    rw [hpc, Function.update_idem]
    rfl
  · rw [if_neg hfull] at hstatus ⊢
    have hclean : ¬ (s.logs s.cursor).status = .dirty := by
      rw [hstatus]
      exact Status.noConfusion
    have hasks : ((s.put num t msg).setPc t (.asks ⟨s.cursor, msg⟩)).go num maxLogFileSize t =
        (s.put num t msg).setPc t (.writes ⟨s.cursor, msg⟩) := by
      unfold go
      rw [pc_setPc]
      exact (if_neg hclean).trans (setPc_setPc _ _ _ _)
    refine ⟨(s.put num t msg).setPc t (.writes ⟨s.cursor, msg⟩), ?_, hpc _, rfl, hlined _⟩
    apply Alone.step
    rw [hwaits]
    apply Alone.step
    rw [hasks]
    exact Relation.ReflTransGen.refl

/-- A call ends, and does to the lines what it does to the queue. -/
theorem exists_call (h : Queued num s q) (c : LoggerCall T) :
    ∃ u, Call num maxLogFiles maxLogFileSize s c u ∧ Queued num u (queueCall num q c) := by
  have hlt : (s.cursor + 1) % num < num := Nat.mod_lt _ (Nat.zero_lt_of_lt h.cursor_lt)
  cases c with
  | put t msg =>
    obtain ⟨b, halone, hpc, hcursor, hlined⟩ := exists_writes maxLogFileSize h t msg
    have hroom : (if q.waiting.length = num then q.flush else q).waiting.length < num := by
      split
      · exact Nat.zero_lt_of_lt h.cursor_lt
      · exact lt_of_le_of_ne h.lined.length_le ‹_›
    have hclean : (b.logs s.cursor).status = .clean := by
      rw [hlined.status_start h.cursor_lt, if_neg (Nat.ne_of_lt hroom)]
    have hwrites : b.pc t = .writes ⟨s.cursor, msg⟩ := by
      rw [hpc, Function.update_self]
    have hstored := hlined.stored (k := ⟨s.cursor, msg⟩) h.cursor_lt hroom t
    have hput : (if q.waiting.length = num then q.flush else q).add msg.text = q.put msg.text num := by
      unfold FlushQueue.put
      split <;> rfl
    have hout : (b.stored t ⟨s.cursor, msg⟩).pc = Function.update s.pc t .outside := by
      show Function.update b.pc t .outside = _
      rw [hpc, Function.update_idem]
    refine ⟨b.stored t ⟨s.cursor, msg⟩, ⟨h.outside t, halone.trans (alone_stored hwrites hclean), ?_⟩, ?_, ?_, ?_⟩
    · rw [hout, Function.update_self]
    · intro v
      rw [hout]
      exact update_outside h.outside t v
    · exact hcursor.trans_lt hlt
    · show Lined num b.cursor _ (q.put msg.text num)
      rw [hcursor, ← hput]
      exact hstored
  | flushAll t =>
    have hlined : Lined num s.cursor (s.flushAll t) q := h.lined.congr rfl rfl rfl rfl
    refine ⟨_, ⟨h.outside t, alone_flushed (pc_setPc _ _ _) h.lined.lock, pc_setPc _ _ _⟩, ?_, h.cursor_lt,
      hlined.flushed t none⟩
    intro v
    show Function.update (Function.update s.pc t _) t .outside v = .outside
    rw [Function.update_idem]
    exact update_outside h.outside t v
  | compress => exact ⟨_, rfl, h.outside, h.cursor_lt, h.lined.congr rfl rfl rfl rfl⟩

theorem queued_call {c : LoggerCall T} (h : Queued num s q) (hc : Call num maxLogFiles maxLogFileSize s c u) :
    Queued num u (queueCall num q c) := by
  obtain ⟨v, hv, hqueued⟩ := exists_call h c
  rwa [hc.unique hv]

variable {files : LogFiles} {cs : List (LoggerCall T)}

theorem queued_run (hpos : 0 < num) (h : Run (Call num maxLogFiles maxLogFileSize) (first files) cs s) :
    Queued num s (queueOf num cs) := by
  induction h with
  | nil => exact queued_first hpos files
  | snoc _ hc ih =>
    unfold queueOf
    rw [List.foldl_concat]
    exact queued_call ih hc

omit [DecidableEq T] in
/-- The lines of the calls go through the queue in order. -/
theorem all_queueOf (cs : List (LoggerCall T)) : (queueOf num cs).all = cs.filterMap LoggerCall.line? := by
  induction cs using List.reverseRecOn with
  | nil => rfl
  | append_singleton cs c ih =>
    unfold queueOf at ih ⊢
    rw [List.foldl_concat, List.filterMap_append, ← ih]
    cases c with
    | put t msg => exact FlushQueue.all_put _ _
    | flushAll t => exact (FlushQueue.all_flush _).trans (List.append_nil _).symm
    | compress => exact (List.append_nil _).symm

/-- **In order**: where the calls of any threads follow one another, the ring is a queue of at most `num` lines that a
full one flushes. The files were given the lines of the calls in their order, up to those that wait, and hold what was
written to them, but for old ones that are removed; no line is dropped; and each call ends. -/
theorem lines_in_order (hpos : 0 < num) (hkept : files.Kept maxLogFiles)
    (h : Run (Call num maxLogFiles maxLogFileSize) (first files) cs s) :
    s.streamed = (queueOf num cs).out ∧ (s.ring num s.cursor).reduceOption = (queueOf num cs).waiting ∧
      s.streamed ++ (s.ring num s.cursor).reduceOption = cs.filterMap LoggerCall.line? ∧ s.dropped = [] ∧
      s.files.stream = files.stream ++ s.streamed.flatten ∧ s.files.Kept maxLogFiles ∧
      ∀ c, ∃ u, Call num maxLogFiles maxLogFileSize s c u := by
  have hqueued := queued_run hpos h
  have hwaiting : (s.ring num s.cursor).reduceOption = (queueOf num cs).waiting := by
    rw [← hqueued.lined.lines_eq]
    unfold SimpleLogger.ring List.reduceOption
    rw [List.filterMap_map]
    rfl
  obtain ⟨as, hrun⟩ := exists_run_of_calls h
  have hrecorded : Recorded maxLogFiles files s :=
    Run.invariant (I := Recorded maxLogFiles files) ⟨hkept, (List.append_nil _).symm⟩ (fun _ _ _ => recorded_step) hrun
  refine ⟨hqueued.lined.out, hwaiting, ?_, hqueued.lined.dropped, hrecorded.stream, hrecorded.kept, fun c => ?_⟩
  · rw [hqueued.lined.out, hwaiting]
    exact all_queueOf cs
  · obtain ⟨u, hc, -⟩ := exists_call hqueued c
    exact ⟨u, hc⟩

end

/-! ## Three lines in a ring of two -/

def threePuts : List (LoggerCall Bool) := [.put false lineOne, .put true lineTwo, .put false lineOne]

theorem exists_calls {num maxLogFiles maxLogFileSize : Nat} {T : Type} [DecidableEq T] (hpos : 0 < num) {files : LogFiles}
    (cs : List (LoggerCall T)) : ∃ s, Run (Call num maxLogFiles maxLogFileSize) (first files) cs s := by
  induction cs using List.reverseRecOn with
  | nil => exact ⟨_, Run.nil⟩
  | append_singleton cs c ih =>
    obtain ⟨s, h⟩ := ih
    obtain ⟨u, hc, -⟩ := exists_call (queued_run hpos h) c
    exact ⟨u, h.snoc hc⟩

/-- The third call flushes the first two lines. -/
theorem lines_in_order_three : ∃ s : SimpleLogger Bool, Run (Call 2 1 1) (first LogFiles.first) threePuts s ∧
    s.streamed = (queueOf 2 threePuts).out ∧ (s.ring 2 s.cursor).reduceOption = (queueOf 2 threePuts).waiting ∧
      s.streamed ++ (s.ring 2 s.cursor).reduceOption = threePuts.filterMap LoggerCall.line? ∧ s.dropped = [] ∧
      s.files.stream = LogFiles.first.stream ++ s.streamed.flatten ∧ s.files.Kept 1 ∧ ∀ c, ∃ u, Call 2 1 1 s c u := by
  obtain ⟨s, h⟩ : ∃ s, Run (Call 2 1 1) (first LogFiles.first) threePuts s := exists_calls (by decide) threePuts
  exact ⟨s, h, lines_in_order (by decide) (LogFiles.kept_first 1) h⟩

example : queueOf 2 threePuts = ⟨[[1], [2]], [[1]]⟩ := rfl

/-- A flush that has passed the first slot. -/
def passed : SimpleLogger Bool := (fun v => v.go 2 1 true)^[2] ((first LogFiles.first).flushAll true)

def bothPut : SimpleLogger Bool :=
  (fun v => v.go 2 1 false)^[6] (((fun v => v.go 2 1 false)^[6] (passed.put 2 false lineOne)).put 2 false lineTwo)

def overtaken : SimpleLogger Bool := (fun v => v.go 2 1 true)^[5] (((fun v => v.go 2 1 true)^[4] bothPut).flushAll true)

/-- **A flush of another thread** lets the second line of a thread come before its first one. -/
theorem flush_overtakes : (∃ as, Run (Step 2 1 1) (first LogFiles.first) as overtaken) ∧
    overtaken.lines = [[1], [2]] ∧ overtaken.streamed = [[2], [1]] := by
  refine ⟨?_, rfl, rfl⟩
  have hgo : ∀ (t : Bool) (v : SimpleLogger Bool), Step 2 1 1 v (.go t) (v.go 2 1 t) := fun _ _ => rfl
  have hcalled : Run (Step 2 1 1) (first LogFiles.first) [.flushAll true]
      ((first LogFiles.first : SimpleLogger Bool).flushAll true) := Run.single ⟨rfl, rfl⟩
  have hone := (run_go (hgo true) hcalled 2).snoc (a := LoggerAction.put false lineOne) ⟨rfl, rfl⟩
  have htwo := (run_go (hgo false) hone 6).snoc (a := LoggerAction.put false lineTwo) ⟨rfl, rfl⟩
  have hflush := (run_go (hgo true) (run_go (hgo false) htwo 6) 4).snoc (a := LoggerAction.flushAll true) ⟨rfl, rfl⟩
  exact ⟨_, run_go (hgo true) hflush 5⟩

end SimpleLogger
end VectorDb
