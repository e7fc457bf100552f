import VectorDb.Logger

/-!
# What happens to the lines

* `Effect`, `go_effect` : what one step of a thread can do;
* `Exclusive`, `exclusive_run` : a slot that is written or flushed belongs to one thread, and one thread flushes;
* `Accounted` : the whereabouts of every line;
* `lines_conserved` : in any interleaving each line that was taken is in the file or in the ring, once and whole;
* `none_dropped` : where the ring has room for each line that is put, every line is taken.
-/

namespace VectorDb
namespace SimpleLogger

/-! ## What a place in the code implies -/

/-- Whose turn a slot is. -/
def LogElem.role (e : LogElem) : Option Status :=
  match e.status with
  | .writing => some .writing
  | .flushing => some .flushing
  | _ => none

namespace Pc

/-- The slot that a thread has taken. -/
def claim : Pc → Option (Nat × Status)
  | lens k | copies k _ => some (k.slot, .writing)
  | streams ii _ _ | cleans ii _ _ => some (ii, .flushing)
  | _ => none

/-- The line that a thread puts. -/
def ticket : Pc → Option Ticket
  | outside => none
  | waits k | asks k | yields k | writes k | lens k | copies k _ => some k
  | locks _ k | flushes _ k | streams _ _ k | cleans _ _ k => k

/-- Inside `flushingLogs`. -/
def locked : Pc → Bool
  | flushes _ _ | streams _ _ _ | cleans _ _ _ => true
  | _ => false

def todo : Pc → List Nat
  | flushes todo _ => todo
  | streams ii todo _ | cleans ii todo _ => ii :: todo
  | _ => []

structure InRange (num : Nat) (p : Pc) : Prop where
  ticket_lt : ∀ k, p.ticket = some k → k.slot < num
  start_lt : ∀ start k, p = locks start k → start < num
  todo_lt : ∀ i ∈ p.todo, i < num

@[simp] theorem claim_back (k : Option Ticket) : (back k).claim = none := by cases k <;> rfl

@[simp] theorem ticket_back (k : Option Ticket) : (back k).ticket = k := by cases k <;> rfl

@[simp] theorem locked_back (k : Option Ticket) : (back k).locked = false := by cases k <;> rfl

@[simp] theorem todo_back (k : Option Ticket) : (back k).todo = [] := by cases k <;> rfl

end Pc

variable {T : Type} [DecidableEq T]

/-! ## One step -/

/-- What one step of a thread can do. -/
inductive Effect (num maxLogFileSize : Nat) (s : SimpleLogger T) (t : T) : SimpleLogger T → Prop where
  | stays : Effect num maxLogFileSize s t s
  /-- Nothing but a look at a slot or at the lock. -/
  | moves {q : Pc} (hp : (s.pc t).claim = none) (hq : q.claim = none) (hticket : q.ticket = (s.pc t).ticket)
      (hlocked : q.locked = (s.pc t).locked) (htodo : q.todo ⊆ (s.pc t).todo)
      (hstart : ∀ start k, q = .locks start k → ∃ l, k = some l ∧ start = l.slot) :
      Effect num maxLogFileSize s t (s.setPc t q)
  | locks {start : Nat} {k : Option Ticket} (hp : s.pc t = .locks start k) (hfree : s.flushingLogs = none) :
      Effect num maxLogFileSize s t { s.setPc t (.flushes (circular num start) k) with flushingLogs := some t }
  | unlocks {k : Option Ticket} (hp : s.pc t = .flushes [] k) : Effect num maxLogFileSize s t
      { s.setPc t (.back k) with files := s.files.endFlush maxLogFileSize, flushingLogs := none }
  | takes {k : Ticket} (hp : s.pc t = .writes k) (hclean : (s.logs k.slot).status = .clean) :
      Effect num maxLogFileSize s t ((s.setElem k.slot { s.logs k.slot with status := .writing }).setPc t (.lens k))
  | drops {k : Ticket} (hp : s.pc t = .writes k) (hbusy : (s.logs k.slot).status ≠ .clean) :
      Effect num maxLogFileSize s t { s.setPc t .outside with dropped := s.dropped ++ [k.msg.text] }
  | lens {k : Ticket} (hp : s.pc t = .lens k) : Effect num maxLogFileSize s t
      ((s.setElem k.slot { s.logs k.slot with len := k.msg.text.length }).setPc t (.copies k 0))
  | copies {k : Ticket} {n : Nat} (hp : s.pc t = .copies k n) (hn : n < (s.logs k.slot).len) :
      Effect num maxLogFileSize s t ((s.setElem k.slot { s.logs k.slot with
        ctx := k.msg.text.take (n + 1) ++ (s.logs k.slot).ctx.drop (n + 1) }).setPc t (.copies k (n + 1)))
  | stores {k : Ticket} {n : Nat} (hp : s.pc t = .copies k n) (hn : (s.logs k.slot).len ≤ n) :
      Effect num maxLogFileSize s t { (s.setElem k.slot { s.logs k.slot with status := .dirty }).setPc t .outside with
        taken := s.taken ++ [k.msg.text] }
  | holds {ii : Nat} {todo : List Nat} {k : Option Ticket} (hp : s.pc t = .flushes (ii :: todo) k)
      (hdirty : (s.logs ii).status = .dirty) : Effect num maxLogFileSize s t
      ((s.setElem ii { s.logs ii with status := .flushing }).setPc t (.streams ii todo k))
  | streams {ii : Nat} {todo : List Nat} {k : Option Ticket} (hp : s.pc t = .streams ii todo k) :
      Effect num maxLogFileSize s t { s.setPc t (.cleans ii todo k) with
        files := s.files.write (s.logs ii).text, streamed := s.streamed ++ [(s.logs ii).text] }
  | cleans {ii : Nat} {todo : List Nat} {k : Option Ticket} (hp : s.pc t = .cleans ii todo k) :
      Effect num maxLogFileSize s t ((s.setElem ii { s.logs ii with status := .clean }).setPc t (.flushes todo k))

theorem go_effect (num maxLogFileSize : Nat) (s : SimpleLogger T) (t : T) :
    Effect num maxLogFileSize s t (s.go num maxLogFileSize t) := by
  have hmoves : ∀ {p q : Pc}, s.pc t = p → p.claim = none → q.claim = none → q.ticket = p.ticket → q.locked = p.locked →
      q.todo ⊆ p.todo → (∀ start k, q ≠ .locks start k) → Effect num maxLogFileSize s t (s.setPc t q) := by
    rintro p q rfl hp hq hticket hlocked htodo hstart
    exact .moves hp hq hticket hlocked htodo fun start k hk => absurd hk (hstart start k)
  unfold go
  split
  · exact .stays
  · rename_i k hp
    split
    · exact hmoves hp rfl rfl rfl rfl (List.Subset.refl _) fun _ _ => Pc.noConfusion
    · exact .stays
  · rename_i k hp
    split
    · refine .moves (by rw [hp]; rfl) rfl (by rw [hp]; rfl) (by rw [hp]; rfl) (List.nil_subset _) fun start l hl => ?_
      cases hl
      exact ⟨k, rfl, rfl⟩
    · exact hmoves hp rfl rfl rfl rfl (List.Subset.refl _) fun _ _ => Pc.noConfusion
  · rename_i start k hp
    split
    · exact .locks hp ‹_›
    · split
      · exact hmoves hp rfl rfl rfl rfl (List.Subset.refl _) fun _ _ => Pc.noConfusion
      · exact hmoves hp rfl rfl rfl rfl (List.Subset.refl _) fun _ _ => Pc.noConfusion
  · rename_i k hp
    split
    · exact .stays
    · exact hmoves hp rfl rfl rfl rfl (List.Subset.refl _) fun _ _ => Pc.noConfusion
  · rename_i k hp
    split
    · exact .takes hp ‹_›
    · exact .drops hp ‹_›
  · rename_i k hp
    have hlen : (if msgSize < k.msg.text.length then msgSize else k.msg.text.length) = k.msg.text.length :=
      if_neg (Nat.not_lt.mpr k.msg.length_le)
    dsimp only
    rw [hlen]
    exact .lens hp
  · rename_i k n hp
    split
    · exact .copies hp ‹_›
    · exact .stores hp (Nat.not_lt.mp ‹_›)
  · rename_i k hp
    exact .unlocks hp
  · rename_i ii todo k hp
    split
    · exact .holds hp ‹_›
    · exact hmoves hp rfl rfl rfl rfl (List.subset_cons_self _ _) fun _ _ => Pc.noConfusion
  · rename_i ii todo k hp
    exact .streams hp
  · rename_i ii todo k hp
    exact .cleans hp

/-! ## Exclusion -/

/-- What a thread has copied into its slot. -/
def Copied (logs : Nat → LogElem) (p : Pc) : Prop :=
  ∀ k n, p = .copies k n → (logs k.slot).len = k.msg.text.length ∧ n ≤ k.msg.text.length ∧
    (logs k.slot).ctx.take n = k.msg.text.take n

/-- Threads that write to a slot or flush it are alone with it, and one flushes at a time. -/
structure Exclusive (num : Nat) (s : SimpleLogger T) : Prop where
  claims : Claimed (Pc.claim ∘ s.pc) (LogElem.role ∘ s.logs)
  copied : ∀ t, Copied s.logs (s.pc t)
  lock : ∀ t, (s.pc t).locked = true ↔ s.flushingLogs = some t
  cursor_lt : s.cursor < num
  inRange : ∀ t, (s.pc t).InRange num

section
variable {num maxLogFileSize : Nat} {s u : SimpleLogger T} {t : T}

theorem claims_effect (h : Exclusive num s) (he : Effect num maxLogFileSize s t u) :
    Claimed (Pc.claim ∘ u.pc) (LogElem.role ∘ u.logs) := by
  have hc := h.claims
  have hkeep : ∀ q : Pc, (s.pc t).claim = q.claim →
      Claimed (Pc.claim ∘ Function.update s.pc t q) (LogElem.role ∘ s.logs) := by
    intro q hq
    rw [Function.comp_update]
    exact hc.keep hq
  have hsame : ∀ {i : Nat} {e : LogElem} (q : Pc), e.role = (s.logs i).role → (s.pc t).claim = q.claim →
      Claimed (Pc.claim ∘ Function.update s.pc t q) (LogElem.role ∘ Function.update s.logs i e) := by
    intro i e q he hq
    rw [Function.comp_update LogElem.role, he, ← Function.comp_apply (f := LogElem.role), Function.update_eq_self]
    exact hkeep q hq
  have hacquire : ∀ {i : Nat} {e : LogElem} {q : Pc} (r : Status), (s.pc t).claim = none → (s.logs i).role = none →
      q.claim = some (i, r) → e.role = some r →
      Claimed (Pc.claim ∘ Function.update s.pc t q) (LogElem.role ∘ Function.update s.logs i e) := by
    intro i e q r hp hi hq he
    rw [Function.comp_update, Function.comp_update, hq, he]
    exact hc.acquire (t := t) hp hi r
  have hrelease : ∀ {i : Nat} {e : LogElem} {q : Pc} (r : Status), (s.pc t).claim = some (i, r) → q.claim = none →
      e.role = none → Claimed (Pc.claim ∘ Function.update s.pc t q) (LogElem.role ∘ Function.update s.logs i e) := by
    intro i e q r hp hq he
    rw [Function.comp_update, Function.comp_update, hq, he]
    exact hc.release (t := t) hp
  cases he with
  | stays => exact hc
  | moves hp hq => exact hkeep _ (hp.trans hq.symm)
  | locks hp => exact hkeep _ (by rw [hp]; rfl)
  | unlocks hp => exact hkeep _ (by rw [hp, Pc.claim_back]; rfl)
  | takes hp hclean => exact hacquire .writing (by rw [hp]; rfl) (by rw [LogElem.role, hclean]) rfl rfl
  | drops hp => exact hkeep _ (by rw [hp]; rfl)
  | lens hp => exact hsame _ rfl (by rw [hp]; rfl)
  | copies hp => exact hsame _ rfl (by rw [hp]; rfl)
  | stores hp => exact hrelease .writing (by rw [hp]; rfl) rfl rfl
  | holds hp hdirty => exact hacquire .flushing (by rw [hp]; rfl) (by rw [LogElem.role, hdirty]) rfl rfl
  | streams hp => exact hkeep _ (by rw [hp]; rfl)
  | cleans hp => exact hrelease .flushing (by rw [hp]; rfl) rfl rfl

omit [DecidableEq T] in
/-- A slot that a thread copies into is left alone by a change of another thread's slot, or of a slot that is free. -/
theorem Exclusive.copied_update (h : Exclusive num s) {i : Nat} (e : LogElem)
    (hi : (s.logs i).role = none ∨ ∃ r, (s.pc t).claim = some (i, r)) {v : T} (hne : v ≠ t) :
    Copied (Function.update s.logs i e) (s.pc v) := by
  intro k n hk
  have hclaim : (Pc.claim ∘ s.pc) v = some (k.slot, .writing) := by
    rw [Function.comp_apply, hk]
    rfl
  have hslot : k.slot ≠ i := by
    rcases hi with hfree | ⟨r, ht⟩
    · exact h.claims.ne_of_free hfree hclaim
    · exact h.claims.ne_of_ne (t := t) ht hclaim hne
  rw [Function.update_of_ne hslot]
  exact h.copied v k n hk

theorem copied_effect (h : Exclusive num s) (he : Effect num maxLogFileSize s t u) : ∀ v, Copied u.logs (u.pc v) := by
  have hmoved : ∀ {q : Pc} {logs : Nat → LogElem}, (∀ v, v ≠ t → Copied logs (s.pc v)) → Copied logs q →
      ∀ v, Copied logs (Function.update s.pc t q v) :=
    fun hlogs hq => (Function.forall_update_iff s.pc (p := fun _ p => Copied _ p)).mpr ⟨hq, hlogs⟩
  have hnot : ∀ {q : Pc} (logs : Nat → LogElem), (∀ k n, q ≠ .copies k n) → Copied logs q :=
    fun logs hq k n hk => absurd hk (hq k n)
  cases he with
  | stays => exact h.copied
  | moves hp hq =>
    refine hmoved (fun v _ => h.copied v) (hnot _ fun k n hk => ?_)
    rw [hk] at hq
    cases hq
  | locks hp => exact hmoved (fun v _ => h.copied v) (hnot _ fun _ _ => Pc.noConfusion)
  | @unlocks k hp =>
    refine hmoved (fun v _ => h.copied v) (hnot _ fun l n hl => ?_)
    cases k <;> cases hl
  | takes hp hclean =>
    refine hmoved (fun v hv => h.copied_update _ (Or.inl ?_) hv) (hnot _ fun _ _ => Pc.noConfusion)
    rw [LogElem.role, hclean]
  | drops hp => exact hmoved (fun v _ => h.copied v) (hnot _ fun _ _ => Pc.noConfusion)
  | @lens k hp =>
    refine hmoved (fun v hv => h.copied_update _ (Or.inr ⟨_, by rw [hp]; rfl⟩) hv) fun l n hl => ?_
    cases hl
    show (Function.update s.logs k.slot _ k.slot).len = _ ∧ 0 ≤ _ ∧ List.take 0 _ = List.take 0 _
    rw [Function.update_self]
    exact ⟨rfl, Nat.zero_le _, rfl⟩
  | @copies k n hp hn =>
    obtain ⟨hlen, -, -⟩ := h.copied t k n hp
    refine hmoved (fun v hv => h.copied_update _ (Or.inr ⟨_, by rw [hp]; rfl⟩) hv) fun l m hl => ?_
    cases hl
    show (Function.update s.logs k.slot _ k.slot).len = _ ∧ _ ∧ (Function.update s.logs k.slot _ k.slot).ctx.take (n + 1) = _
    rw [Function.update_self]
    rw [hlen] at hn
    have htake : (k.msg.text.take (n + 1)).length = n + 1 := by
      rw [List.length_take]
      omega
    exact ⟨hlen, hn, List.take_left' htake⟩
  | stores hp =>
    exact hmoved (fun v hv => h.copied_update _ (Or.inr ⟨_, by rw [hp]; rfl⟩) hv) (hnot _ fun _ _ => Pc.noConfusion)
  | holds hp hdirty =>
    refine hmoved (fun v hv => h.copied_update _ (Or.inl ?_) hv) (hnot _ fun _ _ => Pc.noConfusion)
    rw [LogElem.role, hdirty]
  | streams hp => exact hmoved (fun v _ => h.copied v) (hnot _ fun _ _ => Pc.noConfusion)
  | cleans hp =>
    exact hmoved (fun v hv => h.copied_update _ (Or.inr ⟨_, by rw [hp]; rfl⟩) hv) (hnot _ fun _ _ => Pc.noConfusion)

theorem lock_effect (h : Exclusive num s) (he : Effect num maxLogFileSize s t u) (v : T) :
    (u.pc v).locked = true ↔ u.flushingLogs = some v := by
  have hsame : ∀ {q : Pc}, q.locked = (s.pc t).locked →
      ((Function.update s.pc t q v).locked = true ↔ s.flushingLogs = some v) := by
    intro q hq
    rcases eq_or_ne v t with rfl | hne
    · rw [Function.update_self, hq]
      exact h.lock v
    · rw [Function.update_of_ne hne]
      exact h.lock v
  cases he with
  | stays => exact h.lock v
  | moves _ _ _ hlocked => exact hsame hlocked
  | locks hp hfree =>
    show (Function.update s.pc t _ v).locked = true ↔ some t = some v
    rcases eq_or_ne v t with rfl | hne
    · rw [Function.update_self]
      exact iff_of_true rfl rfl
    · rw [Function.update_of_ne hne, h.lock v, hfree]
      exact iff_of_false (Option.some_ne_none v).symm fun heq => hne (Option.some.inj heq).symm
  | @unlocks k hp =>
    have ht : s.flushingLogs = some t := (h.lock t).mp (by rw [hp]; rfl)
    show (Function.update s.pc t _ v).locked = true ↔ none = some v
    rcases eq_or_ne v t with rfl | hne
    · rw [Function.update_self, Pc.locked_back]
      exact iff_of_false Bool.false_ne_true (Option.some_ne_none v).symm
    · rw [Function.update_of_ne hne, h.lock v, ht]
      exact iff_of_false (fun heq => hne (Option.some.inj heq).symm) (Option.some_ne_none v).symm
  | takes hp => exact hsame (by rw [hp]; rfl)
  | drops hp => exact hsame (by rw [hp]; rfl)
  | lens hp => exact hsame (by rw [hp]; rfl)
  | copies hp => exact hsame (by rw [hp]; rfl)
  | stores hp => exact hsame (by rw [hp]; rfl)
  | holds hp => exact hsame (by rw [hp]; rfl)
  | streams hp => exact hsame (by rw [hp]; rfl)
  | cleans hp => exact hsame (by rw [hp]; rfl)

theorem mem_circular {start i : Nat} (hs : start < num) : i ∈ circular num start ↔ i < num := by
  rw [circular, List.mem_append, List.mem_range'_1, List.mem_range]
  omega

/-- The slots of a thread stay those of the ring. -/
theorem inRange_effect (h : Exclusive num s) (he : Effect num maxLogFileSize s t u) (v : T) : (u.pc v).InRange num := by
  have ht := h.inRange t
  have hmoved : ∀ {q : Pc}, q.InRange num → (Function.update s.pc t q v).InRange num := by
    intro q hq
    exact (Function.forall_update_iff s.pc (p := fun _ p => p.InRange num)).mpr ⟨hq, fun v _ => h.inRange v⟩ v
  have hsame : ∀ {q : Pc}, (∀ k, q.ticket = some k → (s.pc t).ticket = some k) → q.todo ⊆ (s.pc t).todo →
      (∀ start k, q ≠ .locks start k) → (Function.update s.pc t q v).InRange num :=
    fun hticket htodo hstart => hmoved ⟨fun k hk => ht.ticket_lt k (hticket k hk),
      fun start k hk => absurd hk (hstart start k), fun i hi => ht.todo_lt i (htodo hi)⟩
  have hnil : ∀ {q : Pc}, q.todo = [] → q.todo ⊆ (s.pc t).todo := fun hq => hq ▸ List.nil_subset _
  cases he with
  | stays => exact h.inRange v
  | moves _ _ hticket _ htodo hstart =>
    refine hmoved ⟨fun k hk => ht.ticket_lt k (hticket ▸ hk), fun start k hk => ?_, fun i hi => ht.todo_lt i (htodo hi)⟩
    obtain ⟨l, rfl, rfl⟩ := hstart start k hk
    exact ht.ticket_lt l (by rw [← hticket, hk]; rfl)
  | locks hp hfree =>
    refine hmoved ⟨fun l hl => ht.ticket_lt l (by rw [hp]; exact hl), fun _ _ hk => Pc.noConfusion hk, fun i hi => ?_⟩
    exact (mem_circular (ht.start_lt _ _ hp)).mp hi
  | @unlocks k hp =>
    refine hsame (fun l hl => ?_) (hnil (Pc.todo_back k)) fun start l hl => ?_
    · rw [Pc.ticket_back] at hl
      rw [hp]
      exact hl
    · cases k <;> cases hl
  | takes hp => exact hsame (fun l hl => by rw [hp]; exact hl) (List.nil_subset _) fun _ _ => Pc.noConfusion
  | drops hp => exact hsame (fun l hl => by cases hl) (List.nil_subset _) fun _ _ => Pc.noConfusion
  | lens hp => exact hsame (fun l hl => by rw [hp]; exact hl) (List.nil_subset _) fun _ _ => Pc.noConfusion
  | copies hp => exact hsame (fun l hl => by rw [hp]; exact hl) (List.nil_subset _) fun _ _ => Pc.noConfusion
  | stores hp => exact hsame (fun l hl => by cases hl) (List.nil_subset _) fun _ _ => Pc.noConfusion
  | holds hp =>
    exact hsame (fun l hl => by rw [hp]; exact hl) (by rw [hp]; exact List.Subset.refl _) fun _ _ => Pc.noConfusion
  | streams hp =>
    exact hsame (fun l hl => by rw [hp]; exact hl) (by rw [hp]; exact List.Subset.refl _) fun _ _ => Pc.noConfusion
  | cleans hp =>
    exact hsame (fun l hl => by rw [hp]; exact hl) (by rw [hp]; exact List.subset_cons_self _ _) fun _ _ => Pc.noConfusion

theorem cursor_effect (he : Effect num maxLogFileSize s t u) : u.cursor = s.cursor := by
  cases he <;> rfl

theorem exclusive_effect (h : Exclusive num s) (he : Effect num maxLogFileSize s t u) : Exclusive num u :=
  ⟨claims_effect h he, copied_effect h he, lock_effect h he, (cursor_effect he).symm ▸ h.cursor_lt, inRange_effect h he⟩

/-- A call begins. -/
theorem exclusive_call (h : Exclusive num s) (hout : s.pc t = .outside) {q : Pc} (hclaim : q.claim = none)
    (hlocked : q.locked = false) (hq : q.InRange num) {c : Nat} (hc : c < num) (lines : List Bytes) :
    Exclusive num { s.setPc t q with cursor := c, lines } := by
  constructor
  case claims =>
    show Claimed (Pc.claim ∘ Function.update s.pc t q) _
    rw [Function.comp_update, hclaim]
    exact h.claims.keep (by rw [Function.comp_apply, hout]; rfl)
  case copied =>
    refine (Function.forall_update_iff s.pc (p := fun _ p => Copied s.logs p)).mpr ⟨fun k n hk => ?_, fun v _ => h.copied v⟩
    rw [hk] at hclaim
    cases hclaim
  case lock =>
    intro v
    show (Function.update s.pc t q v).locked = true ↔ s.flushingLogs = some v
    rcases eq_or_ne v t with rfl | hne
    · rw [Function.update_self, hlocked, ← h.lock v, hout]
      rfl
    · rw [Function.update_of_ne hne, h.lock v]
  case cursor_lt => exact hc
  case inRange => exact (Function.forall_update_iff s.pc (p := fun _ p => p.InRange num)).mpr ⟨hq, fun v _ => h.inRange v⟩

theorem exclusive_step {maxLogFiles : Nat} {a : LoggerAction T} (h : Exclusive num s)
    (hst : Step num maxLogFiles maxLogFileSize s a u) : Exclusive num u := by
  have hpos : 0 < num := Nat.zero_lt_of_lt h.cursor_lt
  cases a with
  | put t msg =>
    obtain ⟨hout, rfl⟩ := hst
    refine exclusive_call h hout rfl rfl ⟨fun k hk => ?_, fun _ _ hk => Pc.noConfusion hk, fun i hi => ?_⟩
      (Nat.mod_lt _ hpos) _
    · cases hk
      exact h.cursor_lt
    · cases hi
  | flushAll t =>
    obtain ⟨hout, rfl⟩ := hst
    refine exclusive_call h hout rfl rfl ⟨fun k hk => ?_, fun start k hk => ?_, fun i hi => ?_⟩ h.cursor_lt _
    · cases hk
    · cases hk
      exact h.cursor_lt
    · cases hi
  | go t =>
    obtain rfl := hst
    exact exclusive_effect h (go_effect num maxLogFileSize s t)
  | compress =>
    obtain rfl := hst
    exact ⟨h.claims, h.copied, h.lock, h.cursor_lt, h.inRange⟩

omit [DecidableEq T] in
theorem exclusive_first (hpos : 0 < num) (files : LogFiles) : Exclusive num (first files : SimpleLogger T) where
  claims := Claimed.free
  copied _ _ _ hk := by cases hk
  lock _ := iff_of_false Bool.false_ne_true (Option.some_ne_none _).symm
  cursor_lt := hpos
  inRange _ := ⟨fun _ hk => absurd hk (Option.some_ne_none _).symm, fun _ _ hk => Pc.noConfusion hk,
    fun _ hi => (List.not_mem_nil hi).elim⟩

end

/-! ## The whereabouts of the lines -/

/-- A line that waits in the ring. -/
def LogElem.pending (e : LogElem) : Multiset Bytes := if e.status = .dirty then {e.text} else 0

/-- A line that is about to go to the file. -/
def Pc.hand (logs : Nat → LogElem) : Pc → Multiset Bytes
  | streams ii _ _ => {(logs ii).text}
  | _ => 0

/-- A line that is being put. -/
def Pc.carried (p : Pc) : Multiset Bytes := p.ticket.elim 0 fun k => {k.msg.text}

@[simp] theorem Pc.hand_back (logs : Nat → LogElem) (k : Option Ticket) : (back k).hand logs = 0 := by cases k <;> rfl

def inRing (num : Nat) (s : SimpleLogger T) : Multiset Bytes := ∑ i ∈ Finset.range num, (s.logs i).pending

def inHand [Fintype T] (s : SimpleLogger T) : Multiset Bytes := ∑ t, (s.pc t).hand s.logs

def inFlight [Fintype T] (s : SimpleLogger T) : Multiset Bytes := ∑ t, (s.pc t).carried

section
variable [Fintype T] {num maxLogFileSize : Nat} {s u : SimpleLogger T} {t : T}

omit [DecidableEq T] [Fintype T] in
theorem inRing_update {i : Nat} (hi : i < num) (e : LogElem) (h : u.logs = Function.update s.logs i e) :
    u.inRing num + (s.logs i).pending = s.inRing num + e.pending := by
  have hlogs : (fun j => (u.logs j).pending) = Function.update (fun j => (s.logs j).pending) i e.pending := by
    rw [h]
    exact Function.comp_update LogElem.pending s.logs i e
  rw [inRing, hlogs]
  exact sum_update_add (Finset.mem_range.mpr hi) _ _

theorem inFlight_update {q : Pc} (h : u.pc = Function.update s.pc t q) :
    u.inFlight + (s.pc t).carried = s.inFlight + q.carried := by
  have hpc : (fun v => (u.pc v).carried) = Function.update (fun v => (s.pc v).carried) t q.carried := by
    rw [h]
    exact Function.comp_update Pc.carried s.pc t q
  rw [inFlight, hpc]
  exact sum_update_add (Finset.mem_univ t) _ _

/-- A step of `t` leaves what the others have in hand. -/
theorem inHand_update {q : Pc} (h : u.pc = Function.update s.pc t q)
    (hlogs : ∀ v, v ≠ t → (s.pc v).hand u.logs = (s.pc v).hand s.logs) :
    u.inHand + (s.pc t).hand s.logs = s.inHand + q.hand u.logs := by
  have hpc : (fun v => (u.pc v).hand u.logs) = Function.update (fun v => (s.pc v).hand s.logs) t (q.hand u.logs) := by
    funext v
    rw [h]
    rcases eq_or_ne v t with rfl | hne
    · rw [Function.update_self, Function.update_self]
    · rw [Function.update_of_ne hne, Function.update_of_ne hne, hlogs v hne]
  rw [inHand, hpc]
  exact sum_update_add (Finset.mem_univ t) _ _

omit [DecidableEq T] [Fintype T] in
theorem Exclusive.hand_update (h : Exclusive num s) {i : Nat} (e : LogElem)
    (hi : (s.logs i).role = none ∨ ∃ r, (s.pc t).claim = some (i, r)) {v : T} (hne : v ≠ t) :
    (s.pc v).hand (Function.update s.logs i e) = (s.pc v).hand s.logs := by
  cases hp : s.pc v with
  | streams ii todo k =>
    have hclaim : (Pc.claim ∘ s.pc) v = some (ii, .flushing) := by
      rw [Function.comp_apply, hp]
      rfl
    have hslot : ii ≠ i := by
      rcases hi with hfree | ⟨r, ht⟩
      · exact h.claims.ne_of_free hfree hclaim
      · exact h.claims.ne_of_ne (t := t) ht hclaim hne
    show ({(Function.update s.logs i e ii).text} : Multiset Bytes) = {(s.logs ii).text}
    rw [Function.update_of_ne hslot]
  | outside => rfl
  | waits k => rfl
  | asks k => rfl
  | locks start k => rfl
  | yields k => rfl
  | writes k => rfl
  | lens k => rfl
  | copies k n => rfl
  | flushes todo k => rfl
  | cleans ii todo k => rfl

/-- Lines that were taken are in the file, in the ring or on the way; lines that were put are taken, dropped or on the
way. -/
structure Accounted (num : Nat) (s : SimpleLogger T) : Prop where
  taken : (s.taken : Multiset Bytes) = s.streamed + s.inRing num + s.inHand
  lines : (s.lines : Multiset Bytes) = s.taken + s.dropped + s.inFlight

omit [DecidableEq T] in
/-- The books are kept where what is added on both sides is the same. -/
theorem Accounted.of (h : Accounted num s) {w x y z : List Bytes} {a b c d e f : Multiset Bytes}
    (htaken : u.taken = s.taken ++ w) (hstreamed : u.streamed = s.streamed ++ x) (hlines : u.lines = s.lines ++ y)
    (hdropped : u.dropped = s.dropped ++ z) (hring : u.inRing num + a = s.inRing num + b)
    (hhand : u.inHand + c = s.inHand + d) (hflight : u.inFlight + e = s.inFlight + f)
    (hfile : (w : Multiset Bytes) + a + c = x + b + d) (hput : (y : Multiset Bytes) + e = w + z + f) :
    Accounted num u := by
  obtain ⟨hT, hL⟩ := h
  constructor
  · ext m
    have h1 := congrArg (Multiset.count m) hT
    have h2 := congrArg (Multiset.count m) hring
    have h3 := congrArg (Multiset.count m) hhand
    have h4 := congrArg (Multiset.count m) hfile
    rw [htaken, hstreamed, ← Multiset.coe_add, ← Multiset.coe_add]
    simp only [Multiset.count_add] at h1 h2 h3 h4 ⊢
    omega
  · ext m
    have h1 := congrArg (Multiset.count m) hL
    have h2 := congrArg (Multiset.count m) hflight
    have h3 := congrArg (Multiset.count m) hput
    rw [htaken, hlines, hdropped, ← Multiset.coe_add, ← Multiset.coe_add, ← Multiset.coe_add]
    simp only [Multiset.count_add] at h1 h2 h3 ⊢
    omega

theorem LogElem.pending_of_role {e : LogElem} {r : Status} (h : e.role = some r) : e.pending = 0 := by
  rw [LogElem.pending, if_neg]
  intro hdirty
  rw [LogElem.role, hdirty] at h
  cases h

theorem Pc.hand_of_claim {p : Pc} (h : p.claim = none) (logs : Nat → LogElem) : p.hand logs = 0 := by
  cases p <;> first | rfl | cases h

omit [DecidableEq T] [Fintype T] in
/-- The slot of a thread is not pending. -/
theorem Exclusive.pending_eq (h : Exclusive num s) {i : Nat} {r : Status} (ht : (s.pc t).claim = some (i, r)) :
    (s.logs i).pending = 0 :=
  LogElem.pending_of_role (h.claims.role_eq (t := t) ht)

omit [DecidableEq T] [Fintype T] in
/-- When all is copied, the slot holds the line. -/
theorem Exclusive.text_eq (h : Exclusive num s) {k : Ticket} {n : Nat} (hp : s.pc t = .copies k n)
    (hn : (s.logs k.slot).len ≤ n) : (s.logs k.slot).text = k.msg.text := by
  obtain ⟨hlen, hle, htake⟩ := h.copied t k n hp
  obtain rfl : n = k.msg.text.length := Nat.le_antisymm hle (hlen ▸ hn)
  rw [LogElem.text, hlen, htake, List.take_length]

/-- A step that leaves the ring as it is. -/
theorem Accounted.moved (h : Accounted num s) {q : Pc} {x z : List Bytes} (hpc : u.pc = Function.update s.pc t q)
    (hlogs : u.logs = s.logs) (htaken : u.taken = s.taken) (hlines : u.lines = s.lines)
    (hstreamed : u.streamed = s.streamed ++ x) (hdropped : u.dropped = s.dropped ++ z)
    (hhand : (s.pc t).hand s.logs = x + q.hand s.logs) (hcarried : (s.pc t).carried = z + q.carried) :
    Accounted num u := by
  refine h.of (w := []) (y := []) (a := 0) (b := 0) (by rw [htaken, List.append_nil]) hstreamed
    (by rw [hlines, List.append_nil]) hdropped (by rw [inRing, hlogs]; rfl)
    (inHand_update hpc fun v _ => by rw [hlogs]) (inFlight_update hpc) ?_ ?_
  · rw [hlogs, hhand]
    simp
  · rw [hcarried]
    simp

/-- A step that changes a slot, of the thread or free. -/
theorem Accounted.changed (hx : Exclusive num s) (h : Accounted num s) {q : Pc} {i : Nat} {e : LogElem} {w : List Bytes}
    (hi : i < num) (hown : (s.logs i).role = none ∨ ∃ r, (s.pc t).claim = some (i, r))
    (hpc : u.pc = Function.update s.pc t q) (hlogs : u.logs = Function.update s.logs i e) (htaken : u.taken = s.taken ++ w)
    (hlines : u.lines = s.lines) (hstreamed : u.streamed = s.streamed) (hdropped : u.dropped = s.dropped)
    (hring : (w : Multiset Bytes) + (s.logs i).pending + (s.pc t).hand s.logs = e.pending + q.hand u.logs)
    (hcarried : (s.pc t).carried = w + q.carried) : Accounted num u := by
  refine h.of (x := []) (y := []) (z := []) htaken (by rw [hstreamed, List.append_nil]) (by rw [hlines, List.append_nil])
    (by rw [hdropped, List.append_nil]) (inRing_update hi e hlogs)
    (inHand_update hpc fun v hv => by rw [hlogs, hx.hand_update e hown hv]) (inFlight_update hpc) ?_ ?_
  · rw [hring]
    simp
  · rw [hcarried]
    simp

/-- A thread goes on writing to its slot. -/
theorem Accounted.filled (hx : Exclusive num s) (h : Accounted num s) {q : Pc} {i : Nat} {e : LogElem} (hi : i < num)
    (hclaim : (s.pc t).claim = some (i, .writing)) (hq : q.claim = some (i, .writing)) (he : e.role = some .writing)
    (hticket : q.ticket = (s.pc t).ticket) : Accounted num ((s.setElem i e).setPc t q) := by
  have hhand : ∀ {p : Pc} (logs : Nat → LogElem), p.claim = some (i, .writing) → p.hand logs = 0 := by
    intro p logs hp
    cases p <;> first | rfl | cases hp
  refine Accounted.changed hx h (w := []) hi (Or.inr ⟨_, hclaim⟩) rfl rfl (List.append_nil _).symm rfl rfl rfl ?_ ?_
  · rw [hx.pending_eq hclaim, LogElem.pending_of_role he, hhand _ hclaim, hhand _ hq]
    rfl
  · rw [Pc.carried, Pc.carried, hticket]
    exact (zero_add _).symm

theorem accounted_effect (hx : Exclusive num s) (h : Accounted num s) (he : Effect num maxLogFileSize s t u) :
    Accounted num u := by
  have hrange := hx.inRange t
  cases he with
  | stays => exact h
  | @moves q hp hq hticket =>
    refine h.moved (x := []) (z := []) rfl rfl rfl rfl (List.append_nil _).symm (List.append_nil _).symm ?_ ?_
    · rw [Pc.hand_of_claim hp, Pc.hand_of_claim hq]
      rfl
    · rw [Pc.carried, Pc.carried, hticket]
      exact (zero_add _).symm
  | locks hp =>
    refine h.moved (x := []) (z := []) rfl rfl rfl rfl (List.append_nil _).symm (List.append_nil _).symm ?_ ?_
    · rw [hp]
      exact (zero_add _).symm
    · rw [hp]
      exact (zero_add _).symm
  | unlocks hp =>
    refine h.moved (x := []) (z := []) rfl rfl rfl rfl (List.append_nil _).symm (List.append_nil _).symm ?_ ?_
    · rw [hp, Pc.hand_back]
      rfl
    · rw [hp, Pc.carried, Pc.carried, Pc.ticket_back]
      exact (zero_add _).symm
  | @takes k hp hclean =>
    have hfree : (s.logs k.slot).role = none := by rw [LogElem.role, hclean]
    have hclean : (s.logs k.slot).pending = 0 := by rw [LogElem.pending, hclean]; rfl
    refine Accounted.changed hx h (w := []) (hrange.ticket_lt k (by rw [hp]; rfl)) (Or.inl hfree) rfl rfl
      (List.append_nil _).symm rfl rfl rfl ?_ ?_
    · rw [hp, hclean]
      rfl
    · rw [hp]
      exact (zero_add _).symm
  | drops hp =>
    refine h.moved (x := []) rfl rfl rfl rfl (List.append_nil _).symm rfl ?_ ?_
    · rw [hp]
      rfl
    · rw [hp]
      rfl
  | @lens k hp =>
    have hclaim : (s.pc t).claim = some (k.slot, .writing) := by rw [hp]; rfl
    have hrole : (s.logs k.slot).role = some .writing := hx.claims.role_eq (t := t) hclaim
    exact Accounted.filled hx h (hrange.ticket_lt k (by rw [hp]; rfl)) hclaim rfl hrole (by rw [hp]; rfl)
  | @copies k n hp =>
    have hclaim : (s.pc t).claim = some (k.slot, .writing) := by rw [hp]; rfl
    have hrole : (s.logs k.slot).role = some .writing := hx.claims.role_eq (t := t) hclaim
    exact Accounted.filled hx h (hrange.ticket_lt k (by rw [hp]; rfl)) hclaim rfl hrole (by rw [hp]; rfl)
  | @stores k n hp hn =>
    have hclaim : (s.pc t).claim = some (k.slot, .writing) := by rw [hp]; rfl
    refine Accounted.changed hx h (hrange.ticket_lt k (by rw [hp]; rfl)) (Or.inr ⟨_, hclaim⟩) rfl rfl rfl rfl rfl rfl ?_ ?_
    · rw [hx.pending_eq hclaim, hp]
      show ({k.msg.text} : Multiset Bytes) + 0 + 0 = {(s.logs k.slot).text} + 0
      rw [hx.text_eq hp hn, add_zero]
    · rw [hp]
      rfl
  | @holds ii todo k hp hdirty =>
    have hfree : (s.logs ii).role = none := by rw [LogElem.role, hdirty]
    have hmem : ii ∈ (s.pc t).todo := by
      rw [hp]
      exact List.mem_cons_self
    refine Accounted.changed hx h (w := []) (hrange.todo_lt ii hmem) (Or.inl hfree) rfl rfl (List.append_nil _).symm rfl rfl
      rfl ?_ ?_
    · rw [LogElem.pending, if_pos hdirty, hp]
      show (0 : Multiset Bytes) + {(s.logs ii).text} + 0 = 0 + {(Function.update s.logs ii _ ii).text}
      rw [Function.update_self, zero_add, add_zero, zero_add]
      rfl
    · rw [hp]
      exact (zero_add _).symm
  | streams hp =>
    refine h.moved (z := []) rfl rfl rfl rfl rfl (List.append_nil _).symm ?_ ?_
    · rw [hp]
      rfl
    · rw [hp]
      exact (zero_add _).symm
  | @cleans ii todo k hp =>
    have hclaim : (s.pc t).claim = some (ii, .flushing) := by rw [hp]; rfl
    have hmem : ii ∈ (s.pc t).todo := by
      rw [hp]
      exact List.mem_cons_self
    refine Accounted.changed hx h (w := []) (hrange.todo_lt ii hmem) (Or.inr ⟨_, hclaim⟩) rfl rfl (List.append_nil _).symm
      rfl rfl rfl ?_ ?_
    · rw [hx.pending_eq hclaim, hp]
      rfl
    · rw [hp]
      exact (zero_add _).symm

theorem accounted_step {maxLogFiles : Nat} {a : LoggerAction T} (hx : Exclusive num s) (h : Accounted num s)
    (hst : Step num maxLogFiles maxLogFileSize s a u) : Accounted num u := by
  cases a with
  | put t msg =>
    obtain ⟨hout, rfl⟩ := hst
    refine h.of (w := []) (x := []) (z := []) (a := 0) (b := 0) (List.append_nil _).symm (List.append_nil _).symm rfl
      (List.append_nil _).symm rfl (inHand_update (t := t) rfl fun _ _ => rfl) (inFlight_update (t := t) rfl) ?_ ?_
    · rw [hout]
      rfl
    · rw [hout]
      exact (add_comm _ _)
  | flushAll t =>
    obtain ⟨hout, rfl⟩ := hst
    refine h.moved (t := t) (x := []) (z := []) rfl rfl rfl rfl (List.append_nil _).symm (List.append_nil _).symm ?_ ?_
    · rw [hout]
      rfl
    · rw [hout]
      rfl
  | go t =>
    obtain rfl := hst
    exact accounted_effect hx h (go_effect num maxLogFileSize s t)
  | compress =>
    obtain rfl := hst
    exact ⟨h.taken, h.lines⟩

/-! ## Runs -/

variable {maxLogFiles : Nat} {files : LogFiles} {as : List (LoggerAction T)}

omit [Fintype T] in
theorem exclusive_run (hpos : 0 < num) (h : Run (Step num maxLogFiles maxLogFileSize) (first files) as s) :
    Exclusive num s :=
  Run.invariant (I := Exclusive num) (exclusive_first hpos files) (fun _ _ _ hx hst => exclusive_step hx hst) h

omit [DecidableEq T] in
theorem accounted_first (files : LogFiles) : Accounted num (first files : SimpleLogger T) := by
  have hring : (first files : SimpleLogger T).inRing num = 0 := Finset.sum_eq_zero fun _ _ => rfl
  have hhand : (first files : SimpleLogger T).inHand = 0 := Finset.sum_eq_zero fun _ _ => rfl
  have hflight : (first files : SimpleLogger T).inFlight = 0 := Finset.sum_eq_zero fun _ _ => rfl
  constructor
  · rw [hring, hhand]
    rfl
  · rw [hflight]
    rfl

theorem accounted_run (hpos : 0 < num) (h : Run (Step num maxLogFiles maxLogFileSize) (first files) as s) :
    Accounted num s :=
  Run.invariant_and (J := Exclusive num) (exclusive_run hpos) (accounted_first files)
    (fun _ _ _ hx hI hst => accounted_step hx hI hst) h

/-- The files, and what they got from this logger. -/
structure Recorded (maxLogFiles : Nat) (files : LogFiles) (s : SimpleLogger T) : Prop where
  kept : s.files.Kept maxLogFiles
  stream : s.files.stream = files.stream ++ s.streamed.flatten

omit [Fintype T] in
theorem recorded_step {a : LoggerAction T} (h : Recorded maxLogFiles files s)
    (hst : Step num maxLogFiles maxLogFileSize s a u) : Recorded maxLogFiles files u := by
  cases a with
  | put t msg =>
    obtain ⟨-, rfl⟩ := hst
    exact ⟨h.kept, h.stream⟩
  | flushAll t =>
    obtain ⟨-, rfl⟩ := hst
    exact ⟨h.kept, h.stream⟩
  | go t =>
    obtain rfl := hst
    have he := go_effect num maxLogFileSize s t
    generalize s.go num maxLogFileSize t = u at he ⊢
    cases he with
    | unlocks =>
      refine ⟨LogFiles.kept_endFlush h.kept, ?_⟩
      show (s.files.endFlush maxLogFileSize).stream = _
      rw [LogFiles.stream_endFlush h.kept]
      exact h.stream
    | @streams ii =>
      refine ⟨LogFiles.kept_write h.kept _, ?_⟩
      show (s.files.write (s.logs ii).text).stream = _ ++ (s.streamed ++ [(s.logs ii).text]).flatten
      rw [LogFiles.stream_write, h.stream, List.flatten_append, List.flatten_singleton, List.append_assoc]
    | stays => exact h
    | moves => exact ⟨h.kept, h.stream⟩
    | locks => exact ⟨h.kept, h.stream⟩
    | takes => exact ⟨h.kept, h.stream⟩
    | drops => exact ⟨h.kept, h.stream⟩
    | lens => exact ⟨h.kept, h.stream⟩
    | copies => exact ⟨h.kept, h.stream⟩
    | stores => exact ⟨h.kept, h.stream⟩
    | holds => exact ⟨h.kept, h.stream⟩
    | cleans => exact ⟨h.kept, h.stream⟩
  | compress =>
    obtain rfl := hst
    refine ⟨LogFiles.kept_compress h.kept, ?_⟩
    show (s.files.compress maxLogFiles).stream = _
    rw [LogFiles.stream_compress]
    exact h.stream

/-- **No line is torn, lost or doubled** once `write` has taken it. In any interleaving of the steps of any threads in
`put` and `flushAll` with those of the worker that compresses: the lines that were taken are those given to the file,
those that wait in the ring, and what a flush has in hand; the other lines that were put are dropped, or still on the
way; the files were given these lines one after the other, and hold what was written to them, but for old ones that are
removed; and one thread flushes at a time. -/
theorem lines_conserved (hpos : 0 < num) (hkept : files.Kept maxLogFiles)
    (h : Run (Step num maxLogFiles maxLogFileSize) (first files) as s) : Accounted num s ∧
      s.files.stream = files.stream ++ s.streamed.flatten ∧ s.files.Kept maxLogFiles ∧
      ((∀ t, s.pc t = .outside) → (s.lines : Multiset Bytes) = s.streamed + s.inRing num + s.dropped) ∧
      ∀ t v, (s.pc t).locked = true → (s.pc v).locked = true → t = v := by
  have hx := exclusive_run hpos h
  have ha := accounted_run hpos h
  have hr : Recorded maxLogFiles files s :=
    Run.invariant (I := Recorded maxLogFiles files) ⟨hkept, (List.append_nil _).symm⟩ (fun _ _ _ => recorded_step) h
  refine ⟨ha, hr.stream, hr.kept, fun hout => ?_, fun t v ht hv => ?_⟩
  · have hhand : s.inHand = 0 := Finset.sum_eq_zero fun t _ => by rw [hout t]; rfl
    have hflight : s.inFlight = 0 := Finset.sum_eq_zero fun t _ => by rw [hout t]; rfl
    rw [ha.lines, ha.taken, hhand, hflight, add_zero, add_zero]
  · rw [hx.lock] at ht hv
    exact Option.some.inj (ht.symm.trans hv)

/-! ## Room for every line -/

/-- A put draws a slot that is clean and that no other put has drawn. -/
def Draws (s : SimpleLogger T) : LoggerAction T → Prop
  | .put _ _ => (s.logs s.cursor).status = .clean ∧ ∀ v k, (s.pc v).ticket = some k → k.slot ≠ s.cursor
  | _ => True

/-- On the way to a slot that stays clean, or in it. -/
def Straight (logs : Nat → LogElem) (k : Ticket) (p : Pc) : Prop :=
  (p = .lens k ∨ ∃ n, p = .copies k n) ∨ (p = .waits k ∨ p = .asks k ∨ p = .writes k) ∧ (logs k.slot).status = .clean

/-- Each put goes straight to its slot. -/
structure Roomy (s : SimpleLogger T) : Prop where
  straight : ∀ t k, (s.pc t).ticket = some k → Straight s.logs k (s.pc t)
  unique : ∀ t v k l, (s.pc t).ticket = some k → (s.pc v).ticket = some l → k.slot = l.slot → t = v
  dropped : s.dropped = []

omit [Fintype T] in
/-- A thread moves on. -/
theorem Roomy.update (h : Roomy s) {q : Pc} (hpc : u.pc = Function.update s.pc t q) (hdropped : u.dropped = s.dropped)
    (hticket : ∀ k, q.ticket = some k → (s.pc t).ticket = some k ∧ Straight u.logs k q)
    (hclean : ∀ v k, v ≠ t → (s.pc v).ticket = some k → (s.logs k.slot).status = .clean → (u.logs k.slot).status = .clean) :
    Roomy u := by
  have hold : ∀ v k, (u.pc v).ticket = some k → (s.pc v).ticket = some k := by
    rw [hpc]
    exact (Function.forall_update_iff s.pc (p := fun v p => ∀ k, p.ticket = some k → (s.pc v).ticket = some k)).mpr
      ⟨fun k hk => (hticket k hk).1, fun v _ k hk => hk⟩
  constructor
  case straight =>
    rw [hpc]
    refine (Function.forall_update_iff s.pc (p := fun v p => ∀ k, p.ticket = some k → Straight u.logs k p)).mpr
      ⟨fun k hk => (hticket k hk).2, fun v hne k hk => ?_⟩
    exact (h.straight v k hk).imp_right fun hway => ⟨hway.1, hclean v k hne hk hway.2⟩
  case unique => exact fun v w k l hk hl => h.unique v w k l (hold v k hk) (hold w l hl)
  case dropped => rw [hdropped, h.dropped]

omit [DecidableEq T] [Fintype T] in
/-- A thread that puts changes no slot but its own. -/
theorem Roomy.clean_update (h : Roomy s) {k : Ticket} (ht : (s.pc t).ticket = some k) (e : LogElem) {v : T} {l : Ticket}
    (hne : v ≠ t) (hl : (s.pc v).ticket = some l) (hclean : (s.logs l.slot).status = .clean) :
    (Function.update s.logs k.slot e l.slot).status = .clean := by
  rw [Function.update_of_ne]
  · exact hclean
  · intro hslot
    exact hne (h.unique v t l k hl ht hslot)

omit [Fintype T] in
/-- A thread that puts. -/
theorem roomy_put (h : Roomy s) {k : Ticket} (ht : (s.pc t).ticket = some k) : Roomy (s.go num maxLogFileSize t) := by
  have hk : ∀ {q : Pc} {logs : Nat → LogElem}, q.ticket = some k → Straight logs k q →
      ∀ l, q.ticket = some l → (s.pc t).ticket = some l ∧ Straight logs l q := by
    intro q logs hq hstraight l hl
    obtain rfl : k = l := Option.some.inj (hq.symm.trans hl)
    exact ⟨ht, hstraight⟩
  rcases h.straight t k ht with (hp | ⟨n, hp⟩) | ⟨hp | hp | hp, hclean⟩
  · simp only [go, hp]
    exact h.update rfl rfl (hk rfl (Or.inl (Or.inr ⟨0, rfl⟩))) fun v l hne hl hc => h.clean_update ht _ hne hl hc
  · simp only [go, hp]
    split
    · exact h.update rfl rfl (hk rfl (Or.inl (Or.inr ⟨n + 1, rfl⟩))) fun v l hne hl hc => h.clean_update ht _ hne hl hc
    · refine h.update (q := .outside) rfl rfl (fun l hl => ?_) fun v l hne hl hc => h.clean_update ht _ hne hl hc
      cases hl
  · simp only [go, hp, hclean, true_or, if_true]
    exact h.update rfl rfl (hk rfl (Or.inr ⟨Or.inr (Or.inl rfl), hclean⟩)) fun v l hne hl hc => hc
  · have hdirty : ¬ Status.clean = Status.dirty := by decide
    simp only [go, hp, hclean, if_neg hdirty]
    exact h.update rfl rfl (hk rfl (Or.inr ⟨Or.inr (Or.inr rfl), hclean⟩)) fun v l hne hl hc => hc
  · simp only [go, hp, hclean, if_true]
    exact h.update rfl rfl (hk rfl (Or.inl (Or.inl rfl))) fun v l hne hl hc => h.clean_update ht _ hne hl hc

omit [Fintype T] in
/-- A thread that does not. -/
theorem roomy_effect (h : Roomy s) (ht : (s.pc t).ticket = none) (he : Effect num maxLogFileSize s t u) : Roomy u := by
  have hnone : ∀ {q : Pc} {logs : Nat → LogElem}, q.ticket = none → ∀ l, q.ticket = some l →
      (s.pc t).ticket = some l ∧ Straight logs l q := by
    intro q logs hq l hl
    rw [hq] at hl
    cases hl
  have hstays : ∀ {q : Pc} {u : SimpleLogger T}, q.ticket = none → u.pc = Function.update s.pc t q → u.logs = s.logs →
      u.dropped = s.dropped → Roomy u :=
    fun hq hpc hlogs hdropped => h.update hpc hdropped (hnone hq) fun v l _ _ hc => by rwa [hlogs]
  cases he with
  | stays => exact h
  | moves hp hq hticket => exact hstays (hticket.trans ht) rfl rfl rfl
  | @locks start k hp =>
    rw [hp] at ht
    exact hstays (q := .flushes (circular num start) k) ht rfl rfl rfl
  | unlocks hp =>
    rw [hp] at ht
    exact hstays ((Pc.ticket_back _).trans ht) rfl rfl rfl
  | @holds ii todo k hp hdirty =>
    rw [hp] at ht
    refine h.update rfl rfl (hnone ht) fun v l hne hl hc => ?_
    show (Function.update s.logs ii _ l.slot).status = .clean
    rw [Function.update_of_ne]
    · exact hc
    · intro hslot
      rw [hslot, hdirty] at hc
      cases hc
  | @streams ii todo k hp =>
    rw [hp] at ht
    exact hstays (q := .cleans ii todo k) ht rfl rfl rfl
  | @cleans ii todo k hp =>
    rw [hp] at ht
    refine h.update rfl rfl (hnone ht) fun v l hne hl hc => ?_
    show (Function.update s.logs ii _ l.slot).status = .clean
    rcases eq_or_ne l.slot ii with hslot | hne
    · rw [hslot, Function.update_self]
    · rwa [Function.update_of_ne hne]
  | takes hp => rw [hp] at ht; cases ht
  | drops hp => rw [hp] at ht; cases ht
  | lens hp => rw [hp] at ht; cases ht
  | copies hp => rw [hp] at ht; cases ht
  | stores hp => rw [hp] at ht; cases ht

omit [Fintype T] in
theorem roomy_step {a : LoggerAction T} (h : Roomy s) (hd : Draws s a) (hst : Step num maxLogFiles maxLogFileSize s a u) :
    Roomy u := by
  cases a with
  | put t msg =>
    obtain ⟨hout, rfl⟩ := hst
    obtain ⟨hclean, hfree⟩ := hd
    have hpc : ∀ v, v ≠ t → (Function.update s.pc t (.waits ⟨s.cursor, msg⟩)) v = s.pc v :=
      fun v hne => Function.update_of_ne hne _ _
    have hself : (Function.update s.pc t (.waits ⟨s.cursor, msg⟩)) t = .waits ⟨s.cursor, msg⟩ := Function.update_self _ _ _
    constructor
    case straight =>
      refine (Function.forall_update_iff s.pc (p := fun v p => ∀ k, p.ticket = some k → Straight s.logs k p)).mpr
        ⟨fun k hk => ?_, fun v _ => h.straight v⟩
      cases hk
      exact Or.inr ⟨Or.inl rfl, hclean⟩
    case unique =>
      intro v w k l hk hl hslot
      change (Function.update s.pc t _ v).ticket = some k at hk
      change (Function.update s.pc t _ w).ticket = some l at hl
      rcases eq_or_ne v t with hv | hv <;> rcases eq_or_ne w t with hw | hw
      · rw [hv, hw]
      · rw [hv, hself] at hk
        rw [hpc w hw] at hl
        cases hk
        exact absurd hslot.symm (hfree w l hl)
      · rw [hpc v hv] at hk
        rw [hw, hself] at hl
        cases hl
        exact absurd hslot (hfree v k hk)
      · rw [hpc v hv] at hk
        rw [hpc w hw] at hl
        exact h.unique v w k l hk hl hslot
    case dropped => exact h.dropped
  | flushAll t =>
    obtain ⟨hout, rfl⟩ := hst
    refine h.update (q := .locks s.cursor none) rfl rfl (fun k hk => ?_) fun v k _ _ hc => hc
    cases hk
  | go t =>
    obtain rfl := hst
    cases ht : (s.pc t).ticket with
    | none => exact roomy_effect h ht (go_effect num maxLogFileSize s t)
    | some k => exact roomy_put h ht
  | compress =>
    obtain rfl := hst
    exact ⟨h.straight, h.unique, h.dropped⟩

omit [Fintype T] in
/-- **No line is dropped** as long as each put draws a slot that was flushed, and that no other put still holds,
whatever else goes on in the ring. -/
theorem none_dropped (h : Run (fun s a u => Step num maxLogFiles maxLogFileSize s a u ∧ Draws s a) (first files) as s) :
    s.dropped = [] := by
  have hfirst : Roomy (first files : SimpleLogger T) :=
    ⟨fun _ _ hk => absurd hk (Option.some_ne_none _).symm, fun _ _ _ _ hk => absurd hk (Option.some_ne_none _).symm, rfl⟩
  exact (Run.invariant (I := Roomy) hfirst (fun _ _ _ hI hst => roomy_step hI hst.2 hst.1) h).dropped

end

/-! ## Two lines -/

theorem run_go {T : Type} [DecidableEq T] {num maxLogFileSize : Nat}
    {step : SimpleLogger T → LoggerAction T → SimpleLogger T → Prop} {s u : SimpleLogger T} {t : T}
    {as : List (LoggerAction T)} (hgo : ∀ v, step v (.go t) (v.go num maxLogFileSize t)) (h : Run step s as u) (n : Nat) :
    Run step s (as ++ List.replicate n (.go t)) ((fun v => v.go num maxLogFileSize t)^[n] u) := by
  induction n with
  | zero =>
    rw [List.replicate_zero, List.append_nil]
    exact h
  | succ n ih =>
    rw [List.replicate_succ', ← List.append_assoc, Function.iterate_succ_apply']
    exact ih.snoc (hgo _)

def lineOne : Line := formatLine [1] [] []

def lineTwo : Line := formatLine [2] [] []

def twoPut : SimpleLogger Bool := ((first LogFiles.first).put 2 false lineOne).put 2 true lineTwo

def twoTaken : SimpleLogger Bool := (fun v => v.go 2 1 false)^[6] ((fun v => v.go 2 1 true)^[6] twoPut)

def twoLines : SimpleLogger Bool := (fun v => v.go 2 1 false)^[8] (twoTaken.flushAll false)

/-- Two threads put a line each, and one of them flushes. -/
theorem run_twoLines : ∃ as, Run (fun s a u => Step 2 1 1 s a u ∧ Draws s a) (first LogFiles.first) as twoLines := by
  have hone : Draws (first LogFiles.first : SimpleLogger Bool) (.put false lineOne) :=
    ⟨rfl, fun _ _ hk => absurd hk (Option.some_ne_none _).symm⟩
  have htwo : Draws ((first LogFiles.first : SimpleLogger Bool).put 2 false lineOne) (.put true lineTwo) := by
    refine ⟨rfl, fun v k hk => ?_⟩
    cases v with
    | false =>
      cases hk
      exact Nat.zero_ne_one
    | true => cases hk
  have hput : Run (fun s a u => Step 2 1 1 s a u ∧ Draws s a) (first LogFiles.first : SimpleLogger Bool)
      ([] ++ [.put false lineOne] ++ [.put true lineTwo]) twoPut :=
    (Run.nil.snoc ⟨⟨rfl, rfl⟩, hone⟩).snoc ⟨⟨rfl, rfl⟩, htwo⟩
  have hgo : ∀ (t : Bool) (v : SimpleLogger Bool), Step 2 1 1 v (.go t) (v.go 2 1 t) ∧ Draws v (.go t) :=
    fun _ _ => ⟨rfl, trivial⟩
  have htaken := run_go (hgo false) (run_go (hgo true) hput 6) 6
  have hflush := htaken.snoc (a := LoggerAction.flushAll false) (u := twoTaken.flushAll false) ⟨⟨rfl, rfl⟩, trivial⟩
  exact ⟨_, run_go (hgo false) hflush 8⟩

theorem lines_conserved_twoLines : Accounted 2 twoLines ∧
    twoLines.files.stream = LogFiles.first.stream ++ twoLines.streamed.flatten ∧ twoLines.files.Kept 1 ∧
      ((∀ t, twoLines.pc t = .outside) →
        (twoLines.lines : Multiset Bytes) = twoLines.streamed + twoLines.inRing 2 + twoLines.dropped) ∧
      ∀ t v, (twoLines.pc t).locked = true → (twoLines.pc v).locked = true → t = v := by
  obtain ⟨as, h⟩ := run_twoLines
  exact lines_conserved (by decide) (LogFiles.kept_first 1) (h.mono fun _ _ _ hst => hst.1)

theorem none_dropped_twoLines : twoLines.dropped = [] := by
  obtain ⟨as, h⟩ := run_twoLines
  exact none_dropped h

end SimpleLogger
end VectorDb
