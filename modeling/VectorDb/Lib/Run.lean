import Mathlib

/-!
# Runs of a labelled step relation

* `Run step s as t` : the actions `as` lead from `s` to `t`;
* `Run.invariant` : what holds at the start and is kept by each step holds at the end;
* `Run.invariant_and` : the same, where a step may also use an invariant proved before;
* `Run.simulates` : a run of a second machine beside it, step for step;
* `Run.forall_prefix_iff` : a property holds all along a run exactly when each step meets a condition.
-/

namespace VectorDb

variable {σ α : Type}

/-- The actions `as` lead from `s` to `t`. -/
inductive Run (step : σ → α → σ → Prop) (s : σ) : List α → σ → Prop where
  | nil : Run step s [] s
  | snoc {as : List α} {a : α} {t u : σ} (h : Run step s as t) (ha : step t a u) : Run step s (as ++ [a]) u

namespace Run
variable {step step' : σ → α → σ → Prop} {s t : σ} {as : List α}

theorem single {a : α} (h : step s a t) : Run step s [a] t := Run.nil.snoc h

theorem mono (hs : ∀ s a t, step s a t → step' s a t) (h : Run step s as t) : Run step' s as t := by
  induction h with
  | nil => exact nil
  | snoc _ ha ih => exact snoc ih (hs _ _ _ ha)

/-- A condition that some actions meet in every state. -/
theorem and_of_forall {C : σ → α → Prop} (hC : ∀ a ∈ as, ∀ s, C s a) (h : Run step s as t) :
    Run (fun s a t => step s a t ∧ C s a) s as t := by
  induction h with
  | nil => exact nil
  | snoc _ ha ih =>
    rw [List.forall_mem_append] at hC
    exact snoc (ih hC.1) ⟨ha, hC.2 _ (List.mem_singleton_self _) _⟩

theorem invariant {I : σ → Prop} (h0 : I s) (hstep : ∀ s a t, I s → step s a t → I t) (h : Run step s as t) :
    I t := by
  induction h with
  | nil => exact h0
  | snoc _ ha ih => exact hstep _ _ _ ih ha

/-- An invariant whose step needs another invariant of the run. -/
theorem invariant_and {J I : σ → Prop} (hJ : ∀ {bs u}, Run step s bs u → J u) (h0 : I s)
    (hstep : ∀ s a t, J s → I s → step s a t → I t) (h : Run step s as t) : I t := by
  induction h with
  | nil => exact h0
  | snoc hr ha ih => exact hstep _ _ _ (hJ hr) ih ha

/-- **Simulation**: a relation that each step can answer relates the ends of two runs with the same actions. -/
theorem simulates {τ : Type} {step' : τ → α → τ → Prop} {R : σ → τ → Prop} {u : τ} (h0 : R s u)
    (hstep : ∀ s a t u, R s u → step s a t → ∃ v, step' u a v ∧ R t v) (h : Run step s as t) :
    ∃ v, Run step' u as v ∧ R t v := by
  induction h with
  | nil => exact ⟨u, nil, h0⟩
  | snoc _ ha ih =>
    obtain ⟨v, hv, hr⟩ := ih
    obtain ⟨w, hw, hr⟩ := hstep _ _ _ _ hr ha
    exact ⟨w, hv.snoc hw, hr⟩

theorem eq_of_nil {t : σ} (h : Run step s [] t) : t = s := by
  generalize hbs : ([] : List α) = bs at h
  cases h with
  | nil => rfl
  | snoc _ _ => simp at hbs

theorem snoc_iff {a : α} {u : σ} : Run step s (as ++ [a]) u ↔ ∃ t, Run step s as t ∧ step t a u := by
  constructor
  · generalize hbs : as ++ [a] = bs
    intro h
    cases h with
    | nil => simp at hbs
    | snoc hr ha =>
      obtain ⟨rfl, hab⟩ := List.append_inj' hbs rfl
      cases hab
      exact ⟨_, hr, ha⟩
  · rintro ⟨t, hr, ha⟩
    exact hr.snoc ha

theorem append_iff {bs : List α} {u : σ} : Run step s (as ++ bs) u ↔ ∃ t, Run step s as t ∧ Run step t bs u := by
  induction bs using List.reverseRecOn generalizing u with
  | nil =>
    rw [List.append_nil]
    constructor
    · intro h
      exact ⟨u, h, nil⟩
    · rintro ⟨t, h, hnil⟩
      rwa [eq_of_nil hnil]
  | append_singleton bs b ih =>
    simp only [← List.append_assoc, snoc_iff, ih]
    constructor
    · rintro ⟨v, ⟨t, h, hv⟩, hb⟩
      exact ⟨t, h, v, hv, hb⟩
    · rintro ⟨t, h, v, hv, hb⟩
      exact ⟨v, ⟨t, h, hv⟩, hb⟩

theorem append {bs : List α} {u : σ} (h : Run step s as t) (h' : Run step t bs u) : Run step s (as ++ bs) u :=
  append_iff.mpr ⟨t, h, h'⟩

/-- Steps that are functions make runs that are. -/
theorem unique (hf : ∀ s a t u, step s a t → step s a u → t = u) {u : σ} (ht : Run step s as t)
    (hu : Run step s as u) : t = u := by
  induction as using List.reverseRecOn generalizing t u with
  | nil => rw [eq_of_nil ht, eq_of_nil hu]
  | append_singleton as a ih =>
    obtain ⟨t', ht', hta⟩ := snoc_iff.mp ht
    obtain ⟨u', hu', hua⟩ := snoc_iff.mp hu
    cases ih ht' hu'
    exact hf _ _ _ _ hta hua

/-- A property of the states reached, given step by step: it holds after every part of a run exactly when each
step of the run meets a condition. -/
theorem forall_prefix_iff {P : σ → Prop} {C : σ → α → Prop} (hf : ∀ s a t u, step s a t → step s a u → t = u)
    (h0 : P s) (hstep : ∀ bs t a u, bs ++ [a] <+: as → Run (fun s a t => step s a t ∧ C s a) s bs t → P t →
      step t a u → (P u ↔ C t a))
    (h : Run step s as t) : (∀ bs u, bs <+: as → Run step s bs u → P u) ↔
      Run (fun s a t => step s a t ∧ C s a) s as t := by
  induction h with
  | nil =>
    refine ⟨fun _ => Run.nil, fun _ bs u hbs hr => ?_⟩
    obtain rfl := List.prefix_nil.mp hbs
    rw [eq_of_nil hr]
    exact h0
  | @snoc as a t u hr ha ih =>
    have ih := ih fun bs t a u hbs => hstep bs t a u (hbs.trans (List.prefix_append _ _))
    constructor
    · intro hP
      have ht := hP _ _ (List.prefix_append as [a]) hr
      have hrun := ih.mp fun bs v hbs => hP bs v (hbs.trans (List.prefix_append _ _))
      refine hrun.snoc ⟨ha, ?_⟩
      exact (hstep as t a u List.prefix_rfl hrun ht ha).mp (hP _ _ List.prefix_rfl (hr.snoc ha))
    · intro hC bs v hbs hv
      obtain ⟨t', hrt, hat, hCt⟩ := snoc_iff.mp hC
      have htt : t' = t := unique hf (hrt.mono fun _ _ _ h => h.1) hr
      subst htt
      have hpre := ih.mpr hrt
      rcases List.prefix_concat_iff.mp hbs with rfl | hbs
      · obtain rfl := unique hf hv (hr.snoc ha)
        exact (hstep as t' a v List.prefix_rfl hrt (hpre as t' List.prefix_rfl hr) ha).mpr hCt
      · exact hpre bs v hbs hv

end Run
end VectorDb
