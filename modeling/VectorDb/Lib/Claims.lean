import Mathlib

/-!
# Claims on slots

* `Claimed claim role` : each thread claims at most one slot, each slot has the role of the thread that claims it;
* `Claimed.acquire`, `Claimed.release`, `Claimed.keep` : a free slot is claimed, a claim is given up, and neither;
* `sum_update_add` : a sum of which one term changes.
-/

namespace VectorDb

variable {τ ι ρ : Type} [DecidableEq τ] [DecidableEq ι]

/-- `claim t` is the slot of a thread and what for; `role i` is `none` where a slot is free. -/
structure Claimed (claim : τ → Option (ι × ρ)) (role : ι → Option ρ) : Prop where
  role_eq : ∀ {t i r}, claim t = some (i, r) → role i = some r
  unique : ∀ {t u i r q}, claim t = some (i, r) → claim u = some (i, q) → t = u
  claimed : ∀ {i r}, role i = some r → ∃ t, claim t = some (i, r)

namespace Claimed
variable {claim : τ → Option (ι × ρ)} {role : ι → Option ρ} {t u : τ} {i j : ι} {r q : ρ}

omit [DecidableEq τ] [DecidableEq ι] in
theorem free : Claimed (fun _ : τ => (none : Option (ι × ρ))) fun _ => none where
  role_eq h := by cases h
  unique h := by cases h
  claimed h := by cases h

omit [DecidableEq τ] [DecidableEq ι] in
/-- A free slot has no claim. -/
theorem ne_of_free (h : Claimed claim role) (hi : role i = none) (ht : claim t = some (j, r)) : j ≠ i := by
  rintro rfl
  rw [h.role_eq ht] at hi
  cases hi

omit [DecidableEq τ] [DecidableEq ι] in
theorem ne_of_ne (h : Claimed claim role) (ht : claim t = some (i, r)) (hu : claim u = some (j, q)) (hne : u ≠ t) : j ≠ i := by
  rintro rfl
  exact hne (h.unique hu ht)

theorem acquire (h : Claimed claim role) (ht : claim t = none) (hi : role i = none) (r : ρ) :
    Claimed (Function.update claim t (some (i, r))) (Function.update role i (some r)) := by
  have hclaim : ∀ {v j q}, Function.update claim t (some (i, r)) v = some (j, q) →
      v = t ∧ j = i ∧ q = r ∨ v ≠ t ∧ j ≠ i ∧ claim v = some (j, q) := by
    intro v j q hv
    rcases eq_or_ne v t with rfl | hne
    · rw [Function.update_self] at hv
      cases hv
      exact Or.inl ⟨rfl, rfl, rfl⟩
    · rw [Function.update_of_ne hne] at hv
      exact Or.inr ⟨hne, h.ne_of_free hi hv, hv⟩
  constructor
  case role_eq =>
    intro v j q hv
    rcases hclaim hv with ⟨rfl, rfl, rfl⟩ | ⟨-, hne, hv⟩
    · exact Function.update_self ..
    · rw [Function.update_of_ne hne]
      exact h.role_eq hv
  case unique =>
    intro v w j q q' hv hw
    rcases hclaim hv with ⟨hvt, hj, -⟩ | ⟨-, hne, hv⟩ <;> rcases hclaim hw with ⟨hwt, hj', -⟩ | ⟨-, hne', hw⟩
    · exact hvt.trans hwt.symm
    · exact absurd hj hne'
    · exact absurd hj' hne
    · exact h.unique hv hw
  case claimed =>
    intro j q hj
    rcases eq_or_ne j i with rfl | hne
    · rw [Function.update_self] at hj
      exact ⟨t, by rw [Function.update_self, Option.some.inj hj]⟩
    · rw [Function.update_of_ne hne] at hj
      obtain ⟨v, hv⟩ := h.claimed hj
      refine ⟨v, ?_⟩
      rw [Function.update_of_ne, hv]
      rintro rfl
      rw [ht] at hv
      cases hv

theorem release (h : Claimed claim role) (ht : claim t = some (i, r)) :
    Claimed (Function.update claim t none) (Function.update role i none) := by
  have hclaim : ∀ {v j q}, Function.update claim t none v = some (j, q) → j ≠ i ∧ claim v = some (j, q) := by
    intro v j q hv
    rcases eq_or_ne v t with rfl | hne
    · rw [Function.update_self] at hv
      cases hv
    · rw [Function.update_of_ne hne] at hv
      exact ⟨h.ne_of_ne ht hv hne, hv⟩
  constructor
  case role_eq =>
    intro v j q hv
    obtain ⟨hne, hv⟩ := hclaim hv
    rw [Function.update_of_ne hne]
    exact h.role_eq hv
  case unique => exact fun hv hw => h.unique (hclaim hv).2 (hclaim hw).2
  case claimed =>
    intro j q hj
    rcases eq_or_ne j i with rfl | hne
    · rw [Function.update_self] at hj
      cases hj
    · rw [Function.update_of_ne hne] at hj
      obtain ⟨v, hv⟩ := h.claimed hj
      refine ⟨v, ?_⟩
      rw [Function.update_of_ne, hv]
      rintro rfl
      rw [ht] at hv
      exact hne (congrArg Prod.fst (Option.some.inj hv)).symm

omit [DecidableEq ι] in
/-- A step that neither claims nor gives up. -/
theorem keep (h : Claimed claim role) {c : Option (ι × ρ)} (hc : claim t = c) : Claimed (Function.update claim t c) role := by
  rwa [← hc, Function.update_eq_self]

end Claimed

/-- One term of a sum changes. -/
theorem sum_update_add {M : Type} [AddCommMonoid M] {s : Finset ι} {i : ι} (hi : i ∈ s) (f : ι → M) (m : M) :
    (∑ j ∈ s, Function.update f i m j) + f i = (∑ j ∈ s, f j) + m := by
  rw [Finset.sum_update_of_mem hi, Finset.sum_eq_add_sum_sdiff_singleton_of_mem hi f]
  abel

end VectorDb
