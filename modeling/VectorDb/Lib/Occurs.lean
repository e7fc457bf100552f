import Mathlib

/-!
# Ordered occurrences in a list

* `Occurs ps l` : `l` has elements with the properties `ps`, in this order, with or without others between them;
* `Occurs.of_concat`, `Occurs.of_prefix` : fewer properties, a longer list;
* `occurs_concat_iff` : what one more element of the list adds, and without its last property
  (`occurs_concat_of_not`) or with it (`occurs_concat_of`);
* `occurs_append_of_forall_not`, `not_occurs_of_forall_not` : elements without the last property.
-/

namespace VectorDb

variable {α : Type} {ps : List (α → Prop)} {p : α → Prop} {l : List α} {a : α}

/-- `l` has elements with the properties `ps`, in this order. -/
def Occurs (ps : List (α → Prop)) (l : List α) : Prop :=
  ∃ xs, xs.Sublist l ∧ List.Forall₂ (fun p x => p x) ps xs

theorem occurs_nil (l : List α) : Occurs [] l := ⟨[], List.nil_sublist l, List.Forall₂.nil⟩

theorem not_occurs_nil (p : α → Prop) (ps : List (α → Prop)) : ¬ Occurs (p :: ps) [] := by
  intro ⟨xs, hsub, hall⟩
  rw [List.sublist_nil.mp hsub] at hall
  cases hall

theorem Occurs.of_prefix {l' : List α} (h : Occurs ps l) (hl : l <+: l') : Occurs ps l' := by
  obtain ⟨xs, hsub, hall⟩ := h
  exact ⟨xs, hsub.trans hl.sublist, hall⟩

/-- Without the last property. -/
theorem Occurs.of_concat (ps : List (α → Prop)) (h : Occurs (ps ++ [p]) l) : Occurs ps l := by
  obtain ⟨xs, hsub, hall⟩ := h
  have hps := List.forall₂_take ps.length hall
  rw [List.take_left] at hps
  exact ⟨xs.take ps.length, (List.take_sublist ..).trans hsub, hps⟩

/-- The last property is met by an element before the last one, or by the last one. -/
theorem occurs_concat_iff (ps : List (α → Prop)) (p : α → Prop) (l : List α) (a : α) :
    Occurs (ps ++ [p]) (l ++ [a]) ↔ Occurs (ps ++ [p]) l ∨ (Occurs ps l ∧ p a) := by
  constructor
  · intro ⟨xs, hsub, hall⟩
    obtain ⟨ys, zs, rfl, hys, hzs⟩ := List.sublist_append_iff.mp hsub
    rcases List.sublist_singleton.mp hzs with rfl | rfl
    · left
      rw [List.append_nil] at hall
      exact ⟨ys, hys, hall⟩
    · right
      have hrev := List.rel_reverse hall
      rw [List.reverse_append, List.reverse_append] at hrev
      cases hrev with
      | cons ha hrest => exact ⟨⟨ys, hys, List.forall₂_reverse_iff.mp hrest⟩, ha⟩
  · rintro (h | ⟨⟨xs, hsub, hall⟩, ha⟩)
    · exact h.of_prefix (List.prefix_append l [a])
    · exact ⟨xs ++ [a], hsub.append (List.Sublist.refl [a]), List.rel_append hall (List.Forall₂.cons ha List.Forall₂.nil)⟩

theorem occurs_concat_of_not (ps : List (α → Prop)) (l : List α) (ha : ¬ p a) :
    Occurs (ps ++ [p]) (l ++ [a]) ↔ Occurs (ps ++ [p]) l := by
  rw [occurs_concat_iff]
  simp [ha]

theorem occurs_concat_of (ps : List (α → Prop)) (l : List α) (ha : p a) : Occurs (ps ++ [p]) (l ++ [a]) ↔ Occurs ps l := by
  rw [occurs_concat_iff]
  constructor
  · rintro (h | ⟨h, -⟩)
    · exact Occurs.of_concat ps h
    · exact h
  · intro h
    exact Or.inr ⟨h, ha⟩

/-- Where no element added has the last property. -/
theorem occurs_append_of_forall_not (ps : List (α → Prop)) (l : List α) {l' : List α} (hl : ∀ a ∈ l', ¬ p a) :
    Occurs (ps ++ [p]) (l ++ l') ↔ Occurs (ps ++ [p]) l := by
  induction l' using List.reverseRecOn with
  | nil => rw [List.append_nil]
  | append_singleton l' a ih =>
    rw [List.forall_mem_append, List.forall_mem_singleton] at hl
    rw [← List.append_assoc, occurs_concat_of_not ps _ hl.2, ih hl.1]

/-- A property that no element has. -/
theorem not_occurs_of_forall_not (ps : List (α → Prop)) (hl : ∀ a ∈ l, ¬ p a) : ¬ Occurs (ps ++ [p]) l := by
  rw [← List.nil_append l, occurs_append_of_forall_not ps [] hl]
  intro ⟨xs, hsub, hall⟩
  have hlen := hall.length_eq
  rw [List.sublist_nil.mp hsub, List.length_append] at hlen
  cases hlen

end VectorDb
