import VectorDb.Lib.Text

/-!
# Ranges of a sorted list, and their pages

* `compare_eq_lt_iff`, `prefix_of_le_of_le` : the bytewise order, and what lies between a string and one that it starts;
* `takeWhile_dropWhile_eq_filter` : in a sorted list, a seek and a run up to the first element outside give the whole range;
* `page` : the elements of one page, counted from 1; `flatMap_page`, `page_ne_nil_iff` : pages one after the other are the
  list, up to the first empty one.
-/

namespace VectorDb

/-! ## Bytes -/

theorem compare_eq_lt_iff (a b : Bytes) : compare a b = .lt ↔ a < b := by
  show List.compareLex compare a b = .lt ↔ a < b
  induction a generalizing b with
  | nil => cases b <;> simp [List.compareLex]
  | cons x a ih =>
    cases b with
    | nil => simp [List.compareLex]
    | cons y b =>
      rw [List.compareLex_cons_cons, List.cons_lt_cons_iff, Ordering.then_eq_lt, ih, Std.compare_eq_lt, Std.compare_eq_iff_eq]

/-- What lies between a string and one that it starts begins with it too. -/
theorem prefix_of_le_of_le {p b c : Bytes} (h : p <+: c) (hpb : p ≤ b) (hbc : b ≤ c) : p <+: b := by
  induction p generalizing b c with
  | nil => exact List.nil_prefix
  | cons x p ih =>
    obtain ⟨t, rfl⟩ := h
    cases b with
    | nil => exact absurd hpb (by simp)
    | cons y b =>
      rw [List.cons_append, List.cons_le_cons_iff] at hbc
      rw [List.cons_le_cons_iff] at hpb
      have hxy : x = y := by
        rcases hpb with hlt | ⟨heq, -⟩
        · rcases hbc with hlt' | ⟨heq, -⟩
          · exact absurd hlt (UInt8.lt_asymm hlt')
          · exact heq.symm
        · exact heq
      subst hxy
      rw [List.cons_prefix_cons]
      refine ⟨rfl, ih (List.prefix_append p t) ?_ ?_⟩
      · exact (hpb.resolve_left (UInt8.lt_irrefl x)).2
      · exact (hbc.resolve_left (UInt8.lt_irrefl x)).2

/-! ## Ranges -/

section
variable {α : Type} {R : α → α → Prop} {below inside : α → Bool} {l : List α}

theorem takeWhile_eq_filter (hl : l.Pairwise R)
    (hout : ∀ a ∈ l, ∀ b ∈ l, R a b → inside a = false → inside b = false) : l.takeWhile inside = l.filter inside := by
  induction l with
  | nil => rfl
  | cons a l ih =>
    rw [List.pairwise_cons] at hl
    cases ha : inside a with
    | true =>
      rw [List.takeWhile_cons_of_pos ha, List.filter_cons_of_pos ha, ih hl.2]
      intro b hb c hc
      exact hout b (List.mem_cons_of_mem a hb) c (List.mem_cons_of_mem a hc)
    | false =>
      rw [List.takeWhile_cons_of_neg (by simp [ha]), List.filter_cons_of_neg (by simp [ha])]
      symm
      rw [List.filter_eq_nil_iff]
      intro b hb
      rw [hout a List.mem_cons_self b (List.mem_cons_of_mem a hb) (hl.1 b hb) ha]
      decide

/-- **A range of a sorted list**: skip what is below, stop at the first element outside. -/
theorem takeWhile_dropWhile_eq_filter (hl : l.Pairwise R) (hbelow : ∀ a b, R a b → below b = true → below a = true)
    (hout : ∀ a, below a = true → inside a = false)
    (hconvex : ∀ a b, R a b → below a = false → inside a = false → inside b = false) :
    (l.dropWhile below).takeWhile inside = l.filter inside := by
  induction l with
  | nil => rfl
  | cons a l ih =>
    have hcons := hl
    rw [List.pairwise_cons] at hl
    cases ha : below a with
    | true => rw [List.dropWhile_cons_of_pos ha, List.filter_cons_of_neg (by simp [hout a ha]), ih hl.2]
    | false =>
      rw [List.dropWhile_cons_of_neg (by simp [ha])]
      -- nothing after `a` is below either
      have hnot : ∀ b ∈ a :: l, below b = false := by
        intro b hb
        rcases List.mem_cons.mp hb with rfl | hb
        · exact ha
        · cases hbb : below b with
          | false => rfl
          | true => exact (hbelow a b (hl.1 b hb) hbb).symm.trans ha
      exact takeWhile_eq_filter hcons fun b hb c _ hbc => hconvex b c hbc (hnot b hb)

/-! ## Pages -/

/-- Page `n` of a list, counted from 1. -/
def page (l : List α) (size n : Nat) : List α := (l.drop ((n - 1) * size)).take size

theorem page_ne_nil_iff {size : Nat} (hs : 0 < size) (n : Nat) : page l size (n + 1) ≠ [] ↔ n * size < l.length := by
  rw [page, Nat.add_sub_cancel, ← List.length_pos_iff, List.length_take, List.length_drop]
  omega

/-- The first `n` pages. -/
theorem flatMap_page (l : List α) (size n : Nat) : (List.range' 1 n).flatMap (page l size) = l.take (n * size) := by
  induction n with
  | zero => simp
  | succ n ih =>
    rw [List.range'_1_concat, List.flatMap_append, ih, List.flatMap_singleton, page, Nat.add_sub_cancel_left, Nat.add_mul,
      Nat.one_mul, List.take_add]

end

end VectorDb
