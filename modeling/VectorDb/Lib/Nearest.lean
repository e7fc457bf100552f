import Mathlib

/-!
# The k nearest elements of a list

* `Nearest dist k all found` : `found` is a choice of `k` elements of `all` (or of all, where there are fewer), nearest
  first, with nothing nearer left out;
* `Nearest.mem`, `Nearest.nodup_map`, `Nearest.le_of_notMem` : what follows for the elements found and left out;
* `Nearest.perm_of_le` : where there are at most `k` elements, all of them are found;
* `nearest_takeNearest` : the first `k` of the sorted list are such a choice;
* `takeNearest_filter`, `nearest_filter_iff` : filters before and after the choice;
* `takeNearest_perm`, `takeNearest_map` : the elements in another order, or under other names.
-/

namespace VectorDb

variable {α β κ : Type} [LinearOrder β]

/-- `found` holds the `k` nearest elements of `all`, nearest first. -/
structure Nearest (dist : α → β) (k : Nat) (all found : List α) : Prop where
  length : found.length = min k all.length
  sorted : found.Pairwise fun a b => dist a ≤ dist b
  exists_rest : ∃ rest, (found ++ rest).Perm all ∧ ∀ a ∈ found, ∀ b ∈ rest, dist a ≤ dist b

namespace Nearest
variable {dist : α → β} {k : Nat} {all found : List α}

theorem mem (h : Nearest dist k all found) {a : α} (ha : a ∈ found) : a ∈ all := by
  obtain ⟨rest, hperm, -⟩ := h.exists_rest
  exact hperm.subset (List.mem_append_left rest ha)

/-- Distinct keys stay distinct. -/
theorem nodup_map (h : Nearest dist k all found) {key : α → κ} (hall : (all.map key).Nodup) : (found.map key).Nodup := by
  obtain ⟨rest, hperm, -⟩ := h.exists_rest
  have := (hperm.map key).nodup_iff.mpr hall
  rw [List.map_append] at this
  exact this.of_append_left

/-- What is left out is not nearer than what is found. -/
theorem le_of_notMem (h : Nearest dist k all found) {a b : α} (ha : a ∈ found) (hb : b ∈ all) (hnb : b ∉ found) :
    dist a ≤ dist b := by
  obtain ⟨rest, hperm, hle⟩ := h.exists_rest
  rcases List.mem_append.mp (hperm.symm.subset hb) with hf | hr
  · exact absurd hf hnb
  · exact hle a ha b hr

/-- Where there are at most `k` elements, nothing is left out. -/
theorem perm_of_le (h : Nearest dist k all found) (hle : all.length ≤ k) : found.Perm all := by
  obtain ⟨rest, hperm, -⟩ := h.exists_rest
  have hlen := hperm.length_eq
  rw [List.length_append, h.length, Nat.min_eq_right hle] at hlen
  obtain rfl : rest = [] := List.eq_nil_of_length_eq_zero (by omega)
  rwa [List.append_nil] at hperm

end Nearest

/-- The first `k` elements of the list sorted by distance. -/
def takeNearest (dist : α → β) (k : Nat) (all : List α) : List α :=
  (all.insertionSort fun a b => dist a ≤ dist b).take k

theorem pairwise_insertionSort (dist : α → β) (all : List α) :
    (all.insertionSort fun a b => dist a ≤ dist b).Pairwise fun a b => dist a ≤ dist b := by
  have htotal : Std.Total fun a b : α => dist a ≤ dist b := ⟨fun a b => le_total _ _⟩
  have htrans : IsTrans α fun a b => dist a ≤ dist b := ⟨fun _ _ _ => le_trans⟩
  exact List.pairwise_insertionSort _ all

/-- The first `k` elements of a sorted list. -/
theorem nearest_take {dist : α → β} {all sorted : List α} (k : Nat) (hperm : sorted.Perm all)
    (hsort : sorted.Pairwise fun a b => dist a ≤ dist b) : Nearest dist k all (sorted.take k) := by
  have hsplit := List.take_append_drop k sorted
  refine ⟨?_, hsort.sublist (List.take_sublist _ _), _, hsplit ▸ hperm, ?_⟩
  · rw [List.length_take, hperm.length_eq]
  · rw [← hsplit, List.pairwise_append] at hsort
    exact hsort.2.2

theorem nearest_takeNearest (dist : α → β) (k : Nat) (all : List α) : Nearest dist k all (takeNearest dist k all) :=
  nearest_take k (List.perm_insertionSort _ all) (pairwise_insertionSort dist all)

/-! ## Filters -/

section
variable {dist : α → β} {p : α → Bool} {all : List α}

/-- Where the distances tell the elements apart, a filter may come before or after the sort. -/
theorem insertionSort_filter (hinj : ∀ a ∈ all, ∀ b ∈ all, dist a = dist b → a = b) :
    ((all.filter p).insertionSort fun a b => dist a ≤ dist b) = (all.insertionSort fun a b => dist a ≤ dist b).filter p := by
  have hperm := List.perm_insertionSort (fun a b => dist a ≤ dist b) all
  have hfilter := List.perm_insertionSort (fun a b => dist a ≤ dist b) (all.filter p)
  refine List.Perm.eq_of_pairwise ?_ (pairwise_insertionSort dist _) ((pairwise_insertionSort dist all).filter p)
    (hfilter.trans (hperm.filter p).symm)
  intro a b ha hb hab hba
  have ha' : a ∈ all := List.mem_of_mem_filter (hfilter.subset ha)
  have hb' : b ∈ all := hperm.subset (List.mem_of_mem_filter hb)
  exact hinj a ha' b hb' (le_antisymm hab hba)

theorem take_filter_of_forall {l : List α} {k : Nat} (h : ∀ a ∈ l.take k, p a) : (l.filter p).take k = l.take k := by
  by_cases hk : k ≤ l.length
  · conv_lhs => rw [← List.take_append_drop k l]
    have hlen : (l.take k).length = k := List.length_take_of_le hk
    rw [List.filter_append, List.filter_eq_self.mpr h, List.take_left' hlen]
  · rw [List.take_of_length_le (by omega)] at h
    rw [List.filter_eq_self.mpr h]

/-- A filter that keeps the nearest elements does not change them. -/
theorem takeNearest_filter {k : Nat} (hinj : ∀ a ∈ all, ∀ b ∈ all, dist a = dist b → a = b)
    (h : ∀ a ∈ takeNearest dist k all, p a) : takeNearest dist k (all.filter p) = takeNearest dist k all := by
  unfold takeNearest at h ⊢
  rw [insertionSort_filter hinj, take_filter_of_forall h]

/-- Of the `n` nearest elements, the first `k` with a property are the `k` nearest with it exactly where there are enough
of them. -/
theorem nearest_filter_iff {γ : Type} [LinearOrder γ] {far : α → γ} (hmono : ∀ a b, dist a ≤ dist b → far a ≤ far b)
    (n k : Nat) : Nearest far k (all.filter p) (((takeNearest dist n all).filter p).take k) ↔
      min k (all.filter p).length ≤ ((takeNearest dist n all).filter p).length := by
  have hperm := (List.perm_insertionSort (fun a b => dist a ≤ dist b) all).filter p
  have hsort : ((all.insertionSort fun a b => dist a ≤ dist b).filter p).Pairwise fun a b => far a ≤ far b :=
    ((pairwise_insertionSort dist all).imp fun hab => hmono _ _ hab).filter p
  have hprefix : (takeNearest dist n all).filter p <+: (all.insertionSort fun a b => dist a ≤ dist b).filter p :=
    (List.take_prefix n _).filter p
  constructor
  · intro h
    have hlen := h.length
    rw [List.length_take] at hlen
    omega
  · intro h
    obtain ⟨rest, hrest⟩ := hprefix
    have hlen := hperm.length_eq
    rw [← hrest, List.length_append] at hlen
    have hnil : rest.take (k - ((takeNearest dist n all).filter p).length) = [] := by
      apply List.eq_nil_of_length_eq_zero
      rw [List.length_take]
      omega
    have htake : ((takeNearest dist n all).filter p).take k =
        ((all.insertionSort fun a b => dist a ≤ dist b).filter p).take k := by
      rw [← hrest, List.take_append, hnil, List.append_nil]
    rw [htake]
    exact nearest_take k hperm hsort

end

/-! ## Order and names -/

/-- The order of the list does not matter where the distances tell the elements apart. -/
theorem takeNearest_perm {dist : α → β} {all all' : List α} (h : all.Perm all')
    (hinj : ∀ a ∈ all, ∀ b ∈ all, dist a = dist b → a = b) (k : Nat) : takeNearest dist k all = takeNearest dist k all' := by
  unfold takeNearest
  congr 1
  have hperm := List.perm_insertionSort (fun a b => dist a ≤ dist b) all
  have hperm' := List.perm_insertionSort (fun a b => dist a ≤ dist b) all'
  refine List.Perm.eq_of_pairwise ?_ (pairwise_insertionSort dist all) (pairwise_insertionSort dist all')
    (hperm.trans (h.trans hperm'.symm))
  intro a b ha hb hab hba
  exact hinj a (hperm.subset ha) b (h.symm.subset (hperm'.subset hb)) (le_antisymm hab hba)

/-- Other names with distances of the same order. -/
theorem takeNearest_map {γ δ : Type} [LinearOrder γ] (dist : α → β) (dist' : δ → γ) (f : α → δ) (all : List α)
    (h : ∀ a ∈ all, ∀ b ∈ all, dist a ≤ dist b ↔ dist' (f a) ≤ dist' (f b)) (k : Nat) :
    takeNearest dist' k (all.map f) = (takeNearest dist k all).map f := by
  unfold takeNearest
  rw [← List.map_insertionSort _ _ f all h, List.map_take]

end VectorDb
