import VectorDb.AnnoyForest

/-!
# Building ends

* `flips`, `again`, `Fair` : the sides that the next bits choose, and a generator that splits any list sooner or later;
* `randomSides_mono`, `makeTree_mono`, `buildTrees_mono` : more rounds change nothing;
* `exists_randomSides`, `exists_makeTree`, `exists_buildTrees` : with a fair generator, some number of rounds is enough;
* `exists_treesOf` : an index with items is built.
-/

namespace VectorDb
namespace Annoy
open Std (ExtTreeMap)

variable {F V R : Type} [Random R]

/-! ## Fair bits -/

/-- How many of the next `n` bits choose each side. -/
def flips : Nat → R → (Nat × Nat) × R
  | 0, random => ((0, 0), random)
  | n + 1, random =>
    let (side, random) := Random.flip random
    let (rest, random) := flips n random
    (if side then (rest.1, rest.2 + 1) else (rest.1 + 1, rest.2), random)

/-- The generator after `m` rounds of `n` bits. -/
def again (n : Nat) : Nat → R → R
  | 0, random => random
  | m + 1, random => again n m (flips n random).2

/-- Whatever the generator's state is, some round of `n` bits puts something on both sides. -/
def Fair (R : Type) [Random R] (fp : Formats) : Prop :=
  ∀ n, 2 ≤ n → ∀ random : R, ∃ m,
    let counts := (flips n (again n m random)).1
    fp.lopsided counts.1 counts.2 = false

theorem divide_chooseFlip_cons (j : Nat) (indices : List Nat) (random : R) :
    divide chooseFlip (j :: indices) random =
      let (side, random) := Random.flip random
      let (rest, random) := divide chooseFlip indices random
      (if side then (rest.1, j :: rest.2) else (j :: rest.1, rest.2), random) := by
  conv_lhs => unfold divide chooseFlip
  dsimp only
  cases (Random.flip random).1 with
  | false => rfl
  | true => rfl

/-- How many indices the sides get depends on the bits alone. -/
theorem divide_chooseFlip (indices : List Nat) (random : R) :
    (divide chooseFlip indices random).1.1.length = (flips indices.length random).1.1 ∧
      (divide chooseFlip indices random).1.2.length = (flips indices.length random).1.2 ∧
      (divide chooseFlip indices random).2 = (flips indices.length random).2 := by
  induction indices generalizing random with
  | nil => exact ⟨rfl, rfl, rfl⟩
  | cons j indices ih =>
    obtain ⟨hleft, hright, hrandom⟩ := ih (Random.flip random).2
    rw [divide_chooseFlip_cons, List.length_cons]
    unfold flips
    dsimp only
    rw [← hleft, ← hright, ← hrandom]
    cases (Random.flip random).1 with
    | false => exact ⟨rfl, rfl, rfl⟩
    | true => exact ⟨rfl, rfl, rfl⟩

/-! ## More rounds -/

section
variable {D : Distance F V R} {fp : Formats} {K nItems rounds rounds' : Nat}

theorem randomSides_mono (hle : rounds ≤ rounds') {indices : List Nat} {s : Sides V} {random : R} {x : Sides V × R}
    (h : randomSides D fp indices rounds s random = some x) : randomSides D fp indices rounds' s random = some x := by
  induction rounds generalizing rounds' s random with
  | zero =>
    unfold randomSides at h
    split at h
    · cases h
    · next hno =>
      cases rounds' with
      | zero =>
        unfold randomSides
        rw [if_neg hno]
        exact h
      | succ rounds' =>
        unfold randomSides
        rw [if_neg hno]
        exact h
  | succ rounds ih =>
    obtain ⟨rounds', rfl⟩ : ∃ r, rounds' = r + 1 := ⟨rounds' - 1, by omega⟩
    unfold randomSides at h ⊢
    split at h
    · next hyes =>
      rw [if_pos hyes]
      exact ih (Nat.le_of_succ_le_succ hle) h
    · next hno =>
      rw [if_neg hno]
      exact h

theorem makeTree_mono (hle : rounds ≤ rounds') {fuel : Nat} {indices : List Nat} {isRoot : Bool} {memory : List (Node V)}
    {random : R} {x : Nat × List (Node V) × R}
    (h : makeTree D fp K nItems rounds fuel indices isRoot memory random = some x) :
    makeTree D fp K nItems rounds' fuel indices isRoot memory random = some x := by
  induction fuel generalizing indices isRoot memory random x with
  | zero => cases h
  | succ fuel ih =>
    unfold makeTree at h ⊢
    split at h
    · next hone =>
      rw [if_pos hone]
      exact h
    · next hone =>
      rw [if_neg hone]
      split at h
      · next hfew =>
        rw [if_pos hfew]
        exact h
      · next hmany =>
        rw [if_neg hmany]
        obtain ⟨s, hs, h⟩ := Option.bind_eq_some_iff.mp h
        obtain ⟨c, hc, h⟩ := Option.bind_eq_some_iff.mp h
        obtain ⟨c', hc', h⟩ := Option.bind_eq_some_iff.mp h
        refine Option.bind_eq_some_iff.mpr ⟨s, randomSides_mono hle hs, ?_⟩
        refine Option.bind_eq_some_iff.mpr ⟨c, ih hc, ?_⟩
        exact Option.bind_eq_some_iff.mpr ⟨c', ih hc', h⟩

theorem buildTrees_mono (hle : rounds ≤ rounds') {q : Int32} {fuel : Nat} {memory : List (Node V)} {roots : List Nat}
    {random : R} {x : List (Node V) × List Nat}
    (h : buildTrees D fp K rounds q nItems fuel memory roots random = some x) :
    buildTrees D fp K rounds' q nItems fuel memory roots random = some x := by
  induction fuel generalizing memory roots random with
  | zero => exact h
  | succ fuel ih =>
    unfold buildTrees at h ⊢
    split at h
    · next henough =>
      rw [if_pos henough]
      exact h
    · next hmore =>
      rw [if_neg hmore]
      obtain ⟨made, hmade, h⟩ := Option.bind_eq_some_iff.mp h
      exact Option.bind_eq_some_iff.mpr ⟨made, makeTree_mono hle hmade, ih h⟩

/-! ## Enough rounds -/

theorem randomSides_of_split (indices : List Nat) (s : Sides V) (rounds : Nat) (random : R)
    (h : fp.lopsided s.left.length s.right.length = false) : randomSides D fp indices rounds s random = some (s, random) := by
  cases rounds with
  | zero =>
    unfold randomSides
    rw [h, if_neg Bool.false_ne_true]
  | succ rounds =>
    unfold randomSides
    rw [h, if_neg Bool.false_ne_true]

theorem randomSides_succ {indices : List Nat} {s : Sides V} (h : fp.lopsided s.left.length s.right.length = true)
    (rounds : Nat) (random : R) : randomSides D fp indices (rounds + 1) s random =
      randomSides D fp indices rounds
        ⟨D.clear s.plane, (divide chooseFlip indices random).1.1, (divide chooseFlip indices random).1.2⟩
        (divide chooseFlip indices random).2 := by
  conv_lhs => unfold randomSides
  rw [if_pos h]

/-- The sides are split after the rounds that the generator needs. -/
theorem exists_randomSides (hfair : Fair R fp) {indices : List Nat} (hlen : 2 ≤ indices.length) (s : Sides V) (random : R) :
    ∃ rounds x, randomSides D fp indices rounds s random = some x := by
  obtain ⟨m, hm⟩ := hfair indices.length hlen random
  dsimp only at hm
  induction m generalizing s random with
  | zero =>
    obtain ⟨hleft, hright, -⟩ := divide_chooseFlip indices random
    unfold again at hm
    rw [← hleft, ← hright] at hm
    by_cases hno : fp.lopsided s.left.length s.right.length = true
    · have hnext := randomSides_of_split (D := D) indices
        ⟨D.clear s.plane, (divide chooseFlip indices random).1.1, (divide chooseFlip indices random).1.2⟩ 0
        (divide chooseFlip indices random).2 hm
      exact ⟨1, _, (randomSides_succ hno 0 random).trans hnext⟩
    · exact ⟨0, _, randomSides_of_split indices s 0 random (eq_false_of_ne_true hno)⟩
  | succ m ih =>
    obtain ⟨-, -, hrandom⟩ := divide_chooseFlip indices random
    unfold again at hm
    rw [← hrandom] at hm
    by_cases hno : fp.lopsided s.left.length s.right.length = true
    · obtain ⟨rounds, x, hx⟩ := ih ⟨D.clear s.plane, (divide chooseFlip indices random).1.1,
        (divide chooseFlip indices random).1.2⟩ _ hm
      exact ⟨rounds + 1, x, (randomSides_succ hno rounds random).trans hx⟩
    · exact ⟨0, _, randomSides_of_split indices s 0 random (eq_false_of_ne_true hno)⟩

/-- A node over the trees of two sides. -/
theorem makeTree_of_split {fuel : Nat} {indices : List Nat} {isRoot : Bool} {memory m₁ m₂ : List (Node V)}
    {random r₀ r₁ r₂ : R} {s : Sides V} {c c' : Nat} (hone : ¬ (indices.length = 1 ∧ isRoot = false))
    (hfew : ¬ (indices.length ≤ K ∧ (isRoot = false ∨ nItems ≤ K ∨ indices.length = 1)))
    (hs : randomSides D fp indices rounds (attempts D fp memory indices 2 random).1
      (attempts D fp memory indices 2 random).2 = some (s, r₀))
    (hc : makeTree D fp K nItems rounds fuel (if s.right.length < s.left.length then s.right else s.left) false memory r₀ =
      some (c, m₁, r₁))
    (hc' : makeTree D fp K nItems rounds fuel (if s.right.length < s.left.length then s.left else s.right) false m₁ r₁ =
      some (c', m₂, r₂)) :
    ∃ x, makeTree D fp K nItems rounds (fuel + 1) indices isRoot memory random = some x := by
  unfold makeTree
  rw [if_neg hone, if_neg hfew]
  simp [hs, hc, hc']

/-- **A tree is made**, after the rounds that its splits need. -/
theorem exists_makeTree (hfair : Fair R fp) (hK : 1 ≤ K) {fuel : Nat} {indices : List Nat} (isRoot : Bool)
    {memory : List (Node V)} (random : R) (hfuel : indices.length < fuel) (hne : indices ≠ [])
    (hitems : ∀ j ∈ indices, IsItem nItems memory j) (hlarge : indices.length ≤ 2 ^ 63) (hn : nItems ≤ memory.length) :
    ∃ rounds x, makeTree D fp K nItems rounds fuel indices isRoot memory random = some x := by
  induction fuel generalizing indices isRoot memory random with
  | zero => exact absurd hfuel (Nat.not_lt_zero _)
  | succ fuel ih =>
    have hpos := List.length_pos_iff.mpr hne
    by_cases hone : indices.length = 1 ∧ isRoot = false
    · refine ⟨0, ?_⟩
      unfold makeTree
      rw [if_pos hone]
      exact ⟨_, rfl⟩
    by_cases hfew : indices.length ≤ K ∧ (isRoot = false ∨ nItems ≤ K ∨ indices.length = 1)
    · refine ⟨0, ?_⟩
      unfold makeTree
      rw [if_neg hone, if_pos hfew]
      exact ⟨_, rfl⟩
    -- a list of one is not split
    have htwo : 2 ≤ indices.length := by
      by_contra hlt
      have hlen : indices.length = 1 := by omega
      exact hfew ⟨by omega, Or.inr (Or.inr hlen)⟩
    have hmem : ∀ j ∈ indices, j < memory.length := fun j hj => (hitems j hj).1.trans_le hn
    have hattempts := split_attempts D fp hmem 2 random
    obtain ⟨rounds₁, ⟨s, random₁⟩, hs⟩ := exists_randomSides (D := D) hfair htwo (attempts D fp memory indices 2 random).1
      (attempts D fp memory indices 2 random).2
    obtain ⟨hsplit, hno⟩ := split_randomSides D fp hattempts hs
    obtain ⟨hleft, hright⟩ := hsplit.ne_nil fp hno hne hlarge
    obtain ⟨first, hfirst⟩ : ∃ first, (if s.right.length < s.left.length then s.right else s.left) = first := ⟨_, rfl⟩
    obtain ⟨second, hsecond⟩ : ∃ second, (if s.right.length < s.left.length then s.left else s.right) = second := ⟨_, rfl⟩
    have hperm : (first ++ second).Perm indices := by
      rw [← hfirst, ← hsecond]
      simpa using hsplit.perm_flip (decide (s.right.length < s.left.length))
    have hfirst' : first ≠ [] := by
      rw [← hfirst]
      split <;> assumption
    have hsecond' : second ≠ [] := by
      rw [← hsecond]
      split <;> assumption
    have hlen := hperm.length_eq
    rw [List.length_append] at hlen
    have hpos₁ := List.length_pos_iff.mpr hfirst'
    have hpos₂ := List.length_pos_iff.mpr hsecond'
    have hsub : ∀ j ∈ first ++ second, j ∈ indices := fun j hj => hperm.subset hj
    rw [List.forall_mem_append] at hsub
    -- the first tree, and the second over the nodes that it leaves
    obtain ⟨rounds₂, ⟨c, m₁, r₁⟩, hc⟩ := ih false random₁ (by omega) hfirst' (fun j hj => hitems j (hsub.1 j hj)) (by omega) hn
    obtain ⟨⟨added, rfl, -⟩, -⟩ := makeTree_inner hc (fun j hj => hitems j (hsub.1 j hj)) hfirst' (by omega) hn
    obtain ⟨rounds₃, ⟨c', m₂, r₂⟩, hc'⟩ := ih false r₁ (by omega) hsecond'
      (fun j hj => (hitems j (hsub.2 j hj)).append nItems added) (by omega) (by rw [List.length_append]; omega)
    rw [← hfirst] at hc
    rw [← hsecond] at hc'
    have hle : rounds₁ ≤ rounds₁ + rounds₂ + rounds₃ ∧ rounds₂ ≤ rounds₁ + rounds₂ + rounds₃ ∧
        rounds₃ ≤ rounds₁ + rounds₂ + rounds₃ := by omega
    exact ⟨rounds₁ + rounds₂ + rounds₃, makeTree_of_split hone hfew (randomSides_mono hle.1 hs) (makeTree_mono hle.2.1 hc)
      (makeTree_mono hle.2.2 hc')⟩

/-- The trees that are still to be made: at least one node each, where nodes are counted. -/
theorem exists_buildTrees (hfair : Fair R fp) (hK : 1 ≤ K) (hpos : 0 < nItems) (hlarge : nItems ≤ 2 ^ 63) (q : Int32)
    (fuel : Nat) {indices : List Nat} {memory : List (Node V)} {roots : List Nat} (random : R)
    (h : Grown K nItems indices memory roots)
    (hfuel : if q = -1 then 2 * nItems ≤ memory.length + fuel else VectorSimilarity.toSizeT q.toInt ≤ roots.length + fuel) :
    ∃ rounds x, buildTrees D fp K rounds q nItems fuel memory roots random = some x := by
  induction fuel generalizing memory roots random with
  | zero =>
    have henough : enough q nItems memory.length roots.length = true := by
      unfold enough
      rw [Nat.add_zero, Nat.add_zero] at hfuel
      split at hfuel
      · next hall => rw [if_pos hall, decide_eq_true hfuel]
      · next hall => rw [if_neg hall, decide_eq_true hfuel]
    refine ⟨0, (memory, roots), ?_⟩
    unfold buildTrees
    rw [if_pos henough]
  | succ fuel ih =>
    by_cases hmore : enough q nItems memory.length roots.length = true
    · refine ⟨0, (memory, roots), ?_⟩
      unfold buildTrees
      rw [if_pos hmore]
    have hindices := h.slots.indices
    rw [h.indices_eq] at hindices
    have hne : indices ≠ [] := List.ne_nil_of_mem (hindices.last hpos)
    obtain ⟨rounds₁, ⟨root, memory₁, random₁⟩, hmake⟩ := exists_makeTree (D := D) hfair hK true random
      (Nat.lt_succ_self indices.length) hne hindices.item (hindices.length_le.trans hlarge) hindices.le_length
    obtain ⟨hgrown, hlt⟩ := h.step hK hpos hlarge hmake
    have hfuel₁ : if q = -1 then 2 * nItems ≤ memory₁.length + fuel
        else VectorSimilarity.toSizeT q.toInt ≤ (roots ++ [root]).length + fuel := by
      rw [List.length_append, List.length_singleton]
      split at hfuel
      · next hall =>
        rw [if_pos hall]
        omega
      · next hall =>
        rw [if_neg hall]
        omega
    obtain ⟨rounds₂, x, hx⟩ := ih random₁ hgrown hfuel₁
    refine ⟨rounds₁ + rounds₂, x, ?_⟩
    unfold buildTrees
    rw [if_neg hmore]
    dsimp only
    rw [h.indices_eq]
    exact Option.bind_eq_some_iff.mpr ⟨_, makeTree_mono (Nat.le_add_right _ _) hmake,
      buildTrees_mono (Nat.le_add_left _ _) hx⟩

/-- The build of an index with items returns. -/
theorem exists_build (D : Distance F V R) (hfair : Fair R fp) (hK : 1 ≤ K) {slots : List (Node V)}
    (hslots : Slots slots.length slots) (hne : slots ≠ []) (hlarge : slots.length ≤ 2 ^ 63) {q : Int32} (hq : -1 ≤ q) :
    ∃ rounds trees, build D fp K rounds q slots = some trees := by
  have hvalues : (D.preprocess (slots.map Node.value)).length = slots.length := by
    rw [D.length_preprocess, List.length_map]
  have hlen := length_setValues hvalues
  have hstart := grown_nil (K := K) (hslots.congr (shape_setValues hvalues).symm) hlen
  have hfuel : if q = -1 then
      2 * slots.length ≤ (setValues slots (D.preprocess (slots.map Node.value))).length +
        (if q = -1 then slots.length else q.toInt.toNat)
      else VectorSimilarity.toSizeT q.toInt ≤ ([] : List Nat).length +
        (if q = -1 then slots.length else q.toInt.toNat) := by
    rw [hlen, List.length_nil]
    split
    · omega
    · next hall =>
      rw [Int32.le_iff_toInt_le] at hq
      have hone : (-1 : Int32).toInt = -1 := rfl
      have hint : q.toInt ≠ -1 := fun heq => hall (Int32.toInt_inj.mp heq)
      have hlt := q.toInt_lt
      unfold VectorSimilarity.toSizeT
      omega
  obtain ⟨rounds, x, hx⟩ := exists_buildTrees (D := D) hfair hK (List.length_pos_iff.mpr hne) hlarge q
    (if q = -1 then slots.length else q.toInt.toNat) Random.init hstart hfuel
  exact ⟨rounds, _, Option.bind_eq_some_iff.mpr ⟨x, hx, rfl⟩⟩

end

/-- **Building ends**: with a fair generator, the trees over the items are made after some number of rounds. -/
theorem exists_treesOf {D : Type} [FloatArith F] [FloatArith D] [LinearOrder F] (M : FloatLibs F D) {fp : Formats}
    (hfair : Fair R fp) (metric : AnnoyIndex.MetricType) (f : Nat) {items : ExtTreeMap Int64 (List F)}
    (hitems : ∀ id : Int64, id ∈ items → 0 ≤ id) (hne : items ≠ ∅) {q : Int32} (hq : -1 ≤ q) :
    ∃ rounds trees, treesOf R M fp rounds metric f items q = some trees := by
  have hslots : slotsOf metric f items ≠ [] := by
    rw [← List.length_pos_iff, length_slotsOf]
    exact nItemsOf_pos hne
  exact exists_build _ hfair (one_le_maxDescendants metric f) (slots_slotsOf hitems) hslots
    (length_slotsOf.trans_le (nItemsOf_le items)) hq

/-! ## Alternating bits -/

/-- One bit after the other. -/
structure Alternating where
  next : Bool

instance : Random Alternating where
  init := ⟨false⟩
  kiss random := (if random.next then 1 else 0, ⟨!random.next⟩)

theorem flip_alternating (b : Bool) : Random.flip (⟨b⟩ : Alternating) = (b, ⟨!b⟩) := by
  cases b <;> rfl

/-- The sides get as many, or one has one more. -/
theorem flips_alternating (n : Nat) (b : Bool) : (flips n (⟨b⟩ : Alternating)).1 =
    if b then (n / 2, (n + 1) / 2) else ((n + 1) / 2, n / 2) := by
  induction n generalizing b with
  | zero => cases b <;> rfl
  | succ n ih =>
    unfold flips
    rw [flip_alternating]
    dsimp only
    rw [ih]
    cases b with
    | false =>
      simp
      omega
    | true =>
      simp
      omega

theorem exactFormats_lopsided {left right : Nat} (hl : 1 ≤ left) (hr : 1 ≤ right) (hle : left ≤ right + 1)
    (hge : right ≤ left + 1) : exactFormats.lopsided left right = false := by
  unfold Formats.lopsided Formats.splitImbalance exactFormats exactRounding
  dsimp only
  rw [decide_eq_false_iff_not, not_lt, max_le_iff]
  have hl' : (1 : ℚ) ≤ left := by exact_mod_cast hl
  have hr' : (1 : ℚ) ≤ right := by exact_mod_cast hr
  have hle' : (left : ℚ) ≤ right + 1 := by exact_mod_cast hle
  have hge' : (right : ℚ) ≤ left + 1 := by exact_mod_cast hge
  have hpos : (0 : ℚ) < left + right + 1 / 10 ^ 9 := by positivity
  constructor
  · rw [div_le_iff₀ hpos]
    linarith
  · rw [sub_le_comm, le_div_iff₀ hpos]
    linarith

theorem fair_alternating : Fair Alternating exactFormats := by
  intro n hn random
  refine ⟨0, ?_⟩
  unfold again
  obtain ⟨b⟩ := random
  rw [flips_alternating]
  cases b with
  | false => exact exactFormats_lopsided (by simp; omega) (by simp; omega) (by simp; omega) (by simp; omega)
  | true => exact exactFormats_lopsided (by simp; omega) (by simp; omega) (by simp; omega) (by simp; omega)

theorem exists_treesOf_two : ∃ rounds trees, treesOf Alternating intFloatLibs exactFormats rounds .l2 1
    (((Items.empty : Items Int 1).insert 0 [0] (by decide) rfl).insert 3 [9] (by decide) rfl).slots 10 = some trees := by
  refine exists_treesOf intFloatLibs fair_alternating .l2 1 (Items.nonneg_of_mem _) (fun hempty => ?_) (by decide)
  have hmem : (3 : Int64) ∈ (((Items.empty : Items Int 1).insert 0 [0] (by decide) rfl).insert 3 [9] (by decide) rfl).slots :=
    ExtTreeMap.mem_insert_self
  rw [hempty] at hmem
  exact ExtTreeMap.not_mem_empty hmem

end Annoy
end VectorDb
