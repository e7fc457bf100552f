import VectorDb.AnnoyDistance
import VectorDb.Lib.BestFirst

/-!
# The trees of Annoy

* `Node`, `kids` : a node of `_nodes`, and what a reader takes it for: an item, a list of items, or a split;
* `splitImbalance` : `_split_imbalance`, rounded as `float` and `double` round;
* `divide`, `attempts`, `randomSides` : how the items of a node are put on two sides;
* `makeTree` : `_make_tree`;
* `lopsided_of_empty` : a side without items is too imbalanced;
* `makeTree_inner`, `makeTree_root` : the tree that is made has the items that were given, each once, and what was in
  `_nodes` stays;
* `exists_makeTree` : the recursion ends, where the random sides are ever balanced.
-/

namespace VectorDb
namespace Annoy

/-- `children` may be more than two: the ids of a node with few items go over its vector. -/
structure Node (V : Type) where
  nDescendants : Nat
  children : List Nat
  value : V
  deriving DecidableEq

/-! ## The balance of a split -/

/-- How a format rounds. The numbers here are neither so small nor so large that it loses more than its last bit. -/
structure Rounding where
  round : ℚ → ℚ
  round_zero : round 0 = 0
  abs_sub_le : ∀ x : ℚ, 1 / 2 ^ 100 ≤ x → x ≤ 2 ^ 100 → |round x - x| ≤ x / 2 ^ 20

/-- `float` and `double`. -/
structure Formats where
  single : Rounding
  double : Rounding

namespace Formats
variable (fp : Formats)

/-- `_split_imbalance`, of the sizes. -/
def splitImbalance (left right : Nat) : ℚ :=
  let ls := fp.single.round left
  let rs := fp.single.round right
  -- avoid 0/0
  let f := fp.single.round (fp.double.round (ls / fp.double.round (fp.double.round (ls + rs) + fp.double.round (1 / 10 ^ 9))))
  max f (fp.single.round (1 - f))

def balanced (left right : Nat) : Bool := decide (fp.splitImbalance left right < fp.double.round (95 / 100))

def lopsided (left right : Nat) : Bool := decide (fp.double.round (99 / 100) < fp.splitImbalance left right)

end Formats

/-- Numbers that are not rounded. -/
def exactRounding : Rounding where
  round x := x
  round_zero := rfl
  abs_sub_le x hlow _ := by
    have hpos : (0 : ℚ) < 1 / 2 ^ 100 := by positivity
    rw [sub_self, abs_zero]
    exact div_nonneg (hpos.le.trans hlow) (by positivity)

def exactFormats : Formats := ⟨exactRounding, exactRounding⟩

variable {F V R : Type} [Random R]

/-! ## Two sides -/

/-- The plane of a node, and `children_indices`. -/
structure Sides (V : Type) where
  plane : V
  left : List Nat
  right : List Nat

/-- Each index goes to the side that is chosen for it, if one is. -/
def divide (choose : Nat → R → Option Bool × R) : List Nat → R → (List Nat × List Nat) × R
  | [], random => (([], []), random)
  | j :: js, random =>
    let (side, random) := choose j random
    let (rest, random) := divide choose js random
    match side with
    | none => (rest, random)
    | some false => ((j :: rest.1, rest.2), random)
    | some true => ((rest.1, j :: rest.2), random)

variable (D : Distance F V R) (fp : Formats)

/-- By the plane, where there is a node. -/
def choosePlane (memory : List (Node V)) (plane : V) (j : Nat) (random : R) : Option Bool × R :=
  match memory[j]? with
  | none => (none, random)
  | some n =>
    let (side, random) := D.side plane n.value random
    (some side, random)

def chooseFlip (_ : Nat) (random : R) : Option Bool × R :=
  let (side, random) := Random.flip random
  (some side, random)

def attempt (memory : List (Node V)) (indices : List Nat) (random : R) : Sides V × R :=
  let children := indices.filterMap fun j => memory[j]?
  let (plane, random) := D.createSplit (children.map Node.value) random
  let (sides, random) := divide (choosePlane D memory plane) indices random
  (⟨plane, sides.1, sides.2⟩, random)

/-- One attempt, and more of them while the sides are not balanced. -/
def attempts (memory : List (Node V)) (indices : List Nat) : Nat → R → Sides V × R
  | 0, random => attempt D memory indices random
  | more + 1, random =>
    let (s, random) := attempt D memory indices random
    if fp.balanced s.left.length s.right.length then (s, random) else attempts memory indices more random

/-- The last option, for at most `rounds` rounds; `none` where the sides are still lopsided then. -/
def randomSides (indices : List Nat) : Nat → Sides V → R → Option (Sides V × R)
  | 0, s, random => if fp.lopsided s.left.length s.right.length then none else some (s, random)
  | rounds + 1, s, random =>
    if fp.lopsided s.left.length s.right.length then
      let (sides, random) := divide chooseFlip indices random
      randomSides indices rounds ⟨D.clear s.plane, sides.1, sides.2⟩ random
    else some (s, random)

/-! ## A tree -/

variable (K nItems rounds : Nat)

/-- `_make_tree`: the node's index, with `_nodes` (as far as it is in use) and the generator afterwards. `fuel` bounds the
depth. -/
def makeTree : Nat → List Nat → Bool → List (Node V) → R → Option (Nat × List (Node V) × R)
  | 0, _, _, _, _ => none
  | fuel + 1, indices, isRoot, memory, random =>
    if indices.length = 1 ∧ isRoot = false then some (indices.headD 0, memory, random)
    else if indices.length ≤ K ∧ (isRoot = false ∨ nItems ≤ K ∨ indices.length = 1) then
      -- the bytes behind the ids are zero
      let m : Node V := ⟨if isRoot then nItems else indices.length, indices ++ List.replicate (K - indices.length) 0, D.zero⟩
      some (memory.length, memory ++ [m], random)
    else do
      let (s, random) := attempts D fp memory indices 2 random
      let (s, random) ← randomSides D fp indices rounds s random
      -- the smaller child first
      let flip := s.right.length < s.left.length
      let (c, memory, random) ← makeTree fuel (if flip then s.right else s.left) false memory random
      let (c', memory, random) ← makeTree fuel (if flip then s.left else s.right) false memory random
      let m : Node V := ⟨if isRoot then nItems else indices.length, if flip then [c', c] else [c, c'], s.plane⟩
      some (memory.length, memory ++ [m], random)

/-- What `_get_all_nns` takes node `i` for. -/
def kids (K nItems : Nat) (nodes : List (Node V)) (i : Nat) : Option (List Nat ⊕ Nat × Nat) :=
  (nodes[i]?).map fun nd =>
    if nd.nDescendants = 1 ∧ i < nItems then .inl [i]
    else if nd.nDescendants ≤ K then .inl (nd.children.take nd.nDescendants)
    else .inr (nd.children.getD 0 0, nd.children.getD 1 0)

/-! ## An empty side -/

namespace Rounding

theorem bounds (r : Rounding) {x : ℚ} (hlow : 1 / 2 ^ 100 ≤ x) (hhigh : x ≤ 2 ^ 100) :
    x - x / 2 ^ 20 ≤ r.round x ∧ r.round x ≤ x + x / 2 ^ 20 := by
  have h := abs_le.mp (r.abs_sub_le x hlow hhigh)
  constructor
  · linarith [h.1]
  · linarith [h.2]

end Rounding

namespace Formats
variable (fp : Formats)

theorem round_limit_lt : fp.double.round (99 / 100) < 995 / 1000 := by
  have h := fp.double.bounds (x := 99 / 100) (by norm_num) (by norm_num)
  linarith [h.2]

theorem lt_imbalance_left {n : Nat} (hpos : 1 ≤ n) (hlarge : n ≤ 2 ^ 63) : 995 / 1000 < fp.splitImbalance n 0 := by
  have hn : (1 : ℚ) ≤ n := by exact_mod_cast hpos
  have hn' : (n : ℚ) ≤ 2 ^ 63 := by exact_mod_cast hlarge
  obtain ⟨hls, hls'⟩ := fp.single.bounds (x := n) (by norm_num; linarith) (hn'.trans (by norm_num))
  unfold splitImbalance
  dsimp only
  rw [Nat.cast_zero, fp.single.round_zero, add_zero]
  generalize fp.single.round n = ls at hls hls' ⊢
  obtain ⟨hsum, hsum'⟩ := fp.double.bounds (x := ls) (by norm_num; linarith) (by linarith)
  generalize fp.double.round ls = sum at hsum hsum' ⊢
  obtain ⟨htiny, htiny'⟩ := fp.double.bounds (x := 1 / 10 ^ 9) (by norm_num) (by norm_num)
  generalize fp.double.round (1 / 10 ^ 9) = tiny at htiny htiny' ⊢
  obtain ⟨hd, hd'⟩ := fp.double.bounds (x := sum + tiny) (by norm_num; linarith) (by linarith)
  generalize fp.double.round (sum + tiny) = d at hd hd' ⊢
  have hdpos : 0 < d := by linarith
  have hratio : 999 / 1000 ≤ ls / d := by
    rw [le_div_iff₀ hdpos]
    linarith
  have hratio' : ls / d ≤ 2 := by
    rw [div_le_iff₀ hdpos]
    linarith
  generalize ls / d = ratio at hratio hratio' ⊢
  obtain ⟨hg, hg'⟩ := fp.double.bounds (x := ratio) (by norm_num; linarith) (by linarith)
  generalize fp.double.round ratio = g at hg hg' ⊢
  obtain ⟨hf, -⟩ := fp.single.bounds (x := g) (by norm_num; linarith) (by linarith)
  exact lt_max_of_lt_left (by linarith)

theorem lt_imbalance_right (n : Nat) : 995 / 1000 < fp.splitImbalance 0 n := by
  obtain ⟨hone, -⟩ := fp.single.bounds (x := 1) (by norm_num) (by norm_num)
  unfold splitImbalance
  dsimp only
  rw [Nat.cast_zero, fp.single.round_zero, zero_div, fp.double.round_zero, fp.single.round_zero, sub_zero]
  exact lt_max_of_lt_right (by linarith)

/-- The random sides are drawn again while one of them is empty. -/
theorem lopsided_of_empty {left right : Nat} (h : left = 0 ∨ right = 0) (hpos : 1 ≤ left + right)
    (hlarge : left + right ≤ 2 ^ 63) : fp.lopsided left right = true := by
  apply decide_eq_true
  apply fp.round_limit_lt.trans
  rcases h with rfl | rfl
  · exact fp.lt_imbalance_right right
  · exact fp.lt_imbalance_left (by omega) (by omega)

end Formats

/-! ## Sides -/

omit [Random R] in
theorem perm_divide (choose : Nat → R → Option Bool × R) {js : List Nat}
    (h : ∀ j ∈ js, ∀ random, ∃ side random', choose j random = (some side, random')) (random : R) :
    ((divide choose js random).1.1 ++ (divide choose js random).1.2).Perm js := by
  induction js generalizing random with
  | nil => exact List.Perm.refl _
  | cons j js ih =>
    rw [List.forall_mem_cons] at h
    obtain ⟨side, random', hside⟩ := h.1 random
    have ih := ih h.2 random'
    unfold divide
    rw [hside]
    cases side with
    | false => exact ih.cons j
    | true => exact List.perm_middle.trans (ih.cons j)

/-- The two sides have the indices. -/
def Sides.Split (s : Sides V) (indices : List Nat) : Prop := (s.left ++ s.right).Perm indices

section
variable {memory : List (Node V)} {indices : List Nat}

omit [Random R] in
theorem split_attempt (h : ∀ j ∈ indices, j < memory.length) (random : R) :
    (attempt D memory indices random).1.Split indices := by
  apply perm_divide
  intro j hj random
  unfold choosePlane
  rw [List.getElem?_eq_getElem (h j hj)]
  exact ⟨_, _, rfl⟩

omit [Random R] in
theorem split_attempts (h : ∀ j ∈ indices, j < memory.length) (more : Nat) (random : R) :
    (attempts D fp memory indices more random).1.Split indices := by
  induction more generalizing random with
  | zero => exact split_attempt D h random
  | succ more ih =>
    unfold attempts
    dsimp only
    split
    · exact split_attempt D h random
    · exact ih _

theorem split_randomSides {rounds : Nat} {s s' : Sides V} {random random' : R} (hs : s.Split indices)
    (h : randomSides D fp indices rounds s random = some (s', random')) :
    s'.Split indices ∧ fp.lopsided s'.left.length s'.right.length = false := by
  induction rounds generalizing s random with
  | zero =>
    unfold randomSides at h
    split at h
    · cases h
    · next hno =>
      cases h
      exact ⟨hs, eq_false_of_ne_true hno⟩
  | succ rounds ih =>
    unfold randomSides at h
    split at h
    · exact ih (s := ⟨D.clear s.plane, _, _⟩) (perm_divide chooseFlip (fun j _ random => ⟨_, _, rfl⟩) random) h
    · next hno =>
      cases h
      exact ⟨hs, eq_false_of_ne_true hno⟩

omit [Random R] in
/-- Neither side is empty. -/
theorem Sides.Split.ne_nil {s : Sides V} (h : s.Split indices) (hno : fp.lopsided s.left.length s.right.length = false)
    (hne : indices ≠ []) (hlarge : indices.length ≤ 2 ^ 63) : s.left ≠ [] ∧ s.right ≠ [] := by
  have hlen := h.length_eq
  have hpos := List.length_pos_iff.mpr hne
  rw [List.length_append] at hlen
  have hempty : ¬ (s.left.length = 0 ∨ s.right.length = 0) := by
    intro hor
    rw [fp.lopsided_of_empty hor (by omega) (by omega)] at hno
    cases hno
  rw [not_or, List.length_eq_zero_iff, List.length_eq_zero_iff] at hempty
  exact hempty

end

/-! ## A tree of the items -/

/-- Node `j` is an item. -/
def IsItem (nItems : Nat) (memory : List (Node V)) (j : Nat) : Prop :=
  j < nItems ∧ ∃ nd, memory[j]? = some nd ∧ nd.nDescendants = 1

theorem IsItem.append {memory : List (Node V)} {j : Nat} (h : IsItem nItems memory j) (added : List (Node V)) :
    IsItem nItems (memory ++ added) j := by
  obtain ⟨hlt, nd, hnd, hone⟩ := h
  exact ⟨hlt, nd, (List.getElem?_append_left (List.getElem?_eq_some_iff.mp hnd).1).trans hnd, hone⟩

section
variable {D fp K nItems rounds} {memory memory' : List (Node V)} {i : Nat}

/-- More nodes do not change what the old ones are taken for. -/
theorem unfolds_append {t : LeafTree Nat} (h : Unfolds (kids K nItems memory) i t) (added : List (Node V)) :
    Unfolds (kids K nItems (memory ++ added)) i t := by
  apply h.mono
  intro a x ha
  unfold kids at ha ⊢
  obtain ⟨nd, hnd, hx⟩ := Option.map_eq_some_iff.mp ha
  rw [List.getElem?_append_left (List.getElem?_eq_some_iff.mp hnd).1, hnd, Option.map_some, hx]

theorem unfolds_item (h : IsItem nItems memory i) : Unfolds (kids K nItems memory) i (.leaf [i]) := by
  obtain ⟨hlt, nd, hnd, hone⟩ := h
  apply Unfolds.leaf
  unfold kids
  rw [hnd, Option.map_some, if_pos ⟨hone, hlt⟩]

/-- What `makeTree` can do: answer an item, make a list of items, or make a split over two trees. -/
theorem makeTree_cases {fuel : Nat} {indices : List Nat} {isRoot : Bool} {random random' : R}
    (h : makeTree D fp K nItems rounds (fuel + 1) indices isRoot memory random = some (i, memory', random'))
    (hmem : ∀ j ∈ indices, j < memory.length) :
    (indices = [i] ∧ isRoot = false ∧ memory' = memory) ∨
    ((indices.length = 1 → isRoot = true) ∧ indices.length ≤ K ∧ (isRoot = false ∨ nItems ≤ K ∨ indices.length = 1) ∧
      i = memory.length ∧ memory' = memory ++ [⟨if isRoot then nItems else indices.length,
        indices ++ List.replicate (K - indices.length) 0, D.zero⟩]) ∨
    ((isRoot = false → K < indices.length) ∧ (indices.length ≤ K → K < nItems ∧ indices.length ≠ 1) ∧
      ∃ s : Sides V, s.Split indices ∧ fp.lopsided s.left.length s.right.length = false ∧
        ∃ (flip : Bool) (r₀ r₁ : R) (c c' : Nat) (m₁ m₂ : List (Node V)),
          makeTree D fp K nItems rounds fuel (if flip then s.right else s.left) false memory r₀ = some (c, m₁, r₁) ∧
          makeTree D fp K nItems rounds fuel (if flip then s.left else s.right) false m₁ r₁ = some (c', m₂, random') ∧
          i = m₂.length ∧ memory' = m₂ ++ [⟨if isRoot then nItems else indices.length,
            if flip then [c', c] else [c, c'], s.plane⟩]) := by
  unfold makeTree at h
  split at h
  · next hone =>
    obtain ⟨j, rfl⟩ := List.length_eq_one_iff.mp hone.1
    cases h
    exact Or.inl ⟨rfl, hone.2, rfl⟩
  · next hone =>
    split at h
    · next hfew =>
      cases h
      refine Or.inr (Or.inl ⟨fun hlen => ?_, hfew.1, hfew.2, rfl, rfl⟩)
      exact eq_true_of_ne_false fun hno => hone ⟨hlen, hno⟩
    · next hmany =>
      obtain ⟨⟨s, r₀⟩, hs, h⟩ := Option.bind_eq_some_iff.mp h
      obtain ⟨⟨c, m₁, r₁⟩, hc, h⟩ := Option.bind_eq_some_iff.mp h
      obtain ⟨⟨c', m₂, r₂⟩, hc', h⟩ := Option.bind_eq_some_iff.mp h
      cases h
      obtain ⟨hsplit, hno⟩ := split_randomSides D fp (split_attempts D fp hmem 2 random) hs
      refine Or.inr (Or.inr ⟨fun hroot => ?_, fun hle => ?_, s, hsplit, hno, ?_⟩)
      · exact Nat.lt_of_not_le fun hle => hmany ⟨hle, Or.inl hroot⟩
      · constructor
        · exact Nat.lt_of_not_le fun hn => hmany ⟨hle, Or.inr (Or.inl hn)⟩
        · exact fun hlen => hmany ⟨hle, Or.inr (Or.inr hlen)⟩
      · refine ⟨decide (s.right.length < s.left.length), r₀, r₁, c, c', m₁, m₂, ?_, ?_, rfl, ?_⟩
        · simpa using hc
        · simpa using hc'
        · simp

/-- A node of a tree is no item. -/
theorem kids_concat (hn : nItems ≤ memory.length) (nd : Node V) :
    kids K nItems (memory ++ [nd]) memory.length =
      some (if nd.nDescendants ≤ K then .inl (nd.children.take nd.nDescendants)
        else .inr (nd.children.getD 0 0, nd.children.getD 1 0)) := by
  unfold kids
  rw [List.getElem?_concat_length, Option.map_some, if_neg fun h => absurd h.2 (Nat.not_lt.mpr hn)]

/-- Where a tree of the indices was made: nodes were added, and `i` is its root. -/
structure Made (K nItems : Nat) (memory : List (Node V)) (indices : List Nat) (i : Nat) (memory' : List (Node V)) :
    Prop where
  exists_added : ∃ added, memory' = memory ++ added ∧ ∀ nd ∈ added, nd.nDescendants ≤ indices.length
  exists_tree : ∃ t, Unfolds (kids K nItems memory') i t ∧ t.elems.Perm indices ∧ t.size + 1 ≤ 2 * indices.length

/-- A split over two trees that were made one after the other. -/
theorem exists_tree_split {first second indices children : List Nat} {c c' n : Nat} {m₁ m₂ : List (Node V)} {plane : V}
    (hfirst : Made K nItems memory first c m₁) (hsecond : Made K nItems m₁ second c' m₂)
    (hperm : (first ++ second).Perm indices) (hn : nItems ≤ m₂.length) (hK : K < n)
    (hchildren : children = [c, c'] ∨ children = [c', c]) :
    ∃ t, Unfolds (kids K nItems (m₂ ++ [⟨n, children, plane⟩])) m₂.length t ∧ t.elems.Perm indices ∧
      t.size + 1 ≤ 2 * indices.length := by
  obtain ⟨t, ht, hitems, hsize⟩ := hfirst.exists_tree
  obtain ⟨t', ht', hitems', hsize'⟩ := hsecond.exists_tree
  obtain ⟨added, rfl, -⟩ := hsecond.exists_added
  have hlen := hperm.length_eq
  rw [List.length_append] at hlen
  have hl := unfolds_append (unfolds_append ht added) [⟨n, children, plane⟩]
  have hr := unfolds_append ht' [⟨n, children, plane⟩]
  have hkids := kids_concat (K := K) hn ⟨n, children, plane⟩
  rw [if_neg (Nat.not_le.mpr hK)] at hkids
  rcases hchildren with rfl | rfl
  · refine ⟨.node t t', .node hkids hl hr, ?_, ?_⟩
    · rw [LeafTree.elems_node]
      exact (hitems.append hitems').trans hperm
    · rw [LeafTree.size]
      omega
  · refine ⟨.node t' t, .node hkids hr hl, ?_, ?_⟩
    · rw [LeafTree.elems_node]
      exact ((hitems'.append hitems).trans List.perm_append_comm).trans hperm
    · rw [LeafTree.size]
      omega

/-- The smaller side is made first. -/
theorem Sides.Split.perm_flip {s : Sides V} {indices : List Nat} (h : s.Split indices) (flip : Bool) :
    ((if flip then s.right else s.left) ++ (if flip then s.left else s.right)).Perm indices := by
  cases flip with
  | false => exact h
  | true => exact List.perm_append_comm.trans h

/-- A split of items that are not on one side, where each tree below it is made. -/
theorem exists_split {fuel n : Nat} {indices : List Nat} {s : Sides V} {flip : Bool} {r₀ r₁ r₂ : R} {c c' : Nat}
    {m₁ m₂ : List (Node V)}
    (hmake : ∀ {indices : List Nat} {i : Nat} {memory memory' : List (Node V)} {random random' : R},
      makeTree D fp K nItems rounds fuel indices false memory random = some (i, memory', random') →
      (∀ j ∈ indices, IsItem nItems memory j) → indices ≠ [] → indices.length ≤ 2 ^ 63 → nItems ≤ memory.length →
      Made K nItems memory indices i memory')
    (hitems : ∀ j ∈ indices, IsItem nItems memory j) (hne : indices ≠ []) (hlarge : indices.length ≤ 2 ^ 63)
    (hn : nItems ≤ memory.length) (hK : K < n) (hsplit : s.Split indices)
    (hno : fp.lopsided s.left.length s.right.length = false)
    (hc : makeTree D fp K nItems rounds fuel (if flip then s.right else s.left) false memory r₀ = some (c, m₁, r₁))
    (hc' : makeTree D fp K nItems rounds fuel (if flip then s.left else s.right) false m₁ r₁ = some (c', m₂, r₂)) :
    ∃ added, m₂ = memory ++ added ∧ (∀ nd ∈ added, nd.nDescendants < indices.length) ∧
      ∃ t, Unfolds (kids K nItems (m₂ ++ [⟨n, if flip then [c', c] else [c, c'], s.plane⟩])) m₂.length t ∧
        t.elems.Perm indices ∧ t.size + 1 ≤ 2 * indices.length := by
  obtain ⟨hleft, hright⟩ := hsplit.ne_nil fp hno hne hlarge
  have hfirst : (if flip then s.right else s.left) ≠ [] := by cases flip <;> assumption
  have hsecond : (if flip then s.left else s.right) ≠ [] := by cases flip <;> assumption
  have hperm := hsplit.perm_flip flip
  have hlen := hperm.length_eq
  rw [List.length_append] at hlen
  have hpos := List.length_pos_iff.mpr hfirst
  have hpos' := List.length_pos_iff.mpr hsecond
  have hmem : ∀ j ∈ (if flip then s.right else s.left) ++ (if flip then s.left else s.right), j ∈ indices :=
    fun j hj => hperm.subset hj
  rw [List.forall_mem_append] at hmem
  have hmade := hmake hc (fun j hj => hitems j (hmem.1 j hj)) hfirst (by omega) hn
  obtain ⟨added, rfl, hadded⟩ := hmade.exists_added
  have hn₁ : nItems ≤ (memory ++ added).length := by
    rw [List.length_append]
    omega
  have hmade' := hmake hc' (fun j hj => (hitems j (hmem.2 j hj)).append nItems added) hsecond (by omega) hn₁
  obtain ⟨added', rfl, hadded'⟩ := hmade'.exists_added
  have hn₂ : nItems ≤ (memory ++ added ++ added').length := by
    rw [List.length_append]
    omega
  refine ⟨added ++ added', List.append_assoc _ _ _, ?_, ?_⟩
  · rw [List.forall_mem_append]
    constructor
    · intro nd hnd
      exact (hadded nd hnd).trans_lt (by omega)
    · intro nd hnd
      exact (hadded' nd hnd).trans_lt (by omega)
  · apply exists_tree_split hmade hmade' hperm hn₂ hK
    cases flip with
    | false => exact Or.inl rfl
    | true => exact Or.inr rfl

/-- **A tree below the root** has the items that were given, each once. -/
theorem makeTree_inner {fuel : Nat} {indices : List Nat} {random random' : R}
    (h : makeTree D fp K nItems rounds fuel indices false memory random = some (i, memory', random'))
    (hitems : ∀ j ∈ indices, IsItem nItems memory j) (hne : indices ≠ []) (hlarge : indices.length ≤ 2 ^ 63)
    (hn : nItems ≤ memory.length) : Made K nItems memory indices i memory' := by
  induction fuel generalizing indices memory i memory' random random' with
  | zero => cases h
  | succ fuel ih =>
    have hpos := List.length_pos_iff.mpr hne
    rcases makeTree_cases h fun j hj => (hitems j hj).1.trans_le hn with
      ⟨rfl, -, rfl⟩ | ⟨hone, hfew, -, rfl, rfl⟩ | ⟨hmany, -, s, hsplit, hno, flip, r₀, r₁, c, c', m₁, m₂, hc, hc', rfl, rfl⟩
    · refine ⟨⟨[], (List.append_nil _).symm, fun nd hnd => absurd hnd List.not_mem_nil⟩, .leaf [i], ?_, ?_, ?_⟩
      · exact unfolds_item (hitems i (List.mem_singleton_self i))
      · rw [LeafTree.elems_leaf]
      · rw [LeafTree.size, List.length_singleton]
    · -- the list of the items
      refine ⟨⟨_, rfl, ?_⟩, .leaf indices, .leaf ?_, ?_, ?_⟩
      · intro nd hnd
        rw [List.mem_singleton.mp hnd]
        exact Nat.le_refl _
      · rw [kids_concat hn, if_neg Bool.false_ne_true, if_pos hfew]
        dsimp only
        rw [List.take_left']
        rfl
      · rw [LeafTree.elems_leaf]
      · rw [LeafTree.size]
        omega
    · obtain ⟨added, rfl, hadded, htree⟩ := exists_split ih hitems hne hlarge hn (hmany rfl) hsplit hno hc hc'
      refine ⟨⟨_, List.append_assoc _ _ _, ?_⟩, htree⟩
      rw [List.forall_mem_append, List.forall_mem_singleton]
      exact ⟨fun nd hnd => (hadded nd hnd).le, Nat.le_refl _⟩

/-- The tree has the indices. One that is a single list claims as many as there are slots. -/
structure Covers (K nItems : Nat) (indices : List Nat) (t : LeafTree Nat) : Prop where
  leaf : nItems ≤ K → t = .leaf (indices ++ List.replicate (nItems - indices.length) 0)
  perm : K < nItems → t.elems.Perm indices

/-- The indices of the slots with an item; the last slot has one. -/
structure Indices (nItems : Nat) (memory : List (Node V)) (indices : List Nat) : Prop where
  item : ∀ j ∈ indices, IsItem nItems memory j
  hole : ∀ j < nItems, j ∉ indices → ∃ nd, memory[j]? = some nd ∧ nd.nDescendants = 0
  last : 0 < nItems → nItems - 1 ∈ indices
  length_le : indices.length ≤ nItems
  le_length : nItems ≤ memory.length

/-- Where a whole tree was made: its nodes were added, the root last, and only the root claims all the items. -/
structure MadeRoot (K nItems : Nat) (memory : List (Node V)) (indices : List Nat) (i : Nat) (memory' : List (Node V)) :
    Prop where
  exists_added : ∃ added top, memory' = memory ++ added ++ [top] ∧ i = (memory ++ added).length ∧
    top.nDescendants = nItems ∧ ∀ nd ∈ added, nd.nDescendants < nItems
  exists_tree : ∃ t, Unfolds (kids K nItems memory') i t ∧ Covers K nItems indices t ∧ t.size ≤ 2 * nItems + 1

/-- **A whole tree** has the items of the index. -/
theorem makeTree_root {fuel : Nat} {indices : List Nat} {random random' : R}
    (h : makeTree D fp K nItems rounds fuel indices true memory random = some (i, memory', random'))
    (hindices : Indices nItems memory indices) (hK : 1 ≤ K) (hpos : 0 < nItems) (hlarge : nItems ≤ 2 ^ 63) :
    MadeRoot K nItems memory indices i memory' := by
  cases fuel with
  | zero => cases h
  | succ fuel =>
    have hlast := hindices.last hpos
    have hne : indices ≠ [] := List.ne_nil_of_mem hlast
    have hlen := hindices.length_le
    have hn := hindices.le_length
    rcases makeTree_cases h fun j hj => (hindices.item j hj).1.trans_le hn with
      ⟨-, hroot, -⟩ | ⟨-, hfew, hor, rfl, rfl⟩ | ⟨-, hmany, s, hsplit, hno, flip, r₀, r₁, c, c', m₁, m₂, hc, hc', rfl, rfl⟩
    · cases hroot
    · refine ⟨⟨[], _, by rw [List.append_nil], by rw [List.append_nil], rfl, fun nd hnd => absurd hnd List.not_mem_nil⟩, ?_⟩
      rw [if_pos rfl]
      by_cases hKn : nItems ≤ K
      · -- one list: it claims as many entries as there are slots
        refine ⟨.leaf (indices ++ List.replicate (nItems - indices.length) 0), .leaf ?_, ⟨fun _ => rfl, fun h => by omega⟩, ?_⟩
        · rw [kids_concat hn, if_pos hKn]
          dsimp only
          rw [List.take_append, List.take_of_length_le hlen, List.take_replicate, Nat.min_eq_left (by omega)]
        · rw [LeafTree.size]
          omega
      · -- one item: the split has the item, and the first slot, which is a hole
        obtain ⟨j, rfl⟩ := List.length_eq_one_iff.mp ((hor.resolve_left (by decide)).resolve_left hKn)
        obtain rfl := List.mem_singleton.mp hlast
        obtain ⟨nd, hnd, hzero⟩ := hindices.hole 0 hpos fun h0 => by
          have := List.mem_singleton.mp h0
          omega
        refine ⟨.node (.leaf [nItems - 1]) (.leaf []), .node (l := nItems - 1) (r := 0) ?_ ?_ (.leaf ?_),
          ⟨fun h => absurd h hKn, fun _ => ?_⟩, ?_⟩
        · rw [kids_concat hn, if_neg hKn]
          rcases K with _ | _ | K
          · rfl
          · rfl
          · rfl
        · exact unfolds_append (unfolds_item (hindices.item _ hlast)) _
        · unfold kids
          rw [List.getElem?_append_left (hpos.trans_le hn), hnd, Option.map_some, hzero]
          rfl
        · rw [LeafTree.elems_node, LeafTree.elems_leaf, LeafTree.elems_leaf, List.append_nil]
        · simp only [LeafTree.size]
          omega
    · have hKn : K < nItems := by
        by_cases hle : indices.length ≤ K
        · exact (hmany hle).1
        · omega
      obtain ⟨added, rfl, hadded, t, ht, hperm, hsize⟩ :=
        exists_split makeTree_inner hindices.item hne (by omega) hn hKn hsplit hno hc hc'
      refine ⟨⟨added, _, rfl, rfl, rfl, fun nd hnd => (hadded nd hnd).trans_le hlen⟩, t, ht,
        ⟨fun h => by omega, fun _ => hperm⟩, ?_⟩
      omega

end

end Annoy
end VectorDb
