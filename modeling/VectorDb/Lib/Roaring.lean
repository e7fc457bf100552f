import VectorDb.Lib.Text

/-!
# Serialized sets of 32-bit numbers

* `RoaringFormat` : an encoding of finite sets of `uint32_t` whose reader takes one set from the start of a
  buffer and ignores what follows;
* `portable` : the portable Roaring layout with array containers (cookie, number of containers, key and
  cardinality minus one of each, offsets, the low halves of the ids, all little-endian). The library writes a
  container of more than 4096 ids as a bit set; here it is an array too.
-/

namespace VectorDb

/-- The serializer and the reader of a set format. A reader succeeds only on a buffer that starts with a
serialized set, and that with the cookie of a bitmap without run containers. -/
structure RoaringFormat where
  serialize : Finset UInt32 → Bytes
  deserialize : Bytes → Option (Finset UInt32)
  deserialize_serialize : ∀ s rest, deserialize (serialize s ++ rest) = some s
  serialize_of_deserialize : ∀ b s, deserialize b = some s → serialize s <+: b
  cookie_serialize : ∀ s, [0x3A, 0x30, 0, 0] <+: serialize s

namespace Portable

/-- A container: the high half of its ids, and their low halves. -/
abbrev Container := Nat × List Nat

def high (x : UInt32) : Nat := x.toNat / 65536

def low (x : UInt32) : Nat := x.toNat % 65536

def highs (s : Finset UInt32) : List Nat := (s.image high).sort (· ≤ ·)

def lows (s : Finset UInt32) (k : Nat) : List Nat := ((s.filter fun x => high x = k).image low).sort (· ≤ ·)

def containers (s : Finset UInt32) : List Container := (highs s).map fun k => (k, lows s k)

/-- The set with the given containers. -/
def ofContainers (cs : List Container) : Finset UInt32 :=
  (cs.flatMap fun c => c.2.map fun l => UInt32.ofNat (65536 * c.1 + l)).toFinset

/-- Where each container starts in the file. -/
def offsets : Nat → List Container → List Nat
  | _, [] => []
  | o, c :: cs => o :: offsets (o + 2 * c.2.length) cs

def writeHeader (h : Nat × Nat) : Bytes := leBytes 2 h.1 ++ leBytes 2 h.2

def readHeader (s : Bytes) : Option ((Nat × Nat) × Bytes) :=
  (readLE 2 s).bind fun k => (readLE 2 k.2).map fun c => ((k.1, c.1), c.2)

/-- `SERIAL_COOKIE_NO_RUNCONTAINER`. -/
def cookie : Nat := 12346

def encode (cs : List Container) : Bytes :=
  leBytes 4 cookie ++ (leBytes 4 cs.length ++ ((cs.map fun c => (c.1, c.2.length - 1)).flatMap writeHeader ++
    ((offsets (8 + 8 * cs.length) cs).flatMap (fun o => leBytes 4 (o % 2 ^ 32)) ++
      cs.flatMap fun c => c.2.flatMap (leBytes 2))))

/-- The arrays of the containers announced by the headers. -/
def readArrays : List (Nat × Nat) → Bytes → Option (List Container)
  | [], _ => some []
  | h :: hs, s => (readMany (readLE 2) (h.2 + 1) s).bind fun r => (readArrays hs r.2).map fun cs => (h.1, r.1) :: cs

def decode (s : Bytes) : Option (List Container) :=
  (readLE 4 s).bind fun c => if c.1 ≠ cookie then none else
  (readLE 4 c.2).bind fun n => (readMany readHeader n.1 n.2).bind fun hs =>
  (readMany (readLE 4) n.1 hs.2).bind fun os => readArrays hs.1 os.2

/-! ## Reading back -/

/-- The bounds a container of 32-bit numbers satisfies. -/
def Container.Ok (c : Container) : Prop := c.1 < 65536 ∧ c.2 ≠ [] ∧ c.2.length ≤ 65536 ∧ ∀ l ∈ c.2, l < 65536

theorem offsets_length (o : Nat) (cs : List Container) : (offsets o cs).length = cs.length := by
  induction cs generalizing o with
  | nil => rfl
  | cons c cs ih => rw [offsets, List.length_cons, ih, List.length_cons]

theorem readHeader_writeHeader {h : Nat × Nat} (h1 : h.1 < 65536) (h2 : h.2 < 65536) (rest : Bytes) :
    readHeader (writeHeader h ++ rest) = some (h, rest) := by
  rw [readHeader, writeHeader, List.append_assoc, readLE_leBytes (by simpa using h1), Option.bind_some,
    readLE_leBytes (by simpa using h2)]
  rfl

theorem readArrays_encode {cs : List Container} (h : ∀ c ∈ cs, c.Ok) (rest : Bytes) :
    readArrays (cs.map fun c => (c.1, c.2.length - 1)) (cs.flatMap (fun c => c.2.flatMap (leBytes 2)) ++ rest) =
      some cs := by
  induction cs with
  | nil => rfl
  | cons c cs ih =>
    obtain ⟨-, hne, -, hl⟩ := h c List.mem_cons_self
    have hlen : c.2.length - 1 + 1 = c.2.length :=
      Nat.sub_add_cancel (Nat.one_le_iff_ne_zero.mpr (mt List.length_eq_zero_iff.mp hne))
    rw [List.map_cons, readArrays, List.flatMap_cons, List.append_assoc, hlen,
      readMany_flatMap fun l hl' r => readLE_leBytes (by simpa using hl l hl') r, Option.bind_some,
      ih fun d hd => h d (List.mem_cons_of_mem _ hd)]
    rfl

theorem decode_encode {cs : List Container} (hn : cs.length < 2 ^ 32) (h : ∀ c ∈ cs, c.Ok) (rest : Bytes) :
    decode (encode cs ++ rest) = some cs := by
  have hhead : readMany readHeader cs.length
      ((cs.map fun c => (c.1, c.2.length - 1)).flatMap writeHeader ++
        ((offsets (8 + 8 * cs.length) cs).flatMap (fun o => leBytes 4 (o % 2 ^ 32)) ++
          (cs.flatMap (fun c => c.2.flatMap (leBytes 2)) ++ rest))) =
      some (cs.map fun c => (c.1, c.2.length - 1),
        (offsets (8 + 8 * cs.length) cs).flatMap (fun o => leBytes 4 (o % 2 ^ 32)) ++
          (cs.flatMap (fun c => c.2.flatMap (leBytes 2)) ++ rest)) := by
    have hread : ∀ x ∈ cs.map (fun c => (c.1, c.2.length - 1)), ∀ r, readHeader (writeHeader x ++ r) = some (x, r) := by
      intro x hx r
      obtain ⟨c, hc, rfl⟩ := List.mem_map.mp hx
      have hok := h c hc
      exact readHeader_writeHeader hok.1 (by have := hok.2.2.1; omega) r
    have := readMany_flatMap hread
    rw [List.length_map] at this
    exact this _
  have hoffs : readMany (readLE 4) cs.length
      ((offsets (8 + 8 * cs.length) cs).flatMap (fun o => leBytes 4 (o % 2 ^ 32)) ++
        (cs.flatMap (fun c => c.2.flatMap (leBytes 2)) ++ rest)) =
      some ((offsets (8 + 8 * cs.length) cs).map (· % 2 ^ 32), cs.flatMap (fun c => c.2.flatMap (leBytes 2)) ++ rest) := by
    have hread : ∀ x ∈ (offsets (8 + 8 * cs.length) cs).map (· % 2 ^ 32), ∀ r,
        readLE 4 (leBytes 4 x ++ r) = some (x, r) := by
      intro x hx r
      obtain ⟨o, -, rfl⟩ := List.mem_map.mp hx
      exact readLE_leBytes (Nat.mod_lt _ (by decide)) r
    have := readMany_flatMap hread
    rw [List.length_map, offsets_length, List.flatMap_map] at this
    exact this _
  unfold decode encode
  simp only [List.append_assoc]
  rw [readLE_leBytes (by decide), Option.bind_some, if_neg (by simp), readLE_leBytes (by simpa using hn),
    Option.bind_some, hhead, Option.bind_some, hoffs, Option.bind_some, readArrays_encode h]

theorem ofNat_high_low (x : UInt32) : UInt32.ofNat (65536 * high x + low x) = x := by
  rw [high, low, Nat.div_add_mod]
  exact UInt32.ofNat_toNat

theorem mem_containers {s : Finset UInt32} {c : Container} :
    c ∈ containers s ↔ (∃ x ∈ s, high x = c.1) ∧ c.2 = lows s c.1 := by
  unfold containers highs
  simp only [List.mem_map, Finset.mem_sort, Finset.mem_image]
  constructor
  · rintro ⟨k, hk, rfl⟩
    exact ⟨hk, rfl⟩
  · rintro ⟨hk, h2⟩
    exact ⟨c.1, hk, Prod.ext rfl h2.symm⟩

theorem mem_lows {s : Finset UInt32} {k l : Nat} : l ∈ lows s k ↔ ∃ x ∈ s, high x = k ∧ low x = l := by
  simp only [lows, Finset.mem_sort, Finset.mem_image, Finset.mem_filter, and_assoc]

theorem ofContainers_containers (s : Finset UInt32) : ofContainers (containers s) = s := by
  ext x
  simp only [ofContainers, List.mem_toFinset, List.mem_flatMap, List.mem_map]
  constructor
  · rintro ⟨c, hc, l, hl, rfl⟩
    rw [(mem_containers.mp hc).2, mem_lows] at hl
    obtain ⟨y, hy, h1, rfl⟩ := hl
    rw [← h1, ofNat_high_low]
    exact hy
  · intro hx
    exact ⟨(high x, lows s (high x)), mem_containers.mpr ⟨⟨x, hx, rfl⟩, rfl⟩, low x,
      mem_lows.mpr ⟨x, hx, rfl, rfl⟩, ofNat_high_low x⟩

theorem high_lt (x : UInt32) : high x < 65536 := by
  have := x.toNat_lt
  unfold high
  omega

theorem low_lt (x : UInt32) : low x < 65536 := Nat.mod_lt _ (by decide)

theorem containers_ok {s : Finset UInt32} {c : Container} (hc : c ∈ containers s) : c.Ok := by
  obtain ⟨⟨x, hx, hk⟩, h2⟩ := mem_containers.mp hc
  have hl : ∀ l ∈ c.2, l < 65536 := fun l hl => by
    rw [h2, mem_lows] at hl
    obtain ⟨y, -, -, rfl⟩ := hl
    exact low_lt y
  refine ⟨hk ▸ high_lt x, fun he => ?_, ?_, hl⟩
  · have : low x ∈ c.2 := h2 ▸ mem_lows.mpr ⟨x, hx, hk, rfl⟩
    rw [he] at this
    cases this
  · rw [h2, lows, Finset.length_sort]
    refine (Finset.card_le_card (t := Finset.range 65536) fun l hl' => ?_).trans_eq (Finset.card_range _)
    obtain ⟨y, -, rfl⟩ := Finset.mem_image.mp hl'
    exact Finset.mem_range.mpr (low_lt y)

theorem length_containers_lt (s : Finset UInt32) : (containers s).length < 2 ^ 32 := by
  rw [containers, List.length_map, highs, Finset.length_sort]
  refine lt_of_le_of_lt (Finset.card_le_card (t := Finset.range 65536) fun k hk => ?_) (by rw [Finset.card_range]; decide)
  obtain ⟨y, -, rfl⟩ := Finset.mem_image.mp hk
  exact Finset.mem_range.mpr (high_lt y)

end Portable

open Portable in
/-- The portable layout with array containers. -/
def portable : RoaringFormat where
  serialize s := encode (containers s)
  deserialize b :=
    ((decode b).map ofContainers).filter fun s => (encode (containers s)).isPrefixOf b
  deserialize_serialize s rest := by
    rw [decode_encode (length_containers_lt s) fun c hc => containers_ok hc, Option.map_some,
      ofContainers_containers, Option.filter_some, if_pos (by simp [List.isPrefixOf_iff_prefix])]
  serialize_of_deserialize b s h := List.isPrefixOf_iff_prefix.mp (Option.filter_eq_some_iff.mp h).2
  cookie_serialize s := List.prefix_append (leBytes 4 cookie) _

end VectorDb
