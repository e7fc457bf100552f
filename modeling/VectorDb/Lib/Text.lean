import Mathlib

/-!
# Byte strings, text streams and numerals of the C++ library

* `cstr` : what a `const char*` reader sees of a string, up to its first NUL;
* `lines` : the lines successive `std::getline(file, line)` calls return (`lines_eq`);
* `IStream.getline` : `std::getline(iss, str, delim)` on an `std::istringstream`; a stream that already
  hit its end leaves `str` as it was;
* `decimal`, `decimalInt` : `operator<<` and `std::to_string` on unsigned and signed integers;
* `stoull`, `stol` : the two library conversions, with their exceptions; `stoull_decimal` and
  `stol_decimalInt` read back what was written;
* `leBytes`, `readLE` : little-endian integers of a fixed width; `readMany` : a run of equal readers.
-/

namespace VectorDb

abbrev Bytes := List UInt8

/-- The bytes of an ASCII literal. -/
def ascii (s : String) : Bytes := s.toList.map fun c => UInt8.ofNat c.toNat

/-- The byte `'\n'`. -/
def newline : UInt8 := 10

/-- The byte `'|'`. -/
def bar : UInt8 := 124

/-! ## C strings -/

/-- What a `const char*` reader sees of `s`: everything before the first NUL. -/
def cstr (s : Bytes) : Bytes := s.takeWhile (· ≠ 0)

theorem cstr_eq_self {s : Bytes} (h : 0 ∉ s) : cstr s = s := by
  rw [cstr, List.takeWhile_eq_self_iff]
  intro c hc
  simpa using fun h0 : c = 0 => h (h0 ▸ hc)

theorem zero_notMem_cstr (s : Bytes) : 0 ∉ cstr s := fun h => by
  have := List.mem_takeWhile_imp h
  simp at this

@[simp] theorem cstr_cstr (s : Bytes) : cstr (cstr s) = cstr s := cstr_eq_self (zero_notMem_cstr s)

theorem mem_of_mem_cstr {s : Bytes} {c : UInt8} (h : c ∈ cstr s) : c ∈ s :=
  (List.takeWhile_sublist _).subset h

/-! ## Cutting at a byte -/

theorem takeWhile_ne_append {c : UInt8} {a : Bytes} (h : c ∉ a) (b : Bytes) :
    (a ++ c :: b).takeWhile (· ≠ c) = a := by
  rw [List.takeWhile_append_of_pos (fun x hx => by simpa using fun he : x = c => h (he ▸ hx))]
  simp

theorem dropWhile_ne_append {c : UInt8} {a : Bytes} (h : c ∉ a) (b : Bytes) :
    (a ++ c :: b).dropWhile (· ≠ c) = c :: b := by
  rw [List.dropWhile_append_of_pos (fun x hx => by simpa using fun he : x = c => h (he ▸ hx))]
  simp

theorem takeWhile_ne_self {c : UInt8} {a : Bytes} (h : c ∉ a) : a.takeWhile (· ≠ c) = a := by
  rw [List.takeWhile_eq_self_iff]
  exact fun x hx => by simpa using fun he : x = c => h (he ▸ hx)

theorem dropWhile_ne_self {c : UInt8} {a : Bytes} (h : c ∉ a) : a.dropWhile (· ≠ c) = [] := by
  rw [List.dropWhile_eq_nil_iff]
  exact fun x hx => by simpa using fun he : x = c => h (he ▸ hx)

/-- A string that holds `c` splits at its first `c`. -/
theorem exists_split_of_mem {c : UInt8} {s : Bytes} (h : c ∈ s) :
    ∃ a b, c ∉ a ∧ s = a ++ c :: b := by
  obtain ⟨a, b, hs, ha⟩ := List.eq_append_cons_of_mem h
  exact ⟨a, b, ha, hs⟩

/-! ## Lines -/

/-- The lines that `while (std::getline(file, line))` runs over: the pieces between newlines, a last
unterminated piece included when it is not empty. -/
def lines : Bytes → List Bytes
  | [] => []
  | c :: cs =>
    if c = newline then [] :: lines cs
    else match lines cs with
      | [] => [[c]]
      | l :: ls => (c :: l) :: ls

@[simp] theorem lines_nil : lines [] = [] := rfl

@[simp] theorem lines_newline (s : Bytes) : lines (newline :: s) = [] :: lines s := by simp [lines]

theorem lines_append_newline {l : Bytes} (h : newline ∉ l) (rest : Bytes) :
    lines (l ++ newline :: rest) = l :: lines rest := by
  induction l with
  | nil => simp
  | cons c l ih =>
    rw [List.mem_cons, not_or] at h
    rw [List.cons_append, lines, if_neg (Ne.symm h.1), ih h.2]

theorem lines_unterminated {l : Bytes} (h : newline ∉ l) (hl : l ≠ []) : lines l = [l] := by
  induction l with
  | nil => exact absurd rfl hl
  | cons c l ih =>
    rw [List.mem_cons, not_or] at h
    rw [lines, if_neg (Ne.symm h.1)]
    cases l with
    | nil => rfl
    | cons d l => rw [ih h.2 (List.cons_ne_nil _ _)]

/-- One `std::getline(file, line)`: the bytes up to the next newline, and the file after it. -/
theorem lines_eq {s : Bytes} (h : s ≠ []) :
    lines s = s.takeWhile (· ≠ newline) :: lines ((s.dropWhile (· ≠ newline)).drop 1) := by
  by_cases hn : newline ∈ s
  · obtain ⟨a, b, ha, rfl⟩ := exists_split_of_mem hn
    rw [lines_append_newline ha, takeWhile_ne_append ha, dropWhile_ne_append ha, List.drop_one, List.tail_cons]
  · rw [lines_unterminated hn h, takeWhile_ne_self hn, dropWhile_ne_self hn, List.drop_nil, lines_nil]

/-! ## String streams -/

/-- An `std::istringstream`: what is left to read, and whether no end or failure was met yet. -/
structure IStream where
  rest : Bytes
  good : Bool
  deriving DecidableEq, Repr

/-- A fresh stream over `s`. -/
def IStream.of (s : Bytes) : IStream := ⟨s, true⟩

@[simp] theorem IStream.rest_of (s : Bytes) : (IStream.of s).rest = s := rfl

/-- `std::getline(iss, str, delim)`: the new value of `str` and the stream after the call. The sentry of a
stream that is not good fails before `str` is cleared. -/
def IStream.getline (iss : IStream) (str : Bytes) (delim : UInt8) : Bytes × IStream :=
  if iss.good then
    (iss.rest.takeWhile (· ≠ delim),
      match iss.rest.dropWhile (· ≠ delim) with
      | [] => ⟨[], false⟩
      | _ :: rest => ⟨rest, true⟩)
  else (str, iss)

theorem IStream.getline_append {delim : UInt8} {tok : Bytes} (h : delim ∉ tok) (rest str : Bytes) :
    (IStream.of (tok ++ delim :: rest)).getline str delim = (tok, IStream.of rest) := by
  simp only [IStream.getline, IStream.of, if_true, takeWhile_ne_append h, dropWhile_ne_append h]

theorem IStream.getline_last {delim : UInt8} {tok : Bytes} (h : delim ∉ tok) (str : Bytes) :
    (IStream.of tok).getline str delim = (tok, ⟨[], false⟩) := by
  simp only [IStream.getline, IStream.of, if_true, takeWhile_ne_self h, dropWhile_ne_self h]

theorem IStream.getline_ended (rest str : Bytes) (delim : UInt8) :
    IStream.getline ⟨rest, false⟩ str delim = (str, ⟨rest, false⟩) := rfl

/-! ## Numerals -/

/-- `isspace` in the C locale. -/
def isSpace (c : UInt8) : Bool := c = 32 || (9 ≤ c && c ≤ 13)

def isDigit (c : UInt8) : Bool := 48 ≤ c && c ≤ 57

/-- The value of a run of digits. -/
def digitsVal (s : Bytes) : Nat := s.foldl (fun n c => 10 * n + (c.toNat - 48)) 0

/-- An optional sign: whether it is a minus, and what follows. -/
def readSign : Bytes → Bool × Bytes
  | [] => (false, [])
  | c :: cs => if c = 45 then (true, cs) else if c = 43 then (false, cs) else (false, c :: cs)

/-- What `strtoull` and `strtol` read: blanks, a sign, digits; `none` when there is no digit. -/
def scanInt (s : Bytes) : Option (Bool × Nat) :=
  let signed := readSign ((cstr s).dropWhile isSpace)
  let ds := signed.2.takeWhile isDigit
  if ds = [] then none else some (signed.1, digitsVal ds)

/-- The two exceptions of the `std::sto*` functions. -/
inductive StoError where
  | invalidArgument
  | outOfRange
  deriving DecidableEq, Repr

/-- `std::stoull`; a minus sign negates modulo `2^64`. -/
def stoull (s : Bytes) : Except StoError Nat :=
  match scanInt s with
  | none => .error .invalidArgument
  | some (neg, n) =>
    if 2 ^ 64 ≤ n then .error .outOfRange else .ok (if neg then (2 ^ 64 - n) % 2 ^ 64 else n)

/-- `std::stol` where `long` has 64 bits. -/
def stol (s : Bytes) : Except StoError Int64 :=
  match scanInt s with
  | none => .error .invalidArgument
  | some (neg, n) =>
    let v : Int := if neg then -n else n
    if -2 ^ 63 ≤ v ∧ v < 2 ^ 63 then .ok (Int64.ofInt v) else .error .outOfRange

/-- A natural number in decimal. -/
def decimal (n : Nat) : Bytes :=
  if n = 0 then [48] else ((Nat.digits 10 n).map fun d => UInt8.ofNat (48 + d)).reverse

/-- A signed integer in decimal. -/
def decimalInt (v : Int64) : Bytes :=
  if v.toInt < 0 then 45 :: decimal v.toInt.natAbs else decimal v.toInt.natAbs

theorem isDigit_ofNat {d : Nat} (h : d < 10) : isDigit (UInt8.ofNat (48 + d)) = true := by
  interval_cases d <;> decide

theorem toNat_digit {d : Nat} (h : d < 10) : (UInt8.ofNat (48 + d)).toNat - 48 = d := by
  interval_cases d <;> decide

theorem isDigit_of_mem_decimal {n : Nat} {c : UInt8} (h : c ∈ decimal n) : isDigit c = true := by
  unfold decimal at h
  split at h
  · rw [List.mem_singleton] at h
    subst h
    decide
  · rw [List.mem_reverse, List.mem_map] at h
    obtain ⟨d, hd, rfl⟩ := h
    exact isDigit_ofNat (Nat.digits_lt_base (by decide) hd)

theorem decimal_ne_nil (n : Nat) : decimal n ≠ [] := by
  unfold decimal
  split
  · simp
  · rename_i h
    simpa using Nat.digits_ne_nil_iff_ne_zero.mpr h

/-- A digit is none of the bytes that structure a line. -/
theorem notMem_decimal {c : UInt8} (hc : isDigit c = false) (n : Nat) : c ∉ decimal n := fun h => by
  rw [isDigit_of_mem_decimal h] at hc
  cases hc

theorem digitsVal_append (s : Bytes) (c : UInt8) : digitsVal (s ++ [c]) = 10 * digitsVal s + (c.toNat - 48) := by
  simp [digitsVal]

theorem digitsVal_reverse_map {ds : List Nat} (h : ∀ d ∈ ds, d < 10) :
    digitsVal (ds.map fun d => UInt8.ofNat (48 + d)).reverse = Nat.ofDigits 10 ds := by
  induction ds with
  | nil => rfl
  | cons d ds ih =>
    rw [List.map_cons, List.reverse_cons, digitsVal_append, ih fun x hx => h x (List.mem_cons_of_mem _ hx),
      toNat_digit (h d List.mem_cons_self), Nat.ofDigits_cons]
    omega

theorem digitsVal_decimal (n : Nat) : digitsVal (decimal n) = n := by
  unfold decimal
  split
  · subst n; decide
  · rw [digitsVal_reverse_map fun d hd => Nat.digits_lt_base (by decide) hd, Nat.ofDigits_digits]

theorem isDigit_zero : isDigit 0 = false := by decide

/-- The scanner reads a run of digits, whatever it stands before, when the first byte is one. -/
theorem scanInt_digits {ds : Bytes} (hd : ∀ c ∈ ds, isDigit c = true) (hne : ds ≠ []) :
    scanInt ds = some (false, digitsVal ds) := by
  have h0 : 0 ∉ ds := fun h => by have := hd 0 h; rw [isDigit_zero] at this; cases this
  obtain ⟨c, cs, rfl⟩ := List.exists_cons_of_ne_nil hne
  have hc := hd c List.mem_cons_self
  have hspace : isSpace c = false := by
    unfold isDigit at hc
    unfold isSpace
    simp only [Bool.and_eq_true, decide_eq_true_eq, UInt8.le_iff_toNat_le, Bool.or_eq_false_iff, Bool.and_eq_false_iff,
      decide_eq_false_iff_not] at hc ⊢
    refine ⟨fun h => ?_, Or.inr ?_⟩
    · subst h; exact absurd hc.1 (by decide)
    · have : (48 : UInt8).toNat = 48 := rfl
      have : (13 : UInt8).toNat = 13 := rfl
      omega
  have hm : c ≠ 45 := by rintro rfl; exact absurd hc (by decide)
  have hp : c ≠ 43 := by rintro rfl; exact absurd hc (by decide)
  have htake : (c :: cs).takeWhile isDigit = c :: cs := List.takeWhile_eq_self_iff.mpr hd
  have hsign : readSign (c :: cs) = (false, c :: cs) := by rw [readSign, if_neg hm, if_neg hp]
  simp only [scanInt, cstr_eq_self h0, List.dropWhile_cons_of_neg (show ¬ isSpace c = true by simp [hspace]), hsign,
    htake, List.cons_ne_nil, if_false]

theorem scanInt_decimal (n : Nat) : scanInt (decimal n) = some (false, n) := by
  rw [scanInt_digits (fun _ h => isDigit_of_mem_decimal h) (decimal_ne_nil n), digitsVal_decimal]

theorem scanInt_neg_decimal (n : Nat) : scanInt (45 :: decimal n) = some (true, n) := by
  have h0 : (0 : UInt8) ∉ 45 :: decimal n := by
    rw [List.mem_cons, not_or]
    exact ⟨by decide, notMem_decimal isDigit_zero n⟩
  have htake : (decimal n).takeWhile isDigit = decimal n :=
    List.takeWhile_eq_self_iff.mpr fun _ h => isDigit_of_mem_decimal h
  have hsign : readSign (45 :: decimal n) = (true, decimal n) := by rw [readSign, if_pos rfl]
  simp only [scanInt, cstr_eq_self h0, List.dropWhile_cons_of_neg (show ¬ isSpace 45 = true by decide), hsign, htake,
    decimal_ne_nil, if_false, digitsVal_decimal]

/-- `std::stoull` reads back an unsigned 64-bit number. -/
theorem stoull_decimal {n : Nat} (h : n < 2 ^ 64) : stoull (decimal n) = .ok n := by
  simp only [stoull, scanInt_decimal, if_neg (Nat.not_le.mpr h), Bool.false_eq_true, if_false]

/-- `std::stol` reads back a `long`. -/
theorem stol_decimalInt (v : Int64) : stol (decimalInt v) = .ok v := by
  have h1 := v.minValue_le_toInt
  have h2 := v.toInt_le
  have h3 : Int64.minValue.toInt = -2 ^ 63 := by decide
  have h4 : Int64.maxValue.toInt = 2 ^ 63 - 1 := by decide
  unfold decimalInt
  split
  · have he : (-(v.toInt.natAbs : Int)) = v.toInt := by omega
    simp only [stol, scanInt_neg_decimal, if_true, he]
    rw [if_pos (by omega), Int64.ofInt_toInt]
  · have he : ((v.toInt.natAbs : Int)) = v.toInt := by omega
    simp only [stol, scanInt_decimal, Bool.false_eq_true, if_false, he]
    rw [if_pos (by omega), Int64.ofInt_toInt]

theorem digitsVal_append_digits (s ds : Bytes) :
    digitsVal (s ++ ds) = digitsVal s * 10 ^ ds.length + digitsVal ds := by
  induction ds using List.reverseRecOn with
  | nil => simp [digitsVal]
  | append_singleton ds c ih =>
    rw [← List.append_assoc, digitsVal_append, digitsVal_append, ih, List.length_append, List.length_singleton, pow_succ]
    ring

/-- A numeral does not start with a zero, unless it is the zero. -/
theorem digitsVal_pos_of_prefix_decimal {n : Nat} {ds : Bytes} (h : ds <+: decimal n) (hne : ds ≠ []) (h0 : ds ≠ [48]) :
    0 < digitsVal ds := by
  obtain ⟨c, cs, rfl⟩ := List.exists_cons_of_ne_nil hne
  obtain ⟨rest, hrest⟩ := h
  unfold decimal at hrest
  split at hrest
  · exact absurd (by simpa using hrest) (fun hc : c = 48 ∧ cs = [] ∧ rest = [] => h0 (by rw [hc.1, hc.2.1]))
  · rename_i hn
    have hdigits : Nat.digits 10 n ≠ [] := Nat.digits_ne_nil_iff_ne_zero.mpr hn
    have hhead : c = UInt8.ofNat (48 + (Nat.digits 10 n).getLast hdigits) := by
      have := congrArg List.head? hrest
      rw [List.head?_reverse, List.getLast?_map, List.getLast?_eq_some_getLast hdigits] at this
      exact Option.some.inj this
    have hlast : (Nat.digits 10 n).getLast hdigits ≠ 0 := Nat.getLast_digit_ne_zero 10 hn
    have hc : 0 < c.toNat - 48 := by
      rw [hhead, toNat_digit (Nat.digits_lt_base (by decide) (List.getLast_mem hdigits))]
      exact Nat.pos_of_ne_zero hlast
    have hval : digitsVal (c :: cs) = (c.toNat - 48) * 10 ^ cs.length + digitsVal cs := by
      have := digitsVal_append_digits [c] cs
      simpa [digitsVal] using this
    rw [hval]
    exact Nat.lt_of_lt_of_le (Nat.mul_pos hc (Nat.pow_pos (by decide))) (Nat.le_add_right _ _)

theorem digitsVal_le_of_prefix_decimal {n : Nat} {ds : Bytes} (h : ds <+: decimal n) : digitsVal ds ≤ n := by
  obtain ⟨rest, hrest⟩ := h
  have hval := digitsVal_append_digits ds rest
  rw [hrest, digitsVal_decimal] at hval
  have hle : digitsVal ds ≤ digitsVal ds * 10 ^ rest.length := Nat.le_mul_of_pos_right _ (Nat.pow_pos (by decide))
  omega

theorem stoull_digits {ds : Bytes} (hd : ∀ c ∈ ds, isDigit c = true) (hne : ds ≠ []) :
    stoull ds = if 2 ^ 64 ≤ digitsVal ds then .error .outOfRange else .ok (digitsVal ds) := by
  simp only [stoull, scanInt_digits hd hne, Bool.false_eq_true, if_false]

/-- A blank line holds no number. -/
theorem scanInt_blank {s : Bytes} (h : ∀ c ∈ s, isSpace c = true) : scanInt s = none := by
  have hd : (cstr s).dropWhile isSpace = [] :=
    List.dropWhile_eq_nil_iff.mpr fun c hc => h c (mem_of_mem_cstr hc)
  unfold scanInt
  rw [hd]
  rfl

theorem notMem_decimalInt {c : UInt8} (hc : isDigit c = false) (hm : c ≠ 45) (v : Int64) : c ∉ decimalInt v := by
  unfold decimalInt
  split
  · rw [List.mem_cons, not_or]
    exact ⟨hm, notMem_decimal hc _⟩
  · exact notMem_decimal hc _

/-! ## Little-endian integers -/

/-- The `n` low bytes of `k`, least significant first. -/
def leBytes : Nat → Nat → Bytes
  | 0, _ => []
  | n + 1, k => UInt8.ofNat (k % 256) :: leBytes n (k / 256)

def readLE : Nat → Bytes → Option (Nat × Bytes)
  | 0, s => some (0, s)
  | _ + 1, [] => none
  | n + 1, c :: s => (readLE n s).map fun r => (c.toNat + 256 * r.1, r.2)

@[simp] theorem leBytes_length (n k : Nat) : (leBytes n k).length = n := by
  induction n generalizing k with
  | zero => rfl
  | succ n ih => rw [leBytes, List.length_cons, ih]

theorem readLE_leBytes {n k : Nat} (h : k < 256 ^ n) (rest : Bytes) :
    readLE n (leBytes n k ++ rest) = some (k, rest) := by
  induction n generalizing k with
  | zero => simp [readLE, leBytes, Nat.lt_one_iff.mp h]
  | succ n ih =>
    have hk : k / 256 < 256 ^ n := Nat.div_lt_of_lt_mul (by rw [pow_succ'] at h; exact h)
    have hc : (UInt8.ofNat (k % 256)).toNat = k % 256 :=
      UInt8.toNat_ofNat_of_lt' (Nat.mod_lt _ (by decide))
    rw [leBytes, List.cons_append, readLE, ih hk, Option.map_some, hc, Nat.mod_add_div]

/-- `n` values one after the other. -/
def readMany {α : Type} (read : Bytes → Option (α × Bytes)) : Nat → Bytes → Option (List α × Bytes)
  | 0, s => some ([], s)
  | n + 1, s => (read s).bind fun r => (readMany read n r.2).map fun q => (r.1 :: q.1, q.2)

theorem readMany_flatMap {α : Type} {read : Bytes → Option (α × Bytes)} {write : α → Bytes} {xs : List α}
    (h : ∀ x ∈ xs, ∀ rest, read (write x ++ rest) = some (x, rest)) (rest : Bytes) :
    readMany read xs.length (xs.flatMap write ++ rest) = some (xs, rest) := by
  induction xs with
  | nil => rfl
  | cons x xs ih =>
    rw [List.flatMap_cons, List.append_assoc, List.length_cons, readMany, h x List.mem_cons_self, Option.bind_some,
      ih fun y hy => h y (List.mem_cons_of_mem _ hy), Option.map_some]

end VectorDb
