import VectorDb.Lib.Text

/-!
# The JSON document model

RapidJSON's DOM as far as its readers see it. A number is an integer or a double; the type tests and
the getters of integers go by the range of the value. Each accessor that RapidJSON guards with an
assertion returns `none` where the assertion fails.

* `Json.member?` : `FindMember`, the first member of that name;
* `Json.int64?`, `uint64?`, `float?`, `string?`, `elems?` : the getters;
* `Json.memberInt64?` : `d[name].GetInt64()`.
-/

namespace VectorDb

/-- A JSON number: an integer, or the bits of a double. -/
inductive Number where
  | int (n : Int)
  | double (bits : UInt64)
  deriving DecidableEq, Repr

inductive Json where
  | null
  | bool (b : Bool)
  | num (n : Number)
  | str (s : Bytes)
  | arr (xs : List Json)
  | obj (ms : List (Bytes × Json))
  deriving Repr, Inhabited

/-- The C++ `float` and the rounding of a JSON number to it. -/
class CFloat (F : Type) where
  ofNumber : Number → F

/-- Numbers that are floats already. -/
instance : CFloat Number := ⟨id⟩

/-- A parser that knows some texts. -/
def tableParser (table : List (Bytes × Json)) (text : Bytes) : Option Json :=
  (table.find? fun e => e.1 = text).map Prod.snd

namespace Json

/-- The integer `n` as a JSON number. -/
abbrev int (n : Int) : Json := .num (.int n)

def isObject : Json → Bool
  | obj _ => true
  | _ => false

/-- The members in the order of the text, `[]` where there are none. -/
def members : Json → List (Bytes × Json)
  | obj ms => ms
  | _ => []

/-- `FindMember`: the value of the first member called `name`. -/
def member? (d : Json) (name : Bytes) : Option Json := (d.members.find? fun m => m.1 = name).map Prod.snd

def hasMember (d : Json) (name : Bytes) : Bool := (d.member? name).isSome

/-- `IsInt`: an integer of 32 bits. -/
def isInt : Json → Bool
  | num (.int n) => decide (-2 ^ 31 ≤ n ∧ n < 2 ^ 31)
  | _ => false

/-- `GetInt64`. -/
def int64? : Json → Option Int64
  | num (.int n) => if -2 ^ 63 ≤ n ∧ n < 2 ^ 63 then some (Int64.ofInt n) else none
  | _ => none

/-- `GetUint64`. -/
def uint64? : Json → Option UInt64
  | num (.int n) => if 0 ≤ n ∧ n < 2 ^ 64 then some (UInt64.ofNat n.toNat) else none
  | _ => none

/-- `GetInt`. -/
def int32? : Json → Option Int
  | num (.int n) => if -2 ^ 31 ≤ n ∧ n < 2 ^ 31 then some n else none
  | _ => none

/-- `GetFloat`. -/
def float? {F : Type} [CFloat F] : Json → Option F
  | num n => some (CFloat.ofNumber n)
  | _ => none

/-- `IsNumber`. -/
def isNumber : Json → Bool
  | num _ => true
  | _ => false

/-- `GetString`, with the length RapidJSON knows. -/
def string? : Json → Option Bytes
  | str s => some s
  | _ => none

/-- `GetArray`, `Size` and the elements. -/
def elems? : Json → Option (List Json)
  | arr xs => some xs
  | _ => none

/-- `d[name].GetInt64()`. -/
def memberInt64? (d : Json) (name : Bytes) : Option Int64 := (d.member? name).bind int64?

@[simp] theorem members_obj (ms : List (Bytes × Json)) : (obj ms).members = ms := rfl

@[simp] theorem isObject_obj (ms : List (Bytes × Json)) : (obj ms).isObject = true := rfl

theorem isObject_of_member? {d : Json} {name : Bytes} {v : Json} (h : d.member? name = some v) :
    d.isObject = true := by
  cases d <;> first | rfl | (simp [member?, members] at h)

theorem obj_members {d : Json} (h : d.isObject = true) : .obj d.members = d := by
  cases d <;> first | rfl | cases h

theorem memberInt64?_of_not_isObject {d : Json} (h : ¬ d.isObject = true) (f : Bytes) : d.memberInt64? f = none := by
  cases d <;> first | rfl | exact absurd rfl h

/-- A 32-bit integer is an `int64`. -/
theorem int64?_isSome_of_isInt {d : Json} (h : d.isInt = true) : ∃ v, d.int64? = some v := by
  match d, h with
  | num (.int n), h =>
    simp only [isInt, decide_eq_true_eq] at h
    exact ⟨Int64.ofInt n, by rw [int64?, if_pos (by omega)]⟩

/-- Being a 32-bit integer is seen from the value. -/
theorem isInt_of_int64?_eq {a b : Json} {w : Int64} (ha : a.isInt = true) (hw : a.int64? = some w)
    (hb : b.int64? = some w) : b.isInt = true := by
  match a, b, ha, hw, hb with
  | num (.int m), num (.int n), ha, hw, hb =>
    simp only [int64?, isInt, decide_eq_true_eq] at ha hw hb ⊢
    split at hb
    · rename_i hn
      rw [if_pos (by omega), Option.some.injEq] at hw
      rw [Option.some.injEq] at hb
      have hmn : m = n := by
        have h1 := congrArg Int64.toInt (hw.trans hb.symm)
        rwa [Int64.toInt_ofInt_of_le (by omega) (by omega), Int64.toInt_ofInt_of_le (by omega) (by omega)] at h1
      omega
    · cases hb

/-! ## When a getter succeeds -/

theorem int32?_eq_some_iff {j : Json} {k : Int} : j.int32? = some k ↔ j = .int k ∧ -2 ^ 31 ≤ k ∧ k < 2 ^ 31 := by
  cases j with
  | num n =>
    cases n with
    | int n =>
      simp only [int32?, Option.ite_none_right_eq_some, Option.some.injEq, num.injEq, Number.int.injEq]
      constructor
      · rintro ⟨hn, rfl⟩
        exact ⟨rfl, hn⟩
      · rintro ⟨rfl, hn⟩
        exact ⟨hn, rfl⟩
    | double b => simp [int32?]
  | _ => simp [int32?]

theorem exists_int64?_iff {j : Json} : (∃ v, j.int64? = some v) ↔ ∃ n, j = .int n ∧ -2 ^ 63 ≤ n ∧ n < 2 ^ 63 := by
  cases j with
  | num n =>
    cases n with
    | int n => simp [int64?]
    | double b => simp [int64?]
  | _ => simp [int64?]

theorem exists_uint64?_iff {j : Json} : (∃ u, j.uint64? = some u) ↔ ∃ n, j = .int n ∧ 0 ≤ n ∧ n < 2 ^ 64 := by
  cases j with
  | num n =>
    cases n with
    | int n => simp [uint64?]
    | double b => simp [uint64?]
  | _ => simp [uint64?]

theorem string?_eq_some_iff {j : Json} {s : Bytes} : j.string? = some s ↔ j = .str s := by
  cases j <;> simp [string?]

theorem elems?_eq_some_iff {j : Json} {xs : List Json} : j.elems? = some xs ↔ j = .arr xs := by
  cases j <;> simp [elems?]

/-- The floats of an array: one for each element, if all are numbers. -/
theorem exists_mapM_float?_iff {F : Type} [CFloat F] {xs : List Json} {n : Nat} :
    (∃ v : List F, xs.mapM float? = some v ∧ v.length = n) ↔ xs.length = n ∧ ∀ x ∈ xs, x.isNumber = true := by
  induction xs generalizing n with
  | nil => simp
  | cons x xs ih =>
    rw [List.mapM_cons, List.length_cons, List.forall_mem_cons]
    cases x with
    | num m =>
      constructor
      · rintro ⟨v, hv, hlen⟩
        obtain ⟨y, hy, hv⟩ := Option.bind_eq_some_iff.mp hv
        obtain ⟨ys, hys, hv⟩ := Option.bind_eq_some_iff.mp hv
        cases hv
        obtain ⟨hxs, hnum⟩ := ih.mp ⟨ys, hys, rfl⟩
        exact ⟨by rw [hxs, ← hlen, List.length_cons], rfl, hnum⟩
      · rintro ⟨hlen, -, hnum⟩
        obtain ⟨ys, hys, hl⟩ := (ih (n := xs.length)).mpr ⟨rfl, hnum⟩
        exact ⟨CFloat.ofNumber m :: ys, by simp [float?, hys], by rw [List.length_cons, hl, hlen]⟩
    | _ => simp [float?, isNumber]

theorem mem_members_of_member? {d j : Json} {name : Bytes} (h : d.member? name = some j) : (name, j) ∈ d.members := by
  obtain ⟨⟨n, j'⟩, hfind, rfl⟩ := Option.map_eq_some_iff.mp h
  have hname : n = name := by simpa using List.find?_some hfind
  rw [← hname]
  exact List.mem_of_find?_eq_some hfind

/-- With distinct names every member is the one its name finds. -/
theorem member?_of_nodup {d : Json} (h : (d.members.map Prod.fst).Nodup) {m : Bytes × Json} (hm : m ∈ d.members) :
    d.member? m.1 = some m.2 := by
  unfold member?
  generalize d.members = ms at h hm
  induction ms with
  | nil => simp at hm
  | cons x ms ih =>
    rw [List.map_cons, List.nodup_cons] at h
    rcases List.mem_cons.mp hm with rfl | hm'
    · simp
    · have hne : x.1 ≠ m.1 := fun he => h.1 (he ▸ List.mem_map_of_mem hm')
      rw [List.find?_cons_of_neg (by simpa using hne)]
      exact ih h.2 hm'

end Json
end VectorDb
