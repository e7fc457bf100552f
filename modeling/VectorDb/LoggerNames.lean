import VectorDb.Basic

/-!
# The names of the log files

* `getLogFilePath`, `tarPath` : the name of a file by its revision number, plain and compressed;
* `revnumOf` : the number that a name says;
* `findMinMaxRevNum` : the smallest number, and the one to go on with, of a directory;
* `revnumOf_name`, `revnumOf_tarName` : a name that was made says its number;
* `findMinMaxRevNum_spec` : of a directory with log files and others, in whatever order it is read.
-/

namespace VectorDb
namespace SimpleLogger

/-! ## Names -/

def dot : UInt8 := 46

def slash : UInt8 := 47

/-- What stands behind the last `c`. -/
def afterLast (c : UInt8) (s : Bytes) : Option Bytes :=
  if c ∈ s then some (s.reverse.takeWhile (· ≠ c)).reverse else none

def fileNameOnly (filePath : Bytes) : Bytes := (afterLast slash filePath).getD filePath

def getLogFilePath (filePath : Bytes) (fileNum : Nat) : Bytes :=
  if fileNum = 0 then filePath else filePath ++ dot :: decimal fileNum

def tarPath (filePath : Bytes) (fileNum : Nat) : Bytes := getLogFilePath filePath fileNum ++ ascii ".tar.gz"

/-- The `int` of the `long` that `strtol` reads. -/
def atoi (s : Bytes) : Int32 :=
  match scanInt s with
  | none => 0
  | some (neg, n) => Int32.ofInt (max (-2 ^ 63) (min (2 ^ 63 - 1) (if neg then -(n : Int) else n)))

/-- `size_t revnum = atoi(ext.c_str())`. -/
def revnum (ext : Bytes) : Nat := ((atoi ext).toInt % 2 ^ 64).toNat

/-- The number in a name, and whether the file is compressed. -/
def revnumOf (fName : Bytes) : Option (Nat × Bool) :=
  match afterLast dot fName with
  | none => none
  | some ext =>
    if ext = ascii "gz" ∧ 7 < fName.length then
      (afterLast dot (fName.take (fName.length - 7))).map fun ext => (revnum ext, true)
    else some (revnum ext, false)

structure RevNums where
  minRevnumInitialized : Bool
  minRevnum : Nat
  maxRevnum : Nat

/-- A compressed file is not written to any more. -/
def RevNums.add (s : RevNums) (r : Nat × Bool) : RevNums where
  minRevnumInitialized := true
  minRevnum := min (if s.minRevnumInitialized then s.minRevnum else r.1) r.1
  maxRevnum := max s.maxRevnum (if r.2 then r.1 + 1 else r.1)

def findMinMaxRevNumInternal (s : RevNums) (fName : Bytes) : RevNums :=
  match revnumOf fName with
  | none => s
  | some r => s.add r

/-- Over the names in the directory. -/
def findMinMaxRevNum (filePath : Bytes) (names : List Bytes) : RevNums :=
  names.foldl (fun s fName => if fileNameOnly filePath <:+: fName then findMinMaxRevNumInternal s fName else s)
    ⟨false, 0, 0⟩

/-! ## What stands behind the last -/

theorem afterLast_append {c : UInt8} {t : Bytes} (h : c ∉ t) (s : Bytes) : afterLast c (s ++ c :: t) = some t := by
  have hmem : c ∈ s ++ c :: t := List.mem_append_right _ List.mem_cons_self
  have hrev : (s ++ c :: t).reverse = t.reverse ++ c :: s.reverse := by simp
  rw [afterLast, if_pos hmem, hrev, takeWhile_ne_append (by rwa [List.mem_reverse]), List.reverse_reverse]

theorem afterLast_eq_none {c : UInt8} {s : Bytes} (h : c ∉ s) : afterLast c s = none := if_neg h

theorem exists_afterLast {c : UInt8} {s t : Bytes} (h : afterLast c s = some t) : ∃ a, s = a ++ c :: t ∧ c ∉ t := by
  unfold afterLast at h
  split at h
  · rename_i hmem
    obtain ⟨a, b, ha, hs⟩ := exists_split_of_mem (List.mem_reverse.mpr hmem)
    have ht : t = a.reverse := by
      rw [← Option.some.inj h, hs, takeWhile_ne_append ha]
    refine ⟨b.reverse, ?_, ?_⟩
    · rw [ht, ← List.reverse_reverse s, hs]
      simp
    · rwa [ht, List.mem_reverse]
  · cases h

/-- The end of a path is the end of its last part. -/
theorem fileNameOnly_append {t : Bytes} (h : slash ∉ t) (p : Bytes) : fileNameOnly (p ++ t) = fileNameOnly p ++ t := by
  unfold fileNameOnly
  cases hp : afterLast slash p with
  | none =>
    have hslash : slash ∉ p := by
      intro hmem
      rw [afterLast, if_pos hmem] at hp
      cases hp
    rw [afterLast_eq_none (by simp [hslash, h])]
    rfl
  | some e =>
    obtain ⟨a, rfl, he⟩ := exists_afterLast hp
    rw [List.append_assoc, List.cons_append, afterLast_append (by simp [he, h])]
    rfl

/-! ## What a name says -/

def logName (filePath : Bytes) (fileNum : Nat) : Bytes := fileNameOnly (getLogFilePath filePath fileNum)

def tarName (filePath : Bytes) (fileNum : Nat) : Bytes := fileNameOnly (tarPath filePath fileNum)

/-- The first file is read as number 0. -/
def PlainName (filePath : Bytes) : Prop := revnumOf (fileNameOnly filePath) = some (0, false)

instance (filePath : Bytes) : Decidable (PlainName filePath) := decEq _ _

theorem logName_eq (filePath : Bytes) (n : Nat) : logName filePath n =
    if n = 0 then fileNameOnly filePath else fileNameOnly filePath ++ dot :: decimal n := by
  have hslash : slash ∉ dot :: decimal n := by
    rw [List.mem_cons, not_or]
    exact ⟨by decide, notMem_decimal (by decide) n⟩
  unfold logName getLogFilePath
  split
  · rfl
  · rw [fileNameOnly_append hslash]

theorem tarName_eq (filePath : Bytes) (n : Nat) : tarName filePath n = logName filePath n ++ ascii ".tar.gz" :=
  fileNameOnly_append (by decide) _

theorem infix_logName (filePath : Bytes) (n : Nat) : fileNameOnly filePath <:+: logName filePath n := by
  rw [logName_eq]
  split
  · exact List.infix_rfl
  · exact (List.prefix_append _ _).isInfix

theorem infix_tarName (filePath : Bytes) (n : Nat) : fileNameOnly filePath <:+: tarName filePath n := by
  rw [tarName_eq]
  exact (infix_logName filePath n).trans (List.prefix_append _ _).isInfix

theorem revnum_decimal {n : Nat} (h : n < 2 ^ 31) : revnum (decimal n) = n := by
  have hmin : max (-2 ^ 63) (min (2 ^ 63 - 1) (n : Int)) = n := by omega
  have hint : (Int32.ofInt n).toInt = n := by
    rw [Int32.toInt_ofInt, Int.bmod_eq_of_le] <;> (rw [show Int32.size = 2 ^ 32 from rfl]; omega)
  unfold revnum atoi
  rw [scanInt_decimal]
  simp only [Bool.false_eq_true, if_false, hmin, hint]
  omega

theorem decimal_ne_gz (n : Nat) : decimal n ≠ ascii "gz" := by
  intro h
  have hg : (103 : UInt8) ∈ decimal n := by
    rw [h]
    decide
  exact notMem_decimal (by decide) n hg

/-- Every name of a plain file has an extension that says its number. -/
theorem exists_extension {filePath : Bytes} (hp : PlainName filePath) {n : Nat} (hn : n < 2 ^ 31) :
    ∃ ext, afterLast dot (logName filePath n) = some ext ∧ revnum ext = n ∧
      ¬ (ext = ascii "gz" ∧ 7 < (logName filePath n).length) := by
  rw [logName_eq]
  split
  · rename_i h0
    unfold PlainName revnumOf at hp
    cases hext : afterLast dot (fileNameOnly filePath) with
    | none =>
      rw [hext] at hp
      cases hp
    | some ext =>
      simp only [hext] at hp
      split at hp
      · obtain ⟨e, -, he⟩ := Option.map_eq_some_iff.mp hp
        exact Bool.noConfusion (congrArg Prod.snd he)
      · rename_i hgz
        simp only [Option.some.injEq, Prod.mk.injEq, and_true] at hp
        exact ⟨ext, rfl, hp.trans h0.symm, hgz⟩
  · exact ⟨decimal n, afterLast_append (notMem_decimal (by decide) n) _, revnum_decimal hn,
      fun h => decimal_ne_gz n h.1⟩

theorem revnumOf_logName {filePath : Bytes} (hp : PlainName filePath) {n : Nat} (hn : n < 2 ^ 31) :
    revnumOf (logName filePath n) = some (n, false) := by
  obtain ⟨ext, hext, hrev, hgz⟩ := exists_extension hp hn
  simp only [revnumOf, hext, if_neg hgz, hrev]

theorem revnumOf_tarName {filePath : Bytes} (hp : PlainName filePath) {n : Nat} (hn : n < 2 ^ 31) :
    revnumOf (tarName filePath n) = some (n, true) := by
  obtain ⟨ext, hext, hrev, -⟩ := exists_extension hp hn
  obtain ⟨a, ha, -⟩ := exists_afterLast hext
  have hgz : afterLast dot (tarName filePath n) = some (ascii "gz") := by
    have hsplit : tarName filePath n = (logName filePath n ++ ascii ".tar") ++ dot :: ascii "gz" := by
      rw [tarName_eq, List.append_assoc]
      rfl
    rw [hsplit]
    exact afterLast_append (by decide) _
  have hlen : (tarName filePath n).length = (logName filePath n).length + 7 := by
    rw [tarName_eq, List.length_append]
    rfl
  have hpos : 0 < (logName filePath n).length := by
    rw [ha, List.length_append, List.length_cons]
    omega
  have htake : (tarName filePath n).take ((tarName filePath n).length - 7) = logName filePath n := by
    rw [hlen, Nat.add_sub_cancel, tarName_eq, List.take_left']
    rfl
  have hlong : 7 < (tarName filePath n).length := by omega
  simp only [revnumOf, hgz, hlong, true_and, if_true, htake, hext, Option.map_some, hrev]

/-! ## The directory -/

/-- The revisions of the names that are looked at. -/
def revisions (filePath : Bytes) (names : List Bytes) : List (Nat × Bool) :=
  names.filterMap fun fName => if fileNameOnly filePath <:+: fName then revnumOf fName else none

theorem findMinMaxRevNum_eq (filePath : Bytes) (names : List Bytes) :
    findMinMaxRevNum filePath names = (revisions filePath names).foldl RevNums.add ⟨false, 0, 0⟩ := by
  rw [findMinMaxRevNum, revisions, List.foldl_filterMap]
  congr 1
  funext s fName
  split
  · unfold findMinMaxRevNumInternal
    cases revnumOf fName <;> rfl
  · rfl

/-- The number to write to, where this file is there. -/
def nextRevnum (r : Nat × Bool) : Nat := if r.2 then r.1 + 1 else r.1

/-- What is found after some files. -/
structure RevNums.Spans (s : RevNums) (revs : List (Nat × Bool)) : Prop where
  initialized : s.minRevnumInitialized = true
  min : IsLeast {n | ∃ r ∈ revs, r.1 = n} s.minRevnum
  max : IsGreatest {n | ∃ r ∈ revs, nextRevnum r = n} s.maxRevnum

theorem spans_singleton (r : Nat × Bool) : (RevNums.add ⟨false, 0, 0⟩ r).Spans [r] := by
  constructor
  · rfl
  · simp [RevNums.add, IsLeast, lowerBounds]
  · simp [RevNums.add, IsGreatest, upperBounds, nextRevnum]

theorem RevNums.Spans.add {s : RevNums} {revs : List (Nat × Bool)} (h : s.Spans revs) (r : Nat × Bool) :
    (s.add r).Spans (revs ++ [r]) := by
  obtain ⟨hinit, hmin, hmax⟩ := h
  have hsets : ∀ g : Nat × Bool → Nat, {n | ∃ q ∈ revs ++ [r], g q = n} = insert (g r) {n | ∃ q ∈ revs, g q = n} := by
    intro g
    ext n
    simp only [Set.mem_ofPred_eq, Set.mem_insert_iff, List.mem_append, List.mem_singleton, or_and_right, exists_or,
      exists_eq_left]
    rw [or_comm, eq_comm]
  constructor
  · rfl
  · rw [hsets]
    show IsLeast _ (Min.min (if s.minRevnumInitialized = true then s.minRevnum else r.1) r.1)
    rw [if_pos hinit, min_comm]
    exact hmin.insert r.1
  · rw [hsets]
    show IsGreatest _ (Max.max s.maxRevnum (nextRevnum r))
    rw [max_comm]
    exact hmax.insert (nextRevnum r)

theorem spans_foldl {revs : List (Nat × Bool)} (h : revs ≠ []) : (revs.foldl RevNums.add ⟨false, 0, 0⟩).Spans revs := by
  induction revs using List.reverseRecOn with
  | nil => exact absurd rfl h
  | append_singleton revs r ih =>
    rw [List.foldl_append]
    rcases eq_or_ne revs [] with rfl | hne
    · exact spans_singleton r
    · exact (ih hne).add r

/-- A listing of a directory: the log files with these numbers, plain and compressed, and files whose names have
nothing of the log's in them, in any order. -/
structure Lists (filePath : Bytes) (plain tar : Nat → Prop) (names : List Bytes) : Prop where
  has_plain : ∀ n, plain n → logName filePath n ∈ names
  has_tar : ∀ n, tar n → tarName filePath n ∈ names
  only : ∀ fName ∈ names, fileNameOnly filePath <:+: fName →
    (∃ n, plain n ∧ fName = logName filePath n) ∨ ∃ n, tar n ∧ fName = tarName filePath n

theorem mem_revisions {filePath : Bytes} {plain tar : Nat → Prop} {names : List Bytes} (hp : PlainName filePath)
    (h : Lists filePath plain tar names) (hlt : ∀ n, plain n ∨ tar n → n < 2 ^ 31) {r : Nat × Bool} :
    r ∈ revisions filePath names ↔ if r.2 then tar r.1 else plain r.1 := by
  obtain ⟨n, comp⟩ := r
  rw [revisions, List.mem_filterMap]
  constructor
  · rintro ⟨fName, hmem, hrev⟩
    split at hrev
    · rename_i hinfix
      rcases h.only fName hmem hinfix with ⟨m, hm, rfl⟩ | ⟨m, hm, rfl⟩
      · rw [revnumOf_logName hp (hlt m (Or.inl hm))] at hrev
        cases hrev
        exact hm
      · rw [revnumOf_tarName hp (hlt m (Or.inr hm))] at hrev
        cases hrev
        exact hm
    · cases hrev
  · cases comp with
    | false =>
      intro hn
      exact ⟨logName filePath n, h.has_plain n hn, by rw [if_pos (infix_logName _ _), revnumOf_logName hp (hlt n (Or.inl hn))]⟩
    | true =>
      intro hn
      exact ⟨tarName filePath n, h.has_tar n hn, by rw [if_pos (infix_tarName _ _), revnumOf_tarName hp (hlt n (Or.inr hn))]⟩

/-- **What a directory says**: the smallest number of a log file, and the largest of a plain file or one above that
of a compressed file. -/
theorem findMinMaxRevNum_spec {filePath : Bytes} {plain tar : Nat → Prop} {names : List Bytes} (hp : PlainName filePath)
    (h : Lists filePath plain tar names) (hlt : ∀ n, plain n ∨ tar n → n < 2 ^ 31) (hsome : ∃ n, plain n ∨ tar n) :
    IsLeast {n | plain n ∨ tar n} (findMinMaxRevNum filePath names).minRevnum ∧
      IsGreatest {n | plain n ∨ ∃ m, tar m ∧ m + 1 = n} (findMinMaxRevNum filePath names).maxRevnum := by
  have hmem : ∀ {r : Nat × Bool}, r ∈ revisions filePath names ↔ if r.2 then tar r.1 else plain r.1 := mem_revisions hp h hlt
  have hne : revisions filePath names ≠ [] := by
    obtain ⟨n, hn | hn⟩ := hsome
    · exact List.ne_nil_of_mem ((hmem (r := (n, false))).mpr hn)
    · exact List.ne_nil_of_mem ((hmem (r := (n, true))).mpr hn)
  obtain ⟨-, hmin, hmax⟩ := spans_foldl hne
  rw [findMinMaxRevNum_eq]
  have hmins : {n | ∃ r ∈ revisions filePath names, r.1 = n} = {n | plain n ∨ tar n} := by
    ext n
    simp only [Set.mem_ofPred_eq, hmem, Prod.exists, Bool.exists_bool]
    simp [exists_or]
  have hmaxs : {n | ∃ r ∈ revisions filePath names, nextRevnum r = n} = {n | plain n ∨ ∃ m, tar m ∧ m + 1 = n} := by
    ext n
    simp only [Set.mem_ofPred_eq, hmem, Prod.exists, Bool.exists_bool, nextRevnum]
    simp [exists_or]
  rw [← hmins, ← hmaxs]
  exact ⟨hmin, hmax⟩

theorem findMinMaxRevNum_nil {filePath : Bytes} {names : List Bytes} (h : Lists filePath (fun _ => False) (fun _ => False) names) :
    findMinMaxRevNum filePath names = ⟨false, 0, 0⟩ := by
  have hnil : revisions filePath names = [] := by
    rw [revisions, List.filterMap_eq_nil_iff]
    intro fName hmem
    rw [if_neg]
    intro hinfix
    rcases h.only fName hmem hinfix with ⟨n, hn, -⟩ | ⟨n, hn, -⟩ <;> exact hn
  rw [findMinMaxRevNum_eq, hnil]
  rfl

/-- The log of the Raft server. -/
def srvLog : Bytes := ascii "./srv.log"

theorem plainName_srvLog : PlainName srvLog := by decide

end SimpleLogger
end VectorDb
