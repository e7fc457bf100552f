import VectorDb.Search
import VectorDb.Lib.Paging

/-!
# `ScalarStorage::scan_page`

* `scanLoop`, `scanPage` : one loop that skips, collects and looks ahead, over the keys from a seek on;
* `rangeOf` : the keys with a prefix and not above a bound, in order;
* `scanPage_items`, `scanPage_hasMore` : a page holds its ranks of the range, and says whether there is another;
* `scanPage_enumerates` : the pages, one after the other, are the range;
* `HttpServer.getScalarHandler` : the limits of the two numbers.
-/

namespace VectorDb
open Std (ExtTreeMap)

/-- The keys of RocksDB in bytewise order. -/
abbrev KeyValues := ExtTreeMap Bytes Bytes

structure ScalarKvPage where
  items : List (Bytes × Bytes)
  hasMore : Bool

namespace ScalarStorage

/-- All that RocksDB holds: the other keys, and the documents, as they are written, under their decimal ids. -/
def content (write : Json → Bytes) (s : ScalarStorage) : KeyValues :=
  s.docs.foldl (fun m id d => m.insert (decimal id.toNat) (write d)) s.blobs

/-- The lambda `key_in_range`. -/
def keyInRange (keyPrefix keyUpper k : Bytes) : Bool :=
  if keyPrefix ≠ [] ∧ (k.length < keyPrefix.length ∨ k.take keyPrefix.length ≠ keyPrefix) then false
  else if keyUpper ≠ [] ∧ keyUpper < k then false
  else true

/-- The iterator: what it has before it. -/
def seek (m : KeyValues) (keyPrefix : Bytes) : List (Bytes × Bytes) :=
  if keyPrefix ≠ [] then m.toList.dropWhile fun kv => kv.1 < keyPrefix else m.toList

/-- The loop: what is left to skip, the items, the iterator. -/
def scanLoop (inRange : Bytes → Bool) (pageSize : Nat) :
    Nat → List (Bytes × Bytes) → List (Bytes × Bytes) → ScalarKvPage × List (Bytes × Bytes)
  | _, items, [] => (⟨items, false⟩, [])
  | skip, items, (k, v) :: it =>
    if ¬ inRange k then (⟨items, false⟩, (k, v) :: it)
    else if 0 < skip then scanLoop inRange pageSize (skip - 1) items it
    else if items.length < pageSize then scanLoop inRange pageSize 0 (items ++ [(k, v)]) it
    else (⟨items, true⟩, (k, v) :: it)

/-- `size_t` has 64 bits. -/
def scanPage (m : KeyValues) (keyPrefix keyUpper : Bytes) (pageNum pageSize : Nat) : ScalarKvPage :=
  if pageSize = 0 ∨ pageNum = 0 then ⟨[], false⟩
  else
    let inRange := keyInRange keyPrefix keyUpper
    let skip := (pageNum - 1) * pageSize % 2 ^ 64
    match scanLoop inRange pageSize skip [] (seek m keyPrefix) with
    | (page, it) =>
      -- the look-ahead after the loop
      match it with
      | [] => page
      | (k, _) :: _ =>
        if page.items.length = pageSize ∧ page.hasMore = false then { page with hasMore := inRange k } else page

/-! ## The range -/

/-- The keys with that prefix and not above the bound, in order. -/
def rangeOf (m : KeyValues) (keyPrefix keyUpper : Bytes) : List (Bytes × Bytes) :=
  m.toList.filter fun kv => keyInRange keyPrefix keyUpper kv.1

theorem keyInRange_iff {keyPrefix keyUpper k : Bytes} :
    keyInRange keyPrefix keyUpper k = true ↔ keyPrefix <+: k ∧ (keyUpper = [] ∨ k ≤ keyUpper) := by
  have htake : keyPrefix <+: k ↔ ¬ (keyPrefix ≠ [] ∧ (k.length < keyPrefix.length ∨ k.take keyPrefix.length ≠ keyPrefix)) := by
    rw [List.prefix_iff_eq_take]
    constructor
    · rintro h ⟨-, hlt | hne⟩
      · have hlen := congrArg List.length h
        rw [List.length_take] at hlen
        omega
      · exact hne h.symm
    · intro h
      by_contra hne
      refine h ⟨?_, Or.inr fun heq => hne heq.symm⟩
      rintro rfl
      exact hne rfl
  have hupper : (keyUpper = [] ∨ k ≤ keyUpper) ↔ ¬ (keyUpper ≠ [] ∧ keyUpper < k) := by
    rw [not_and_or, not_not, List.not_lt]
  rw [htake, hupper]
  unfold keyInRange
  split
  · rename_i h
    simp [h]
  · rename_i h
    split
    · rename_i h'
      simp [h']
    · rename_i h'
      exact iff_of_true rfl ⟨h, h'⟩

theorem mem_rangeOf {m : KeyValues} {keyPrefix keyUpper k v : Bytes} :
    (k, v) ∈ rangeOf m keyPrefix keyUpper ↔ m[k]? = some v ∧ keyPrefix <+: k ∧ (keyUpper = [] ∨ k ≤ keyUpper) := by
  rw [rangeOf, List.mem_filter, ExtTreeMap.mem_toList_iff_getElem?_eq_some, keyInRange_iff]

theorem pairwise_toList (m : KeyValues) : m.toList.Pairwise fun a b => a.1 < b.1 :=
  ExtTreeMap.ordered_keys_toList.imp fun h => (compare_eq_lt_iff _ _).mp h

theorem pairwise_rangeOf (m : KeyValues) (keyPrefix keyUpper : Bytes) :
    (rangeOf m keyPrefix keyUpper).Pairwise fun a b => a.1 < b.1 := (pairwise_toList m).sublist List.filter_sublist

/-- **The seek and the break** leave the range: no key before the seek is in it, and none after the first key outside. -/
theorem takeWhile_seek (m : KeyValues) (keyPrefix keyUpper : Bytes) :
    (seek m keyPrefix).takeWhile (fun kv => keyInRange keyPrefix keyUpper kv.1) = rangeOf m keyPrefix keyUpper := by
  have hseek : seek m keyPrefix = m.toList.dropWhile fun kv => kv.1 < keyPrefix := by
    unfold seek
    split
    · rfl
    · rename_i hnil
      rw [not_not.mp hnil]
      symm
      rw [List.dropWhile_eq_self_iff]
      intro hl
      simp
  rw [hseek]
  refine takeWhile_dropWhile_eq_filter (pairwise_toList m) ?_ ?_ ?_
  · intro a b hab hb
    rw [decide_eq_true_eq] at hb ⊢
    exact List.lt_trans hab hb
  · intro a ha
    rw [decide_eq_true_eq] at ha
    rw [Bool.eq_false_iff, Ne, keyInRange_iff]
    rintro ⟨hpre, -⟩
    exact List.not_le.mpr ha hpre.le
  · intro a b hab ha hout
    rw [decide_eq_false_iff_not, List.not_lt] at ha
    rw [Bool.eq_false_iff, Ne, keyInRange_iff] at hout ⊢
    rintro ⟨hpre, hle⟩
    -- a key between the prefix and a key of the range is one of it
    refine hout ⟨prefix_of_le_of_le hpre ha (List.le_of_lt hab), hle.imp_right fun hle => ?_⟩
    exact List.le_trans (List.le_of_lt hab) hle

/-! ## The loop -/

/-- **The loop** skips, collects up to the page size, and has more when the range goes on. -/
theorem scanLoop_eq {inRange : Bytes → Bool} {pageSize skip : Nat} {items it : List (Bytes × Bytes)}
    (hlen : items.length ≤ pageSize) :
    (scanLoop inRange pageSize skip items it).1 =
      ⟨items ++ ((it.takeWhile fun kv => inRange kv.1).drop skip).take (pageSize - items.length),
        decide (pageSize - items.length < (it.takeWhile fun kv => inRange kv.1).length - skip)⟩ := by
  induction it generalizing skip items with
  | nil => simp [scanLoop]
  | cons kv it ih =>
    obtain ⟨k, v⟩ := kv
    unfold scanLoop
    cases hk : inRange k with
    | false =>
      have hstop : ((k, v) :: it).takeWhile (fun kv => inRange kv.1) = [] :=
        List.takeWhile_cons_of_neg (by simp [hk])
      rw [if_pos (by decide), hstop]
      simp
    | true =>
      have hgo : ((k, v) :: it).takeWhile (fun kv => inRange kv.1) = (k, v) :: it.takeWhile (fun kv => inRange kv.1) :=
        List.takeWhile_cons_of_pos hk
      rw [if_neg (by decide), hgo, List.length_cons]
      by_cases hskip : 0 < skip
      · obtain ⟨n, rfl⟩ : ∃ n, skip = n + 1 := ⟨skip - 1, by omega⟩
        rw [if_pos hskip, Nat.add_sub_cancel, ih hlen, List.drop_succ_cons, Nat.add_sub_add_right]
      · obtain rfl : skip = 0 := by omega
        rw [if_neg hskip]
        by_cases hfull : items.length < pageSize
        · obtain ⟨n, hn⟩ : ∃ n, pageSize - items.length = n + 1 := ⟨pageSize - items.length - 1, by omega⟩
          rw [if_pos hfull, ih (by rw [List.length_append, List.length_singleton]; omega), List.length_append,
            List.length_singleton, ← Nat.sub_sub, hn, Nat.add_sub_cancel, List.drop_zero, List.drop_zero,
            List.take_succ_cons, List.append_assoc, List.singleton_append]
          congr 1
          apply decide_eq_decide.mpr
          omega
        · rw [if_neg hfull]
          have hzero : pageSize - items.length = 0 := by omega
          rw [hzero, List.take_zero, List.append_nil]
          simp

/-- A loop that ends without a look at more stands at the end, or at a key outside the range. -/
theorem scanLoop_stops {inRange : Bytes → Bool} {pageSize skip : Nat} {items it rest : List (Bytes × Bytes)} {k v : Bytes}
    (h : (scanLoop inRange pageSize skip items it).2 = (k, v) :: rest)
    (hmore : (scanLoop inRange pageSize skip items it).1.hasMore = false) : inRange k = false := by
  induction it generalizing skip items with
  | nil => cases h
  | cons kv it ih =>
    obtain ⟨k', v'⟩ := kv
    unfold scanLoop at h hmore
    split at h
    · rename_i hout
      cases h
      simpa using hout
    · rename_i hin
      rw [if_neg hin] at hmore
      split at h
      · rename_i hskip
        rw [if_pos hskip] at hmore
        exact ih h hmore
      · rename_i hskip
        rw [if_neg hskip] at hmore
        split at h
        · rename_i hfull
          rw [if_pos hfull] at hmore
          exact ih h hmore
        · rename_i hfull
          rw [if_neg hfull] at hmore
          cases hmore

section
variable (m : KeyValues) (keyPrefix keyUpper : Bytes) {pageNum pageSize : Nat}

/-- The look-ahead after the loop finds nothing new. -/
theorem scanPage_eq (hs : 0 < pageSize) (hn : 0 < pageNum) (hfits : (pageNum - 1) * pageSize < 2 ^ 64) :
    scanPage m keyPrefix keyUpper pageNum pageSize = ⟨page (rangeOf m keyPrefix keyUpper) pageSize pageNum,
      decide (pageNum * pageSize < (rangeOf m keyPrefix keyUpper).length)⟩ := by
  have hmul : pageNum * pageSize = (pageNum - 1) * pageSize + pageSize := by
    obtain ⟨n, rfl⟩ : ∃ n, pageNum = n + 1 := ⟨pageNum - 1, by omega⟩
    rw [Nat.add_sub_cancel, Nat.add_mul, Nat.one_mul]
  have hmore : decide (pageSize < (rangeOf m keyPrefix keyUpper).length - (pageNum - 1) * pageSize) =
      decide (pageNum * pageSize < (rangeOf m keyPrefix keyUpper).length) := by
    apply decide_eq_decide.mpr
    omega
  have hloop : (scanLoop (keyInRange keyPrefix keyUpper) pageSize ((pageNum - 1) * pageSize) []
      (seek m keyPrefix)).1 = ⟨page (rangeOf m keyPrefix keyUpper) pageSize pageNum,
        decide (pageNum * pageSize < (rangeOf m keyPrefix keyUpper).length)⟩ := by
    rw [scanLoop_eq (Nat.zero_le _), takeWhile_seek, List.nil_append, List.length_nil, Nat.sub_zero, hmore, page]
  rw [← hloop]
  unfold scanPage
  rw [if_neg (by omega), Nat.mod_eq_of_lt hfits]
  cases hrun : scanLoop (keyInRange keyPrefix keyUpper) pageSize ((pageNum - 1) * pageSize) [] (seek m keyPrefix) with
  | mk p it =>
    simp only [hrun]
    cases it with
    | nil => rfl
    | cons kv rest =>
      obtain ⟨k, v⟩ := kv
      simp only
      by_cases hlast : p.items.length = pageSize ∧ p.hasMore = false
      · have hout : keyInRange keyPrefix keyUpper k = false :=
          scanLoop_stops (congrArg Prod.snd hrun) ((congrArg (fun r => r.1.hasMore) hrun).trans hlast.2)
        rw [if_pos hlast, hout, ← hlast.2]
      · rw [if_neg hlast]

/-- **One page** holds its ranks of the range. -/
theorem scanPage_items (hs : 0 < pageSize) (hn : 0 < pageNum) (hfits : (pageNum - 1) * pageSize < 2 ^ 64) :
    (scanPage m keyPrefix keyUpper pageNum pageSize).items = page (rangeOf m keyPrefix keyUpper) pageSize pageNum := by
  rw [scanPage_eq m keyPrefix keyUpper hs hn hfits]

/-- There is more when the range goes on behind the page. -/
theorem scanPage_hasMore_eq (hs : 0 < pageSize) (hn : 0 < pageNum) (hfits : (pageNum - 1) * pageSize < 2 ^ 64) :
    (scanPage m keyPrefix keyUpper pageNum pageSize).hasMore =
      decide (pageNum * pageSize < (rangeOf m keyPrefix keyUpper).length) := by
  rw [scanPage_eq m keyPrefix keyUpper hs hn hfits]

/-- **There is more** exactly when the next page is not empty. -/
theorem scanPage_hasMore (hs : 0 < pageSize) (hn : 0 < pageNum) (hfits : pageNum * pageSize < 2 ^ 64) :
    (scanPage m keyPrefix keyUpper pageNum pageSize).hasMore = true ↔
      (scanPage m keyPrefix keyUpper (pageNum + 1) pageSize).items ≠ [] := by
  have hprev : (pageNum - 1) * pageSize < 2 ^ 64 :=
    Nat.lt_of_le_of_lt (Nat.mul_le_mul_right pageSize (Nat.sub_le pageNum 1)) hfits
  rw [scanPage_hasMore_eq m keyPrefix keyUpper hs hn hprev,
    scanPage_items m keyPrefix keyUpper hs (Nat.succ_pos pageNum) hfits, page_ne_nil_iff hs, decide_eq_true_eq]

end

/-! ## All pages -/

/-- The pages `1` to `limit` enumerate `range`. -/
structure Enumerates (pageOf : Nat → ScalarKvPage) (range : List (Bytes × Bytes)) (pageSize limit : Nat) : Prop where
  /-- Every rank, and every counter of the loop, is a `size_t`. -/
  fits : ∀ n, 1 ≤ n → n ≤ limit → n * pageSize < 2 ^ 64
  items : ∀ n, 1 ≤ n → n ≤ limit → (pageOf n).items = (range.drop ((n - 1) * pageSize)).take pageSize
  hasMore : ∀ n, 1 ≤ n → n ≤ limit → ((pageOf n).hasMore = true ↔ (pageOf (n + 1)).items ≠ [])
  /-- A range that fits in the pages has a first page without more, -/
  ends : range.length ≤ limit * pageSize →
    ∃ n, 1 ≤ n ∧ n ≤ limit ∧ (∀ i, 1 ≤ i → i < n → (pageOf i).hasMore = true) ∧ (pageOf n).hasMore = false
  /-- and the pages up to it are the range. -/
  all : ∀ n, 1 ≤ n → n ≤ limit → (∀ i, 1 ≤ i → i < n → (pageOf i).hasMore = true) → (pageOf n).hasMore = false →
    (List.range' 1 n).flatMap (fun i => (pageOf i).items) = range

section
variable (m : KeyValues) (keyPrefix keyUpper : Bytes) {pageSize limit : Nat}

/-- A range that fits in the pages has a first page that reaches its end. -/
theorem exists_last_page (hs : 0 < pageSize) (hlimit : 1 ≤ limit) (hfits : limit * pageSize < 2 ^ 64)
    (hlen : (rangeOf m keyPrefix keyUpper).length ≤ limit * pageSize) : ∃ n, 1 ≤ n ∧ n ≤ limit ∧
      (∀ i, 1 ≤ i → i < n → (scanPage m keyPrefix keyUpper i pageSize).hasMore = true) ∧
        (scanPage m keyPrefix keyUpper n pageSize).hasMore = false := by
  have hmore : ∀ n, 1 ≤ n → n ≤ limit → (scanPage m keyPrefix keyUpper n pageSize).hasMore =
      decide (n * pageSize < (rangeOf m keyPrefix keyUpper).length) := by
    intro n h1 hn
    apply scanPage_hasMore_eq m keyPrefix keyUpper hs h1
    exact Nat.lt_of_le_of_lt (Nat.mul_le_mul_right pageSize (by omega)) hfits
  have hreach : ∃ n, 1 ≤ n ∧ (rangeOf m keyPrefix keyUpper).length ≤ n * pageSize := ⟨limit, hlimit, hlen⟩
  obtain ⟨hpos, hlast⟩ := Nat.find_spec hreach
  have hle : Nat.find hreach ≤ limit := Nat.find_min' hreach ⟨hlimit, hlen⟩
  refine ⟨Nat.find hreach, hpos, hle, fun i h1 hi => ?_, ?_⟩
  · have hnot := Nat.find_min hreach hi
    rw [hmore i h1 (by omega), decide_eq_true_eq]
    exact Nat.not_le.mp fun hge => hnot ⟨h1, hge⟩
  · rw [hmore _ hpos hle, decide_eq_false_iff_not]
    exact Nat.not_lt.mpr hlast

/-- The pages up to one that reaches the end are the range. -/
theorem flatMap_scanPage (hs : 0 < pageSize) (hfits : limit * pageSize < 2 ^ 64) {n : Nat} (h1 : 1 ≤ n) (hn : n ≤ limit)
    (hlast : (scanPage m keyPrefix keyUpper n pageSize).hasMore = false) :
    (List.range' 1 n).flatMap (fun i => (scanPage m keyPrefix keyUpper i pageSize).items) = rangeOf m keyPrefix keyUpper := by
  have hbelow : ∀ i, i ≤ limit → (i - 1) * pageSize < 2 ^ 64 := fun i hi =>
    Nat.lt_of_le_of_lt (Nat.mul_le_mul_right pageSize (by omega)) hfits
  have hpages : (List.range' 1 n).flatMap (fun i => (scanPage m keyPrefix keyUpper i pageSize).items) =
      (List.range' 1 n).flatMap (page (rangeOf m keyPrefix keyUpper) pageSize) := by
    apply List.flatMap_congr
    intro i hi
    rw [List.mem_range'_1] at hi
    exact scanPage_items m keyPrefix keyUpper hs hi.1 (hbelow i (by omega))
  rw [scanPage_hasMore_eq m keyPrefix keyUpper hs h1 (hbelow n hn), decide_eq_false_iff_not] at hlast
  rw [hpages, flatMap_page, List.take_eq_self_iff]
  exact Nat.not_lt.mp hlast

end

/-- **Paging.** For every content, prefix, bound and page size from 1 to 1000, the pages up to 1000000 enumerate the keys
with that prefix and not above the bound, each once with its value, in bytewise order. -/
theorem scanPage_enumerates (m : KeyValues) (keyPrefix keyUpper : Bytes) {pageSize : Nat} (hpos : 1 ≤ pageSize)
    (hmax : pageSize ≤ 1000) : ∃ range : List (Bytes × Bytes), (range.Pairwise fun a b => a.1 < b.1) ∧
      (∀ k v, (k, v) ∈ range ↔ m[k]? = some v ∧ keyPrefix <+: k ∧ (keyUpper = [] ∨ k ≤ keyUpper)) ∧
      Enumerates (fun n => scanPage m keyPrefix keyUpper n pageSize) range pageSize 1000000 := by
  have hfits : ∀ n, n ≤ 1000000 → n * pageSize < 2 ^ 64 := by
    intro n hn
    calc n * pageSize ≤ 1000000 * 1000 := Nat.mul_le_mul hn hmax
      _ < 2 ^ 64 := by decide
  have hlimit := hfits 1000000 (Nat.le_refl _)
  refine ⟨rangeOf m keyPrefix keyUpper, pairwise_rangeOf m keyPrefix keyUpper, fun k v => mem_rangeOf, ?_⟩
  constructor
  case fits =>
    intro n _ hn
    exact hfits n hn
  case items =>
    intro n h1 hn
    exact scanPage_items m keyPrefix keyUpper hpos h1 (hfits (n - 1) (by omega))
  case hasMore =>
    intro n h1 hn
    exact scanPage_hasMore m keyPrefix keyUpper hpos h1 (hfits n hn)
  case ends => exact exists_last_page m keyPrefix keyUpper hpos (by decide) hlimit
  case all =>
    intro n h1 hn _ hlast
    exact flatMap_scanPage m keyPrefix keyUpper hpos hlimit h1 hn hlast

/-- Two documents and another key, one item a page. -/
def threeKeys : KeyValues := ((∅ : KeyValues).insert (ascii "1") []).insert (ascii "10") [] |>.insert (ascii "a") []

theorem scanPage_enumerates_threeKeys : ∃ range : List (Bytes × Bytes), (range.Pairwise fun a b => a.1 < b.1) ∧
    (∀ k v, (k, v) ∈ range ↔ threeKeys[k]? = some v ∧ ascii "1" <+: k ∧ (ascii "1" = [] ∨ k ≤ ascii "1")) ∧
    Enumerates (fun n => scanPage threeKeys (ascii "1") (ascii "1") n 1) range 1 1000000 :=
  scanPage_enumerates threeKeys (ascii "1") (ascii "1") (by decide) (by decide)

end ScalarStorage

/-! ## The handler -/

/-- `strtoul` in base 10: the value and where the reading ends, `none` when there is no digit. -/
def strtoul (s : Bytes) : Option (Nat × Bytes) :=
  let signed := readSign (s.dropWhile isSpace)
  let ds := signed.2.takeWhile isDigit
  let n := digitsVal ds
  if ds = [] then none
  else some (if 2 ^ 64 ≤ n then 2 ^ 64 - 1 else if signed.1 then (2 ^ 64 - n) % 2 ^ 64 else n, signed.2.dropWhile isDigit)

def VectorDatabase.getScalarsPage {F : Type} (write : Json → Bytes) (db : VectorDatabase F) (keyPrefix key : Bytes)
    (pageNum pageSize : Nat) : ScalarKvPage :=
  ScalarStorage.scanPage (ScalarStorage.content write db.stores.scalarStorage) keyPrefix key pageNum pageSize

namespace HttpServer
variable {F : Type} (parse : Bytes → Option Json) (write : Json → Bytes)

/-- One of the two numbers: what it is when the parameter is empty, and its limit. -/
def pageParam (initial limit : Nat) (s : Bytes) : Option Nat :=
  if s = [] then some initial
  else
    match strtoul (cstr s) with
    | none => none
    | some (v, rest) => if rest ≠ [] ∨ v = 0 ∨ limit < v then none else some v

def pageNumParam : Bytes → Option Nat := pageParam 1 1000000

def pageSizeParam : Bytes → Option Nat := pageParam 100 1000

/-- One item: a value that is no JSON object is listed as null. -/
def scalarItem (kv : Bytes × Bytes) : Json :=
  let dataDoc := (parse (cstr kv.2)).getD .null
  .obj [(ascii "key", .str (cstr kv.1)), (ascii "data", if dataDoc.isObject then dataDoc else .null)]

def scalarPageResponse (page : ScalarKvPage) (pageNum pageSize : Nat) : Response :=
  success [(ascii "items", .arr (page.items.map (scalarItem parse))), (ascii "hasMore", .bool page.hasMore),
    (ascii "pageNum", .int pageNum), (ascii "pageSize", .int pageSize)]

def getScalarHandler (db : VectorDatabase F) (keyPrefix keyUpper pageNumStr pageSizeStr : Bytes) : Response :=
  match pageNumParam pageNumStr with
  | none => badRequest (ascii "Invalid page_num parameter")
  | some pageNum =>
    match pageSizeParam pageSizeStr with
    | none => badRequest (ascii "Invalid page_size parameter")
    | some pageSize =>
      scalarPageResponse parse (db.getScalarsPage write keyPrefix keyUpper pageNum pageSize) pageNum pageSize

theorem pageParam_bounds {initial limit n : Nat} {s : Bytes} (h : pageParam initial limit s = some n) (hi : 1 ≤ initial)
    (hl : initial ≤ limit) : 1 ≤ n ∧ n ≤ limit := by
  unfold pageParam at h
  split at h
  · cases h
    exact ⟨hi, hl⟩
  · split at h
    · cases h
    · split at h
      · cases h
      · rename_i v rest _ hv
        cases h
        omega

/-- **The handler** answers every request it takes with a page of the range, its numbers within the limits. -/
theorem getScalarHandler_eq (db : VectorDatabase F) (keyPrefix keyUpper pageNumStr pageSizeStr : Bytes) {res : Response}
    (h : getScalarHandler parse write db keyPrefix keyUpper pageNumStr pageSizeStr = res) (hok : res.status = 200) :
    ∃ pageNum pageSize, pageNumParam pageNumStr = some pageNum ∧ pageSizeParam pageSizeStr = some pageSize ∧
      1 ≤ pageNum ∧ pageNum ≤ 1000000 ∧ 1 ≤ pageSize ∧ pageSize ≤ 1000 ∧
      res = scalarPageResponse parse (db.getScalarsPage write keyPrefix keyUpper pageNum pageSize) pageNum pageSize := by
  subst h
  unfold getScalarHandler at hok ⊢
  cases hnum : pageNumParam pageNumStr with
  | none =>
    rw [hnum] at hok
    cases hok
  | some pageNum =>
    cases hsize : pageSizeParam pageSizeStr with
    | none =>
      rw [hnum, hsize] at hok
      cases hok
    | some pageSize =>
      have hn := pageParam_bounds hnum (by decide) (by decide)
      have hs := pageParam_bounds hsize (by decide) (by decide)
      exact ⟨pageNum, pageSize, rfl, rfl, hn.1, hn.2, hs.1, hs.2, rfl⟩

/-- Blanks and a plus are read, a rest is not. -/
example : pageNumParam (ascii " +12") = some 12 ∧ pageNumParam (ascii "12a") = none ∧ pageSizeParam [] = some 100 := by decide

end HttpServer
end VectorDb
