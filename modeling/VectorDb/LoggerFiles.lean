import VectorDb.LoggerNames
import VectorDb.Lib.Run

/-!
# The files of the log

* `LogFiles`, `write`, `endFlush` : the stream into the current file, and the change to the next one;
* `compress` : the worker that compresses the files that are full and removes the oldest, command by command;
* `LogFiles.Step` : these, and a crash with the start of a new process, that finds its numbers in the directory;
* `start_empty` : the first start, whatever else is in the directory;
* `LogFiles.Kept`, `kept_run` : in any run the files that are there hold what was written to them;
* `latest_kept` : the latest ones are there, and together they are the end of the log;
* `LogFiles.Pruned`, `old_removed` : where nothing is left to compress, the others are gone.
-/

namespace VectorDb
namespace SimpleLogger

/-- A file as it is written, and compressed. -/
structure LogFile where
  plain : Option Bytes
  tar : Option Bytes

namespace LogFile

def absent : LogFile := ⟨none, none⟩

/-- What was written to it, if it is there. -/
def content (f : LogFile) : Option Bytes := f.plain.or f.tar

end LogFile

/-- What the worker does next with a file, or to one that is too old. -/
inductive Compressor where
  | idle
  /-- `tar zcvf`. -/
  | tars (fileNum : Nat)
  /-- `rm -f` of what was compressed. -/
  | removes (fileNum : Nat)
  /-- The loop over the old files, before `ii`. -/
  | prunes (fileNum ii : Nat)
  /-- `rm -f` has removed the plain one of two files. -/
  | prunesTar (fileNum ii : Nat)

/-- The files by revision number, and what has been written to each. -/
structure LogFiles where
  disk : Nat → LogFile
  minRevnum : Nat
  curRevnum : Nat
  /-- In the buffer of `fs`. -/
  unflushed : Bytes
  pendingCompElems : List Nat
  compressor : Compressor
  written : Nat → Bytes
  /-- `curRevnum` when the process started. -/
  started : Nat

inductive FilesAction where
  | write (line : Bytes)
  /-- The end of `flush`. -/
  | endFlush
  /-- The worker's next command. -/
  | compress
  /-- A crash, and the start of a new process that reads these names. Of the buffer of `fs`, `stored` bytes got to the
  file; an archive that was being made is `torn`. -/
  | restart (names : List Bytes) (stored : Nat) (torn : Option Bytes)

namespace LogFiles

def setPlain (s : LogFiles) (n : Nat) (plain : Option Bytes) : LogFiles :=
  { s with disk := Function.update s.disk n { s.disk n with plain } }

def setTar (s : LogFiles) (n : Nat) (tar : Option Bytes) : LogFiles :=
  { s with disk := Function.update s.disk n { s.disk n with tar } }

/-- Bytes at the end of the current file. -/
def store (s : LogFiles) (bs : Bytes) : LogFiles :=
  { s.setPlain s.curRevnum (some ((s.disk s.curRevnum).plain.getD [] ++ bs)) with
    written := Function.update s.written s.curRevnum (s.written s.curRevnum ++ bs) }

/-- `fs.open(getLogFilePath(n), out | app)`. -/
def openFile (s : LogFiles) (n : Nat) : LogFiles :=
  { s.setPlain n (some ((s.disk n).plain.getD [])) with curRevnum := n }

/-- `fs.write`. -/
def write (s : LogFiles) (line : Bytes) : LogFiles := { s with unflushed := s.unflushed ++ line }

/-- `fs.flush()`. -/
def sync (s : LogFiles) : LogFiles := { s.store s.unflushed with unflushed := [] }

/-- `fs.tellp()`. -/
def size (s : LogFiles) : Nat := ((s.disk s.curRevnum).plain.getD []).length

section
variable (filePath : Bytes) (maxLogFiles maxLogFileSize : Nat)

/-- Full files go to the worker. -/
def endFlush (s : LogFiles) : LogFiles :=
  let s := s.sync
  if maxLogFileSize ≠ 0 ∧ maxLogFileSize < s.size then
    { s.openFile (s.curRevnum + 1) with pendingCompElems := s.pendingCompElems ++ [s.curRevnum] }
  else s

/-- `compressWorker` and `doCompression`, up to the next command. -/
def compress (s : LogFiles) : LogFiles :=
  match s.compressor with
  | .idle =>
    match s.pendingCompElems with
    | [] => s
    | n :: rest => { s with compressor := .tars n, pendingCompElems := rest }
  | .tars n => { s.setTar n (some ((s.disk n).plain.getD [])) with compressor := .removes n }
  | .removes n =>
    { s.setPlain n none with
      compressor := if maxLogFiles ≠ 0 ∧ maxLogFiles ≤ n then .prunes n s.minRevnum else .idle }
  | .prunes n ii =>
    if ii ≤ n - maxLogFiles then { s.setPlain ii none with compressor := .prunesTar n ii } else { s with compressor := .idle }
  | .prunesTar n ii => { s.setTar ii none with minRevnum := ii + 1, compressor := .prunes n (ii + 1) }

/-- The files that a crash leaves. -/
def crash (s : LogFiles) (stored : Nat) (torn : Option Bytes) : LogFiles :=
  let s := s.store (s.unflushed.take stored)
  match s.compressor with
  | .tars n => s.setTar n torn
  | _ => s

/-- The constructor and `start`, with the numbers that were found. -/
def start (s : LogFiles) (found : RevNums) : LogFiles :=
  { s.openFile found.maxRevnum with
    minRevnum := found.minRevnum, unflushed := [], pendingCompElems := [], compressor := .idle, started := found.maxRevnum }

/-- No log files. -/
def empty : LogFiles := ⟨fun _ => .absent, 0, 0, [], [], .idle, fun _ => [], 0⟩

/-- The first start, in a directory without log files. -/
def first : LogFiles := start empty ⟨false, 0, 0⟩

/-- The first start, whatever else there is in the directory. -/
theorem start_empty {filePath : Bytes} {names : List Bytes} (h : Lists filePath (fun _ => False) (fun _ => False) names) :
    start empty (findMinMaxRevNum filePath names) = first := by
  rw [findMinMaxRevNum_nil h, first]

/-- The names in the directory. -/
def Listing (s : LogFiles) (names : List Bytes) : Prop :=
  Lists filePath (fun n => (s.disk n).plain.isSome = true) (fun n => (s.disk n).tar.isSome = true) names

/-- A new process reads the numbers of the files with `atoi`, which has 32 bits. -/
def Step (s : LogFiles) : FilesAction → LogFiles → Prop
  | .write line, t => t = s.write line
  | .endFlush, t => t = s.endFlush maxLogFileSize
  | .compress, t => t = s.compress maxLogFiles
  | .restart names stored torn, t =>
    s.curRevnum < 2 ^ 31 ∧ (s.crash stored torn).Listing filePath names ∧
      t = (s.crash stored torn).start (findMinMaxRevNum filePath names)

end

/-! ## What is on the disk -/

section
variable {s : LogFiles}

theorem disk_setPlain (s : LogFiles) (n : Nat) (p : Option Bytes) (m : Nat) :
    (s.setPlain n p).disk m = if m = n then ⟨p, (s.disk n).tar⟩ else s.disk m := by
  show Function.update s.disk n _ m = _
  rw [Function.update_apply]

theorem disk_setTar (s : LogFiles) (n : Nat) (p : Option Bytes) (m : Nat) :
    (s.setTar n p).disk m = if m = n then ⟨(s.disk n).plain, p⟩ else s.disk m := by
  show Function.update s.disk n _ m = _
  rw [Function.update_apply]

/-- A full file that waits for the worker. -/
def Job (s : LogFiles) (n : Nat) : Prop :=
  s.minRevnum ≤ n ∧ n < s.curRevnum ∧ (s.disk n).plain = some (s.written n)

/-- Where the worker is, and what it has done. -/
def Worker (maxLogFiles : Nat) (s : LogFiles) : Compressor → Prop
  | .idle => True
  | .tars n => s.Job n ∧ ∀ m ∈ s.pendingCompElems, n < m
  | .removes n => s.minRevnum ≤ n ∧ n < s.curRevnum ∧ (s.disk n).tar = some (s.written n) ∧ ∀ m ∈ s.pendingCompElems, n < m
  | .prunes n ii => ii = s.minRevnum ∧ n < s.curRevnum ∧ 0 < maxLogFiles ∧ maxLogFiles ≤ n ∧
      ∀ m ∈ s.pendingCompElems, n < m
  | .prunesTar n ii => ii = s.minRevnum ∧ n < s.curRevnum ∧ 0 < maxLogFiles ∧ ii + maxLogFiles ≤ n ∧
      (s.disk ii).plain = none ∧ ∀ m ∈ s.pendingCompElems, n < m

/-- The files from `minRevnum` to `curRevnum` are there with all that was written to them, and no others; of the first one,
where it is too old, a part may be left. -/
structure Kept (maxLogFiles : Nat) (s : LogFiles) : Prop where
  current : (s.disk s.curRevnum).plain = some (s.written s.curRevnum)
  tar_lt : ∀ n, s.curRevnum ≤ n → (s.disk n).tar = none
  beyond : ∀ n, s.curRevnum < n → (s.disk n).plain = none
  unwritten : ∀ n, s.curRevnum < n → s.written n = []
  below : ∀ n, n < s.minRevnum → s.disk n = .absent
  min_le : s.minRevnum ≤ s.curRevnum
  content : ∀ n, s.minRevnum ≤ n → n ≤ s.curRevnum → (s.disk n).content = some (s.written n) ∨
    n = s.minRevnum ∧ n + maxLogFiles < s.curRevnum
  jobs : ∀ n ∈ s.pendingCompElems, s.Job n
  sorted : s.pendingCompElems.Pairwise (· < ·)
  worker : s.Worker maxLogFiles s.compressor
  retained : s.minRevnum = 0 ∨ s.minRevnum + maxLogFiles ≤ s.curRevnum

theorem kept_first (maxLogFiles : Nat) : Kept maxLogFiles first := by
  have hdisk : ∀ n, first.disk n = if n = 0 then ⟨some [], none⟩ else .absent := disk_setPlain _ 0 _
  constructor
  case current =>
    show (first.disk 0).plain = some []
    rw [hdisk, if_pos rfl]
  case tar_lt =>
    intro n _
    rw [hdisk]
    split <;> rfl
  case beyond =>
    intro n hn
    rw [hdisk, if_neg (show n ≠ 0 from Nat.ne_of_gt hn)]
    rfl
  case unwritten => exact fun _ _ => rfl
  case below => exact fun n hn => absurd hn (Nat.not_lt_zero n)
  case min_le => exact Nat.le_refl _
  case content =>
    intro n _ hn
    obtain rfl : n = 0 := Nat.le_zero.mp hn
    left
    rw [hdisk, if_pos rfl]
    rfl
  case jobs => exact fun n hn => absurd hn List.not_mem_nil
  case sorted => exact List.Pairwise.nil
  case worker => trivial
  case retained => exact Or.inl rfl

theorem kept_write {maxLogFiles : Nat} (h : Kept maxLogFiles s) (line : Bytes) : Kept maxLogFiles (s.write line) :=
  ⟨h.current, h.tar_lt, h.beyond, h.unwritten, h.below, h.min_le, h.content, h.jobs, h.sorted, h.worker, h.retained⟩

theorem disk_store (h : (s.disk s.curRevnum).plain = some (s.written s.curRevnum)) (bs : Bytes) (n : Nat) :
    (s.store bs).disk n = if n = s.curRevnum then ⟨some (s.written s.curRevnum ++ bs), (s.disk s.curRevnum).tar⟩ else s.disk n := by
  show (s.setPlain _ _).disk n = _
  rw [disk_setPlain, h]
  rfl

theorem written_store (s : LogFiles) (bs : Bytes) (n : Nat) :
    (s.store bs).written n = if n = s.curRevnum then s.written s.curRevnum ++ bs else s.written n := by
  show Function.update s.written _ _ n = _
  rw [Function.update_apply]

theorem job_store {maxLogFiles : Nat} (h : Kept maxLogFiles s) (bs : Bytes) {n : Nat} (hn : s.Job n) : (s.store bs).Job n := by
  obtain ⟨hle, hlt, hplain⟩ := hn
  refine ⟨hle, hlt, ?_⟩
  rw [disk_store h.current, written_store, if_neg (Nat.ne_of_lt hlt), if_neg (Nat.ne_of_lt hlt), hplain]

theorem kept_store {maxLogFiles : Nat} (h : Kept maxLogFiles s) (bs : Bytes) : Kept maxLogFiles (s.store bs) := by
  have hdisk := disk_store h.current bs
  have hwritten := written_store s bs
  constructor
  case current =>
    show ((s.store bs).disk s.curRevnum).plain = some ((s.store bs).written s.curRevnum)
    rw [hdisk, hwritten, if_pos rfl, if_pos rfl]
  case tar_lt =>
    intro n hn
    rw [hdisk]
    split
    · exact h.tar_lt _ (Nat.le_refl _)
    · exact h.tar_lt n hn
  case beyond =>
    intro n hn
    rw [hdisk, if_neg (show n ≠ s.curRevnum from Nat.ne_of_gt hn)]
    exact h.beyond n hn
  case unwritten =>
    intro n hn
    rw [hwritten, if_neg (show n ≠ s.curRevnum from Nat.ne_of_gt hn)]
    exact h.unwritten n hn
  case below =>
    intro n hn
    rw [hdisk, if_neg (Nat.ne_of_lt (Nat.lt_of_lt_of_le hn h.min_le))]
    exact h.below n hn
  case min_le => exact h.min_le
  case content =>
    intro n hmin hcur
    rw [hdisk, hwritten]
    split
    · exact Or.inl rfl
    · exact h.content n hmin hcur
  case jobs => exact fun n hn => job_store h bs (h.jobs n hn)
  case sorted => exact h.sorted
  case worker =>
    have hw := h.worker
    show (s.store bs).Worker maxLogFiles s.compressor
    cases hc : s.compressor with
    | idle => trivial
    | tars n =>
      rw [hc] at hw
      exact ⟨job_store h bs hw.1, hw.2⟩
    | removes n =>
      rw [hc] at hw
      obtain ⟨hle, hlt, htar, hrest⟩ := hw
      refine ⟨hle, hlt, ?_, hrest⟩
      rw [hdisk, hwritten, if_neg (Nat.ne_of_lt hlt), if_neg (Nat.ne_of_lt hlt), htar]
    | prunes n ii =>
      rw [hc] at hw
      exact hw
    | prunesTar n ii =>
      rw [hc] at hw
      obtain ⟨hii, hlt, hpos, hle, hplain, hrest⟩ := hw
      refine ⟨hii, hlt, hpos, hle, ?_, hrest⟩
      rw [hdisk, if_neg (by omega), hplain]
  case retained => exact h.retained

theorem kept_sync {maxLogFiles : Nat} (h : Kept maxLogFiles s) : Kept maxLogFiles s.sync := by
  have ht := kept_store h s.unflushed
  exact ⟨ht.current, ht.tar_lt, ht.beyond, ht.unwritten, ht.below, ht.min_le, ht.content, ht.jobs, ht.sorted, ht.worker,
    ht.retained⟩

/-- The next file is opened, and the full one goes to the worker. -/
theorem kept_next {maxLogFiles : Nat} (h : Kept maxLogFiles s) : Kept maxLogFiles
    { s.openFile (s.curRevnum + 1) with pendingCompElems := s.pendingCompElems ++ [s.curRevnum] } := by
  have hdisk : ∀ n, (s.openFile (s.curRevnum + 1)).disk n = if n = s.curRevnum + 1 then ⟨some [], none⟩ else s.disk n := by
    intro n
    show (s.setPlain _ _).disk n = _
    rw [disk_setPlain, h.beyond _ (Nat.lt_succ_self _), h.tar_lt _ (Nat.le_succ _)]
    rfl
  have hjob : ∀ n, s.Job n → (s.openFile (s.curRevnum + 1)).Job n := by
    rintro n ⟨hle, hlt, hplain⟩
    refine ⟨hle, Nat.lt_succ_of_lt hlt, ?_⟩
    rw [hdisk, if_neg (by omega)]
    exact hplain
  have hlater : ∀ n < s.curRevnum, (∀ m ∈ s.pendingCompElems, n < m) → ∀ m ∈ s.pendingCompElems ++ [s.curRevnum], n < m :=
    fun n hn hm => List.forall_mem_append.mpr ⟨hm, List.forall_mem_singleton.mpr hn⟩
  constructor
  case current =>
    show ((s.openFile _).disk (s.curRevnum + 1)).plain = some (s.written (s.curRevnum + 1))
    rw [hdisk, if_pos rfl, h.unwritten _ (Nat.lt_succ_self _)]
  case tar_lt =>
    intro n hn
    show ((s.openFile _).disk n).tar = none
    rw [hdisk]
    split
    · rfl
    · exact h.tar_lt n (Nat.le_of_succ_le hn)
  case beyond =>
    intro n hn
    have hlt : s.curRevnum + 1 < n := hn
    show ((s.openFile _).disk n).plain = none
    rw [hdisk, if_neg (Nat.ne_of_gt hlt)]
    exact h.beyond n (Nat.lt_of_succ_lt hlt)
  case unwritten => exact fun n hn => h.unwritten n (Nat.lt_of_succ_lt hn)
  case below =>
    intro n hn
    have hlt : n < s.curRevnum := Nat.lt_of_lt_of_le hn h.min_le
    show (s.openFile _).disk n = _
    rw [hdisk, if_neg (by omega)]
    exact h.below n hn
  case min_le => exact Nat.le_succ_of_le h.min_le
  case content =>
    intro n hmin hcur
    show ((s.openFile _).disk n).content = some (s.written n) ∨ n = s.minRevnum ∧ n + maxLogFiles < s.curRevnum + 1
    rw [hdisk]
    split
    · rename_i hn
      left
      rw [hn, h.unwritten _ (Nat.lt_succ_self _)]
      rfl
    · rename_i hn
      refine (h.content n hmin (Nat.le_of_lt_succ (Nat.lt_of_le_of_ne hcur hn))).imp_right ?_
      exact fun hold => ⟨hold.1, Nat.lt_succ_of_lt hold.2⟩
  case jobs =>
    refine List.forall_mem_append.mpr ⟨fun n hn => hjob n (h.jobs n hn), List.forall_mem_singleton.mpr ?_⟩
    refine ⟨h.min_le, Nat.lt_succ_self _, ?_⟩
    show ((s.openFile _).disk s.curRevnum).plain = some (s.written s.curRevnum)
    rw [hdisk, if_neg (by omega)]
    exact h.current
  case sorted =>
    refine List.pairwise_append.mpr ⟨h.sorted, List.pairwise_singleton _ _, fun n hn => ?_⟩
    exact List.forall_mem_singleton.mpr (h.jobs n hn).2.1
  case worker =>
    have hw := h.worker
    show Worker maxLogFiles { s.openFile _ with pendingCompElems := _ } s.compressor
    cases hc : s.compressor with
    | idle => trivial
    | tars n =>
      rw [hc] at hw
      exact ⟨hjob n hw.1, hlater n hw.1.2.1 hw.2⟩
    | removes n =>
      rw [hc] at hw
      obtain ⟨hle, hlt, htar, hrest⟩ := hw
      refine ⟨hle, Nat.lt_succ_of_lt hlt, ?_, hlater n hlt hrest⟩
      show ((s.openFile _).disk n).tar = some (s.written n)
      rw [hdisk, if_neg (by omega), htar]
    | prunes n ii =>
      rw [hc] at hw
      obtain ⟨hii, hlt, hpos, hle, hrest⟩ := hw
      exact ⟨hii, Nat.lt_succ_of_lt hlt, hpos, hle, hlater n hlt hrest⟩
    | prunesTar n ii =>
      rw [hc] at hw
      obtain ⟨hii, hlt, hpos, hle, hplain, hrest⟩ := hw
      refine ⟨hii, Nat.lt_succ_of_lt hlt, hpos, hle, ?_, hlater n hlt hrest⟩
      show ((s.openFile _).disk ii).plain = none
      rw [hdisk, if_neg (by omega), hplain]
  case retained => exact h.retained.imp_right fun hle => Nat.le_succ_of_le hle

theorem kept_endFlush {maxLogFiles maxLogFileSize : Nat} (h : Kept maxLogFiles s) :
    Kept maxLogFiles (s.endFlush maxLogFileSize) := by
  unfold endFlush
  dsimp only
  split
  · exact kept_next (kept_sync h)
  · exact kept_sync h

/-! ## The worker -/

theorem job_congr {t : LogFiles} {n : Nat} (hmin : t.minRevnum ≤ n) (hcur : t.curRevnum = s.curRevnum)
    (hdisk : (t.disk n).plain = (s.disk n).plain) (hwritten : t.written = s.written) (h : s.Job n) : t.Job n := by
  obtain ⟨-, hlt, hplain⟩ := h
  exact ⟨hmin, hcur ▸ hlt, by rw [hdisk, hwritten, hplain]⟩

/-- A step of the worker changes one file, that is older than the current one. -/
theorem kept_compress_of {maxLogFiles n : Nat} (h : Kept maxLogFiles s) {t : LogFiles} (hcur : t.curRevnum = s.curRevnum)
    (hwritten : t.written = s.written) (hn : n < s.curRevnum) (hdisk : ∀ m, m ≠ n → t.disk m = s.disk m)
    (hmin : s.minRevnum ≤ t.minRevnum) (hle : t.minRevnum ≤ s.curRevnum) (hbelow : ∀ m, m < t.minRevnum → t.disk m = .absent)
    (hcontent : t.minRevnum ≤ n → (t.disk n).content = some (s.written n) ∨ n = t.minRevnum ∧ n + maxLogFiles < s.curRevnum)
    (hjobs : ∀ m ∈ t.pendingCompElems, t.minRevnum ≤ m ∧ m ≠ n ∧ m ∈ s.pendingCompElems)
    (hsorted : t.pendingCompElems.Pairwise (· < ·)) (hworker : t.Worker maxLogFiles t.compressor)
    (hretained : t.minRevnum = 0 ∨ t.minRevnum + maxLogFiles ≤ s.curRevnum) : Kept maxLogFiles t := by
  constructor
  case current =>
    rw [hcur, hwritten, hdisk _ (Nat.ne_of_gt hn)]
    exact h.current
  case tar_lt =>
    intro m hm
    rw [hcur] at hm
    rw [hdisk m (by omega)]
    exact h.tar_lt m hm
  case beyond =>
    intro m hm
    rw [hcur] at hm
    rw [hdisk m (by omega)]
    exact h.beyond m hm
  case unwritten =>
    rw [hcur, hwritten]
    exact h.unwritten
  case below => exact hbelow
  case min_le => exact hcur ▸ hle
  case content =>
    intro m hm hle'
    rw [hcur] at hle' ⊢
    rw [hwritten]
    rcases eq_or_ne m n with rfl | hne
    · exact hcontent hm
    · rw [hdisk m hne]
      refine (h.content m (hmin.trans hm) hle').imp_right ?_
      rintro ⟨rfl, hold⟩
      exact ⟨Nat.le_antisymm hmin hm, hold⟩
  case jobs =>
    intro m hm
    obtain ⟨hle', hne, hmem⟩ := hjobs m hm
    exact job_congr hle' hcur (by rw [hdisk m hne]) hwritten (h.jobs m hmem)
  case sorted => exact hsorted
  case worker => exact hworker
  case retained => exact hcur ▸ hretained

theorem kept_compress {maxLogFiles : Nat} (h : Kept maxLogFiles s) : Kept maxLogFiles (s.compress maxLogFiles) := by
  have hw := h.worker
  unfold compress
  cases hc : s.compressor with
  | idle =>
    dsimp only
    cases hp : s.pendingCompElems with
    | nil => exact h
    | cons n rest =>
      have hjobs := h.jobs
      have hsorted := h.sorted
      rw [hp] at hjobs hsorted
      obtain ⟨hlt, hrest⟩ := List.pairwise_cons.mp hsorted
      exact ⟨h.current, h.tar_lt, h.beyond, h.unwritten, h.below, h.min_le, h.content,
        fun m hm => hjobs m (List.mem_cons_of_mem n hm), hrest, ⟨hjobs n List.mem_cons_self, hlt⟩, h.retained⟩
  | tars n =>
    rw [hc] at hw
    obtain ⟨⟨hle, hlt, hplain⟩, hrest⟩ := hw
    have hdisk := disk_setTar s n (some ((s.disk n).plain.getD []))
    rw [hplain] at hdisk
    refine kept_compress_of h (n := n) rfl rfl hlt (fun m hm => ?_) (Nat.le_refl _) h.min_le (fun m hm => ?_) (fun _ => ?_)
      (fun m hm => ⟨(h.jobs m hm).1, Nat.ne_of_gt (hrest m hm), hm⟩) h.sorted ⟨hle, hlt, ?_, hrest⟩ h.retained
    · exact (disk_setTar _ _ _ _).trans (if_neg hm)
    · exact ((disk_setTar _ _ _ _).trans (if_neg (Nat.ne_of_lt (Nat.lt_of_lt_of_le hm hle)))).trans (h.below m hm)
    · left
      show ((s.setTar n _).disk n).content = _
      rw [disk_setTar, if_pos rfl, hplain]
      rfl
    · show ((s.setTar n _).disk n).tar = _
      rw [disk_setTar, if_pos rfl, hplain]
      rfl
  | removes n =>
    rw [hc] at hw
    obtain ⟨hle, hlt, htar, hrest⟩ := hw
    refine kept_compress_of h (n := n) rfl rfl hlt (fun m hm => ?_) (Nat.le_refl _) h.min_le (fun m hm => ?_) (fun _ => ?_)
      (fun m hm => ⟨(h.jobs m hm).1, Nat.ne_of_gt (hrest m hm), hm⟩) h.sorted ?_ h.retained
    · exact (disk_setPlain _ _ _ _).trans (if_neg hm)
    · exact ((disk_setPlain _ _ _ _).trans (if_neg (Nat.ne_of_lt (Nat.lt_of_lt_of_le hm hle)))).trans (h.below m hm)
    · left
      show ((s.setPlain n none).disk n).content = _
      rw [disk_setPlain, if_pos rfl]
      exact htar
    · dsimp only
      split
      · rename_i hmax
        exact ⟨rfl, hlt, Nat.pos_of_ne_zero hmax.1, hmax.2, hrest⟩
      · trivial
  | prunes n ii =>
    rw [hc] at hw
    obtain ⟨rfl, hlt, hpos, hmax, hrest⟩ := hw
    dsimp only
    split
    · rename_i hii
      have hold : s.minRevnum + maxLogFiles ≤ n := by omega
      refine kept_compress_of h (n := s.minRevnum) rfl rfl (by omega) (fun m hm => ?_) (Nat.le_refl _) h.min_le
        (fun m hm => ?_) (fun _ => Or.inr ⟨rfl, by omega⟩)
        (fun m hm => ⟨(h.jobs m hm).1, by have := hrest m hm; omega, hm⟩) h.sorted ⟨rfl, hlt, hpos, hold, ?_, hrest⟩
        h.retained
      · exact (disk_setPlain _ _ _ _).trans (if_neg hm)
      · exact ((disk_setPlain _ _ _ _).trans (if_neg (Nat.ne_of_lt hm))).trans (h.below m hm)
      · show ((s.setPlain s.minRevnum none).disk s.minRevnum).plain = none
        rw [disk_setPlain, if_pos rfl]
    · exact ⟨h.current, h.tar_lt, h.beyond, h.unwritten, h.below, h.min_le, h.content, h.jobs, h.sorted, trivial, h.retained⟩
  | prunesTar n ii =>
    rw [hc] at hw
    obtain ⟨rfl, hlt, hpos, hold, hplain, hrest⟩ := hw
    refine kept_compress_of h (n := s.minRevnum) rfl rfl (by omega) (fun m hm => ?_) (Nat.le_succ _) (by
        show s.minRevnum + 1 ≤ s.curRevnum
        omega) (fun m hm => ?_) (fun hle => absurd hle (Nat.not_succ_le_self _))
      (fun m hm => ⟨?_, by have := hrest m hm; omega, hm⟩) h.sorted ⟨rfl, hlt, hpos, by omega, hrest⟩ ?_
    · exact (disk_setTar _ _ _ _).trans (if_neg hm)
    · show (s.setTar s.minRevnum none).disk m = _
      rw [disk_setTar]
      split
      · rw [hplain]
        rfl
      · exact h.below m (Nat.lt_of_le_of_ne (Nat.le_of_lt_succ hm) ‹_›)
    · show s.minRevnum + 1 ≤ m
      have := hrest m hm
      omega
    · right
      show s.minRevnum + 1 + maxLogFiles ≤ s.curRevnum
      omega

/-! ## The restart -/

/-- An archive that is being made may be left in any state: the file that it is made of is still there. -/
theorem kept_torn {maxLogFiles n : Nat} (h : Kept maxLogFiles s) (hc : s.compressor = .tars n) (torn : Option Bytes) :
    Kept maxLogFiles (s.setTar n torn) := by
  have hw := h.worker
  rw [hc] at hw
  obtain ⟨⟨hle, hlt, hplain⟩, hrest⟩ := hw
  have hplains : ((s.setTar n torn).disk n).plain = some (s.written n) := by
    rw [disk_setTar, if_pos rfl, hplain]
  refine kept_compress_of h (n := n) rfl rfl hlt (fun m hm => ?_) (Nat.le_refl _) h.min_le (fun m hm => ?_) (fun _ => ?_)
    (fun m hm => ⟨(h.jobs m hm).1, Nat.ne_of_gt (hrest m hm), hm⟩) h.sorted ?_ h.retained
  · exact (disk_setTar _ _ _ _).trans (if_neg hm)
  · exact ((disk_setTar _ _ _ _).trans (if_neg (Nat.ne_of_lt (Nat.lt_of_lt_of_le hm hle)))).trans (h.below m hm)
  · left
    rw [LogFile.content, hplains]
    rfl
  · show (s.setTar n torn).Worker maxLogFiles s.compressor
    rw [hc]
    exact ⟨⟨hle, hlt, hplains⟩, hrest⟩

theorem kept_crash {maxLogFiles : Nat} (h : Kept maxLogFiles s) (stored : Nat) (torn : Option Bytes) :
    Kept maxLogFiles (s.crash stored torn) := by
  have ht := kept_store h (s.unflushed.take stored)
  unfold crash
  dsimp only
  split
  · rename_i n hc
    exact kept_torn ht hc torn
  · exact ht

theorem curRevnum_crash (s : LogFiles) (stored : Nat) (torn : Option Bytes) :
    (s.crash stored torn).curRevnum = s.curRevnum := by
  unfold crash
  dsimp only
  split <;> rfl

/-- Whether a file is there, plain or compressed. -/
def Present (s : LogFiles) (n : Nat) : Prop := (s.disk n).plain.isSome = true ∨ (s.disk n).tar.isSome = true

theorem present_of_content {n : Nat} {bs : Bytes} (h : (s.disk n).content = some bs) : s.Present n := by
  rcases Option.or_eq_some_iff.mp h with h | ⟨-, h⟩
  · exact Or.inl (by rw [h]; rfl)
  · exact Or.inr (by rw [h]; rfl)

theorem Kept.present_current {maxLogFiles : Nat} (h : Kept maxLogFiles s) : s.Present s.curRevnum :=
  Or.inl (by rw [h.current]; rfl)

theorem Kept.le_of_present {maxLogFiles n : Nat} (h : Kept maxLogFiles s) (hn : s.Present n) :
    s.minRevnum ≤ n ∧ n ≤ s.curRevnum := by
  constructor
  · by_contra hlt
    unfold Present at hn
    rw [h.below n (Nat.lt_of_not_le hlt)] at hn
    simp [LogFile.absent] at hn
  · by_contra hlt
    have hlt := Nat.lt_of_not_le hlt
    unfold Present at hn
    rw [h.beyond n hlt, h.tar_lt n (Nat.le_of_lt hlt)] at hn
    simp at hn

/-- The directory of a crashed process says where it was. -/
theorem Kept.found {maxLogFiles : Nat} (h : Kept maxLogFiles s) {filePath : Bytes} (hp : PlainName filePath)
    (h31 : s.curRevnum < 2 ^ 31) {names : List Bytes} (hl : s.Listing filePath names) :
    IsLeast {n | s.Present n} (findMinMaxRevNum filePath names).minRevnum ∧
      (findMinMaxRevNum filePath names).maxRevnum = s.curRevnum := by
  have hlt : ∀ n, s.Present n → n < 2 ^ 31 := fun n hn => Nat.lt_of_le_of_lt (h.le_of_present hn).2 h31
  obtain ⟨hmin, hmax⟩ := findMinMaxRevNum_spec hp hl hlt ⟨_, h.present_current⟩
  refine ⟨hmin, hmax.unique ⟨Or.inl (by rw [h.current]; rfl), ?_⟩⟩
  rintro n (hn | ⟨m, hm, rfl⟩)
  · exact (h.le_of_present (Or.inl hn)).2
  · by_contra hlt
    rw [h.tar_lt m (by omega)] at hm
    cases hm

theorem disk_openFile_current {maxLogFiles : Nat} (h : Kept maxLogFiles s) (n : Nat) :
    (s.openFile s.curRevnum).disk n = s.disk n := by
  show (s.setPlain _ _).disk n = _
  rw [disk_setPlain, h.current]
  split
  · rename_i hn
    rw [hn]
    exact congrArg (LogFile.mk · (s.disk s.curRevnum).tar) h.current.symm
  · rfl

theorem kept_start {maxLogFiles : Nat} (h : Kept maxLogFiles s) {found : RevNums}
    (hmin : IsLeast {n | s.Present n} found.minRevnum) (hmax : found.maxRevnum = s.curRevnum) :
    Kept maxLogFiles (s.start found) := by
  have hdisk : ∀ n, (s.start found).disk n = s.disk n := by
    intro n
    show (s.openFile found.maxRevnum).disk n = _
    rw [hmax, disk_openFile_current h]
  have hle := (h.le_of_present hmin.1).1
  constructor
  case current =>
    show ((s.start found).disk found.maxRevnum).plain = some (s.written found.maxRevnum)
    rw [hdisk, hmax, h.current]
  case tar_lt =>
    intro n hn
    rw [hdisk]
    exact h.tar_lt n (hmax ▸ hn)
  case beyond =>
    intro n hn
    rw [hdisk]
    exact h.beyond n (hmax ▸ hn)
  case unwritten => exact fun n hn => h.unwritten n (hmax ▸ hn)
  case below =>
    intro n hn
    have hnone : ¬ s.Present n := fun hpres => absurd (hmin.2 hpres) (Nat.not_le.mpr hn)
    unfold Present at hnone
    rw [not_or, Option.not_isSome_iff_eq_none, Option.not_isSome_iff_eq_none] at hnone
    rw [hdisk]
    exact congrArg₂ LogFile.mk hnone.1 hnone.2
  case min_le =>
    show found.minRevnum ≤ found.maxRevnum
    rw [hmax]
    exact hmin.2 h.present_current
  case content =>
    intro n hn hcur
    have hcur : n ≤ s.curRevnum := hmax ▸ hcur
    have hn : found.minRevnum ≤ n := hn
    rw [hdisk]
    refine (h.content n (hle.trans hn) hcur).imp_right ?_
    rintro ⟨hold, hlt⟩
    refine ⟨Nat.le_antisymm (hold.trans_le hle) hn, ?_⟩
    show n + maxLogFiles < found.maxRevnum
    rwa [hmax]
  case jobs => exact fun n hn => absurd hn List.not_mem_nil
  case sorted => exact List.Pairwise.nil
  case worker => trivial
  case retained =>
    show found.minRevnum = 0 ∨ found.minRevnum + maxLogFiles ≤ found.maxRevnum
    rw [hmax]
    rcases h.content s.minRevnum (Nat.le_refl _) h.min_le with hc | ⟨-, hlt⟩
    · have heq : found.minRevnum = s.minRevnum := Nat.le_antisymm (hmin.2 (present_of_content hc)) hle
      rw [heq]
      exact h.retained
    · -- only the oldest file may be missing, and it is too old
      have hnext := (h.content (s.minRevnum + 1) (Nat.le_succ _) (by omega)).resolve_right fun hc =>
        absurd hc.1 (Nat.succ_ne_self _)
      have hfound : found.minRevnum ≤ s.minRevnum + 1 := hmin.2 (present_of_content hnext)
      right
      omega

theorem kept_step {filePath : Bytes} {maxLogFiles maxLogFileSize : Nat} (hp : PlainName filePath) {a : FilesAction}
    {t : LogFiles} (h : Kept maxLogFiles s) (hst : Step filePath maxLogFiles maxLogFileSize s a t) : Kept maxLogFiles t := by
  cases a with
  | write line =>
    obtain rfl := hst
    exact kept_write h line
  | endFlush =>
    obtain rfl := hst
    exact kept_endFlush h
  | compress =>
    obtain rfl := hst
    exact kept_compress h
  | restart names stored torn =>
    obtain ⟨h31, hl, rfl⟩ := hst
    have hcrash := kept_crash h stored torn
    obtain ⟨hmin, hmax⟩ := hcrash.found hp (curRevnum_crash s stored torn ▸ h31) hl
    exact kept_start hcrash hmin hmax

theorem kept_run {filePath : Bytes} {maxLogFiles maxLogFileSize : Nat} (hp : PlainName filePath) {as : List FilesAction}
    (h : Run (Step filePath maxLogFiles maxLogFileSize) first as s) : Kept maxLogFiles s :=
  Run.invariant (I := Kept maxLogFiles) (kept_first maxLogFiles) (fun _ _ _ => kept_step hp) h

/-! ## The log as a whole -/

/-- All that was written, from one file to the next. -/
def log (s : LogFiles) : Bytes := (List.range (s.curRevnum + 1)).flatMap s.written

/-- What was given to the stream. -/
def stream (s : LogFiles) : Bytes := s.log ++ s.unflushed

theorem log_store (s : LogFiles) (bs : Bytes) : (s.store bs).log = s.log ++ bs := by
  have hbefore : (List.range s.curRevnum).flatMap (s.store bs).written = (List.range s.curRevnum).flatMap s.written := by
    apply List.flatMap_congr
    intro m hm
    rw [written_store, if_neg (Nat.ne_of_lt (List.mem_range.mp hm))]
  have hlast : (s.store bs).written s.curRevnum = s.written s.curRevnum ++ bs := by
    rw [written_store, if_pos rfl]
  show (List.range (s.curRevnum + 1)).flatMap (s.store bs).written = _
  rw [log, List.range_succ, List.flatMap_append, List.flatMap_append, hbefore, List.flatMap_singleton, List.flatMap_singleton,
    hlast, List.append_assoc]

theorem stream_write (s : LogFiles) (line : Bytes) : (s.write line).stream = s.stream ++ line :=
  (List.append_assoc _ _ _).symm

theorem stream_sync (s : LogFiles) : s.sync.stream = s.stream := by
  show (s.store s.unflushed).log ++ [] = _
  rw [log_store, List.append_nil, stream]

theorem stream_endFlush {maxLogFiles maxLogFileSize : Nat} (h : Kept maxLogFiles s) :
    (s.endFlush maxLogFileSize).stream = s.stream := by
  have hnext : s.sync.written (s.sync.curRevnum + 1) = [] := (kept_sync h).unwritten _ (Nat.lt_succ_self _)
  unfold endFlush
  dsimp only
  split
  · show (List.range (s.sync.curRevnum + 1 + 1)).flatMap s.sync.written ++ s.sync.unflushed = _
    rw [List.range_succ, List.flatMap_append, List.flatMap_singleton, hnext, List.append_nil]
    exact stream_sync s
  · exact stream_sync s

theorem stream_compress (s : LogFiles) (maxLogFiles : Nat) : (s.compress maxLogFiles).stream = s.stream := by
  unfold compress
  split
  · split <;> rfl
  · rfl
  · rfl
  · split <;> rfl
  · rfl

/-- What is on the disk from a file on, unpacked. -/
def contentFrom (s : LogFiles) (n : Nat) : Bytes :=
  (List.range' n (s.curRevnum + 1 - n)).flatMap fun m => ((s.disk m).content.getD [])

theorem contentFrom_suffix {n : Nat} (hn : n ≤ s.curRevnum)
    (h : ∀ m, n ≤ m → m ≤ s.curRevnum → (s.disk m).content = some (s.written m)) : s.contentFrom n <:+ s.log := by
  have hrange : List.range (s.curRevnum + 1) = List.range' 0 n ++ List.range' n (s.curRevnum + 1 - n) := by
    have happend := List.range'_append_1 (s := 0) (m := n) (n := s.curRevnum + 1 - n)
    rw [Nat.zero_add, Nat.add_sub_cancel' (Nat.le_succ_of_le hn)] at happend
    rw [List.range_eq_range', ← happend]
  have hsame : s.contentFrom n = (List.range' n (s.curRevnum + 1 - n)).flatMap s.written := by
    apply List.flatMap_congr
    intro m hm
    obtain ⟨hle, hlt⟩ := List.mem_range'_1.mp hm
    rw [h m hle (by omega)]
    rfl
  rw [log, hrange, List.flatMap_append, hsame]
  exact List.suffix_append _ _

/-- **The latest files are kept**, over any writes, flushes, commands of the worker, crashes and restarts: the current
file and the `maxLogFiles` before it hold all that was written to them, plain or compressed, so that together they are
the end of the log; and the current file is neither compressed nor removed. -/
theorem latest_kept {filePath : Bytes} {maxLogFiles maxLogFileSize : Nat} (hp : PlainName filePath)
    {as : List FilesAction} (h : Run (Step filePath maxLogFiles maxLogFileSize) first as s) :
    s.disk s.curRevnum = ⟨some (s.written s.curRevnum), none⟩ ∧
      (∀ n ≤ s.curRevnum, s.curRevnum ≤ n + maxLogFiles → (s.disk n).content = some (s.written n)) ∧
      s.contentFrom (s.curRevnum - maxLogFiles) <:+ s.log := by
  have hk := kept_run hp h
  have hlatest : ∀ n ≤ s.curRevnum, s.curRevnum ≤ n + maxLogFiles → (s.disk n).content = some (s.written n) := by
    intro n hle hlatest
    have hmin : s.minRevnum ≤ n := by
      have := hk.retained
      omega
    refine (hk.content n hmin hle).resolve_right fun hold => ?_
    exact absurd hold.2 (Nat.not_lt.mpr hlatest)
  refine ⟨congrArg₂ LogFile.mk hk.current (hk.tar_lt _ (Nat.le_refl _)), hlatest, ?_⟩
  exact contentFrom_suffix (Nat.sub_le _ _) fun m hm hle => hlatest m hle (by omega)

/-! ## The old files -/

/-- The next file to compress is `low`, and the older ones are few. -/
def PrunedTo (maxLogFiles : Nat) (s : LogFiles) (low : Nat) : Compressor → Prop
  | .idle => low ≤ s.minRevnum + maxLogFiles ∨ low = s.started
  | .tars n | .removes n | .prunes n _ | .prunesTar n _ => n + 1 = low ∧ (n ≤ s.minRevnum + maxLogFiles ∨ n = s.started)

def Pruned (maxLogFiles : Nat) (s : LogFiles) : Prop :=
  ∃ low ≤ s.curRevnum, s.pendingCompElems = List.range' low (s.curRevnum - low) ∧ s.PrunedTo maxLogFiles low s.compressor

theorem pruned_sync {maxLogFiles : Nat} (h : Pruned maxLogFiles s) : Pruned maxLogFiles s.sync := h

theorem pruned_endFlush {maxLogFiles maxLogFileSize : Nat} (h : Pruned maxLogFiles s) :
    Pruned maxLogFiles (s.endFlush maxLogFileSize) := by
  unfold endFlush
  dsimp only
  split
  · obtain ⟨low, hle, hjobs, hto⟩ := pruned_sync h
    refine ⟨low, Nat.le_succ_of_le hle, ?_, hto⟩
    show s.sync.pendingCompElems ++ [s.sync.curRevnum] = List.range' low (s.sync.curRevnum + 1 - low)
    rw [hjobs, Nat.succ_sub hle, List.range'_1_concat, Nat.add_sub_cancel' hle]
  · exact h

theorem pruned_compress {maxLogFiles : Nat} (hpos : 0 < maxLogFiles) (hk : Kept maxLogFiles s) (h : Pruned maxLogFiles s) :
    Pruned maxLogFiles (s.compress maxLogFiles) := by
  obtain ⟨low, hle, hjobs, hto⟩ := h
  have hw := hk.worker
  unfold compress
  cases hc : s.compressor with
  | idle =>
    rw [hc] at hto
    dsimp only
    cases hp : s.pendingCompElems with
    | nil => exact ⟨low, hle, hjobs, hc ▸ hto⟩
    | cons n rest =>
      have hlt : low < s.curRevnum := by
        by_contra hge
        rw [hp, Nat.sub_eq_zero_of_le (Nat.not_lt.mp hge)] at hjobs
        cases hjobs
      rw [hp, show s.curRevnum - low = s.curRevnum - (low + 1) + 1 by omega, List.range'_succ, List.cons.injEq] at hjobs
      obtain ⟨rfl, hrest⟩ := hjobs
      exact ⟨n + 1, hlt, hrest, rfl, hto⟩
  | tars n =>
    rw [hc] at hto
    exact ⟨low, hle, hjobs, hto⟩
  | removes n =>
    rw [hc] at hto
    refine ⟨low, hle, hjobs, ?_⟩
    dsimp only
    split
    · exact hto
    · rename_i hsmall
      left
      show low ≤ s.minRevnum + maxLogFiles
      have := hto.1
      omega
  | prunes n ii =>
    rw [hc] at hto hw
    have hii := hw.1
    dsimp only
    split
    · exact ⟨low, hle, hjobs, hto⟩
    · refine ⟨low, hle, hjobs, Or.inl ?_⟩
      show low ≤ s.minRevnum + maxLogFiles
      have := hto.1
      omega
  | prunesTar n ii =>
    rw [hc] at hto hw
    refine ⟨low, hle, hjobs, hto.1, hto.2.imp_left fun hn => ?_⟩
    show n ≤ ii + 1 + maxLogFiles
    have := hw.1
    omega

theorem pruned_step {filePath : Bytes} {maxLogFiles maxLogFileSize : Nat} (hpos : 0 < maxLogFiles) {a : FilesAction}
    {t : LogFiles} (hk : Kept maxLogFiles s) (h : Pruned maxLogFiles s)
    (hst : Step filePath maxLogFiles maxLogFileSize s a t) : Pruned maxLogFiles t := by
  cases a with
  | write line =>
    obtain rfl := hst
    exact h
  | endFlush =>
    obtain rfl := hst
    exact pruned_endFlush h
  | compress =>
    obtain rfl := hst
    exact pruned_compress hpos hk h
  | restart names stored torn =>
    obtain ⟨-, -, rfl⟩ := hst
    refine ⟨_, Nat.le_refl _, ?_, Or.inr rfl⟩
    show [] = _
    rw [Nat.sub_self]
    rfl

/-- **The old files are removed**: once a file has become full since the last start, and whenever the worker has nothing
left to do, at most `maxLogFiles` files are there beside the current one. -/
theorem old_removed {filePath : Bytes} {maxLogFiles maxLogFileSize : Nat} (hp : PlainName filePath) (hpos : 0 < maxLogFiles)
    {as : List FilesAction} (h : Run (Step filePath maxLogFiles maxLogFileSize) first as s) (hidle : s.compressor = .idle)
    (hjobs : s.pendingCompElems = []) (hfull : s.curRevnum ≠ s.started) {n : Nat} (hn : n + maxLogFiles < s.curRevnum) :
    s.disk n = .absent := by
  have hfirst : Pruned maxLogFiles first := ⟨0, Nat.le_refl _, rfl, Or.inr rfl⟩
  obtain ⟨low, hle, hpending, hto⟩ := Run.invariant_and (J := Kept maxLogFiles) (I := Pruned maxLogFiles) (kept_run hp)
    hfirst (fun _ _ _ hk hI hst => pruned_step hpos hk hI hst) h
  have hlow : low = s.curRevnum := by
    rw [hjobs] at hpending
    have hlen := congrArg List.length hpending
    rw [List.length_range', List.length_nil] at hlen
    omega
  subst hlow
  rw [hidle] at hto
  have hmin : s.curRevnum ≤ s.minRevnum + maxLogFiles := hto.resolve_right hfull
  exact (kept_run hp h).below n (by omega)

end

/-! ## Three files -/

/-- A full file is compressed, and then the next one. -/
def threeFiles : List FilesAction :=
  [.write [1, 2], .endFlush, .compress, .compress, .compress, .write [3, 4], .endFlush, .compress, .compress, .compress,
    .compress, .compress, .compress, .write [5]]

/-- An action that is no restart. -/
def act (maxLogFiles maxLogFileSize : Nat) (s : LogFiles) : FilesAction → LogFiles
  | .write line => s.write line
  | .endFlush => s.endFlush maxLogFileSize
  | .compress => s.compress maxLogFiles
  | .restart _ _ _ => s

def after (as : List FilesAction) : LogFiles := as.foldl (act 1 1) first

theorem run_after {as : List FilesAction} (h : ∀ a ∈ as, ∀ names stored torn, a ≠ .restart names stored torn) :
    Run (Step srvLog 1 1) first as (after as) := by
  induction as using List.reverseRecOn with
  | nil => exact Run.nil
  | append_singleton as a ih =>
    obtain ⟨has, ha⟩ := List.forall_mem_append.mp h
    have ha := ha a (List.mem_singleton_self a)
    rw [after, List.foldl_concat]
    refine (ih has).snoc ?_
    cases a with
    | write line => exact rfl
    | endFlush => exact rfl
    | compress => exact rfl
    | restart names stored torn => exact absurd rfl (ha names stored torn)

theorem run_threeFiles : Run (Step srvLog 1 1) first threeFiles (after threeFiles) :=
  run_after (by simp [threeFiles])

theorem latest_kept_threeFiles : ((after threeFiles).disk 1).content = some [3, 4] :=
  (latest_kept plainName_srvLog run_threeFiles).2.1 1 (by decide) (by decide)

theorem old_removed_threeFiles : (after threeFiles).disk 0 = .absent :=
  old_removed plainName_srvLog (by decide) run_threeFiles rfl rfl (by decide) (by decide)

end LogFiles
end SimpleLogger
end VectorDb
