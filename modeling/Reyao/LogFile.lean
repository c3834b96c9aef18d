import Reyao.AsyncLog

/-!
# The log file (`asynclog.h`, `asynclog.cc`)

`LogFile::append` writes to the open file and rolls to another one when the bytes written since
the last roll would exceed `kMaxFileSize`, or when a day has begun. The other file is the one
that `getFileName` names after the second of the clock, and it is opened for appending: a roll
in the second of an earlier roll opens the same file again, with `writed_` set to 0
(`not_log_files_kept`). As long as every roll opens a new file, the files stay small and hold
what was appended, in order (`log_files_kept`).

`localtime` is outside of the program: `getFileName` is a parameter. What the `FILE` still
buffers counts as part of the file.
-/

namespace Reyao

open Lib

def kRollPerSeconds : Int := 24 * 60 * 60
def kFlushInterval : Int := 3
def kCheckRollPerN : Nat := 1024
def kMaxFileSize : Nat := 64 * 1024 * 1024

/-- A file of the directory: its name and its bytes. -/
structure DiskFile : Type where
  name : Bytes
  content : Bytes

/-- The members of `LogFile`, with the files of the directory in the order in which they were
first opened. -/
structure LogFile : Type where
  count : Nat := 0
  writed : Nat := 0
  lastFlush : Int := 0
  lastRoll : Int := 0
  /-- The file that `fp_` is open on, if it is not null. -/
  fp : Option Bytes := none
  files : List DiskFile := []

/-- `fwrite_unlocked` without an error: it takes some bytes of what it is given. -/
structure Fwrite : Type where
  taken : Bytes → Nat
  some_bytes : ∀ left, left ≠ [] → 0 < taken left
  no_more : ∀ left, taken left ≤ left.length

/-- A call of `append`, with what it finds outside: the readings of the clock in the roll at its
start, in the check and in the roll after the check, of which it makes those it gets to, and
what `fwrite_unlocked` takes. -/
structure AppendCall : Type where
  logline : LogBuffer
  rollTime : Int
  checkTime : Int
  dayRollTime : Int
  fwrite : Fwrite

namespace LogFile

/-- `fopen(filename, "a")`: the file is made if there is none of that name. -/
def fopen (filename : Bytes) (log : LogFile) : LogFile :=
  { log with
    fp := some filename
    files :=
      if filename ∈ log.files.map DiskFile.name then log.files
      else log.files ++ [⟨filename, []⟩] }

/-- Bytes that go to the file that is open. -/
def put (data : Bytes) (log : LogFile) : LogFile :=
  { log with
    files := log.files.map fun file =>
      if some file.name = log.fp then { file with content := file.content ++ data } else file }

/-- `rollFile()`, when the clock reads `now`. -/
def rollFile (getFileName : Int → Bytes) (now : Int) (log : LogFile) : LogFile :=
  { log.fopen (getFileName now) with
    lastFlush := now
    lastRoll := now
    count := 0
    writed := 0 }

/-- The loop of `write`, which every turn but the last leaves with less. -/
def writeLoop (fwrite : Bytes → Nat) : Nat → Bytes → LogFile → LogFile
  | 0, _, log => log
  | turns + 1, left, log =>
      if left = [] then log
      else
        let n := fwrite left
        if n = 0 then log else writeLoop fwrite turns (left.drop n) (log.put (left.take n))

/-- `write(logline, len)`. -/
def write (fwrite : Bytes → Nat) (logline : Bytes) (log : LogFile) : LogFile :=
  writeLoop fwrite logline.length logline log

/-- The beginning of a day. -/
def dayOf (now : Int) : Int := now.tdiv kRollPerSeconds * kRollPerSeconds

/-- What `append` does when `count_` has reached `kCheckRollPerN`. -/
def check (getFileName : Int → Bytes) (now dayRollTime : Int) (log : LogFile) : LogFile :=
  let log :=
    if dayOf now > log.lastRoll then log.rollFile getFileName dayRollTime
    else if now - log.lastFlush > kFlushInterval then { log with lastFlush := now }
    else log
  { log with count := 0 }

/-- `append(logline, len)`. -/
def append (getFileName : Int → Bytes) (log : LogFile) (a : AppendCall) : LogFile :=
  let line := a.logline.data
  let log :=
    if log.writed + line.length > kMaxFileSize then log.rollFile getFileName a.rollTime else log
  let log := log.write a.fwrite.taken line
  let log := { log with writed := log.writed + line.length, count := log.count + 1 }
  if log.count ≥ kCheckRollPerN then log.check getFileName a.checkTime a.dayRollTime else log

/-- `LogFile()`, in an empty directory. -/
def new (getFileName : Int → Bytes) (now : Int) : LogFile := rollFile getFileName now {}

/-- The reading of the clock in the roll that `append` makes, if it makes one. -/
def rolls (log : LogFile) (a : AppendCall) : Option Int :=
  if log.writed + a.logline.data.length > kMaxFileSize then some a.rollTime
  else if log.count + 1 ≥ kCheckRollPerN ∧ dayOf a.checkTime > log.lastRoll then
    some a.dayRollTime
  else none

/-- The condition on a call: if it rolls, no file has the name of the new one. -/
def Fresh (getFileName : Int → Bytes) (log : LogFile) (a : AppendCall) : Prop :=
  ∀ now ∈ log.rolls a, getFileName now ∉ log.files.map DiskFile.name

/-- No file is too large, and the files one after the other are what was appended. -/
structure Kept (appended : List AppendCall) (log : LogFile) : Prop where
  small : ∀ file ∈ log.files, file.content.length ≤ kMaxFileSize
  all : (log.files.map DiskFile.content).flatten =
    (appended.map fun a => a.logline.data).flatten

/-! ## The file that is open -/

/-- `fp_` is open on the last file, and no other file has its name. -/
structure OpenOn (older : List DiskFile) (name content : Bytes) (log : LogFile) : Prop where
  files : log.files = older ++ [⟨name, content⟩]
  fp : log.fp = some name
  only : name ∉ older.map DiskFile.name

variable {getFileName : Int → Bytes} {log : LogFile} {a : AppendCall} {appended : List AppendCall}
  {older : List DiskFile} {name content : Bytes}

theorem put_nil (log : LogFile) : log.put [] = log := by
  have same : log.files.map (fun file =>
      if some file.name = log.fp then { file with content := file.content ++ [] } else file) =
      log.files := by
    refine (List.map_congr_left fun file _ => ?_).trans (List.map_id log.files)
    split
    · exact congrArg (DiskFile.mk file.name) (List.append_nil file.content)
    · rfl
  rw [put, same]

theorem put_put (log : LogFile) (first second : Bytes) :
    (log.put first).put second = log.put (first ++ second) := by
  rw [put, put, put]
  simp only [List.map_map]
  congr 1
  refine List.map_congr_left fun file _ => ?_
  rw [Function.comp_apply]
  by_cases opened : some file.name = log.fp
  · rw [if_pos opened, if_pos opened, if_pos opened]
    exact congrArg (DiskFile.mk file.name) (List.append_assoc ..)
  · rw [if_neg opened, if_neg opened, if_neg opened]

/-- The loop of `write` gets everything to the file. -/
theorem writeLoop_eq (fwrite : Fwrite) {turns : Nat} {left : Bytes} (enough : left.length ≤ turns)
    (log : LogFile) : writeLoop fwrite.taken turns left log = log.put left := by
  induction turns generalizing left log with
  | zero =>
      rw [List.length_eq_zero_iff.mp (Nat.le_zero.mp enough), put_nil]
      rfl
  | succ turns ih =>
      rw [writeLoop]
      by_cases done : left = []
      · rw [if_pos done, done, put_nil]
      · have took := fwrite.some_bytes left done
        have lower : (left.drop (fwrite.taken left)).length ≤ turns := by
          rw [List.length_drop]
          omega
        rw [if_neg done, if_neg (Nat.ne_of_gt took), ih lower, put_put, List.take_append_drop]

theorem write_eq (fwrite : Fwrite) (line : Bytes) (log : LogFile) :
    log.write fwrite.taken line = log.put line :=
  writeLoop_eq fwrite (le_refl _) log

theorem OpenOn.put (opened : OpenOn older name content log) (data : Bytes) :
    OpenOn older name (content ++ data) (log.put data) := by
  refine ⟨?_, opened.fp, opened.only⟩
  rw [LogFile.put, opened.files, opened.fp, List.map_append]
  have kept : older.map (fun file => if some file.name = some name then
      { file with content := file.content ++ data } else file) = older := by
    refine (List.map_congr_left fun file member => if_neg fun same => ?_).trans (List.map_id older)
    rw [Option.some.injEq] at same
    exact opened.only (same ▸ List.mem_map_of_mem member)
  rw [kept, List.map_singleton, if_pos rfl]

/-- A roll to a new file. -/
theorem OpenOn.rollFile (opened : OpenOn older name content log) {now : Int}
    (fresh : getFileName now ∉ log.files.map DiskFile.name) :
    OpenOn (older ++ [⟨name, content⟩]) (getFileName now) [] (log.rollFile getFileName now) := by
  refine ⟨?_, rfl, opened.files ▸ fresh⟩
  change (if getFileName now ∈ log.files.map DiskFile.name then log.files
    else log.files ++ [⟨getFileName now, []⟩]) = _
  rw [if_neg fresh, opened.files]

theorem openOn_new (getFileName : Int → Bytes) (now : Int) :
    OpenOn [] (getFileName now) [] (new getFileName now) :=
  ⟨rfl, rfl, List.not_mem_nil⟩

/-! ## A call -/

/-- The log file after the bytes of a call are written and counted. -/
def wrote (line : Bytes) (log : LogFile) : LogFile :=
  { log.put line with writed := log.writed + line.length, count := log.count + 1 }

theorem OpenOn.wrote (opened : OpenOn older name content log) (line : Bytes) :
    OpenOn older name (content ++ line) (log.wrote line) :=
  ⟨(opened.put line).files, opened.fp, opened.only⟩

/-- The end of a call. -/
def checked (getFileName : Int → Bytes) (a : AppendCall) (log : LogFile) : LogFile :=
  if log.count ≥ kCheckRollPerN then log.check getFileName a.checkTime a.dayRollTime else log

theorem append_eq (getFileName : Int → Bytes) (log : LogFile) (a : AppendCall) :
    log.append getFileName a =
      ((if log.writed + a.logline.data.length > kMaxFileSize then
        log.rollFile getFileName a.rollTime else log).wrote a.logline.data).checked
          getFileName a := by
  rw [append, write_eq]
  rfl

/-- A call that rolls at its start does not come to the check. -/
theorem append_roll (large : log.writed + a.logline.data.length > kMaxFileSize) :
    log.append getFileName a = (log.rollFile getFileName a.rollTime).wrote a.logline.data := by
  have few : ¬0 + 1 ≥ kCheckRollPerN := by decide
  rw [append_eq, if_pos large]
  exact if_neg few

/-- A check that does not roll leaves the files alone. -/
theorem check_same {now later : Int} (sameDay : ¬dayOf now > log.lastRoll) :
    (log.check getFileName now later).files = log.files ∧
      (log.check getFileName now later).fp = log.fp ∧
      (log.check getFileName now later).writed = log.writed := by
  rw [check, if_neg sameDay]
  split <;> exact ⟨rfl, rfl, rfl⟩

theorem check_idle {now later : Int} (sameDay : ¬dayOf now > log.lastRoll)
    (soon : ¬now - log.lastFlush > kFlushInterval) :
    log.check getFileName now later = { log with count := 0 } := by
  rw [check, if_neg sameDay, if_neg soon]

/-- A call that does not roll at its start writes, and then rolls or leaves it at that. -/
theorem append_cases (getFileName : Int → Bytes)
    (small : ¬log.writed + a.logline.data.length > kMaxFileSize) :
    log.rolls a = none ∧ (log.append getFileName a).files = (log.wrote a.logline.data).files ∧
        (log.append getFileName a).fp = log.fp ∧
        (log.append getFileName a).writed = log.writed + a.logline.data.length ∨
      log.rolls a = some a.dayRollTime ∧
        log.append getFileName a =
          (log.wrote a.logline.data).rollFile getFileName a.dayRollTime := by
  rw [append_eq, if_neg small, rolls, if_neg small, checked]
  by_cases due : log.count + 1 ≥ kCheckRollPerN
  · have check : (log.wrote a.logline.data).count ≥ kCheckRollPerN := due
    rw [if_pos check]
    by_cases day : dayOf a.checkTime > log.lastRoll
    · refine Or.inr ⟨if_pos ⟨due, day⟩, ?_⟩
      have day' : dayOf a.checkTime > (log.wrote a.logline.data).lastRoll := day
      rw [LogFile.check, if_pos day']
      rfl
    · have day' : ¬dayOf a.checkTime > (log.wrote a.logline.data).lastRoll := day
      exact Or.inl ⟨if_neg fun both => day both.2, check_same day'⟩
  · have check : ¬(log.wrote a.logline.data).count ≥ kCheckRollPerN := due
    rw [if_neg check]
    exact Or.inl ⟨if_neg fun both => due both.1, rfl, rfl, rfl⟩

/-- The files are kept, and `writed_` is the size of the one that is open. -/
structure Holds (appended : List AppendCall) (log : LogFile) : Prop extends Kept appended log where
  last : ∃ older name content, OpenOn older name content log ∧ content.length = log.writed

theorem small_snoc (small : ∀ file ∈ older, file.content.length ≤ kMaxFileSize) (name : Bytes)
    (less : content.length ≤ kMaxFileSize) :
    ∀ file ∈ older ++ [⟨name, content⟩], file.content.length ≤ kMaxFileSize := by
  refine List.forall_mem_append.mpr ⟨small, fun file member => ?_⟩
  rw [List.mem_singleton.mp member]
  exact less

theorem OpenOn.kept (opened : OpenOn older name content log)
    (small : ∀ file ∈ older, file.content.length ≤ kMaxFileSize)
    (less : content.length ≤ kMaxFileSize)
    (all : (older.map DiskFile.content).flatten ++ content =
      (appended.map fun a => a.logline.data).flatten) : Kept appended log := by
  constructor
  · rw [opened.files]
    exact small_snoc small name less
  · rw [opened.files, List.map_append, List.flatten_append, ← all]
    simp

theorem holds_new (getFileName : Int → Bytes) (now : Int) : Holds [] (new getFileName now) :=
  ⟨(openOn_new getFileName now).kept (fun _ member => absurd member List.not_mem_nil)
    (Nat.zero_le _) rfl, [], _, [], openOn_new getFileName now, rfl⟩

/-- A call that opens a new file or none. -/
theorem Holds.append (holds : Holds appended log) (fresh : log.Fresh getFileName a) :
    Holds (appended ++ [a]) (log.append getFileName a) := by
  obtain ⟨⟨small, all⟩, older, name, content, opened, size⟩ := holds
  have fits : a.logline.data.length ≤ kMaxFileSize := le_trans a.logline.fits (by decide)
  have older_small : ∀ file ∈ older, file.content.length ≤ kMaxFileSize := fun file member =>
    small file (opened.files ▸ List.mem_append_left _ member)
  have last_small : content.length ≤ kMaxFileSize :=
    small ⟨name, content⟩ (opened.files ▸ List.mem_append_right _ List.mem_cons_self)
  have bytes : ((appended ++ [a]).map fun a => a.logline.data).flatten =
      (older.map DiskFile.content).flatten ++ content ++ a.logline.data := by
    rw [List.map_append, List.flatten_append, ← all, opened.files]
    simp
  by_cases large : log.writed + a.logline.data.length > kMaxFileSize
  · have name_new := fresh a.rollTime (by rw [rolls, if_pos large]; rfl)
    have opened' := (opened.rollFile name_new).wrote a.logline.data
    rw [append_roll large]
    refine ⟨opened'.kept (small_snoc older_small name last_small) fits ?_, _, _, _, opened', ?_⟩
    · rw [bytes]
      simp
    · exact (Nat.zero_add _).symm
  · have whole : (content ++ a.logline.data).length ≤ kMaxFileSize := by
      rw [List.length_append, size]
      exact Nat.not_lt.mp large
    have wrote := opened.wrote a.logline.data
    rcases append_cases getFileName large with
      ⟨-, files, fp, writed⟩ | ⟨rolled, is⟩
    · have opened' : OpenOn older name (content ++ a.logline.data) (log.append getFileName a) :=
        ⟨files.trans wrote.files, fp.trans opened.fp, opened.only⟩
      refine ⟨opened'.kept older_small whole (by rw [bytes, List.append_assoc]), _, _, _,
        opened', ?_⟩
      rw [writed, List.length_append, size]
    · have name_new := fresh a.dayRollTime (by rw [rolled]; rfl)
      have name_new' : getFileName a.dayRollTime ∉
          (log.wrote a.logline.data).files.map DiskFile.name := by
        rw [wrote.files]
        rw [opened.files] at name_new
        simpa using name_new
      have opened' := wrote.rollFile name_new'
      rw [is]
      refine ⟨opened'.kept (small_snoc older_small name whole) (Nat.zero_le _) ?_, _, _, _, opened',
        rfl⟩
      rw [bytes]
      simp

/-! ## Runs -/

/-- The calls of `append`. -/
def Appends (getFileName : Int → Bytes) (log : LogFile) (a : AppendCall) (log' : LogFile) : Prop :=
  log.append getFileName a = log'

/-- **When every roll opens a new file**, no file is ever larger than `kMaxFileSize`, and the
files in the order in which they were opened hold what was appended. -/
theorem log_files_kept (now : Int)
    (run : Run (Guarded (Fresh getFileName) (Appends getFileName)) (new getFileName now) appended
      log) : Kept appended log := by
  refine (run.historyInvariant (I := Holds) (holds_new getFileName now) ?_).toKept
  rintro appended log a - holds ⟨fresh, rfl⟩
  exact holds.append fresh

/-- The names of the first two seconds of the clock. -/
def firstNames (now : Int) : Bytes :=
  if now = 0 then ascii "19700101-000000.log" else ascii "19700101-000001.log"

/-- A full buffer that is written at once. -/
def fullCall (now : Int) : AppendCall where
  logline := ⟨List.replicate kBufferSize 97, by rw [List.length_replicate]⟩
  rollTime := now
  checkTime := now
  dayRollTime := now
  fwrite := ⟨List.length, fun _ => List.length_pos_iff.mpr, fun _ => le_refl _⟩

/-- The log file after `k` full buffers, with a value of `count_`. -/
def counted (count k : Nat) : LogFile where
  count := count
  writed := kBufferSize * k
  fp := some (firstNames 0)
  files := [⟨firstNames 0, List.replicate (kBufferSize * k) 97⟩]

def filled (k : Nat) : LogFile := counted (k % kCheckRollPerN) k

theorem replicate_full (k : Nat) :
    List.replicate (kBufferSize * k) (97 : UInt8) ++ List.replicate kBufferSize 97 =
      List.replicate (kBufferSize * (k + 1)) 97 := by
  rw [List.replicate_append_replicate, Nat.mul_add, Nat.mul_one]

theorem wrote_filled (k : Nat) :
    (filled k).wrote (fullCall 0).logline.data = counted (k % kCheckRollPerN + 1) (k + 1) := by
  have size : (List.replicate kBufferSize (97 : UInt8)).length = kBufferSize :=
    List.length_replicate
  rw [wrote, put]
  simp only [filled, counted, fullCall, List.map_singleton, if_true, replicate_full, size,
    Nat.mul_add, Nat.mul_one]

theorem filled_small {k : Nat} (room : k < 16384) :
    ¬(filled k).writed + (fullCall 0).logline.data.length > kMaxFileSize := by
  have size : (fullCall 0).logline.data.length = kBufferSize := List.length_replicate
  rw [size]
  change ¬4096 * k + 4096 > 67108864
  omega

theorem same_day : ¬dayOf 0 > 0 := by decide

/-- As long as the file has room, the buffers of one second go to it. -/
theorem append_filled {k : Nat} (room : k < 16384) :
    (filled k).append firstNames (fullCall 0) = filled (k + 1) := by
  have soon : ¬(0 : Int) - 0 > kFlushInterval := by decide
  rw [append_eq, if_neg (filled_small room), wrote_filled, checked]
  by_cases due : k % 1024 + 1 ≥ 1024
  · have zero : (k + 1) % 1024 = 0 := by omega
    refine ((if_pos due).trans (check_idle same_day soon)).trans ?_
    change counted 0 (k + 1) = counted ((k + 1) % 1024) (k + 1)
    rw [zero]
  · have next : (k + 1) % 1024 = k % 1024 + 1 := by omega
    refine (if_neg due).trans ?_
    change counted (k % 1024 + 1) (k + 1) = counted ((k + 1) % 1024) (k + 1)
    rw [next]

theorem new_eq : new firstNames 0 = filled 0 := rfl

/-- The run that fills the first file within a second. -/
theorem run_filled {k : Nat} (room : k ≤ 16384) :
    Run (Guarded (Fresh firstNames) (Appends firstNames)) (new firstNames 0)
      (List.replicate k (fullCall 0)) (filled k) := by
  induction k with
  | zero =>
      rw [new_eq]
      exact Run.nil _
  | succ k ih =>
      have none_rolls : (filled k).rolls (fullCall 0) = none := by
        rw [rolls, if_neg (filled_small (by omega))]
        exact if_neg fun both => same_day both.2
      rw [List.replicate_succ']
      refine (ih (by omega)).snoc ⟨fun now rolled => ?_, append_filled (by omega)⟩
      rw [none_rolls] at rolled
      cases rolled

/-- The first file is full. -/
theorem full_large (now : Int) :
    (filled 16384).writed + (fullCall now).logline.data.length > kMaxFileSize := by
  have size : (fullCall now).logline.data.length = kBufferSize := List.length_replicate
  rw [size]
  decide

/-- A second later the next buffer goes to a second file. -/
theorem full_then_rolled : ∃ log,
    Run (Guarded (Fresh firstNames) (Appends firstNames)) (new firstNames 0)
      (List.replicate 16384 (fullCall 0) ++ [fullCall 1]) log ∧
    log.files.map DiskFile.name = [firstNames 0, firstNames 1] ∧
    Kept (List.replicate 16384 (fullCall 0) ++ [fullCall 1]) log := by
  have rolled : (filled 16384).rolls (fullCall 1) = some 1 := if_pos (full_large 1)
  have fresh : firstNames 1 ∉ [firstNames 0] := by decide
  have run := (run_filled (le_refl 16384)).snoc (e := fullCall 1) ⟨fun now is => by
    rw [rolled] at is
    cases is
    exact fresh, rfl⟩
  refine ⟨_, run, ?_, log_files_kept 0 run⟩
  rw [append_roll (full_large 1)]
  rfl

/-- In the same second the full file is opened again. -/
theorem not_log_files_kept : ∃ log,
    Run (Appends firstNames) (new firstNames 0) (List.replicate 16385 (fullCall 0)) log ∧
    (∃ file ∈ log.files, file.content.length = kMaxFileSize + kBufferSize) ∧
    ¬Kept (List.replicate 16385 (fullCall 0)) log := by
  have run := (run_filled (le_refl 16384)).of_guarded.snoc (e := fullCall 0)
    (show Appends firstNames (filled 16384) (fullCall 0) _ from rfl)
  rw [← List.replicate_succ'] at run
  have large : ∃ file ∈ ((filled 16384).append firstNames (fullCall 0)).files,
      file.content.length = kMaxFileSize + kBufferSize := by
    have reopened : ((filled 16384).append firstNames (fullCall 0)).files =
        [⟨firstNames 0, List.replicate (kBufferSize * (16384 + 1)) 97⟩] := by
      rw [append_roll (full_large 0), ← replicate_full]
      rfl
    rw [reopened]
    exact ⟨_, List.mem_cons_self, List.length_replicate⟩
  refine ⟨_, run, large, fun kept => ?_⟩
  obtain ⟨file, member, size⟩ := large
  have small := kept.small file member
  rw [size] at small
  exact absurd small (by decide)

end LogFile

end Reyao
