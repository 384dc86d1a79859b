import GameFrame.Lib.Decimal
import GameFrame.Lib.Run
import Mathlib.Data.Nat.Basic
import Mathlib.Order.Basic

/-!
# `LogFile`, a log in numbered files

`log_server/log_file.h`, `log_server/log_file.cpp`. The log of a day is in the
files `basename.YYYYMMDD.log.N` of one directory, N from one on. Before each
write `roll_if_needed` looks at the day and at how much is in the file, and
may open another. A `LogFile` that has no file open, which is a new one or one
whose `fopen` failed, looks into the directory for where to go on.

The directory is what it holds, by the path from `basedir_`. What is written
to a `FILE` is in a buffer first, and comes to the directory when the C library
likes, and at the latest with `fflush` and `fclose`, if these do not fail. What
becomes of the bytes that a failed call has not written is up to the library,
and nobody looks at what these calls return.
-/

namespace GameFrame

open Decimal (dec pad)

/-! ## Days -/

/-- A day, as `localtime_r` has it. -/
structure LocalDate where
  year : Nat
  month : Nat
  day : Nat
  month_le : month ≤ 12
  day_le : day ≤ 31
  deriving DecidableEq, Repr

namespace LocalDate

/-- A number that is the greater the later the day. -/
def num (d : LocalDate) : Nat := d.year * 10000 + d.month * 100 + d.day

theorem num_injective : Function.Injective num := by
  rintro ⟨y, m, d, hm, hd⟩ ⟨y', m', d', hm', hd'⟩ h
  have hnum : y * 10000 + m * 100 + d = y' * 10000 + m' * 100 + d' := h
  obtain ⟨rfl, rfl, rfl⟩ : y = y' ∧ m = m' ∧ d = d' := by omega
  rfl

instance : PartialOrder LocalDate := PartialOrder.lift num num_injective

instance (d d' : LocalDate) : Decidable (d ≤ d') :=
  inferInstanceAs (Decidable (d.num ≤ d'.num))

/-- `put_time` with `%Y%m%d`, which is `today_str()`. -/
def todayStr (d : LocalDate) : List Char :=
  dec d.year ++ pad 2 d.month ++ pad 2 d.day

end LocalDate

/-- A time, with its milliseconds. -/
structure LocalTime where
  date : LocalDate
  hour : Nat
  min : Nat
  sec : Nat
  ms : Nat
  deriving DecidableEq, Repr

def bytesOf (cs : List Char) : List UInt8 := cs.map fun c => UInt8.ofNat c.toNat

/-- `[%04d-%02d-%02d %02d:%02d:%02d.%03d] ` and a blank. -/
def LocalTime.prefixLine (t : LocalTime) : List UInt8 :=
  bytesOf (['['] ++ pad 4 t.date.year ++ ['-'] ++ pad 2 t.date.month ++ ['-'] ++
    pad 2 t.date.day ++ [' '] ++ pad 2 t.hour ++ [':'] ++ pad 2 t.min ++
    [':'] ++ pad 2 t.sec ++ ['.'] ++ pad 3 t.ms ++ [']', ' '])

/-! ## The directory -/

structure Directory where
  names : List (List Char) := []
  content : List Char → List UInt8 := fun _ => []

namespace Directory

/-- What `fopen` for appending does to the directory. -/
def create (dir : Directory) (name : List Char) : Directory :=
  if name ∈ dir.names then dir
  else
    { names := dir.names ++ [name]
      content := fun n => if n = name then [] else dir.content n }

def write (dir : Directory) (name : List Char) (bytes : List UInt8) :
    Directory :=
  { dir with
    content := fun n =>
      if n = name then dir.content n ++ bytes else dir.content n }

/-- `file_size`. -/
def fileSize (dir : Directory) (name : List Char) : Nat :=
  (dir.content name).length

/-- What a `directory_iterator` comes upon: not what is deeper down. -/
def iterator (dir : Directory) : List (List Char) :=
  dir.names.filter fun name => !name.contains '/'

end Directory

/-- How `fflush` comes out. One that fails has written the first `n` bytes of
the buffer, and dropped the next `lost`. -/
inductive FlushRes where
  | ok
  | failed (n lost : Nat)
  deriving DecidableEq, Repr

/-- The same of `fflush` and the `fclose` behind it, which writes what is left. -/
structure CloseRes where
  fflush : FlushRes := .ok
  fclose : FlushRes := .ok
  deriving DecidableEq, Repr

/-- How the calls of one `append` come out. The defaults are success. -/
structure FileIo where
  /-- the `directory_iterator`, `file_size` of the candidate, what closes the
  old file, `fopen`, and `file_size` of what was opened -/
  scan : Bool := true
  candidateSize : Bool := true
  close : CloseRes := {}
  fopen : Bool := true
  openSize : Bool := true
  /-- the bytes that `fwrite` takes, if it is not all of them -/
  short : Option Nat := none
  /-- the bytes that go from the buffer into the file, and those behind them
  that are dropped when the write for it fails -/
  through : Nat := 0
  lost : Nat := 0
  deriving DecidableEq, Repr

/-- A `FILE`, and what is in its buffer. -/
structure Stream where
  path : List Char
  buffer : List UInt8
  deriving DecidableEq, Repr

/-- `fflush(fp)`. -/
def Stream.fflush (fp : Stream) (dir : Directory) :
    FlushRes → Stream × Directory
  | .ok => ({ fp with buffer := [] }, dir.write fp.path fp.buffer)
  | .failed n lost =>
      ({ fp with buffer := fp.buffer.drop (n + lost) },
        dir.write fp.path (fp.buffer.take n))

/-- The arguments of the constructor, but for `basedir`. The file is in it and
not deeper down. -/
structure LogConfig where
  basename : List Char
  rollSize : Nat
  plain : '/' ∉ basename
  deriving DecidableEq, Repr

structure LogFile where
  config : LogConfig
  fp : Option Stream := none
  writtenBytes : Nat := 0
  currentDate : List Char := []
  currentSeq : Nat := 0
  deriving DecidableEq, Repr

namespace LogFile

/-! ## Names -/

def filePrefix (config : LogConfig) (dateStr : List Char) : List Char :=
  config.basename ++ ['.'] ++ dateStr ++ ['.', 'l', 'o', 'g', '.']

/-- `make_filename(date_str, seq)`, from `basedir_` on. -/
def makeFilename (config : LogConfig) (dateStr : List Char) (seq : Nat) :
    List Char :=
  filePrefix config dateStr ++ dec seq

def isSpace (c : Char) : Bool :=
  c = ' ' || (9 ≤ c.toNat && c.toNat ≤ 13)

/-- Whether a minus is in front, and what is behind the sign. -/
def sign : List Char → Bool × List Char
  | '-' :: s => (true, s)
  | '+' :: s => (false, s)
  | s => (false, s)

/-- The number in a `long`: one that does not fit is `LONG_MIN` or `LONG_MAX`. -/
def toLong (v : Int) : Int :=
  if v < -9223372036854775808 then -9223372036854775808
  else if 9223372036854775807 < v then 9223372036854775807
  else v

/-- `strtol(s, &end, 10)`: the number and what is behind it, if there is one. -/
def strtol (s : List Char) : Option (Int × List Char) :=
  let (neg, s) := sign (s.dropWhile isSpace)
  let digits := s.takeWhile Char.isDigit
  if digits = [] then none
  else
    let v : Int := Decimal.value digits
    some (toLong (if neg then -v else v), s.dropWhile Char.isDigit)

/-- The number of a file of that day. -/
def fileSeq (namePrefix name : List Char) : Option Nat :=
  if name.length ≤ namePrefix.length then none
  else if name.take namePrefix.length ≠ namePrefix then none
  else
    match strtol (name.drop namePrefix.length) with
    | none => none
    | some (v, rest) =>
        if rest ≠ [] then none
        else if v ≤ 0 ∨ v > 1000000 then none
        else some v.toNat

/-- `scan_today_max_seq(date_str)`. -/
def scanTodayMaxSeq (config : LogConfig) (dir : Directory)
    (dateStr : List Char) : Nat :=
  dir.iterator.foldl
    (fun maxSeq name =>
      match fileSeq (filePrefix config dateStr) name with
      | none => maxSeq
      | some v => if v > maxSeq then v else maxSeq) 0

/-! ## Files -/

/-- `fflush` and `fclose`, if there is a file. -/
def close (f : LogFile) (dir : Directory) (res : CloseRes) :
    LogFile × Directory :=
  match f.fp with
  | none => (f, dir)
  | some fp =>
      let (fp, dir) := fp.fflush dir res.fflush
      ({ f with fp := none }, (fp.fflush dir res.fclose).2)

/-- `open_file()`. -/
def openFile (f : LogFile) (dir : Directory) (io : FileIo) :
    LogFile × Directory :=
  let (f, dir) := f.close dir io.close
  let path := makeFilename f.config f.currentDate f.currentSeq
  if io.fopen then
    let dir := dir.create path
    ({ f with
        fp := some ⟨path, []⟩
        writtenBytes := if io.openSize then dir.fileSize path else 0 }, dir)
  else ({ f with writtenBytes := 0 }, dir)

/-- The number to go on with when no file is open. -/
def firstSeq (f : LogFile) (dir : Directory) (day : List Char) (io : FileIo) :
    Nat :=
  let maxSeq := if io.scan then scanTodayMaxSeq f.config dir day else 0
  if maxSeq = 0 then 1
  else
    let candidate := makeFilename f.config day maxSeq
    if io.candidateSize ∧ dir.fileSize candidate < f.config.rollSize then maxSeq
    else maxSeq + 1

/-- `roll_if_needed()`. -/
def rollIfNeeded (f : LogFile) (dir : Directory) (today : LocalDate)
    (io : FileIo) : LogFile × Directory :=
  let day := today.todayStr
  if f.currentDate ≠ [] ∧ day ≠ f.currentDate then
    { f with currentDate := day, currentSeq := 1 }.openFile dir io
  else if f.fp.isSome ∧ f.writtenBytes ≥ f.config.rollSize then
    { f with currentSeq := f.currentSeq + 1 }.openFile dir io
  else if f.fp.isNone then
    { f with
      currentDate := day, currentSeq := f.firstSeq dir day io }.openFile dir io
  else (f, dir)

/-- One look at the clock, and how the calls behind it come out. -/
structure Call where
  today : LocalDate
  io : FileIo := {}
  deriving DecidableEq, Repr

/-- `append(data)`. -/
def append (f : LogFile) (dir : Directory) (c : Call) (data : List UInt8) :
    LogFile × Directory :=
  let (f, dir) := f.rollIfNeeded dir c.today c.io
  match f.fp with
  | none => (f, dir)
  | some fp =>
      let taken := data.take (c.io.short.getD data.length)
      let buffer := fp.buffer ++ taken
      ({ f with
          fp := some { fp with buffer := buffer.drop (c.io.through + c.io.lost) }
          writtenBytes := f.writtenBytes + taken.length },
        dir.write fp.path (buffer.take c.io.through))

/-- `append_line(payload)`, three times `append`. -/
def appendLine (f : LogFile) (dir : Directory) (now : LocalTime)
    (payload : List UInt8) (c₁ c₂ c₃ : Call) : LogFile × Directory :=
  let (f, dir) := f.append dir c₁ now.prefixLine
  let (f, dir) := f.append dir c₂ payload
  f.append dir c₃ (bytesOf ['\n'])

def flush (f : LogFile) (dir : Directory) (res : FlushRes) :
    LogFile × Directory :=
  match f.fp with
  | none => (f, dir)
  | some fp =>
      let (fp, dir) := fp.fflush dir res
      ({ f with fp := some fp }, dir)

end LogFile

/-! ## Over restarts -/

/-- The directory, and the `LogFile` of the process if one is running. -/
structure LogDir where
  config : LogConfig
  dir : Directory := {}
  file : Option LogFile := none
  /-- the last day that was read, and all data passed to `append` -/
  clock : Option LocalDate := none
  appended : List UInt8 := []

namespace LogDir

open LogFile (Call)

def new (config : LogConfig) : LogDir := { config }

inductive Label where
  | construct (c : Call)
  | append (data : List UInt8) (c : Call)
  | appendLine (now : LocalTime) (payload : List UInt8) (c₁ c₂ c₃ : Call)
  | flush (res : FlushRes := .ok)
  | destroy (res : CloseRes := {})
  deriving Repr

def Label.calls : Label → List Call
  | .construct c | .append _ c => [c]
  | .appendLine _ _ c₁ c₂ c₃ => [c₁, c₂, c₃]
  | .flush _ | .destroy _ => []

def Label.data : Label → List UInt8
  | .append data _ => data
  | .appendLine now payload _ _ _ =>
      now.prefixLine ++ payload ++ bytesOf ['\n']
  | .construct _ | .flush _ | .destroy _ => []

/-- The state behind a call, the `LogFile` and the directory being as in `r`. -/
def enter (s : LogDir) (l : Label) (r : LogFile × Directory) : LogDir :=
  { s with
    dir := r.2
    file := some r.1
    clock := (l.calls.map Call.today).getLast?.or s.clock
    appended := s.appended ++ l.data }

def step (s : LogDir) (l : Label) : Option LogDir :=
  match l, s.file with
  | .construct c, none =>
      some (s.enter l
        (LogFile.rollIfNeeded { config := s.config } s.dir c.today c.io))
  | .append data c, some f => some (s.enter l (f.append s.dir c data))
  | .appendLine now payload c₁ c₂ c₃, some f =>
      some (s.enter l (f.appendLine s.dir now payload c₁ c₂ c₃))
  | .flush res, some f => some (s.enter l (f.flush s.dir res))
  | .destroy res, some f =>
      some { s.enter l (f.close s.dir res) with file := none }
  | _, _ => none

inductive Stepped (s : LogDir) : Label → LogDir → Prop where
  | construct (c : Call) : s.file = none →
      Stepped s (.construct c) (s.enter (.construct c)
        (LogFile.rollIfNeeded { config := s.config } s.dir c.today c.io))
  | append (f : LogFile) (data : List UInt8) (c : Call) : s.file = some f →
      Stepped s (.append data c)
        (s.enter (.append data c) (f.append s.dir c data))
  | appendLine (f : LogFile) (now : LocalTime) (payload : List UInt8)
      (c₁ c₂ c₃ : Call) : s.file = some f →
      Stepped s (.appendLine now payload c₁ c₂ c₃)
        (s.enter (.appendLine now payload c₁ c₂ c₃)
          (f.appendLine s.dir now payload c₁ c₂ c₃))
  | flush (f : LogFile) (res : FlushRes) : s.file = some f →
      Stepped s (.flush res) (s.enter (.flush res) (f.flush s.dir res))
  | destroy (f : LogFile) (res : CloseRes) : s.file = some f →
      Stepped s (.destroy res)
        { s.enter (.destroy res) (f.close s.dir res) with file := none }

theorem step_stepped {s s' : LogDir} {l : Label} (h : s.step l = some s') :
    Stepped s l s' := by
  rw [step.eq_def] at h
  split at h
  · next c hf =>
      cases h
      exact .construct c hf
  · next data c f hf =>
      cases h
      exact .append f data c hf
  · next now payload c₁ c₂ c₃ f hf =>
      cases h
      exact .appendLine f now payload c₁ c₂ c₃ hf
  · next res f hf =>
      cases h
      exact .flush f res hf
  · next res f hf =>
      cases h
      exact .destroy f res hf
  · cases h

end LogDir

end GameFrame
