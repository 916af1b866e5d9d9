import Chtho.Lib.Bytes
import Chtho.Lib.Machine
import Chtho.Lib.Search

/-! `LogFile` and the files it writes.

`append` and `roll` take a mutex, so one call is one step. What a call reads of the clock is
part of it: `check` is the time read in `append_unlocked`, and `now` and `hostname` are
read in `roll`, if it comes to that. The name of a file has the second in it at which
`roll` was called, as `strftime` writes it. -/
namespace Chtho.Logging
open Lib

/-- The stream to a file. Its content is counted as written from the call of `fwrite` on. -/
structure AppendFile where
  name : Bytes
  content : Bytes
  written_ : Nat
deriving DecidableEq, Repr

namespace AppendFile

def create (name : Bytes) : AppendFile := ⟨name, [], 0⟩

/-- The loop of `append`: what `write` takes of a line in its calls, until one takes nothing. -/
def writeLoop : List Nat → Bytes → Bytes
  | [], _ => []
  | x :: counts, line => if line = [] ∨ x = 0 then [] else line.take x ++ writeLoop counts (line.drop x)

/-- What comes into the file of a line. -/
def taken (counts : List Nat) (line : Bytes) : Bytes :=
  line.take (counts.headD 0) ++ writeLoop counts.tail (line.drop (counts.headD 0))

def append (f : AppendFile) (line : Bytes) (counts : List Nat) : AppendFile :=
  {f with content := f.content ++ taken counts line, written_ := f.written_ + line.length}

end AppendFile

namespace LogFile

/-- What can be seen of a run. -/
inductive Event where
  | opened (second : Int) (name : Bytes)
  | closed (file : AppendFile)
  | appended (time : Int) (line : Bytes)
  | flush
deriving DecidableEq, Repr

inductive Action where
  /-- A call of `append` at some time, and what `write` takes of the line. -/
  | append (time : Int) (line : Bytes) (counts : List Nat) (check now : Int) (hostname : Option Bytes)
  | roll (now : Int) (hostname : Option Bytes)
  | flush

/-- `rollPerSec_`, the seconds of a day. -/
def rollPerSec : Int := 60 * 60 * 24

end LogFile

structure LogFile where
  name_ : Bytes
  rollsz_ : Int
  flushInter_ : Int
  checkEveryN_ : Int
  cnt_ : Int
  startOfPeriod_ : Int
  lastRoll_ : Int
  lastFlush_ : Int
  file_ : Option AppendFile
deriving DecidableEq, Repr

namespace LogFile

section
variable (strftime : Int → Bytes) (pid : Int)

def filename (name : Bytes) (now : Int) (hostname : Option Bytes) : Bytes :=
  let timebuf := ascii "." ++ strftime now ++ ascii "."
  let host := match hostname with
    | some host => host.take 255
    | none => ascii "unknownhost"
  name ++ timebuf ++ host ++ (ascii "." ++ decimal pid) ++ ascii ".log"

variable (l : LogFile)

def roll (now : Int) (hostname : Option Bytes) : Bool × LogFile × List Event :=
  let name := filename strftime pid l.name_ now hostname
  let start := now.tdiv rollPerSec * rollPerSec
  if now > l.lastRoll_ then
    (true, {l with lastRoll_ := now, lastFlush_ := now, startOfPeriod_ := start, file_ := some (.create name)},
      .opened now name :: (l.file_.map Event.closed).toList)
  else (false, l, [])

def append_unlocked (line : Bytes) (counts : List Nat) (check now : Int) (hostname : Option Bytes) :
    Option (LogFile × List Event) := do
  let file ← l.file_
  let file := file.append line counts
  let l := {l with file_ := some file}
  if (file.written_ : Int) > l.rollsz_ then some (l.roll strftime pid now hostname).2
  else
    let l := {l with cnt_ := l.cnt_ + 1}
    if l.cnt_ ≥ l.checkEveryN_ then
      let l := {l with cnt_ := 0}
      let curPeriod := check.tdiv rollPerSec * rollPerSec
      if curPeriod ≠ l.startOfPeriod_ then some (l.roll strftime pid now hostname).2
      else if check - l.lastFlush_ > l.flushInter_ then some ({l with lastFlush_ := check}, [.flush])
      else some (l, [])
    else some (l, [])

/-- The constructor. -/
def create (name : Bytes) (rollsz flushInter checkEveryN : Int) (now : Int) (hostname : Option Bytes) :
    Option (LogFile × List Event) := do
  assert (chr '/' ∉ name)
  let l : LogFile := ⟨name, rollsz, flushInter, checkEveryN, 0, 0, 0, 0, none⟩
  some (l.roll strftime pid now hostname).2

def step : Action → Option (LogFile × List Event)
  | .append time line counts check now hostname => do
    let (l, o) ← l.append_unlocked strftime pid line counts check now hostname
    some (l, .appended time line :: o)
  | .roll now hostname => some (l.roll strftime pid now hostname).2
  | .flush => do
    let _ ← l.file_
    some (l, [.flush])

/-- Any call may come next. -/
def machine : Machine LogFile Action Event where
  enabled := fun _ _ => True
  step := step strftime pid

instance (l : LogFile) (a : Action) : Decidable ((machine strftime pid).enabled l a) :=
  inferInstanceAs (Decidable True)

end

/-! ### The files of a run -/

/-- A file, with the second in its name and the records appended to it. -/
structure Entry where
  second : Int
  name : Bytes
  records : List (Int × Bytes)

def Entry.content (e : Entry) : Bytes := e.records.flatMap Prod.snd

/-- The files opened so far: the last is the current one. -/
structure Files where
  past : List Entry
  current : Option Entry

namespace Files

def all (fs : Files) : List Entry := fs.past ++ fs.current.toList

def note (fs : Files) : Event → Files
  | .opened second name => ⟨fs.all, some ⟨second, name, []⟩⟩
  | .appended time line => {fs with current := fs.current.map fun e => {e with records := e.records ++ [(time, line)]}}
  | .closed _ | .flush => fs

end Files

def files (obs : List Event) : Files := obs.foldl Files.note ⟨[], none⟩

@[simp] theorem files_nil : files [] = ⟨[], none⟩ := rfl

@[simp] theorem files_snoc (obs : List Event) (e : Event) : files (obs ++ [e]) = (files obs).note e :=
  List.foldl_concat ..

/-- The files that were closed, as they were left. -/
def closedFiles (obs : List Event) : List AppendFile :=
  obs.filterMap fun
    | .closed file => some file
    | _ => none

/-- The records of the calls of `append`. -/
def appended (as : List Action) : List (Int × Bytes) :=
  as.filterMap fun
    | .append time line _ _ _ _ => some (time, line)
    | _ => none

/-- What was appended from `boundary` on to files that were opened before it. -/
def late (boundary : Int) (fs : Files) : List (Int × Bytes) :=
  ((fs.all.filter fun e => e.second < boundary).flatMap Entry.records).filter fun r => boundary ≤ r.1

/-- The clock as the calls see it: at their beginning, and when they read it. -/
def Action.times : Action → List Int
  | .append time _ _ check now _ => [time, check, now]
  | .roll now _ => [now]
  | .flush => []

/-- `write` takes the whole line. -/
def Action.WritesFully : Action → Prop
  | .append _ line counts _ _ _ => AppendFile.taken counts line = line
  | _ => True

/-- The call needs an open file. -/
def Action.needsFile : Action → Bool
  | .append .. | .flush => true
  | .roll .. => false

/-- What the calls of `roll` read of the clock. -/
def rolls (as : List Action) : List Int :=
  as.filterMap fun
    | .roll now _ => some now
    | _ => none

/-- Before a call that needs a file, `roll` has read a positive time: `now` is what it reads
in the constructor. -/
def OpenedFirst (now : Int) (as : List Action) : Prop :=
  ∀ pre a, pre ++ [a] <+: as → a.needsFile = true → ∃ t ∈ now :: rolls pre, 0 < t

end LogFile
end Chtho.Logging
