import Chtho.Lib.Machine
import Chtho.Logging.FixedBuffer
import Chtho.Time.Timestamp

/-! `AsyncLogging`: the buffers between the threads that log and the one that writes.

The front ends call `append` under a lock, so one call is one step, and their order is
that in which they take the lock. The back end is a thread of its own, with a step for
each place where the front ends may come between: the test of `running_`, the wait, in
which the lock is free and which may end at any time, the swap, every buffer written, and
the refill of its two spare buffers. What `notify` adds to this is nothing. -/
namespace Chtho.Logging
open Lib

/-- A unique pointer to a buffer, or null. -/
abbrev BufPtr := Option (FixedBuffer kLarge)

/-- What is read through a pointer. -/
def BufPtr.text (p : BufPtr) : Bytes := p.elim [] FixedBuffer.text

namespace AsyncLogging

/-- Where the back end is. -/
inductive Pc where
  /-- Not started. -/
  | idle
  /-- At the start of `threadFunc`. -/
  | threadFunc
  /-- At the test of `running_`. -/
  | test
  /-- Inside the loop, before the lock is taken. -/
  | enter
  /-- In `waitForSecs`. -/
  | waiting
  /-- Behind the critical section. -/
  | swapped
  /-- Writing, with so many buffers written. -/
  | writing (written : Nat)
  | done
deriving DecidableEq, Repr

/-- What can be seen of a run. -/
inductive Event where
  | appended (line : Bytes)
  /-- So many buffers are found to write. -/
  | round (size : Nat)
  | fputs (text : Bytes)
  /-- A call to `LogFile::append`. -/
  | write (line : Bytes)
  /-- A call to `LogFile::flush`. -/
  | flush
deriving DecidableEq, Repr

inductive Action where
  /-- In any thread. The memory of a new buffer may hold anything. -/
  | append (line : Bytes) (data : Nat → UInt8)
  | start
  /-- The back end up to the loop. -/
  | threadFunc (data1 data2 : Nat → UInt8)
  | test
  /-- The assertions, and the critical section up to the wait, or all of it. -/
  | enter
  /-- The wait ends: by a notification, by the timeout or for no reason. -/
  | wake
  /-- The number of buffers is looked at. -/
  | drop (now : Int)
  /-- One buffer is written. -/
  | write
  /-- The rest of a round. -/
  | refill
  /-- `stop()` is called. It returns when the back end is done. -/
  | stop

end AsyncLogging

structure AsyncLogging where
  running_ : Bool
  curBuf_ : BufPtr
  nxtBuf_ : BufPtr
  bufs_ : List BufPtr
  /-- The back end, and its local variables. -/
  pc : AsyncLogging.Pc
  buf1 : BufPtr
  buf2 : BufPtr
  bufs : List BufPtr

namespace AsyncLogging

def create (data1 data2 : Nat → UInt8) : AsyncLogging where
  running_ := false
  curBuf_ := some (FixedBuffer.create kLarge data1).zero
  nxtBuf_ := some (FixedBuffer.create kLarge data2).zero
  bufs_ := []
  pc := .idle
  buf1 := none
  buf2 := none
  bufs := []

variable (s : AsyncLogging)

def append (line : Bytes) (data : Nat → UInt8) : Option AsyncLogging := do
  let cur ← s.curBuf_
  if cur.avail > line.length then
    some {s with curBuf_ := some (cur.append line)}
  else
    let s := {s with bufs_ := s.bufs_ ++ [some cur]}
    match s.nxtBuf_ with
    | some nxt => some {s with curBuf_ := some (nxt.append line), nxtBuf_ := none}
    | none => some {s with curBuf_ := some ((FixedBuffer.create kLarge data).append line)}

def start : AsyncLogging := {s with running_ := true, pc := .threadFunc}

def stop : AsyncLogging := {s with running_ := false}

/-! ### The back end -/

def threadFunc (data1 data2 : Nat → UInt8) : Option AsyncLogging := do
  assert (s.running_ = true)
  some {s with
    buf1 := some (FixedBuffer.create kLarge data1).zero
    buf2 := some (FixedBuffer.create kLarge data2).zero
    bufs := []
    pc := .test}

def test : AsyncLogging × List Event :=
  if s.running_ then ({s with pc := .enter}, []) else ({s with pc := .done}, [.flush])

/-- The critical section behind the wait. -/
def swap : AsyncLogging :=
  let s := {s with bufs_ := s.bufs_ ++ [s.curBuf_]}
  let s := {s with curBuf_ := s.buf1, buf1 := none}
  let s := {s with bufs := s.bufs_, bufs_ := s.bufs}
  let s := if s.nxtBuf_.isNone then {s with nxtBuf_ := s.buf2, buf2 := none} else s
  {s with pc := .swapped}

def enter : Option AsyncLogging := do
  assert (s.buf1.any (fun b => b.length = 0) = true)
  assert (s.buf2.any (fun b => b.length = 0) = true)
  assert (s.bufs.isEmpty = true)
  if s.bufs_.isEmpty then some {s with pc := .waiting} else some s.swap

/-- `snprintf` into 256 bytes. -/
def dropMessage (now : Int) (size : Nat) : Bytes :=
  (ascii "drop log at " ++ Timestamp.toString now ++ ascii ", " ++ decimal (size - 2 : Nat) ++
    ascii " larger bufs\n").take 255

def drop (now : Int) : Option (AsyncLogging × List Event) := do
  assert (s.bufs.isEmpty = false)
  let size := s.bufs.length
  if size > 25 then
    let buf := dropMessage now size
    some ({s with bufs := s.bufs.take 2, pc := .writing 0}, [.round size, .fputs buf, .write buf])
  else some ({s with pc := .writing 0}, [.round size])

def write (i : Nat) : Option (AsyncLogging × List Event) := do
  let p ← s.bufs[i]?
  let buf ← p
  some ({s with pc := .writing (i + 1)}, [.write buf.text])

/-- A spare buffer that was given away is replaced by the last one written. -/
def refillFrom (buf : BufPtr) (bufs : List BufPtr) : Option (BufPtr × List BufPtr) :=
  if buf.isNone then do
    assert (bufs.isEmpty = false)
    let back ← bufs.getLast?.join
    some (some back.reset, bufs.dropLast)
  else some (buf, bufs)

def refill : Option (AsyncLogging × List Event) := do
  let bufs := if s.bufs.length > 2 then s.bufs.take 2 else s.bufs
  let (buf1, bufs) ← refillFrom s.buf1 bufs
  let (buf2, _) ← refillFrom s.buf2 bufs
  some ({s with buf1 := buf1, buf2 := buf2, bufs := [], pc := .test}, [.flush])

/-! ### The machine -/

/-- What may happen next. The length of a line is an `int`, and `stop()` is called after
`start()` has returned, which waits for the thread to open the latch. -/
def Enabled : Action → Prop
  | .append line _ => line.length < 2 ^ 31
  | .start => s.pc = .idle
  | .threadFunc _ _ => s.pc = .threadFunc
  | .test => s.pc = .test
  | .enter => s.pc = .enter
  | .wake => s.pc = .waiting
  | .drop _ => s.pc = .swapped
  | .write => ∃ i < s.bufs.length, s.pc = .writing i
  | .refill => s.pc = .writing s.bufs.length
  | .stop => s.pc ≠ .idle ∧ s.pc ≠ .threadFunc

instance (a : Action) : Decidable (Enabled s a) :=
  match a with
  | .append line _ => inferInstanceAs (Decidable (line.length < 2 ^ 31))
  | .start => inferInstanceAs (Decidable (s.pc = .idle))
  | .threadFunc _ _ => inferInstanceAs (Decidable (s.pc = .threadFunc))
  | .test => inferInstanceAs (Decidable (s.pc = .test))
  | .enter => inferInstanceAs (Decidable (s.pc = .enter))
  | .wake => inferInstanceAs (Decidable (s.pc = .waiting))
  | .drop _ => inferInstanceAs (Decidable (s.pc = .swapped))
  | .write => inferInstanceAs (Decidable (∃ i < s.bufs.length, s.pc = .writing i))
  | .refill => inferInstanceAs (Decidable (s.pc = .writing s.bufs.length))
  | .stop => inferInstanceAs (Decidable (s.pc ≠ .idle ∧ s.pc ≠ .threadFunc))

def step : Action → Option (AsyncLogging × List Event)
  | .append line data => (s.append line data).map (·, [.appended line])
  | .start => some (s.start, [])
  | .threadFunc data1 data2 => (s.threadFunc data1 data2).map (·, [])
  | .test => some s.test
  | .enter => s.enter.map (·, [])
  | .wake => some (s.swap, [])
  | .drop now => s.drop now
  | .write =>
    match s.pc with
    | .writing i => s.write i
    | _ => none
  | .refill => s.refill
  | .stop => some (s.stop, [])

def machine : Machine AsyncLogging Action Event := ⟨Enabled, step⟩

instance (a : Action) : Decidable (machine.enabled s a) := inferInstanceAs (Decidable (Enabled s a))

end AsyncLogging
end Chtho.Logging
