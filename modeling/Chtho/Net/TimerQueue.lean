import Chtho.Lib.Machine
import Chtho.Lib.OrdSet
import Chtho.Time.Timestamp
import Mathlib.Algebra.Group.Int.Defs
import Mathlib.Data.Prod.Lex
import Mathlib.Logic.Function.Basic

/-! `TimerQueue`: the timers of a loop, as steps of the thread that runs it.

Timers are objects on the heap, known by their addresses; an address may be that of
a timer deleted before, and a `TimerID` carries the timer's sequence number too. The
steps are the queue's functions, `handleRead` cut where something else may come between:
at the start it takes the expired timers out of both sets, then their callbacks run one
by one, and each may add and cancel timers, and at the end every timer of the batch is
restarted or deleted and the timerfd is set for the earliest one left. The constructor of
a timer runs in any thread, before the loop's thread adds the timer. -/
namespace Chtho.Net
open Lib

abbrev Addr := Nat

def UINTPTR_MAX : Addr := 0xffffffffffffffff

structure Timer where
  expir : Int
  /-- The microseconds between two runs, if the timer repeats. -/
  interval : Option Nat
  seq : Nat
deriving DecidableEq, Repr

namespace Timer

def repeats (t : Timer) : Bool := t.interval.isSome

def restart (t : Timer) (now : Int) : Timer :=
  match t.interval with
  | some us => {t with expir := now + us}
  | none => {t with expir := 0}

end Timer

/-- The default one names no timer. -/
structure TimerID where
  timer : Addr := 0
  seq : Nat := 0
deriving DecidableEq, Repr

namespace TimerQueue

/-- `std::pair<Timestamp, Timer*>`, compared as pairs are. -/
abbrev Entry := Int ×ₗ Addr

/-- `std::pair<Timer*, int64_t>` -/
abbrev ActiveTimer := Addr ×ₗ Nat

def entry (time : Int) (timer : Addr) : Entry := toLex (time, timer)
def Entry.time (x : Entry) : Int := (ofLex x).1
def Entry.timer (x : Entry) : Addr := (ofLex x).2
def activeTimer (timer : Addr) (seq : Nat) : ActiveTimer := toLex (timer, seq)
def ActiveTimer.timer (x : ActiveTimer) : Addr := (ofLex x).1
def ActiveTimer.seq (x : ActiveTimer) : Nat := (ofLex x).2

/-- Where the loop's thread is in `handleRead`. -/
inductive Phase where
  | outside
  /-- The callbacks of `done` have begun, all but the last have returned, and those of
  `todo` are still to run. -/
  | calling (now : Int) (done todo : List Entry)
  /-- In `reset`, with these timers to go. -/
  | resetting (now : Int) (rest : List Entry)

/-- What can be seen of a run. -/
inductive Event where
  | added (timer : Addr) (seq : Nat)
  /-- The callback of a timer starts. -/
  | run (seq : Nat)
  | deleted (seq : Nat)
  /-- The callbacks of a batch have all returned. -/
  | batchDone
  | settime (value : Timespec)
deriving DecidableEq, Repr

inductive Action where
  /-- `new Timer`, in any thread. -/
  | create (timer : Addr) (expir : Int) (interval : Option Nat)
  /-- The same for another loop. -/
  | createElsewhere
  | addTimerInLoop (timer : Addr) (now : Int)
  | rmTimerInLoop (id : TimerID)
  /-- `handleRead` up to the first callback. -/
  | handleRead (now : Int)
  /-- The next callback starts. -/
  | run
  /-- The last one has returned. -/
  | reset
  /-- `reset` is done with one timer. -/
  | resetTimer
  /-- And with all. -/
  | finish (now : Int)
deriving DecidableEq, Repr

end TimerQueue

structure TimerQueue where
  /-- The timer objects that are not deleted. -/
  heap : Addr → Option Timer
  numCreated : Nat
  /-- Created, and not yet added. -/
  created : List Addr
  timers : OrdSet TimerQueue.Entry
  activeTimers : OrdSet TimerQueue.ActiveTimer
  cancelTimers : OrdSet TimerQueue.ActiveTimer
  callingExpiredTimers : Bool
  phase : TimerQueue.Phase
  /-- The time the timerfd is armed for. It is readable from then on. -/
  timerfd : Option Int
  /-- The last reading of the clock. -/
  clock : Int
  /-- When `resetTimerfd` was last called. -/
  lastReset : Int

namespace TimerQueue

/-- `callingExpiredTimers_` has no initial value, and `numCreated_` counts the timers of all loops. -/
def create (callingExpiredTimers : Bool) (numCreated : Nat) (clock : Int) : TimerQueue :=
  ⟨fun _ => none, numCreated, [], .empty, .empty, .empty, callingExpiredTimers, .outside, none, clock, clock⟩

/-! ### The timerfd -/

/-- `timerfd_settime(2)` with a relative time. -/
def settime (timerfd : Option Int) (now : Int) (value : Timespec) : Option Int :=
  if value.Accepted then if value = ⟨0, 0⟩ then none else some (now + value.us) else timerfd

/-- `read(2)` takes the expirations of a readable timerfd, and otherwise fails. -/
def readTimerfd (timerfd : Option Int) (now : Int) : Option Int :=
  timerfd.filter (now < ·)

/-! ### The functions of the queue -/

variable (s : TimerQueue)

/-- The timer at an address, which must not have been deleted. -/
def deref (timer : Addr) : Option Timer := s.heap timer

def delete (timer : Addr) : Option TimerQueue := do
  let _ ← s.deref timer
  some {s with heap := Function.update s.heap timer none}

def resetTimerfd (now exp : Int) : TimerQueue × List Event :=
  let value := Timestamp.sub exp now
  ({s with timerfd := settime s.timerfd now value, clock := now, lastReset := now}, [.settime value])

/-- Whether the timer is the earliest is the second result. -/
def insert (timer : Addr) : Option (TimerQueue × Bool) := do
  let t ← s.deref timer
  let earliest := match s.timers.first with
    | none => true
    | some x => decide (t.expir < x.time)
  some ({s with
    timers := s.timers.insert (entry t.expir timer)
    activeTimers := s.activeTimers.insert (activeTimer timer t.seq)}, earliest)

def addTimerInLoop (timer : Addr) (now : Int) : Option (TimerQueue × List Event) := do
  let t ← s.deref timer
  let (s, earliest) ← insert {s with created := s.created.erase timer} timer
  if earliest then
    let (s, o) := s.resetTimerfd now t.expir
    some (s, .added timer t.seq :: o)
  else some (s, [.added timer t.seq])

def rmTimerInLoop (id : TimerID) : Option (TimerQueue × List Event) := do
  assert (s.timers.size = s.activeTimers.size)
  let timer := activeTimer id.timer id.seq
  let (s, o) ←
    if timer ∈ s.activeTimers.elems then do
      let t ← s.deref id.timer
      assert (entry t.expir id.timer ∈ s.timers.elems)
      let s ← delete {s with timers := s.timers.erase (entry t.expir id.timer)} id.timer
      some ({s with activeTimers := s.activeTimers.erase timer}, [Event.deleted t.seq])
    else if s.callingExpiredTimers then some ({s with cancelTimers := s.cancelTimers.insert timer}, [])
    else some (s, [])
  assert (s.timers.size = s.activeTimers.size)
  some (s, o)

/-- The loop of `getExpired` over the expired timers. -/
def eraseActive (expired : List Entry) (activeTimers : OrdSet ActiveTimer) : Option (OrdSet ActiveTimer) :=
  expired.foldlM (fun activeTimers x => do
    let t ← s.deref x.timer
    assert (activeTimer x.timer t.seq ∈ activeTimers.elems)
    some (activeTimers.erase (activeTimer x.timer t.seq))) activeTimers

def getExpired (now : Int) : Option (TimerQueue × List Entry) := do
  assert (s.timers.size = s.activeTimers.size)
  let sentry := entry now UINTPTR_MAX
  let expired := s.timers.before sentry
  let timers := s.timers.dropBefore sentry
  let activeTimers ← s.eraseActive expired s.activeTimers
  assert (timers.size = activeTimers.size)
  some ({s with timers := timers, activeTimers := activeTimers}, expired)

/-- `handleRead` up to the first callback. -/
def handleRead (now : Int) : Option (TimerQueue × List Event) := do
  let s := {s with clock := now, timerfd := readTimerfd s.timerfd now}
  let (s, expired) ← s.getExpired now
  some ({s with callingExpiredTimers := true, cancelTimers := .empty, phase := .calling now [] expired}, [])

/-- The body of the loop in `reset`. -/
def resetTimer (now : Int) (timer : Addr) : Option (TimerQueue × List Event) := do
  let t ← s.deref timer
  if t.repeats = true ∧ activeTimer timer t.seq ∉ s.cancelTimers.elems then do
    let (s, _) ← insert {s with heap := Function.update s.heap timer (t.restart now)} timer
    some (s, [])
  else do
    let s ← s.delete timer
    some (s, [.deleted t.seq])

/-- What `reset` does after its loop. -/
def finish (now : Int) : Option (TimerQueue × List Event) := do
  let nxt ← match s.timers.first with
    | none => some 0
    | some x => (s.deref x.timer).map Timer.expir
  if Timestamp.valid nxt then some (s.resetTimerfd now nxt) else some (s, [])

/-! ### The machine -/

def step : Action → Option (TimerQueue × List Event)
  | .create timer expir interval =>
    some ({s with
      heap := Function.update s.heap timer (some ⟨expir, interval, s.numCreated + 1⟩)
      numCreated := s.numCreated + 1
      created := s.created ++ [timer]}, [])
  | .createElsewhere => some ({s with numCreated := s.numCreated + 1}, [])
  | .addTimerInLoop timer now => s.addTimerInLoop timer now
  | .rmTimerInLoop id => s.rmTimerInLoop id
  | .handleRead now => s.handleRead now
  | .run =>
    match s.phase with
    | .calling now done (x :: todo) => do
      let t ← s.deref x.timer
      some ({s with phase := .calling now (done ++ [x]) todo}, [.run t.seq])
    | _ => none
  | .reset =>
    match s.phase with
    | .calling now done [] =>
      some ({s with callingExpiredTimers := false, phase := .resetting now done}, [.batchDone])
    | _ => none
  | .resetTimer =>
    match s.phase with
    | .resetting now (x :: rest) => resetTimer {s with phase := .resetting now rest} now x.timer
    | _ => none
  | .finish now => finish {s with phase := .outside} now

/-- The loop's thread may be in code that uses the queue: outside of `handleRead`, or in
the callback of a timer. -/
def Phase.inUse : Phase → Prop
  | .outside => True
  | .calling _ done _ => done ≠ []
  | .resetting _ _ => False

instance : (p : Phase) → Decidable p.inUse
  | .outside => inferInstanceAs (Decidable True)
  | .calling _ done _ => inferInstanceAs (Decidable (done ≠ []))
  | .resetting _ _ => inferInstanceAs (Decidable False)

/-- What `handleRead` does next, where it is entered if it is not running. -/
inductive Turn where
  | handleRead
  | run
  | reset
  | resetTimer
  | finish
deriving DecidableEq

def Phase.next : Phase → Turn
  | .outside => .handleRead
  | .calling _ _ (_ :: _) => .run
  | .calling _ _ [] => .reset
  | .resetting _ (_ :: _) => .resetTimer
  | .resetting _ [] => .finish

def Enabled : Action → Prop
  -- memory that is not in use, and room for an object
  | .create timer _ _ => timer ≠ 0 ∧ timer < UINTPTR_MAX ∧ s.heap timer = none
  | .createElsewhere => True
  | .addTimerInLoop timer now => s.phase.inUse ∧ timer ∈ s.created ∧ s.clock ≤ now
  | .rmTimerInLoop _ => s.phase.inUse
  | .handleRead now => s.phase.next = .handleRead ∧ s.clock ≤ now
  | .run => s.phase.next = .run
  | .reset => s.phase.next = .reset
  | .resetTimer => s.phase.next = .resetTimer
  | .finish now => s.phase.next = .finish ∧ s.clock ≤ now

instance : (a : Action) → Decidable (s.Enabled a)
  | .create timer _ _ => inferInstanceAs (Decidable (timer ≠ 0 ∧ timer < UINTPTR_MAX ∧ s.heap timer = none))
  | .createElsewhere => inferInstanceAs (Decidable True)
  | .addTimerInLoop timer now => inferInstanceAs (Decidable (s.phase.inUse ∧ timer ∈ s.created ∧ s.clock ≤ now))
  | .rmTimerInLoop _ => inferInstanceAs (Decidable s.phase.inUse)
  | .handleRead now => inferInstanceAs (Decidable (s.phase.next = .handleRead ∧ s.clock ≤ now))
  | .run => inferInstanceAs (Decidable (s.phase.next = .run))
  | .reset => inferInstanceAs (Decidable (s.phase.next = .reset))
  | .resetTimer => inferInstanceAs (Decidable (s.phase.next = .resetTimer))
  | .finish now => inferInstanceAs (Decidable (s.phase.next = .finish ∧ s.clock ≤ now))

def machine : Machine TimerQueue Action Event := ⟨Enabled, step⟩

instance (a : Action) : Decidable (machine.enabled s a) := inferInstanceAs (Decidable (s.Enabled a))

end TimerQueue
end Chtho.Net
