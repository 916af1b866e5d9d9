import Mathlib.Algebra.Group.Nat.Defs
import Mathlib.Logic.Function.Basic
import Chtho.Lib.Machine
import Chtho.Lib.Mailbox

/-! `EventLoop`: the loop thread between `poll` and the pending functors, and the
threads that queue functors for it.

`queue` is `pendingCBs_` together with what is left of the batch that
`doPendingFuncs` swapped out. `wakeupFd` is the counter of the eventfd. A call of
`queueInLoop` is two steps of its thread, the push under the lock and the decision
to write the eventfd, and so is a call of `quit`; the loop thread's own steps are
those between which another thread can be seen. `runInLoop` is `queueInLoop` in
another thread and a plain call in the loop thread, so it needs no steps of its own.

Functors are of any type `φ` and threads of any type `τ`; `me` is the loop's own. -/
namespace Chtho.Net
open Lib

namespace EventLoop

/-- An active channel: the loop's own eventfd, or any other. -/
inductive Source where
  | wakeup
  | fd (n : Nat)
deriving DecidableEq, Repr

/-- Where the loop thread is. -/
inductive Pc where
  /-- Not in `loop()`. -/
  | outside
  /-- At `while(!quit_)`. -/
  | test
  /-- In `poller_->poll`. -/
  | polling
  /-- Handling events, with the active channels still to come. -/
  | dispatching (active : List Source)
  /-- In `doPendingFuncs`, before the swap. -/
  | swapping
  /-- In the loop over the functors swapped out. -/
  | running
deriving DecidableEq, Repr

/-- Where a thread is in `queueInLoop` or `quit`. -/
inductive Call where
  | none
  /-- Between `push_back` and the end of `queueInLoop`. -/
  | queueing
  /-- Between `quit_ = true` and the end of `quit`. -/
  | quitting
deriving DecidableEq, Repr

inductive Action (φ τ : Type) where
  | push (t : τ) (f : φ)
  | pushed (t : τ)
  | setQuit (t : τ)
  | quitSet (t : τ)
  | loop
  | test
  | poll (active : List Source)
  | handleEvent
  | doPendingFuncs
  | swap
  | func
  | finish
deriving DecidableEq, Repr

/-- What is recorded of a run: functors as they are pushed and as they are run. -/
inductive Event (φ : Type) where
  | pushed (f : φ)
  | ran (f : φ)
deriving DecidableEq, Repr

end EventLoop

structure EventLoop (φ τ : Type) where
  looping : Bool
  quit : Bool
  callingPendingCBs : Bool
  handlingEvents : Bool
  curActiveChannel : Option EventLoop.Source
  queue : Mailbox φ
  wakeupFd : Nat
  pc : EventLoop.Pc
  call : τ → EventLoop.Call

namespace EventLoop

/-- The largest value the counter of an eventfd can hold. -/
def eventfdMax : Nat := 2 ^ 64 - 2

def create (φ τ : Type) : EventLoop φ τ :=
  ⟨false, false, false, false, none, .empty, 0, .outside, fun _ => .none⟩

variable {φ τ : Type}

/-- A write to a counter that is full fails and leaves it full. -/
def wakeup (s : EventLoop φ τ) : EventLoop φ τ :=
  {s with wakeupFd := if s.wakeupFd < eventfdMax then s.wakeupFd + 1 else s.wakeupFd}

/-- A read takes the whole counter. -/
def handleRead (s : EventLoop φ τ) : EventLoop φ τ := {s with wakeupFd := 0}

/-- The loop thread runs user code before and after `loop()`, in event handlers and
in functors. -/
def Pc.userCode : Pc → Bool
  | .outside | .dispatching _ | .running => true
  | _ => false

variable [DecidableEq τ] (me : τ)

/-- What can happen next. A thread makes one call at a time, and a call of the loop
thread holds up the loop. The kernel reports the eventfd only if it is readable. -/
def Enabled (s : EventLoop φ τ) : Action φ τ → Prop
  | .push t _ | .setQuit t => s.call t = .none ∧ (t = me → s.pc.userCode = true)
  | .pushed t => s.call t = .queueing
  | .quitSet t => s.call t = .quitting
  | .loop => s.call me = .none ∧ s.pc = .outside
  | .test => s.call me = .none ∧ s.pc = .test
  | .poll active => s.call me = .none ∧ s.pc = .polling ∧ (.wakeup ∈ active → 0 < s.wakeupFd)
  | .handleEvent => s.call me = .none ∧ ∃ a rest, s.pc = .dispatching (a :: rest)
  | .doPendingFuncs => s.call me = .none ∧ s.pc = .dispatching []
  | .swap => s.call me = .none ∧ s.pc = .swapping
  | .func => s.call me = .none ∧ s.pc = .running ∧ s.queue.batch ≠ []
  | .finish => s.call me = .none ∧ s.pc = .running ∧ s.queue.batch = []

def step (s : EventLoop φ τ) : Action φ τ → Option (EventLoop φ τ × List (Event φ))
  | .push t f =>
    some ({s with queue := s.queue.post f, call := Function.update s.call t .queueing}, [.pushed f])
  | .pushed t =>
    let s' := {s with call := Function.update s.call t .none}
    some (if t ≠ me ∨ s.callingPendingCBs then s'.wakeup else s', [])
  | .setQuit t => some ({s with quit := true, call := Function.update s.call t .quitting}, [])
  | .quitSet t =>
    let s' := {s with call := Function.update s.call t .none}
    some (if t ≠ me then s'.wakeup else s', [])
  | .loop => do
    assert (s.looping = false)
    some ({s with looping := true, quit := false, pc := .test}, [])
  | .test =>
    if s.quit then some ({s with looping := false, pc := .outside}, [])
    else some ({s with pc := .polling}, [])
  | .poll active => some ({s with handlingEvents := true, pc := .dispatching active}, [])
  | .handleEvent =>
    match s.pc with
    | .dispatching (a :: rest) =>
      let s' := {s with curActiveChannel := some a, pc := .dispatching rest}
      some (if a = .wakeup then s'.handleRead else s', [])
    | _ => none
  | .doPendingFuncs =>
    some ({s with curActiveChannel := none, handlingEvents := false, callingPendingCBs := true, pc := .swapping}, [])
  | .swap => some ({s with queue := s.queue.swap, pc := .running}, [])
  | .func => do
    let (f, queue) ← s.queue.next
    some ({s with queue := queue}, [.ran f])
  | .finish => some ({s with callingPendingCBs := false, pc := .test}, [])

def machine : Machine (EventLoop φ τ) (Action φ τ) (Event φ) := ⟨Enabled me, step me⟩

instance (pc : Pc) : Decidable (∃ a rest, pc = .dispatching (a :: rest)) :=
  match pc with
  | .dispatching (a :: rest) => isTrue ⟨a, rest, rfl⟩
  | .dispatching [] | .outside | .test | .polling | .swapping | .running => isFalse nofun

instance (s : EventLoop φ τ) (a : Action φ τ) : Decidable (Enabled me s a) :=
  match a with
  | .push t _ | .setQuit t =>
    inferInstanceAs (Decidable (s.call t = .none ∧ (t = me → s.pc.userCode = true)))
  | .pushed t => inferInstanceAs (Decidable (s.call t = .queueing))
  | .quitSet t => inferInstanceAs (Decidable (s.call t = .quitting))
  | .loop => inferInstanceAs (Decidable (s.call me = .none ∧ s.pc = .outside))
  | .test => inferInstanceAs (Decidable (s.call me = .none ∧ s.pc = .test))
  | .poll active =>
    inferInstanceAs (Decidable (s.call me = .none ∧ s.pc = .polling ∧ (.wakeup ∈ active → 0 < s.wakeupFd)))
  | .handleEvent => inferInstanceAs (Decidable (s.call me = .none ∧ ∃ a rest, s.pc = .dispatching (a :: rest)))
  | .doPendingFuncs => inferInstanceAs (Decidable (s.call me = .none ∧ s.pc = .dispatching []))
  | .swap => inferInstanceAs (Decidable (s.call me = .none ∧ s.pc = .swapping))
  | .func => inferInstanceAs (Decidable (s.call me = .none ∧ s.pc = .running ∧ ¬ s.queue.batch = []))
  | .finish => inferInstanceAs (Decidable (s.call me = .none ∧ s.pc = .running ∧ s.queue.batch = []))

instance (s : EventLoop φ τ) (a : Action φ τ) : Decidable ((machine me).enabled s a) :=
  inferInstanceAs (Decidable (Enabled me s a))

end EventLoop
end Chtho.Net
