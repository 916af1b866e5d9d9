import Mathlib.Logic.Function.Basic
import Chtho.Lib.CondVar
import Chtho.Lib.Machine

/-! `ThreadPool`: producers that queue tasks, and workers that take them.

Every critical section is one step, up to a `wait` or from the end of one. A thread that comes out of
`wait` is back at the test of its loop. What a notification reaches is chosen by the action, and
wake-ups for no reason may come at any time. `running_` and `threads_` are also read
without the mutex, in steps of their own.

Producers are of any type `ι` and tasks of any type `τ`; workers are numbered as in `threads_`. -/
namespace Chtho.Threads
open Lib

namespace ThreadPool

/-- Where a worker is. -/
inductive Worker (τ : Type) where
  /-- Created, with `threadInitCB` before it. -/
  | starting
  /-- At `while(running_)`. -/
  | test
  /-- At the beginning of `take`. -/
  | take
  /-- In `notEmpty_.wait()`. -/
  | waiting
  /-- Running what `take` returned. -/
  | task (task : Option τ)
  | exited
deriving DecidableEq, Repr

/-- Where a producer is in `run`. -/
inductive Producer (τ : Type) where
  | idle
  /-- Before the mutex is taken. -/
  | entering (task : τ)
  /-- In `notFull_.wait()`. -/
  | waiting (task : τ)
deriving DecidableEq, Repr

/-- Where the thread is that starts and stops the pool. -/
inductive Owner where
  | created
  /-- In the loop of `start`, with so many threads still to create. -/
  | starting (remaining : Nat)
  | started
  /-- In the loop of `stop` that joins the threads. -/
  | joining
  | stopped
deriving DecidableEq, Repr

inductive Event (τ : Type) where
  | pushed (task : τ)
  | taken (task : τ)
  | ran (task : τ)
deriving DecidableEq, Repr

inductive Action (ι τ : Type) where
  | start (numThreads : Nat)
  /-- One turn of the loop of `start`. -/
  | create
  | threadInitCB (w : Nat)
  | test (w : Nat)
  | take (w : Nat) (choice : Option ι)
  | wakeWorker (w : Nat)
  | resumeWorker (w : Nat) (choice : Option ι)
  | task (w : Nat)
  /-- `run` is called and looks at `threads_`. -/
  | run (p : ι) (task : τ)
  | enter (p : ι) (choice : Option Nat)
  | wakeProducer (p : ι)
  | resumeProducer (p : ι) (choice : Option Nat)
  | stop
  | join

end ThreadPool

structure ThreadPool (ι τ : Type) where
  notEmpty_ : CondVar Nat
  notFull_ : CondVar ι
  threads_ : List (ThreadPool.Worker τ)
  queue_ : List τ
  maxQueueSz_ : Nat
  running_ : Bool
  producer : ι → ThreadPool.Producer τ
  owner : ThreadPool.Owner

namespace ThreadPool

/-- A new pool, with the size that `setMaxQueueSz` gives it. -/
def create (ι τ : Type) (maxQueueSz : Nat) : ThreadPool ι τ :=
  ⟨.empty, .empty, [], [], maxQueueSz, false, fun _ => .idle, .created⟩

variable {ι τ : Type} (s : ThreadPool ι τ)

def isFull : Bool := s.maxQueueSz_ > 0 && s.queue_.length ≥ s.maxQueueSz_

variable [DecidableEq ι]

/-- The critical section of `take` from the test of its loop on. -/
def takeLocked (w : Nat) (choice : Option ι) : ThreadPool ι τ × List (Event τ) :=
  if s.queue_.isEmpty && s.running_ then
    ({s with notEmpty_ := s.notEmpty_.wait w, threads_ := s.threads_.set w .waiting}, [])
  else
    match s.queue_ with
    | task :: queue =>
      let notFull := if s.maxQueueSz_ > 0 then s.notFull_.notify choice else s.notFull_
      ({s with queue_ := queue, notFull_ := notFull, threads_ := s.threads_.set w (.task (some task))}, [.taken task])
    | [] => ({s with threads_ := s.threads_.set w (.task none)}, [])

/-- The critical section of `run` from the test of its loop on. -/
def runLocked (p : ι) (task : τ) (choice : Option Nat) : Option (ThreadPool ι τ × List (Event τ)) :=
  if s.isFull && s.running_ then
    some ({s with notFull_ := s.notFull_.wait p, producer := Function.update s.producer p (.waiting task)}, [])
  else if !s.running_ then some ({s with producer := Function.update s.producer p .idle}, [])
  else do
    assert (s.isFull = false)
    let s := {s with queue_ := s.queue_ ++ [task], notEmpty_ := s.notEmpty_.notify choice}
    some ({s with producer := Function.update s.producer p .idle}, [.pushed task])

def step : Action ι τ → Option (ThreadPool ι τ × List (Event τ))
  | .start numThreads => do
    assert (s.threads_.isEmpty = true)
    some ({s with running_ := true, owner := .starting numThreads}, [])
  | .create =>
    match s.owner with
    | .starting 0 => some ({s with owner := .started}, [])
    | .starting (n + 1) => some ({s with threads_ := s.threads_ ++ [.starting], owner := .starting n}, [])
    | _ => none
  | .threadInitCB w => some ({s with threads_ := s.threads_.set w .test}, [])
  | .test w => some ({s with threads_ := s.threads_.set w (if s.running_ then .take else .exited)}, [])
  | .take w choice => some (s.takeLocked w choice)
  | .wakeWorker w => some ({s with notEmpty_ := s.notEmpty_.wake w}, [])
  | .resumeWorker w choice => some ({s with notEmpty_ := s.notEmpty_.resume w}.takeLocked w choice)
  | .task w => do
    let worker ← s.threads_[w]?
    let s := {s with threads_ := s.threads_.set w .test}
    match worker with
    | .task (some task) => some (s, [.ran task])
    | .task none => some (s, [])
    | _ => none
  | .run p task =>
    if s.threads_.isEmpty then some (s, [.ran task])
    else some ({s with producer := Function.update s.producer p (.entering task)}, [])
  | .enter p choice =>
    match s.producer p with
    | .entering task => s.runLocked p task choice
    | _ => none
  | .wakeProducer p => some ({s with notFull_ := s.notFull_.wake p}, [])
  | .resumeProducer p choice =>
    match s.producer p with
    | .waiting task => {s with notFull_ := s.notFull_.resume p}.runLocked p task choice
    | _ => none
  | .stop =>
    some ({s with
      running_ := false
      notEmpty_ := s.notEmpty_.notifyAll
      notFull_ := s.notFull_.notifyAll
      owner := .joining}, [])
  | .join => some ({s with owner := .stopped}, [])

def Worker.busy : Worker τ → Bool
  | .task _ => true
  | _ => false

def Producer.enters : Producer τ → Bool
  | .entering _ => true
  | _ => false

def Producer.idles : Producer τ → Bool
  | .idle => true
  | _ => false

def Owner.starts : Owner → Bool
  | .starting _ => true
  | _ => false

/-- What may happen next. A notification reaches one that waits, if there is one. -/
def Enabled : Action ι τ → Prop
  | .start _ => s.owner = .created
  | .create => s.owner.starts = true
  | .threadInitCB w => s.threads_[w]? = some .starting
  | .test w => s.threads_[w]? = some .test
  | .take w choice => s.threads_[w]? = some .take ∧ s.notFull_.Chooses choice
  | .wakeWorker w => w ∈ s.notEmpty_.waiting
  | .resumeWorker w choice => (w ∈ s.notEmpty_.notified ∨ w ∈ s.notEmpty_.woken) ∧ s.notFull_.Chooses choice
  | .task w => ∃ worker ∈ s.threads_[w]?, worker.busy = true
  | .run p _ => (s.producer p).idles = true
  | .enter p choice => (s.producer p).enters = true ∧ s.notEmpty_.Chooses choice
  | .wakeProducer p => p ∈ s.notFull_.waiting
  | .resumeProducer p choice => (p ∈ s.notFull_.notified ∨ p ∈ s.notFull_.woken) ∧ s.notEmpty_.Chooses choice
  | .stop => s.owner = .started
  | .join => s.owner = .joining ∧ ∀ worker ∈ s.threads_, worker = .exited

instance [DecidableEq τ] (a : Action ι τ) : Decidable (s.Enabled a) :=
  match a with
  | .start _ => inferInstanceAs (Decidable (s.owner = .created))
  | .create => inferInstanceAs (Decidable (s.owner.starts = true))
  | .threadInitCB w => inferInstanceAs (Decidable (s.threads_[w]? = some .starting))
  | .test w => inferInstanceAs (Decidable (s.threads_[w]? = some .test))
  | .take w choice => inferInstanceAs (Decidable (s.threads_[w]? = some .take ∧ s.notFull_.Chooses choice))
  | .wakeWorker w => inferInstanceAs (Decidable (w ∈ s.notEmpty_.waiting))
  | .resumeWorker w choice =>
    inferInstanceAs (Decidable ((w ∈ s.notEmpty_.notified ∨ w ∈ s.notEmpty_.woken) ∧ s.notFull_.Chooses choice))
  | .task w => inferInstanceAs (Decidable (∃ worker ∈ s.threads_[w]?, worker.busy = true))
  | .run p _ => inferInstanceAs (Decidable ((s.producer p).idles = true))
  | .enter p choice => inferInstanceAs (Decidable ((s.producer p).enters = true ∧ s.notEmpty_.Chooses choice))
  | .wakeProducer p => inferInstanceAs (Decidable (p ∈ s.notFull_.waiting))
  | .resumeProducer p choice =>
    inferInstanceAs (Decidable ((p ∈ s.notFull_.notified ∨ p ∈ s.notFull_.woken) ∧ s.notEmpty_.Chooses choice))
  | .stop => inferInstanceAs (Decidable (s.owner = .started))
  | .join => inferInstanceAs (Decidable (s.owner = .joining ∧ ∀ worker ∈ s.threads_, worker = .exited))

def machine (ι τ : Type) [DecidableEq ι] : Machine (ThreadPool ι τ) (Action ι τ) (Event τ) where
  enabled := fun s a => s.Enabled a
  step := fun s a => s.step a

instance [DecidableEq τ] (s : ThreadPool ι τ) (a : Action ι τ) : Decidable ((machine ι τ).enabled s a) :=
  inferInstanceAs (Decidable (s.Enabled a))

/-- The tasks as they were queued, and as they were taken. -/
def pushed (obs : List (Event τ)) : List τ :=
  obs.filterMap fun
    | .pushed task => some task
    | _ => none

def taken (obs : List (Event τ)) : List τ :=
  obs.filterMap fun
    | .taken task => some task
    | _ => none

end ThreadPool
end Chtho.Threads
