import Chtho.Lib.Conversion
import Chtho.Lib.Rotation
import Chtho.Net.TcpServer

/-! `EventLoopThreadPool`: which loop is chosen.

`start` makes as many loops as there are to be threads at that time. `getNextLoop` goes round by
the size of the vector that holds them, `getLoopForHash` takes the hash modulo the number of
threads, and that number can be set again: `TcpServer::setThreadNum` checks only that it is not
negative. All calls are made in the thread of the base loop. -/
namespace Chtho.Net
open Lib

namespace EventLoopThreadPool

/-- `base_`, or the loop of a thread. -/
inductive Loop where
  | base
  | thread (i : Nat)
deriving DecidableEq, Repr

inductive Action where
  | setNumThread (num : Int)
  | start
  | getNextLoop
  | getLoopForHash (hashCode : Nat)

/-- What the calls return. -/
inductive Event where
  | next (l : Loop)
  | forHash (hashCode : Nat) (l : Loop)
deriving DecidableEq, Repr

def Event.loop : Event → Loop
  | .next l | .forHash _ l => l

end EventLoopThreadPool

open EventLoopThreadPool

structure EventLoopThreadPool where
  started_ : Bool
  numThreads_ : Int
  nxt_ : Nat
  loops_ : List EventLoopThreadPool.Loop
deriving DecidableEq, Repr

namespace EventLoopThreadPool

def create : EventLoopThreadPool := ⟨false, 0, 0, []⟩

variable (s : EventLoopThreadPool)

/-- `TcpServer::setThreadNum`, which calls `setNumThread`. -/
def setThreadNum (numThreads : Int) : Option EventLoopThreadPool := do
  assert (0 ≤ numThreads)
  some {s with numThreads_ := numThreads}

/-- The loop is counted up while it is less than `numThreads_`. -/
def start : Option EventLoopThreadPool := do
  assert (¬ s.started_)
  some {s with
    started_ := true
    loops_ := s.loops_ ++ (List.range s.numThreads_.toNat).map Loop.thread}

def getNextLoop : Option (Loop × EventLoopThreadPool) := do
  assert s.started_
  if s.loops_ ≠ [] then
    let loop ← s.loops_[s.nxt_]?
    let nxt := s.nxt_ + 1
    some (loop, {s with nxt_ := if nxt ≥ s.loops_.length then 0 else nxt})
  else some (.base, s)

/-- The remainder is taken of numbers of type `size_t`; by zero there is none. -/
def getLoopForHash (hashCode : Nat) : Option Loop :=
  if s.loops_ ≠ [] then do
    assert (toSize s.numThreads_ ≠ 0)
    s.loops_[hashCode % toSize s.numThreads_]?
  else some .base

def step : Action → Option (EventLoopThreadPool × List Event)
  | .setNumThread num => do
    let s ← s.setThreadNum num
    some (s, [])
  | .start => do
    let s ← s.start
    some (s, [])
  | .getNextLoop => do
    let (l, s) ← s.getNextLoop
    some (s, [.next l])
  | .getLoopForHash hashCode => do
    let l ← s.getLoopForHash hashCode
    some (s, [.forHash hashCode l])

/-- The number of threads is set to anything that is an `int` and not negative, `start` is called
once, and loops are asked for after it. -/
def Enabled : Action → Prop
  | .setNumThread num => 0 ≤ num ∧ num < 2 ^ 31
  | .start => ¬ s.started_
  | .getNextLoop => s.started_
  | .getLoopForHash hashCode => s.started_ ∧ hashCode < 2 ^ 64

instance : ∀ a, Decidable (s.Enabled a)
  | .setNumThread num => inferInstanceAs (Decidable (0 ≤ num ∧ num < 2 ^ 31))
  | .start => inferInstanceAs (Decidable (¬ s.started_))
  | .getNextLoop => inferInstanceAs (Decidable (s.started_ = true))
  | .getLoopForHash hashCode => inferInstanceAs (Decidable (s.started_ ∧ hashCode < 2 ^ 64))

def machine : Machine EventLoopThreadPool Action Event := ⟨Enabled, step⟩

instance (s : EventLoopThreadPool) (a : Action) : Decidable (machine.enabled s a) :=
  inferInstanceAs (Decidable (s.Enabled a))

/-- `getLoopForHash` finds one and the same number of threads whenever it is called, and that many
loops, unless `start` made none. -/
def HashedBy (m : Int) (s : EventLoopThreadPool) : Action → Prop
  | .getLoopForHash _ => s.loops_ = [] ∨ s.numThreads_ = m ∧ 1 ≤ m ∧ m ≤ s.loops_.length
  | _ => True

instance (m : Int) (s : EventLoopThreadPool) : ∀ a, Decidable (HashedBy m s a)
  | .getLoopForHash _ => inferInstanceAs (Decidable (s.loops_ = [] ∨ s.numThreads_ = m ∧ 1 ≤ m ∧ m ≤ s.loops_.length))
  | .setNumThread _ | .start | .getNextLoop => inferInstanceAs (Decidable True)

/-- What the loops returned so far have to be. -/
structure Selected (obs : List Event) (s : EventLoopThreadPool) : Prop where
  base : ∀ e ∈ obs, e.loop = .base ↔ s.loops_ = []
  hash : ∀ hashCode l l', .forHash hashCode l ∈ obs → .forHash hashCode l' ∈ obs → l = l'
  fair : ∀ l ∈ s.loops_, ∀ l' ∈ s.loops_, obs.count (.next l) ≤ obs.count (.next l') + 1

/-! ### What the calls do -/

variable {s s' : EventLoopThreadPool} {m : Int} {obs o : List Event}

/-- `loops_` holds the loops of the threads in order, and `nxt_` is a place in it. -/
structure Formed (s : EventLoopThreadPool) : Prop where
  threads : 0 ≤ s.numThreads_ ∧ s.numThreads_ < 2 ^ 31
  loops : s.loops_ = (List.range s.loops_.length).map .thread
  idle : s.started_ = false → s.loops_ = [] ∧ s.nxt_ = 0
  nxt : s.nxt_ = 0 ∨ s.nxt_ < s.loops_.length
  few : s.loops_.length < 2 ^ 31

theorem formed_create : Formed create := by
  constructor
  case threads => decide
  case loops => rfl
  case idle => exact fun _ => ⟨rfl, rfl⟩
  case nxt => exact .inl rfl
  case few => decide

namespace Formed

theorem getElem?_loops (h : Formed s) {i : Nat} (hi : i < s.loops_.length) : s.loops_[i]? = some (.thread i) := by
  rw [h.loops, List.getElem?_map, List.getElem?_range hi]
  rfl

theorem thread_mem (h : Formed s) {i : Nat} (hi : i < s.loops_.length) : .thread i ∈ s.loops_ :=
  List.mem_of_getElem? (h.getElem?_loops hi)

theorem base_notMem (h : Formed s) : .base ∉ s.loops_ := by
  rw [h.loops]
  simp

theorem toSize_numThreads (h : Formed s) : toSize s.numThreads_ = s.numThreads_.toNat :=
  toSize_eq h.threads.1 (Int.lt_trans h.threads.2 (by decide))

theorem setThreadNum (h : Formed s) {num : Int} (hnum : 0 ≤ num ∧ num < 2 ^ 31) :
    Formed {s with numThreads_ := num} :=
  ⟨hnum, h.loops, h.idle, h.nxt, h.few⟩

/-- A pool that has not been started has no loops, and makes one for each thread. -/
theorem start (h : Formed s) (hs : s.started_ = false) :
    s.start = some {s with
      started_ := true
      loops_ := (List.range s.numThreads_.toNat).map .thread} ∧
    Formed {s with
      started_ := true
      loops_ := (List.range s.numThreads_.toNat).map .thread} := by
  obtain ⟨hloops, hnxt⟩ := h.idle hs
  refine ⟨by simp [EventLoopThreadPool.start, hs, hloops], ?_⟩
  constructor
  case threads => exact h.threads
  case loops => simp
  case idle => rintro ⟨⟩
  case nxt => exact .inl hnxt
  case few =>
    have hthreads := h.threads
    rw [List.length_map, List.length_range]
    omega

/-- The loop that `getNextLoop` returns, and where it goes on. -/
theorem getNextLoop (h : Formed s) (hs : s.started_ = true) (hloops : s.loops_ ≠ []) :
    s.nxt_ < s.loops_.length ∧
      s.getNextLoop = some (.thread s.nxt_, {s with nxt_ := rotate s.loops_.length s.nxt_}) ∧
      Formed {s with nxt_ := rotate s.loops_.length s.nxt_} := by
  have hpos := List.length_pos_iff.mpr hloops
  have hlt : s.nxt_ < s.loops_.length := by
    rcases h.nxt with hnxt | hnxt
    · omega
    · exact hnxt
  refine ⟨hlt, ?_, h.threads, h.loops, by simp [hs], .inr (rotate_lt hpos _), h.few⟩
  simp only [EventLoopThreadPool.getNextLoop, hs, assert_bind, if_true, if_pos hloops, h.getElem?_loops hlt,
    Option.bind_eq_bind, Option.bind_some]
  rfl

/-- With as many loops, what a hash is worth depends on the number of threads alone. -/
theorem getLoopForHash (h : Formed s) (hloops : s.loops_ ≠ []) (hpos : 1 ≤ s.numThreads_)
    (hle : s.numThreads_ ≤ s.loops_.length) (hashCode : Nat) :
    hashCode % s.numThreads_.toNat < s.loops_.length ∧
      s.getLoopForHash hashCode = some (.thread (hashCode % s.numThreads_.toNat)) := by
  have hmod : hashCode % s.numThreads_.toNat < s.numThreads_.toNat := Nat.mod_lt _ (by omega)
  refine ⟨by omega, ?_⟩
  rw [EventLoopThreadPool.getLoopForHash, if_pos hloops, h.toSize_numThreads, assert_bind, if_pos (by omega)]
  exact h.getElem?_loops (by omega)

/-- Without loops it is the base loop that is chosen. -/
theorem step_of_nil (hs : s.started_ = true) (hloops : s.loops_ = []) (hashCode : Nat) :
    s.getNextLoop = some (.base, s) ∧ s.getLoopForHash hashCode = some .base := by
  simp [EventLoopThreadPool.getNextLoop, EventLoopThreadPool.getLoopForHash, hs, hloops]

end Formed

/-! ### What is chosen -/

/-- The loops returned so far: by turns, and by the hash modulo `m`. -/
structure Inv (m : Int) (obs : List Event) (s : EventLoopThreadPool) : Prop extends Formed s where
  unasked : s.started_ = false → obs = []
  turns : InTurn s.loops_.length s.nxt_ fun i => obs.count (.next (.thread i))
  members : ∀ e ∈ obs, if s.loops_ = [] then e.loop = .base else e.loop ∈ s.loops_
  hashed : ∀ hashCode l, .forHash hashCode l ∈ obs → s.loops_ ≠ [] → s.loops_[hashCode % m.toNat]? = some l

theorem inv_create (m : Int) : Inv m [] create := by
  refine ⟨formed_create, ?_, ?_, ?_, ?_⟩
  case refine_2 => exact inTurn_zero _ fun _ _ => rfl
  all_goals simp

theorem Inv.setThreadNum (h : Inv m obs s) {num : Int} (hnum : 0 ≤ num ∧ num < 2 ^ 31) :
    Inv m obs {s with numThreads_ := num} :=
  ⟨h.toFormed.setThreadNum hnum, h.unasked, h.turns, h.members, h.hashed⟩

theorem Inv.start (h : Inv m obs s) (hs : s.started_ = false) :
    ∃ s', s.start = some s' ∧ Inv m obs s' := by
  obtain ⟨hstart, hformed⟩ := h.toFormed.start hs
  obtain ⟨_, hnxt⟩ := h.idle hs
  obtain rfl := h.unasked hs
  refine ⟨_, hstart, hformed, fun _ => rfl, ?_, by simp, by simp⟩
  show InTurn _ s.nxt_ _
  rw [hnxt]
  exact inTurn_zero _ fun _ _ => rfl

theorem Inv.members_concat (h : Inv m obs s) {e : Event}
    (he : if s.loops_ = [] then e.loop = .base else e.loop ∈ s.loops_) :
    ∀ e' ∈ obs ++ [e], if s.loops_ = [] then e'.loop = .base else e'.loop ∈ s.loops_ := by
  rw [List.forall_mem_append, List.forall_mem_singleton]
  exact ⟨h.members, he⟩

/-- **A loop is chosen by turns.** -/
theorem Inv.getNextLoop (h : Inv m obs s) (hs : s.started_ = true) :
    ∃ l s', s.getNextLoop = some (l, s') ∧ Inv m (obs ++ [.next l]) s' := by
  have hhashed (l : Loop) (hashCode : Nat) (l' : Loop) (hmem : .forHash hashCode l' ∈ obs ++ [.next l]) :
      s.loops_ ≠ [] → s.loops_[hashCode % m.toNat]? = some l' := h.hashed hashCode l' (by simpa using hmem)
  by_cases hloops : s.loops_ = []
  · refine ⟨.base, s, (Formed.step_of_nil hs hloops 0).1, h.toFormed, by simp [hs], ?_, ?_, hhashed .base⟩
    · rw [hloops]
      exact ⟨0, fun i hi => absurd hi (Nat.not_lt_zero i)⟩
    · refine h.members_concat ?_
      rw [if_pos hloops]
      rfl
  · obtain ⟨hlt, hnext, hformed⟩ := h.toFormed.getNextLoop hs hloops
    refine ⟨_, _, hnext, hformed, by simp [hs], ?_, ?_, hhashed _⟩
    · have hcount (i : Nat) : (obs ++ [Event.next (.thread s.nxt_)]).count (.next (.thread i)) =
          obs.count (.next (.thread i)) + if i = s.nxt_ then 1 else 0 := by
        rw [List.count_append]
        congr 1
        by_cases hi : i = s.nxt_
        · rw [hi, if_pos rfl, List.count_singleton_self]
        · rw [if_neg hi, List.count_eq_zero]
          simpa using hi
      show InTurn _ _ fun i => (obs ++ [Event.next (.thread s.nxt_)]).count (.next (.thread i))
      simp only [hcount]
      exact h.turns.rotate
    · refine h.members_concat ?_
      rw [if_neg hloops]
      exact h.thread_mem hlt

/-- **A loop is chosen by a hash.** -/
theorem Inv.getLoopForHash (h : Inv m obs s) (hs : s.started_ = true) (hashCode : Nat)
    (hcond : s.loops_ = [] ∨ s.numThreads_ = m ∧ 1 ≤ m ∧ m ≤ s.loops_.length) :
    ∃ l, s.getLoopForHash hashCode = some l ∧ Inv m (obs ++ [.forHash hashCode l]) s := by
  have hturns (l : Loop) : (fun i => (obs ++ [Event.forHash hashCode l]).count (.next (.thread i))) =
      fun i => obs.count (.next (.thread i)) := by
    funext i
    have hnone : [Event.forHash hashCode l].count (.next (.thread i)) = 0 := List.count_eq_zero.mpr (by simp)
    rw [List.count_append, hnone]
    rfl
  by_cases hloops : s.loops_ = []
  · refine ⟨.base, (Formed.step_of_nil hs hloops hashCode).2, h.toFormed, by simp [hs], hturns .base ▸ h.turns, ?_,
      fun _ _ _ hne => absurd hloops hne⟩
    refine h.members_concat ?_
    rw [if_pos hloops]
    rfl
  · obtain ⟨hm, hpos, hle⟩ := hcond.resolve_left hloops
    obtain ⟨hlt, hget⟩ := h.toFormed.getLoopForHash hloops (hm ▸ hpos) (hm ▸ hle) hashCode
    refine ⟨_, hget, h.toFormed, by simp [hs], hturns _ ▸ h.turns, ?_, fun hashCode' l hmem hne => ?_⟩
    · refine h.members_concat ?_
      rw [if_neg hloops]
      exact h.thread_mem hlt
    · rw [List.mem_append, List.mem_singleton] at hmem
      rcases hmem with hmem | heq
      · exact h.hashed hashCode' l hmem hne
      · obtain ⟨rfl, rfl⟩ := Event.forHash.inj heq
        rw [← hm]
        exact h.getElem?_loops hlt

/-- **One call.** -/
theorem Inv.step (h : Inv m obs s) {a : Action} (he : (machine.restrict (HashedBy m)).enabled s a) :
    ∃ s' o, s.step a = some (s', o) ∧ Inv m (obs ++ o) s' := by
  obtain ⟨he, hcond⟩ := he
  cases a with
  | setNumThread num =>
    have hnum : 0 ≤ num ∧ num < 2 ^ 31 := he
    refine ⟨{s with numThreads_ := num}, [], ?_, ?_⟩
    · simp [EventLoopThreadPool.step, EventLoopThreadPool.setThreadNum, hnum.1]
    · rw [List.append_nil]
      exact h.setThreadNum hnum
  | start =>
    have hs : s.started_ = false := Bool.eq_false_of_not_eq_true he
    obtain ⟨s', hstart, hinv⟩ := h.start hs
    rw [← List.append_nil obs] at hinv
    exact ⟨s', [], by simp [EventLoopThreadPool.step, hstart], hinv⟩
  | getNextLoop =>
    obtain ⟨l, s', hnext, hinv⟩ := h.getNextLoop he
    exact ⟨s', [.next l], by simp [EventLoopThreadPool.step, hnext], hinv⟩
  | getLoopForHash hashCode =>
    obtain ⟨l, hget, hinv⟩ := h.getLoopForHash he.1 hashCode hcond
    exact ⟨s, [.forHash hashCode l], by simp [EventLoopThreadPool.step, hget], hinv⟩

theorem Inv.selected (h : Inv m obs s) : Selected obs s := by
  constructor
  case base =>
    intro e he
    have hmember := h.members e he
    constructor
    case mp =>
      intro hbase
      by_contra hloops
      rw [if_neg hloops, hbase] at hmember
      exact h.base_notMem hmember
    case mpr =>
      intro hloops
      rwa [if_pos hloops] at hmember
  case hash =>
    intro hashCode l l' hmem hmem'
    by_cases hloops : s.loops_ = []
    · have hbase := h.members _ hmem
      have hbase' := h.members _ hmem'
      rw [if_pos hloops] at hbase hbase'
      exact hbase.trans hbase'.symm
    · have hl := h.hashed hashCode l hmem hloops
      rw [h.hashed hashCode l' hmem' hloops] at hl
      exact (Option.some.inj hl).symm
  case fair =>
    intro l hl l' hl'
    rw [h.loops, List.mem_map] at hl hl'
    obtain ⟨i, hi, rfl⟩ := hl
    obtain ⟨j, hj, rfl⟩ := hl'
    exact h.turns.le_add_one (List.mem_range.mp hi) (List.mem_range.mp hj)

theorem inv_run {as : List Action} (hrun : (machine.restrict (HashedBy m)).Run create as obs s) : Inv m obs s := by
  refine hrun.invariant (Inv m) (inv_create m) fun obs s a s' o hinv he hs => ?_
  obtain ⟨_, _, hstep, hinv'⟩ := hinv.step he
  obtain ⟨rfl, rfl⟩ := Prod.mk.inj (Option.some.inj (hstep.symm.trans hs))
  exact hinv'

/-- **Loop selection.** If `getLoopForHash` finds the same number of threads whenever it is called, and
that many loops, no call goes wrong, and the loops returned are those they have to be. -/
theorem selected_run {as : List Action} (hrun : (machine.restrict (HashedBy m)).Run create as obs s) :
    Selected obs s ∧ ∀ a, (machine.restrict (HashedBy m)).enabled s a → (machine.step s a).isSome = true := by
  have hinv := inv_run hrun
  refine ⟨hinv.selected, fun a he => ?_⟩
  obtain ⟨_, _, hstep, _⟩ := hinv.step he
  exact Option.isSome_of_eq_some hstep

theorem three_threads_selected :
    ∃ obs s, (machine.restrict (HashedBy 3)).Run create
        [.setNumThread 3, .start, .getNextLoop, .getLoopForHash 7, .getNextLoop, .getNextLoop, .getNextLoop] obs s ∧
      obs.length = 5 ∧ Selected obs s ∧
      ∀ a, (machine.restrict (HashedBy 3)).enabled s a → (machine.step s a).isSome = true := by
  have hex : ∃ obs s, (machine.restrict (HashedBy 3)).Run create
        [.setNumThread 3, .start, .getNextLoop, .getLoopForHash 7, .getNextLoop, .getNextLoop, .getNextLoop] obs s ∧
      obs.length = 5 := Machine.Run.exists_of_trace (by decide +kernel)
  obtain ⟨obs, s, hrun, hlength⟩ := hex
  exact ⟨obs, s, hrun, hlength, selected_run hrun⟩

/-- After `start` the number of threads is set to 0, to more than there are loops, or to another
number between two calls: a division by zero, an index outside `loops_`, two loops for one hash. -/
theorem set_after_start_breaks :
    (∃ obs s, machine.Run create [.setNumThread 2, .start, .setNumThread 0] obs s ∧
      machine.enabled s (.getLoopForHash 5) ∧ machine.step s (.getLoopForHash 5) = none) ∧
    (∃ obs s, machine.Run create [.setNumThread 1, .start, .setNumThread 3] obs s ∧
      machine.enabled s (.getLoopForHash 2) ∧ machine.step s (.getLoopForHash 2) = none) ∧
    ∃ obs s, machine.Run create
        [.setNumThread 3, .start, .getLoopForHash 2, .setNumThread 2, .getLoopForHash 2] obs s ∧
      .forHash 2 (.thread 2) ∈ obs ∧ .forHash 2 (.thread 0) ∈ obs :=
  ⟨Machine.Run.exists_of_trace (by decide +kernel), Machine.Run.exists_of_trace (by decide +kernel),
    Machine.Run.exists_of_trace (by decide +kernel)⟩

/-! ### The number that `getLoopForHash` needs -/

theorem Formed.step (h : Formed s) {a : Action} (he : s.Enabled a) (hs : s.step a = some (s', o)) : Formed s' := by
  cases a with
  | setNumThread num =>
    have hnum : 0 ≤ num ∧ num < 2 ^ 31 := he
    simp only [EventLoopThreadPool.step, EventLoopThreadPool.setThreadNum, assert_bind, if_pos hnum.1,
      Option.bind_eq_bind, Option.bind_some] at hs
    obtain ⟨rfl, _⟩ := Prod.mk.inj (Option.some.inj hs)
    exact h.setThreadNum hnum
  | start =>
    obtain ⟨hstart, hformed⟩ := h.start (Bool.eq_false_of_not_eq_true he)
    simp only [EventLoopThreadPool.step, hstart, Option.bind_eq_bind, Option.bind_some] at hs
    obtain ⟨rfl, _⟩ := Prod.mk.inj (Option.some.inj hs)
    exact hformed
  | getNextLoop =>
    by_cases hloops : s.loops_ = []
    · simp only [EventLoopThreadPool.step, (step_of_nil he hloops 0).1, Option.bind_eq_bind, Option.bind_some] at hs
      obtain ⟨rfl, _⟩ := Prod.mk.inj (Option.some.inj hs)
      exact h
    · obtain ⟨_, hnext, hformed⟩ := h.getNextLoop he hloops
      simp only [EventLoopThreadPool.step, hnext, Option.bind_eq_bind, Option.bind_some] at hs
      obtain ⟨rfl, _⟩ := Prod.mk.inj (Option.some.inj hs)
      exact hformed
  | getLoopForHash hashCode =>
    obtain ⟨_, _, heq⟩ := Option.bind_eq_some_iff.mp hs
    obtain ⟨rfl, _⟩ := Prod.mk.inj (Option.some.inj heq)
    exact h

/-- However often the number is set, the pool keeps its form. -/
theorem formed_run {as : List Action} (hrun : machine.Run create as obs s) : Formed s :=
  hrun.invariant (fun _ => Formed) formed_create fun _ _ _ _ _ h he hs => h.step he hs

/-- There is a loop for every hash exactly if the number of threads is not 0, nor more than that of the
loops. -/
theorem Formed.isSome_getLoopForHash_iff (h : Formed s) (hloops : s.loops_ ≠ []) :
    (∀ hashCode < 2 ^ 64, (s.getLoopForHash hashCode).isSome = true) ↔
      1 ≤ s.numThreads_ ∧ s.numThreads_ ≤ s.loops_.length := by
  constructor
  case mp =>
    intro hsome
    have hget (hashCode : Nat) : s.getLoopForHash hashCode =
        if s.numThreads_.toNat ≠ 0 then s.loops_[hashCode % s.numThreads_.toNat]? else none := by
      rw [EventLoopThreadPool.getLoopForHash, if_pos hloops, h.toSize_numThreads, assert_bind]
    have hfew := h.few
    have hone := hsome s.loops_.length (by omega)
    rw [hget] at hone
    split at hone
    case isFalse => cases hone
    case isTrue hne =>
      refine ⟨by omega, ?_⟩
      -- more threads than loops: the hash that is the number of loops is too large
      by_contra hmore
      rw [Nat.mod_eq_of_lt (by omega), List.getElem?_eq_none (Nat.le_refl _)] at hone
      cases hone
  case mpr =>
    intro hrange hashCode _
    rw [(h.getLoopForHash hloops hrange.1 hrange.2 hashCode).2]
    rfl

/-- Two calls return the same loop for every hash exactly if they find the same number of threads. -/
theorem Formed.getLoopForHash_agree_iff (h : Formed s) (h' : Formed s') (hsame : s'.loops_ = s.loops_)
    (hloops : s.loops_ ≠ []) (hrange : 1 ≤ s.numThreads_ ∧ s.numThreads_ ≤ s.loops_.length) :
    (∀ hashCode < 2 ^ 64, ∃ l, s.getLoopForHash hashCode = some l ∧ s'.getLoopForHash hashCode = some l) ↔
      s'.numThreads_ = s.numThreads_ := by
  have hloops' : s'.loops_ ≠ [] := hsame ▸ hloops
  have hfew := h.few
  constructor
  case mp =>
    intro hagree
    have hrange' := (h'.isSome_getLoopForHash_iff hloops').mp fun hashCode hlt =>
      (hagree hashCode hlt).elim fun _ hl => Option.isSome_of_eq_some hl.2
    rw [hsame] at hrange'
    have hmod (hashCode : Nat) (hlt : hashCode < 2 ^ 64) :
        hashCode % s.numThreads_.toNat = hashCode % s'.numThreads_.toNat := by
      obtain ⟨l, hl, hl'⟩ := hagree hashCode hlt
      rw [(h.getLoopForHash hloops hrange.1 hrange.2 hashCode).2] at hl
      rw [(h'.getLoopForHash hloops' hrange'.1 (hsame ▸ hrange'.2) hashCode).2, ← hl] at hl'
      exact (Loop.thread.inj (Option.some.inj hl')).symm
    -- the smaller number is its own hash with the other, and no hash with itself
    have hself := hmod s.numThreads_.toNat (by omega)
    have hother := hmod s'.numThreads_.toNat (by omega)
    rw [Nat.mod_self] at hself hother
    rcases Int.lt_trichotomy s'.numThreads_ s.numThreads_ with hlt | heq | hlt
    · rw [Nat.mod_eq_of_lt (by omega)] at hother
      omega
    · exact heq
    · rw [Nat.mod_eq_of_lt (by omega)] at hself
      omega
  case mpr =>
    intro heq hashCode _
    refine ⟨_, (h.getLoopForHash hloops hrange.1 hrange.2 hashCode).2, ?_⟩
    rw [← heq] at hrange ⊢
    exact (h'.getLoopForHash hloops' hrange.1 (hsame ▸ hrange.2) hashCode).2

/-! ### The loops of a server -/

/-- The loops of a server are numbered, the base loop first. -/
def Loop.number : Loop → Nat
  | .base => 0
  | .thread i => i + 1

/-- A server whose threads have been started takes the loops that the pool returns. -/
theorem Formed.getNextLoop_number (h : Formed s) (hs : s.started_ = true) {cfg : TcpServer.Config}
    (hcfg : s.loops_.length = cfg.numThreads) :
    ∃ l s', s.getNextLoop = some (l, s') ∧ (l.number, s'.nxt_) = cfg.getNextLoop s.nxt_ := by
  by_cases hloops : s.loops_ = []
  · refine ⟨_, _, (step_of_nil hs hloops 0).1, ?_⟩
    rw [TcpServer.Config.getNextLoop, if_pos (by rw [← hcfg, hloops]; rfl)]
    rfl
  · have hne : cfg.numThreads ≠ 0 := by
      rw [← hcfg]
      exact Nat.ne_of_gt (List.length_pos_iff.mpr hloops)
    obtain ⟨_, hnext, _⟩ := h.getNextLoop hs hloops
    refine ⟨_, _, hnext, ?_⟩
    rw [TcpServer.Config.getNextLoop, if_neg hne, hcfg]
    rfl

end EventLoopThreadPool
end Chtho.Net
