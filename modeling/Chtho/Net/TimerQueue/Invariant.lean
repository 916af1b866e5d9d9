import Chtho.Lib.Heap
import Chtho.Net.TimerQueue

/-! What holds between the timers of a queue and its sets.

Every timer that is not deleted has one owner: the functor that will add it, the two
sets, or the batch that `handleRead` is at (`Owns`). The two sets hold the same timers,
each under the time its timer has (`Agree`). -/
namespace Chtho.Net.TimerQueue
open Lib

@[simp] theorem entry_time (time : Int) (a : Addr) : (entry time a).time = time := rfl
@[simp] theorem entry_timer (time : Int) (a : Addr) : (entry time a).timer = a := rfl
@[simp] theorem activeTimer_timer (a : Addr) (n : Nat) : (activeTimer a n).timer = a := rfl
@[simp] theorem activeTimer_seq (a : Addr) (n : Nat) : (activeTimer a n).seq = n := rfl
theorem entry_eta (x : Entry) : entry x.time x.timer = x := rfl

variable {heap heap' : Addr → Option Timer} {numCreated : Nat} {xs ys : List Addr} {a : Addr} {t u : Timer}

/-! ### Owners -/

/-- The timers that are not deleted are those owned, each by one owner. -/
structure Owns (heap : Addr → Option Timer) (numCreated : Nat) (xs : List Addr) : Prop where
  live : ∀ a, (∃ t, heap a = some t) ↔ a ∈ xs
  nodup : xs.Nodup
  seq_le : ∀ a t, heap a = some t → t.seq ≤ numCreated
  seq_inj : ∀ a b t u, heap a = some t → heap b = some u → t.seq = u.seq → a = b
  bounded : ∀ a t, heap a = some t → a < UINTPTR_MAX

theorem Owns.perm (h : Owns heap numCreated xs) (hperm : xs.Perm ys) : Owns heap numCreated ys :=
  ⟨fun a => (h.live a).trans hperm.mem_iff, hperm.nodup_iff.mp h.nodup, h.seq_le, h.seq_inj, h.bounded⟩

/-- A number is used up. -/
theorem Owns.skip (h : Owns heap numCreated xs) : Owns heap (numCreated + 1) xs :=
  ⟨h.live, h.nodup, fun a t ht => (h.seq_le a t ht).trans (Nat.le_succ _), h.seq_inj, h.bounded⟩

theorem Owns.deref (h : Owns heap numCreated xs) (ha : a ∈ xs) : ∃ t, heap a = some t := (h.live a).mpr ha

theorem Owns.alloc (h : Owns heap numCreated xs) (hnone : heap a = none) (hbound : a < UINTPTR_MAX) {t : Timer}
    (hseq : t.seq = numCreated + 1) : Owns (Function.update heap a (some t)) (numCreated + 1) (a :: xs) := by
  constructor
  case live =>
    intro b
    rw [List.mem_cons, ← h.live, Function.update_apply]
    split
    case isTrue hba => simp [hba]
    case isFalse hba => simp [hba]
  case nodup =>
    refine List.nodup_cons.mpr ⟨fun hmem => ?_, h.nodup⟩
    obtain ⟨u, hu⟩ := (h.live a).mpr hmem
    rw [hnone] at hu
    cases hu
  case seq_le =>
    intro b u hb
    rcases Heap.update_some hb with ⟨-, rfl⟩ | ⟨-, hb⟩
    · rw [hseq]
    · exact (h.seq_le b u hb).trans (Nat.le_succ _)
  case seq_inj =>
    intro b c u v hb hc heq
    rcases Heap.update_some hb with ⟨rfl, rfl⟩ | ⟨-, hb'⟩
    · rcases Heap.update_some hc with ⟨rfl, -⟩ | ⟨-, hc'⟩
      · rfl
      · have := h.seq_le c v hc'
        omega
    · rcases Heap.update_some hc with ⟨-, rfl⟩ | ⟨-, hc'⟩
      · have := h.seq_le b u hb'
        omega
      · exact h.seq_inj b c u v hb' hc' heq
  case bounded =>
    intro b u hb
    rcases Heap.update_some hb with ⟨rfl, -⟩ | ⟨-, hb⟩
    · exact hbound
    · exact h.bounded b u hb

theorem Owns.free (h : Owns heap numCreated (a :: xs)) : Owns (Function.update heap a none) numCreated xs := by
  obtain ⟨hnot, hnodup⟩ := List.nodup_cons.mp h.nodup
  constructor
  case live =>
    intro b
    rw [Function.update_apply]
    split
    case isTrue hba => simp [hba, hnot]
    case isFalse hba => simpa [hba] using h.live b
  case nodup => exact hnodup
  case seq_le => exact fun b u hb => h.seq_le b u (Heap.update_none hb).2
  case seq_inj => exact fun b c u v hb hc => h.seq_inj b c u v (Heap.update_none hb).2 (Heap.update_none hc).2
  case bounded => exact fun b u hb => h.bounded b u (Heap.update_none hb).2

/-- A timer changes, but for its sequence number. -/
theorem Owns.restart (h : Owns heap numCreated xs) (ht : heap a = some t) (hseq : u.seq = t.seq) :
    Owns (Function.update heap a (some u)) numCreated xs := by
  have hget : ∀ b v, Function.update heap a (some u) b = some v → ∃ w, heap b = some w ∧ v.seq = w.seq := by
    intro b v hb
    rcases Heap.update_some hb with ⟨rfl, rfl⟩ | ⟨-, hb⟩
    · exact ⟨t, ht, hseq⟩
    · exact ⟨v, hb, rfl⟩
  constructor
  case live =>
    intro b
    rw [← h.live, Function.update_apply]
    split
    case isTrue hba => simp [hba, ht]
    case isFalse => rfl
  case nodup => exact h.nodup
  case seq_le =>
    intro b v hb
    obtain ⟨w, hw, heq⟩ := hget b v hb
    exact heq ▸ h.seq_le b w hw
  case seq_inj =>
    intro b c v w hb hc heq
    obtain ⟨v', hv, hv'⟩ := hget b v hb
    obtain ⟨w', hw, hw'⟩ := hget c w hc
    exact h.seq_inj b c v' w' hv hw (by rw [← hv', heq, hw'])
  case bounded =>
    intro b v hb
    obtain ⟨w, hw, -⟩ := hget b v hb
    exact h.bounded b w hw

/-! ### The two sets -/

/-- The sets hold the same timers, under the times and with the sequence numbers they have. -/
structure Agree (heap : Addr → Option Timer) (timers : OrdSet Entry) (active : OrdSet ActiveTimer) : Prop where
  time : ∀ x ∈ timers.elems, ∃ t, heap x.timer = some t ∧ t.expir = x.time
  seq : ∀ x ∈ active.elems, ∃ t, heap x.timer = some t ∧ t.seq = x.seq
  same : (active.elems.map ActiveTimer.timer).Perm (timers.elems.map Entry.timer)

variable {timers : OrdSet Entry} {active : OrdSet ActiveTimer}

theorem Agree.size_eq (h : Agree heap timers active) : timers.size = active.size := by
  have hlength := h.same.length_eq
  rw [List.length_map, List.length_map] at hlength
  exact hlength.symm

theorem Agree.mem_active (h : Agree heap timers active) {x : Entry} (hx : x ∈ timers.elems)
    (ht : heap x.timer = some t) : activeTimer x.timer t.seq ∈ active.elems := by
  obtain ⟨y, hy, hyx⟩ := List.mem_map.mp (h.same.mem_iff.mpr (List.mem_map_of_mem hx))
  obtain ⟨u, hu, hseq⟩ := h.seq y hy
  rw [hyx, ht] at hu
  rw [Option.some.inj hu, hseq, ← hyx]
  exact hy

theorem Agree.mem_timers (h : Agree heap timers active) {x : ActiveTimer} (hx : x ∈ active.elems)
    (ht : heap x.timer = some t) : entry t.expir x.timer ∈ timers.elems := by
  obtain ⟨y, hy, hyx⟩ := List.mem_map.mp (h.same.mem_iff.mp (List.mem_map_of_mem hx))
  obtain ⟨u, hu, htime⟩ := h.time y hy
  rw [hyx, ht] at hu
  rw [Option.some.inj hu, htime, ← hyx]
  exact hy

/-- The timers elsewhere do not matter. -/
theorem Agree.congr (h : Agree heap timers active) (hheap : ∀ x ∈ timers.elems, heap' x.timer = heap x.timer) :
    Agree heap' timers active where
  time := fun x hx => by
    rw [hheap x hx]
    exact h.time x hx
  seq := fun x hx => by
    obtain ⟨y, hy, hyx⟩ := List.mem_map.mp (h.same.mem_iff.mp (List.mem_map_of_mem hx))
    rw [← hyx, hheap y hy, hyx]
    exact h.seq x hx
  same := h.same

theorem Agree.insert (h : Agree heap timers active) (ht : heap a = some t) (hnot : a ∉ timers.elems.map Entry.timer) :
    Agree heap (timers.insert (entry t.expir a)) (active.insert (activeTimer a t.seq)) := by
  have htimers : entry t.expir a ∉ timers.elems := fun hmem => hnot (List.mem_map_of_mem hmem)
  have hactive : activeTimer a t.seq ∉ active.elems :=
    fun hmem => hnot (h.same.mem_iff.mp (List.mem_map_of_mem hmem))
  constructor
  case time =>
    intro x hx
    rcases timers.mem_insert.mp hx with rfl | hx
    · exact ⟨t, ht, rfl⟩
    · exact h.time x hx
  case seq =>
    intro x hx
    rcases active.mem_insert.mp hx with rfl | hx
    · exact ⟨t, ht, rfl⟩
    · exact h.seq x hx
  case same =>
    refine ((active.insert_perm hactive).map _).trans (.trans ?_ ((timers.insert_perm htimers).map _).symm)
    rw [List.map_cons, List.map_cons]
    exact h.same.cons a

theorem Agree.erase (h : Agree heap timers active) (ht : heap a = some t) (hmem : activeTimer a t.seq ∈ active.elems) :
    Agree heap (timers.erase (entry t.expir a)) (active.erase (activeTimer a t.seq)) := by
  have htimers : entry t.expir a ∈ timers.elems := h.mem_timers hmem ht
  constructor
  case time => exact fun x hx => h.time x ((timers.mem_erase).mp hx).2
  case seq => exact fun x hx => h.seq x ((active.mem_erase).mp hx).2
  case same =>
    have hperm := ((active.erase_perm hmem).map ActiveTimer.timer).symm.trans
      (h.same.trans ((timers.erase_perm htimers).map Entry.timer))
    rw [List.map_cons, List.map_cons] at hperm
    exact hperm.cons_inv

/-! ### The invariant -/

variable (s : TimerQueue)

def pending : List Addr := s.timers.elems.map Entry.timer

/-- The timers of the batch. -/
def Phase.held : Phase → List Entry
  | .outside => []
  | .calling _ done todo => done ++ todo
  | .resetting _ rest => rest

def owned : List Addr := s.created ++ (s.pending ++ s.phase.held.map Entry.timer)

structure Inv : Prop where
  owns : Owns s.heap s.numCreated s.owned
  agree : Agree s.heap s.timers s.activeTimers
  calling : ∀ now done todo, s.phase = .calling now done todo → s.callingExpiredTimers = true

theorem inv_create (calling : Bool) (numCreated : Nat) (clock : Int) : Inv (create calling numCreated clock) where
  owns := ⟨by simp [create, owned, pending, OrdSet.empty, Phase.held], by
    simp [create, owned, pending, OrdSet.empty, Phase.held], by simp [create], by simp [create], by simp [create]⟩
  agree := ⟨by simp [create, OrdSet.empty], by simp [create, OrdSet.empty], by simp [create, OrdSet.empty]⟩
  calling := fun _ _ _ h => by cases h

/-! ### What a step does -/

/-- The timer would be the first. -/
def earliest (exp : Int) : Bool :=
  match s.timers.first with
  | none => true
  | some x => decide (exp < x.time)

/-- A timer enters both sets. -/
def inserted (a : Addr) (t : Timer) : TimerQueue :=
  {s with
    timers := s.timers.insert (entry t.expir a)
    activeTimers := s.activeTimers.insert (activeTimer a t.seq)}

/-- A timer leaves both sets and is deleted. -/
def removed (a : Addr) (t : Timer) : TimerQueue :=
  {s with
    heap := Function.update s.heap a none
    timers := s.timers.erase (entry t.expir a)
    activeTimers := s.activeTimers.erase (activeTimer a t.seq)}

/-- The timerfd is set. -/
def armed (now exp : Int) : TimerQueue := (s.resetTimerfd now exp).1

/-- The timers expired at `now` are taken out, `active` being the others. -/
def expire (now : Int) (active : OrdSet ActiveTimer) : TimerQueue :=
  {s with
    clock := now
    timerfd := readTimerfd s.timerfd now
    timers := s.timers.dropBefore (entry now UINTPTR_MAX)
    activeTimers := active
    callingExpiredTimers := true
    cancelTimers := .empty
    phase := .calling now [] (s.timers.before (entry now UINTPTR_MAX))}

inductive Moved (s : TimerQueue) : Action → TimerQueue → List Event → Prop where
  | create (a : Addr) (expir : Int) (interval : Option Nat) : s.heap a = none → a < UINTPTR_MAX →
      Moved s (.create a expir interval) {s with
        heap := Function.update s.heap a (some ⟨expir, interval, s.numCreated + 1⟩)
        numCreated := s.numCreated + 1
        created := s.created ++ [a]} []
  | createElsewhere : Moved s .createElsewhere {s with numCreated := s.numCreated + 1} []
  | added (a : Addr) (t : Timer) (now : Int) : s.phase.inUse → a ∈ s.created → s.heap a = some t →
      s.earliest t.expir = false →
      Moved s (.addTimerInLoop a now) (inserted {s with created := s.created.erase a} a t) [.added a t.seq]
  | addedFirst (a : Addr) (t : Timer) (now : Int) : s.phase.inUse → a ∈ s.created → s.heap a = some t →
      s.earliest t.expir = true → s.clock ≤ now →
      Moved s (.addTimerInLoop a now) ((inserted {s with created := s.created.erase a} a t).armed now t.expir)
        [.added a t.seq, .settime (Timestamp.sub t.expir now)]
  | cancelled (a : Addr) (t : Timer) : s.phase.inUse → activeTimer a t.seq ∈ s.activeTimers.elems →
      s.heap a = some t → Moved s (.rmTimerInLoop ⟨a, t.seq⟩) (s.removed a t) [.deleted t.seq]
  | deferred (id : TimerID) : s.phase.inUse → activeTimer id.timer id.seq ∉ s.activeTimers.elems →
      s.callingExpiredTimers = true →
      Moved s (.rmTimerInLoop id) {s with cancelTimers := s.cancelTimers.insert (activeTimer id.timer id.seq)} []
  | missed (id : TimerID) : s.phase.inUse → activeTimer id.timer id.seq ∉ s.activeTimers.elems →
      s.callingExpiredTimers = false → Moved s (.rmTimerInLoop id) s []
  | handleRead (now : Int) (active : OrdSet ActiveTimer) : s.phase = .outside → s.clock ≤ now →
      Agree s.heap (s.timers.dropBefore (entry now UINTPTR_MAX)) active →
      Moved s (.handleRead now) (s.expire now active) []
  | run (now : Int) (done todo : List Entry) (x : Entry) (t : Timer) : s.phase = .calling now done (x :: todo) →
      s.heap x.timer = some t → Moved s .run {s with phase := .calling now (done ++ [x]) todo} [.run t.seq]
  | reset (now : Int) (done : List Entry) : s.phase = .calling now done [] →
      Moved s .reset {s with callingExpiredTimers := false, phase := .resetting now done} [.batchDone]
  | restarted (now : Int) (x : Entry) (rest : List Entry) (t : Timer) (us : Nat) :
      s.phase = .resetting now (x :: rest) → s.heap x.timer = some t → t.interval = some us →
      activeTimer x.timer t.seq ∉ s.cancelTimers.elems →
      Moved s .resetTimer (inserted {s with
        phase := .resetting now rest
        heap := Function.update s.heap x.timer (some {t with expir := now + us})} x.timer {t with expir := now + us}) []
  | dropped (now : Int) (x : Entry) (rest : List Entry) (t : Timer) :
      s.phase = .resetting now (x :: rest) → s.heap x.timer = some t →
      t.interval = none ∨ activeTimer x.timer t.seq ∈ s.cancelTimers.elems →
      Moved s .resetTimer
        {s with phase := .resetting now rest, heap := Function.update s.heap x.timer none} [.deleted t.seq]
  | finished (start now : Int) : s.phase = .resetting start [] → (∀ x, s.timers.first = some x → x.time ≤ 0) →
      Moved s (.finish now) {s with phase := .outside} []
  | finishedArmed (start now : Int) (x : Entry) : s.phase = .resetting start [] → s.timers.first = some x →
      0 < x.time → s.clock ≤ now →
      Moved s (.finish now) (armed {s with phase := .outside} now x.time) [.settime (Timestamp.sub x.time now)]

variable {s}

theorem insert_eq (ht : s.heap a = some t) : s.insert a = some (s.inserted a t, s.earliest t.expir) := by
  simp only [insert, deref, ht]
  rfl

/-- `getExpired` finds each expired timer among the active ones. -/
theorem Agree.expire {rest : OrdSet Entry} {expired : List Entry} (h : Agree s.heap timers active)
    (hsplit : timers.elems = expired ++ rest.elems) :
    ∃ active', s.eraseActive expired active = some active' ∧ Agree s.heap rest active' := by
  induction expired generalizing timers active with
  | nil =>
    obtain rfl : timers = rest := OrdSet.ext hsplit
    exact ⟨active, rfl, h⟩
  | cons x expired ih =>
    have hx : x ∈ timers.elems := by simp [hsplit]
    obtain ⟨t, ht, htime⟩ := h.time x hx
    have hmem := h.mem_active hx ht
    have hentry : entry t.expir x.timer = x := by rw [htime, entry_eta]
    have herased := h.erase ht hmem
    rw [hentry] at herased
    obtain ⟨active', heq, hagree⟩ := ih herased (by simp [OrdSet.erase, hsplit])
    refine ⟨active', ?_, hagree⟩
    rw [← heq]
    simp [eraseActive, deref, ht, hmem]

end Chtho.Net.TimerQueue
