import Chtho.Lib.History
import Chtho.Lib.Progress
import Chtho.Threads.MutexLock

/-! `CountDownLatch`, one statement at a time.

Any number of threads call `wait` and `countDown`. Each call takes the mutex, works on the
count and gives the mutex back, and `wait` goes round its loop as long as the count is
positive. The notification is sent once only, by the call that brings the count to zero, and
with the mutex still taken: a thread that has seen a positive count is in the condition
variable before the count can change. The count is an `int`, and no call
decrements it below the least of them. -/
namespace Chtho.Threads
open Lib

namespace CountDownLatch

/-- The call a thread is in. -/
inductive Call where
  | idle
  /-- In `wait`, up to the test of its loop. -/
  | wait
  /-- In `wait`, past the loop. -/
  | waited
  /-- In `countDown`, before `--count_`. -/
  | countDown
  /-- In `countDown`, before the test for zero. -/
  | decremented
  /-- In `countDown`, past the notification. -/
  | counted
deriving DecidableEq, Repr

inductive Event (τ : Type) where
  /-- The count is one less. -/
  | counted
  /-- `wait` returns. -/
  | waited (t : τ)
deriving DecidableEq, Repr

inductive Action (τ : Type) where
  | wait (t : τ)
  | countDown (t : τ)
  | acquire (t : τ)
  | assignHolder (t : τ)
  | block (t : τ)
  | wake (t : τ)
  | regain (t : τ)
  | test (t : τ)
  | decrement (t : τ)
  | notifyAll (t : τ)
  | release (t : τ)
deriving DecidableEq, Repr

/-- The action is a call, and not a step of one. -/
def Action.calls {τ : Type} : Action τ → Bool
  | .wait _ | .countDown _ => true
  | _ => false

def Action.thread {τ : Type} : Action τ → τ
  | .wait t | .countDown t | .acquire t | .assignHolder t | .block t | .wake t | .regain t | .test t | .decrement t
  | .notifyAll t | .release t => t

end CountDownLatch

structure CountDownLatch (τ : Type) where
  mutex_ : MutexLock τ
  count_ : Int
  call : τ → CountDownLatch.Call

namespace CountDownLatch
variable {τ : Type}

def create (τ : Type) (count : Int) : CountDownLatch τ := ⟨.create τ, count, fun _ => .idle⟩

variable [DecidableEq τ] (ids : MutexLock.Tids τ)

/-- A step of `mutex_` or `cond_`, and the place in the call that the thread is at then. -/
def onMutex (s : CountDownLatch τ) (a : MutexLock.Action τ) (t : τ) (c : Call) :
    Option (CountDownLatch τ × List (Event τ)) := do
  let (m, _) ← s.mutex_.step ids a
  some ({s with mutex_ := m, call := Function.update s.call t c}, [])

/-- `if(count_ == 0) cond_.notifyAll()`. -/
def notifyAtZero (s : CountDownLatch τ) (t : τ) : Option (CountDownLatch τ × List (Event τ)) :=
  if s.count_ = 0 then s.onMutex ids .notifyAll t .decremented else some (s, [])

def step (s : CountDownLatch τ) : Action τ → Option (CountDownLatch τ × List (Event τ))
  | .wait t => s.onMutex ids (.lock t) t .wait
  | .countDown t => s.onMutex ids (.lock t) t .countDown
  | .acquire t => s.onMutex ids (.acquire t) t (s.call t)
  | .assignHolder t => s.onMutex ids (.assignHolder t) t (s.call t)
  | .block t => s.onMutex ids (.block t) t (s.call t)
  | .wake t => s.onMutex ids (.wake t) t (s.call t)
  | .regain t => s.onMutex ids (.regain t) t (s.call t)
  | .test t => if s.count_ > 0 then s.onMutex ids (.wait t) t .wait else s.onMutex ids (.unlock t) t .waited
  | .decrement t =>
    some ({s with count_ := s.count_ - 1, call := Function.update s.call t .decremented}, [.counted])
  | .notifyAll t => do
    let (s, _) ← s.notifyAtZero ids t
    s.onMutex ids (.unlock t) t .counted
  | .release t => do
    let (s', _) ← s.onMutex ids (.release t) t .idle
    some (s', if s.call t = .waited then [.waited t] else [])

def Enabled (s : CountDownLatch τ) : Action τ → Prop
  | .wait t | .countDown t => s.call t = .idle
  | .acquire t => s.mutex_.Enabled (.acquire t)
  | .assignHolder t => s.mutex_.Enabled (.assignHolder t)
  | .block t => s.mutex_.Enabled (.block t)
  | .wake t => s.mutex_.Enabled (.wake t)
  | .regain t => s.mutex_.Enabled (.regain t)
  | .test t => s.call t = .wait ∧ s.mutex_.place t = .inside
  | .decrement t => s.call t = .countDown ∧ s.mutex_.place t = .inside ∧ -2 ^ 31 < s.count_
  | .notifyAll t => s.call t = .decremented
  | .release t => s.mutex_.place t = .unlocking

def machine : Machine (CountDownLatch τ) (Action τ) (Event τ) := ⟨Enabled, step ids⟩

instance (s : CountDownLatch τ) (a : Action τ) : Decidable ((machine ids).enabled s a) :=
  match a with
  | .wait t | .countDown t => inferInstanceAs (Decidable (s.call t = .idle))
  | .acquire t => inferInstanceAs (Decidable (s.mutex_.place t = .locking ∧ s.mutex_.mutex_ = none))
  | .assignHolder t => inferInstanceAs (Decidable (s.mutex_.place t = .acquired ∨ s.mutex_.place t = .regained))
  | .block t => inferInstanceAs (Decidable (s.mutex_.place t = .revoked))
  | .wake t => inferInstanceAs (Decidable (t ∈ s.mutex_.cond.waiting))
  | .regain t =>
    inferInstanceAs (Decidable ((t ∈ s.mutex_.cond.notified ∨ t ∈ s.mutex_.cond.woken) ∧ s.mutex_.mutex_ = none))
  | .test t => inferInstanceAs (Decidable (s.call t = .wait ∧ s.mutex_.place t = .inside))
  | .decrement t => inferInstanceAs (Decidable (s.call t = .countDown ∧ s.mutex_.place t = .inside ∧ -2 ^ 31 < s.count_))
  | .notifyAll t => inferInstanceAs (Decidable (s.call t = .decremented))
  | .release t => inferInstanceAs (Decidable (s.mutex_.place t = .unlocking))

/-! ### The invariant -/

/-- How many calls of `countDown` have counted. -/
def counted (obs : List (Event τ)) : Nat := obs.count .counted

/-- Where a call can be with the mutex. -/
def Call.fits : Call → MutexLock.Place → Bool
  | .idle, .outside => true
  | .wait, .locking | .wait, .acquired | .wait, .inside | .wait, .revoked | .wait, .waiting | .wait, .regained => true
  | .countDown, .locking | .countDown, .acquired | .countDown, .inside => true
  | .decremented, .inside => true
  | .waited, .unlocking | .counted, .unlocking => true
  | _, _ => false

structure Inv (n : Int) (obs : List (Event τ)) (s : CountDownLatch τ) : Prop where
  mutex : s.mutex_.Inv ids
  counts : s.count_ = n - counted obs
  fits : ∀ t, (s.call t).fits (s.mutex_.place t) = true
  waited : ∀ t, s.call t = .waited → s.count_ ≤ 0
  /-- Who is about to wait has seen the count that is still there. -/
  revoked : ∀ t, s.mutex_.place t = .revoked → 0 < s.count_
  /-- Who waits at zero is about to be notified. -/
  notified : s.mutex_.cond.waiting ≠ [] → 0 < s.count_ ∨ s.count_ = 0 ∧ ∃ t, s.call t = .decremented
  /-- No `wait` returned before the count was used up. -/
  opened : Throughout (fun pre e => ∀ t, e = .waited t → n ≤ counted pre) obs

variable {ids} {s s' : CountDownLatch τ} {n : Int} {obs o : List (Event τ)} {a : Action τ}

theorem create_inv : Inv ids n [] (create τ n) :=
  ⟨MutexLock.create_inv, (sub_zero n).symm, fun _ => rfl, nofun, nofun, fun h => absurd rfl h, throughout_nil⟩

@[simp] theorem counted_append (a b : List (Event τ)) : counted (a ++ b) = counted a + counted b := List.count_append

theorem fits_decremented {p : MutexLock.Place} (h : Call.decremented.fits p = true) : p = .inside := by
  cases p <;> first | rfl | cases h

theorem fits_outside {c : Call} {p : MutexLock.Place} (h : c.fits p = true) : c = .idle ↔ p = .outside := by
  cases c <;> cases p <;> simp_all [Call.fits]

/-- Only the thread that has the mutex can be about to notify. -/
theorem Inv.decremented_alone (h : Inv ids n obs s) {t u : τ} (hu : s.call u = .decremented)
    (ht : (s.mutex_.place t).owns = true) : u = t := by
  have hin : s.mutex_.place u = .inside := fits_decremented (hu ▸ h.fits u)
  by_contra hne
  have hfree := h.mutex.alone ht hne
  rw [MutexLock.inside_owns hin] at hfree
  cases hfree

/-- A thread goes on: the count stays, and nobody else moves. -/
theorem Inv.advance (h : Inv ids n obs s) {t : τ} {c : Call} {m : MutexLock τ} {p : MutexLock.Place}
    (hm : (m.move t p).Inv ids) (hplace : m.place = s.mutex_.place) (hfits : c.fits p = true)
    (hwaited : c = .waited → s.count_ ≤ 0) (hrevoked : p = .revoked → 0 < s.count_)
    (hnotified : m.cond.waiting ≠ [] →
      0 < s.count_ ∨ s.mutex_.cond.waiting ≠ [] ∧ (s.call t = .decremented → c = .decremented)) :
    Inv ids n obs {s with mutex_ := m.move t p, call := Function.update s.call t c} := by
  refine ⟨hm, h.counts, fun u => ?_, fun u hu => ?_, fun u hu => ?_, fun hne => ?_, h.opened⟩
  all_goals simp only [MutexLock.move, hplace] at *
  · by_cases hut : u = t
    · subst hut
      simpa using hfits
    · simp only [Function.update_of_ne hut]
      exact h.fits u
  · by_cases hut : u = t
    · subst hut
      exact hwaited (by simpa using hu)
    · exact h.waited u (by simpa only [Function.update_of_ne hut] using hu)
  · by_cases hut : u = t
    · subst hut
      exact hrevoked (by simpa using hu)
    · exact h.revoked u (by simpa only [Function.update_of_ne hut] using hu)
  · rcases hnotified hne with hpos | ⟨hwaiting, hkeep⟩
    · exact .inl hpos
    · refine (h.notified hwaiting).imp_right fun ⟨hzero, u, hu⟩ => ⟨hzero, u, ?_⟩
      by_cases hut : u = t
      · subst hut
        exact (Function.update_self ..).trans (hkeep hu)
      · exact (Function.update_of_ne hut ..).trans hu

/-- A step of the mutex that its user may take. -/
theorem Inv.onMutex (h : Inv ids n obs s) {b : MutexLock.Action τ} (hb : s.mutex_.Enabled b) (t : τ) (c : Call) :
    ∃ m o, s.mutex_.step ids b = some (m, o) ∧ m.Inv ids ∧
      s.onMutex ids b t c = some ({s with mutex_ := m, call := Function.update s.call t c}, []) := by
  obtain ⟨m, o, hm, hI⟩ := MutexLock.inv_step h.mutex hb
  exact ⟨m, o, hm, hI, by simp only [CountDownLatch.onMutex, hm, Option.bind_eq_bind, Option.bind_some]⟩

/-- The same for a step that moves a thread on and leaves the condition variable, or gives up nobody
that waits on it. -/
theorem Inv.moves (h : Inv ids n obs s) {b : MutexLock.Action τ} (hb : s.mutex_.Enabled b) {t : τ} {c : Call}
    {m : MutexLock τ} {p : MutexLock.Place}
    (hstep : ∀ m' o, s.mutex_.step ids b = some (m', o) → m' = m.move t p)
    (hplace : m.place = s.mutex_.place) (hfits : c.fits p = true)
    (hwaited : c = .waited → s.count_ ≤ 0) (hrevoked : p = .revoked → 0 < s.count_)
    (hnotified : m.cond.waiting ≠ [] →
      0 < s.count_ ∨ s.mutex_.cond.waiting ≠ [] ∧ (s.call t = .decremented → c = .decremented)) :
    ∃ s', s.onMutex ids b t c = some (s', []) ∧ Inv ids n obs s' := by
  obtain ⟨m', o, hm, hI, heq⟩ := h.onMutex hb t c
  obtain rfl := hstep m' o hm
  exact ⟨_, heq, h.advance hI hplace hfits hwaited hrevoked hnotified⟩

/-- What a step of the mutex leaves of the latch. -/
theorem eq_of_onMutex {b : MutexLock.Action τ} {t : τ} {c : Call} (h : s.onMutex ids b t c = some (s', o)) :
    ∃ m o', s.mutex_.step ids b = some (m, o') ∧ s' = {s with mutex_ := m, call := Function.update s.call t c} := by
  simp only [onMutex, Option.bind_eq_bind, Option.bind_eq_some_iff, Prod.exists] at h
  obtain ⟨m, o', hm, heq⟩ := h
  exact ⟨m, o', hm, (Prod.mk.inj (Option.some.inj heq)).1.symm⟩

/-- A new call, which starts with the mutex. -/
theorem Inv.lock (h : Inv ids n obs s) {t : τ} (hidle : s.call t = .idle) {c : Call} (hc : c = .wait ∨ c = .countDown) :
    ∃ s', s.onMutex ids (.lock t) t c = some (s', []) ∧ Inv ids n obs s' ∧ s'.count_ = s.count_ ∧
      s'.call = Function.update s.call t c := by
  have hout : s.mutex_.place t = .outside := (fits_outside (h.fits t)).mp hidle
  obtain ⟨s', heq, hI⟩ := h.moves (b := .lock t) hout (t := t) (c := c) (p := .locking) (m := s.mutex_)
    (fun m' o hm => (Prod.mk.inj (Option.some.inj hm)).1.symm) rfl (by rcases hc with rfl | rfl <;> rfl)
    (by rcases hc with rfl | rfl <;> nofun) nofun
    fun hne => .inr ⟨hne, fun hd => by rw [hidle] at hd; cases hd⟩
  obtain ⟨m, _, _, rfl⟩ := eq_of_onMutex heq
  exact ⟨_, heq, hI, rfl, rfl⟩

theorem Inv.decrement (h : Inv ids n obs s) {t : τ} (hcall : s.call t = .countDown)
    (hplace : s.mutex_.place t = .inside) :
    Inv ids n (obs ++ [.counted])
      {s with count_ := s.count_ - 1, call := Function.update s.call t .decremented} := by
  have howns := MutexLock.inside_owns hplace
  have hcounts := h.counts
  refine ⟨h.mutex, ?_, fun u => ?_, fun u hu => ?_, fun u hu => ?_, fun hne => ?_, throughout_snoc.mpr ⟨h.opened, nofun⟩⟩
  · have hone : counted [(.counted : Event τ)] = 1 := List.count_singleton_self ..
    rw [counted_append, hone]
    show s.count_ - 1 = _
    omega
  · by_cases hut : u = t
    · subst hut
      simp [hplace, Call.fits]
    · simp only [Function.update_of_ne hut]
      exact h.fits u
  · by_cases hut : u = t
    · subst hut
      simp at hu
    · have hzero := h.waited u (by simpa only [Function.update_of_ne hut] using hu)
      show s.count_ - 1 ≤ 0
      omega
  · -- nobody else has the mutex
    have hother : u ≠ t := by
      rintro rfl
      rw [hplace] at hu
      cases hu
    have hfree := h.mutex.alone howns hother
    rw [hu] at hfree
    cases hfree
  · show 0 < s.count_ - 1 ∨ s.count_ - 1 = 0 ∧ _
    rcases h.notified hne with hpos | ⟨_, u, hu⟩
    · by_cases hone : s.count_ = 1
      · exact .inr ⟨by omega, t, Function.update_self ..⟩
      · exact .inl (by omega)
    · rw [h.decremented_alone hu howns, hcall] at hu
      cases hu

theorem Inv.notifyAll (h : Inv ids n obs s) {t : τ} (hcall : s.call t = .decremented) :
    ∃ s', step ids s (.notifyAll t) = some (s', []) ∧ Inv ids n obs s' := by
  have hplace : s.mutex_.place t = .inside := fits_decremented (hcall ▸ h.fits t)
  by_cases hzero : s.count_ = 0
  · -- the notification, and then the end of the call
    have hmutex : MutexLock.Inv ids {s.mutex_ with cond := s.mutex_.cond.notifyAll} :=
      h.mutex.condition (CondVar.inside_notifyAll _)
    have hnotify : Inv ids n obs {s with mutex_ := {s.mutex_ with cond := s.mutex_.cond.notifyAll}} :=
      ⟨hmutex, h.counts, h.fits, h.waited, h.revoked, fun hne => absurd rfl hne, h.opened⟩
    obtain ⟨s', heq, hI⟩ := hnotify.moves (b := .unlock t) hplace (t := t) (c := .counted) (p := .unlocking)
      (m := {s.mutex_ with cond := s.mutex_.cond.notifyAll, holder_ := 0})
      (fun m' o hm => (Prod.mk.inj (Option.some.inj hm)).1.symm) rfl rfl (by simp) (by simp) fun hne => absurd rfl hne
    refine ⟨s', ?_, hI⟩
    have hsame : Function.update s.call t .decremented = s.call := by rw [← hcall, Function.update_eq_self]
    simp only [step, notifyAtZero, if_pos hzero, CountDownLatch.onMutex, MutexLock.step, Option.bind_eq_bind, Option.bind_some, hsame] at heq ⊢
    exact heq
  · have hnone : s.mutex_.cond.waiting ≠ [] → 0 < s.count_ := fun hne =>
      (h.notified hne).resolve_right fun hd => hzero hd.1
    obtain ⟨s', heq, hI⟩ := h.moves (b := .unlock t) hplace (t := t) (c := .counted) (p := .unlocking)
      (m := {s.mutex_ with holder_ := 0})
      (fun m' o hm => (Prod.mk.inj (Option.some.inj hm)).1.symm) rfl rfl (by simp) (by simp) fun hne => .inl (hnone hne)
    exact ⟨s', by simp only [step, notifyAtZero, if_neg hzero, Option.bind_eq_bind, Option.bind_some, heq], hI⟩

theorem Inv.release (h : Inv ids n obs s) {t : τ} (hplace : s.mutex_.place t = .unlocking) :
    ∃ s' o, step ids s (.release t) = some (s', o) ∧ Inv ids n (obs ++ o) s' := by
  obtain ⟨m, o, hm, hI, heq⟩ := h.onMutex (b := .release t) hplace t .idle
  obtain ⟨_, hm⟩ := assert_bind_eq_some_iff.mp hm
  obtain ⟨rfl, rfl⟩ := Prod.mk.inj (Option.some.inj hm)
  have hnext := h.advance (c := .idle) hI rfl rfl (by simp) (by simp) fun hne => .inr ⟨hne, fun hd => by
    have hin := fits_decremented (hd ▸ h.fits t)
    rw [hplace] at hin
    cases hin⟩
  refine ⟨_, _, by simp only [step, heq, Option.bind_eq_bind, Option.bind_some]; rfl, ?_⟩
  split
  case isTrue hwaited =>
    have hopen := h.waited t hwaited
    have hcounts := h.counts
    refine ⟨hnext.mutex, ?_, hnext.fits, hnext.waited, hnext.revoked, hnext.notified,
      throughout_snoc.mpr ⟨h.opened, fun _ _ => by omega⟩⟩
    have hnone : counted [(.waited t : Event τ)] = 0 := rfl
    rw [counted_append, hnone]
    exact hnext.counts
  case isFalse =>
    rw [List.append_nil]
    exact hnext

/-- A call keeps its place in the order: taking the mutex, waiting for it and coming back. -/
theorem fits_next (c : Call) :
    (c.fits .locking = true → c.fits .acquired = true) ∧ (c.fits .acquired = true → c.fits .inside = true) ∧
      (c.fits .regained = true → c.fits .inside = true) ∧ (c.fits .revoked = true → c.fits .waiting = true) ∧
      (c.fits .waiting = true → c.fits .regained = true) := by
  cases c <;> simp [Call.fits]

theorem inv_step (h : Inv ids n obs s) (he : Enabled s a) :
    ∃ s' o, step ids s a = some (s', o) ∧ Inv ids n (obs ++ o) s' := by
  have hstay : ∀ {x : Option (CountDownLatch τ × List (Event τ))}, (∃ s', x = some (s', []) ∧ Inv ids n obs s') →
      ∃ s' o, x = some (s', o) ∧ Inv ids n (obs ++ o) s' :=
    fun ⟨s', heq, hI⟩ => ⟨s', [], heq, by rwa [List.append_nil]⟩
  have hsame : ∀ {t}, s.mutex_.cond.waiting ≠ [] →
      0 < s.count_ ∨ s.mutex_.cond.waiting ≠ [] ∧ (s.call t = .decremented → s.call t = .decremented) :=
    fun hne => .inr ⟨hne, id⟩
  cases a with
  | wait t =>
    obtain ⟨s', heq, hI, _⟩ := h.lock he (.inl rfl)
    exact hstay ⟨s', heq, hI⟩
  | countDown t =>
    obtain ⟨s', heq, hI, _⟩ := h.lock he (.inr rfl)
    exact hstay ⟨s', heq, hI⟩
  | acquire t =>
    refine hstay (h.moves (b := .acquire t) he (p := .acquired) (m := {s.mutex_ with mutex_ := some t})
      (fun m' o hm => ?_) rfl ((fits_next _).1 (he.1 ▸ h.fits t)) (h.waited t) (by simp) hsame)
    exact (Prod.mk.inj (Option.some.inj hm)).1.symm
  | assignHolder t =>
    refine hstay (h.moves (b := .assignHolder t) he (p := .inside) (m := {s.mutex_ with holder_ := ids.tid t})
      (fun m' o hm => ?_) rfl ?_ (h.waited t) (by simp) hsame)
    · exact (Prod.mk.inj (Option.some.inj hm)).1.symm
    · exact he.elim (fun hp => (fits_next _).2.1 (hp ▸ h.fits t)) fun hp => (fits_next _).2.2.1 (hp ▸ h.fits t)
  | block t =>
    refine hstay (h.moves (b := .block t) he (p := .waiting)
      (m := {s.mutex_ with mutex_ := none, cond := s.mutex_.cond.wait t}) (fun m' o hm => ?_) rfl
      ((fits_next _).2.2.2.1 (he ▸ h.fits t)) (h.waited t) (by simp) fun _ => .inl (h.revoked t he))
    obtain ⟨_, hm⟩ := assert_bind_eq_some_iff.mp hm
    exact (Prod.mk.inj (Option.some.inj hm)).1.symm
  | wake t =>
    have hplace : s.mutex_.place t = .waiting :=
      (h.mutex.waiting t).mp (List.mem_append_left _ (List.mem_append_left _ he))
    refine hstay (h.moves (b := .wake t) he (p := .waiting) (m := {s.mutex_ with cond := s.mutex_.cond.wake t})
      (fun m' o hm => ?_) rfl (hplace ▸ h.fits t) (h.waited t) (by simp) fun hne => .inr ⟨?_, id⟩)
    · rw [← (Prod.mk.inj (Option.some.inj hm)).1, MutexLock.move, ← hplace, Function.update_eq_self]
    · exact List.ne_nil_of_mem he
  | regain t =>
    have hplace : s.mutex_.place t = .waiting := (h.mutex.waiting t).mp <| by
      rw [CondVar.inside, List.mem_append, List.mem_append]
      exact he.1.elim (fun hn => .inl (.inr hn)) .inr
    refine hstay (h.moves (b := .regain t) he (p := .regained)
      (m := {s.mutex_ with mutex_ := some t, cond := s.mutex_.cond.resume t}) (fun m' o hm => ?_) rfl
      ((fits_next _).2.2.2.2 (hplace ▸ h.fits t)) (h.waited t) (by simp) hsame)
    exact (Prod.mk.inj (Option.some.inj hm)).1.symm
  | test t =>
    obtain ⟨hcall, hplace⟩ := he
    have hkeep : ∀ c : Call, s.call t = .decremented → c = .decremented := fun c hd => by
      rw [hcall] at hd
      cases hd
    by_cases hpos : s.count_ > 0
    · simp only [step, if_pos hpos]
      refine hstay (h.moves (b := .wait t) hplace (p := .revoked) (m := {s.mutex_ with holder_ := 0})
        (fun m' o hm => ?_) rfl rfl (by simp) (fun _ => hpos) fun hne => .inr ⟨hne, hkeep _⟩)
      exact (Prod.mk.inj (Option.some.inj hm)).1.symm
    · simp only [step, if_neg hpos]
      refine hstay (h.moves (b := .unlock t) hplace (p := .unlocking) (m := {s.mutex_ with holder_ := 0})
        (fun m' o hm => ?_) rfl rfl (fun _ => Int.not_lt.mp hpos) (by simp) fun hne => .inr ⟨hne, hkeep _⟩)
      exact (Prod.mk.inj (Option.some.inj hm)).1.symm
  | decrement t => exact ⟨_, _, rfl, h.decrement he.1 he.2.1⟩
  | notifyAll t => exact hstay (h.notifyAll he)
  | release t => exact h.release he

theorem inv_run {as : List (Action τ)} (h : (machine ids).Run (create τ n) as obs s) : Inv ids n obs s := by
  refine h.invariant (Inv ids n) create_inv ?_
  intro obs s a s' o hI he hs
  obtain ⟨s₁, o₁, hs₁, hI'⟩ := inv_step hI he
  obtain ⟨rfl, rfl⟩ := Prod.mk.inj (Option.some.inj (hs.symm.trans hs₁))
  exact hI'

/-! ### One call after another -/

/-- What a step does to the call it belongs to. -/
inductive Call.Next (count : Int) : Call → Call → Int → Prop where
  /-- On the way, with the mutex or for it. -/
  | stays {c} : c ≠ .idle → Next count c c count
  | opened : count ≤ 0 → Next count .wait .waited count
  | decremented : Next count .countDown .decremented (count - 1)
  | counted : Next count .decremented .counted count
  | returned {c} : c = .waited ∨ c = .counted → Next count c .idle count

theorem Call.Next.busy {k k' : Int} {c c' : Call} (h : Next k c c' k') : c ≠ .idle := by
  cases h with
  | stays hbusy => exact hbusy
  | opened | decremented | counted => nofun
  | returned hc => rcases hc with rfl | rfl <;> nofun

/-- A call of `wait` changes no count and ends past its loop. -/
theorem Call.Next.wait {k k' : Int} {c c' : Call} (h : Next k c c' k') (hc : c = .wait ∨ c = .waited) :
    k' = k ∧ (c' = .wait ∨ c' = .waited ∨ c' = .idle ∧ c = .waited) := by
  cases h with
  | stays => exact ⟨rfl, hc.imp_right .inl⟩
  | opened => exact ⟨rfl, .inr (.inl rfl)⟩
  | decremented | counted => simp at hc
  | returned hend =>
    rcases hc with rfl | rfl
    · simp at hend
    · exact ⟨rfl, .inr (.inr ⟨rfl, rfl⟩)⟩

/-- A call of `countDown` changes it once, and ends when it has. -/
theorem Call.Next.countDown {k k' : Int} {c c' : Call} (h : Next k c c' k')
    (hc : c = .countDown ∨ c = .decremented ∨ c = .counted) :
    (c = .countDown ∧ (c' = .countDown ∧ k' = k ∨ c' = .decremented ∧ k' = k - 1)) ∨
      c ≠ .countDown ∧ k' = k ∧ (c' = .decremented ∨ c' = .counted ∨ c' = .idle) := by
  cases h with
  | stays =>
    rcases hc with rfl | hc
    · exact .inl ⟨rfl, .inl ⟨rfl, rfl⟩⟩
    · exact .inr ⟨by rcases hc with rfl | rfl <;> nofun, rfl, hc.imp_right .inl⟩
  | opened => simp at hc
  | decremented => exact .inl ⟨rfl, .inr ⟨rfl, rfl⟩⟩
  | counted => exact .inr ⟨nofun, rfl, .inr (.inl rfl)⟩
  | returned hend => exact .inr ⟨by rcases hend with rfl | rfl <;> nofun, rfl, .inr (.inr rfl)⟩

/-- The notification moves nobody. -/
theorem notifyAtZero_keeps {t : τ} (hcall : s.call t = .decremented) (h : s.notifyAtZero ids t = some (s', o)) :
    s'.call = s.call ∧ s'.mutex_.place = s.mutex_.place ∧ s'.count_ = s.count_ ∧
      s'.mutex_.cond.waiting.length ≤ s.mutex_.cond.waiting.length := by
  unfold notifyAtZero at h
  split at h
  · obtain ⟨m, _, hm, rfl⟩ := eq_of_onMutex h
    obtain ⟨rfl, _⟩ := Prod.mk.inj (Option.some.inj hm)
    exact ⟨by rw [← hcall, Function.update_eq_self], rfl, rfl, Nat.zero_le _⟩
  · obtain ⟨rfl, _⟩ := Prod.mk.inj (Option.some.inj h)
    exact ⟨rfl, rfl, rfl, le_rfl⟩

/-- A step that is not a call belongs to one, and leaves the other threads' calls alone. -/
theorem step_call (h : Inv ids n obs s) (ha : a.calls = false) (he : Enabled s a)
    (hs : step ids s a = some (s', o)) :
    Call.Next s.count_ (s.call a.thread) (s'.call a.thread) s'.count_ ∧ ∀ t, t ≠ a.thread → s'.call t = s.call t := by
  have hbusy : ∀ {t p}, s.mutex_.place t = p → p ≠ .outside → s.call t ≠ .idle := by
    rintro t p rfl hout hidle
    exact hout ((fits_outside (h.fits t)).mp hidle)
  have hmutex : ∀ {b t c}, s.onMutex ids b t c = some (s', o) → Call.Next s.count_ (s.call t) c s.count_ →
      Call.Next s.count_ (s.call t) (s'.call t) s'.count_ ∧ ∀ u, u ≠ t → s'.call u = s.call u := by
    intro b t c hb hnext
    obtain ⟨m, _, _, rfl⟩ := eq_of_onMutex hb
    exact ⟨by simpa using hnext, fun u hu => Function.update_of_ne hu ..⟩
  cases a with
  | wait | countDown => cases ha
  | acquire t => exact hmutex hs (.stays (hbusy he.1 (by simp)))
  | assignHolder t => exact hmutex hs (.stays (he.elim (fun hp => hbusy hp (by simp)) fun hp => hbusy hp (by simp)))
  | block t => exact hmutex hs (.stays (hbusy he (by simp)))
  | wake t =>
    refine hmutex hs (.stays (hbusy ((h.mutex.waiting t).mp ?_) (by simp)))
    exact List.mem_append_left _ (List.mem_append_left _ he)
  | regain t =>
    refine hmutex hs (.stays (hbusy ((h.mutex.waiting t).mp ?_) (by simp)))
    rw [CondVar.inside, List.mem_append, List.mem_append]
    exact he.1.elim (fun hn => .inl (.inr hn)) .inr
  | test t =>
    rw [step] at hs
    split at hs
    · exact hmutex hs (by rw [Action.thread, he.1]; exact .stays (by simp))
    · exact hmutex hs (by rw [Action.thread, he.1]; exact .opened (by omega))
  | decrement t =>
    obtain ⟨rfl, _⟩ := Prod.mk.inj (Option.some.inj hs)
    refine ⟨?_, fun u hu => Function.update_of_ne hu ..⟩
    have hcall : s.call t = .countDown := he.1
    simp only [Action.thread, Function.update_self, hcall]
    exact .decremented
  | notifyAll t =>
    have hcall : s.call t = .decremented := he
    simp only [step, Option.bind_eq_bind, Option.bind_eq_some_iff, Prod.exists] at hs
    obtain ⟨s₁, o₁, hs₁, hs⟩ := hs
    obtain ⟨hcall₁, _, hcount₁, _⟩ := notifyAtZero_keeps hcall hs₁
    obtain ⟨m, _, _, rfl⟩ := eq_of_onMutex hs
    simp only [Action.thread, hcall₁, hcount₁, Function.update_self, hcall]
    exact ⟨.counted, fun u hu => Function.update_of_ne hu ..⟩
  | release t =>
    have hplace : s.mutex_.place t = .unlocking := he
    simp only [step, Option.bind_eq_bind, Option.bind_eq_some_iff, Prod.exists] at hs
    obtain ⟨s₁, o₁, hs₁, hs⟩ := hs
    obtain ⟨rfl, _⟩ := Prod.mk.inj (Option.some.inj hs)
    obtain ⟨m, _, _, rfl⟩ := eq_of_onMutex hs₁
    have hcall : s.call t = .waited ∨ s.call t = .counted := by
      have hfits := h.fits t
      rw [hplace] at hfits
      cases hc : s.call t <;> rw [hc] at hfits <;> simp_all [Call.fits]
    simp only [Action.thread, Function.update_self]
    exact ⟨.returned hcall, fun u hu => Function.update_of_ne hu ..⟩

/-! ### The work that is left

Once the count is used up, no call waits any more: each goes straight to its end. -/

/-- How far a call is from its end. -/
def Call.left (c : Call) : MutexLock.Place → Nat
  | .outside => 0
  | .unlocking => 1
  | .inside => if c = .decremented then 2 else 3
  | .acquired | .regained => 4
  | .locking | .waiting | .revoked => 5

/-- What all calls have left, and the wake-ups that may still come. -/
def work [Fintype τ] (s : CountDownLatch τ) : Nat :=
  (∑ t, (s.call t).left (s.mutex_.place t)) + s.mutex_.cond.waiting.length

/-- The end of a thread's call comes nearer. -/
theorem work_lt [Fintype τ] {t : τ} {c : Call} {p : MutexLock.Place} (hcall : s'.call = Function.update s.call t c)
    (hplace : s'.mutex_.place = Function.update s.mutex_.place t p)
    (hwaiting : s'.mutex_.cond.waiting.length ≤ s.mutex_.cond.waiting.length)
    (hlt : c.left p < (s.call t).left (s.mutex_.place t)) : s'.work < s.work := by
  have hsum : ∑ u, (s'.call u).left (s'.mutex_.place u) < ∑ u, (s.call u).left (s.mutex_.place u) := by
    refine sum_lt_of_one t ?_ fun u hu => ?_
    · rw [hcall, hplace, Function.update_self, Function.update_self]
      exact hlt
    · rw [hcall, hplace, Function.update_of_ne hu, Function.update_of_ne hu]
  unfold work
  omega

theorem work_step [Fintype τ] (h : Inv ids n obs s) (hopen : s.count_ ≤ 0) (ha : a.calls = false)
    (he : Enabled s a) (hs : step ids s a = some (s', o)) : s'.count_ ≤ 0 ∧ s'.work < s.work := by
  cases a with
  | wait | countDown => cases ha
  | acquire t =>
    obtain ⟨m, _, hm, rfl⟩ := eq_of_onMutex hs
    obtain ⟨rfl, _⟩ := Prod.mk.inj (Option.some.inj hm)
    exact ⟨hopen, work_lt rfl rfl le_rfl (by rw [he.1]; simp [Call.left])⟩
  | assignHolder t =>
    obtain ⟨m, _, hm, rfl⟩ := eq_of_onMutex hs
    obtain ⟨rfl, _⟩ := Prod.mk.inj (Option.some.inj hm)
    have hleft : (s.call t).left (s.mutex_.place t) = 4 := by rcases he with hp | hp <;> rw [hp] <;> rfl
    refine ⟨hopen, work_lt rfl rfl le_rfl ?_⟩
    rw [hleft, Call.left]
    split <;> omega
  | block t => exact absurd (h.revoked t he) (by omega)
  | wake t =>
    obtain ⟨m, _, hm, rfl⟩ := eq_of_onMutex hs
    obtain ⟨rfl, _⟩ := Prod.mk.inj (Option.some.inj hm)
    have hshorter := List.length_erase_of_mem he
    have hpos := List.length_pos_of_mem he
    refine ⟨hopen, ?_⟩
    simp only [work, CondVar.wake, Function.update_eq_self]
    omega
  | regain t =>
    obtain ⟨m, _, hm, rfl⟩ := eq_of_onMutex hs
    obtain ⟨rfl, _⟩ := Prod.mk.inj (Option.some.inj hm)
    have hplace : s.mutex_.place t = .waiting := (h.mutex.waiting t).mp <| by
      rw [CondVar.inside, List.mem_append, List.mem_append]
      exact he.1.elim (fun hn => .inl (.inr hn)) .inr
    exact ⟨hopen, work_lt rfl rfl le_rfl (by rw [hplace]; simp [Call.left])⟩
  | test t =>
    obtain ⟨hcall, hplace⟩ := he
    rw [step, if_neg (by omega)] at hs
    obtain ⟨m, _, hm, rfl⟩ := eq_of_onMutex hs
    obtain ⟨rfl, _⟩ := Prod.mk.inj (Option.some.inj hm)
    exact ⟨hopen, work_lt rfl rfl le_rfl (by rw [hplace, hcall]; simp [Call.left])⟩
  | decrement t =>
    obtain ⟨hcall, hplace, -⟩ := he
    obtain ⟨rfl, _⟩ := Prod.mk.inj (Option.some.inj hs)
    refine ⟨Int.le_trans (Int.sub_le_self _ Int.one_nonneg) hopen, work_lt rfl (Function.update_eq_self ..).symm le_rfl ?_⟩
    rw [hplace, hcall]
    simp [Call.left]
  | notifyAll t =>
    have hcall : s.call t = .decremented := he
    have hplace : s.mutex_.place t = .inside := fits_decremented (hcall ▸ h.fits t)
    simp only [step, Option.bind_eq_bind, Option.bind_eq_some_iff, Prod.exists] at hs
    obtain ⟨s₁, o₁, hs₁, hs⟩ := hs
    obtain ⟨hcall₁, hplace₁, hcount₁, hwaiting₁⟩ := notifyAtZero_keeps hcall hs₁
    obtain ⟨m, _, hm, rfl⟩ := eq_of_onMutex hs
    obtain ⟨rfl, _⟩ := Prod.mk.inj (Option.some.inj hm)
    refine ⟨hcount₁ ▸ hopen, work_lt (t := t) (c := .counted) (p := .unlocking) ?_ ?_ hwaiting₁ ?_⟩
    · simp only [hcall₁]
    · exact congrArg (Function.update · t _) hplace₁
    · rw [hplace, hcall]
      simp [Call.left]
  | release t =>
    have hplace : s.mutex_.place t = .unlocking := he
    simp only [step, Option.bind_eq_bind, Option.bind_eq_some_iff, Prod.exists] at hs
    obtain ⟨s₁, o₁, hs₁, hs⟩ := hs
    obtain ⟨rfl, _⟩ := Prod.mk.inj (Option.some.inj hs)
    obtain ⟨m, _, hm, rfl⟩ := eq_of_onMutex hs₁
    obtain ⟨_, hm⟩ := assert_bind_eq_some_iff.mp hm
    obtain ⟨rfl, _⟩ := Prod.mk.inj (Option.some.inj hm)
    exact ⟨hopen, work_lt rfl rfl le_rfl (by rw [hplace]; exact Nat.one_pos)⟩

/-! ### The room that is left in the count -/

/-- A call that has still to decrement the count. -/
def Call.counting (c : Call) : Nat := if c = .countDown then 1 else 0

/-- How many calls have still to decrement the count. -/
def counting [Fintype τ] (s : CountDownLatch τ) : Nat := ∑ t, (s.call t).counting

/-- A call that decrements the count is one less that has still to. -/
theorem Call.Next.counting {k k' : Int} {c c' : Call} (h : Next k c c' k') : c'.counting + k = c.counting + k' := by
  cases h with
  | stays | opened | counted => rfl
  | decremented => simp [Call.counting]
  | returned hc => rcases hc with rfl | rfl <;> rfl

/-- What the calls under way will leave of the count does not change. -/
theorem counting_step [Fintype τ] (h : Inv ids n obs s) (ha : a.calls = false) (he : Enabled s a)
    (hs : step ids s a = some (s', o)) : s'.count_ - s'.counting = s.count_ - s.counting := by
  obtain ⟨hnext, hothers⟩ := step_call h ha he hs
  have hone := hnext.counting
  have hsum : s'.counting + (s.call a.thread).counting = s.counting + (s'.call a.thread).counting :=
    sum_add_of_one a.thread fun t ht => congrArg Call.counting (hothers t ht)
  omega

omit [DecidableEq τ] in
theorem room_of_counting [Fintype τ] (hroom : -2 ^ 31 ≤ s.count_ - s.counting) {t : τ} (ht : s.call t = .countDown) :
    -2 ^ 31 < s.count_ := by
  have hle : (s.call t).counting ≤ s.counting :=
    Finset.single_le_sum (f := fun t => (s.call t).counting) (fun _ _ => Nat.zero_le _) (Finset.mem_univ t)
  have hone : (s.call t).counting = 1 := by rw [ht]; rfl
  omega

/-- With the count used up, and room for the calls under way, somebody who is in a call can go on. -/
theorem exists_enabled [Fintype τ] (h : Inv ids n obs s) (hopen : s.count_ ≤ 0)
    (hroom : -2 ^ 31 ≤ s.count_ - s.counting) {t : τ} (ht : s.call t ≠ .idle) :
    ∃ a : Action τ, a.calls = false ∧ Enabled s a := by
  cases hmutex : s.mutex_.mutex_ with
  | some u =>
    -- the thread that has the mutex
    have howns := (h.mutex.mutex u).mp hmutex
    have hfits := h.fits u
    cases hplace : s.mutex_.place u <;> rw [hplace] at howns hfits
    case acquired => exact ⟨.assignHolder u, rfl, .inl hplace⟩
    case regained => exact ⟨.assignHolder u, rfl, .inr hplace⟩
    case unlocking => exact ⟨.release u, rfl, hplace⟩
    case revoked => exact absurd (h.revoked u hplace) (by omega)
    case inside =>
      cases hcall : s.call u <;> rw [hcall] at hfits
      case wait => exact ⟨.test u, rfl, hcall, hplace⟩
      case countDown => exact ⟨.decrement u, rfl, hcall, hplace, room_of_counting hroom hcall⟩
      case decremented => exact ⟨.notifyAll u, rfl, hcall⟩
      all_goals cases hfits
    all_goals cases howns
  | none =>
    have hfree := h.mutex.free hmutex t
    have hout : s.mutex_.place t ≠ .outside := fun hp => ht ((fits_outside (h.fits t)).mpr hp)
    cases hplace : s.mutex_.place t <;> rw [hplace] at hfree hout
    case locking => exact ⟨.acquire t, rfl, hplace, hmutex⟩
    case waiting =>
      have hin := (h.mutex.waiting t).mpr hplace
      rw [CondVar.inside, List.mem_append, List.mem_append, or_assoc] at hin
      rcases hin with hwaits | hin
      · -- then it is about to be notified, by a thread that has the mutex
        rcases h.notified (List.ne_nil_of_mem hwaits) with hpos | ⟨_, u, hu⟩
        · omega
        · have hinside : s.mutex_.place u = .inside := fits_decremented (hu ▸ h.fits u)
          have howns := h.mutex.free hmutex u
          rw [MutexLock.inside_owns hinside] at howns
          cases howns
      · exact ⟨.regain t, rfl, hin, hmutex⟩
    case outside => exact absurd rfl hout
    all_goals cases hfree

/-- **`wait` returns when the count is used up, and not before.** Before any return of `wait` at
least as many calls of `countDown` have counted as the latch was created for; and no step fails
a check. A run does not decrement below the range of an `int`. -/
theorem wait_returns_at_zero {as : List (Action τ)} (h : (machine ids).Run (create τ n) as obs s) :
    Throughout (fun pre e => ∀ t, e = .waited t → n ≤ counted pre) obs ∧
      ∀ a, Enabled s a → (step ids s a).isSome := by
  have hI := inv_run h
  refine ⟨hI.opened, fun a he => ?_⟩
  obtain ⟨s', o, hs', _⟩ := inv_step hI he
  rw [hs']
  rfl

/-- Thread `false` waits, thread `true` counts down and the other is woken for no reason before it is notified. -/
def waitAndCountDown : List (Action Bool) :=
  [.wait false, .acquire false, .assignHolder false, .test false, .block false, .countDown true, .acquire true,
    .assignHolder true, .wake false, .decrement true]

/-- The rest of both calls. -/
def bothReturn : List (Action Bool) :=
  [.notifyAll true, .release true, .regain false, .assignHolder false, .test false, .release false]

def boolTids : MutexLock.Tids Bool where
  tid := fun t => t.toNat + 1
  pos := fun _ => Nat.succ_pos _
  inj := by decide

theorem wait_returns_at_zero_bothReturn :
    ∃ obs s, (machine boolTids).Run (create Bool 1) (waitAndCountDown ++ bothReturn) obs s ∧
      obs = [.counted, .waited false] ∧ Throughout (fun pre e => ∀ t, e = .waited t → (1 : Int) ≤ counted pre) obs := by
  obtain ⟨obs, s, hrun, hobs⟩ :
      ∃ obs s, (machine boolTids).Run (create Bool 1) (waitAndCountDown ++ bothReturn) obs s ∧
        obs = [.counted, .waited false] :=
    Machine.Run.exists_of_trace (by decide +kernel)
  exact ⟨obs, s, hrun, hobs, (wait_returns_at_zero hrun).1⟩

/-- **An open latch lets everyone go.** Once as many calls of `countDown` have counted as the latch was
created for, and as long as nobody calls anew, every run is at most as long as the work that is
left, in whatever order the threads are scheduled and whatever wakes them up, and it can always go
on until the last call has returned: no notification is lost and nobody waits for ever. To go on,
the calls under way need room in the `int` for what they count. -/
theorem open_latch_lets_go [Fintype τ] {as as' : List (Action τ)} {obs' : List (Event τ)}
    (h : (machine ids).Run (create τ n) as obs s) (hopen : n ≤ counted obs)
    (h' : ((machine ids).restrict fun _ a => a.calls = false).Run s as' obs' s') :
    as'.length + s'.work ≤ s.work ∧
      (-2 ^ 31 ≤ s.count_ - s.counting →
        (∀ t, s'.call t = .idle) ∨ ∃ a : Action τ, a.calls = false ∧ Enabled s' a ∧ (step ids s' a).isSome) := by
  have hI := inv_run h
  have hzero : s.count_ ≤ 0 := by
    have hcounts := hI.counts
    omega
  obtain ⟨⟨⟨m, hI'⟩, hzero', hleft⟩, hlength⟩ :
      ((∃ obs, Inv ids n obs s') ∧ s'.count_ ≤ 0 ∧ s'.count_ - s'.counting = s.count_ - s.counting) ∧
        as'.length + s'.work ≤ s.work :=
    h'.length_le
      (I := fun s' => (∃ obs, Inv ids n obs s') ∧ s'.count_ ≤ 0 ∧ s'.count_ - s'.counting = s.count_ - s.counting)
      (by
        rintro s₁ a s₂ o ⟨⟨obs, hI⟩, hzero, hleft⟩ ⟨he, ha⟩ hs
        obtain ⟨s₃, o₁, hs₁, hI'⟩ := inv_step hI he
        obtain ⟨rfl, rfl⟩ := Prod.mk.inj (Option.some.inj (hs.symm.trans hs₁))
        obtain ⟨hzero', hlt⟩ := work_step hI hzero ha he hs
        exact ⟨⟨⟨_, hI'⟩, hzero', (counting_step hI ha he hs).trans hleft⟩, hlt⟩)
      ⟨⟨obs, hI⟩, hzero, rfl⟩
  refine ⟨hlength, fun hroom => ?_⟩
  by_cases hidle : ∀ t, s'.call t = .idle
  · exact .inl hidle
  · rw [not_forall] at hidle
    obtain ⟨t, ht⟩ := hidle
    obtain ⟨a, ha, he⟩ := exists_enabled hI' hzero' (hleft ▸ hroom) ht
    obtain ⟨s₁, o₁, hs₁, _⟩ := inv_step hI' he
    exact .inr ⟨a, ha, he, by rw [hs₁]; rfl⟩

theorem open_latch_lets_go_bothReturn :
    ∃ obs s obs' s', (machine boolTids).Run (create Bool 1) waitAndCountDown obs s ∧ counted obs = 1 ∧
      ((machine boolTids).restrict fun _ a => a.calls = false).Run s bothReturn obs' s' ∧
      obs' = [.waited false] ∧ 6 + s'.work ≤ s.work := by
  obtain ⟨obs, s, obs', s', hrun, hrun', hcounted, hobs⟩ :
      ∃ obs s obs' s', (machine boolTids).Run (create Bool 1) waitAndCountDown obs s ∧
        ((machine boolTids).restrict fun _ a => a.calls = false).Run s bothReturn obs' s' ∧
        counted obs = 1 ∧ obs' = [.waited false] :=
    Machine.Run.exists_of_traces (by decide +kernel)
  exact ⟨obs, s, obs', s', hrun, hcounted, hrun', hobs, (open_latch_lets_go hrun (by rw [hcounted]; rfl) hrun').1⟩

end CountDownLatch
end Chtho.Threads
