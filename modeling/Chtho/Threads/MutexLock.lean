import Mathlib.Data.Fintype.Basic
import Mathlib.Logic.Function.Basic
import Chtho.Lib.CondVar
import Chtho.Lib.Machine

/-! `MutexLock` and the `Condition` that goes with it, one statement at a time.

A mutex remembers its holder in a plain field, which is written with the mutex taken and read at
any time. `lock` writes it after `pthread_mutex_lock` and `unlock` clears it before
`pthread_mutex_unlock`; `Condition::wait`, which gives the mutex away in between, has a guard
that clears it and writes it again. So the field is behind the mutex by a statement at each end,
and the question is what a thread learns that compares it with its own id. -/
namespace Chtho.Threads
open Lib

namespace MutexLock

/-- What the kernel calls the threads. -/
structure Tids (τ : Type) where
  tid : τ → Nat
  pos : ∀ t, 0 < tid t
  inj : Function.Injective tid

/-- Where a thread is with the mutex. -/
inductive Place where
  | outside
  /-- In `pthread_mutex_lock`. -/
  | locking
  /-- In `lock`, before `assignHolder`. -/
  | acquired
  | inside
  /-- In `unlock`, past `revokeHolder`. -/
  | unlocking
  /-- In `Condition::wait`, past the guard's constructor. -/
  | revoked
  /-- In `pthread_cond_wait`. -/
  | waiting
  /-- In `Condition::wait`, before the guard's destructor. -/
  | regained
deriving DecidableEq, Repr

/-- The mutex is taken. -/
def Place.owns : Place → Bool
  | .acquired | .inside | .unlocking | .revoked | .regained => true
  | .outside | .locking | .waiting => false

inductive Action (τ : Type) where
  | lock (t : τ)
  | acquire (t : τ)
  | assignHolder (t : τ)
  | unlock (t : τ)
  | release (t : τ)
  | wait (t : τ)
  | block (t : τ)
  | notify (choice : Option τ)
  | notifyAll
  /-- A wake-up for no reason, or the end of the time in `waitForSecs`. -/
  | wake (t : τ)
  | regain (t : τ)
  | destroy
deriving DecidableEq, Repr

end MutexLock

/-- `mutex_` is the thread that has taken the mutex, `place` where the threads are. -/
structure MutexLock (τ : Type) where
  mutex_ : Option τ
  holder_ : Nat
  cond : CondVar τ
  place : τ → MutexLock.Place

namespace MutexLock
variable {τ : Type}

def create (τ : Type) : MutexLock τ := ⟨none, 0, .empty, fun _ => .outside⟩

variable (ids : Tids τ)

def isLockedByThisThread (s : MutexLock τ) (t : τ) : Bool := s.holder_ = ids.tid t

variable [DecidableEq τ]

def move (s : MutexLock τ) (t : τ) (p : Place) : MutexLock τ := {s with place := Function.update s.place t p}

/-- What `pthread_mutex_unlock` and `pthread_cond_wait` report is checked: they are called by the
thread that has the mutex. `pthread_mutex_destroy` is called with the mutex free. -/
def step (s : MutexLock τ) : Action τ → Option (MutexLock τ × List Unit)
  | .lock t => some (s.move t .locking, [])
  | .acquire t => some ({s with mutex_ := some t}.move t .acquired, [])
  | .assignHolder t => some ({s with holder_ := ids.tid t}.move t .inside, [])
  | .unlock t => some ({s with holder_ := 0}.move t .unlocking, [])
  | .release t => do
    assert (s.mutex_ = some t)
    some ({s with mutex_ := none}.move t .outside, [])
  | .wait t => some ({s with holder_ := 0}.move t .revoked, [])
  | .block t => do
    assert (s.mutex_ = some t)
    some ({s with mutex_ := none, cond := s.cond.wait t}.move t .waiting, [])
  | .notify choice => some ({s with cond := s.cond.notify choice}, [])
  | .notifyAll => some ({s with cond := s.cond.notifyAll}, [])
  | .wake t => some ({s with cond := s.cond.wake t}, [])
  | .regain t => some ({s with mutex_ := some t, cond := s.cond.resume t}.move t .regained, [])
  | .destroy => do
    assert (s.holder_ = 0)
    assert (s.mutex_ = none)
    some (s, [])

/-- Users lock once, and unlock and wait inside; nobody is left when the mutex is destroyed. -/
def Enabled (s : MutexLock τ) : Action τ → Prop
  | .lock t => s.place t = .outside
  | .acquire t => s.place t = .locking ∧ s.mutex_ = none
  | .assignHolder t => s.place t = .acquired ∨ s.place t = .regained
  | .unlock t | .wait t => s.place t = .inside
  | .release t => s.place t = .unlocking
  | .block t => s.place t = .revoked
  | .notify choice => s.cond.Chooses choice
  | .notifyAll => True
  | .wake t => t ∈ s.cond.waiting
  | .regain t => (t ∈ s.cond.notified ∨ t ∈ s.cond.woken) ∧ s.mutex_ = none
  | .destroy => ∀ t, s.place t = .outside

def machine : Machine (MutexLock τ) (Action τ) Unit := ⟨Enabled, step ids⟩

instance [Fintype τ] (s : MutexLock τ) (a : Action τ) : Decidable ((machine ids).enabled s a) :=
  match a with
  | .lock t => inferInstanceAs (Decidable (s.place t = .outside))
  | .acquire t => inferInstanceAs (Decidable (s.place t = .locking ∧ s.mutex_ = none))
  | .assignHolder t => inferInstanceAs (Decidable (s.place t = .acquired ∨ s.place t = .regained))
  | .unlock t | .wait t => inferInstanceAs (Decidable (s.place t = .inside))
  | .release t => inferInstanceAs (Decidable (s.place t = .unlocking))
  | .block t => inferInstanceAs (Decidable (s.place t = .revoked))
  | .notify choice => inferInstanceAs (Decidable (s.cond.Chooses choice))
  | .notifyAll => inferInstanceAs (Decidable True)
  | .wake t => inferInstanceAs (Decidable (t ∈ s.cond.waiting))
  | .regain t => inferInstanceAs (Decidable ((t ∈ s.cond.notified ∨ t ∈ s.cond.woken) ∧ s.mutex_ = none))
  | .destroy => inferInstanceAs (Decidable (∀ t, s.place t = .outside))

/-! ### The holder -/

/-- The mutex, its holder and the condition variable say where the threads are. -/
structure Inv (s : MutexLock τ) : Prop where
  mutex : ∀ t, s.mutex_ = some t ↔ (s.place t).owns = true
  holder : ∀ t, s.holder_ = ids.tid t ↔ s.place t = .inside
  nobody : s.holder_ ≠ 0 → ∃ t, s.holder_ = ids.tid t
  nodup : s.cond.inside.Nodup
  waiting : ∀ t, t ∈ s.cond.inside ↔ s.place t = .waiting

variable {ids} {s s' : MutexLock τ} {a : Action τ} {o : List Unit}

omit [DecidableEq τ] in
theorem create_inv : Inv ids (create τ) :=
  ⟨fun _ => ⟨nofun, nofun⟩, fun t => ⟨fun h => absurd h (Nat.ne_of_lt (ids.pos t)), nofun⟩, fun h => absurd rfl h,
    List.nodup_nil, fun _ => ⟨nofun, nofun⟩⟩

omit [DecidableEq τ] in
theorem Inv.alone (h : Inv ids s) {t u : τ} (ht : (s.place t).owns = true) (hne : u ≠ t) :
    (s.place u).owns = false := by
  cases hu : (s.place u).owns with
  | false => rfl
  | true =>
    have hsame := ((h.mutex t).mpr ht).symm.trans ((h.mutex u).mpr hu)
    exact absurd (Option.some.inj hsame).symm hne

omit [DecidableEq τ] in
theorem Inv.free (h : Inv ids s) (hfree : s.mutex_ = none) (t : τ) : (s.place t).owns = false := by
  cases ht : (s.place t).owns with
  | false => rfl
  | true =>
    have hsome := (h.mutex t).mpr ht
    rw [hfree] at hsome
    cases hsome

theorem inside_owns {p : Place} (h : p = .inside) : p.owns = true := by rw [h]; rfl

/-- A thread that is not inside, and will not be, takes the mutex, gives it away or waits. -/
theorem Inv.keepHolder (h : Inv ids s) {t : τ} {p : Place} {m : Option τ} {c : CondVar τ}
    (hold : s.place t ≠ .inside) (hnew : p ≠ .inside) (hself : m = some t ↔ p.owns = true)
    (hothers : ∀ u, u ≠ t → (m = some u ↔ (s.place u).owns = true)) (hnodup : c.inside.Nodup)
    (hwaits : t ∈ c.inside ↔ p = .waiting) (hwait : ∀ u, u ≠ t → (u ∈ c.inside ↔ u ∈ s.cond.inside)) :
    Inv ids ⟨m, s.holder_, c, Function.update s.place t p⟩ := by
  refine ⟨fun u => ?_, fun u => ?_, h.nobody, hnodup, fun u => ?_⟩
  all_goals
    by_cases hu : u = t
    · subst hu
      simp only [Function.update_self]
      first | exact hself | exact iff_of_false (fun heq => hold ((h.holder u).mp heq)) hnew | exact hwaits
    · simp only [Function.update_of_ne hu]
      first | exact hothers u hu | exact h.holder u | exact (hwait u hu).trans (h.waiting u)

/-- The thread that has the mutex writes its id or clears the field. -/
theorem Inv.writeHolder (h : Inv ids s) {t : τ} {p : Place} {n : Nat} (hold : (s.place t).owns = true)
    (hnew : p.owns = true) (hn : n = ids.tid t ∧ p = .inside ∨ n = 0 ∧ p ≠ .inside) :
    Inv ids ⟨s.mutex_, n, s.cond, Function.update s.place t p⟩ := by
  have hnot : ∀ q : Place, q.owns = true → q ≠ .waiting := by
    rintro q hq rfl
    cases hq
  refine ⟨fun u => ?_, fun u => ?_, fun hne => ⟨t, ?_⟩, h.nodup, fun u => ?_⟩
  · by_cases hu : u = t
    · subst hu
      simp [hnew, (h.mutex u).mpr hold]
    · simp only [Function.update_of_ne hu]
      exact h.mutex u
  · have hzero := ids.pos u
    by_cases hu : u = t
    · subst hu
      rcases hn with ⟨rfl, rfl⟩ | ⟨rfl, hp⟩
      · simp
      · simp only [Function.update_self]
        exact iff_of_false (by omega) hp
    · simp only [Function.update_of_ne hu]
      refine iff_of_false (fun heq => ?_) fun hin => ?_
      · rcases hn with ⟨rfl, _⟩ | ⟨rfl, _⟩
        · exact hu (ids.inj heq).symm
        · omega
      · have hout := h.alone hold hu
        rw [inside_owns hin] at hout
        cases hout
  · rcases hn with ⟨rfl, _⟩ | ⟨rfl, _⟩
    · rfl
    · exact absurd rfl hne
  · by_cases hu : u = t
    · subst hu
      simp only [Function.update_self]
      exact iff_of_false (fun hmem => hnot _ hold ((h.waiting u).mp hmem)) (hnot p hnew)
    · simp only [Function.update_of_ne hu]
      exact h.waiting u

omit [DecidableEq τ] in
/-- A notification or a wake-up moves threads that stay inside `pthread_cond_wait`. -/
theorem Inv.condition (h : Inv ids s) {c : CondVar τ} (hperm : c.inside.Perm s.cond.inside) :
    Inv ids {s with cond := c} :=
  ⟨h.mutex, h.holder, h.nobody, hperm.nodup_iff.mpr h.nodup, fun t => hperm.mem_iff.trans (h.waiting t)⟩

/-- What users do neither aborts nor breaks the invariant. -/
theorem inv_step (h : Inv ids s) (he : Enabled s a) : ∃ s' o, step ids s a = some (s', o) ∧ Inv ids s' := by
  cases a with
  | lock t =>
    have hplace : s.place t = .outside := he
    refine ⟨_, _, rfl, h.keepHolder (by rw [hplace]; nofun) nofun ?_ (fun u _ => h.mutex u) h.nodup ?_ fun _ _ => .rfl⟩
    · rw [h.mutex, hplace]
      exact .rfl
    · rw [h.waiting, hplace]
      exact ⟨nofun, nofun⟩
  | acquire t =>
    obtain ⟨hplace, hfree⟩ := he
    refine ⟨_, _, rfl, h.keepHolder (by rw [hplace]; nofun) nofun ⟨fun _ => rfl, fun _ => rfl⟩ (fun u hu => ?_) h.nodup
      ?_ fun _ _ => .rfl⟩
    · rw [h.free hfree]
      exact ⟨fun heq => absurd (Option.some.inj heq).symm hu, nofun⟩
    · rw [h.waiting, hplace]
      exact ⟨nofun, nofun⟩
  | assignHolder t =>
    exact ⟨_, _, rfl, h.writeHolder (by rcases he with he | he <;> rw [he] <;> rfl) rfl (.inl ⟨rfl, rfl⟩)⟩
  | unlock t | wait t =>
    exact ⟨_, _, rfl, h.writeHolder (inside_owns he) rfl (.inr ⟨rfl, nofun⟩)⟩
  | release t =>
    have hplace : s.place t = .unlocking := he
    have hmine : s.mutex_ = some t := (h.mutex t).mpr (by rw [hplace]; rfl)
    refine ⟨_, _, assert_bind_eq_some_iff.mpr ⟨hmine, rfl⟩, h.keepHolder (by rw [hplace]; nofun) nofun ⟨nofun, nofun⟩
      (fun u hu => ?_) h.nodup ?_ fun _ _ => .rfl⟩
    · rw [h.alone (t := t) (by rw [hplace]; rfl) hu]
      exact ⟨nofun, nofun⟩
    · rw [h.waiting, hplace]
      exact ⟨nofun, nofun⟩
  | block t =>
    have hplace : s.place t = .revoked := he
    have hmine : s.mutex_ = some t := (h.mutex t).mpr (by rw [hplace]; rfl)
    have hperm := CondVar.inside_wait s.cond t
    refine ⟨_, _, assert_bind_eq_some_iff.mpr ⟨hmine, rfl⟩, h.keepHolder (by rw [hplace]; nofun) nofun ⟨nofun, nofun⟩
      (fun u hu => ?_) ?_ ?_ fun u hu => ?_⟩
    · rw [h.alone (t := t) (by rw [hplace]; rfl) hu]
      exact ⟨nofun, nofun⟩
    · refine hperm.nodup_iff.mpr (List.nodup_cons.mpr ⟨fun hmem => ?_, h.nodup⟩)
      rw [h.waiting, hplace] at hmem
      cases hmem
    · exact ⟨fun _ => rfl, fun _ => hperm.mem_iff.mpr List.mem_cons_self⟩
    · rw [hperm.mem_iff, List.mem_cons, or_iff_right hu]
  | notify choice => exact ⟨_, _, rfl, h.condition (CondVar.inside_notify he)⟩
  | notifyAll => exact ⟨_, _, rfl, h.condition (CondVar.inside_notifyAll _)⟩
  | wake t => exact ⟨_, _, rfl, h.condition (CondVar.inside_wake he)⟩
  | regain t =>
    obtain ⟨hwoken, hfree⟩ := he
    have hperm := CondVar.inside_resume h.nodup hwoken
    obtain ⟨hgone, hnodup⟩ := List.nodup_cons.mp (hperm.nodup_iff.mp h.nodup)
    have hplace : s.place t = .waiting := (h.waiting t).mp (hperm.mem_iff.mpr List.mem_cons_self)
    refine ⟨_, _, rfl, h.keepHolder (by rw [hplace]; nofun) nofun ⟨fun _ => rfl, fun _ => rfl⟩ (fun u hu => ?_) hnodup
      (iff_of_false hgone nofun) fun u hu => ?_⟩
    · rw [h.free hfree]
      exact ⟨fun heq => absurd (Option.some.inj heq).symm hu, nofun⟩
    · rw [hperm.mem_iff, List.mem_cons, or_iff_right hu]
  | destroy =>
    have hmutex : s.mutex_ = none := by
      cases hm : s.mutex_ with
      | none => rfl
      | some t =>
        have howns := (h.mutex t).mp hm
        rw [he t] at howns
        cases howns
    have hholder : s.holder_ = 0 := by
      by_contra hne
      obtain ⟨t, ht⟩ := h.nobody hne
      have hin := (h.holder t).mp ht
      rw [he t] at hin
      cases hin
    exact ⟨s, [], by simp only [step, assert_bind, if_pos hholder, if_pos hmutex], h⟩

theorem inv_run {as : List (Action τ)} {obs : List Unit} (h : (machine ids).Run (create τ) as obs s) : Inv ids s := by
  refine h.invariant (fun _ s => Inv ids s) create_inv ?_
  intro _ s a s' o hI he hs
  obtain ⟨s₁, o₁, hs₁, hI'⟩ := inv_step hI he
  obtain ⟨rfl, rfl⟩ := Prod.mk.inj (Option.some.inj (hs.symm.trans hs₁))
  exact hI'

/-- **A thread that asks whether it has the mutex is told the truth.** At every moment of every
run, whatever the other threads are doing, `isLockedByThisThread` answers a thread that it has
the mutex exactly between the end of its `lock` and the beginning of its `unlock`, the times
inside `wait` excepted; at most one thread is in possession of the mutex; and no call fails its
check, nor the destructor its assertion. -/
theorem isLockedByThisThread_exact {as : List (Action τ)} {obs : List Unit}
    (h : (machine ids).Run (create τ) as obs s) :
    (∀ t, s.isLockedByThisThread ids t = true ↔ s.place t = .inside) ∧
      (∀ t u, (s.place t).owns = true → (s.place u).owns = true → t = u) ∧
      ∀ a, Enabled s a → (step ids s a).isSome := by
  have hI := inv_run h
  refine ⟨fun t => decide_eq_true_iff.trans (hI.holder t), fun t u ht hu => ?_, fun a he => ?_⟩
  · exact Option.some.inj (((hI.mutex t).mpr ht).symm.trans ((hI.mutex u).mpr hu))
  · obtain ⟨s', o, hs', _⟩ := inv_step hI he
    rw [hs']
    rfl

/-- Two threads, the first of which waits until the second notifies it. -/
def waitAndNotify : List (Action (Fin 2)) :=
  [.lock 0, .acquire 0, .assignHolder 0, .lock 1, .wait 0, .block 0, .acquire 1, .assignHolder 1, .notify (some 0)]

def twoTids : Tids (Fin 2) where
  tid := fun t => t.val + 1
  pos := fun _ => Nat.succ_pos _
  inj := fun _ _ h => Fin.ext (Nat.succ.inj h)

theorem isLockedByThisThread_exact_waitAndNotify :
    ∃ obs s, (machine twoTids).Run (create (Fin 2)) waitAndNotify obs s ∧ s.holder_ = 2 ∧ s.place 0 = .waiting ∧
      (s.isLockedByThisThread twoTids 1 = true ↔ s.place 1 = .inside) := by
  obtain ⟨obs, s, hrun, hp⟩ :
      ∃ obs s, (machine twoTids).Run (create (Fin 2)) waitAndNotify obs s ∧ s.holder_ = 2 ∧ s.place 0 = .waiting :=
    Machine.Run.exists_of_trace (by decide +kernel)
  exact ⟨obs, s, hrun, hp.1, hp.2, (isLockedByThisThread_exact hrun).1 1⟩

end MutexLock
end Chtho.Threads
