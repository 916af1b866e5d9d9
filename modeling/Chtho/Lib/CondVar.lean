import Mathlib.Data.List.Basic
import Mathlib.Data.List.Nodup
import Mathlib.Tactic.Common

/-! Condition variables, for threads of any type.

A thread that waits is woken by a notification, if it is chosen, or for no reason. In
either case it has to take the mutex before it goes on, and it may be late: other threads can come
first, so it must look again at what it waited for. `inside` are all threads that called
`wait` and have not returned from it. -/
namespace Chtho.Lib

structure CondVar (ι : Type) where
  waiting : List ι
  /-- Chosen by a notification, and without the mutex yet. -/
  notified : List ι
  /-- Woken for no reason, and without the mutex yet. -/
  woken : List ι
deriving DecidableEq, Repr

namespace CondVar
variable {ι : Type}

def empty : CondVar ι := ⟨[], [], []⟩

def wait (c : CondVar ι) (i : ι) : CondVar ι := {c with waiting := c.waiting ++ [i]}

def notifyAll (c : CondVar ι) : CondVar ι := {c with waiting := [], notified := c.notified ++ c.waiting}

def inside (c : CondVar ι) : List ι := c.waiting ++ c.notified ++ c.woken

theorem inside_notifyAll (c : CondVar ι) : c.notifyAll.inside.Perm c.inside := by
  simp only [inside, notifyAll, List.nil_append]
  exact List.perm_append_comm.append_right _

variable [DecidableEq ι]

/-- A notification reaches one that waits, if there is one. -/
def Chooses (c : CondVar ι) : Option ι → Prop
  | none => c.waiting = []
  | some i => i ∈ c.waiting

instance (c : CondVar ι) (choice : Option ι) : Decidable (c.Chooses choice) :=
  match choice with
  | none => inferInstanceAs (Decidable (c.waiting = []))
  | some i => inferInstanceAs (Decidable (i ∈ c.waiting))

def notify (c : CondVar ι) : Option ι → CondVar ι
  | none => c
  | some i => {c with waiting := c.waiting.erase i, notified := c.notified ++ [i]}

/-- A wake-up for no reason. -/
def wake (c : CondVar ι) (i : ι) : CondVar ι := {c with waiting := c.waiting.erase i, woken := c.woken ++ [i]}

/-- The thread has the mutex again. -/
def resume (c : CondVar ι) (i : ι) : CondVar ι :=
  {c with notified := c.notified.erase i, woken := c.woken.erase i}

/-! ### Who is inside -/

theorem inside_wait (c : CondVar ι) (i : ι) : (c.wait i).inside.Perm (i :: c.inside) := by
  rw [List.perm_iff_count]
  intro j
  simp only [inside, wait, List.count_append, List.count_cons, List.count_nil]
  omega

theorem inside_notify {c : CondVar ι} {choice : Option ι} (h : c.Chooses choice) :
    (c.notify choice).inside.Perm c.inside := by
  cases choice with
  | none => exact .rfl
  | some i =>
    have hpos := List.count_pos_iff.mpr h
    rw [List.perm_iff_count]
    intro j
    simp only [inside, notify, List.count_append, List.count_erase, List.count_cons, List.count_nil]
    split
    case isTrue heq =>
      obtain rfl := eq_of_beq heq
      omega
    case isFalse => omega

theorem inside_wake {c : CondVar ι} {i : ι} (h : i ∈ c.waiting) : (c.wake i).inside.Perm c.inside := by
  have hpos := List.count_pos_iff.mpr h
  rw [List.perm_iff_count]
  intro j
  simp only [inside, wake, List.count_append, List.count_erase, List.count_cons, List.count_nil]
  split
  case isTrue heq =>
    obtain rfl := eq_of_beq heq
    omega
  case isFalse => omega

/-- A thread that was woken leaves, and it was inside once. -/
theorem inside_resume {c : CondVar ι} (hnodup : c.inside.Nodup) {i : ι} (h : i ∈ c.notified ∨ i ∈ c.woken) :
    c.inside.Perm (i :: (c.resume i).inside) := by
  rw [List.nodup_iff_count_le_one] at hnodup
  have honce := hnodup i
  rw [← List.count_pos_iff, ← List.count_pos_iff] at h
  rw [List.perm_iff_count]
  intro j
  simp only [inside, resume, List.count_append, List.count_erase, List.count_cons] at honce ⊢
  split
  case isTrue heq =>
    obtain rfl := eq_of_beq heq
    omega
  case isFalse => omega

end CondVar
end Chtho.Lib
