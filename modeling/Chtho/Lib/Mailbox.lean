import Mathlib.Data.List.Basic
import Mathlib.Tactic.Common

/-! A queue drained in batches.

Senders post at the back of `pending`; the receiver takes everything that is pending
in one go and then works through it, while further posts gather behind. What waits
is the rest of the batch and then what is pending: a post adds at its back, taking
the batch changes nothing, and the receiver's next item is its front. -/
namespace Chtho.Lib

structure Mailbox (φ : Type) where
  pending : List φ
  batch : List φ
deriving DecidableEq, Repr

namespace Mailbox
variable {φ : Type}

def empty : Mailbox φ := ⟨[], []⟩

def post (m : Mailbox φ) (f : φ) : Mailbox φ := {m with pending := m.pending ++ [f]}

def postAll (m : Mailbox φ) (fs : List φ) : Mailbox φ := {m with pending := m.pending ++ fs}

/-- Everything pending becomes the batch. -/
def swap (m : Mailbox φ) : Mailbox φ := ⟨[], m.pending⟩

/-- The next item of the batch. -/
def next (m : Mailbox φ) : Option (φ × Mailbox φ) :=
  match m.batch with
  | [] => none
  | f :: rest => some (f, {m with batch := rest})

/-- What is still to be worked on, in order. -/
def waiting (m : Mailbox φ) : List φ := m.batch ++ m.pending

@[simp] theorem waiting_empty : (empty : Mailbox φ).waiting = [] := rfl

@[simp] theorem waiting_post (m : Mailbox φ) (f : φ) : (m.post f).waiting = m.waiting ++ [f] :=
  (List.append_assoc _ _ _).symm

@[simp] theorem waiting_postAll (m : Mailbox φ) (fs : List φ) : (m.postAll fs).waiting = m.waiting ++ fs :=
  (List.append_assoc _ _ _).symm

theorem waiting_swap {m : Mailbox φ} (h : m.batch = []) : m.swap.waiting = m.waiting := by
  simp [waiting, swap, h]

theorem next_of_batch {m : Mailbox φ} {f : φ} {rest : List φ} (h : m.batch = f :: rest) :
    m.next = some (f, {m with batch := rest}) := by rw [next, h]

theorem exists_next {m : Mailbox φ} (h : m.batch ≠ []) : ∃ f m', m.next = some (f, m') := by
  obtain ⟨f, rest, hbatch⟩ := List.exists_cons_of_ne_nil h
  exact ⟨f, _, next_of_batch hbatch⟩

theorem next_eq_some {m m' : Mailbox φ} {f : φ} (h : m.next = some (f, m')) :
    m.batch = f :: m'.batch ∧ m'.pending = m.pending := by
  unfold next at h
  split at h
  · cases h
  case h_2 rest hb =>
    obtain ⟨rfl, rfl⟩ := Prod.mk.inj (Option.some.inj h)
    exact ⟨hb, rfl⟩

theorem waiting_next {m m' : Mailbox φ} {f : φ} (h : m.next = some (f, m')) :
    m.waiting = f :: m'.waiting := by
  obtain ⟨hb, hp⟩ := next_eq_some h
  simp [waiting, hb, hp]

end Mailbox
end Chtho.Lib
