import Mathlib.Logic.Function.Basic
import Mathlib.Tactic.Common

/-! Memory as cells at addresses, with a record of the addresses that were written.

Writes go wherever they are told to: whether they stayed inside an object is read off
the record. `Changed m m' lo hi` sums up a program that takes `m` to `m'`: what it
wrote, it wrote in `[lo, hi)`. -/
namespace Chtho.Lib

structure Memory (β : Type) where
  cell : Nat → β
  /-- The addresses written, in order. -/
  written : List Nat

namespace Memory
variable {β : Type}

def put (m : Memory β) (a : Nat) (b : β) : Memory β :=
  ⟨Function.update m.cell a b, m.written ++ [a]⟩

/-- `memcpy` to `a`. -/
def store (m : Memory β) (a : Nat) : List β → Memory β
  | [] => m
  | b :: bs => (m.put a b).store (a + 1) bs

/-- `memset` of `n` cells from `a` on. -/
def fill (m : Memory β) (a n : Nat) (b : β) : Memory β :=
  ⟨fun k => if a ≤ k ∧ k < a + n then b else m.cell k, m.written ++ List.range' a n⟩

/-- The `n` cells from `a` on. -/
def load (m : Memory β) (a : Nat) : Nat → List β
  | 0 => []
  | n + 1 => m.cell a :: m.load (a + 1) n

/-- `std::reverse` between two addresses. -/
def reverse (m : Memory β) (first last : Nat) : Memory β :=
  m.store first (m.load first (last - first)).reverse

/-! ### Reading and writing -/

theorem load_add (m : Memory β) (a n k : Nat) : m.load a (n + k) = m.load a n ++ m.load (a + n) k := by
  induction n generalizing a with
  | zero => simp [load]
  | succ n ih =>
    rw [Nat.add_right_comm, load, ih]
    simp [load, Nat.add_assoc, Nat.add_comm 1 n]

theorem length_load (m : Memory β) (a n : Nat) : (m.load a n).length = n := by
  induction n generalizing a with
  | zero => rfl
  | succ n ih => rw [load, List.length_cons, ih]

/-- What is read agrees when the cells do. -/
theorem load_congr {m m' : Memory β} {a n : Nat} (h : ∀ k, a ≤ k → k < a + n → m'.cell k = m.cell k) :
    m'.load a n = m.load a n := by
  induction n generalizing a with
  | zero => rfl
  | succ n ih =>
    rw [load, load, h a (Nat.le_refl a) (by omega), ih fun k hlo hhi => h k (by omega) (by omega)]

theorem store_append (m : Memory β) (a : Nat) (bs cs : List β) :
    m.store a (bs ++ cs) = (m.store a bs).store (a + bs.length) cs := by
  induction bs generalizing m a with
  | nil => rfl
  | cons b bs ih => simp [store, ih, Nat.add_assoc, Nat.add_comm 1]

/-- A write right behind a stored list extends it. -/
theorem put_store (m : Memory β) {a k : Nat} {bs : List β} (b : β) (h : k = a + bs.length) :
    (m.store a bs).put k b = m.store a (bs ++ [b]) := by
  subst h
  exact (store_append m a bs [b]).symm

theorem cell_store_of_lt (m : Memory β) {a k : Nat} (bs : List β) (h : k < a) :
    (m.store a bs).cell k = m.cell k := by
  induction bs generalizing m a with
  | nil => rfl
  | cons b bs ih =>
    rw [store, ih _ (by omega)]
    exact Function.update_of_ne (by omega) ..

theorem cell_store_of_ge (m : Memory β) {a k : Nat} (bs : List β) (h : a + bs.length ≤ k) :
    (m.store a bs).cell k = m.cell k := by
  induction bs generalizing m a with
  | nil => rfl
  | cons b bs ih =>
    rw [List.length_cons] at h
    rw [store, ih _ (by omega)]
    exact Function.update_of_ne (by omega) ..

theorem load_store (m : Memory β) (a : Nat) (bs : List β) : (m.store a bs).load a bs.length = bs := by
  induction bs generalizing m a with
  | nil => rfl
  | cons b bs ih =>
    rw [List.length_cons, load, store, ih, cell_store_of_lt _ _ (Nat.lt_succ_self a)]
    exact congrArg (· :: bs) (Function.update_self ..)

theorem written_store (m : Memory β) (a : Nat) (bs : List β) :
    (m.store a bs).written = m.written ++ List.range' a bs.length := by
  induction bs generalizing m a with
  | nil => simp [store]
  | cons b bs ih => simp [store, ih, put, List.range'_succ]

/-! ### What a program changed -/

structure Changed (m m' : Memory β) (lo hi : Nat) : Prop where
  frame : ∀ k, k < lo → m'.cell k = m.cell k
  kept : m.written ⊆ m'.written
  inside : ∀ k ∈ m'.written, k ∈ m.written ∨ lo ≤ k ∧ k < hi

theorem Changed.trans {m₁ m₂ m₃ : Memory β} {lo hi : Nat} (h₁ : m₁.Changed m₂ lo hi)
    (h₂ : m₂.Changed m₃ lo hi) : m₁.Changed m₃ lo hi where
  frame := fun k hk => (h₂.frame k hk).trans (h₁.frame k hk)
  kept := List.Subset.trans h₁.kept h₂.kept
  inside := fun k hk => (h₂.inside k hk).elim (h₁.inside k) .inr

theorem Changed.load {m m' : Memory β} {lo hi a n : Nat} (h : m.Changed m' lo hi) (hn : a + n ≤ lo) :
    m'.load a n = m.load a n :=
  load_congr fun k _ hk => h.frame k (by omega)

theorem changed_store (m : Memory β) {a hi : Nat} (bs : List β) (h : a + bs.length ≤ hi) :
    m.Changed (m.store a bs) a hi where
  frame := fun _ hk => cell_store_of_lt m bs hk
  kept := by simp [written_store]
  inside := by
    intro k hk
    rw [written_store, List.mem_append, List.mem_range'_1] at hk
    exact hk.imp_right fun ⟨hlo, hhi⟩ => ⟨hlo, by omega⟩

end Memory
end Chtho.Lib
