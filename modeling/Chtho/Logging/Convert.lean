import Chtho.Lib.Bytes
import Chtho.Lib.Memory

/-! `convert`: an integer as decimal text, written to memory.

The digits are written from the least significant on, then the sign, then a NUL, and
the text is reversed in place. Division and remainder truncate, so the digits of a
negative number come out negative, which is what the mirrored table `digits` is for.
Nothing in the loop can overflow, whatever the type, so values are integers. -/
namespace Chtho.Logging
open Lib

/-- The integral types, by size and sign. -/
inductive IntType where
  | int8
  | uint8
  | int16
  | uint16
  | int32
  | uint32
  | int64
  | uint64
deriving DecidableEq, Repr

namespace IntType

def sizeof : IntType → Nat
  | .int8 | .uint8 => 1
  | .int16 | .uint16 => 2
  | .int32 | .uint32 => 4
  | .int64 | .uint64 => 8

def signed : IntType → Bool
  | .int8 | .int16 | .int32 | .int64 => true
  | .uint8 | .uint16 | .uint32 | .uint64 => false

def min (t : IntType) : Int := if t.signed then -2 ^ (8 * t.sizeof - 1) else 0

def max (t : IntType) : Int := if t.signed then 2 ^ (8 * t.sizeof - 1) - 1 else 2 ^ (8 * t.sizeof) - 1

end IntType

/-- A value of an integral type. -/
structure Integer where
  type : IntType
  value : Int
  lower : type.min ≤ value
  upper : value ≤ type.max
deriving DecidableEq, Repr

/-- An `int`. -/
def Integer.ofInt32 (v : Int32) : Integer :=
  ⟨.int32, v.toInt, v.le_toInt, Int.le_of_lt_add_one v.toInt_lt⟩

def digits : Bytes := ascii "9876543210123456789"

/-- `pzo[lsd]`: `pzo` points to the zero in the middle of `digits`. -/
def pzo (lsd : Int) : UInt8 := digits.getD (9 + lsd).toNat 0

/-- The loop of `convert` with its two variables, the pointer and what is left. -/
def convertLoop (m : Memory UInt8) (p : Nat) (i : Int) : Memory UInt8 × Nat :=
  let lsd := i.tmod 10
  let m := m.put p (pzo lsd)
  if i.tdiv 10 ≠ 0 then convertLoop m (p + 1) (i.tdiv 10) else (m, p + 1)
termination_by i.natAbs
decreasing_by
  rw [Int.natAbs_tdiv]
  have hne : i.natAbs ≠ 0 := by
    rintro h0
    simp_all
  exact Nat.div_lt_self (Nat.pos_of_ne_zero hne) (by decide)

/-- The memory after `convert(buf, value)`, and the length it returns. -/
def convert (m : Memory UInt8) (buf : Nat) (value : Int) : Memory UInt8 × Nat :=
  let (m, p) := convertLoop m buf value
  let (m, p) := if value < 0 then (m.put p (chr '-'), p + 1) else (m, p)
  let m := m.put p 0
  (m.reverse buf p, p - buf)

/-! ### The text written -/

/-- Both halves of the table give the digit of the absolute value. -/
theorem pzo_eq {lsd : Int} (h : lsd.natAbs < 10) : pzo lsd = chr (Nat.digitChar lsd.natAbs) := by
  have htable : ∀ k : Fin 19, pzo ((k.val : Int) - 9) = chr (Nat.digitChar ((k.val : Int) - 9).natAbs) := by
    decide
  have hk := htable ⟨(lsd + 9).toNat, by omega⟩
  rwa [Int.toNat_of_nonneg (by omega), Int.add_sub_cancel] at hk

/-- The digit that one turn of the loop writes. -/
theorem pzo_tmod (i : Int) : pzo (i.tmod 10) = chr (Nat.digitChar (i.natAbs % 10)) := by
  have habs : (i.tmod 10).natAbs = i.natAbs % 10 := Int.natAbs_tmod i 10
  rw [pzo_eq (by omega), habs]

theorem decimalDigits_of_lt {n : Nat} (h : n < 10) : decimalDigits n = [chr (Nat.digitChar n)] := by
  rw [decimalDigits, Nat.toDigits_of_lt_base h]
  rfl

theorem decimalDigits_of_le {n : Nat} (h : 10 ≤ n) :
    decimalDigits n = decimalDigits (n / 10) ++ [chr (Nat.digitChar (n % 10))] := by
  rw [decimalDigits, Nat.toDigits_of_base_le (by decide) h, List.map_append]
  rfl

/-- The loop writes the digits backwards. -/
theorem convertLoop_eq (m : Memory UInt8) (p : Nat) (i : Int) :
    convertLoop m p i =
      (m.store p (decimalDigits i.natAbs).reverse, p + (decimalDigits i.natAbs).length) := by
  fun_induction convertLoop m p i with
  | case1 m p i lsd m' hne ih =>
    have hrest : (i.tdiv 10).natAbs = i.natAbs / 10 := Int.natAbs_tdiv i 10
    rw [ih, hrest, decimalDigits_of_le (by omega : 10 ≤ i.natAbs), List.reverse_append]
    simp only [m', lsd, pzo_tmod, List.length_append, List.length_singleton, Nat.add_assoc, Nat.add_comm 1]
    rfl
  | case2 m p i lsd m' hne =>
    have hrest : (i.tdiv 10).natAbs = i.natAbs / 10 := Int.natAbs_tdiv i 10
    have hlt : i.natAbs < 10 := by omega
    rw [decimalDigits_of_lt hlt]
    simp only [m', lsd, pzo_tmod, Nat.mod_eq_of_lt hlt]
    rfl

/-- Before the reversal the memory holds the text backwards, and the NUL. -/
theorem convert_eq (m : Memory UInt8) (buf : Nat) (v : Int) :
    convert m buf v =
      ((m.store buf ((decimal v).reverse ++ [0])).reverse buf (buf + (decimal v).length), (decimal v).length) := by
  unfold convert decimal
  rw [convertLoop_eq]
  by_cases hneg : v < 0
  · simp only [if_pos hneg, List.reverse_append, List.length_append, List.length_singleton]
    rw [Memory.put_store _ _ (by simp), Memory.put_store _ _ (by simp; omega), Nat.add_comm 1,
      ← Nat.add_assoc, Nat.add_assoc buf, Nat.add_sub_cancel_left]
    rfl
  · simp only [if_neg hneg, List.nil_append]
    rw [Memory.put_store _ _ (by simp), Nat.add_sub_cancel_left]

/-- **`convert`.** It writes the decimal text and a NUL behind it, returns the length of
the text, and writes nothing else. -/
theorem convert_spec (m : Memory UInt8) (buf : Nat) (v : Int) :
    (convert m buf v).2 = (decimal v).length ∧
      (convert m buf v).1.load buf (decimal v).length = decimal v ∧
      buf + (decimal v).length ∈ (convert m buf v).1.written ∧
      m.Changed (convert m buf v).1 buf (buf + (decimal v).length + 1) := by
  have hlen : (decimal v).reverse.length = (decimal v).length := List.length_reverse
  have hload : (m.store buf ((decimal v).reverse ++ [0])).load buf (decimal v).length = (decimal v).reverse := by
    rw [Memory.store_append, Memory.Changed.load (Memory.changed_store _ [0] (Nat.le_refl _)) (by simp), ← hlen,
      Memory.load_store]
  have hfirst : m.Changed (m.store buf ((decimal v).reverse ++ [0])) buf (buf + (decimal v).length + 1) :=
    Memory.changed_store _ _ (by simp; omega)
  have hsecond := Memory.changed_store (m.store buf ((decimal v).reverse ++ [0])) (decimal v)
    (Nat.le_succ (buf + (decimal v).length))
  have heq : convert m buf v =
      ((m.store buf ((decimal v).reverse ++ [0])).store buf (decimal v), (decimal v).length) := by
    rw [convert_eq, Memory.reverse, Nat.add_sub_cancel_left, hload, List.reverse_reverse]
  rw [heq]
  refine ⟨rfl, Memory.load_store _ _ _, hsecond.kept ?_, hfirst.trans hsecond⟩
  rw [Memory.written_store, List.mem_append, List.mem_range'_1]
  exact .inr ⟨by omega, by simp⟩

end Chtho.Logging
