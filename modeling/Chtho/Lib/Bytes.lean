import Mathlib.Algebra.Group.Int.Defs
import Mathlib.Algebra.Group.Nat.Defs
import Mathlib.Data.List.Basic
import Mathlib.Data.List.TakeWhile
import Mathlib.Order.Lattice

/-! Bytes in their order, and texts as bytes. -/
namespace Chtho.Lib

abbrev Bytes := List UInt8

instance uint8LinearOrder : LinearOrder UInt8 where
  le_refl := UInt8.le_refl
  le_trans := fun _ _ _ => UInt8.le_trans
  lt_iff_le_not_ge := fun _ _ => by rw [UInt8.not_le]; exact ⟨fun h => ⟨UInt8.le_of_lt h, h⟩, And.right⟩
  le_antisymm := fun _ _ => UInt8.le_antisymm
  le_total := UInt8.le_total
  toDecidableLE := inferInstance
  toDecidableLT := inferInstance
  toDecidableEq := inferInstance

/-- The byte of a character literal. -/
def chr (c : Char) : UInt8 := UInt8.ofNat c.toNat

/-- The bytes of a string literal. -/
def ascii (s : String) : Bytes := s.toList.map chr

/-- The decimal digits of a number, most significant first. -/
def decimalDigits (n : Nat) : Bytes := (Nat.toDigits 10 n).map chr

/-- The canonical decimal text of an integer. -/
def decimal (v : Int) : Bytes := (if v < 0 then [chr '-'] else []) ++ decimalDigits v.natAbs

theorem decimal_natCast (n : Nat) : decimal n = decimalDigits n := by
  rw [decimal, if_neg (Int.not_lt.mpr (Int.natCast_nonneg n)), Int.natAbs_natCast]
  rfl

/-- The same filled up with zeros behind the sign, as by `%0*ld`. -/
def decimalPadded (width : Nat) (v : Int) : Bytes :=
  let digits := decimalDigits v.natAbs
  let sign := if v < 0 then [chr '-'] else []
  sign ++ List.replicate (width - sign.length - digits.length) (chr '0') ++ digits

/-- The same filled up with blanks, as by `%*ld`. -/
def decimalSpaced (width : Nat) (v : Int) : Bytes :=
  List.replicate (width - (decimal v).length) (chr ' ') ++ decimal v

/-- The string that `snprintf` leaves of a text in an array of `size` bytes. -/
def snprintf (size : Nat) (text : Bytes) : Bytes := text.take (size - 1)

theorem snprintf_eq {size : Nat} {text : Bytes} (h : text.length < size) : snprintf size text = text :=
  List.take_of_length_le (Nat.le_sub_one_of_lt h)

theorem length_snprintf_lt {size : Nat} (hsize : 0 < size) (text : Bytes) : (snprintf size text).length < size := by
  rw [snprintf, List.length_take]
  omega

theorem chr_ofNat_of_isDigit {c : Char} (h : c.isDigit = true) : Char.ofNat (chr c).toNat = c := by
  have hlt : c.toNat < 256 := by
    simp only [Char.isDigit, Bool.and_eq_true, decide_eq_true_eq] at h
    have := UInt32.le_iff_toNat_le.mp h.2
    exact Nat.lt_of_le_of_lt this (by decide)
  rw [chr, UInt8.toNat_ofNat_of_lt' hlt, Char.ofNat_toNat]

theorem length_decimalDigits_le {n k : Nat} (hk : 0 < k) : (decimalDigits n).length ≤ k ↔ n < 10 ^ k := by
  rw [decimalDigits, List.length_map]
  exact Nat.length_toDigits_le_iff (by decide) hk

/-- The characters of a text of bytes. -/
def chars (s : Bytes) : List Char := s.map fun b => Char.ofNat b.toNat

/-- The number whose decimal digits these are. -/
def readDecimal (s : Bytes) : Option Nat :=
  if s ≠ [] ∧ (chars s).all Char.isDigit then some (Nat.ofDigitChars 10 (chars s) 0) else none

theorem chars_decimalDigits (n : Nat) : chars (decimalDigits n) = Nat.toDigits 10 n := by
  rw [chars, decimalDigits, List.map_map]
  refine (List.map_congr_left fun c hc => ?_).trans (List.map_id _)
  exact chr_ofNat_of_isDigit (Nat.isDigit_of_mem_toDigits (by decide) (by decide) hc)

/-- A number can be read back from its decimal digits. -/
theorem readDecimal_decimalDigits (n : Nat) : readDecimal (decimalDigits n) = some n := by
  have hne : decimalDigits n ≠ [] := by
    rw [decimalDigits, ne_eq, List.map_eq_nil_iff]
    exact Nat.toDigits_ne_nil
  have hdigits : (Nat.toDigits 10 n).all Char.isDigit = true := by
    rw [List.all_eq_true]
    exact fun c hc => Nat.isDigit_of_mem_toDigits (by decide) (by decide) hc
  rw [readDecimal, chars_decimalDigits, if_pos ⟨hne, hdigits⟩, Nat.ofDigitChars_ten_toDigits]

theorem decimalDigits_injective {m n : Nat} (h : decimalDigits m = decimalDigits n) : m = n := by
  have hread := readDecimal_decimalDigits m
  rw [h, readDecimal_decimalDigits] at hread
  exact (Option.some.inj hread).symm

/-- Nothing but digits is in a decimal text. -/
theorem notMem_decimalDigits {c : UInt8} (h : (Char.ofNat c.toNat).isDigit = false) (n : Nat) :
    c ∉ decimalDigits n := by
  intro hmem
  have hchar : Char.ofNat c.toNat ∈ Nat.toDigits 10 n := by
    rw [← chars_decimalDigits]
    exact List.mem_map_of_mem hmem
  rw [Nat.isDigit_of_mem_toDigits (by decide) (by decide) hchar] at h
  cases h

/-! ### Texts without a byte -/

section
variable {c : UInt8} (hdigit : (Char.ofNat c.toNat).isDigit = false) (hminus : c ≠ chr '-')
include hdigit hminus

theorem notMem_decimal (v : Int) : c ∉ decimal v := by
  have hdigits := notMem_decimalDigits hdigit v.natAbs
  unfold decimal
  split
  all_goals simp [hdigits, hminus]

theorem notMem_decimalPadded (width : Nat) (v : Int) : c ∉ decimalPadded width v := by
  have hdigits := notMem_decimalDigits hdigit v.natAbs
  have hzero : c ≠ chr '0' := by
    rintro rfl
    exact absurd hdigit (by decide)
  unfold decimalPadded
  split
  all_goals simp [List.mem_replicate, hdigits, hzero, hminus]

theorem notMem_decimalSpaced (hblank : c ≠ chr ' ') (width : Nat) (v : Int) : c ∉ decimalSpaced width v := by
  simp [decimalSpaced, List.mem_replicate, hblank, notMem_decimal hdigit hminus]

end

theorem notMem_snprintf {c : UInt8} {size : Nat} {text : Bytes} (h : c ∉ text) : c ∉ snprintf size text :=
  fun hmem => h (List.mem_of_mem_take hmem)

theorem zero_notMem_decimalPadded (width : Nat) (v : Int) : 0 ∉ decimalPadded width v :=
  notMem_decimalPadded (by decide) (by decide) width v

theorem zero_notMem_decimalSpaced (width : Nat) (v : Int) : 0 ∉ decimalSpaced width v :=
  notMem_decimalSpaced (by decide) (by decide) (by decide) width v

theorem zero_notMem_snprintf {size : Nat} {text : Bytes} (h : 0 ∉ text) : 0 ∉ snprintf size text := notMem_snprintf h

/-- A C string is the whole text. -/
theorem takeWhile_ne_zero {text : Bytes} (h : 0 ∉ text) : text.takeWhile (· ≠ 0) = text := by
  rw [List.takeWhile_eq_self_iff]
  exact fun c hc => decide_eq_true fun heq => h (heq ▸ hc)

end Chtho.Lib
