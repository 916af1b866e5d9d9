import Chtho.Lib.Machine
import Chtho.Logging.Convert

/-! `convert` on a value of its type, and the text it leaves.

The quotient of a value of an integral type is a value of that type (`Integer.quotient`), the
minimum included: only a division by -1 could leave the range. Here an index outside the table
has no result, and there always is one (`convertOf_eq`), since a truncated remainder lies
between -9 and 9. The text is the canonical one: what it is made of is said of its bytes
(`Canonical`), and it can be read back. -/
namespace Chtho.Logging
open Lib

/-! ### The loop on values of a type -/

theorem IntType.min_nonpos (t : IntType) : t.min ≤ 0 := by
  cases t <;> decide

theorem IntType.max_nonneg (t : IntType) : 0 ≤ t.max := by
  cases t <;> decide

/-- `i /= 10` -/
def Integer.quotient (i : Integer) : Integer where
  type := i.type
  value := i.value.tdiv 10
  lower := by
    have hmin := i.type.min_nonpos
    have hlower := i.lower
    have habs : (i.value.tdiv 10).natAbs = i.value.natAbs / 10 := Int.natAbs_tdiv i.value 10
    have hsign : 0 ≤ i.value → 0 ≤ i.value.tdiv 10 := fun h => Int.tdiv_nonneg h (by decide)
    omega
  upper := by
    have hmax := i.type.max_nonneg
    have hupper := i.upper
    have habs : (i.value.tdiv 10).natAbs = i.value.natAbs / 10 := Int.natAbs_tdiv i.value 10
    have hsign : i.value ≤ 0 → i.value.tdiv 10 ≤ 0 := by
      intro h
      have hneg : 0 ≤ (-i.value).tdiv 10 := Int.tdiv_nonneg (by omega) (by decide)
      rw [Int.neg_tdiv] at hneg
      omega
    omega

/-- `pzo[lsd]`, if the table has it. -/
def pzoAt (lsd : Int) : Option UInt8 := do
  assert (0 ≤ 9 + lsd)
  digits[(9 + lsd).toNat]?

def convertLoopOf (m : Memory UInt8) (p : Nat) (i : Integer) : Option (Memory UInt8 × Nat) := do
  let lsd := i.value.tmod 10
  let digit ← pzoAt lsd
  let m := m.put p digit
  if i.quotient.value ≠ 0 then convertLoopOf m (p + 1) i.quotient else some (m, p + 1)
termination_by i.value.natAbs
decreasing_by
  have habs : i.quotient.value.natAbs = i.value.natAbs / 10 := Int.natAbs_tdiv i.value 10
  omega

def convertOf (m : Memory UInt8) (buf : Nat) (value : Integer) : Option (Memory UInt8 × Nat) := do
  let (m, p) ← convertLoopOf m buf value
  let (m, p) := if value.value < 0 then (m.put p (chr '-'), p + 1) else (m, p)
  let m := m.put p 0
  some (m.reverse buf p, p - buf)

/-- A remainder is an index of one of the nineteen entries. -/
theorem pzoAt_tmod (i : Int) : pzoAt (i.tmod 10) = some (pzo (i.tmod 10)) := by
  have habs : (i.tmod 10).natAbs = i.natAbs % 10 := Int.natAbs_tmod i 10
  have hlow : 0 ≤ 9 + i.tmod 10 := by omega
  have hindex : (9 + i.tmod 10).toNat < digits.length := by
    have hlength : digits.length = 19 := by decide
    omega
  rw [pzoAt, assert_bind, if_pos hlow, pzo, List.getD_eq_getElem?_getD, List.getElem?_eq_getElem hindex]
  rfl

theorem convertLoopOf_eq (m : Memory UInt8) (p : Nat) (i : Integer) :
    convertLoopOf m p i = some (convertLoop m p i.value) := by
  induction hn : i.value.natAbs using Nat.strong_induction_on generalizing m p i with
  | _ n ih =>
    rw [convertLoopOf, convertLoop, pzoAt_tmod]
    simp only [Option.bind_eq_bind, Option.bind_some]
    by_cases hmore : i.value.tdiv 10 ≠ 0
    · have habs : i.quotient.value.natAbs = i.value.natAbs / 10 := Int.natAbs_tdiv i.value 10
      have hquotient : i.quotient.value = i.value.tdiv 10 := rfl
      rw [if_pos hmore, if_pos (hquotient ▸ hmore)]
      exact ih _ (by omega) _ _ _ rfl
    · rw [if_neg hmore]
      exact if_neg hmore

/-- No index is outside, whatever the type and the value. -/
theorem convertOf_eq (m : Memory UInt8) (buf : Nat) (value : Integer) :
    convertOf m buf value = some (convert m buf value.value) := by
  rw [convertOf, convertLoopOf_eq]
  rfl

/-! ### The text -/

/-- Digits behind a minus sign or none, and no zero in front of others. -/
def Canonical (v : Int) (text : Bytes) : Prop :=
  ∃ ds, text = (if v < 0 then [chr '-'] else []) ++ ds ∧ ds ≠ [] ∧
    (∀ c ∈ ds, chr '0' ≤ c ∧ c ≤ chr '9') ∧ (ds.head? = some (chr '0') → v = 0 ∧ ds = [chr '0'])

/-- The integer a text stands for. -/
def readInteger (text : Bytes) : Option Int :=
  if text.head? = some (chr '-') then (readDecimal text.tail).map fun n : Nat => -(n : Int)
  else (readDecimal text).map fun n : Nat => (n : Int)

theorem decimalDigits_ne_nil (n : Nat) : decimalDigits n ≠ [] := by
  rw [decimalDigits, ne_eq, List.map_eq_nil_iff]
  exact Nat.toDigits_ne_nil

theorem digit_of_lt {k : Nat} (h : k < 10) :
    chr '0' ≤ chr (Nat.digitChar k) ∧ chr (Nat.digitChar k) ≤ chr '9' ∧
      (chr (Nat.digitChar k) = chr '0' → k = 0) ∧ chr (Nat.digitChar k) ≠ chr '-' := by
  have hall : ∀ k : Fin 10, chr '0' ≤ chr (Nat.digitChar k) ∧ chr (Nat.digitChar k) ≤ chr '9' ∧
      (chr (Nat.digitChar k) = chr '0' → k.val = 0) ∧ chr (Nat.digitChar k) ≠ chr '-' := by
    decide
  exact hall ⟨k, h⟩

theorem mem_decimalDigits {n : Nat} {c : UInt8} (h : c ∈ decimalDigits n) :
    chr '0' ≤ c ∧ c ≤ chr '9' ∧ c ≠ chr '-' := by
  induction n using Nat.strong_induction_on with
  | _ n ih =>
    by_cases hlt : n < 10
    · rw [decimalDigits_of_lt hlt, List.mem_singleton] at h
      obtain ⟨hlow, hhigh, _, hminus⟩ := digit_of_lt hlt
      exact h ▸ ⟨hlow, hhigh, hminus⟩
    · rw [decimalDigits_of_le (by omega), List.mem_append, List.mem_singleton] at h
      rcases h with h | rfl
      · exact ih (n / 10) (by omega) h
      · obtain ⟨hlow, hhigh, _, hminus⟩ := digit_of_lt (Nat.mod_lt n (by decide))
        exact ⟨hlow, hhigh, hminus⟩

/-- Only zero starts with a zero. -/
theorem head_decimalDigits {n : Nat} (h : (decimalDigits n).head? = some (chr '0')) : n = 0 := by
  induction n using Nat.strong_induction_on with
  | _ n ih =>
    by_cases hlt : n < 10
    · rw [decimalDigits_of_lt hlt, List.head?_cons, Option.some.injEq] at h
      exact (digit_of_lt hlt).2.2.1 h
    · rw [decimalDigits_of_le (by omega), List.head?_append_of_ne_nil _ (decimalDigits_ne_nil _)] at h
      have hzero := ih (n / 10) (by omega) h
      omega

theorem canonical_decimal (v : Int) : Canonical v (decimal v) := by
  refine ⟨decimalDigits v.natAbs, rfl, decimalDigits_ne_nil _, fun c hc => ?_, fun hhead => ?_⟩
  · obtain ⟨hlow, hhigh, _⟩ := mem_decimalDigits hc
    exact ⟨hlow, hhigh⟩
  · have hzero := head_decimalDigits hhead
    rw [hzero]
    exact ⟨by omega, rfl⟩

theorem readInteger_decimal (v : Int) : readInteger (decimal v) = some v := by
  unfold readInteger decimal
  by_cases hneg : v < 0
  · have hvalue : -(v.natAbs : Int) = v := by omega
    rw [if_pos hneg, List.singleton_append, List.head?_cons, if_pos rfl, List.tail_cons, readDecimal_decimalDigits,
      Option.map_some, hvalue]
  · have hplus : (decimalDigits v.natAbs).head? ≠ some (chr '-') :=
      fun hhead => (mem_decimalDigits (List.mem_of_head? hhead)).2.2 rfl
    have hvalue : (v.natAbs : Int) = v := by omega
    rw [if_neg hneg, List.nil_append, if_neg hplus, readDecimal_decimalDigits, Option.map_some, hvalue]

/-! ### The memory -/

/-- The text and its NUL. -/
theorem load_convert (m : Memory UInt8) (buf : Nat) (v : Int) :
    (convert m buf v).1.load buf ((decimal v).length + 1) = decimal v ++ [0] := by
  have hlen : (decimal v).reverse.length = (decimal v).length := List.length_reverse
  have hload := (convert_spec m buf v).2.1
  have hnul : (convert m buf v).1.cell (buf + (decimal v).length) = 0 := by
    -- the reversal ends before the NUL
    have hkept := Memory.cell_store_of_ge (m.store buf ((decimal v).reverse ++ [0]))
      ((m.store buf ((decimal v).reverse ++ [0])).load buf (decimal v).length).reverse
      (a := buf) (k := buf + (decimal v).length) (by rw [List.length_reverse, Memory.length_load])
    rw [convert_eq, Memory.reverse, Nat.add_sub_cancel_left, hkept, Memory.store_append, hlen]
    exact Function.update_self ..
  rw [Memory.load_add, hload]
  exact congrArg (decimal v ++ [·]) hnul

/-- **Integers are formatted exactly.** For any value of an integral type, `convert` ends
without an access outside the table, returns the length of the text and leaves the text and a
NUL, and writes nothing outside of them; the text is the canonical one of the value, and
parsing it gives the value. -/
theorem convertOf_exact (m : Memory UInt8) (buf : Nat) (value : Integer) :
    ∃ m' text, convertOf m buf value = some (m', text.length) ∧ m'.load buf (text.length + 1) = text ++ [0] ∧
      Canonical value.value text ∧ readInteger text = some value.value ∧ m.Changed m' buf (buf + text.length + 1) := by
  obtain ⟨hlength, _, _, hchanged⟩ := convert_spec m buf value.value
  refine ⟨(convert m buf value.value).1, decimal value.value, ?_, load_convert m buf value.value,
    canonical_decimal _, readInteger_decimal _, hchanged⟩
  rw [convertOf_eq, ← hlength]

end Chtho.Logging
