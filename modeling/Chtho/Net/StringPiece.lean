import Chtho.Lib.Bytes
import Chtho.Lib.Conversion
import Chtho.Net.Buffer

/-! `StringPiece`: a pointer and an `int`.

A string becomes one by a cast of its length, and what takes a piece casts the `int` to `size_t`
again. So the bytes that are taken are those of the string only if it is shorter than 2^31 bytes: of
a longer one the length is cut, or becomes negative, and then it is more than any vector holds. -/
namespace Chtho.Net
open Lib

/-- A pointer, as the bytes from it on, and a length. -/
structure StringPiece where
  p_ : Bytes
  len_ : Int
deriving DecidableEq, Repr

namespace StringPiece

/-- `StringPiece(const std::string&)`. -/
def ofString (s : Bytes) : StringPiece := ⟨s, toInt s.length⟩

/-- The bytes of a piece for a function that stores so many from its pointer on, or none: for a negative
number `resize` throws, and behind the end of the string there is nothing. -/
def bytes (s : StringPiece) : Option Bytes :=
  if 0 ≤ s.len_ ∧ s.len_.toNat ≤ s.p_.length then some (s.p_.take s.len_.toNat) else none

@[simp] theorem p_ofString (s : Bytes) : (ofString s).p_ = s := rfl
@[simp] theorem len_ofString (s : Bytes) : (ofString s).len_ = toInt s.length := by rw [ofString]

theorem toInt_natCast_eq_iff (n : Nat) : toInt n = n ↔ n < 2 ^ 31 := by
  unfold toInt
  rw [Int.bmod_def]
  split <;> omega

theorem bytes_ofString {s : Bytes} (h : s.length < 2 ^ 31) : (ofString s).bytes = some s := by
  simp [bytes, (toInt_natCast_eq_iff _).mpr h]

/-- A string that is no `int` long loses some of its bytes. -/
theorem length_bytes_lt {s t : Bytes} (h : ¬ s.length < 2 ^ 31) (hbytes : (ofString s).bytes = some t) :
    t.length < s.length := by
  have hne := mt (toInt_natCast_eq_iff s.length).mp h
  simp only [bytes, p_ofString, len_ofString, Option.ite_none_right_eq_some, Option.some.injEq] at hbytes
  obtain ⟨⟨hnonneg, hle⟩, rfl⟩ := hbytes
  rw [List.length_take]
  omega

theorem bytes_ofString_eq_iff {s : Bytes} : (ofString s).bytes = some s ↔ s.length < 2 ^ 31 := by
  refine ⟨fun heq => ?_, bytes_ofString⟩
  by_contra hlong
  exact Nat.lt_irrefl _ (length_bytes_lt hlong heq)

theorem length_bytes_le {s t : Bytes} (hbytes : (ofString s).bytes = some t) : t.length ≤ s.length := by
  by_cases h : s.length < 2 ^ 31
  · rw [bytes_ofString h] at hbytes
    rw [Option.some.inj hbytes]
  · exact Nat.le_of_lt (length_bytes_lt h hbytes)

/-- The bytes of a string whose length is negative as an `int`. -/
theorem bytes_ofString_eq_none {s : Bytes} (hlo : 2 ^ 31 ≤ s.length) (hhi : s.length < 2 ^ 32) :
    (ofString s).bytes = none := by
  have hneg : ¬ 0 ≤ toInt s.length := by
    unfold toInt
    rw [Int.bmod_def]
    split <;> omega
  rw [bytes, len_ofString, if_neg fun hfits => hneg hfits.1]

/-! ### Strings that are appended one after the other -/

def concat : List Bytes → Option Bytes
  | [] => some []
  | s :: strings => do
    let data ← (ofString s).bytes
    let rest ← concat strings
    some (data ++ rest)

variable {s t : Bytes} {strings : List Bytes}

theorem concat_cons_eq_some : concat (s :: strings) = some t ↔
    ∃ data rest, (ofString s).bytes = some data ∧ concat strings = some rest ∧ data ++ rest = t := by
  simp only [concat, Option.bind_eq_bind, Option.bind_eq_some_iff, Option.some.injEq, exists_and_left]

theorem concat_of_short (h : ∀ s ∈ strings, s.length < 2 ^ 31) : concat strings = some strings.flatten := by
  induction strings with
  | nil => rfl
  | cons s strings ih =>
    obtain ⟨hs, hstrings⟩ := List.forall_mem_cons.mp h
    exact concat_cons_eq_some.mpr ⟨s, strings.flatten, bytes_ofString hs, ih hstrings, rfl⟩

theorem length_concat_le (h : concat strings = some t) : t.length ≤ strings.flatten.length := by
  induction strings generalizing t with
  | nil =>
    obtain rfl := Option.some.inj h
    exact Nat.le_refl _
  | cons s strings ih =>
    obtain ⟨data, rest, hdata, hrest, rfl⟩ := concat_cons_eq_some.mp h
    rw [List.flatten_cons, List.length_append, List.length_append]
    exact Nat.add_le_add (length_bytes_le hdata) (ih hrest)

/-- All of them are appended whole if and only if each is short enough. -/
theorem concat_eq_flatten_iff : concat strings = some strings.flatten ↔ ∀ s ∈ strings, s.length < 2 ^ 31 := by
  refine ⟨fun h => ?_, concat_of_short⟩
  induction strings with
  | nil => exact fun _ hs => nomatch hs
  | cons s strings ih =>
    obtain ⟨data, rest, hdata, hrest, heq⟩ := concat_cons_eq_some.mp h
    have hlength := congrArg List.length heq
    rw [List.flatten_cons, List.length_append, List.length_append] at hlength
    have hdataLe := length_bytes_le hdata
    have hrestLe := length_concat_le hrest
    obtain ⟨rfl, rfl⟩ := List.append_inj heq (by omega)
    exact List.forall_mem_cons.mpr ⟨bytes_ofString_eq_iff.mp hdata, ih hrest⟩

/-- A short string is there, whatever becomes of the others. -/
theorem mem_concat {x : UInt8} (h : concat strings = some t) (hs : s ∈ strings) (hshort : s.length < 2 ^ 31)
    (hx : x ∈ s) : x ∈ t := by
  induction strings generalizing t with
  | nil => cases hs
  | cons s' strings ih =>
    obtain ⟨data, rest, hdata, hrest, rfl⟩ := concat_cons_eq_some.mp h
    rcases List.mem_cons.mp hs with rfl | hs
    · rw [bytes_ofString hshort] at hdata
      obtain rfl := Option.some.inj hdata
      exact List.mem_append_left _ hx
    · exact List.mem_append_right _ (ih hrest hs)

end StringPiece

/-- `append(const StringPiece&)` of a string. -/
def Buffer.appendString (b : Buffer) (s : Bytes) : Option Buffer := do
  let data ← (StringPiece.ofString s).bytes
  b.append data

theorem Buffer.appendString_spec {b : Buffer} (h : b.Inv) {s data : Bytes} (hdata : (StringPiece.ofString s).bytes = some data) :
    ∃ b', b.appendString s = some b' ∧ b'.Inv ∧ b'.content = b.content ++ data := by
  rw [appendString, hdata]
  exact append_spec h data

theorem Buffer.appendStrings_spec {b : Buffer} (h : b.Inv) {strings : List Bytes} {t : Bytes}
    (hconcat : StringPiece.concat strings = some t) :
    ∃ b', strings.foldlM Buffer.appendString b = some b' ∧ b'.Inv ∧ b'.content = b.content ++ t := by
  induction strings generalizing b t with
  | nil =>
    obtain rfl := Option.some.inj hconcat
    exact ⟨b, rfl, h, (List.append_nil _).symm⟩
  | cons s strings ih =>
    obtain ⟨data, rest, hdata, hrest, rfl⟩ := StringPiece.concat_cons_eq_some.mp hconcat
    obtain ⟨b₁, h₁, hinv₁, hcontent₁⟩ := appendString_spec h hdata
    obtain ⟨b₂, h₂, hinv₂, hcontent₂⟩ := ih hinv₁ hrest
    refine ⟨b₂, ?_, hinv₂, ?_⟩
    · rw [List.foldlM_cons, h₁, Option.bind_eq_bind, Option.bind_some, h₂]
    · rw [hcontent₂, hcontent₁, List.append_assoc]

theorem Buffer.appendStrings_eq_none (b : Buffer) {strings : List Bytes} (hconcat : StringPiece.concat strings = none) :
    strings.foldlM Buffer.appendString b = none := by
  induction strings generalizing b with
  | nil => cases hconcat
  | cons s strings ih =>
    rw [List.foldlM_cons, Option.bind_eq_bind, Option.bind_eq_none_iff]
    intro b₁ h₁
    rw [appendString, Option.bind_eq_bind, Option.bind_eq_some_iff] at h₁
    obtain ⟨data, hdata, -⟩ := h₁
    cases hrest : StringPiece.concat strings with
    | none => exact ih b₁ hrest
    | some rest =>
      rw [StringPiece.concat_cons_eq_some.mpr ⟨data, rest, hdata, hrest, rfl⟩] at hconcat
      cases hconcat

end Chtho.Net
