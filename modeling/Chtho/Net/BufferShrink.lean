import Chtho.Net.BufferMemory
import Chtho.Net.StringPiece

/-! `Buffer::shrink`, with the integers of the machine.

The readable bytes go to a new buffer as a `StringPiece`, whose length is an `int`: the number of
readable bytes is cast to it, and back to `size_t` in `append`. Sums of sizes wrap here, and a vector
holds at most `maxSize` bytes; where nothing wraps, the new buffer does what `Chtho.Net.Buffer` says
(`appendSize_eq`). -/
namespace Chtho.Net
open Lib

namespace Buffer

/-- `max_size()` of a vector of bytes. -/
def maxSize : Nat := 2 ^ 63 - 1

/-- `resize` of the vector; past `maxSize` it throws. -/
def resizeTo (b : Buffer) (size : Nat) : Option Buffer :=
  if size ≤ maxSize then some {b with buf := resize b.buf size} else none

def expandSize (b : Buffer) (len : Nat) : Option Buffer :=
  if toSize (b.writableBytes + b.prependableBytes : Nat) < toSize (len + kPre : Nat) then
    b.resizeTo (toSize (b.writerIdx + len : Nat))
  else do
    assert (kPre < b.readerIdx)
    let readable := b.readableBytes
    let buf ← copyWithin b.buf b.readerIdx kPre readable
    let b' : Buffer := ⟨buf, kPre, kPre + readable⟩
    assert (readable = b'.readableBytes)
    some b'

def ensureSize (b : Buffer) (len : Nat) : Option Buffer := do
  let b' ← if b.writableBytes < len then b.expandSize len else some b
  assert (len ≤ b'.writableBytes)
  some b'

/-- `append` of `len` bytes from a pointer on; behind the end of its memory there are none. -/
def appendSize (b : Buffer) (s : Bytes) (len : Nat) : Option Buffer := do
  let b ← b.ensureSize len
  assert (len ≤ s.length)
  let b ← b.fill (s.take len)
  b.written len

/-- `append` of a `StringPiece`. -/
def appendPiece (b : Buffer) (s : StringPiece) : Option Buffer := b.appendSize s.p_ (toSize s.len_)

def toStringPiece (b : Buffer) : StringPiece := ⟨b.buf.drop b.readerIdx, toInt b.readableBytes⟩

/-- What is left in the buffer behind the `swap`. -/
def shrink (b : Buffer) (reserve : Nat) : Option Buffer := do
  let b' ← create kInit
  let b' ← b'.ensureSize (toSize (b.readableBytes + reserve : Nat))
  b'.appendPiece b.toStringPiece

/-- What `shrink` is to do. -/
def Shrunk (b : Buffer) (reserve : Nat) (b' : Buffer) : Prop :=
  b'.content = b.content ∧ b'.prependableBytes = kPre ∧ reserve ≤ b'.writableBytes

/-! ### Where nothing wraps -/

variable {b b' : Buffer} {len n reserve : Nat}

theorem expandSize_eq (h : b.Inv) (hsize : b.buf.length + len + kPre ≤ maxSize) : b.expandSize len = b.expand len := by
  obtain ⟨hr, hw, hs⟩ := h
  have hlt : maxSize < 2 ^ 64 := by decide
  have hroom : b.writableBytes + b.prependableBytes ≤ b.buf.length := by
    unfold writableBytes prependableBytes
    omega
  have hresize : b.resizeTo (b.writerIdx + len) = some {b with buf := resize b.buf (b.writerIdx + len)} :=
    if_pos (by omega)
  rw [expandSize, expand, toSize_natCast (by omega), toSize_natCast (by omega), toSize_natCast (by omega), hresize]

theorem ensureSize_eq (h : b.Inv) (hsize : b.buf.length + len + kPre ≤ maxSize) : b.ensureSize len = b.ensure len := by
  rw [ensureSize, ensure, expandSize_eq h hsize]

/-- Where no sum comes near the bounds, `append` is that of `Chtho.Net.Buffer`. -/
theorem appendSize_eq (h : b.Inv) {s : Bytes} (hs : len ≤ s.length) (hsize : b.buf.length + len + kPre ≤ maxSize) :
    b.appendSize s len = b.append (s.take len) := by
  rw [appendSize, append, ensureSize_eq h hsize, List.length_take_of_le hs]
  simp only [assert_bind, if_pos hs]

/-- Nor is there another `append` of a string, of any length. -/
theorem appendPiece_ofString (h : b.Inv) {s : Bytes} (hs : s.length ≤ maxSize)
    (hsize : b.buf.length + s.length + kPre ≤ maxSize) : b.appendPiece (.ofString s) = b.appendString s := by
  have hmax : maxSize = 2 ^ 63 - 1 := rfl
  have hrange : - 2 ^ 31 ≤ toInt s.length ∧ toInt s.length < 2 ^ 31 := by
    unfold toInt
    rw [Int.bmod_def]
    split <;> omega
  simp only [appendPiece, appendString, StringPiece.bytes, StringPiece.p_ofString, StringPiece.len_ofString]
  split
  case isTrue hfits =>
    obtain ⟨hnonneg, hle⟩ := hfits
    rw [toSize_eq hnonneg (by omega), appendSize_eq h hle (by omega), Option.bind_eq_bind, Option.bind_some]
  case isFalse hno =>
    -- a negative length is a huge one, and the string has no bytes there
    have hlong : ¬ toSize (toInt s.length) ≤ s.length := by
      unfold toSize
      omega
    simp only [appendSize, assert_bind, if_neg hlong, Option.bind_eq_bind, Option.bind_none]
    cases b.ensureSize (toSize (toInt s.length)) <;> simp only [Option.bind_none, Option.bind_some]

/-! ### The new buffer -/

/-- An empty buffer with room for `n` bytes. -/
def blank (n : Nat) : Buffer := ⟨List.replicate (kPre + n) 0, kPre, kPre⟩

@[simp] theorem writableBytes_blank (n : Nat) : (blank n).writableBytes = n := by
  simp [writableBytes, blank]

@[simp] theorem prependableBytes_blank (n : Nat) : (blank n).prependableBytes = kPre := rfl

theorem inv_blank (n : Nat) : (blank n).Inv := by
  refine ⟨Nat.le_refl _, ?_, ?_⟩ <;> simp [blank]

theorem content_blank (n : Nat) : (blank n).content = [] := by
  simp [content, readableBytes, blank]

theorem resizeTo_blank (hlen : n ≤ len) (hsize : kPre + len ≤ maxSize) :
    (blank n).resizeTo (kPre + len) = some (blank len) := by
  have hzeros : resize (List.replicate (kPre + n) 0) (kPre + len) = List.replicate (kPre + len) 0 := by
    rw [resize, List.take_of_length_le (by rw [List.length_replicate]; omega), List.length_replicate,
      List.replicate_append_replicate]
    congr 1
    omega
  rw [resizeTo, if_pos hsize, blank, hzeros]
  rfl

/-- A length for which an empty buffer has no room makes it larger; one that no vector can hold is
none, whether its sum with `kPre` wraps or not. -/
theorem expandSize_blank (hlen : n < len) (hlt : len < 2 ^ 64) (hn : kPre + n ≤ maxSize) :
    (blank n).expandSize len = if kPre + len ≤ maxSize then some (blank len) else none := by
  have hmax : maxSize = 2 ^ 63 - 1 := rfl
  have hpre : kPre = 8 := rfl
  have hidx : (blank n).writerIdx = kPre := rfl
  rw [expandSize, writableBytes_blank, prependableBytes_blank, hidx, toSize_natCast (by omega)]
  by_cases hwrap : len + kPre < 2 ^ 64
  · rw [toSize_natCast hwrap, if_pos (by omega), Nat.add_comm kPre len, toSize_natCast hwrap, Nat.add_comm len kPre]
    split
    case isTrue hsize => exact resizeTo_blank (Nat.le_of_lt hlen) hsize
    case isFalse hsize => exact if_neg hsize
  · rw [toSize_eq_mod, if_neg (by omega), if_neg (by omega), assert_bind]
    exact if_neg (Nat.lt_irrefl kPre)

theorem ensureSize_blank (hlt : len < 2 ^ 64) (hn : kPre + n ≤ maxSize) :
    (blank n).ensureSize len = if kPre + len ≤ maxSize then some (blank (max n len)) else none := by
  rw [ensureSize, writableBytes_blank]
  by_cases hlen : n < len
  · rw [if_pos hlen, expandSize_blank hlen hlt hn, Nat.max_eq_right (Nat.le_of_lt hlen)]
    split
    case isTrue => simp
    case isFalse => rfl
  · have hle : len ≤ n := Nat.not_lt.mp hlen
    rw [if_neg hlen, if_pos (by omega), Nat.max_eq_left hle]
    simp [hle]

/-- A new buffer takes bytes for which it has room. -/
theorem appendSize_blank (s : Bytes) (hlen : len ≤ n) (hs : len ≤ s.length) :
    ∃ b', (blank n).appendSize s len = some b' ∧ b'.Inv ∧ b'.content = s.take len ∧ b'.prependableBytes = kPre ∧
      b'.writableBytes = n - len := by
  have htake : (s.take len).length = len := List.length_take_of_le hs
  have hensure : (blank n).ensureSize len = some (blank n) := by
    simp [ensureSize, Nat.not_lt.mpr hlen, hlen]
  obtain ⟨b₁, hfill, hwritten, hlength, hreader, hwriter, hinv, hcontent⟩ :=
    fill_written_spec (inv_blank n) (s.take len) (by rw [writableBytes_blank, htake]; exact hlen)
  rw [htake] at hwritten hinv hcontent
  rw [content_blank, List.nil_append] at hcontent
  refine ⟨_, ?_, hinv, hcontent, hreader, ?_⟩
  · simp [appendSize, hensure, hs, hfill, hwritten]
  · have hbuf : (blank n).buf.length = kPre + n := List.length_replicate
    show b₁.buf.length - (kPre + len) = n - len
    rw [hlength, hbuf]
    omega

/-- None takes a negative number of bytes. -/
theorem appendSize_blank_eq_none (s : Bytes) (hn : kPre + n ≤ maxSize) (hlen : 2 ^ 64 - 2 ^ 31 ≤ len)
    (hlt : len < 2 ^ 64) : (blank n).appendSize s len = none := by
  have hmax : maxSize = 2 ^ 63 - 1 := rfl
  rw [appendSize, ensureSize_blank hlt hn, if_neg (by omega)]
  rfl

/-! ### Shrinking -/

/-- What `shrink` comes to. -/
theorem shrink_eq (hsum : b.readableBytes + reserve < 2 ^ 64) :
    b.shrink reserve =
      if kPre + (b.readableBytes + reserve) ≤ maxSize then
        (blank (max kInit (b.readableBytes + reserve))).appendPiece b.toStringPiece
      else none := by
  have hcreate : create kInit = some (blank kInit) := create_eq kInit
  have hinit : kPre + kInit ≤ maxSize := by decide
  rw [shrink, hcreate, toSize_natCast hsum, Option.bind_eq_bind, Option.bind_some, ensureSize_blank hsum hinit]
  by_cases hsize : kPre + (b.readableBytes + reserve) ≤ maxSize
  · rw [if_pos hsize, if_pos hsize, Option.bind_some]
  · rw [if_neg hsize, if_neg hsize, Option.bind_none]

theorem length_toStringPiece (h : b.Inv) : b.readableBytes ≤ b.toStringPiece.p_.length := by
  have hw := h.writer
  show b.readableBytes ≤ (b.buf.drop b.readerIdx).length
  rw [List.length_drop, readableBytes]
  omega

theorem len_toStringPiece (b : Buffer) : b.toStringPiece.len_ = toInt b.readableBytes := by
  rw [toStringPiece]

theorem take_toStringPiece (b : Buffer) : b.toStringPiece.p_.take b.readableBytes = b.content := rfl

/-- The piece has as many bytes as the lower bits of the number say, if it has not become negative. -/
theorem shrink_of_small (h : b.Inv) (reserve : Nat) (hsize : kPre + (b.readableBytes + reserve) ≤ maxSize)
    (hbits : b.readableBytes % 2 ^ 32 < 2 ^ 31) :
    ∃ b', b.shrink reserve = some b' ∧ b'.Inv ∧
      b'.content = b.toStringPiece.p_.take (b.readableBytes % 2 ^ 32) ∧ b'.prependableBytes = kPre ∧
      b'.writableBytes = max kInit (b.readableBytes + reserve) - b.readableBytes % 2 ^ 32 := by
  have hmax : maxSize = 2 ^ 63 - 1 := rfl
  have hle : b.readableBytes % 2 ^ 32 ≤ b.readableBytes := Nat.mod_le _ _
  have hlength := length_toStringPiece h
  have hlen : toSize b.toStringPiece.len_ = b.readableBytes % 2 ^ 32 := by
    rw [len_toStringPiece, toSize_toInt, if_pos hbits]
  rw [shrink_eq (by omega), if_pos hsize, appendPiece, hlen]
  exact appendSize_blank _ (by omega) (by omega)

/-- If it has, it is longer than anything a vector can hold. -/
theorem shrink_of_large (reserve : Nat) (hsize : kPre + (b.readableBytes + reserve) ≤ maxSize)
    (hbits : 2 ^ 31 ≤ b.readableBytes % 2 ^ 32) : b.shrink reserve = none := by
  have hmax : maxSize = 2 ^ 63 - 1 := rfl
  have hpre : kPre = 8 := rfl
  have hinit : kInit = 1024 := rfl
  have hlen : toSize b.toStringPiece.len_ = 2 ^ 64 - 2 ^ 32 + b.readableBytes % 2 ^ 32 := by
    rw [len_toStringPiece, toSize_toInt, if_neg (Nat.not_lt.mpr hbits)]
  rw [shrink_eq (by omega), if_pos hsize, appendPiece, hlen]
  exact appendSize_blank_eq_none _ (by omega) (by omega) (by omega)

/-- A buffer that no vector can hold is not made. -/
theorem size_of_shrink (hsum : b.readableBytes + reserve < 2 ^ 64) (hshrink : b.shrink reserve = some b') :
    kPre + (b.readableBytes + reserve) ≤ maxSize := by
  by_contra hlarge
  rw [shrink_eq hsum, if_neg hlarge] at hshrink
  cases hshrink

/-- **`shrink`.** The content is kept, with the room asked for, exactly if the number of readable bytes
is an `int` and a vector can hold it all. -/
theorem shrink_iff (h : b.Inv) (hsum : b.readableBytes + reserve < 2 ^ 64) :
    (∃ b', b.shrink reserve = some b' ∧ Shrunk b reserve b') ↔
      b.readableBytes < 2 ^ 31 ∧ kPre + (b.readableBytes + reserve) ≤ maxSize := by
  constructor
  case mp =>
    rintro ⟨b', hshrink, hcontent, _, _⟩
    have hsize := size_of_shrink hsum hshrink
    refine ⟨?_, hsize⟩
    rcases Nat.lt_or_ge (b.readableBytes % 2 ^ 32) (2 ^ 31) with hbits | hbits
    · obtain ⟨b₁, hshrink₁, _, hcontent₁, _, _⟩ := shrink_of_small h reserve hsize hbits
      obtain rfl := Option.some.inj (hshrink.symm.trans hshrink₁)
      -- the contents are of one length only if the number keeps all its bits
      have hlength := congrArg List.length (hcontent₁.symm.trans hcontent)
      have hle := length_toStringPiece h
      rw [length_content h, List.length_take] at hlength
      omega
    · rw [shrink_of_large reserve hsize hbits] at hshrink
      cases hshrink
  case mpr =>
    rintro ⟨hint, hsize⟩
    have hmod : b.readableBytes % 2 ^ 32 = b.readableBytes := Nat.mod_eq_of_lt (by omega)
    obtain ⟨b', hshrink, _, hcontent, hpre, hroom⟩ := shrink_of_small h reserve hsize (by omega)
    rw [hmod] at hcontent hroom
    exact ⟨b', hshrink, hcontent.trans (take_toStringPiece b), hpre, by omega⟩

/-! ### Reachable buffers -/

/-- The buffers that come from the constructor by the operations and `shrink`. -/
inductive Reachable : Buffer → Prop where
  | create {initSz : Nat} {b : Buffer} (h : create initSz = some b) : Reachable b
  | perform {b b' : Buffer} {op : Op Unit} {answers : List Answer} (h : Reachable b) (hlegal : op.LegalOn b)
      (hperform : b.perform op = some (answers, b')) : Reachable b'
  | shrink {b b' : Buffer} {reserve : Nat} (h : Reachable b) (hsum : b.readableBytes + reserve < 2 ^ 64)
      (hshrink : b.shrink reserve = some b') : Reachable b'

theorem inv_shrink (h : b.Inv) (hsum : b.readableBytes + reserve < 2 ^ 64) (hshrink : b.shrink reserve = some b') :
    b'.Inv := by
  have hsize := size_of_shrink hsum hshrink
  rcases Nat.lt_or_ge (b.readableBytes % 2 ^ 32) (2 ^ 31) with hbits | hbits
  · obtain ⟨b₁, hshrink₁, hinv, _⟩ := shrink_of_small h reserve hsize hbits
    obtain rfl := Option.some.inj (hshrink.symm.trans hshrink₁)
    exact hinv
  · rw [shrink_of_large reserve hsize hbits] at hshrink
    cases hshrink

theorem Reachable.inv (h : Reachable b) : b.Inv := by
  induction h with
  | create h =>
    obtain ⟨b₁, hcreate, hinv, _⟩ := create_spec _
    obtain rfl := Option.some.inj (h.symm.trans hcreate)
    exact hinv
  | perform _ hlegal hperform ih =>
    obtain ⟨b₁, hb₁, hinv, _⟩ := perform_spec ih _ hlegal
    rw [hperform] at hb₁
    obtain ⟨_, rfl⟩ := Prod.mk.inj (Option.some.inj hb₁)
    exact hinv
  | shrink _ hsum hshrink ih => exact inv_shrink ih hsum hshrink

/-- Of any reachable buffer, `shrink` keeps the content exactly if its number of bytes is an `int`. -/
theorem shrink_reachable_iff (h : Reachable b) (hsum : b.readableBytes + reserve < 2 ^ 64) :
    (∃ b', b.shrink reserve = some b' ∧ Shrunk b reserve b') ↔
      b.readableBytes < 2 ^ 31 ∧ kPre + (b.readableBytes + reserve) ≤ maxSize :=
  shrink_iff h.inv hsum

theorem shrink_hello :
    ∃ b', shrink ⟨List.replicate kPre 0 ++ ascii "hello", 8, 13⟩ 100 = some b' ∧
      Shrunk ⟨List.replicate kPre 0 ++ ascii "hello", 8, 13⟩ 100 b' := by
  have hcreate : create 5 = some ⟨List.replicate 13 0, 8, 8⟩ := by decide
  have happend : perform ⟨List.replicate 13 0, 8, 8⟩ (.append () (ascii "hello") : Op Unit) =
      some ([], ⟨List.replicate kPre 0 ++ ascii "hello", 8, 13⟩) := by decide +kernel
  have hlegal : Op.LegalOn ⟨List.replicate 13 0, 8, 8⟩ (.append () (ascii "hello")) := trivial
  exact (shrink_reachable_iff (.perform (.create hcreate) hlegal happend) (by decide)).mpr (by decide)

/-- A buffer with any number of bytes that were appended at once. -/
theorem exists_appended (n : Nat) :
    ∃ b, (create kInit).bind (append · (List.replicate n 121)) = some b ∧ b.Inv ∧ b.readableBytes = n := by
  obtain ⟨b₀, hcreate, hinv₀, hempty⟩ := create_spec kInit
  obtain ⟨b, happend, hinv, hcontent⟩ := append_spec hinv₀ (List.replicate n 121)
  refine ⟨b, ?_, hinv, ?_⟩
  · rw [hcreate, Option.bind_some, happend]
  · rw [← length_content hinv, hcontent, hempty, List.nil_append, List.length_replicate]

/-- Of 2^31 bytes the number becomes negative, and the vector is asked for more than it can hold; of
2^32 + 5 bytes five are left. -/
theorem shrink_large_buffers :
    (∃ b, (create kInit).bind (append · (List.replicate (2 ^ 31) 121)) = some b ∧ b.readableBytes = 2 ^ 31 ∧
      b.shrink 0 = none) ∧
    ∃ b b', (create kInit).bind (append · (List.replicate (2 ^ 32 + 5) 121)) = some b ∧
      b.readableBytes = 2 ^ 32 + 5 ∧ b.shrink 0 = some b' ∧ b'.content.length = 5 := by
  have hmax : maxSize = 2 ^ 63 - 1 := rfl
  have hpre : kPre = 8 := rfl
  obtain ⟨b₁, happend₁, _, hreadable₁⟩ := exists_appended (2 ^ 31)
  obtain ⟨b₂, happend₂, hinv₂, hreadable₂⟩ := exists_appended (2 ^ 32 + 5)
  have hlength := length_toStringPiece hinv₂
  have hnone : b₁.shrink 0 = none := shrink_of_large 0 (by omega) (by omega)
  obtain ⟨b', hshrink, _, hcontent, _⟩ := shrink_of_small hinv₂ 0 (by omega) (by omega)
  have hfive : b'.content.length = 5 := by
    rw [hcontent, List.length_take]
    omega
  exact ⟨⟨b₁, happend₁, hreadable₁, hnone⟩, b₂, b', happend₂, hreadable₂, hshrink, hfive⟩

end Buffer
end Chtho.Net
