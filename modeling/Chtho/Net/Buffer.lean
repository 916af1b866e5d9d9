import Chtho.Lib.Bytes
import Chtho.Lib.Copy
import Chtho.Lib.Machine
import Chtho.Lib.Search

/-! `Buffer`: a vector of bytes with a reader and a writer index.

    | prependable bytes | readable bytes | writable bytes |
    0        <=     readerIdx    <=    writerIdx    <=   size

Pointers into the vector are positions in it. Assertions of the class are
assertions here, and a store outside the vector has no result, so that an
operation that has one has also stayed inside. Sizes are natural numbers: sums of
`size_t` are taken not to wrap. -/
namespace Chtho.Net
open Lib

structure Buffer where
  buf : Bytes
  readerIdx : Nat
  writerIdx : Nat
deriving DecidableEq, Repr

/-- What `readv` reports: an error with its `errno`, or the bytes it read. -/
inductive Readv where
  | error (errno : Nat)
  | data (bytes : Bytes)
deriving DecidableEq, Repr

namespace Buffer

def kPre : Nat := 8
def kInit : Nat := 1024
/-- `sizeof(extrabuf)` in `readFd`. -/
def extrabufSize : Nat := 65536
def crlf : Bytes := [13, 10]

def readableBytes (b : Buffer) : Nat := b.writerIdx - b.readerIdx
def writableBytes (b : Buffer) : Nat := b.buf.length - b.writerIdx
def prependableBytes (b : Buffer) : Nat := b.readerIdx

/-- The constructor. -/
def create (initSz : Nat) : Option Buffer := do
  let b : Buffer := ⟨List.replicate (kPre + initSz) 0, kPre, kPre⟩
  assert (b.readableBytes = 0)
  assert (b.writableBytes = initSz)
  assert (b.prependableBytes = kPre)
  some b

/-- `std::vector::resize`: new cells are zero. -/
def resize (m : Bytes) (n : Nat) : Bytes := m.take n ++ List.replicate (n - m.length) 0

def expand (b : Buffer) (len : Nat) : Option Buffer :=
  if b.writableBytes + b.prependableBytes < len + kPre then
    some {b with buf := resize b.buf (b.writerIdx + len)}
  else do
    -- move readable data to the front, make space inside buf
    assert (kPre < b.readerIdx)
    let readable := b.readableBytes
    let buf ← copyWithin b.buf b.readerIdx kPre readable
    let b' : Buffer := ⟨buf, kPre, kPre + readable⟩
    assert (readable = b'.readableBytes)
    some b'

def ensure (b : Buffer) (len : Nat) : Option Buffer := do
  let b' ← if b.writableBytes < len then b.expand len else some b
  assert (len ≤ b'.writableBytes)
  some b'

def written (b : Buffer) (len : Nat) : Option Buffer := do
  assert (len ≤ b.writableBytes)
  some {b with writerIdx := b.writerIdx + len}

/-- Stores at `writePtr()`, by the buffer itself or by its user. -/
def fill (b : Buffer) (s : Bytes) : Option Buffer := do
  let buf ← copyIn b.buf b.writerIdx s
  some {b with buf := buf}

def append (b : Buffer) (s : Bytes) : Option Buffer := do
  let b ← b.ensure s.length
  let b ← b.fill s
  b.written s.length

def prepend (b : Buffer) (s : Bytes) : Option Buffer := do
  assert (s.length ≤ b.prependableBytes)
  let readerIdx := b.readerIdx - s.length
  let buf ← copyIn b.buf readerIdx s
  some {b with buf := buf, readerIdx := readerIdx}

def retrieveAll (b : Buffer) : Buffer := {b with readerIdx := kPre, writerIdx := kPre}

def retrieve (b : Buffer) (len : Nat) : Option Buffer := do
  assert (len ≤ b.readableBytes)
  some (if len < b.readableBytes then {b with readerIdx := b.readerIdx + len} else b.retrieveAll)

/-- The length is `stop - peek()`; before `peek()` it wraps to one no buffer has. -/
def retrieveUntil (b : Buffer) (stop : Nat) : Option Buffer := do
  assert (b.readerIdx ≤ stop)
  b.retrieve (stop - b.readerIdx)

def retrieveAsString (b : Buffer) (len : Nat) : Option (Bytes × Buffer) := do
  assert (len ≤ b.readableBytes)
  let res := slice b.buf b.readerIdx len
  let b ← b.retrieve len
  some (res, b)

def retrieveAllAsString (b : Buffer) : Option (Bytes × Buffer) := b.retrieveAsString b.readableBytes

/-- The readable region. -/
def content (b : Buffer) : Bytes := slice b.buf b.readerIdx b.readableBytes

/-- `std::search` of CRLF from `peek()` to `writePtr()`. -/
def findCRLF (b : Buffer) : Option Nat := (search crlf b.content).map (b.readerIdx + ·)

/-- The bytes the two `iovec`s of `readFd` have room for; a writable space as large
as `extrabuf` is used alone. -/
def iovecLength (b : Buffer) : Nat :=
  if b.writableBytes < extrabufSize then b.writableBytes + extrabufSize else b.writableBytes

/-- `readFd` with the result of `readv`: its return value, `errno` if it was saved,
and the buffer. The kernel fills the writable space first and `extrabuf` with the
rest. -/
def readFd (b : Buffer) : Readv → Option ((Int × Option Nat) × Buffer)
  | .error errno => some ((-1, some errno), b)
  | .data bytes => do
    let writable := b.writableBytes
    let filled ← b.fill (bytes.take writable)
    let extrabuf := bytes.drop writable
    if bytes.length ≤ writable then
      some ((bytes.length, none), {filled with writerIdx := filled.writerIdx + bytes.length})
    else
      let full : Buffer := {filled with writerIdx := filled.buf.length}
      let b' ← full.append extrabuf
      some ((bytes.length, none), b')

/-! ### The invariant, and what each operation does to the readable region -/

structure Inv (b : Buffer) : Prop where
  reader : b.readerIdx ≤ b.writerIdx
  writer : b.writerIdx ≤ b.buf.length
  size : kPre ≤ b.buf.length

theorem length_content {b : Buffer} (h : b.Inv) : b.content.length = b.readableBytes := by
  have hr := h.reader
  have hw := h.writer
  exact length_slice _ _ _ (by unfold readableBytes; omega)

theorem content_eq_nil_iff {b : Buffer} (h : b.Inv) : b.content = [] ↔ b.readableBytes = 0 := by
  rw [← List.length_eq_zero_iff, length_content h]

theorem create_spec (initSz : Nat) :
    ∃ b, create initSz = some b ∧ b.Inv ∧ b.content = [] := by
  refine ⟨⟨List.replicate (kPre + initSz) 0, kPre, kPre⟩, ?_, ⟨?_, ?_, ?_⟩, ?_⟩
  · simp [create, readableBytes, writableBytes, prependableBytes]
  all_goals simp [content, readableBytes]

theorem length_resize (m : Bytes) (n : Nat) : (resize m n).length = n := by
  simp only [resize, List.length_append, List.length_take, List.length_replicate]
  omega

theorem retrieveAll_spec {b : Buffer} (h : b.Inv) : b.retrieveAll.Inv ∧ b.retrieveAll.content = [] :=
  ⟨⟨Nat.le_refl _, h.size, h.size⟩, by simp [content, readableBytes, retrieveAll]⟩

/-- Growth keeps the readable region where it is. -/
theorem resize_spec {b : Buffer} (h : b.Inv) (len : Nat) (hlen : b.writableBytes < len) :
    Inv {b with buf := resize b.buf (b.writerIdx + len)} ∧
      content {b with buf := resize b.buf (b.writerIdx + len)} = b.content ∧
      len ≤ writableBytes {b with buf := resize b.buf (b.writerIdx + len)} := by
  obtain ⟨hr, hw, hs⟩ := h
  unfold writableBytes at hlen
  have hgrow : b.buf.length ≤ b.writerIdx + len := by omega
  refine ⟨⟨hr, ?_, ?_⟩, ?_, ?_⟩
  · show b.writerIdx ≤ (resize b.buf (b.writerIdx + len)).length
    rw [length_resize]
    omega
  · show kPre ≤ (resize b.buf (b.writerIdx + len)).length
    rw [length_resize]
    omega
  · show slice (resize b.buf (b.writerIdx + len)) b.readerIdx b.readableBytes = b.content
    rw [resize, List.take_of_length_le hgrow, slice_append_left _ _ _ _ (by unfold readableBytes; omega)]
    rfl
  · show len ≤ (resize b.buf (b.writerIdx + len)).length - b.writerIdx
    rw [length_resize]
    omega

theorem expand_spec {b : Buffer} (h : b.Inv) (len : Nat) (hlen : b.writableBytes < len) :
    ∃ b', b.expand len = some b' ∧ b'.Inv ∧ b'.content = b.content ∧ len ≤ b'.writableBytes := by
  unfold expand
  split
  · exact ⟨_, rfl, resize_spec h len hlen⟩
  case isFalse hroom =>
    obtain ⟨hr, hw, hs⟩ := h
    unfold writableBytes prependableBytes at hroom
    unfold writableBytes at hlen
    have hpre : kPre < b.readerIdx := by omega
    have hsrc : b.readerIdx + b.readableBytes ≤ b.buf.length := by unfold readableBytes; omega
    have hcopy := copyWithin_eq b.buf b.readerIdx kPre b.readableBytes (by omega) hsrc
    have hcontent : (slice b.buf b.readerIdx b.readableBytes).length = b.readableBytes :=
      length_slice _ _ _ hsrc
    have hlength := length_splice b.buf kPre (slice b.buf b.readerIdx b.readableBytes) (by omega)
    refine ⟨⟨splice b.buf kPre (slice b.buf b.readerIdx b.readableBytes), kPre, kPre + b.readableBytes⟩,
      ?_, ⟨Nat.le_add_right _ _, ?_, ?_⟩, ?_, ?_⟩
    · simp only [hcopy, hpre, assert_bind, if_true, Option.bind_eq_bind, Option.bind_some]
      exact if_pos (Nat.add_sub_cancel_left _ _).symm
    · simp only [hlength]
      omega
    · simp only [hlength]
      exact hs
    · show slice _ kPre (kPre + b.readableBytes - kPre) = b.content
      rw [Nat.add_sub_cancel_left]
      have hself := slice_splice_self b.buf kPre (slice b.buf b.readerIdx b.readableBytes) hs
      rwa [hcontent] at hself
    · simp only [writableBytes, hlength]
      unfold readableBytes
      omega

/-- `ensure` makes room and changes nothing readable. -/
theorem ensure_spec {b : Buffer} (h : b.Inv) (len : Nat) :
    ∃ b', b.ensure len = some b' ∧ b'.Inv ∧ b'.content = b.content ∧ len ≤ b'.writableBytes := by
  unfold ensure
  by_cases hlen : b.writableBytes < len
  · obtain ⟨b', hb', hinv, hcontent, hroom⟩ := expand_spec h len hlen
    exact ⟨b', by simp [hlen, hb', hroom], hinv, hcontent, hroom⟩
  · have hroom : len ≤ b.writableBytes := by omega
    exact ⟨b, by simp [hlen, hroom], h, rfl, hroom⟩

/-- Filling writable space and marking it written adds at the back. -/
theorem fill_written_spec {b : Buffer} (h : b.Inv) (s : Bytes) (hs : s.length ≤ b.writableBytes) :
    ∃ b', b.fill s = some b' ∧ b'.written s.length = some {b' with writerIdx := b.writerIdx + s.length} ∧
      b'.buf.length = b.buf.length ∧ b'.readerIdx = b.readerIdx ∧ b'.writerIdx = b.writerIdx ∧
      Inv {b' with writerIdx := b.writerIdx + s.length} ∧
      content {b' with writerIdx := b.writerIdx + s.length} = b.content ++ s := by
  obtain ⟨hr, hw, hsize⟩ := h
  unfold writableBytes at hs
  have hfits : b.writerIdx + s.length ≤ b.buf.length := by omega
  have hlength := length_splice b.buf b.writerIdx s hfits
  refine ⟨{b with buf := splice b.buf b.writerIdx s}, ?_, ?_, hlength, rfl, rfl, ⟨?_, ?_, ?_⟩, ?_⟩
  · simp [fill, copyIn_eq _ _ _ hfits]
  · have hroom : s.length ≤ writableBytes {b with buf := splice b.buf b.writerIdx s} := by
      simp only [writableBytes, hlength]
      omega
    simp [written, hroom]
  · simp only
    omega
  · simp only [hlength]
    exact hfits
  · simp only [hlength]
    exact hsize
  · show slice (splice b.buf b.writerIdx s) b.readerIdx (b.writerIdx + s.length - b.readerIdx) = _
    have hsplit : b.writerIdx + s.length - b.readerIdx = b.readableBytes + s.length := by
      unfold readableBytes
      omega
    have hend : b.readerIdx + b.readableBytes = b.writerIdx := by
      unfold readableBytes
      omega
    rw [hsplit, slice_add, slice_splice_before _ _ _ _ _ hw (by omega), hend, slice_splice_self _ _ _ hw]
    rfl

theorem append_spec {b : Buffer} (h : b.Inv) (s : Bytes) :
    ∃ b', b.append s = some b' ∧ b'.Inv ∧ b'.content = b.content ++ s := by
  obtain ⟨b₁, h₁, hinv₁, hcontent₁, hroom⟩ := ensure_spec h s.length
  obtain ⟨b₂, h₂, h₃, _, _, _, hinv, hcontent⟩ := fill_written_spec hinv₁ s hroom
  refine ⟨{b₂ with writerIdx := b₁.writerIdx + s.length}, ?_, hinv, ?_⟩
  · simp [append, h₁, h₂, h₃]
  · rw [hcontent, hcontent₁]

/-- There are buffers with any content. -/
theorem exists_content (bytes : Bytes) : ∃ b : Buffer, b.Inv ∧ b.content = bytes := by
  obtain ⟨b₀, _, hinv₀, hempty⟩ := create_spec kInit
  obtain ⟨b, _, hinv, hcontent⟩ := append_spec hinv₀ bytes
  rw [hempty, List.nil_append] at hcontent
  exact ⟨b, hinv, hcontent⟩

theorem prepend_spec {b : Buffer} (h : b.Inv) (s : Bytes) (hs : s.length ≤ b.prependableBytes) :
    ∃ b', b.prepend s = some b' ∧ b'.Inv ∧ b'.content = s ++ b.content := by
  obtain ⟨hr, hw, hsize⟩ := h
  have hs' : s.length ≤ b.readerIdx := hs
  have hfits : b.readerIdx - s.length + s.length ≤ b.buf.length := by omega
  have hstart : b.readerIdx - s.length ≤ b.buf.length := by omega
  have hlength := length_splice b.buf (b.readerIdx - s.length) s hfits
  refine ⟨{b with buf := splice b.buf (b.readerIdx - s.length) s, readerIdx := b.readerIdx - s.length},
    ?_, ⟨?_, ?_, ?_⟩, ?_⟩
  · simp [prepend, hs, copyIn_eq _ _ _ hfits]
  · simp only
    omega
  · simp only [hlength]
    exact hw
  · simp only [hlength]
    exact hsize
  · show slice (splice b.buf (b.readerIdx - s.length) s) (b.readerIdx - s.length)
      (b.writerIdx - (b.readerIdx - s.length)) = _
    have hsplit : b.writerIdx - (b.readerIdx - s.length) = s.length + b.readableBytes := by
      unfold readableBytes
      omega
    have hback : b.readerIdx - s.length + s.length = b.readerIdx := Nat.sub_add_cancel hs'
    rw [hsplit, slice_add, slice_splice_self _ _ _ hstart, hback,
      slice_splice_after _ _ _ _ _ hstart (by omega)]
    rfl

theorem retrieve_spec {b : Buffer} (h : b.Inv) (len : Nat) (hlen : len ≤ b.readableBytes) :
    ∃ b', b.retrieve len = some b' ∧ b'.Inv ∧ b'.content = b.content.drop len := by
  by_cases hlt : len < b.readableBytes
  · refine ⟨{b with readerIdx := b.readerIdx + len}, by simp [retrieve, hlen, hlt], ⟨?_, h.writer, h.size⟩, ?_⟩
    · unfold readableBytes at hlt
      simp only
      omega
    · show slice b.buf (b.readerIdx + len) (b.writerIdx - (b.readerIdx + len)) = _
      rw [content, drop_slice, readableBytes, Nat.sub_sub]
  · obtain ⟨hinv, hnil⟩ := retrieveAll_spec h
    refine ⟨b.retrieveAll, by simp [retrieve, hlen, hlt], hinv, ?_⟩
    rw [hnil, List.drop_of_length_le]
    rw [length_content h]
    omega

theorem retrieveUntil_spec {b : Buffer} (h : b.Inv) (stop : Nat) (hlo : b.readerIdx ≤ stop)
    (hhi : stop ≤ b.writerIdx) :
    ∃ b', b.retrieveUntil stop = some b' ∧ b'.Inv ∧ b'.content = b.content.drop (stop - b.readerIdx) := by
  obtain ⟨b', hb', hspec⟩ := retrieve_spec h (stop - b.readerIdx) (by unfold readableBytes; omega)
  exact ⟨b', by simp [retrieveUntil, hlo, hb'], hspec⟩

theorem retrieveAsString_spec {b : Buffer} (h : b.Inv) (len : Nat) (hlen : len ≤ b.readableBytes) :
    ∃ b', b.retrieveAsString len = some (b.content.take len, b') ∧ b'.Inv ∧
      b'.content = b.content.drop len := by
  obtain ⟨b', hb', hspec⟩ := retrieve_spec h len hlen
  refine ⟨b', ?_, hspec⟩
  rw [content, take_slice _ _ _ _ hlen]
  simp [retrieveAsString, hlen, hb']

theorem retrieveAllAsString_spec {b : Buffer} (h : b.Inv) :
    ∃ b', b.retrieveAllAsString = some (b.content, b') ∧ b'.Inv ∧ b'.content = [] := by
  obtain ⟨b', hb', hinv, hcontent⟩ := retrieveAsString_spec h _ (Nat.le_refl _)
  have hlen := length_content h
  rw [List.take_of_length_le (Nat.le_of_eq hlen)] at hb'
  rw [List.drop_of_length_le (Nat.le_of_eq hlen)] at hcontent
  exact ⟨b', hb', hinv, hcontent⟩

/-- What `readFd` returns for a result of `readv`. -/
def readFdReturn : Readv → Int × Option Nat
  | .error errno => (-1, some errno)
  | .data bytes => (bytes.length, none)

/-- The bytes a result of `readv` delivers. -/
def received : Readv → Bytes
  | .error _ => []
  | .data bytes => bytes

/-- The kernel reads at most what the `iovec`s have room for. -/
def Fits (b : Buffer) : Readv → Prop
  | .error _ => True
  | .data bytes => bytes.length ≤ b.iovecLength

/-- `readFd` adds exactly the bytes read, in order, whether or not they spill. -/
theorem readFd_spec {b : Buffer} (h : b.Inv) (r : Readv) :
    ∃ b', b.readFd r = some (readFdReturn r, b') ∧ b'.Inv ∧ b'.content = b.content ++ received r := by
  cases r with
  | error errno => exact ⟨b, rfl, h, (List.append_nil _).symm⟩
  | data bytes =>
    have htake : (bytes.take b.writableBytes).length ≤ b.writableBytes := by
      rw [List.length_take]
      omega
    obtain ⟨b₁, h₁, _, hlen₁, hr₁, hw₁, hinv₁, hcontent₁⟩ := fill_written_spec h _ htake
    by_cases hfit : bytes.length ≤ b.writableBytes
    · rw [List.take_of_length_le hfit] at h₁ hinv₁ hcontent₁
      refine ⟨{b₁ with writerIdx := b.writerIdx + bytes.length}, ?_, hinv₁, hcontent₁⟩
      simp [readFd, List.take_of_length_le hfit, h₁, hfit, hw₁, readFdReturn]
    · -- the writable space is full: its end is the end of the vector
      have hfull : b.writerIdx + (bytes.take b.writableBytes).length = b₁.buf.length := by
        have hw := h.writer
        rw [List.length_take, Nat.min_eq_left (by omega), hlen₁]
        unfold writableBytes
        omega
      rw [hfull] at hinv₁ hcontent₁
      obtain ⟨b₂, h₂, hinv₂, hcontent₂⟩ := append_spec hinv₁ (bytes.drop b.writableBytes)
      refine ⟨b₂, ?_, hinv₂, ?_⟩
      · simp [readFd, h₁, hfit, h₂, readFdReturn]
      · rw [hcontent₂, hcontent₁, List.append_assoc, List.take_append_drop]
        rfl

end Buffer
end Chtho.Net
