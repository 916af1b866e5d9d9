import Chtho.Lib.ByteOrder
import Chtho.Net.Buffer

/-! Integers in a `Buffer`, in network order.

An integer is converted with `htons` or `htonl` and appended as the object it is in memory; it
is read by copying the bytes into an object and converting that. Both conversions work on
unsigned numbers, and the byte order of the host is a parameter. A single byte is not
converted. Whatever the order, the bytes in the buffer are the big-endian two's complement
encoding (`appendNet_spec`), and they are read as the integer they encode (`peekNet_spec`).
Appending and retrieving are a queue's operations, so what was appended comes out unharmed
behind any retrieval of what was in the buffer before. -/
namespace Chtho.Net
open Lib

namespace Buffer

/-- `htons` and `htonl`, and back `ntohs` and `ntohl`: on the bits of an integer of `n` bytes. -/
def hton (order : ByteOrder) (n : Nat) (x : BitVec (8 * n)) : BitVec (8 * n) :=
  BitVec.ofNat (8 * n) (order.toNetwork n x.toNat)

def appendInt (order : ByteOrder) (n : Nat) (b : Buffer) (x : BitVec (8 * n)) : Option Buffer :=
  b.append (order.stored n (hton order n x).toNat)

def peekInt (order : ByteOrder) (n : Nat) (b : Buffer) : Option (BitVec (8 * n)) := do
  assert (n ≤ b.readableBytes)
  let x := BitVec.ofNat (8 * n) (order.loaded (slice b.buf b.readerIdx n))
  some (hton order n x)

def appendInt8 (b : Buffer) (x : Int8) : Option Buffer := b.append [x.toUInt8]
def appendInt16 (order : ByteOrder) (b : Buffer) (x : Int16) : Option Buffer := b.appendInt order 2 x.toBitVec
def appendInt32 (order : ByteOrder) (b : Buffer) (x : Int32) : Option Buffer := b.appendInt order 4 x.toBitVec

def peekInt8 (b : Buffer) : Option Int8 := do
  assert (1 ≤ b.readableBytes)
  let x ← b.buf[b.readerIdx]?
  some x.toInt8

def peekInt16 (order : ByteOrder) (b : Buffer) : Option Int16 := do
  let x ← b.peekInt order 2
  some (Int16.ofBitVec x)

def peekInt32 (order : ByteOrder) (b : Buffer) : Option Int32 := do
  let x ← b.peekInt order 4
  some (Int32.ofBitVec x)

def readInt8 (b : Buffer) : Option (Int8 × Buffer) := do
  let res ← b.peekInt8
  let b ← b.retrieve 1
  some (res, b)

def readInt16 (order : ByteOrder) (b : Buffer) : Option (Int16 × Buffer) := do
  let res ← b.peekInt16 order
  let b ← b.retrieve 2
  some (res, b)

def readInt32 (order : ByteOrder) (b : Buffer) : Option (Int32 × Buffer) := do
  let res ← b.peekInt32 order
  let b ← b.retrieve 4
  some (res, b)

end Buffer

/-! ### The three widths as one -/

inductive IntWidth where
  | w8
  | w16
  | w32
deriving DecidableEq, Repr

def IntWidth.bytes : IntWidth → Nat
  | .w8 => 1
  | .w16 => 2
  | .w32 => 4

inductive NetInt where
  | int8 (x : Int8)
  | int16 (x : Int16)
  | int32 (x : Int32)
deriving DecidableEq

namespace NetInt

def width : NetInt → IntWidth
  | .int8 _ => .w8
  | .int16 _ => .w16
  | .int32 _ => .w32

def value : NetInt → Int
  | .int8 x => x.toInt
  | .int16 x => x.toInt
  | .int32 x => x.toInt

/-- The two's complement encoding, most significant byte first. -/
def encoding (x : NetInt) : Bytes :=
  bigEndian x.width.bytes (x.value % 2 ^ (8 * x.width.bytes)).toNat

@[simp] theorem length_encoding (x : NetInt) : x.encoding.length = x.width.bytes := length_bigEndian _ _

end NetInt

namespace Buffer

def appendNet (order : ByteOrder) (b : Buffer) : NetInt → Option Buffer
  | .int8 x => b.appendInt8 x
  | .int16 x => b.appendInt16 order x
  | .int32 x => b.appendInt32 order x

def peekNet (order : ByteOrder) (b : Buffer) : IntWidth → Option NetInt
  | .w8 => b.peekInt8.map .int8
  | .w16 => (b.peekInt16 order).map .int16
  | .w32 => (b.peekInt32 order).map .int32

def readNet (order : ByteOrder) (b : Buffer) : IntWidth → Option (NetInt × Buffer)
  | .w8 => b.readInt8.map fun r => (.int8 r.1, r.2)
  | .w16 => (b.readInt16 order).map fun r => (.int16 r.1, r.2)
  | .w32 => (b.readInt32 order).map fun r => (.int32 r.1, r.2)

/-- Reading integers of these widths, one behind the other. -/
def readNets (order : ByteOrder) (b : Buffer) : List IntWidth → Option (List NetInt × Buffer)
  | [] => some ([], b)
  | w :: ws => do
    let (x, b) ← b.readNet order w
    let (xs, b) ← b.readNets order ws
    some (x :: xs, b)

/-! ### Appending -/

theorem toNat_lt_pow {n : Nat} (x : BitVec (8 * n)) : x.toNat < 256 ^ n := by
  have hlt := x.isLt
  rwa [Nat.pow_mul] at hlt

/-- The bits of an integer, as the number its value is in two's complement. -/
theorem toNat_eq_toInt_emod {w : Nat} (x : BitVec w) : x.toNat = (x.toInt % 2 ^ w).toNat := by
  have hbits := congrArg BitVec.toNat (BitVec.ofInt_toInt (x := x))
  rw [BitVec.toNat_ofInt] at hbits
  exact_mod_cast hbits.symm

theorem encoding_int8 (x : Int8) : (NetInt.int8 x).encoding = [x.toUInt8] := by
  have hbits : (x.toInt % 2 ^ 8).toNat = x.toUInt8.toNat := (toNat_eq_toInt_emod x.toBitVec).symm
  show bigEndian 1 (x.toInt % 2 ^ 8).toNat = [x.toUInt8]
  rw [hbits, bigEndian, bigEndian, UInt8.ofNat_toNat]
  rfl

theorem toNat_hton (order : ByteOrder) {n : Nat} (x : BitVec (8 * n)) :
    (hton order n x).toNat = order.toNetwork n x.toNat := by
  have hlt := order.toNetwork_lt (toNat_lt_pow x)
  rw [hton, BitVec.toNat_ofNat, Nat.pow_mul, Nat.mod_eq_of_lt hlt]

theorem appendInt_spec {b : Buffer} (h : b.Inv) (order : ByteOrder) {n : Nat} (x : BitVec (8 * n)) :
    ∃ b', b.appendInt order n x = some b' ∧ b'.Inv ∧ b'.content = b.content ++ bigEndian n x.toNat := by
  obtain ⟨b', happend, hinv, hcontent⟩ := append_spec h (order.stored n (hton order n x).toNat)
  rw [toNat_hton, order.stored_toNetwork] at hcontent
  exact ⟨b', happend, hinv, hcontent⟩

/-- Every width puts its encoding into the buffer. -/
theorem appendNet_spec {b : Buffer} (h : b.Inv) (order : ByteOrder) (x : NetInt) :
    ∃ b', b.appendNet order x = some b' ∧ b'.Inv ∧ b'.content = b.content ++ x.encoding := by
  cases x with
  | int8 x =>
    rw [encoding_int8]
    exact append_spec h [x.toUInt8]
  | int16 x =>
    have hspec := appendInt_spec h order (n := 2) x.toBitVec
    rwa [toNat_eq_toInt_emod] at hspec
  | int32 x =>
    have hspec := appendInt_spec h order (n := 4) x.toBitVec
    rwa [toNat_eq_toInt_emod] at hspec

/-! ### Reading -/

/-- Bytes at the front of the readable region. -/
theorem slice_front {b : Buffer} (h : b.Inv) {front rest : Bytes} (hcontent : b.content = front ++ rest) :
    front.length ≤ b.readableBytes ∧ slice b.buf b.readerIdx front.length = front := by
  have hlen : front.length ≤ b.readableBytes := by
    rw [← length_content h, hcontent, List.length_append]
    omega
  refine ⟨hlen, ?_⟩
  rw [← take_slice _ _ _ _ hlen]
  show b.content.take front.length = front
  rw [hcontent, List.take_left]

theorem peekInt_spec {b : Buffer} (h : b.Inv) (order : ByteOrder) {n : Nat} (x : BitVec (8 * n)) {rest : Bytes}
    (hcontent : b.content = bigEndian n x.toNat ++ rest) : b.peekInt order n = some x := by
  obtain ⟨hlen, hslice⟩ := slice_front h hcontent
  rw [length_bigEndian] at hlen hslice
  have hround : hton order n (BitVec.ofNat (8 * n) (order.loaded (slice b.buf b.readerIdx n))) = x := by
    apply BitVec.eq_of_toNat_eq
    have hlt := order.loaded_lt (bigEndian n x.toNat)
    rw [length_bigEndian] at hlt
    rw [toNat_hton, hslice, BitVec.toNat_ofNat, Nat.pow_mul, Nat.mod_eq_of_lt hlt,
      order.toNetwork_loaded (toNat_lt_pow x)]
  simp [peekInt, hlen, hround]

/-- An encoding at the front is read as its integer. -/
theorem peekNet_spec {b : Buffer} (h : b.Inv) (order : ByteOrder) {x : NetInt} {rest : Bytes}
    (hcontent : b.content = x.encoding ++ rest) : b.peekNet order x.width = some x := by
  cases x with
  | int8 x =>
    rw [encoding_int8] at hcontent
    obtain ⟨hlen, hslice⟩ := slice_front h hcontent
    have hcell : b.buf[b.readerIdx]? = some x.toUInt8 := by
      have hget := getElem?_slice b.buf b.readerIdx 1 0
      simp only [List.length_singleton] at hslice
      rw [hslice] at hget
      simpa using hget.symm
    have hread : 1 ≤ b.readableBytes := hlen
    simp [peekNet, peekInt8, hread, hcell, NetInt.width]
  | int16 x =>
    have hpeek : b.peekInt order 2 = some x.toBitVec :=
      peekInt_spec h order (n := 2) x.toBitVec (by rw [toNat_eq_toInt_emod]; exact hcontent)
    simp [peekNet, peekInt16, hpeek, NetInt.width]
  | int32 x =>
    have hpeek : b.peekInt order 4 = some x.toBitVec :=
      peekInt_spec h order (n := 4) x.toBitVec (by rw [toNat_eq_toInt_emod]; exact hcontent)
    simp [peekNet, peekInt32, hpeek, NetInt.width]

/-- Reading is looking and retrieving. -/
theorem readNet_eq (b : Buffer) (order : ByteOrder) (w : IntWidth) :
    b.readNet order w = (b.peekNet order w).bind fun x => (b.retrieve w.bytes).map (x, ·) := by
  cases w with
  | w8 => cases hpeek : b.peekInt8 <;> cases hretrieve : b.retrieve 1 <;>
      simp [readNet, peekNet, readInt8, hpeek, hretrieve, IntWidth.bytes]
  | w16 => cases hpeek : b.peekInt16 order <;> cases hretrieve : b.retrieve 2 <;>
      simp [readNet, peekNet, readInt16, hpeek, hretrieve, IntWidth.bytes]
  | w32 => cases hpeek : b.peekInt32 order <;> cases hretrieve : b.retrieve 4 <;>
      simp [readNet, peekNet, readInt32, hpeek, hretrieve, IntWidth.bytes]

/-- There is something to see when there are enough bytes. -/
theorem peekNet_isSome {b : Buffer} (h : b.Inv) (order : ByteOrder) {w : IntWidth} (hlen : w.bytes ≤ b.readableBytes) :
    (b.peekNet order w).isSome := by
  cases w with
  | w8 =>
    have hbound : b.readerIdx < b.buf.length := by
      have hw := h.writer
      unfold readableBytes at hlen
      simp only [IntWidth.bytes] at hlen
      omega
    have hone : 1 ≤ b.readableBytes := hlen
    simp [peekNet, peekInt8, hone, List.getElem?_eq_getElem hbound]
  | w16 =>
    have htwo : 2 ≤ b.readableBytes := hlen
    simp [peekNet, peekInt16, peekInt, htwo]
  | w32 =>
    have hfour : 4 ≤ b.readableBytes := hlen
    simp [peekNet, peekInt32, peekInt, hfour]

theorem readNets_spec (order : ByteOrder) {b : Buffer} (h : b.Inv) {xs : List NetInt} {rest : Bytes}
    (hcontent : b.content = xs.flatMap NetInt.encoding ++ rest) :
    ∃ b', b.readNets order (xs.map NetInt.width) = some (xs, b') ∧ b'.Inv ∧ b'.content = rest := by
  induction xs generalizing b with
  | nil => exact ⟨b, rfl, h, hcontent⟩
  | cons x xs ih =>
    rw [List.flatMap_cons, List.append_assoc] at hcontent
    have hpeek := peekNet_spec h order hcontent
    obtain ⟨hlen, _⟩ := slice_front h hcontent
    obtain ⟨b₁, hretrieve, hinv₁, hcontent₁⟩ := retrieve_spec h _ hlen
    rw [hcontent, List.drop_left] at hcontent₁
    rw [NetInt.length_encoding] at hretrieve
    obtain ⟨b', hread, hinv', hrest⟩ := ih hinv₁ hcontent₁
    exact ⟨b', by simp [readNets, readNet_eq, hpeek, hretrieve, hread], hinv', hrest⟩

theorem peekNet_length {b : Buffer} {order : ByteOrder} {w : IntWidth} {x : NetInt} (h : b.peekNet order w = some x) :
    w.bytes ≤ b.readableBytes := by
  by_contra hlen
  cases w with
  | w8 =>
    have hone : ¬ 1 ≤ b.readableBytes := hlen
    simp [peekNet, peekInt8, hone] at h
  | w16 =>
    have htwo : ¬ 2 ≤ b.readableBytes := hlen
    simp [peekNet, peekInt16, peekInt, htwo] at h
  | w32 =>
    have hfour : ¬ 4 ≤ b.readableBytes := hlen
    simp [peekNet, peekInt32, peekInt, hfour] at h

/-- What is read is what a look at the buffer has shown. -/
theorem peekNet_eq_readNet {b : Buffer} (h : b.Inv) (order : ByteOrder) (w : IntWidth) :
    b.peekNet order w = (b.readNet order w).map Prod.fst := by
  rw [readNet_eq]
  cases hpeek : b.peekNet order w with
  | none => rfl
  | some x =>
    obtain ⟨b', hretrieve, _⟩ := retrieve_spec h _ (peekNet_length hpeek)
    simp [hretrieve]

/-! ### Integers appended while others' bytes are retrieved -/

/-- A call of a user. `retrieveUntil` is given the distance of its pointer from `peek()`. -/
inductive Call where
  | append (x : NetInt)
  | retrieve (n : Nat)
  | retrieveUntil (n : Nat)
  | retrieveAsString (n : Nat)
  | readInt (w : IntWidth)

def performCall (order : ByteOrder) (b : Buffer) : Call → Option Buffer
  | .append x => b.appendNet order x
  | .retrieve n => b.retrieve n
  | .retrieveUntil n => b.retrieveUntil (b.readerIdx + n)
  | .retrieveAsString n => (b.retrieveAsString n).map Prod.snd
  | .readInt w => (b.readNet order w).map Prod.snd

/-- The bytes a call takes from the front. -/
def Call.taken : Call → Nat
  | .append _ => 0
  | .retrieve n | .retrieveUntil n | .retrieveAsString n => n
  | .readInt w => w.bytes

/-- What a call appends. -/
def Call.appended : Call → List NetInt
  | .append x => [x]
  | .retrieve _ | .retrieveUntil _ | .retrieveAsString _ | .readInt _ => []

def taken (calls : List Call) : Nat := (calls.map Call.taken).sum

def appended (calls : List Call) : List NetInt := calls.flatMap Call.appended

/-- One call: it takes from the front, or it appends. -/
theorem performCall_spec (order : ByteOrder) {b : Buffer} (h : b.Inv) (call : Call)
    (hlen : call.taken ≤ b.readableBytes) :
    ∃ b', b.performCall order call = some b' ∧ b'.Inv ∧
      b'.content = b.content.drop call.taken ++ call.appended.flatMap NetInt.encoding := by
  cases call with
  | append x =>
    obtain ⟨b', happend, hinv, hcontent⟩ := appendNet_spec h order x
    exact ⟨b', happend, hinv, by simp [hcontent, Call.taken, Call.appended]⟩
  | retrieve n =>
    obtain ⟨b', hretrieve, hinv, hcontent⟩ := retrieve_spec h n hlen
    exact ⟨b', hretrieve, hinv, by simp [hcontent, Call.taken, Call.appended]⟩
  | retrieveUntil n =>
    have hn : n ≤ b.writerIdx - b.readerIdx := hlen
    have hr := h.reader
    obtain ⟨b', hretrieve, hinv, hcontent⟩ := retrieveUntil_spec h (b.readerIdx + n) (by omega) (by omega)
    rw [Nat.add_sub_cancel_left] at hcontent
    exact ⟨b', hretrieve, hinv, by simp [hcontent, Call.taken, Call.appended]⟩
  | retrieveAsString n =>
    obtain ⟨b', hretrieve, hinv, hcontent⟩ := retrieveAsString_spec h n hlen
    exact ⟨b', by simp [performCall, hretrieve], hinv, by simp [hcontent, Call.taken, Call.appended]⟩
  | readInt w =>
    obtain ⟨x, hpeek⟩ := Option.isSome_iff_exists.mp (peekNet_isSome h order hlen)
    obtain ⟨b', hretrieve, hinv, hcontent⟩ := retrieve_spec h w.bytes hlen
    exact ⟨b', by simp [performCall, readNet_eq, hpeek, hretrieve], hinv, by simp [hcontent, Call.taken, Call.appended]⟩

/-- As long as only earlier bytes are taken, the integers stay behind what is left of them. -/
theorem calls_spec (order : ByteOrder) {b : Buffer} (h : b.Inv) {earlier behind : Bytes}
    (hcontent : b.content = earlier ++ behind) (calls : List Call) (hlen : taken calls ≤ earlier.length) :
    ∃ b', calls.foldlM (performCall order) b = some b' ∧ b'.Inv ∧
      b'.content = earlier.drop (taken calls) ++ (behind ++ (appended calls).flatMap NetInt.encoding) := by
  induction calls generalizing b earlier behind with
  | nil => exact ⟨b, rfl, h, by simp [hcontent, taken, appended]⟩
  | cons call calls ih =>
    have hsum : taken (call :: calls) = call.taken + taken calls := by simp [taken]
    rw [hsum] at hlen
    have hreadable : call.taken ≤ b.readableBytes := by
      rw [← length_content h, hcontent, List.length_append]
      omega
    obtain ⟨b₁, hcall, hinv₁, hcontent₁⟩ := performCall_spec order h call hreadable
    rw [hcontent, List.drop_append_of_le_length (by omega), List.append_assoc] at hcontent₁
    obtain ⟨b', hcalls, hinv', hcontent'⟩ := ih hinv₁ hcontent₁ (by rw [List.length_drop]; omega)
    refine ⟨b', by simp [hcall, hcalls], hinv', ?_⟩
    rw [hcontent', hsum, List.drop_drop, appended, appended, List.flatMap_cons, List.flatMap_append, List.append_assoc]

/-- **Integers survive the buffer.** Integers are appended to a buffer while bytes that were
there before are retrieved, in any order. What is in the buffer then are their encodings behind
the earlier bytes that are left; when these are retrieved, reading with the same widths gives
the integers, and leaves nothing. At every point, a look shows what would be read. -/
theorem readNets_appended (order : ByteOrder) {b : Buffer} (h : b.Inv) (calls : List Call)
    (hlen : taken calls ≤ b.readableBytes) :
    ∃ b₁ b₂ b₃, calls.foldlM (performCall order) b = some b₁ ∧
      b₁.content = b.content.drop (taken calls) ++ (appended calls).flatMap NetInt.encoding ∧
      b₁.retrieve (b.readableBytes - taken calls) = some b₂ ∧
      b₂.readNets order ((appended calls).map NetInt.width) = some (appended calls, b₃) ∧ b₃.content = [] ∧
      ∀ b : Buffer, b.Inv → ∀ w, b.peekNet order w = (b.readNet order w).map Prod.fst := by
  have hearlier := length_content h
  obtain ⟨b₁, hcalls, hinv₁, hcontent₁⟩ :=
    calls_spec order h (List.append_nil _).symm calls (hearlier.symm ▸ hlen)
  rw [List.nil_append] at hcontent₁
  -- what is left of the earlier bytes
  have hleft : (b.content.drop (taken calls)).length = b.readableBytes - taken calls := by
    rw [List.length_drop, hearlier]
  obtain ⟨hfront, _⟩ := slice_front hinv₁ hcontent₁
  obtain ⟨b₂, hretrieve, hinv₂, hcontent₂⟩ := retrieve_spec hinv₁ _ hfront
  rw [hcontent₁, List.drop_left, ← List.append_nil (List.flatMap _ _)] at hcontent₂
  rw [hleft] at hretrieve
  obtain ⟨b₃, hread, _, hrest⟩ := readNets_spec order hinv₂ hcontent₂
  exact ⟨b₁, b₂, b₃, hcalls, hcontent₁, hretrieve, hread, hrest, fun b hinv w => peekNet_eq_readNet hinv order w⟩

/-- The calls of a test, and two bytes taken in between. -/
def mixedCalls : List Call :=
  [.append (.int8 (-1)), .retrieve 1, .append (.int16 (-2)), .readInt .w8, .append (.int32 (-3))]

theorem readNets_appended_mixed :
    ∃ b b₁ b₂ b₃, b.content = ascii "HTTP" ∧ mixedCalls.foldlM (performCall .little) b = some b₁ ∧
      b₁.content = ascii "TP" ++ [255, 255, 254, 255, 255, 255, 253] ∧ b₁.retrieve 2 = some b₂ ∧
      b₂.readNets .little [.w8, .w16, .w32] = some ([.int8 (-1), .int16 (-2), .int32 (-3)], b₃) := by
  obtain ⟨b, hinv, hcontent⟩ := exists_content (ascii "HTTP")
  have hreadable : b.readableBytes = 4 := by
    rw [← length_content hinv, hcontent]
    rfl
  have hlen : taken mixedCalls ≤ b.readableBytes := by
    rw [hreadable]
    decide
  obtain ⟨b₁, b₂, b₃, hcalls, hcontent₁, hretrieve, hread, _, _⟩ := readNets_appended .little hinv mixedCalls hlen
  rw [hcontent] at hcontent₁
  rw [hreadable] at hretrieve
  exact ⟨b, b₁, b₂, b₃, hcontent, hcalls, hcontent₁.trans (by decide), hretrieve, hread⟩

end Buffer
end Chtho.Net
