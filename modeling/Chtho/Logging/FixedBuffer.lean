import Chtho.Lib.Bytes
import Chtho.Lib.Memory

/-! `FixedBuffer`: an array of `LEN` bytes, filled from its start.

A `FixedBuffer` is the memory from `data_` on, of which `data_` is the first `LEN`
bytes, and the offset of `cur_`. Nothing stops a write behind `data_`: it is in the
record of the memory. -/
namespace Chtho.Logging
open Lib

def kSmall : Nat := 4000

def kLarge : Nat := 4000 * 1000

structure FixedBuffer (LEN : Nat) where
  mem : Memory UInt8
  cur : Nat

namespace FixedBuffer
variable {LEN : Nat}

/-- `data_` is not initialised. -/
def create (LEN : Nat) (data : Nat → UInt8) : FixedBuffer LEN := ⟨⟨data, []⟩, 0⟩

def length (b : FixedBuffer LEN) : Nat := b.cur

/-- The distance from `cur_` to the end, cast to `int`. -/
def avail (b : FixedBuffer LEN) : Int := ((LEN : Int) - b.cur).bmod (2 ^ 32)

def add (b : FixedBuffer LEN) (len : Nat) : FixedBuffer LEN := {b with cur := b.cur + len}

def reset (b : FixedBuffer LEN) : FixedBuffer LEN := {b with cur := 0}

def zero (b : FixedBuffer LEN) : FixedBuffer LEN := {b with mem := b.mem.fill 0 LEN 0}

/-- What is available is compared as a `size_t`. -/
def append (b : FixedBuffer LEN) (buf : Bytes) : FixedBuffer LEN :=
  if (b.avail % 2 ^ 64).toNat > buf.length then ⟨b.mem.store b.cur buf, b.cur + buf.length⟩ else b

/-- The text in the buffer. -/
def text (b : FixedBuffer LEN) : Bytes := b.mem.load 0 b.cur

@[simp] theorem cur_create (data : Nat → UInt8) : (create LEN data).cur = 0 := rfl
@[simp] theorem cur_reset (b : FixedBuffer LEN) : b.reset.cur = 0 := rfl
@[simp] theorem cur_zero (b : FixedBuffer LEN) : b.zero.cur = b.cur := rfl

variable {b : FixedBuffer LEN}

theorem text_of_cur (h : b.cur = 0) : b.text = [] := by
  rw [text, h]
  rfl

/-! ### Buffers whose `LEN` is an `int` -/

theorem avail_eq (hLEN : LEN < 2 ^ 31) (h : b.cur ≤ LEN) : b.avail = (LEN : Int) - b.cur :=
  Int.bmod_eq_of_le (by omega) (by omega)

/-- `append` takes a text for which there is more than enough room, and no other. -/
theorem append_eq (hLEN : LEN < 2 ^ 31) (h : b.cur ≤ LEN) (buf : Bytes) :
    b.append buf = if b.cur + buf.length < LEN then ⟨b.mem.store b.cur buf, b.cur + buf.length⟩ else b := by
  unfold append
  rw [avail_eq hLEN h]
  by_cases hroom : b.cur + buf.length < LEN
  · rw [if_pos hroom, if_pos (by omega)]
  · rw [if_neg hroom, if_neg (by omega)]

theorem cur_append_le (hLEN : LEN < 2 ^ 31) (h : b.cur ≤ LEN) (buf : Bytes) : (b.append buf).cur ≤ LEN := by
  rw [append_eq hLEN h]
  split
  case isTrue hroom => exact Nat.le_of_lt hroom
  case isFalse => exact h

/-- A text with room for it is appended whole. -/
theorem text_append (hLEN : LEN < 2 ^ 31) {buf : Bytes} (hroom : b.cur + buf.length < LEN) :
    (b.append buf).text = b.text ++ buf := by
  have hcur : b.cur ≤ LEN := by omega
  have hchanged := b.mem.changed_store buf (Nat.le_refl (b.cur + buf.length))
  rw [append_eq hLEN hcur, if_pos hroom, text, Memory.load_add, Nat.zero_add, Memory.load_store,
    hchanged.load (Nat.le_of_eq (Nat.zero_add b.cur))]
  rfl

end FixedBuffer
end Chtho.Logging
