import Mathlib.Data.List.Induction
import Mathlib.Tactic.Ring
import Chtho.Lib.Bytes

/-! Numbers of a fixed count of bytes, and the order their bytes have in memory.

A number is stored in the byte order of the host and sent most significant byte first.
`toNetwork` is the conversion `htons` and `htonl` make, on the number: the identity on a host
with that order, the reversal of the bytes on the other. What is in memory behind it is the
big-endian encoding on both (`stored_toNetwork`), and read from memory and converted, it is
the number again (`toNetwork_loaded`). -/
namespace Chtho.Lib

/-- The `n` bytes of a number, most significant first. -/
def bigEndian : Nat → Nat → Bytes
  | 0, _ => []
  | n + 1, v => bigEndian n (v / 256) ++ [UInt8.ofNat v]

/-- The number whose bytes these are. -/
def ofBigEndian (bytes : Bytes) : Nat := bytes.foldl (fun v b => 256 * v + b.toNat) 0

inductive ByteOrder where
  | little
  | big
deriving DecidableEq, Repr

namespace ByteOrder

/-- What memory holds of an object of `n` bytes. -/
def stored (order : ByteOrder) (n v : Nat) : Bytes :=
  match order with
  | .little => (bigEndian n v).reverse
  | .big => bigEndian n v

/-- The object whose bytes memory holds. -/
def loaded (order : ByteOrder) (bytes : Bytes) : Nat :=
  match order with
  | .little => ofBigEndian bytes.reverse
  | .big => ofBigEndian bytes

/-- From the order of the host to that of the network, or back. -/
def toNetwork (order : ByteOrder) (n v : Nat) : Nat :=
  match order with
  | .little => ofBigEndian (bigEndian n v).reverse
  | .big => v

end ByteOrder

/-! ### Bytes and numbers -/

@[simp] theorem length_bigEndian (n v : Nat) : (bigEndian n v).length = n := by
  induction n generalizing v with
  | zero => rfl
  | succ n ih => simp [bigEndian, ih]

theorem ofBigEndian_concat (bytes : Bytes) (b : UInt8) :
    ofBigEndian (bytes ++ [b]) = 256 * ofBigEndian bytes + b.toNat := by
  simp [ofBigEndian]

theorem toNat_ofNat_mod (v : Nat) : (UInt8.ofNat v).toNat = v % 256 := UInt8.toNat_ofNat

theorem ofBigEndian_bigEndian (n v : Nat) : ofBigEndian (bigEndian n v) = v % 256 ^ n := by
  induction n generalizing v with
  | zero => simp [bigEndian, ofBigEndian, Nat.mod_one]
  | succ n ih =>
    rw [bigEndian, ofBigEndian_concat, ih, toNat_ofNat_mod, Nat.pow_succ', Nat.mod_mul]
    ring

theorem bigEndian_ofBigEndian (bytes : Bytes) : bigEndian bytes.length (ofBigEndian bytes) = bytes := by
  induction bytes using List.reverseRecOn with
  | nil => rfl
  | append_singleton bytes b ih =>
    have hb : b.toNat < 256 := b.toNat_lt
    have hdiv : ofBigEndian (bytes ++ [b]) / 256 = ofBigEndian bytes := by
      rw [ofBigEndian_concat]
      omega
    have hlast : UInt8.ofNat (ofBigEndian (bytes ++ [b])) = b := by
      apply UInt8.toNat_inj.mp
      rw [toNat_ofNat_mod, ofBigEndian_concat]
      omega
    rw [List.length_append, List.length_singleton, bigEndian, hdiv, hlast, ih]

theorem ofBigEndian_lt (bytes : Bytes) : ofBigEndian bytes < 256 ^ bytes.length := by
  have hmod := ofBigEndian_bigEndian bytes.length (ofBigEndian bytes)
  rw [bigEndian_ofBigEndian] at hmod
  rw [hmod]
  exact Nat.mod_lt _ (Nat.pow_pos (by decide))

/-! ### Conversions -/

namespace ByteOrder

theorem toNetwork_lt (order : ByteOrder) {n v : Nat} (h : v < 256 ^ n) : order.toNetwork n v < 256 ^ n := by
  cases order with
  | little =>
    have hlt := ofBigEndian_lt (bigEndian n v).reverse
    rwa [List.length_reverse, length_bigEndian] at hlt
  | big => exact h

/-- The bytes in the other order are those of a number, too. -/
theorem bigEndian_swapped (n v : Nat) : bigEndian n (ofBigEndian (bigEndian n v).reverse) = (bigEndian n v).reverse := by
  have hround := bigEndian_ofBigEndian (bigEndian n v).reverse
  rwa [List.length_reverse, length_bigEndian] at hround

/-- A converted number lies in memory most significant byte first. -/
theorem stored_toNetwork (order : ByteOrder) (n v : Nat) : order.stored n (order.toNetwork n v) = bigEndian n v := by
  cases order with
  | little => rw [stored, toNetwork, bigEndian_swapped, List.reverse_reverse]
  | big => rfl

/-- A number that lies in memory so is read by loading and converting it. -/
theorem toNetwork_loaded (order : ByteOrder) {n v : Nat} (h : v < 256 ^ n) :
    order.toNetwork n (order.loaded (bigEndian n v)) = v := by
  cases order with
  | little =>
    rw [loaded, toNetwork, bigEndian_swapped, List.reverse_reverse, ofBigEndian_bigEndian, Nat.mod_eq_of_lt h]
  | big => rw [loaded, toNetwork, ofBigEndian_bigEndian, Nat.mod_eq_of_lt h]

theorem loaded_lt (order : ByteOrder) (bytes : Bytes) : order.loaded bytes < 256 ^ bytes.length := by
  cases order with
  | little =>
    have hlt := ofBigEndian_lt bytes.reverse
    rwa [List.length_reverse] at hlt
  | big => exact ofBigEndian_lt bytes

end ByteOrder
end Chtho.Lib
