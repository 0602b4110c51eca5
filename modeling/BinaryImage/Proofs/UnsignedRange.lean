import BinaryImage.Bytes.Unsigned
import Mathlib.Algebra.Ring.Nat

/-!
The range of unsigned integers: what `width` bytes hold lies below `256 ^ width`, and a value
written in `width` bytes is read back modulo that bound.
-/

namespace BinaryImage

namespace Unsigned

theorem decode_little_lt (bytes : Bytes) : decodeLittle bytes < 256 ^ bytes.length := by
  induction bytes with
  | nil => simp [decodeLittle]
  | cons byte rest ih =>
    have small := byte.toNat_lt
    simp only [decodeLittle, List.length_cons, Nat.pow_succ]
    omega

-- Writing keeps the low bytes of a value, so reading it back is exact where it fits.
theorem decode_encode_little (width value : Nat) :
    decodeLittle (encodeLittle width value) = value % 256 ^ width := by
  induction width generalizing value with
  | zero => simp [encodeLittle, decodeLittle, Nat.mod_one]
  | succ width ih =>
    have low : (UInt8.ofNat value).toNat = value % 256 := by simp
    rw [encodeLittle, decodeLittle, ih, low, Nat.pow_succ, Nat.mul_comm (256 ^ width) 256,
      Nat.mod_mul]

end Unsigned

namespace ByteOrder

theorem decode_lt (order : ByteOrder) (bytes : Bytes) :
    order.decode bytes < 256 ^ bytes.length := by
  cases order with
  | little => exact Unsigned.decode_little_lt bytes
  | big => simpa [decode] using Unsigned.decode_little_lt bytes.reverse

theorem decode_encode (order : ByteOrder) (width value : Nat) :
    order.decode (order.encode width value) = value % 256 ^ width := by
  cases order <;> simp [decode, encode, Unsigned.decode_encode_little]

end ByteOrder

end BinaryImage
