import BinaryImage.Bytes.Basic

/-!
Unsigned integers in either byte order. Encoding keeps the low bytes of a value, so it is exact
below `256 ^ width` and decoding takes it back there.
-/

namespace BinaryImage

inductive ByteOrder where
  | little
  | big
  deriving DecidableEq

namespace Unsigned

def decodeLittle : Bytes → Nat
  | [] => 0
  | byte :: rest => byte.toNat + 256 * decodeLittle rest

def encodeLittle : Nat → Nat → Bytes
  | 0, _ => []
  | width + 1, value => UInt8.ofNat value :: encodeLittle width (value / 256)

theorem length_encode_little (width value : Nat) : (encodeLittle width value).length = width := by
  induction width generalizing value with
  | zero => rfl
  | succ width ih => simp [encodeLittle, ih]

theorem encode_decode_little (bytes : Bytes) :
    encodeLittle bytes.length (decodeLittle bytes) = bytes := by
  induction bytes with
  | nil => rfl
  | cons byte rest ih =>
    have small := byte.toNat_lt
    have low : UInt8.ofNat (byte.toNat + 256 * decodeLittle rest) = byte := by
      apply UInt8.toNat_inj.mp
      simp
    have high : (byte.toNat + 256 * decodeLittle rest) / 256 = decodeLittle rest := by omega
    rw [List.length_cons, decodeLittle, encodeLittle, low, high, ih]

end Unsigned

namespace ByteOrder

def decode : ByteOrder → Bytes → Nat
  | little, bytes => Unsigned.decodeLittle bytes
  | big, bytes => Unsigned.decodeLittle bytes.reverse

def encode : ByteOrder → (width value : Nat) → Bytes
  | little, width, value => Unsigned.encodeLittle width value
  | big, width, value => (Unsigned.encodeLittle width value).reverse

theorem length_encode (order : ByteOrder) (width value : Nat) :
    (order.encode width value).length = width := by
  cases order <;> simp [encode, Unsigned.length_encode_little]

theorem encode_decode (order : ByteOrder) (bytes : Bytes) :
    order.encode bytes.length (order.decode bytes) = bytes := by
  cases order with
  | little => exact Unsigned.encode_decode_little bytes
  | big =>
    have reversed := Unsigned.encode_decode_little bytes.reverse
    rw [List.length_reverse] at reversed
    simp only [encode, decode, reversed, List.reverse_reverse]

end ByteOrder

end BinaryImage
