import BinaryImage.Bytes.Basic

/-!
UTF-8 text. Decoding never fails: each maximal run of bytes that starts a sequence but cannot be
finished becomes one replacement character, and the byte that broke the run is read afresh.
-/

namespace BinaryImage.Text.Utf8

def encode (text : String) : Bytes := text.toList.flatMap String.utf8EncodeChar

def replacement : Char := Char.ofNat 0xfffd

/-- A sequence still owed `owed + 1` bytes, the next of them between `low` and `high`; `value`
holds the bits read so far. -/
structure Pending where
  owed : Nat
  low : Nat
  high : Nat
  value : Nat
  deriving DecidableEq

/-- What a byte does between characters. The bounds on the second byte keep out overlong forms,
surrogates and values above the last code point. -/
def lead (byte : UInt8) : List Char × Option Pending :=
  let b := byte.toNat
  if b < 0x80 then ([Char.ofNat b], none)
  else if b < 0xc2 then ([replacement], none)
  else if b < 0xe0 then ([], some ⟨0, 0x80, 0xbf, b - 0xc0⟩)
  else if b = 0xe0 then ([], some ⟨1, 0xa0, 0xbf, b - 0xe0⟩)
  else if b = 0xed then ([], some ⟨1, 0x80, 0x9f, b - 0xe0⟩)
  else if b < 0xf0 then ([], some ⟨1, 0x80, 0xbf, b - 0xe0⟩)
  else if b = 0xf0 then ([], some ⟨2, 0x90, 0xbf, b - 0xf0⟩)
  else if b < 0xf4 then ([], some ⟨2, 0x80, 0xbf, b - 0xf0⟩)
  else if b = 0xf4 then ([], some ⟨2, 0x80, 0x8f, b - 0xf0⟩)
  else ([replacement], none)

def extend (pending : Pending) (byte : UInt8) : List Char × Option Pending :=
  let value := pending.value * 64 + (byte.toNat - 0x80)
  match pending.owed with
  | 0 => ([Char.ofNat value], none)
  | owed + 1 => ([], some ⟨owed, 0x80, 0xbf, value⟩)

def step : Option Pending → UInt8 → List Char × Option Pending
  | none, byte => lead byte
  | some pending, byte =>
    if pending.low ≤ byte.toNat ∧ byte.toNat ≤ pending.high then
      extend pending byte
    else
      (replacement :: (lead byte).1, (lead byte).2)

def decodeFrom : Option Pending → Bytes → List Char
  | none, [] => []
  | some _, [] => [replacement]
  | state, byte :: rest => (step state byte).1 ++ decodeFrom (step state byte).2 rest

def decode (bytes : Bytes) : String := String.ofList (decodeFrom none bytes)

end BinaryImage.Text.Utf8
