/-!
Numbers as messages and spans show them: lower-case hexadecimal behind `0x`.
-/
namespace BinaryImage.Text

def hexDigits (n : Nat) : List Char := Nat.toDigits 16 n

def hex (n : Nat) : String := String.ofList ('0' :: 'x' :: hexDigits n)

def hexPadded (digits n : Nat) : String :=
  let shown := hexDigits n
  String.ofList ('0' :: 'x' :: List.replicate (digits - shown.length) '0' ++ shown)

end BinaryImage.Text
