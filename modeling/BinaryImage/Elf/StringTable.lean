import BinaryImage.Elf.Encoding
import BinaryImage.Text.Utf8

/-!
String tables: NUL-terminated strings that are named by their distance from the start of the
table. A table holds its place only; its bytes are handed to each look-up.
-/

namespace BinaryImage.Elf

structure StringTable where
  span : Span
  deriving DecidableEq

namespace StringTable

/-- The string at `index` in the file, its terminator included. `bytes` are those of the table. -/
def entrySpan (table : StringTable) (bytes : Bytes) (index : Nat) : Except Error Span := do
  require (index < bytes.length) (.malformedElf table.span.start (.stringOutsideTable index))
  let length ← requireSome (Bytes.terminator? (bytes.drop index))
    (.malformedElf (table.span.start + index) .unterminatedString)
  return ⟨table.span.start + index, length + 1⟩

def get (table : StringTable) (bytes : Bytes) (index : Nat) : Except Error String := do
  let _ ← table.entrySpan bytes index
  return Text.Utf8.decode (Bytes.beforeNul (bytes.drop index))

end StringTable

end BinaryImage.Elf
