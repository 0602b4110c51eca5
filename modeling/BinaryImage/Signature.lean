import BinaryImage.Elf.FileHeader
import BinaryImage.Pe.Headers

/-!
Telling the format of a file by its leading bytes. Too little data is told apart from data of no
known format, with the length that would be enough to go on.
-/

namespace BinaryImage

namespace Format

/-- Enough for the larger ELF header and for the DOS header. -/
def signatureLength : Nat := 64

def littleAt (data : Bytes) (start length : Nat) : Nat :=
  ByteOrder.little.decode ((data.drop start).take length)

def behindDosHeader (data : Bytes) : Except Error Format := do
  let offset := littleAt data Pe.DosHeader.signaturePointer 4
  let needed := offset + Pe.Headers.signatureSize
  require (needed ≤ data.length) (.truncated needed data.length)
  require (littleAt data offset Pe.Headers.signatureSize == Pe.Headers.expectedSignature)
    .unrecognized
  return .pe

def detect (data : Bytes) : Except Error Format := do
  require (signatureLength ≤ data.length) (.truncated signatureLength data.length)
  if data.take 4 == Elf.Ident.magic then
    return .elf
  else if littleAt data 0 2 == Pe.DosHeader.expectedMagic then
    behindDosHeader data
  else
    .error .unrecognized

end Format

end BinaryImage
