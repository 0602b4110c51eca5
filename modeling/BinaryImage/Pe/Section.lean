import BinaryImage.Pe.Headers
import BinaryImage.Text.Utf8

/-!
Sections of a PE image, and the way from an address relative to the image base (an RVA) to the
file. One section alone has to hold the address, and its raw data has to reach that far.
-/

namespace BinaryImage.Pe

structure Section where
  name : String
  virtualSize : Nat
  virtualAddress : Nat
  rawSize : Nat
  rawOffset : Nat
  relocationsOffset : Nat
  lineNumbersOffset : Nat
  relocationCount : Nat
  lineNumberCount : Nat
  characteristics : Nat
  deriving DecidableEq

namespace Section

def recordSize : Nat := 40

/-- The name fills up to eight bytes; long names stay as written. -/
def nameSize : Nat := 8

def read {m : Type → Type} [FieldReader m] (name : String) : m Section := do
  FieldReader.skip nameSize
  let virtualSize ← word
  let virtualAddress ← word
  let rawSize ← word
  let rawOffset ← word
  let relocationsOffset ← word
  let lineNumbersOffset ← word
  let relocationCount ← half
  let lineNumberCount ← half
  let characteristics ← word
  return { name, virtualSize, virtualAddress, rawSize, rawOffset, relocationsOffset,
           lineNumbersOffset, relocationCount, lineNumberCount, characteristics }

def parse (record : Bytes) (base : Nat) : Except Error Section :=
  readRecord (read (Text.Utf8.decode (Bytes.beforeNul (record.take nameSize)))) record base

def rawSpan (item : Section) : Span :=
  if item.rawOffset = 0 then ⟨0, 0⟩ else ⟨item.rawOffset, item.rawSize⟩

/-- Size in memory; a virtual size of zero stands for the raw size. -/
def memorySize (item : Section) : Nat :=
  if item.virtualSize = 0 then item.rawSize else item.virtualSize

def memorySpan (item : Section) : Span := ⟨item.virtualAddress, item.memorySize⟩

def holds (item : Section) (rva : Nat) : Bool :=
  item.virtualAddress ≤ rva && rva < item.virtualAddress + item.memorySize

def fileOffset (item : Section) (rva : Nat) : Except Error Nat := do
  let inside := rva - item.virtualAddress
  require (inside < item.rawSize && item.rawOffset != 0)
    (.malformedPe item.rawOffset (.uninitializedRva rva item.name))
  return item.rawOffset + inside

end Section

def fileOffset (sections : List Section) (rva : Nat) : Except Error Nat :=
  match sections.filter fun item => item.holds rva with
  | [] => .error (.malformedPe 0 (.unmappedRva rva))
  | [item] => item.fileOffset rva
  | first :: second :: _ => .error (.malformedPe 0 (.ambiguousRva rva first.name second.name))

end BinaryImage.Pe
