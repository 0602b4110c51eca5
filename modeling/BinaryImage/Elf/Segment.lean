import BinaryImage.Elf.Encoding

/-!
Segments, the entries of the program header table.
-/

namespace BinaryImage.Elf

structure Segment where
  kind : Nat
  flags : Nat
  offset : Nat
  address : Nat
  physicalAddress : Nat
  fileSize : Nat
  memorySize : Nat
  alignment : Nat
  deriving DecidableEq

namespace Segment

def loadKind : Nat := 1
def dynamicKind : Nat := 2
def interpreterKind : Nat := 3

/-- The 64-bit class keeps the flags beside the kind, the 32-bit class before the alignment. -/
def read {m : Type → Type} [FieldReader m] (encoding : Encoding) : m Segment := do
  let kind ← encoding.read .word
  match encoding.fileClass with
  | .elf32 =>
    let offset ← encoding.readWord
    let address ← encoding.readWord
    let physicalAddress ← encoding.readWord
    let fileSize ← encoding.readWord
    let memorySize ← encoding.readWord
    let flags ← encoding.read .word
    let alignment ← encoding.readWord
    return { kind, flags, offset, address, physicalAddress, fileSize, memorySize, alignment }
  | .elf64 =>
    let flags ← encoding.read .word
    let offset ← encoding.readWord
    let address ← encoding.readWord
    let physicalAddress ← encoding.readWord
    let fileSize ← encoding.readWord
    let memorySize ← encoding.readWord
    let alignment ← encoding.readWord
    return { kind, flags, offset, address, physicalAddress, fileSize, memorySize, alignment }

def kindName (segment : Segment) : String :=
  match segment.kind with
  | 0 => "NULL"
  | 1 => "LOAD"
  | 2 => "DYNAMIC"
  | 3 => "INTERP"
  | 4 => "NOTE"
  | 6 => "PHDR"
  | 7 => "TLS"
  | _ => "OTHER"

def isLoad (segment : Segment) : Bool := segment.kind == loadKind

def fileSpan (segment : Segment) : Span := ⟨segment.offset, segment.fileSize⟩

def memorySpan (segment : Segment) : Span := ⟨segment.address, segment.memorySize⟩

/-- Where the `length` bytes from a virtual address on lie in the file, if the segment is loaded
and holds them all. -/
def fileOffset? (segment : Segment) (address length : Nat) : Option Nat :=
  let inside := address - segment.address
  if segment.isLoad && segment.address ≤ address && inside + length ≤ segment.fileSize &&
      segment.offset + inside < offsetLimit then
    some (segment.offset + inside)
  else
    none

end Segment

end BinaryImage.Elf
