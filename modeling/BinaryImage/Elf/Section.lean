import BinaryImage.Elf.Encoding

/-!
Sections, the entries of the section header table. A section header holds the place of its name
in the section name table; a section is a header with the name.
-/

namespace BinaryImage.Elf

structure SectionHeader where
  nameOffset : Nat
  kind : Nat
  flags : Nat
  address : Nat
  offset : Nat
  size : Nat
  link : Nat
  info : Nat
  alignment : Nat
  entrySize : Nat
  deriving DecidableEq

structure Section extends SectionHeader where
  name : String
  deriving DecidableEq

namespace SectionHeader

def nullKind : Nat := 0
def dynamicKind : Nat := 6
def noBitsKind : Nat := 8

def read {m : Type → Type} [FieldReader m] (encoding : Encoding) : m SectionHeader := do
  let nameOffset ← encoding.read .word
  let kind ← encoding.read .word
  let flags ← encoding.readWord
  let address ← encoding.readWord
  let offset ← encoding.readWord
  let size ← encoding.readWord
  let link ← encoding.read .word
  let info ← encoding.read .word
  let alignment ← encoding.readWord
  let entrySize ← encoding.readWord
  return { nameOffset, kind, flags, address, offset, size, link, info, alignment, entrySize }

def occupiesFile (header : SectionHeader) : Bool := header.kind != noBitsKind

def fileSpan (header : SectionHeader) : Span :=
  ⟨header.offset, if header.occupiesFile then header.size else 0⟩

def named (header : SectionHeader) (name : String) : Section := { header with name }

end SectionHeader

end BinaryImage.Elf
