import BinaryImage.Elf.Encoding

/-!
The ELF file header. The first sixteen bytes identify the file and fix its encoding; the fields
behind them are read with it.
-/

namespace BinaryImage.Elf

structure Ident where
  encoding : Encoding
  version : Nat
  osAbi : Nat
  abiVersion : Nat
  deriving DecidableEq

namespace Ident

def size : Nat := 16

def magic : Bytes := [0x7f, 0x45, 0x4c, 0x46]

def classOf (byte : Nat) : Except Error FileClass :=
  match byte with
  | 1 => .ok .elf32
  | 2 => .ok .elf64
  | _ => .error (.malformedElf 4 (.invalidClass byte))

def orderOf (byte : Nat) : Except Error ByteOrder :=
  match byte with
  | 1 => .ok .little
  | 2 => .ok .big
  | _ => .error (.malformedElf 5 (.invalidDataEncoding byte))

def parse (data : Bytes) : Except Error Ident := do
  require (size ≤ data.length) (.truncated size data.length)
  require (data.take 4 == magic) (.malformedElf 0 .badMagic)
  let byteAt := fun index => (data.getD index 0).toNat
  let fileClass ← classOf (byteAt 4)
  let byteOrder ← orderOf (byteAt 5)
  require (byteAt 6 == 1) (.malformedElf 6 (.unsupportedVersion (byteAt 6)))
  return ⟨⟨fileClass, byteOrder⟩, byteAt 6, byteAt 7, byteAt 8⟩

theorem magic_of_parse {data : Bytes} {ident : Ident} (read : parse data = .ok ident) :
    data.take 4 = magic := by
  simp only [parse, bind_eq_ok_iff, require_eq_ok_iff, exists_const, beq_iff_eq] at read
  exact read.2.1

end Ident

/-- Field widths: two bytes for types, counts and sizes, four for version and flags, a word of
the class for addresses and offsets. -/
structure FileHeader where
  ident : Ident
  objectType : Nat
  machine : Nat
  version : Nat
  entry : Nat
  programHeaderOffset : Nat
  sectionHeaderOffset : Nat
  flags : Nat
  headerSize : Nat
  programHeaderSize : Nat
  programHeaderCount : Nat
  sectionHeaderSize : Nat
  sectionHeaderCount : Nat
  nameTableIndex : Nat
  deriving DecidableEq

namespace FileHeader

def encoding (header : FileHeader) : Encoding := header.ident.encoding

def fileClass (header : FileHeader) : FileClass := header.encoding.fileClass

def read {m : Type → Type} [FieldReader m] (ident : Ident) : m FileHeader := do
  let encoding := ident.encoding
  FieldReader.skip Ident.size
  let objectType ← encoding.read .half
  let machine ← encoding.read .half
  let version ← encoding.read .word
  let entry ← encoding.readWord
  let programHeaderOffset ← encoding.readWord
  let sectionHeaderOffset ← encoding.readWord
  let flags ← encoding.read .word
  let headerSize ← encoding.read .half
  let programHeaderSize ← encoding.read .half
  let programHeaderCount ← encoding.read .half
  let sectionHeaderSize ← encoding.read .half
  let sectionHeaderCount ← encoding.read .half
  let nameTableIndex ← encoding.read .half
  return { ident, objectType, machine, version, entry, programHeaderOffset, sectionHeaderOffset,
           flags, headerSize, programHeaderSize, programHeaderCount, sectionHeaderSize,
           sectionHeaderCount, nameTableIndex }

def hasSections (header : FileHeader) : Bool :=
  header.sectionHeaderCount != 0 || header.sectionHeaderOffset != 0

def checkRecordSizes (header : FileHeader) : Except Error Unit := do
  let fileClass := header.fileClass
  require (header.headerSize == fileClass.fileHeaderSize)
    (.malformedElf 0 (.recordSize .fileHeader header.headerSize fileClass.fileHeaderSize))
  require (header.programHeaderCount == 0 ||
      header.programHeaderSize == fileClass.programHeaderSize)
    (.malformedElf header.programHeaderOffset
      (.recordSize .programHeader header.programHeaderSize fileClass.programHeaderSize))
  require (!header.hasSections || header.sectionHeaderSize == fileClass.sectionHeaderSize)
    (.malformedElf header.sectionHeaderOffset
      (.recordSize .sectionHeader header.sectionHeaderSize fileClass.sectionHeaderSize))

def parse (data : Bytes) : Except Error FileHeader := do
  let ident ← Ident.parse data
  let size := ident.encoding.fileClass.fileHeaderSize
  require (size ≤ data.length) (.truncated size data.length)
  let header ← readRecord (read ident) (data.take size) 0
  header.checkRecordSizes
  return header

def is64 (header : FileHeader) : Bool := header.fileClass == .elf64

def isExecutable (header : FileHeader) : Bool := header.objectType == 2

def isLoadable (header : FileHeader) : Bool := header.objectType == 2 || header.objectType == 3

end FileHeader

end BinaryImage.Elf
