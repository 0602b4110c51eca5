import BinaryImage.Bytes.Reader
import BinaryImage.Error

/-!
The headers of a PE image, in front of its section table: the DOS header, which points to the
signature, the COFF header behind the signature, and the optional header. All fields are
little-endian.
-/

namespace BinaryImage.Pe

def readRecord {α : Type} (reader : Reader α) (data : Bytes) (base : Nat) : Except Error α :=
  match reader.runOn data base with
  | .ok value => .ok value
  | .error overrun => .error (.malformedPe overrun.offset .overrun)

theorem read_record_eq_ok_iff {α : Type} {reader : Reader α} {data : Bytes} {base : Nat}
    {value : α} : readRecord reader data base = .ok value ↔ reader.runOn data base = .ok value := by
  unfold readRecord
  cases reader.runOn data base <;> simp

section Fields

variable {m : Type → Type} [FieldReader m]

def half : m Nat := FieldReader.unsigned .little .half
def word : m Nat := FieldReader.unsigned .little .word
def double : m Nat := FieldReader.unsigned .little .double

end Fields

/-- Of the DOS header, only the magic number and the offset of the signature matter. -/
structure DosHeader where
  magic : Nat
  signatureOffset : Nat
  deriving DecidableEq

namespace DosHeader

def size : Nat := 64

def expectedMagic : Nat := 0x5a4d

def signaturePointer : Nat := 0x3c

def parse (data : Bytes) : Except Error DosHeader := do
  require (size ≤ data.length) (.truncated size data.length)
  let magic ← readRecord half data 0
  require (magic == expectedMagic) (.malformedPe 0 (.badDosMagic magic))
  let signatureOffset ← readRecord (do FieldReader.seek signaturePointer; word) data 0
  return ⟨magic, signatureOffset⟩

theorem parse_eq_ok_iff {data : Bytes} {dos : DosHeader} :
    parse data = .ok dos ↔
      size ≤ data.length ∧ dos.magic = expectedMagic ∧
        dos.magic = ByteOrder.little.decode (data.take 2) ∧
        dos.signatureOffset = ByteOrder.little.decode ((data.drop signaturePointer).take 4) := by
  simp only [parse, bind_eq_ok_iff, require_eq_ok_iff, read_record_eq_ok_iff, half, word,
    Reader.run_on_unsigned_eq_ok_iff, Reader.run_on_seek_unsigned_eq_ok_iff, exists_const,
    decide_eq_true_eq, beq_iff_eq, pure, Except.pure, Except.ok.injEq]
  constructor
  · rintro ⟨long, magic, ⟨_, magicRead⟩, expected, offset, ⟨_, offsetRead⟩, rfl⟩
    exact ⟨long, expected, magicRead, offsetRead⟩
  · rintro ⟨long, expected, magicRead, offsetRead⟩
    have pointer : signaturePointer + Width.word.size ≤ data.length := long
    have start : Width.half.size ≤ data.length := Nat.le_trans (by decide) long
    exact ⟨long, dos.magic, ⟨start, magicRead⟩, expected, dos.signatureOffset,
      ⟨pointer, offsetRead⟩, rfl⟩

end DosHeader

structure CoffHeader where
  machine : Nat
  sectionCount : Nat
  timestamp : Nat
  symbolTableOffset : Nat
  symbolCount : Nat
  optionalHeaderSize : Nat
  characteristics : Nat
  deriving DecidableEq

namespace CoffHeader

def size : Nat := 20

def read {m : Type → Type} [FieldReader m] : m CoffHeader := do
  let machine ← half
  let sectionCount ← half
  let timestamp ← word
  let symbolTableOffset ← word
  let symbolCount ← word
  let optionalHeaderSize ← half
  let characteristics ← half
  return { machine, sectionCount, timestamp, symbolTableOffset, symbolCount, optionalHeaderSize,
           characteristics }

def isExecutableImage (header : CoffHeader) : Bool := header.characteristics.testBit 1

def isDll (header : CoffHeader) : Bool := header.characteristics.testBit 13

end CoffHeader

inductive OptionalKind where
  | pe32
  | pe32Plus
  deriving DecidableEq

def OptionalKind.ofMagic? : Nat → Option OptionalKind
  | 0x10b => some .pe32
  | 0x20b => some .pe32Plus
  | _ => none

/-- Where the data directories start. Their count stands in the word before. -/
def OptionalKind.directoriesOffset : OptionalKind → Nat
  | .pe32 => 96
  | .pe32Plus => 112

structure DataDirectory where
  address : Nat
  size : Nat
  deriving DecidableEq

namespace DataDirectory

def recordSize : Nat := 8

def imports : Nat := 1
def debug : Nat := 6
def delayImports : Nat := 13

def read {m : Type → Type} [FieldReader m] : m DataDirectory := do
  let address ← word
  let size ← word
  return ⟨address, size⟩

def isPresent (directory : DataDirectory) : Bool :=
  directory.address != 0 && directory.size != 0

end DataDirectory

structure OptionalHeader where
  kind : OptionalKind
  magic : Nat
  entry : Nat
  imageBase : Nat
  sectionAlignment : Nat
  fileAlignment : Nat
  imageSize : Nat
  headersSize : Nat
  checksum : Nat
  subsystem : Nat
  dllCharacteristics : Nat
  directoryCount : Nat
  directories : List DataDirectory
  deriving DecidableEq

namespace OptionalHeader

def readImageBase {m : Type → Type} [FieldReader m] : OptionalKind → m Nat
  | .pe32 => do FieldReader.seek 28; word
  | .pe32Plus => do FieldReader.seek 24; double

/-- The fields in front of the data directories. The last of them, at `countOffset`, counts the
directories. -/
def readFixed {m : Type → Type} [FieldReader m] (kind : OptionalKind) (magic countOffset : Nat) :
    m OptionalHeader := do
  FieldReader.seek 16
  let entry ← word
  let imageBase ← readImageBase kind
  FieldReader.seek 32
  let sectionAlignment ← word
  let fileAlignment ← word
  FieldReader.seek 56
  let imageSize ← word
  let headersSize ← word
  let checksum ← word
  let subsystem ← half
  let dllCharacteristics ← half
  FieldReader.seek countOffset
  let directoryCount ← word
  return { kind, magic, entry, imageBase, sectionAlignment, fileAlignment, imageSize, headersSize,
           checksum, subsystem, dllCharacteristics, directoryCount, directories := [] }

def parse (data : Bytes) (base : Nat) : Except Error OptionalHeader := do
  let magic ← readRecord half data base
  let kind ← requireSome (OptionalKind.ofMagic? magic)
    (.malformedPe base (.unsupportedOptionalMagic magic))
  let header ← readRecord (readFixed kind magic (kind.directoriesOffset - 4)) data base
  let tableSize := header.directoryCount * DataDirectory.recordSize
  require (tableSize + kind.directoriesOffset ≤ data.length)
    (.malformedPe base (.tooManyDirectories header.directoryCount data.length))
  let directories ← readRecord (FieldReader.times DataDirectory.read header.directoryCount)
    (data.drop kind.directoriesOffset) (base + kind.directoriesOffset)
  return { header with directories }

/-- A data directory that the header has and that is not empty. -/
def directory? (header : OptionalHeader) (index : Nat) : Option DataDirectory :=
  header.directories[index]?.filter DataDirectory.isPresent

end OptionalHeader

structure Headers where
  dos : DosHeader
  coff : CoffHeader
  optional : OptionalHeader
  optionalOffset : Nat
  sectionTableOffset : Nat
  deriving DecidableEq

namespace Headers

def signatureSize : Nat := 4

/-- The letters `PE` and two NUL bytes. -/
def expectedSignature : Nat := 0x4550

def parse (data : Bytes) : Except Error Headers := do
  let dos ← DosHeader.parse data
  let signatureOffset := dos.signatureOffset
  let coffOffset := signatureOffset + signatureSize
  let optionalOffset := coffOffset + CoffHeader.size
  require (optionalOffset ≤ data.length) (.malformedPe signatureOffset .headersOutsideFile)
  let signature ← readRecord word ((data.drop signatureOffset).take signatureSize) signatureOffset
  require (signature == expectedSignature)
    (.malformedPe signatureOffset (.badSignature signature))
  let coff ← readRecord CoffHeader.read ((data.drop coffOffset).take CoffHeader.size) coffOffset
  let optionalSize := coff.optionalHeaderSize
  let sectionTableOffset := optionalOffset + optionalSize
  require (sectionTableOffset ≤ data.length)
    (.malformedPe optionalOffset (.optionalHeaderOutsideFile optionalSize))
  let optional ← OptionalHeader.parse ((data.drop optionalOffset).take optionalSize) optionalOffset
  return { dos, coff, optional, optionalOffset, sectionTableOffset }

theorem parse_eq_ok_iff {data : Bytes} {headers : Headers} :
    parse data = .ok headers ↔
      DosHeader.parse data = .ok headers.dos ∧
        headers.optionalOffset =
          headers.dos.signatureOffset + signatureSize + CoffHeader.size ∧
        headers.sectionTableOffset =
          headers.optionalOffset + headers.coff.optionalHeaderSize ∧
        headers.sectionTableOffset ≤ data.length ∧
        readRecord word ((data.drop headers.dos.signatureOffset).take signatureSize)
          headers.dos.signatureOffset = .ok expectedSignature ∧
        readRecord CoffHeader.read
          ((data.drop (headers.dos.signatureOffset + signatureSize)).take CoffHeader.size)
          (headers.dos.signatureOffset + signatureSize) = .ok headers.coff ∧
        OptionalHeader.parse
          ((data.drop headers.optionalOffset).take headers.coff.optionalHeaderSize)
          headers.optionalOffset = .ok headers.optional := by
  simp only [parse, bind_eq_ok_iff, require_eq_ok_iff, exists_const, decide_eq_true_eq, beq_iff_eq,
    pure, Except.pure, Except.ok.injEq]
  constructor
  · rintro ⟨dos, dosRead, _, signature, signatureRead, rfl, coff, coffRead, within, optional,
      optionalRead, rfl⟩
    exact ⟨dosRead, rfl, rfl, within, signatureRead, coffRead, optionalRead⟩
  · obtain ⟨dos, coff, optional, optionalOffset, sectionTableOffset⟩ := headers
    simp only
    rintro ⟨dosRead, rfl, rfl, within, signatureRead, coffRead, optionalRead⟩
    exact ⟨dos, dosRead, Nat.le_trans (Nat.le_add_right _ _) within, _, signatureRead, rfl, coff,
      coffRead, within, optional, optionalRead, rfl⟩

theorem signature_of_parse {data : Bytes} {headers : Headers} (read : parse data = .ok headers) :
    DosHeader.parse data = .ok headers.dos ∧
      headers.dos.signatureOffset + signatureSize ≤ data.length ∧
      ByteOrder.little.decode ((data.drop headers.dos.signatureOffset).take signatureSize) =
        expectedSignature := by
  obtain ⟨dosRead, optional, table, within, signatureRead, _⟩ := parse_eq_ok_iff.mp read
  rw [read_record_eq_ok_iff, word, Reader.run_on_unsigned_eq_ok_iff, List.take_take]
    at signatureRead
  exact ⟨dosRead, by omega, signatureRead.2.symm⟩

def is64 (headers : Headers) : Bool := headers.optional.kind == .pe32Plus

def isExecutable (headers : Headers) : Bool :=
  headers.coff.isExecutableImage && !headers.coff.isDll

def isLoadable (headers : Headers) : Bool := headers.coff.isExecutableImage

end Headers

end BinaryImage.Pe
