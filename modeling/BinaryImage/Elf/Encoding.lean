import BinaryImage.Bytes.Reader
import BinaryImage.Error

/-!
The two properties of an ELF file on which every later field depends: its class, which sets the
width of addresses and the sizes of the records, and its byte order.
-/

namespace BinaryImage.Elf

inductive FileClass where
  | elf32
  | elf64
  deriving DecidableEq

structure Encoding where
  fileClass : FileClass
  byteOrder : ByteOrder
  deriving DecidableEq

namespace FileClass

/-- Width of an address, an offset or a size. -/
def wordWidth : FileClass → Width
  | elf32 => .word
  | elf64 => .double

def fileHeaderSize : FileClass → Nat
  | elf32 => 52
  | elf64 => 64

def programHeaderSize : FileClass → Nat
  | elf32 => 32
  | elf64 => 56

def sectionHeaderSize : FileClass → Nat
  | elf32 => 40
  | elf64 => 64

def dynamicEntrySize : FileClass → Nat
  | elf32 => 8
  | elf64 => 16

end FileClass

namespace Encoding

def read {m : Type → Type} [FieldReader m] (encoding : Encoding) (width : Width) : m Nat :=
  FieldReader.unsigned encoding.byteOrder width

def readWord {m : Type → Type} [FieldReader m] (encoding : Encoding) : m Nat :=
  encoding.read encoding.fileClass.wordWidth

def wordSize (encoding : Encoding) : Nat := encoding.fileClass.wordWidth.size

/-- The word at `position`; missing bytes count for nothing. -/
def wordAt (encoding : Encoding) (bytes : Bytes) (position : Nat) : Nat :=
  encoding.byteOrder.decode ((bytes.drop position).take encoding.wordSize)

def encodeWord (encoding : Encoding) (value : Nat) : Bytes :=
  encoding.byteOrder.encode encoding.wordSize value

end Encoding

def readRecord {α : Type} (reader : Reader α) (data : Bytes) (base : Nat) : Except Error α :=
  match reader.runOn data base with
  | .ok value => .ok value
  | .error overrun => .error (.malformedElf overrun.offset (.overrun overrun.width))

theorem read_record_eq_ok_iff {α : Type} {reader : Reader α} {data : Bytes} {base : Nat}
    {value : α} : readRecord reader data base = .ok value ↔ reader.runOn data base = .ok value := by
  unfold readRecord
  cases reader.runOn data base <;> simp

def slice (data : Bytes) (span : Span) (part : Part) : Except Error Bytes :=
  requireSome (data.slice? span) (.malformedElf span.start (.outsideFile part span))

theorem slice_eq_ok_iff {data bytes : Bytes} {span : Span} {part : Part} :
    slice data span part = .ok bytes ↔ data.slice? span = some bytes := require_some_eq_ok_iff

end BinaryImage.Elf
