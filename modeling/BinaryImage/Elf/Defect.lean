import BinaryImage.Bytes.Reader

/-!
What can be wrong with the bytes of an ELF file, and how each defect is told.
-/

namespace BinaryImage.Elf

inductive RecordKind where
  | fileHeader
  | programHeader
  | sectionHeader
  deriving DecidableEq

def RecordKind.sizeField : RecordKind → String
  | .fileHeader => "e_ehsize"
  | .programHeader => "e_phentsize"
  | .sectionHeader => "e_shentsize"

inductive Part where
  | firstSectionHeader
  | sectionHeaders
  | programHeaders
  | sectionNames
  | interpreterSegment
  | interpreter
  | dynamicArray
  | dynamicStrings
  deriving DecidableEq

def Part.name : Part → String
  | .firstSectionHeader => "section header 0"
  | .sectionHeaders => "section header table"
  | .programHeaders => "program header table"
  | .sectionNames => "section name string table"
  | .interpreterSegment => "PT_INTERP segment"
  | .interpreter => "interpreter"
  | .dynamicArray => "dynamic array"
  | .dynamicStrings => "dynamic string table"

inductive Defect where
  | badMagic
  | invalidClass (byte : Nat)
  | invalidDataEncoding (byte : Nat)
  | unsupportedVersion (byte : Nat)
  | overrun (width : Width)
  | recordSize (kind : RecordKind) (stated expected : Nat)
  | tableSizeOverflow (part : Part)
  | tableOutsideFile (part : Part) (count size : Nat)
  | sectionsWithoutTable
  | nameTableIndex (index count : Nat)
  | outsideFile (part : Part) (span : Span)
  | stringOutsideTable (index : Nat)
  | unterminatedString
  | overlappingLoads (later earlier : Nat)
  | severalInterpreters
  | unterminatedInterpreter
  | missingStringTable
  deriving DecidableEq

def Defect.message : Defect → String
  | .badMagic => "bad magic"
  | .invalidClass byte => s!"invalid class {byte}"
  | .invalidDataEncoding byte => s!"invalid data encoding {byte}"
  | .unsupportedVersion byte => s!"unsupported ident version {byte}"
  | .overrun width => width.name ++ " runs past the end of its table"
  | .recordSize kind stated expected =>
    kind.sizeField ++ s!" {stated} should be {expected}"
  | .tableSizeOverflow part => part.name ++ " size overflows"
  | .tableOutsideFile part count size =>
    part.name ++ s!" of {count} x {size} bytes exceeds the file"
  | .sectionsWithoutTable => "e_shnum is set but e_shoff is zero"
  | .nameTableIndex index count =>
    s!"e_shstrndx {index} is not below the section count {count}"
  | .outsideFile part span => part.name ++ " " ++ span.render ++ " lies outside the file"
  | .stringOutsideTable index => "string index " ++ Text.hex index ++ " is outside the table"
  | .unterminatedString => "string is not NUL-terminated inside its table"
  | .overlappingLoads later earlier =>
    "LOAD segment at " ++ Text.hex later ++ " overlaps LOAD segment at " ++ Text.hex earlier
  | .severalInterpreters => "more than one PT_INTERP segment"
  | .unterminatedInterpreter => "interpreter path is not NUL-terminated"
  | .missingStringTable =>
    "dynamic entries reference strings but the string table cannot be located"

end BinaryImage.Elf
