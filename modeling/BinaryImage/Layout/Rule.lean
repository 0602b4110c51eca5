import BinaryImage.Edit.Target
import BinaryImage.Span

/-!
The structures that layout rules speak of, and the rules a structure can break.
-/

namespace BinaryImage.Layout

inductive Entity where
  | elfHeader
  | programHeaders
  | sectionHeaders
  | segment (index : Nat) (kind : String)
  | elfSection (index : Nat) (name : String)
  | interpreter
  | dynamicArray
  | dynamicStrings
  | dynamicTag (name : String)
  | peHeaders
  | declaredHeaders
  | optionalHeader
  | peSection (name : String)
  | edit (target : EditTarget)
  deriving DecidableEq

def Entity.name : Entity → String
  | .elfHeader => "ELF header"
  | .programHeaders => "program header table"
  | .sectionHeaders => "section header table"
  | .segment index kind => s!"segment #{index} ({kind})"
  | .elfSection index name => s!"section #{index} ({name})"
  | .interpreter => "PT_INTERP"
  | .dynamicArray => "dynamic array"
  | .dynamicStrings => "dynamic string table"
  | .dynamicTag name => "DT_" ++ name
  | .peHeaders => "headers"
  | .declaredHeaders => "SizeOfHeaders"
  | .optionalHeader => "optional header"
  | .peSection name => "section " ++ name
  | .edit target => target.render

inductive AlignmentField where
  | segment
  | elfSection
  | sections
  | file
  deriving DecidableEq

def AlignmentField.name : AlignmentField → String
  | .segment => "p_align"
  | .elfSection => "sh_addralign"
  | .sections => "SectionAlignment"
  | .file => "FileAlignment"

inductive Space where
  | tables
  | sectionData
  | rawData
  | addresses
  deriving DecidableEq

def Space.name : Space → String
  | .tables => "table"
  | .sectionData => "section data"
  | .rawData => "raw data"
  | .addresses => "virtual range"

/-- A broken rule. An overlap names the structure it runs into. -/
inductive Rule where
  | exceedsFile (span : Span) (fileLength : Nat)
  | overlaps (space : Space) (span : Span) (other : Entity) (otherSpan : Span)
  | notPowerOfTwo (field : AlignmentField) (value : Nat)
  | incongruent (offset address alignment : Nat)
  | unalignedAddress (address alignment : Nat)
  | overlapsEdit (other : EditTarget) (otherSpan : Span)
  | sharesString (tag : String) (span : Span)
  | sharesName (span : Span)
  deriving DecidableEq

open Text in
def Rule.message : Rule → String
  | .exceedsFile span fileLength => span.render ++ " exceeds file length " ++ hex fileLength
  | .overlaps space span other otherSpan =>
    space.name ++ " " ++ span.render ++ " overlaps " ++ other.name ++ " " ++ otherSpan.render
  | .notPowerOfTwo field value => field.name ++ " " ++ hex value ++ " is not a power of two"
  | .incongruent offset address alignment =>
    "p_offset " ++ hex offset ++ " and p_vaddr " ++ hex address ++ " disagree modulo p_align " ++
      hex alignment
  | .unalignedAddress address alignment =>
    "VirtualAddress " ++ hex address ++ " is not a multiple of SectionAlignment " ++ hex alignment
  | .overlapsEdit other otherSpan => "edit overlaps " ++ other.render ++ " " ++ otherSpan.render
  | .sharesString tag span => "string shares bytes with DT_" ++ tag ++ " at " ++ span.render
  | .sharesName span => "name shares bytes with the DLL name at " ++ span.render

end BinaryImage.Layout
