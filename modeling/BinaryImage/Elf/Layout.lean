import BinaryImage.Elf.Image
import BinaryImage.Layout.Region

/-!
Layout rules of ELF files: the tables lie inside the file and apart, segments are aligned and
their addresses apart, section data lies inside the file, apart from other sections and from the
tables, and the interpreter and the dynamic parts lie inside the file. Exceptions are made by name.
-/

namespace BinaryImage.Elf.Image

open Layout

def tableRegions (image : Image) : List Region :=
  let fileClass := image.header.fileClass
  let header : Region := ⟨.elfHeader, ⟨0, fileClass.fileHeaderSize⟩⟩
  let segments : Region := ⟨.programHeaders, ⟨image.header.programHeaderOffset,
    image.segments.length * fileClass.programHeaderSize⟩⟩
  let sections : Region := ⟨.sectionHeaders, ⟨image.header.sectionHeaderOffset,
    image.sections.length * fileClass.sectionHeaderSize⟩⟩
  header :: (if image.segments.isEmpty then [] else [segments]) ++
    (if image.sections.isEmpty then [] else [sections])

def segmentEntity (segment : Segment) (index : Nat) : Entity := .segment index segment.kindName

def checkSegment (fileLength : Nat) (segment : Segment) (index : Nat) : Except Error Unit := do
  let entity := segmentEntity segment index
  checkInside fileLength ⟨entity, segment.fileSpan⟩
  require (isPowerOfTwoOrZero segment.alignment)
    (.violation entity segment.offset (.notPowerOfTwo .segment segment.alignment))
  require (segment.alignment ≤ 1 ||
      segment.offset % segment.alignment == segment.address % segment.alignment)
    (.violation entity segment.offset
      (.incongruent segment.offset segment.address segment.alignment))

def checkSegments (image : Image) : Except Error Unit := do
  let numbered := image.segments.zipIdx
  numbered.forM fun (segment, index) => checkSegment image.fileLength segment index
  let loads := numbered.filter fun (segment, _) => segment.isLoad
  checkDisjoint .addresses noExcuse
    (loads.map fun (segment, index) => ⟨segmentEntity segment index, segment.memorySpan⟩)

def sectionEntity (item : Section) (index : Nat) : Entity := .elfSection index item.name

def usedSections (image : Image) : List (Section × Nat) :=
  image.sections.zipIdx.filter fun (item, _) => item.kind != SectionHeader.nullKind

def sectionRegions (image : Image) : List Region :=
  image.usedSections.map fun (item, index) => ⟨sectionEntity item index, item.fileSpan⟩

def checkSection (fileLength : Nat) (item : Section) (index : Nat) : Except Error Unit := do
  let entity := sectionEntity item index
  require (isPowerOfTwoOrZero item.alignment)
    (.violation entity item.offset (.notPowerOfTwo .elfSection item.alignment))
  checkInside fileLength ⟨entity, item.fileSpan⟩

/-- The region bears the name of the section with the section names, which other sections may
overlap. -/
def isNameTable (image : Image) (region : Region) : Bool :=
  image.usedSections.any fun (item, index) =>
    image.nameTable == some index && (sectionEntity item index).name == region.entity.name

def isTable (image : Image) (region : Region) : Bool :=
  image.tableRegions.any fun table => table.entity.name == region.entity.name

def checkSections (image : Image) : Except Error Unit := do
  image.usedSections.forM fun (item, index) => checkSection image.fileLength item index
  let regions := image.sectionRegions
  checkDisjoint .sectionData (fun a b => image.isNameTable a || image.isNameTable b) regions
  checkDisjoint .sectionData (fun a b => !image.isTable a && !image.isTable b)
    (image.tableRegions ++ regions)

def dynamicRegions (image : Image) : List Region :=
  let interpreter := image.interpreter.toList.map fun span => ⟨.interpreter, span⟩
  let dynamic := image.dynamic.toList.flatMap fun dynamic =>
    ⟨.dynamicArray, dynamic.span⟩ ::
      dynamic.strings.toList.map fun table => ⟨.dynamicStrings, table.span⟩
  interpreter ++ dynamic

def validate (image : Image) : Except Error Unit := do
  let tables := image.tableRegions
  tables.forM (checkInside image.fileLength)
  checkDisjoint .tables noExcuse tables
  image.checkSegments
  image.checkSections
  image.dynamicRegions.forM (checkInside image.fileLength)

end BinaryImage.Elf.Image
