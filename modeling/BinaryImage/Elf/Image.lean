import BinaryImage.Edit.Staged
import BinaryImage.Elf.Dynamic
import BinaryImage.Elf.FileHeader
import BinaryImage.Elf.Section
import BinaryImage.Elf.Segment

/-!
An ELF file as its tables describe it. Everything is held by place: the image owns no byte of the
file, and its staged edits lie beside it. Parsing reads the file header, the section headers, the
program headers, the section names, the interpreter and the dynamic array, in this order.
-/

namespace BinaryImage.Elf

structure Image where
  header : FileHeader
  segments : List Segment
  sections : List Section
  /-- Index of the section that holds the section names. -/
  nameTable : Option Nat
  dynamic : Option DynamicArray
  interpreter : Option Span
  fileLength : Nat
  edits : EditSet
  deriving DecidableEq

def tableSpan (part : Part) (start count size fileLength : Nat) : Except Error Span := do
  require (count * size < offsetLimit) (.malformedElf start (.tableSizeOverflow part))
  require (Span.fitsIn ⟨start, count * size⟩ fileLength)
    (.malformedElf start (.tableOutsideFile part count size))
  return ⟨start, count * size⟩

def readTable {α : Type} (part : Part) (reader : Reader α) (data : Bytes)
    (start count size : Nat) : Except Error (List α) := do
  let span ← tableSpan part start count size data.length
  let bytes ← slice data span part
  readRecord (FieldReader.times reader count) bytes start

namespace Image

/-- Section header 0, which also carries counts that do not fit in the file header. -/
def firstSectionHeader (data : Bytes) (header : FileHeader) :
    Except Error (Option SectionHeader) := do
  if header.sectionHeaderOffset = 0 then
    return none
  let span ← tableSpan .firstSectionHeader header.sectionHeaderOffset 1
    header.fileClass.sectionHeaderSize data.length
  let bytes ← slice data span .firstSectionHeader
  return some (← readRecord (SectionHeader.read header.encoding) bytes span.start)

def sectionCount (header : FileHeader) (first : SectionHeader) : Nat :=
  if header.sectionHeaderCount = 0 then first.size else header.sectionHeaderCount

def sectionHeaders (data : Bytes) (header : FileHeader) (first? : Option SectionHeader) :
    Except Error (List SectionHeader) :=
  match first? with
  | some first =>
    readTable .sectionHeaders (SectionHeader.read header.encoding) data
      header.sectionHeaderOffset (sectionCount header first) header.fileClass.sectionHeaderSize
  | none => do
    require (header.sectionHeaderCount == 0) (.malformedElf 0 .sectionsWithoutTable)
    return []

/-- The largest number that a 16-bit count or index holds; where it stands, section header 0
holds the number meant. -/
def extended : Nat := 0xffff

def segmentCount (header : FileHeader) (first? : Option SectionHeader) : Nat :=
  match first? with
  | some first => if header.programHeaderCount = extended then first.info
      else header.programHeaderCount
  | none => header.programHeaderCount

def programHeaders (data : Bytes) (header : FileHeader) (first? : Option SectionHeader) :
    Except Error (List Segment) :=
  match segmentCount header first? with
  | 0 => .ok []
  | count =>
    readTable .programHeaders (Segment.read header.encoding) data
      header.programHeaderOffset count header.fileClass.programHeaderSize

def nameTableIndex (header : FileHeader) : Option SectionHeader → Option Nat
  | none => none
  | some first =>
    if header.nameTableIndex = 0 then none
    else if header.nameTableIndex = extended then some first.link
    else some header.nameTableIndex

def nameSections (data : Bytes) (header : FileHeader) (headers : List SectionHeader) :
    Option Nat → Except Error (List Section)
  | none => .ok (headers.map fun item => item.named "")
  | some index => do
    let holder ← requireSome headers[index]?
      (.malformedElf header.sectionHeaderOffset (.nameTableIndex index headers.length))
    let table : StringTable := ⟨holder.fileSpan⟩
    let bytes ← slice data table.span .sectionNames
    headers.mapM fun item => do
      return item.named (← table.get bytes item.nameOffset)

def loadsByAddress (segments : List Segment) : List Segment :=
  sortOn Segment.address (segments.filter fun segment => segment.isLoad && 0 < segment.memorySize)

def checkLoads (segments : List Segment) : Except Error Unit :=
  match (neighbours (loadsByAddress segments)).find? fun (earlier, later) =>
      earlier.memorySpan.overlaps later.memorySpan with
  | some (earlier, later) =>
    .error (.malformedElf later.offset (.overlappingLoads later.address earlier.address))
  | none => .ok ()

def findInterpreter (data : Bytes) (segments : List Segment) : Except Error (Option Span) :=
  match segments.filter fun segment => segment.kind == Segment.interpreterKind with
  | [] => .ok none
  | [segment] => do
    let bytes ← slice data segment.fileSpan .interpreterSegment
    require (Bytes.terminator? bytes).isSome
      (.malformedElf segment.offset .unterminatedInterpreter)
    return some segment.fileSpan
  | segment :: _ => .error (.malformedElf segment.offset .severalInterpreters)

def dynamicSpan? (segments : List Segment) (dynamicSection? : Option Section) : Option Span :=
  match segments.find? fun segment => segment.kind == Segment.dynamicKind with
  | some segment => some segment.fileSpan
  | none => dynamicSection?.map fun item => item.fileSpan

def linkedSection? (sections : List Section) (dynamicSection? : Option Section) :
    Option (Nat × Section) := do
  let dynamicSection ← dynamicSection?
  if dynamicSection.link = 0 then none
  let target ← sections[dynamicSection.link]?
  return (dynamicSection.link, target)

/-- The dynamic string table by its address. Its size is stated in the array, or else that of the
linked section. -/
def mappedStrings? (segments : List Segment) (linked? : Option (Nat × Section))
    (dynamic : DynamicArray) : Option (Span × StringSource) := do
  let address ← dynamic.stringTableAddress?
  let size ← dynamic.stringTableSize? <|> linked?.map fun linked => linked.2.size
  segments.zipIdx.findSome? fun (segment, index) => do
    let start ← segment.fileOffset? address size
    return (⟨start, size⟩, .segment address index)

def locateStrings? (segments : List Segment) (linked? : Option (Nat × Section))
    (dynamic : DynamicArray) : Option (Span × StringSource) :=
  mappedStrings? segments linked? dynamic <|>
    linked?.map fun (index, item) => (item.fileSpan, .linked index)

/-- Every entry that names a string names one that ends inside the table. -/
def attachStrings (data : Bytes) (dynamic : DynamicArray) :
    Option (Span × StringSource) → Except Error DynamicArray
  | some (span, source) => do
    let table : StringTable := ⟨span⟩
    let bytes ← slice data span .dynamicStrings
    dynamic.stringEntries.forM fun entry => do
      let _ ← table.entrySpan bytes entry.value
    return { dynamic with strings := some table, stringSource := some source }
  | none => do
    require dynamic.stringEntries.isEmpty
      (.malformedElf dynamic.span.start .missingStringTable)
    return dynamic

def findDynamic (data : Bytes) (encoding : Encoding) (segments : List Segment)
    (sections : List Section) : Except Error (Option DynamicArray) := do
  let dynamicSection? := sections.find? fun item => item.kind == SectionHeader.dynamicKind
  match dynamicSpan? segments dynamicSection? with
  | none => return none
  | some span =>
    let bytes ← slice data span .dynamicArray
    let dynamic := DynamicArray.decode encoding bytes span
    let linked? := linkedSection? sections dynamicSection?
    return some (← attachStrings data dynamic (locateStrings? segments linked? dynamic))

def parse (data : Bytes) : Except Error Image := do
  let header ← FileHeader.parse data
  let first? ← firstSectionHeader data header
  let headers ← sectionHeaders data header first?
  let segments ← programHeaders data header first?
  let nameTable := nameTableIndex header first?
  let sections ← nameSections data header headers nameTable
  checkLoads segments
  let interpreter ← findInterpreter data segments
  let dynamic ← findDynamic data header.encoding segments sections
  return { header, segments, sections, nameTable, dynamic, interpreter
           fileLength := data.length, edits := EditSet.empty }

theorem parse_eq_ok_iff {data : Bytes} {image : Image} :
    parse data = .ok image ↔
      ∃ first? headers,
        FileHeader.parse data = .ok image.header ∧
        firstSectionHeader data image.header = .ok first? ∧
        sectionHeaders data image.header first? = .ok headers ∧
        programHeaders data image.header first? = .ok image.segments ∧
        nameTableIndex image.header first? = image.nameTable ∧
        nameSections data image.header headers image.nameTable = .ok image.sections ∧
        checkLoads image.segments = .ok () ∧
        findInterpreter data image.segments = .ok image.interpreter ∧
        findDynamic data image.header.encoding image.segments image.sections =
          .ok image.dynamic ∧
        image.fileLength = data.length ∧ image.edits = EditSet.empty := by
  simp only [parse, bind_eq_ok_iff, pure, Except.pure, Except.ok.injEq]
  constructor
  · rintro ⟨header, headerRead, first?, firstRead, headers, headersRead, segments, segmentsRead,
      sections, named, _, loads, interpreter, interpreterFound, dynamic, dynamicFound, rfl⟩
    exact ⟨first?, headers, headerRead, firstRead, headersRead, segmentsRead, rfl, named, loads,
      interpreterFound, dynamicFound, rfl, rfl⟩
  · obtain ⟨header, segments, sections, nameTable, dynamic, interpreter, fileLength, edits⟩ := image
    simp only
    rintro ⟨first?, headers, headerRead, firstRead, headersRead, segmentsRead, rfl, named, loads,
      interpreterFound, dynamicFound, rfl, rfl⟩
    exact ⟨header, headerRead, first?, firstRead, headers, headersRead, segments, segmentsRead,
      sections, named, (), loads, interpreter, interpreterFound, dynamic, dynamicFound, rfl⟩

section Parsed

variable {data : Bytes} {image : Image} (parsed : parse data = .ok image)
include parsed

theorem find_interpreter_of_parse :
    findInterpreter data image.segments = .ok image.interpreter := by
  rcases parse_eq_ok_iff.mp parsed with ⟨_, _, _, _, _, _, _, _, _, found, _⟩
  exact found

theorem find_dynamic_of_parse :
    findDynamic data image.header.encoding image.segments image.sections = .ok image.dynamic := by
  rcases parse_eq_ok_iff.mp parsed with ⟨_, _, _, _, _, _, _, _, _, _, found, _⟩
  exact found

theorem file_length_of_parse : image.fileLength = data.length := by
  rcases parse_eq_ok_iff.mp parsed with ⟨_, _, _, _, _, _, _, _, _, _, _, length, _⟩
  exact length

theorem unedited_of_parse : image.edits = EditSet.empty := by
  rcases parse_eq_ok_iff.mp parsed with ⟨_, _, _, _, _, _, _, _, _, _, _, _, unedited⟩
  exact unedited

end Parsed

end Image

end BinaryImage.Elf
