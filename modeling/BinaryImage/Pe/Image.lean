import BinaryImage.Edit.Staged
import BinaryImage.Pe.Descriptor

/-!
A PE image as its headers and tables describe it. Everything is held by place: the image owns no
byte of the file, and its staged edits lie beside it.
-/

namespace BinaryImage.Pe

structure Image where
  headers : Headers
  sections : List Section
  imports : List ImportDescriptor
  delayImports : List DelayLoadDescriptor
  fileLength : Nat
  edits : EditSet
  deriving DecidableEq

namespace Image

def sectionTable (headers : Headers) : Span :=
  ⟨headers.sectionTableOffset, headers.coff.sectionCount * Section.recordSize⟩

def parseSections (data : Bytes) (headers : Headers) : Except Error (List Section) := do
  let table := sectionTable headers
  let count := headers.coff.sectionCount
  let bytes ← requireSome (data.slice? table)
    (.malformedPe table.start (.sectionTableOutsideFile count))
  (List.range count).mapM fun index =>
    let inside := index * Section.recordSize
    Section.parse ((bytes.drop inside).take Section.recordSize) (table.start + inside)

def parseTable {Descriptor : Type} (kind : DescriptorKind Descriptor) (data : Bytes)
    (headers : Headers) (sections : List Section) : Except Error (List Descriptor) :=
  match headers.optional.directory? kind.directory with
  | some directory => kind.parseAll data sections directory
  | none => .ok []

def parse (data : Bytes) : Except Error Image := do
  let headers ← Headers.parse data
  let sections ← parseSections data headers
  let imports ← parseTable ImportDescriptor.kind data headers sections
  let delayImports ← parseTable DelayLoadDescriptor.kind data headers sections
  return { headers, sections, imports, delayImports
           fileLength := data.length, edits := EditSet.empty }

theorem parse_eq_ok_iff {data : Bytes} {image : Image} :
    parse data = .ok image ↔
      ∃ headers sections imports delayImports,
        Headers.parse data = .ok headers ∧
        parseSections data headers = .ok sections ∧
        parseTable ImportDescriptor.kind data headers sections = .ok imports ∧
        parseTable DelayLoadDescriptor.kind data headers sections = .ok delayImports ∧
        image = ⟨headers, sections, imports, delayImports, data.length, EditSet.empty⟩ := by
  simp only [parse, bind_eq_ok_iff, pure, Except.pure, Except.ok.injEq]
  constructor
  · rintro ⟨headers, headersRead, sections, sectionsRead, imports, importsRead, delayImports,
      delayImportsRead, rfl⟩
    exact ⟨headers, sections, imports, delayImports, headersRead, sectionsRead, importsRead,
      delayImportsRead, rfl⟩
  · rintro ⟨headers, sections, imports, delayImports, headersRead, sectionsRead, importsRead,
      delayImportsRead, rfl⟩
    exact ⟨headers, headersRead, sections, sectionsRead, imports, importsRead, delayImports,
      delayImportsRead, rfl⟩

theorem fresh_of_parse {data : Bytes} {image : Image} (parsed : parse data = .ok image) :
    image.edits = EditSet.empty ∧ image.fileLength = data.length := by
  obtain ⟨_, _, _, _, _, _, _, _, rfl⟩ := parse_eq_ok_iff.mp parsed
  exact ⟨rfl, rfl⟩

def nameSpans (image : Image) : List Span :=
  image.imports.map ImportDescriptor.name ++ image.delayImports.map DelayLoadDescriptor.name

end Image

end BinaryImage.Pe
