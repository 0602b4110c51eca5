import BinaryImage.Proofs.Elf.Reopening
import BinaryImage.Proofs.FieldPlaces

/-!
The record layouts of ELF files. The file header, program headers and section headers are told here
by the offset of each field in either class, as the System V ABI lays them out, and the counts by
extended numbering. What is parsed from a file is what stands there, in both byte orders, for tables
of any length; and each section has the name that its header points to.
-/

namespace BinaryImage

namespace Elf

def FileClass.code : FileClass → UInt8
  | elf32 => 1
  | elf64 => 2

def orderCode : ByteOrder → UInt8
  | .little => 1
  | .big => 2

def FileHeader.placed (ident : Ident) (data : Bytes) (start : Nat) : FileHeader :=
  let half := fun offset => ident.encoding.byteOrder.unsignedAt data (start + offset) 2
  let word := fun offset => ident.encoding.byteOrder.unsignedAt data (start + offset) 4
  let double := fun offset => ident.encoding.byteOrder.unsignedAt data (start + offset) 8
  match ident.encoding.fileClass with
  | .elf32 =>
    { ident, objectType := half 16, machine := half 18, version := word 20, entry := word 24
      programHeaderOffset := word 28, sectionHeaderOffset := word 32, flags := word 36
      headerSize := half 40, programHeaderSize := half 42, programHeaderCount := half 44
      sectionHeaderSize := half 46, sectionHeaderCount := half 48, nameTableIndex := half 50 }
  | .elf64 =>
    { ident, objectType := half 16, machine := half 18, version := word 20, entry := double 24
      programHeaderOffset := double 32, sectionHeaderOffset := double 40, flags := word 48
      headerSize := half 52, programHeaderSize := half 54, programHeaderCount := half 56
      sectionHeaderSize := half 58, sectionHeaderCount := half 60, nameTableIndex := half 62 }

def Segment.placed (encoding : Encoding) (data : Bytes) (start : Nat) : Segment :=
  let word := fun offset => encoding.byteOrder.unsignedAt data (start + offset) 4
  let double := fun offset => encoding.byteOrder.unsignedAt data (start + offset) 8
  match encoding.fileClass with
  | .elf32 =>
    { kind := word 0, offset := word 4, address := word 8, physicalAddress := word 12
      fileSize := word 16, memorySize := word 20, flags := word 24, alignment := word 28 }
  | .elf64 =>
    { kind := word 0, flags := word 4, offset := double 8, address := double 16
      physicalAddress := double 24, fileSize := double 32, memorySize := double 40
      alignment := double 48 }

def SectionHeader.placed (encoding : Encoding) (data : Bytes) (start : Nat) : SectionHeader :=
  let word := fun offset => encoding.byteOrder.unsignedAt data (start + offset) 4
  let double := fun offset => encoding.byteOrder.unsignedAt data (start + offset) 8
  match encoding.fileClass with
  | .elf32 =>
    { nameOffset := word 0, kind := word 4, flags := word 8, address := word 12
      offset := word 16, size := word 20, link := word 24, info := word 28
      alignment := word 32, entrySize := word 36 }
  | .elf64 =>
    { nameOffset := word 0, kind := word 4, flags := double 8, address := double 16
      offset := double 24, size := double 32, link := word 40, info := word 44
      alignment := double 48, entrySize := double 56 }

section Reads

open Reader

-- The offset of a field is the sum of the widths that are read before it.
theorem Segment.reads (encoding : Encoding) :
    Reads (read encoding) encoding.fileClass.programHeaderSize (placed encoding) := by
  obtain ⟨fileClass, byteOrder⟩ := encoding
  cases fileClass
  all_goals
    apply Reads.congr
    case reads =>
      iterate 8 (apply reads_bind (reads_unsigned _ _); intro _)
      exact reads_pure _
    case sizes => rfl
    case values => exact fun _ _ => rfl

theorem SectionHeader.reads (encoding : Encoding) :
    Reads (read encoding) encoding.fileClass.sectionHeaderSize (placed encoding) := by
  obtain ⟨fileClass, byteOrder⟩ := encoding
  cases fileClass
  all_goals
    apply Reads.congr
    case reads =>
      iterate 10 (apply reads_bind (reads_unsigned _ _); intro _)
      exact reads_pure _
    case sizes => rfl
    case values => exact fun _ _ => rfl

theorem FileHeader.reads (ident : Ident) :
    Reads (read ident) ident.encoding.fileClass.fileHeaderSize (placed ident) := by
  obtain ⟨⟨fileClass, byteOrder⟩, version, osAbi, abiVersion⟩ := ident
  cases fileClass
  all_goals
    apply Reads.congr
    case reads =>
      apply reads_bind (reads_skip _)
      intro _
      iterate 13 (apply reads_bind (reads_unsigned _ _); intro _)
      exact reads_pure _
    case sizes => rfl
    case values => exact fun _ _ => rfl

end Reads

/-- Records stand one behind the other in the file, `size` bytes each, and are what `placed` says
of their places. -/
def RecordsAt {α : Type} (placed : Bytes → Nat → α) (size : Nat) (data : Bytes) (start : Nat)
    (records : List α) : Prop :=
  ∀ index record, records[index]? = some record →
    start + index * size + size ≤ data.length ∧ record = placed data (start + index * size)

theorem records_at_of_read_table {α : Type} {reader : Reader α} {placed : Bytes → Nat → α}
    {part : Part} {data : Bytes} {start count size : Nat} {records : List α}
    (reads : Reader.Reads reader size placed)
    (read : readTable part reader data start count size = .ok records) :
    RecordsAt placed size data start records := by
  simp only [readTable, bind_eq_ok_iff, table_span_eq_ok_iff, slice_eq_ok_iff,
    read_record_eq_ok_iff] at read
  obtain ⟨_, ⟨_, inside, rfl⟩, bytes, sliced, done⟩ := read
  rw [(Reader.reads_times reads count).run_on sliced (Nat.le_refl _), Except.ok.injEq] at done
  subst done
  intro index record found
  rw [List.getElem?_map, Option.map_eq_some_iff] at found
  obtain ⟨place, member, rfl⟩ := found
  obtain ⟨below, rfl⟩ : index < count ∧ index = place := by
    rw [List.getElem?_eq_some_iff] at member
    simpa using member
  have room : (index + 1) * size ≤ count * size := Nat.mul_le_mul_right size below
  rw [Nat.succ_mul] at room
  refine ⟨?_, rfl⟩
  omega

namespace Ident

theorem class_of_code {byte : UInt8} {fileClass : FileClass}
    (known : classOf byte.toNat = .ok fileClass) : byte = fileClass.code := by
  unfold classOf at known
  split at known
  · next code =>
    cases known
    exact UInt8.toNat_inj.mp code
  · next code =>
    cases known
    exact UInt8.toNat_inj.mp code
  · cases known

theorem order_of_code {byte : UInt8} {byteOrder : ByteOrder}
    (known : orderOf byte.toNat = .ok byteOrder) : byte = orderCode byteOrder := by
  unfold orderOf at known
  split at known
  · next code =>
    cases known
    exact UInt8.toNat_inj.mp code
  · next code =>
    cases known
    exact UInt8.toNat_inj.mp code
  · cases known

structure LaidOut (data : Bytes) (ident : Ident) : Prop where
  magic : data.take 4 = Ident.magic
  fileClass : data[4]? = some ident.encoding.fileClass.code
  byteOrder : data[5]? = some (orderCode ident.encoding.byteOrder)
  current : ident.version = 1
  version : (data[6]?).map UInt8.toNat = some ident.version
  osAbi : (data[7]?).map UInt8.toNat = some ident.osAbi
  abiVersion : (data[8]?).map UInt8.toNat = some ident.abiVersion

theorem laid_out_of_parse {data : Bytes} {ident : Ident} (parsed : parse data = .ok ident) :
    ident.LaidOut data := by
  simp only [parse, bind_eq_ok_iff, require_eq_ok_iff, exists_const, decide_eq_true_eq, beq_iff_eq,
    pure, Except.pure, Except.ok.injEq] at parsed
  obtain ⟨long, magic, fileClass, classKnown, byteOrder, orderKnown, current, rfl⟩ := parsed
  have present : ∀ index < size, data[index]? = some (data.getD index 0) := by
    intro index below
    have inside : index < data.length := Nat.lt_of_lt_of_le below long
    rw [List.getD_eq_getElem?_getD, List.getElem?_eq_getElem inside, Option.getD_some]
  refine ⟨magic, ?_, ?_, current, ?_, ?_, ?_⟩
  · rw [present 4 (by decide), class_of_code classKnown]
  · rw [present 5 (by decide), order_of_code orderKnown]
  · rw [present 6 (by decide), Option.map_some]
  · rw [present 7 (by decide), Option.map_some]
  · rw [present 8 (by decide), Option.map_some]

end Ident

theorem FileHeader.placed_of_parse {data : Bytes} {header : FileHeader}
    (parsed : parse data = .ok header) :
    header.fileClass.fileHeaderSize ≤ data.length ∧ header = placed header.ident data 0 := by
  obtain ⟨_, long, read, _⟩ := parse_eq_ok_iff.mp parsed
  have sliced : data.slice? ⟨0, header.fileClass.fileHeaderSize⟩ =
      some (data.take header.fileClass.fileHeaderSize) :=
    Bytes.slice_of_fits (by simpa using long)
  have done := (reads header.ident).run_on sliced (Nat.le_refl _) 0
  rw [read_record_eq_ok_iff, done, Except.ok.injEq] at read
  exact ⟨long, read.symm⟩

namespace Image

variable {data : Bytes} {header : FileHeader} {first? : Option SectionHeader}

def firstPlaced? (data : Bytes) (header : FileHeader) : Option SectionHeader :=
  if header.sectionHeaderOffset = 0 then none
  else some (SectionHeader.placed header.encoding data header.sectionHeaderOffset)

theorem first_section_placed (read : firstSectionHeader data header = .ok first?) :
    first? = firstPlaced? data header ∧ (header.sectionHeaderOffset ≠ 0 →
      header.sectionHeaderOffset + header.fileClass.sectionHeaderSize ≤ data.length) := by
  unfold firstSectionHeader at read
  unfold firstPlaced?
  by_cases absent : header.sectionHeaderOffset = 0
  · rw [if_pos absent] at read
    cases read
    rw [if_pos absent]
    exact ⟨rfl, fun placed => absurd absent placed⟩
  · rw [if_neg absent] at read
    simp only [bind_eq_ok_iff, table_span_eq_ok_iff, slice_eq_ok_iff, read_record_eq_ok_iff,
      Nat.one_mul, pure, Except.pure, Except.ok.injEq] at read
    obtain ⟨_, ⟨_, inside, rfl⟩, bytes, sliced, first, done, rfl⟩ := read
    rw [(SectionHeader.reads header.encoding).run_on sliced (Nat.le_refl _),
      Except.ok.injEq] at done
    rw [if_neg absent, ← done]
    exact ⟨rfl, fun _ => inside⟩

/-- The number of sections. One that does not fit in the file header is the size of section 0. -/
def sectionTotal (data : Bytes) (header : FileHeader) : Nat :=
  if header.sectionHeaderCount = 0 ∧ header.sectionHeaderOffset ≠ 0 then
    (SectionHeader.placed header.encoding data header.sectionHeaderOffset).size
  else header.sectionHeaderCount

/-- The number of segments. One that does not fit in the file header is the info of section 0. -/
def segmentTotal (data : Bytes) (header : FileHeader) : Nat :=
  if header.programHeaderCount = 0xffff ∧ header.sectionHeaderOffset ≠ 0 then
    (SectionHeader.placed header.encoding data header.sectionHeaderOffset).info
  else header.programHeaderCount

/-- The section of the names. An index that does not fit in the file header is the link of
section 0. -/
def nameTablePlace (data : Bytes) (header : FileHeader) : Option Nat :=
  if header.nameTableIndex = 0 ∨ header.sectionHeaderOffset = 0 then none
  else if header.nameTableIndex = 0xffff then
    some (SectionHeader.placed header.encoding data header.sectionHeaderOffset).link
  else some header.nameTableIndex

theorem section_headers_placed {headers : List SectionHeader}
    (read : sectionHeaders data header (firstPlaced? data header) = .ok headers) :
    headers.length = sectionTotal data header ∧
      RecordsAt (SectionHeader.placed header.encoding) header.fileClass.sectionHeaderSize data
        header.sectionHeaderOffset headers := by
  unfold firstPlaced? at read
  unfold sectionTotal
  by_cases absent : header.sectionHeaderOffset = 0
  · rw [if_pos absent] at read
    simp only [sectionHeaders, check_bind_eq_ok_iff, require_eq_ok_iff, beq_iff_eq, pure,
      Except.pure, Except.ok.injEq] at read
    obtain ⟨none, rfl⟩ := read
    refine ⟨by simp [absent, none], ?_⟩
    intro index record found
    cases found
  · rw [if_neg absent] at read
    refine ⟨?_, records_at_of_read_table (SectionHeader.reads header.encoding) read⟩
    rw [length_of_read_table read, sectionCount]
    simp [absent]

theorem program_headers_placed {segments : List Segment}
    (read : programHeaders data header (firstPlaced? data header) = .ok segments) :
    segments.length = segmentTotal data header ∧
      RecordsAt (Segment.placed header.encoding) header.fileClass.programHeaderSize data
        header.programHeaderOffset segments := by
  have count : segmentCount header (firstPlaced? data header) = segmentTotal data header := by
    unfold firstPlaced? segmentTotal
    by_cases absent : header.sectionHeaderOffset = 0
    · simp [absent, segmentCount]
    · simp only [segmentCount, ne_eq, absent, not_false_eq_true, and_true, if_false]
      rfl
  rw [← count]
  unfold programHeaders at read
  split at read
  · next none =>
    cases read
    refine ⟨none.symm, ?_⟩
    intro index record found
    cases found
  · exact ⟨length_of_read_table read,
      records_at_of_read_table (Segment.reads header.encoding) read⟩

theorem name_table_index_placed :
    nameTableIndex header (firstPlaced? data header) = nameTablePlace data header := by
  unfold firstPlaced? nameTablePlace
  by_cases absent : header.sectionHeaderOffset = 0
  · simp [absent, nameTableIndex]
  · simp only [nameTableIndex, absent, or_false, if_false]
    rfl

/-- Every name ends inside the table of the names. -/
theorem names_placed {headers : List SectionHeader} {sections : List Section} {index : Nat}
    (named : nameSections data header headers (some index) = .ok sections) :
    ∃ holder, headers[index]? = some holder ∧ ∀ item ∈ sections, ∃ text,
      data.StringAt holder.fileSpan item.nameOffset text ∧ item.name = Text.Utf8.decode text := by
  simp only [nameSections, bind_eq_ok_iff, require_some_eq_ok_iff, slice_eq_ok_iff] at named
  obtain ⟨holder, found, bytes, sliced, all⟩ := named
  refine ⟨holder, found, ?_⟩
  intro item member
  obtain ⟨bare, _, done⟩ := mem_of_mapM_eq_ok all member
  simp only [bind_eq_ok_iff, StringTable.get_eq_ok_iff, pure, Except.pure,
    Except.ok.injEq] at done
  obtain ⟨_, ⟨_, length, ends, rfl⟩, rfl⟩ := done
  exact ⟨_, Bytes.string_at_of_terminator sliced ends, rfl⟩

structure LaidOut (data : Bytes) (image : Image) : Prop where
  ident : image.header.ident.LaidOut data
  header_inside : image.header.fileClass.fileHeaderSize ≤ data.length
  header : image.header = FileHeader.placed image.header.ident data 0
  first_inside : image.header.sectionHeaderOffset ≠ 0 →
    image.header.sectionHeaderOffset + image.header.fileClass.sectionHeaderSize ≤ data.length
  segment_count : image.segments.length = segmentTotal data image.header
  segments : RecordsAt (Segment.placed image.header.encoding)
    image.header.fileClass.programHeaderSize data image.header.programHeaderOffset image.segments
  section_count : image.sections.length = sectionTotal data image.header
  sections : RecordsAt (SectionHeader.placed image.header.encoding)
    image.header.fileClass.sectionHeaderSize data image.header.sectionHeaderOffset
    (image.sections.map Section.toSectionHeader)
  name_table : image.nameTable = nameTablePlace data image.header
  named : ∀ index, image.nameTable = some index → ∃ holder, image.sections[index]? = some holder ∧
    ∀ item ∈ image.sections, ∃ text, data.StringAt holder.fileSpan item.nameOffset text ∧
      item.name = Text.Utf8.decode text
  unnamed : image.nameTable = none → ∀ item ∈ image.sections, item.name = ""

/-- Whatever is parsed is what stands at the places of the record layouts, in either class and
either byte order. -/
theorem parsed_by_layout {image : Image} (parsed : parse data = .ok image) :
    image.LaidOut data := by
  obtain ⟨first?, headers, headerRead, firstRead, headersRead, segmentsRead, tableIndex, named,
    _⟩ := parse_eq_ok_iff.mp parsed
  obtain ⟨identRead, _⟩ := FileHeader.parse_eq_ok_iff.mp headerRead
  obtain ⟨headerInside, headerPlaced⟩ := FileHeader.placed_of_parse headerRead
  obtain ⟨rfl, firstInside⟩ := first_section_placed firstRead
  obtain ⟨sectionCount, sectionsPlaced⟩ := section_headers_placed headersRead
  obtain ⟨segmentCount, segmentsPlaced⟩ := program_headers_placed segmentsRead
  have headersOf := headers_of_name_sections named
  refine ⟨Ident.laid_out_of_parse identRead, headerInside, headerPlaced, firstInside, segmentCount,
    segmentsPlaced, ?_, headersOf ▸ sectionsPlaced,
    tableIndex.symm.trans name_table_index_placed, ?_, ?_⟩
  · rw [← sectionCount, ← headersOf, List.length_map]
  · intro index isTable
    rw [isTable] at named
    obtain ⟨holder, found, names⟩ := names_placed named
    rw [← headersOf, List.getElem?_map, Option.map_eq_some_iff] at found
    obtain ⟨item, foundItem, rfl⟩ := found
    exact ⟨item, foundItem, names⟩
  · intro absent
    rw [absent, nameSections, Except.ok.injEq] at named
    intro item member
    rw [← named] at member
    obtain ⟨_, _, rfl⟩ := List.mem_map.mp member
    rfl

section Sample

open Session

-- The second of three program headers, 32 bytes each, stands at 84.
theorem parsed_by_layout_sample :
    parse sampleFile = .ok sampleImage ∧ sampleImage.LaidOut sampleFile ∧
      sampleImage.segments[1]? = some (Segment.placed ⟨.elf32, .big⟩ sampleFile 84) ∧
      Segment.placed ⟨.elf32, .big⟩ sampleFile 84 = ⟨3, 4, 148, 0x1094, 0x1094, 8, 8, 1⟩ := by
  have parsed : parse sampleFile = .ok sampleImage := by decide +kernel
  exact ⟨parsed, parsed_by_layout parsed, by decide +kernel, by decide +kernel⟩

end Sample

end Image

end Elf

end BinaryImage
