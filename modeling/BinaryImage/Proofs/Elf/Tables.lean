import BinaryImage.Elf.Image
import BinaryImage.Proofs.Agreement

/-!
Each table of an ELF file is read from a span of its own. Two files of one length that agree on
that span have the same table, whatever else differs between them.
-/

namespace BinaryImage.Elf

variable {a b : Bytes}

theorem slice_congr {span : Span} (part : Part) (length : a.length = b.length)
    (agree : Bytes.Agree a b span) : slice a span part = slice b span part := by
  unfold slice
  rw [agree.slice length]

theorem table_span_eq_ok_iff {part : Part} {start count size fileLength : Nat} {span : Span} :
    tableSpan part start count size fileLength = .ok span ↔
      count * size < offsetLimit ∧ start + count * size ≤ fileLength ∧
        span = ⟨start, count * size⟩ := by
  simp only [tableSpan, bind_eq_ok_iff, require_eq_ok_iff, exists_const, decide_eq_true_eq,
    Span.fitsIn_iff, pure, Except.pure, Except.ok.injEq, eq_comm (b := span)]

section ReadTable

variable {α : Type} {part : Part} {reader : Reader α} {start count size : Nat}

theorem read_table_congr (length : a.length = b.length)
    (agree : Bytes.Agree a b ⟨start, count * size⟩) :
    readTable part reader a start count size = readTable part reader b start count size := by
  unfold readTable
  rw [length]
  cases found : tableSpan part start count size b.length with
  | error cause => rfl
  | ok span =>
    obtain ⟨_, _, rfl⟩ := table_span_eq_ok_iff.mp found
    have same := slice_congr part length agree
    simp only [bind, Except.bind, same]

theorem length_of_read_table {data : Bytes} {records : List α}
    (read : readTable part reader data start count size = .ok records) :
    records.length = count := by
  simp only [readTable, bind_eq_ok_iff] at read
  rcases read with ⟨span, _, bytes, _, done⟩
  have counted := Reader.run_on_returns (Reader.returns_times reader count)
    (read_record_eq_ok_iff.mp done)
  exact counted

end ReadTable

namespace Ident

theorem parse_congr (length : a.length = b.length) (agree : Bytes.Agree a b ⟨0, size⟩) :
    parse a = parse b := by
  have magicAgree : Bytes.Agree a b ⟨0, 4⟩ := agree.mono (Nat.le_refl _) (by decide)
  have front : a.take 4 = b.take 4 := magicAgree.take
  have same : ∀ index < size, a.getD index 0 = b.getD index 0 := by
    intro index below
    have read := agree index ⟨Nat.zero_le _, by simpa using below⟩
    rw [List.getD_eq_getElem?_getD, List.getD_eq_getElem?_getD, read]
  simp only [parse, length, front, same 4 (by decide), same 5 (by decide), same 6 (by decide),
    same 7 (by decide), same 8 (by decide)]

end Ident

namespace FileHeader

theorem returns_read (ident : Ident) :
    Reader.Returns (read ident) fun header => header.ident = ident := by
  unfold read
  iterate 14 (apply Reader.returns_bind; intro _)
  exact Reader.returns_pure rfl

theorem parse_eq_ok_iff {data : Bytes} {header : FileHeader} :
    parse data = .ok header ↔
      Ident.parse data = .ok header.ident ∧ header.fileClass.fileHeaderSize ≤ data.length ∧
        readRecord (read header.ident) (data.take header.fileClass.fileHeaderSize) 0 =
          .ok header ∧
        header.checkRecordSizes = .ok () := by
  simp only [parse, bind_eq_ok_iff, require_eq_ok_iff, exists_const, decide_eq_true_eq, pure,
    Except.pure, Except.ok.injEq]
  constructor
  · rintro ⟨ident, identRead, long, header, headerRead, _, sizes, rfl⟩
    have same := Reader.run_on_returns (returns_read ident) (read_record_eq_ok_iff.mp headerRead)
    subst same
    exact ⟨identRead, long, headerRead, sizes⟩
  · rintro ⟨identRead, long, headerRead, sizes⟩
    exact ⟨header.ident, identRead, long, header, headerRead, (), sizes, rfl⟩

theorem parse_of_agree {header : FileHeader} (length : a.length = b.length)
    (agree : Bytes.Agree a b ⟨0, header.fileClass.fileHeaderSize⟩)
    (parsed : parse a = .ok header) : parse b = .ok header := by
  obtain ⟨identRead, long, headerRead, sizes⟩ := parse_eq_ok_iff.mp parsed
  have identSize : Ident.size ≤ header.fileClass.fileHeaderSize := by
    cases header.fileClass <;> decide
  have identAgree : Bytes.Agree a b ⟨0, Ident.size⟩ :=
    agree.mono (Nat.le_refl _) (by simpa using identSize)
  rw [Ident.parse_congr length identAgree] at identRead
  rw [agree.take] at headerRead
  exact parse_eq_ok_iff.mpr ⟨identRead, length ▸ long, headerRead, sizes⟩

end FileHeader

namespace Image

variable {header : FileHeader}

theorem first_section_header_congr (length : a.length = b.length)
    (agree : header.sectionHeaderOffset ≠ 0 →
      Bytes.Agree a b ⟨header.sectionHeaderOffset, header.fileClass.sectionHeaderSize⟩) :
    firstSectionHeader a header = firstSectionHeader b header := by
  unfold firstSectionHeader
  by_cases absent : header.sectionHeaderOffset = 0
  · rw [if_pos absent, if_pos absent]
  · rw [if_neg absent, if_neg absent, length]
    cases found : tableSpan .firstSectionHeader header.sectionHeaderOffset 1
        header.fileClass.sectionHeaderSize b.length with
    | error cause => rfl
    | ok span =>
      obtain ⟨_, _, rfl⟩ := table_span_eq_ok_iff.mp found
      rw [Nat.one_mul]
      have same := slice_congr .firstSectionHeader length (agree absent)
      simp only [bind, Except.bind, same]

theorem section_headers_of_agree {first? : Option SectionHeader} {headers : List SectionHeader}
    (length : a.length = b.length)
    (agree : Bytes.Agree a b ⟨header.sectionHeaderOffset,
      headers.length * header.fileClass.sectionHeaderSize⟩)
    (read : sectionHeaders a header first? = .ok headers) :
    sectionHeaders b header first? = .ok headers := by
  cases first? with
  | none => exact read
  | some first =>
    simp only [sectionHeaders] at read ⊢
    rw [length_of_read_table read] at agree
    rw [← read_table_congr length agree]
    exact read

theorem program_headers_of_agree {first? : Option SectionHeader} {segments : List Segment}
    (length : a.length = b.length)
    (agree : Bytes.Agree a b ⟨header.programHeaderOffset,
      segments.length * header.fileClass.programHeaderSize⟩)
    (read : programHeaders a header first? = .ok segments) :
    programHeaders b header first? = .ok segments := by
  unfold programHeaders at read ⊢
  split at read
  · exact read
  · rw [length_of_read_table read] at agree
    rw [← read_table_congr length agree]
    exact read

def NamedBy (headers : List SectionHeader) (nameTable : Option Nat) (holder : SectionHeader) :
    Prop := ∃ index, nameTable = some index ∧ headers[index]? = some holder

theorem name_sections_congr {headers : List SectionHeader} {nameTable : Option Nat}
    (length : a.length = b.length)
    (agree : ∀ holder, NamedBy headers nameTable holder → Bytes.Agree a b holder.fileSpan) :
    nameSections a header headers nameTable = nameSections b header headers nameTable := by
  cases nameTable with
  | none => rfl
  | some index =>
    cases found : headers[index]? with
    | none => simp only [nameSections, found, requireSome, bind, Except.bind]
    | some holder =>
      have same := slice_congr .sectionNames length (agree holder ⟨index, rfl, found⟩)
      simp only [nameSections, found, requireSome, bind, Except.bind, same]

-- Naming a section leaves its header as it is.
theorem headers_of_name_sections {data : Bytes} {headers : List SectionHeader}
    {nameTable : Option Nat} {sections : List Section}
    (named : nameSections data header headers nameTable = .ok sections) :
    sections.map Section.toSectionHeader = headers := by
  cases nameTable with
  | none =>
    cases named
    rw [List.map_map]
    exact List.map_id headers
  | some index =>
    simp only [nameSections, bind_eq_ok_iff, mapM_eq_ok_iff] at named
    rcases named with ⟨holder, _, bytes, _, all⟩
    have kept : List.Forall₂ (fun item result => item = Section.toSectionHeader result)
        headers sections := by
      apply all.imp
      rintro item result ⟨text, _, same⟩
      cases same
      rfl
    rw [← List.forall₂_map_right_iff, List.forall₂_eq_eq_eq] at kept
    exact kept.symm

def nameTableSpan? (image : Image) : Option Span := do
  let index ← image.nameTable
  let holder ← image.sections[index]?
  return holder.fileSpan

theorem name_sections_of_agree {image : Image} {headers : List SectionHeader}
    (length : a.length = b.length) (agree : ∀ span ∈ image.nameTableSpan?, Bytes.Agree a b span)
    (named : nameSections a image.header headers image.nameTable = .ok image.sections) :
    nameSections b image.header headers image.nameTable = .ok image.sections := by
  have same : nameSections a image.header headers image.nameTable =
      nameSections b image.header headers image.nameTable := by
    apply name_sections_congr length
    rintro holder ⟨index, isTable, found⟩
    rw [← headers_of_name_sections named, List.getElem?_map, Option.map_eq_some_iff] at found
    obtain ⟨item, foundItem, rfl⟩ := found
    exact agree _ (by simp [nameTableSpan?, isTable, foundItem])
  exact same.symm.trans named

/-- Section header 0, which is also read where the section table is stated to be empty. -/
def firstSectionSpan? (image : Image) : Option Span :=
  if image.header.sectionHeaderOffset = 0 then none
  else some ⟨image.header.sectionHeaderOffset, image.header.fileClass.sectionHeaderSize⟩

def sectionTableSpan (image : Image) : Span :=
  ⟨image.header.sectionHeaderOffset,
    image.sections.length * image.header.fileClass.sectionHeaderSize⟩

def headerSpans (image : Image) : List Span :=
  [⟨0, image.header.fileClass.fileHeaderSize⟩, image.sectionTableSpan] ++
    image.firstSectionSpan?.toList

theorem headers_of_agree {image : Image} {first? : Option SectionHeader}
    {headers : List SectionHeader} (length : a.length = b.length)
    (agree : ∀ span ∈ image.headerSpans, Bytes.Agree a b span)
    (headerRead : FileHeader.parse a = .ok image.header)
    (firstRead : firstSectionHeader a image.header = .ok first?)
    (headersRead : sectionHeaders a image.header first? = .ok headers)
    (counted : image.sections.map Section.toSectionHeader = headers) :
    FileHeader.parse b = .ok image.header ∧ firstSectionHeader b image.header = .ok first? ∧
      sectionHeaders b image.header first? = .ok headers := by
  have headerAgree := agree ⟨0, image.header.fileClass.fileHeaderSize⟩ (by simp [headerSpans])
  have tableAgree := agree image.sectionTableSpan (by simp [headerSpans])
  have firstAgree : image.header.sectionHeaderOffset ≠ 0 → Bytes.Agree a b
      ⟨image.header.sectionHeaderOffset, image.header.fileClass.sectionHeaderSize⟩ := by
    intro placed
    exact agree _ (by simp [headerSpans, firstSectionSpan?, placed])
  have count : image.sections.length = headers.length := by
    rw [← counted, List.length_map]
  rw [sectionTableSpan, count] at tableAgree
  exact ⟨FileHeader.parse_of_agree length headerAgree headerRead,
    (first_section_header_congr length firstAgree).symm.trans firstRead,
    section_headers_of_agree length tableAgree headersRead⟩

theorem find_interpreter_eq_ok_some_iff {data : Bytes} {segments : List Segment} {span : Span} :
    findInterpreter data segments = .ok (some span) ↔
      ∃ segment, segments.filter (fun segment => segment.kind == Segment.interpreterKind) =
          [segment] ∧ segment.fileSpan = span ∧
        ∃ bytes, data.slice? span = some bytes ∧ 0 ∈ bytes := by
  unfold findInterpreter
  generalize segments.filter (fun segment => segment.kind == Segment.interpreterKind) = kept
  rcases kept with _ | ⟨only, _ | ⟨other, rest⟩⟩
  · simp
  · simp only [bind_eq_ok_iff, slice_eq_ok_iff, require_eq_ok_iff, exists_const,
      Bytes.terminator_isSome_iff, pure, Except.pure, Except.ok.injEq, Option.some.injEq,
      List.cons.injEq, and_true, exists_eq_left']
    constructor
    · rintro ⟨bytes, sliced, nul, rfl⟩
      exact ⟨rfl, bytes, sliced, nul⟩
    · rintro ⟨rfl, bytes, sliced, nul⟩
      exact ⟨bytes, sliced, nul, rfl⟩
  · simp

theorem find_interpreter_eq_ok_none_iff {data : Bytes} {segments : List Segment} :
    findInterpreter data segments = .ok none ↔
      segments.filter (fun segment => segment.kind == Segment.interpreterKind) = [] := by
  unfold findInterpreter
  generalize segments.filter (fun segment => segment.kind == Segment.interpreterKind) = kept
  rcases kept with _ | ⟨only, _ | ⟨other, rest⟩⟩
  · simp
  · simp [bind_eq_ok_iff, pure, Except.pure]
  · simp

-- An interpreter is found again where its span still holds a terminated path.
theorem find_interpreter_of_kept {segments : List Segment} {interpreter : Option Span}
    (found : findInterpreter a segments = .ok interpreter)
    (kept : ∀ span, interpreter = some span →
      ∃ bytes, b.slice? span = some bytes ∧ 0 ∈ bytes) :
    findInterpreter b segments = .ok interpreter := by
  cases interpreter with
  | some span =>
    obtain ⟨segment, only, place, _⟩ := find_interpreter_eq_ok_some_iff.mp found
    exact find_interpreter_eq_ok_some_iff.mpr ⟨segment, only, place, kept span rfl⟩
  | none => exact find_interpreter_eq_ok_none_iff.mpr (find_interpreter_eq_ok_none_iff.mp found)

theorem find_interpreter_of_agree {segments : List Segment} {interpreter : Option Span}
    (length : a.length = b.length) (agree : ∀ span ∈ interpreter, Bytes.Agree a b span)
    (found : findInterpreter a segments = .ok interpreter) :
    findInterpreter b segments = .ok interpreter := by
  apply find_interpreter_of_kept found
  rintro span rfl
  obtain ⟨_, _, _, bytes, sliced, nul⟩ := find_interpreter_eq_ok_some_iff.mp found
  exact ⟨bytes, ((agree span rfl).slice length).symm.trans sliced, nul⟩

end Image

end BinaryImage.Elf
