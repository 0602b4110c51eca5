import BinaryImage.Proofs.Elf.DynamicEntries
import BinaryImage.Proofs.Elf.Tables
import BinaryImage.Proofs.Machine.Reading

/-!
Parsing ELF files on a machine. Every table and string is cut out of the file before its records are
read, so the places of the records are those of bytes that the file has.
-/

namespace BinaryImage.Elf.Machine

open BinaryImage.Machine MachineReader

def readRecord {α : Type} (reader : MachineReader α) (data : Bytes) (base : Nat) :
    Machine Error α :=
  mapError (fun overrun => .malformedElf overrun.offset (.overrun overrun.width))
    (runOn reader data base)

def parseIdent (data : Bytes) : Machine Error Ident := do
  plain (require (Ident.size ≤ data.length) (.truncated Ident.size data.length))
  let magic ← Machine.slice data 0 4
  plain (require (magic == Ident.magic) (.malformedElf 0 .badMagic))
  let classByte ← item data 4
  let fileClass ← plain (Ident.classOf classByte.toNat)
  let orderByte ← item data 5
  let byteOrder ← plain (Ident.orderOf orderByte.toNat)
  let version ← item data 6
  plain (require (version.toNat == 1) (.malformedElf 6 (.unsupportedVersion version.toNat)))
  let osAbi ← item data 7
  let abiVersion ← item data 8
  return ⟨⟨fileClass, byteOrder⟩, version.toNat, osAbi.toNat, abiVersion.toNat⟩

def parseFileHeader (data : Bytes) : Machine Error FileHeader := do
  let ident ← parseIdent data
  let size := ident.encoding.fileClass.fileHeaderSize
  plain (require (size ≤ data.length) (.truncated size data.length))
  let bytes ← Machine.slice data 0 size
  let header ← readRecord (FileHeader.read ident) bytes 0
  plain header.checkRecordSizes
  return header

def readTable {α : Type} (part : Part) (reader : MachineReader α) (data : Bytes)
    (start count size : Nat) : Machine Error (List α) := do
  let span ← plain (tableSpan part start count size data.length)
  let bytes ← plain (slice data span part)
  readRecord (FieldReader.times reader count) bytes start

def firstSectionHeader (data : Bytes) (header : FileHeader) :
    Machine Error (Option SectionHeader) := do
  if header.sectionHeaderOffset = 0 then
    return none
  let span ← plain (tableSpan .firstSectionHeader header.sectionHeaderOffset 1
    header.fileClass.sectionHeaderSize data.length)
  let bytes ← plain (slice data span .firstSectionHeader)
  return some (← readRecord (SectionHeader.read header.encoding) bytes span.start)

def sectionHeaders (data : Bytes) (header : FileHeader) (first? : Option SectionHeader) :
    Machine Error (List SectionHeader) :=
  match first? with
  | some first =>
    readTable .sectionHeaders (SectionHeader.read header.encoding) data
      header.sectionHeaderOffset (Image.sectionCount header first)
      header.fileClass.sectionHeaderSize
  | none => do
    plain (require (header.sectionHeaderCount == 0) (.malformedElf 0 .sectionsWithoutTable))
    return []

def programHeaders (data : Bytes) (header : FileHeader) (first? : Option SectionHeader) :
    Machine Error (List Segment) :=
  match Image.segmentCount header first? with
  | 0 => return []
  | count =>
    readTable .programHeaders (Segment.read header.encoding) data
      header.programHeaderOffset count header.fileClass.programHeaderSize

def entrySpan (table : StringTable) (bytes : Bytes) (index : Nat) : Machine Error Span := do
  plain (require (index < bytes.length)
    (.malformedElf table.span.start (.stringOutsideTable index)))
  let rest ← Machine.slice bytes index bytes.length
  let start ← add table.span.start index
  let length ← plain (requireSome (Bytes.terminator? rest)
    (.malformedElf start .unterminatedString))
  let size ← add length 1
  return ⟨start, size⟩

def stringAt (table : StringTable) (bytes : Bytes) (index : Nat) : Machine Error String := do
  let entry ← entrySpan table bytes index
  let start ← sub entry.start table.span.start
  let behind ← add start entry.length
  let stop ← sub behind 1
  let found ← Machine.slice bytes start stop
  return Text.Utf8.decode found

def nameSections (data : Bytes) (header : FileHeader) (headers : List SectionHeader) :
    Option Nat → Machine Error (List Section)
  | none => return headers.map fun item => item.named ""
  | some index => do
    let holder ← plain (requireSome headers[index]?
      (.malformedElf header.sectionHeaderOffset (.nameTableIndex index headers.length)))
    let table : StringTable := ⟨holder.fileSpan⟩
    let bytes ← plain (slice data table.span .sectionNames)
    headers.mapM fun item => do
      return item.named (← stringAt table bytes item.nameOffset)

def checkLoadsApart (pair : List Segment) : Machine Error Unit := do
  let earlier ← item pair 0
  let later ← item pair 1
  if earlier.memorySpan.overlaps later.memorySpan then
    throw (.malformedElf later.offset (.overlappingLoads later.address earlier.address))

def checkLoads (segments : List Segment) : Machine Error Unit :=
  (windows (Image.loadsByAddress segments)).forM checkLoadsApart

def readEntry (encoding : Encoding) (index : Nat) : MachineReader DynamicEntry := do
  let tag ← encoding.readWord
  let value ← encoding.readWord
  return ⟨index, tag, value⟩

/-- The entries from slot `index` on, up to the first null tag. `room` counts the slots left. -/
def walkSlots (encoding : Encoding) : (room index : Nat) → MachineReader (List DynamicEntry)
  | 0, _ => return []
  | room + 1, index => do
    let entry ← readEntry encoding index
    if entry.tag != Tag.null then
      let later ← walkSlots encoding room (index + 1)
      return entry :: later
    else
      return []

def parseDynamic (encoding : Encoding) (bytes : Bytes) (span : Span) :
    Machine Error DynamicArray := do
  let entrySize := encoding.fileClass.dynamicEntrySize
  let slots ← div bytes.length entrySize
  let entries ← readRecord (walkSlots encoding slots 0) bytes span.start
  return { span, entrySize, entries, strings := none, stringSource := none }

def mappedOffset? (segment : Segment) (address length : Nat) : Machine Error (Option Nat) := do
  if segment.isLoad && segment.address ≤ address then
    let inside ← sub address segment.address
    return if inside + length ≤ segment.fileSize && segment.offset + inside < offsetLimit then
      some (segment.offset + inside) else none
  else
    return none

def mapAddress (address size : Nat) :
    List (Segment × Nat) → Machine Error (Option (Span × StringSource))
  | [] => return none
  | (segment, index) :: rest => do
    match ← mappedOffset? segment address size with
    | some start => return some (⟨start, size⟩, .segment address index)
    | none => mapAddress address size rest

def mappedStrings? (segments : List Segment) (linked? : Option (Nat × Section))
    (dynamic : DynamicArray) : Machine Error (Option (Span × StringSource)) :=
  let size? := dynamic.stringTableSize? <|> linked?.map fun linked => linked.2.size
  match dynamic.stringTableAddress?, size? with
  | some address, some size => mapAddress address size segments.zipIdx
  | _, _ => return none

def locateStrings? (segments : List Segment) (linked? : Option (Nat × Section))
    (dynamic : DynamicArray) : Machine Error (Option (Span × StringSource)) := do
  let mapped? ← mappedStrings? segments linked? dynamic
  return mapped? <|> linked?.map fun (index, item) => (item.fileSpan, .linked index)

def attachStrings (data : Bytes) (dynamic : DynamicArray) :
    Option (Span × StringSource) → Machine Error DynamicArray
  | some (span, source) => do
    let table : StringTable := ⟨span⟩
    let bytes ← plain (slice data span .dynamicStrings)
    dynamic.stringEntries.forM fun entry => do
      let _ ← entrySpan table bytes entry.value
    return { dynamic with strings := some table, stringSource := some source }
  | none => do
    plain (require dynamic.stringEntries.isEmpty
      (.malformedElf dynamic.span.start .missingStringTable))
    return dynamic

def findDynamic (data : Bytes) (encoding : Encoding) (segments : List Segment)
    (sections : List Section) : Machine Error (Option DynamicArray) := do
  let dynamicSection? := sections.find? fun item => item.kind == SectionHeader.dynamicKind
  match Image.dynamicSpan? segments dynamicSection? with
  | none => return none
  | some span =>
    let bytes ← plain (slice data span .dynamicArray)
    let dynamic ← parseDynamic encoding bytes span
    let linked? := Image.linkedSection? sections dynamicSection?
    let located? ← locateStrings? segments linked? dynamic
    return some (← attachStrings data dynamic located?)

def parse (data : Bytes) : Machine Error Image := do
  let header ← parseFileHeader data
  let first? ← firstSectionHeader data header
  let headers ← sectionHeaders data header first?
  let segments ← programHeaders data header first?
  let nameTable := Image.nameTableIndex header first?
  let sections ← nameSections data header headers nameTable
  checkLoads segments
  let interpreter ← plain (Image.findInterpreter data segments)
  let dynamic ← findDynamic data header.encoding segments sections
  return { header, segments, sections, nameTable, dynamic, interpreter
           fileLength := data.length, edits := EditSet.empty }

section Records

variable {shift : Nat} (encoding : Encoding)

theorem faithful_read (width : Width) :
    Faithful shift (encoding.read width) (encoding.read width) :=
  faithful_unsigned encoding.byteOrder width

theorem faithful_read_word : Faithful shift encoding.readWord encoding.readWord :=
  faithful_read encoding encoding.fileClass.wordWidth

theorem faithful_section_header :
    Faithful shift (SectionHeader.read encoding) (SectionHeader.read encoding) := by
  unfold SectionHeader.read
  iterate 2 refine faithful_bind (faithful_read encoding .word) fun _ => ?_
  iterate 4 refine faithful_bind (faithful_read_word encoding) fun _ => ?_
  iterate 2 refine faithful_bind (faithful_read encoding .word) fun _ => ?_
  iterate 2 refine faithful_bind (faithful_read_word encoding) fun _ => ?_
  exact faithful_pure _

theorem faithful_segment : Faithful shift (Segment.read encoding) (Segment.read encoding) := by
  unfold Segment.read
  apply faithful_bind (faithful_read encoding .word)
  intro kind
  cases encoding.fileClass with
  | elf32 =>
    iterate 5 refine faithful_bind (faithful_read_word encoding) fun _ => ?_
    apply faithful_bind (faithful_read encoding .word)
    intro flags
    apply faithful_bind (faithful_read_word encoding)
    intro alignment
    exact faithful_pure _
  | elf64 =>
    apply faithful_bind (faithful_read encoding .word)
    intro flags
    iterate 6 refine faithful_bind (faithful_read_word encoding) fun _ => ?_
    exact faithful_pure _

end Records

theorem read_record_eq {α : Type} (reader : Reader α) (data : Bytes) (base : Nat) :
    Elf.readRecord reader data base = (reader.runOn data base).mapError fun overrun =>
      .malformedElf overrun.offset (.overrun overrun.width) := by
  unfold Elf.readRecord
  cases reader.runOn data base <;> rfl

variable {α : Type} {data : Bytes}

theorem gives_read_record {steps : MachineReader α} {reader : Reader α} {base : Nat}
    (fits : base + data.length < offsetLimit) (faithful : Faithful 0 steps reader) :
    Gives (readRecord steps data base) (Elf.readRecord reader data base) := by
  rw [read_record_eq]
  exact gives_map_error _ (gives_run_on (faithful _ _ (tracks_self fits)))

theorem gives_parse_ident : Gives (parseIdent data) (Ident.parse data) := by
  unfold parseIdent Ident.parse
  apply gives_bind (gives_plain _)
  intro _ checked
  have long : 16 ≤ data.length := of_decide_eq_true (require_eq_ok_iff.mp checked)
  have byteAt : ∀ index < 16, data[index]? = some (data.getD index 0) := by
    intro index below
    rw [List.getD_eq_getElem?_getD, List.getElem?_eq_getElem (by omega), Option.getD_some]
  apply gives_ok_bind (gives_slice_to (by omega))
  apply gives_bind (gives_plain _)
  intro _ _
  apply gives_ok_bind (gives_item (byteAt 4 (by decide)))
  apply gives_bind (gives_plain _)
  intro fileClass _
  apply gives_ok_bind (gives_item (byteAt 5 (by decide)))
  apply gives_bind (gives_plain _)
  intro byteOrder _
  apply gives_ok_bind (gives_item (byteAt 6 (by decide)))
  apply gives_bind (gives_plain _)
  intro _ _
  apply gives_ok_bind (gives_item (byteAt 7 (by decide)))
  apply gives_ok_bind (gives_item (byteAt 8 (by decide)))
  exact gives_pure _

theorem gives_read_file_header {ident : Ident} {bytes : Bytes}
    (fits : 0 + bytes.length < offsetLimit) :
    Gives (readRecord (FileHeader.read ident) bytes 0)
      (Elf.readRecord (FileHeader.read ident) bytes 0) := by
  have skipped : 0 + Ident.size < offsetLimit := by decide
  have follows : Follows 0 (FileHeader.read ident) (FileHeader.read ident) ⟨bytes, 0, 0⟩
      ⟨bytes, 0, 0⟩ := by
    unfold FileHeader.read
    apply follows_bind (follows_skip (tracks_self fits) skipped)
    intro _
    iterate 2 refine faithful_bind (faithful_read ident.encoding .half) fun _ => ?_
    apply faithful_bind (faithful_read ident.encoding .word)
    intro version
    iterate 3 refine faithful_bind (faithful_read_word ident.encoding) fun _ => ?_
    apply faithful_bind (faithful_read ident.encoding .word)
    intro flags
    iterate 6 refine faithful_bind (faithful_read ident.encoding .half) fun _ => ?_
    exact faithful_pure _
  rw [read_record_eq]
  exact gives_map_error _ (gives_run_on follows)

theorem gives_parse_file_header : Gives (parseFileHeader data) (FileHeader.parse data) := by
  unfold parseFileHeader FileHeader.parse
  apply gives_bind gives_parse_ident
  intro ident _
  apply gives_bind (gives_plain _)
  intro _ checked
  have long := of_decide_eq_true (require_eq_ok_iff.mp checked)
  apply gives_ok_bind (gives_slice_to long)
  refine gives_bind (gives_read_file_header ?_) fun header _ => ?_
  · rw [List.length_take, Nat.zero_add, Nat.min_eq_left long]
    cases ident.encoding.fileClass <;> decide
  · apply gives_bind (gives_plain _)
    intro _ _
    exact gives_pure _

section Allocated

variable (allocated : data.length < allocationLimit)
include allocated

/-- A part that was cut out of the file ends at an offset of it. -/
theorem fits_of_slice {span : Span} {part : Part} {bytes : Bytes}
    (sliced : slice data span part = .ok bytes) : span.start + bytes.length < offsetLimit := by
  have found := slice_eq_ok_iff.mp sliced
  have inside := (Bytes.slice_eq_some_iff.mp found).1
  have length := Bytes.length_slice found
  unfold allocationLimit at allocated
  unfold offsetLimit
  omega

theorem gives_read_table {part : Part} {steps : MachineReader α} {reader : Reader α}
    (faithful : Faithful 0 steps reader) (start count size : Nat) :
    Gives (readTable part steps data start count size)
      (Elf.readTable part reader data start count size) := by
  unfold readTable Elf.readTable
  apply gives_bind (gives_plain _)
  intro span tabled
  apply gives_bind (gives_plain _)
  intro bytes sliced
  have fits := fits_of_slice allocated sliced
  obtain ⟨_, _, rfl⟩ := table_span_eq_ok_iff.mp tabled
  exact gives_read_record fits (faithful_times faithful count)

theorem gives_first_section_header (header : FileHeader) :
    Gives (firstSectionHeader data header) (Image.firstSectionHeader data header) := by
  unfold firstSectionHeader Image.firstSectionHeader
  split
  · exact gives_pure none
  · apply gives_bind (gives_plain _)
    intro span _
    apply gives_bind (gives_plain _)
    intro bytes sliced
    apply gives_bind (gives_read_record (fits_of_slice allocated sliced)
      (faithful_section_header _))
    intro first _
    exact gives_pure _

theorem gives_section_headers (header : FileHeader) (first? : Option SectionHeader) :
    Gives (sectionHeaders data header first?) (Image.sectionHeaders data header first?) := by
  cases first? with
  | none =>
    apply gives_bind (gives_plain _)
    intro _ _
    exact gives_pure []
  | some first => exact gives_read_table allocated (faithful_section_header _) _ _ _

theorem gives_program_headers (header : FileHeader) (first? : Option SectionHeader) :
    Gives (programHeaders data header first?) (Image.programHeaders data header first?) := by
  unfold programHeaders Image.programHeaders
  cases Image.segmentCount header first? with
  | zero => exact gives_pure []
  | succ count => exact gives_read_table allocated (faithful_segment _) _ _ _

end Allocated

section Strings

variable {table : StringTable} {bytes : Bytes}
  (fits : table.span.start + bytes.length < offsetLimit)
include fits

theorem gives_entry_span (index : Nat) :
    Gives (entrySpan table bytes index) (table.entrySpan bytes index) := by
  unfold entrySpan StringTable.entrySpan
  apply gives_bind (gives_plain _)
  intro _ checked
  have below := of_decide_eq_true (require_eq_ok_iff.mp checked)
  apply gives_ok_bind (gives_slice_from (Nat.le_of_lt below))
  apply gives_ok_bind (gives_add (by omega))
  apply gives_bind (gives_plain _)
  intro length found
  have inside := (List.findIdx?_eq_some_iff_getElem.mp (require_some_eq_ok_iff.mp found)).1
  rw [List.length_drop] at inside
  apply gives_ok_bind (gives_add (by omega))
  exact gives_pure _

theorem gives_string_at (index : Nat) :
    Gives (stringAt table bytes index) (table.get bytes index) := by
  unfold stringAt StringTable.get
  apply gives_bind (gives_entry_span fits index)
  intro entry found
  obtain ⟨below, length, terminated, rfl⟩ := StringTable.entry_span_eq_ok_iff.mp found
  have inside := (List.findIdx?_eq_some_iff_getElem.mp terminated).1
  rw [List.length_drop] at inside
  apply gives_ok_bind (gives_sub (Nat.le_add_right _ _))
  rw [Nat.add_sub_cancel_left]
  apply gives_ok_bind (gives_add (by simp only; omega))
  apply gives_ok_bind (gives_sub (by simp only; omega))
  apply gives_ok_bind (gives_slice (by simp only; omega) (by simp only; omega))
  have stop : index + (length + 1) - 1 - index = length := by omega
  have text := Bytes.take_terminator (bytes.drop index)
  rw [terminated, Option.getD_some] at text
  rw [stop, text]
  exact gives_pure _

end Strings

theorem gives_name_sections (allocated : data.length < allocationLimit) (header : FileHeader)
    (headers : List SectionHeader) (nameTable : Option Nat) :
    Gives (nameSections data header headers nameTable)
      (Image.nameSections data header headers nameTable) := by
  cases nameTable with
  | none => exact gives_pure _
  | some index =>
    apply gives_bind (gives_plain _)
    intro holder _
    apply gives_bind (gives_plain _)
    intro bytes sliced
    refine gives_mapM fun item _ => ?_
    apply gives_bind (gives_string_at (fits_of_slice allocated sliced) _)
    intro name _
    exact gives_pure _

theorem gives_check_loads_apart (earlier later : Segment) :
    Gives (checkLoadsApart [earlier, later])
      (if earlier.memorySpan.overlaps later.memorySpan then
        .error (.malformedElf later.offset (.overlappingLoads later.address earlier.address))
      else .ok ()) := by
  apply gives_ok_bind (gives_item rfl)
  apply gives_ok_bind (gives_item rfl)
  cases earlier.memorySpan.overlaps later.memorySpan with
  | true => exact gives_throw _
  | false => exact gives_pure _

theorem gives_check_loads (segments : List Segment) :
    Gives (checkLoads segments) (Image.checkLoads segments) := by
  have search : Image.checkLoads segments =
      refusal (fun pair : Segment × Segment =>
          .malformedElf pair.2.offset (.overlappingLoads pair.2.address pair.1.address))
        ((neighbours (Image.loadsByAddress segments)).find? fun pair =>
          pair.1.memorySpan.overlaps pair.2.memorySpan) := by
    unfold Image.checkLoads
    simp only
    generalize List.find? _ _ = clash
    cases clash <;> rfl
  rw [search]
  exact gives_search_windows (Image.loadsByAddress segments) gives_check_loads_apart

section Dynamic

variable {encoding : Encoding} {bytes : Bytes}

theorem gives_read_word {base position : Nat} (fits : base + bytes.length < offsetLimit)
    (within : position + encoding.wordSize ≤ bytes.length) :
    Gives ((encoding.readWord : MachineReader Nat) ⟨bytes, base, position⟩)
      (.ok (encoding.wordAt bytes position, ⟨bytes, base, position + encoding.wordSize⟩)) :=
  gives_unsigned fits encoding.byteOrder within

/-- The cursor comes from each slot to the next. -/
theorem gives_read_entry {base index : Nat} (fits : base + bytes.length < offsetLimit)
    (inside : (index + 1) * encoding.fileClass.dynamicEntrySize ≤ bytes.length) :
    Gives (readEntry encoding index ⟨bytes, base, index * encoding.fileClass.dynamicEntrySize⟩)
      (.ok (DynamicArray.entryIn encoding bytes index,
        ⟨bytes, base, (index + 1) * encoding.fileClass.dynamicEntrySize⟩)) := by
  have slot : (index + 1) * encoding.fileClass.dynamicEntrySize =
      index * encoding.fileClass.dynamicEntrySize + encoding.wordSize + encoding.wordSize := by
    rw [Nat.succ_mul, encoding.entry_size, ← Nat.add_assoc]
  rw [slot] at inside ⊢
  apply gives_ok_bind (gives_read_word fits (by omega))
  apply gives_ok_bind (gives_read_word fits inside)
  exact gives_pure _

theorem gives_walk_slots {base : Nat} (fits : base + bytes.length < offsetLimit) (room : Nat)
    {index : Nat} (inside : (index + room) * encoding.fileClass.dynamicEntrySize ≤ bytes.length) :
    ∃ after, Gives (walkSlots encoding room index
        ⟨bytes, base, index * encoding.fileClass.dynamicEntrySize⟩)
      (.ok (((List.range' index room).map (DynamicArray.entryIn encoding bytes)).takeWhile
        (fun entry => entry.tag != Tag.null), after)) := by
  induction room generalizing index with
  | zero => exact ⟨_, gives_pure _⟩
  | succ room ih =>
    have here : (index + 1) * encoding.fileClass.dynamicEntrySize ≤ bytes.length :=
      Nat.le_trans (Nat.mul_le_mul_right _ (by omega)) inside
    have entry := gives_read_entry fits here
    have later : (index + 1 + room) * encoding.fileClass.dynamicEntrySize ≤ bytes.length := by
      rwa [Nat.add_assoc, Nat.add_comm 1 room]
    obtain ⟨after, rest⟩ := ih later
    rw [List.range'_succ, List.map_cons, List.takeWhile_cons]
    by_cases live : ((DynamicArray.entryIn encoding bytes index).tag != Tag.null) = true
    · rw [if_pos live]
      refine ⟨after, gives_ok_bind entry ?_⟩
      simp only [if_pos live]
      exact gives_ok_bind rest (gives_pure _)
    · rw [if_neg live]
      refine ⟨⟨bytes, base, (index + 1) * encoding.fileClass.dynamicEntrySize⟩,
        gives_ok_bind entry ?_⟩
      simp only [if_neg live]
      exact gives_pure _

theorem gives_parse_dynamic {span : Span} (fits : span.start + bytes.length < offsetLimit) :
    Gives (parseDynamic encoding bytes span) (.ok (DynamicArray.decode encoding bytes span)) := by
  have sized : encoding.fileClass.dynamicEntrySize ≠ 0 := by
    cases encoding.fileClass <;> decide
  have inside : (0 + bytes.length / encoding.fileClass.dynamicEntrySize) *
      encoding.fileClass.dynamicEntrySize ≤ bytes.length := by
    rw [Nat.zero_add]
    exact Nat.div_mul_le_self _ _
  obtain ⟨after, walked⟩ := gives_walk_slots fits _ inside
  rw [Nat.zero_mul] at walked
  have entries : Gives (runOn (walkSlots encoding
      (bytes.length / encoding.fileClass.dynamicEntrySize) 0) bytes span.start)
        (.ok (DynamicArray.decode encoding bytes span).entries) := by
    simp only [DynamicArray.decode, List.range_eq_range']
    exact gives_ok_bind walked (gives_pure _)
  apply gives_ok_bind (gives_div sized)
  apply gives_ok_bind (gives_map_error _ entries)
  exact gives_pure _

end Dynamic

theorem gives_mapped_offset (segment : Segment) (address length : Nat) :
    Gives (mappedOffset? segment address length) (.ok (segment.fileOffset? address length)) := by
  unfold mappedOffset? Segment.fileOffset?
  simp only
  by_cases reached : (segment.isLoad && segment.address ≤ address) = true
  · obtain ⟨_, behind⟩ := Bool.and_eq_true_iff.mp reached
    rw [if_pos reached, reached, Bool.true_and]
    apply gives_ok_bind (gives_sub (of_decide_eq_true behind))
    exact gives_pure _
  · rw [if_neg reached, Bool.eq_false_iff.mpr reached, Bool.false_and, Bool.false_and]
    exact gives_pure none

theorem gives_map_address (address size : Nat) (segments : List (Segment × Nat)) :
    Gives (mapAddress address size segments)
      (.ok (segments.findSome? fun (segment, index) => do
        let start ← segment.fileOffset? address size
        return (⟨start, size⟩, .segment address index))) := by
  induction segments with
  | nil => exact gives_pure none
  | cons entry rest ih =>
    obtain ⟨segment, index⟩ := entry
    rw [List.findSome?_cons]
    apply gives_ok_bind (gives_mapped_offset segment address size)
    simp only
    cases segment.fileOffset? address size with
    | some start => exact gives_pure _
    | none => exact ih

theorem gives_mapped_strings (segments : List Segment) (linked? : Option (Nat × Section))
    (dynamic : DynamicArray) :
    Gives (mappedStrings? segments linked? dynamic)
      (.ok (Image.mappedStrings? segments linked? dynamic)) := by
  unfold mappedStrings? Image.mappedStrings?
  generalize (dynamic.stringTableSize? <|> linked?.map fun linked => linked.2.size) = size?
  cases dynamic.stringTableAddress? with
  | none => exact gives_pure none
  | some address =>
    cases size? with
    | none => exact gives_pure none
    | some size => exact gives_map_address address size segments.zipIdx

theorem gives_locate_strings (segments : List Segment) (linked? : Option (Nat × Section))
    (dynamic : DynamicArray) :
    Gives (locateStrings? segments linked? dynamic)
      (.ok (Image.locateStrings? segments linked? dynamic)) := by
  apply gives_ok_bind (gives_mapped_strings segments linked? dynamic)
  exact gives_pure _

theorem gives_attach_strings (allocated : data.length < allocationLimit) (dynamic : DynamicArray)
    (located? : Option (Span × StringSource)) :
    Gives (attachStrings data dynamic located?) (Image.attachStrings data dynamic located?) := by
  cases located? with
  | none =>
    apply gives_bind (gives_plain _)
    intro _ _
    exact gives_pure _
  | some located =>
    apply gives_bind (gives_plain _)
    intro bytes sliced
    have fits := fits_of_slice allocated sliced
    refine gives_bind (gives_forM fun entry _ => ?_) fun _ _ => ?_
    · apply gives_bind (gives_entry_span fits entry.value)
      intro place _
      exact gives_pure _
    · exact gives_pure _

theorem gives_find_dynamic (allocated : data.length < allocationLimit) (encoding : Encoding)
    (segments : List Segment) (sections : List Section) :
    Gives (findDynamic data encoding segments sections)
      (Image.findDynamic data encoding segments sections) := by
  unfold findDynamic Image.findDynamic
  simp only
  cases Image.dynamicSpan? segments
      (sections.find? fun item => item.kind == SectionHeader.dynamicKind) with
  | none => exact gives_pure none
  | some span =>
    apply gives_bind (gives_plain _)
    intro bytes sliced
    apply gives_ok_bind (gives_parse_dynamic (fits_of_slice allocated sliced))
    apply gives_ok_bind (gives_locate_strings _ _ _)
    apply gives_bind (gives_attach_strings allocated _ _)
    intro dynamic _
    exact gives_pure _

theorem gives_parse (allocated : data.length < allocationLimit) :
    Gives (parse data) (Image.parse data) := by
  unfold parse Image.parse
  apply gives_bind gives_parse_file_header
  intro header _
  apply gives_bind (gives_first_section_header allocated header)
  intro first? _
  apply gives_bind (gives_section_headers allocated header first?)
  intro headers _
  apply gives_bind (gives_program_headers allocated header first?)
  intro segments _
  apply gives_bind (gives_name_sections allocated header headers _)
  intro sections _
  apply gives_bind (gives_check_loads segments)
  intro _ _
  apply gives_bind (gives_plain _)
  intro interpreter _
  apply gives_bind (gives_find_dynamic allocated _ _ _)
  intro dynamic _
  exact gives_pure _

end BinaryImage.Elf.Machine
