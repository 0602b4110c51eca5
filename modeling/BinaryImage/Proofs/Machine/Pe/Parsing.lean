import BinaryImage.Proofs.Machine.Reading
import BinaryImage.Proofs.Pe.DescriptorTables
import BinaryImage.Proofs.Pe.FieldRanges

/-!
Parsing PE images on a machine. Every sum is of an offset that the file has, or of fields of four
bytes, and a few more bytes; the only difference is that of an address and the start of a section
which holds it.
-/

namespace BinaryImage.Pe.Machine

open BinaryImage.Machine MachineReader

def readRecord {α : Type} (reader : MachineReader α) (data : Bytes) (base : Nat) :
    Machine Error α :=
  mapError (fun overrun => .malformedPe overrun.offset .overrun) (runOn reader data base)

def parseDosHeader (data : Bytes) : Machine Error DosHeader := do
  plain (require (DosHeader.size ≤ data.length) (.truncated DosHeader.size data.length))
  let magic ← readRecord half data 0
  plain (require (magic == DosHeader.expectedMagic) (.malformedPe 0 (.badDosMagic magic)))
  let signatureOffset ← readRecord (do FieldReader.seek DosHeader.signaturePointer; word) data 0
  return ⟨magic, signatureOffset⟩

def parseOptionalHeader (data : Bytes) (base : Nat) : Machine Error OptionalHeader := do
  let magic ← readRecord half data base
  let kind ← plain (requireSome (OptionalKind.ofMagic? magic)
    (.malformedPe base (.unsupportedOptionalMagic magic)))
  let countOffset ← sub kind.directoriesOffset 4
  let header ← readRecord (OptionalHeader.readFixed kind magic countOffset) data base
  let tableSize ← mul header.directoryCount DataDirectory.recordSize
  let stop ← add tableSize kind.directoriesOffset
  plain (require (stop ≤ data.length)
    (.malformedPe base (.tooManyDirectories header.directoryCount data.length)))
  let directories ← readRecord (do
    FieldReader.seek kind.directoriesOffset
    FieldReader.times DataDirectory.read header.directoryCount) data base
  return { header with directories }

def parseHeaders (data : Bytes) : Machine Error Headers := do
  let dos ← parseDosHeader data
  let signatureOffset := dos.signatureOffset
  let coffOffset ← add signatureOffset Headers.signatureSize
  let optionalOffset ← add coffOffset CoffHeader.size
  plain (require (optionalOffset ≤ data.length)
    (.malformedPe signatureOffset .headersOutsideFile))
  let bytes ← slice data signatureOffset optionalOffset
  let signature ← readRecord word bytes signatureOffset
  plain (require (signature == Headers.expectedSignature)
    (.malformedPe signatureOffset (.badSignature signature)))
  let coff ← readRecord (do FieldReader.seek Headers.signatureSize; CoffHeader.read) bytes
    signatureOffset
  let sectionTableOffset ← add optionalOffset coff.optionalHeaderSize
  plain (require (sectionTableOffset ≤ data.length)
    (.malformedPe optionalOffset (.optionalHeaderOutsideFile coff.optionalHeaderSize)))
  let optionalBytes ← slice data optionalOffset sectionTableOffset
  let optional ← parseOptionalHeader optionalBytes optionalOffset
  return { dos, coff, optional, optionalOffset, sectionTableOffset }

def parseSection (record : Bytes) (base : Nat) : Machine Error Section := do
  let name ← text (record.take Section.nameSize)
  readRecord (Section.read name) record base

def parseSections (data : Bytes) (headers : Headers) : Machine Error (List Section) := do
  let count := headers.coff.sectionCount
  let size ← mul count Section.recordSize
  let table : Span := ⟨headers.sectionTableOffset, size⟩
  let bytes ← plain (requireSome (data.slice? table)
    (.malformedPe table.start (.sectionTableOutsideFile count)))
  (List.range count).mapM fun index => do
    let inside ← mul index Section.recordSize
    let base ← add table.start inside
    parseSection ((bytes.drop inside).take Section.recordSize) base

def holds (item : Section) (rva : Nat) : Machine Error Bool :=
  if item.virtualAddress ≤ rva then do
    let stop ← add item.virtualAddress item.memorySize
    return rva < stop
  else
    return false

def holders (rva : Nat) : List Section → Machine Error (List Section)
  | [] => return []
  | item :: rest => do
    let held ← holds item rva
    let others ← holders rva rest
    return if held then item :: others else others

def sectionOffset (item : Section) (rva : Nat) : Machine Error Nat := do
  let inside ← sub rva item.virtualAddress
  plain (require (inside < item.rawSize && item.rawOffset != 0)
    (.malformedPe item.rawOffset (.uninitializedRva rva item.name)))
  add item.rawOffset inside

def fileOffset (sections : List Section) (rva : Nat) : Machine Error Nat := do
  match ← holders rva sections with
  | [] => throw (.malformedPe 0 (.unmappedRva rva))
  | [item] => sectionOffset item rva
  | first :: second :: _ => throw (.malformedPe 0 (.ambiguousRva rva first.name second.name))

def resolveName (data : Bytes) (sections : List Section) (rva descriptor : Nat) :
    Machine Error Span := do
  plain (require (rva != 0) (.malformedPe descriptor .namelessDescriptor))
  let start ← fileOffset sections rva
  plain (require (start ≤ data.length) (.malformedPe start .nameOutsideFile))
  let length ← plain (requireSome (Bytes.terminator? (data.drop start))
    (.malformedPe start .unterminatedName))
  let size ← add length 1
  return ⟨start, size⟩

def walk (data : Bytes) (size : Nat) : (room offset : Nat) → Machine Nat (List (Nat × Bytes))
  | 0, offset => throw offset
  | room + 1, offset => do
    let stop ← add offset size
    match data.slice? ⟨offset, size⟩ with
    | none => throw offset
    | some record =>
      if record.all (· == 0) then return []
      else do
        let later ← walk data size room stop
        return (offset, record) :: later

def descriptorRecords (data : Bytes) (sections : List Section) (directory : DataDirectory)
    (size : Nat) : Machine Error (List (Nat × Bytes)) := do
  let start ← fileOffset sections directory.address
  mapError (fun offset => .malformedPe start (.unterminatedDescriptors offset))
    (walk data size (data.length + 1) start)

section Tables

variable {Descriptor : Type} (kind : DescriptorKind Descriptor)

def parseDescriptor (data : Bytes) (sections : List Section) (offset : Nat) (record : Bytes) :
    Machine Error Descriptor := do
  let descriptor ← readRecord (kind.read offset) record offset
  return kind.named descriptor (← resolveName data sections (kind.nameRva descriptor) offset)

def parseTable (data : Bytes) (headers : Headers) (sections : List Section) :
    Machine Error (List Descriptor) :=
  match headers.optional.directory? kind.directory with
  | some directory => do
    let records ← descriptorRecords data sections directory kind.recordSize
    records.mapM fun (offset, record) => parseDescriptor kind data sections offset record
  | none => return []

end Tables

def parse (data : Bytes) : Machine Error Image := do
  let headers ← parseHeaders data
  let sections ← parseSections data headers
  let imports ← parseTable ImportDescriptor.kind data headers sections
  let delayImports ← parseTable DelayLoadDescriptor.kind data headers sections
  return { headers, sections, imports, delayImports
           fileLength := data.length, edits := EditSet.empty }

section Records

variable {shift : Nat}

theorem faithful_half : Faithful shift half half := faithful_unsigned .little .half

theorem faithful_word : Faithful shift word word := faithful_unsigned .little .word

theorem faithful_double : Faithful shift double double := faithful_unsigned .little .double

theorem faithful_coff_header : Faithful shift CoffHeader.read CoffHeader.read := by
  unfold CoffHeader.read
  iterate 2 refine faithful_bind faithful_half fun _ => ?_
  iterate 3 refine faithful_bind faithful_word fun _ => ?_
  iterate 2 refine faithful_bind faithful_half fun _ => ?_
  exact faithful_pure _

theorem faithful_data_directory : Faithful shift DataDirectory.read DataDirectory.read := by
  unfold DataDirectory.read
  iterate 2 refine faithful_bind faithful_word fun _ => ?_
  exact faithful_pure _

theorem faithful_image_base (kind : OptionalKind) :
    Faithful 0 (OptionalHeader.readImageBase kind) (OptionalHeader.readImageBase kind) := by
  cases kind with
  | pe32 => exact faithful_bind (faithful_seek 28) fun _ => faithful_word
  | pe32Plus => exact faithful_bind (faithful_seek 24) fun _ => faithful_double

theorem faithful_fixed_fields (kind : OptionalKind) (magic countOffset : Nat) :
    Faithful 0 (OptionalHeader.readFixed kind magic countOffset)
      (OptionalHeader.readFixed kind magic countOffset) := by
  unfold OptionalHeader.readFixed
  apply faithful_bind (faithful_seek 16)
  intro _
  apply faithful_bind faithful_word
  intro entry
  apply faithful_bind (faithful_image_base kind)
  intro imageBase
  apply faithful_bind (faithful_seek 32)
  intro _
  iterate 2 refine faithful_bind faithful_word fun _ => ?_
  apply faithful_bind (faithful_seek 56)
  intro _
  iterate 3 refine faithful_bind faithful_word fun _ => ?_
  iterate 2 refine faithful_bind faithful_half fun _ => ?_
  apply faithful_bind (faithful_seek countOffset)
  intro _
  apply faithful_bind faithful_word
  intro directoryCount
  exact faithful_pure _

theorem faithful_import (offset : Nat) :
    Faithful shift (ImportDescriptor.read offset) (ImportDescriptor.read offset) := by
  unfold ImportDescriptor.read
  iterate 5 refine faithful_bind faithful_word fun _ => ?_
  exact faithful_pure _

theorem faithful_delay_import (offset : Nat) :
    Faithful shift (DelayLoadDescriptor.read offset) (DelayLoadDescriptor.read offset) := by
  unfold DelayLoadDescriptor.read
  iterate 8 refine faithful_bind faithful_word fun _ => ?_
  exact faithful_pure _

end Records

theorem read_record_eq {α : Type} (reader : Reader α) (data : Bytes) (base : Nat) :
    Pe.readRecord reader data base =
      (reader.runOn data base).mapError fun overrun => .malformedPe overrun.offset .overrun := by
  unfold Pe.readRecord
  cases reader.runOn data base <;> rfl

variable {α : Type} {data : Bytes}

theorem gives_read_record {steps : MachineReader α} {reader : Reader α} {base : Nat}
    (fits : base + data.length < offsetLimit) (faithful : Faithful 0 steps reader) :
    Gives (readRecord steps data base) (Pe.readRecord reader data base) := by
  rw [read_record_eq]
  exact gives_map_error _ (gives_run_on (faithful _ _ (tracks_self fits)))

theorem gives_read_record_behind {steps : MachineReader α} {reader : Reader α} {base shift : Nat}
    (fits : base + data.length < offsetLimit) (inside : shift ≤ data.length)
    (faithful : Faithful shift steps reader) :
    Gives (readRecord (do FieldReader.seek shift; steps) data base)
      (Pe.readRecord reader (data.drop shift) (base + shift)) := by
  rw [read_record_eq]
  exact gives_map_error _ (gives_run_on_behind fits inside faithful)

theorem gives_parse_dos_header (allocated : data.length < allocationLimit) :
    Gives (parseDosHeader data) (DosHeader.parse data) := by
  have fits : 0 + data.length < offsetLimit := by
    unfold allocationLimit at allocated
    unfold offsetLimit
    omega
  unfold parseDosHeader DosHeader.parse
  apply gives_bind (gives_plain _)
  intro _ _
  apply gives_bind (gives_read_record fits faithful_half)
  intro magic _
  apply gives_bind (gives_plain _)
  intro _ _
  refine gives_bind (gives_read_record fits ?_) fun signatureOffset _ => ?_
  · exact faithful_bind (faithful_seek _) fun _ => faithful_word
  · exact gives_pure _

theorem gives_parse_optional_header {base : Nat} (fits : base + data.length < offsetLimit) :
    Gives (parseOptionalHeader data base) (OptionalHeader.parse data base) := by
  unfold parseOptionalHeader OptionalHeader.parse
  apply gives_bind (gives_read_record fits faithful_half)
  intro magic _
  apply gives_bind (gives_plain _)
  intro kind _
  have front : 4 ≤ kind.directoriesOffset := by cases kind <;> decide
  have back : kind.directoriesOffset ≤ 112 := by cases kind <;> decide
  apply gives_ok_bind (gives_sub front)
  apply gives_bind (gives_read_record fits (faithful_fixed_fields _ _ _))
  intro header read
  have counted := Reader.run_on_returns (OptionalHeader.returns_read_fixed _ _ _)
    (read_record_eq_ok_iff.mp read)
  unfold wordLimit at counted
  refine gives_ok_bind (gives_mul ?_) ?_
  · simp only [DataDirectory.recordSize, offsetLimit]
    omega
  refine gives_ok_bind (gives_add ?_) ?_
  · simp only [DataDirectory.recordSize, offsetLimit]
    omega
  apply gives_bind (gives_plain _)
  intro _ checked
  have room := of_decide_eq_true (require_eq_ok_iff.mp checked)
  refine gives_bind (gives_read_record_behind fits (by omega) ?_) fun directories _ => ?_
  · exact faithful_times faithful_data_directory _
  · exact gives_pure _

theorem read_word_eq {bytes : Bytes} (long : 4 ≤ bytes.length) (base : Nat) :
    Pe.readRecord word bytes base = .ok (ByteOrder.little.decode (bytes.take 4)) :=
  read_record_eq_ok_iff.mpr (Reader.run_on_unsigned_eq_ok_iff.mpr ⟨long, rfl⟩)

/-- The slice of the machine holds both records that the plain parser cuts out one by one. -/
theorem leading_records {start : Nat} {bytes : Bytes}
    (sliced : bytes = (data.drop start).take (Headers.signatureSize + CoffHeader.size))
    (inside : start + Headers.signatureSize + CoffHeader.size ≤ data.length) :
    bytes.length = Headers.signatureSize + CoffHeader.size ∧
      Pe.readRecord word ((data.drop start).take Headers.signatureSize) start =
        Pe.readRecord word bytes start ∧
      (data.drop (start + Headers.signatureSize)).take CoffHeader.size =
        bytes.drop Headers.signatureSize := by
  have signed : Headers.signatureSize = 4 := rfl
  have sized : CoffHeader.size = 20 := rfl
  have length : bytes.length = Headers.signatureSize + CoffHeader.size := by
    rw [sliced, List.length_take, List.length_drop]
    omega
  have front : (data.drop start).take Headers.signatureSize = bytes.take 4 := by
    rw [sliced, List.take_take]
    rfl
  refine ⟨length, ?_, ?_⟩
  · rw [front, read_word_eq (by rw [List.length_take]; omega), read_word_eq (by omega),
      List.take_take, Nat.min_self]
  · rw [sliced, List.drop_take, List.drop_drop, Nat.add_sub_cancel_left]

theorem gives_parse_headers (allocated : data.length < allocationLimit) :
    Gives (parseHeaders data) (Headers.parse data) := by
  unfold parseHeaders Headers.parse
  apply gives_bind (gives_parse_dos_header allocated)
  intro dos parsed
  have pointed := DosHeader.signature_offset_lt parsed
  have signed : Headers.signatureSize = 4 := rfl
  have sized : CoffHeader.size = 20 := rfl
  unfold wordLimit at pointed
  unfold allocationLimit at allocated
  apply gives_ok_bind (gives_add (by unfold offsetLimit; omega))
  apply gives_ok_bind (gives_add (by unfold offsetLimit; omega))
  apply gives_bind (gives_plain _)
  intro _ checked
  have inside := of_decide_eq_true (require_eq_ok_iff.mp checked)
  apply gives_ok_bind (gives_slice (by omega) inside)
  rw [Nat.add_assoc, Nat.add_sub_cancel_left]
  generalize whole : (data.drop dos.signatureOffset).take
    (Headers.signatureSize + CoffHeader.size) = bytes
  obtain ⟨length, signature, back⟩ := leading_records whole.symm inside
  have fits : dos.signatureOffset + bytes.length < offsetLimit := by
    unfold offsetLimit
    omega
  rw [signature]
  apply gives_bind (gives_read_record fits faithful_word)
  intro signature _
  apply gives_bind (gives_plain _)
  intro _ _
  rw [back]
  apply gives_bind (gives_read_record_behind fits (by omega) faithful_coff_header)
  intro coff read
  have range := Reader.run_on_returns CoffHeader.returns_read (read_record_eq_ok_iff.mp read)
  unfold halfLimit at range
  apply gives_ok_bind (gives_add (by unfold offsetLimit; omega))
  apply gives_bind (gives_plain _)
  intro _ checked
  have room := of_decide_eq_true (require_eq_ok_iff.mp checked)
  apply gives_ok_bind (gives_slice (by omega) room)
  rw [Nat.add_sub_cancel_left]
  refine gives_bind (gives_parse_optional_header ?_) fun optional _ => ?_
  · rw [List.length_take, List.length_drop]
    unfold offsetLimit
    omega
  · exact gives_pure _

theorem gives_parse_section {record : Bytes} {base : Nat}
    (fits : base + record.length < offsetLimit) :
    Gives (parseSection record base) (Section.parse record base) := by
  unfold parseSection Section.parse
  apply gives_ok_bind (gives_text _)
  generalize Text.Utf8.decode _ = name
  have skipped : 0 + Section.nameSize < offsetLimit := by decide
  have follows : Follows 0 (Section.read name) (Section.read name) ⟨record, base, 0⟩
      ⟨record, base, 0⟩ := by
    unfold Section.read
    apply follows_bind (follows_skip (tracks_self fits) skipped)
    intro _
    iterate 6 refine faithful_bind faithful_word fun _ => ?_
    iterate 2 refine faithful_bind faithful_half fun _ => ?_
    apply faithful_bind faithful_word
    intro characteristics
    exact faithful_pure _
  rw [read_record_eq]
  exact gives_map_error _ (gives_run_on follows)

theorem gives_parse_sections {headers : Headers} (allocated : data.length < allocationLimit)
    (parsed : Headers.parse data = .ok headers) :
    Gives (parseSections data headers) (Image.parseSections data headers) := by
  obtain ⟨_, _, _, within, _, coffRead, _⟩ := Headers.parse_eq_ok_iff.mp parsed
  obtain ⟨counted, _⟩ := Reader.run_on_returns CoffHeader.returns_read
    (read_record_eq_ok_iff.mp coffRead)
  unfold halfLimit at counted
  unfold allocationLimit at allocated
  unfold parseSections Image.parseSections
  apply gives_ok_bind (gives_mul (by simp only [Section.recordSize, offsetLimit]; omega))
  apply gives_bind (gives_plain _)
  intro bytes sliced
  refine gives_mapM fun index member => ?_
  have below : index < headers.coff.sectionCount := List.mem_range.mp member
  apply gives_ok_bind (gives_mul (by simp only [Section.recordSize, offsetLimit]; omega))
  apply gives_ok_bind (gives_add (by simp only [Section.recordSize, offsetLimit]; omega))
  refine gives_parse_section ?_
  have record : ((bytes.drop (index * Section.recordSize)).take Section.recordSize).length ≤
      Section.recordSize := List.length_take_le _ _
  simp only [Section.recordSize, offsetLimit] at record ⊢
  omega

theorem gives_holds {item : Section} (ranged : item.Ranged) (rva : Nat) :
    Gives (holds item rva) (.ok (item.holds rva)) := by
  have address := ranged.virtualAddress
  have size := ranged.memory_size
  unfold wordLimit at address size
  unfold holds Section.holds
  by_cases reached : item.virtualAddress ≤ rva
  · rw [if_pos reached, decide_eq_true reached, Bool.true_and]
    apply gives_ok_bind (gives_add (by unfold offsetLimit; omega))
    exact gives_pure _
  · rw [if_neg reached, decide_eq_false reached, Bool.false_and]
    exact gives_pure _

theorem gives_section_offset {item : Section} (ranged : item.Ranged) {rva : Nat}
    (held : item.holds rva = true) :
    Gives (sectionOffset item rva) (item.fileOffset rva) := by
  obtain ⟨reached, _⟩ := Bool.and_eq_true_iff.mp held
  have rawSize := ranged.rawSize
  have rawOffset := ranged.rawOffset
  unfold wordLimit at rawSize rawOffset
  unfold sectionOffset Section.fileOffset
  apply gives_ok_bind (gives_sub (of_decide_eq_true reached))
  apply gives_bind (gives_plain _)
  intro _ checked
  obtain ⟨inside, _⟩ := Bool.and_eq_true_iff.mp (require_eq_ok_iff.mp checked)
  have below := of_decide_eq_true inside
  exact gives_add (by unfold offsetLimit; omega)

theorem gives_walk {size : Nat} (small : size < wordLimit)
    (allocated : data.length < allocationLimit) (room : Nat) {offset : Nat}
    (near : offset < allocationLimit) :
    Gives (walk data size room offset) (Pe.walk data size room offset) := by
  induction room generalizing offset with
  | zero => exact gives_throw offset
  | succ room ih =>
    unfold walk Pe.walk
    unfold wordLimit at small
    unfold allocationLimit at near
    apply gives_ok_bind (gives_add (by unfold offsetLimit; omega))
    cases sliced : data.slice? ⟨offset, size⟩ with
    | none => exact gives_throw offset
    | some record =>
      have inside : offset + size ≤ data.length := (Bytes.slice_eq_some_iff.mp sliced).1
      by_cases zeros : record.all (· == 0) = true
      · simp only [if_pos zeros]
        exact gives_pure []
      · simp only [if_neg zeros]
        exact gives_map _ (ih (Nat.lt_of_le_of_lt inside allocated))

/-- Each record of a walk is a slice of the file. -/
theorem slices_of_walk {size room offset : Nat} {records : List (Nat × Bytes)}
    (walked : Pe.walk data size room offset = .ok records) :
    ∀ entry ∈ records, data.slice? ⟨entry.1, size⟩ = some entry.2 := by
  induction room generalizing offset records with
  | zero => cases walked
  | succ room ih =>
    obtain ⟨record, sliced, outcome⟩ := walk_succ_eq_ok_iff.mp walked
    split at outcome
    · subst outcome
      exact fun entry member => nomatch member
    · obtain ⟨rest, later, rfl⟩ := outcome
      exact List.forall_mem_cons.mpr ⟨sliced, ih later⟩

section Addresses

variable {sections : List Section} (ranged : ∀ item ∈ sections, item.Ranged)
include ranged

theorem gives_holders (rva : Nat) :
    Gives (holders rva sections) (.ok (sections.filter fun item => item.holds rva)) := by
  induction sections with
  | nil => exact gives_pure []
  | cons item rest ih =>
    obtain ⟨head, tail⟩ := List.forall_mem_cons.mp ranged
    apply gives_ok_bind (gives_holds head rva)
    apply gives_ok_bind (ih tail)
    rw [List.filter_cons]
    exact gives_pure _

theorem gives_file_offset (rva : Nat) :
    Gives (fileOffset sections rva) (Pe.fileOffset sections rva) := by
  unfold fileOffset Pe.fileOffset
  apply gives_ok_bind (gives_holders ranged rva)
  cases found : sections.filter fun item => item.holds rva with
  | nil => exact gives_throw _
  | cons item others =>
    cases others with
    | nil =>
      have holder : item ∈ sections.filter fun item => item.holds rva := by
        rw [found]
        exact List.mem_singleton_self item
      obtain ⟨member, held⟩ := List.mem_filter.mp holder
      exact gives_section_offset (ranged item member) held
    | cons second rest => exact gives_throw _

theorem file_offset_lt {rva start : Nat} (found : Pe.fileOffset sections rva = .ok start) :
    start < 2 * wordLimit := by
  obtain ⟨item, alone, offset⟩ := file_offset_eq_ok_iff.mp found
  have holder : item ∈ sections.filter fun item => item.holds rva := by
    rw [alone]
    exact List.mem_singleton_self item
  obtain ⟨reached, _, rfl⟩ := Section.file_offset_eq_ok_iff.mp offset
  have words := ranged item (List.mem_filter.mp holder).1
  have rawSize := words.rawSize
  have rawOffset := words.rawOffset
  omega

theorem gives_resolve_name (allocated : data.length < allocationLimit) (rva descriptor : Nat) :
    Gives (resolveName data sections rva descriptor)
      (Pe.resolveName data sections rva descriptor) := by
  unfold resolveName Pe.resolveName
  apply gives_bind (gives_plain _)
  intro _ _
  apply gives_bind (gives_file_offset ranged rva)
  intro start _
  apply gives_bind (gives_plain _)
  intro _ _
  apply gives_bind (gives_plain _)
  intro length found
  have inside := (List.findIdx?_eq_some_iff_getElem.mp (require_some_eq_ok_iff.mp found)).1
  rw [List.length_drop] at inside
  unfold allocationLimit at allocated
  apply gives_ok_bind (gives_add (by unfold offsetLimit; omega))
  exact gives_pure _

theorem gives_descriptor_records (allocated : data.length < allocationLimit)
    (directory : DataDirectory) {size : Nat} (small : size < wordLimit) :
    Gives (descriptorRecords data sections directory size)
      (Pe.descriptorRecords data sections directory size) := by
  unfold descriptorRecords Pe.descriptorRecords
  apply gives_bind (gives_file_offset ranged _)
  intro start found
  have near := file_offset_lt ranged found
  have steps := gives_map_error
    (fun offset => Error.malformedPe start (.unterminatedDescriptors offset))
    (gives_walk small allocated (data.length + 1) (Nat.lt_trans near (by decide)))
  generalize Pe.walk data size (data.length + 1) start = walked at steps ⊢
  cases walked with
  | ok records => exact steps
  | error offset => exact steps

end Addresses

section Tables

variable {headers : Headers} {sections : List Section} (ranged : ∀ item ∈ sections, item.Ranged)
  (allocated : data.length < allocationLimit)
include ranged allocated

theorem gives_parse_descriptor {Descriptor : Type} {kind : DescriptorKind Descriptor}
    (faithful : ∀ offset, Faithful 0 (kind.read offset) (kind.read offset)) {offset : Nat}
    {record : Bytes} (fits : offset + record.length < offsetLimit) :
    Gives (parseDescriptor kind data sections offset record)
      (kind.parse data sections offset record) := by
  apply gives_bind (gives_read_record fits (faithful offset))
  intro descriptor _
  apply gives_bind (gives_resolve_name ranged allocated _ _)
  intro name _
  exact gives_pure _

theorem gives_parse_table {Descriptor : Type} {kind : DescriptorKind Descriptor}
    (faithful : ∀ offset, Faithful 0 (kind.read offset) (kind.read offset))
    (small : kind.recordSize < wordLimit) :
    Gives (parseTable kind data headers sections)
      (Image.parseTable kind data headers sections) := by
  unfold parseTable Image.parseTable
  cases headers.optional.directory? kind.directory with
  | none => exact gives_pure []
  | some directory =>
    apply gives_bind (gives_descriptor_records ranged allocated directory small)
    intro records walked
    obtain ⟨start, _, steps⟩ := descriptor_records_eq_ok_iff.mp walked
    refine gives_mapM fun entry member => ?_
    have sliced := slices_of_walk steps entry member
    have inside : entry.1 + kind.recordSize ≤ data.length :=
      (Bytes.slice_eq_some_iff.mp sliced).1
    have length : entry.2.length = kind.recordSize := Bytes.length_slice sliced
    apply gives_parse_descriptor ranged allocated faithful
    unfold allocationLimit at allocated
    unfold offsetLimit
    omega

end Tables

theorem gives_parse (allocated : data.length < allocationLimit) :
    Gives (parse data) (Image.parse data) := by
  unfold parse Image.parse
  apply gives_bind (gives_parse_headers allocated)
  intro headers parsed
  apply gives_bind (gives_parse_sections allocated parsed)
  intro sections read
  have ranged := Image.ranged_of_parse_sections read
  apply gives_bind (gives_parse_table ranged allocated faithful_import (by decide))
  intro imports _
  apply gives_bind (gives_parse_table ranged allocated faithful_delay_import (by decide))
  intro delayImports _
  exact gives_pure _

end BinaryImage.Pe.Machine
