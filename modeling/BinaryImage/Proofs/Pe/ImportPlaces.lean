import BinaryImage.Proofs.FieldPlaces
import BinaryImage.Proofs.Pe.DescriptorTables

/-!
Where import data lies. A name or a table is found through the one section that holds its address,
in whose raw data it starts. From there the file is read up to a NUL or up to a record of zeros,
whether the section has one or not, so what the section leaves unfinished is finished by the bytes
behind it.
-/

namespace BinaryImage

def Span.Within (inner outer : Span) : Prop :=
  outer.start ≤ inner.start ∧ inner.start + inner.length ≤ outer.start + outer.length

instance (inner outer : Span) : Decidable (inner.Within outer) :=
  inferInstanceAs (Decidable (outer.start ≤ inner.start ∧
    inner.start + inner.length ≤ outer.start + outer.length))

/-- A string lies in a part of the file in which it starts when the part has a NUL behind its
start. -/
theorem Bytes.string_within_iff {data : Bytes} {start length : Nat} {part : Span}
    (begins : part.Covers start) (ends : terminator? (data.drop start) = some length) :
    Span.Within ⟨start, length + 1⟩ part ↔
      ∃ offset, start ≤ offset ∧ part.Covers offset ∧ data[offset]? = some 0 := by
  simp only [Span.Within, Span.Covers] at begins ⊢
  obtain ⟨last, live⟩ := terminator_drop_eq_some_iff.mp ends
  constructor
  · rintro ⟨_, inside⟩
    exact ⟨start + length, Nat.le_add_right _ _, by omega, last⟩
  · rintro ⟨offset, behind, inside, nul⟩
    have reached : length ≤ offset - start := by
      by_contra before
      apply live (offset - start) (by omega)
      rwa [Nat.add_sub_cancel' behind]
    omega

namespace Pe

section Walk

variable {data : Bytes} {size room offset : Nat} {records : List (Nat × Bytes)}

/-- A walk ends at the first record of zeros. -/
theorem length_le_of_zeros (walked : walk data size room offset = .ok records) {index : Nat}
    {record : Bytes} (sliced : data.slice? ⟨offset + index * size, size⟩ = some record)
    (zeros : record.all (· == 0) = true) : records.length ≤ index := by
  induction room generalizing offset records index with
  | zero => cases walked
  | succ room ih =>
    obtain ⟨first, found, outcome⟩ := walk_succ_eq_ok_iff.mp walked
    split at outcome
    · subst outcome
      exact Nat.zero_le index
    · next filled =>
      obtain ⟨rest, later, rfl⟩ := outcome
      cases index with
      | zero =>
        rw [Nat.zero_mul, Nat.add_zero, found] at sliced
        cases sliced
        contradiction
      | succ index =>
        have place : offset + (index + 1) * size = offset + size + index * size := by
          rw [Nat.succ_mul]
          omega
        rw [place] at sliced
        exact Nat.succ_le_succ (ih later sliced)

/-- The records of a walk stand one behind the other. -/
theorem offset_of_walk (walked : walk data size room offset = .ok records) {index : Nat}
    {item : Nat × Bytes} (found : records[index]? = some item) :
    item.1 = offset + index * size := by
  induction room generalizing offset records index with
  | zero => cases walked
  | succ room ih =>
    obtain ⟨first, _, outcome⟩ := walk_succ_eq_ok_iff.mp walked
    split at outcome
    · subst outcome
      cases found
    · obtain ⟨rest, later, rfl⟩ := outcome
      cases index with
      | zero =>
        cases found
        simp only
        omega
      | succ index =>
        rw [ih later found, Nat.succ_mul]
        omega

/-- A table lies in a part of the file in which it starts when the part has a record of zeros. -/
theorem table_within_iff {part : Span} (begins : part.Covers offset)
    (walked : walk data size room offset = .ok records) :
    Span.Within ⟨offset, (records.length + 1) * size⟩ part ↔
      ∃ index record, Span.Within ⟨offset + index * size, size⟩ part ∧
        data.slice? ⟨offset + index * size, size⟩ = some record ∧
        record.all (· == 0) = true := by
  simp only [Span.Within, Span.Covers, Nat.succ_mul] at begins ⊢
  constructor
  · rintro ⟨_, inside⟩
    obtain ⟨last, sliced, zeros⟩ := zeros_of_walk walked
    exact ⟨records.length, last, by omega, sliced, zeros⟩
  · rintro ⟨index, record, inside, sliced, zeros⟩
    have earlier := Nat.mul_le_mul_right size (length_le_of_zeros walked sliced zeros)
    omega

end Walk

section Descriptors

open Reader

theorem ImportDescriptor.returns_read (offset : Nat) :
    Returns (read offset) fun descriptor => descriptor.offset = offset := by
  unfold read
  iterate 5 refine returns_bind fun _ => ?_
  exact returns_pure rfl

theorem DelayLoadDescriptor.returns_read (offset : Nat) :
    Returns (read offset) fun descriptor => descriptor.offset = offset := by
  unfold read
  iterate 8 refine returns_bind fun _ => ?_
  exact returns_pure rfl

end Descriptors

namespace Image

/-- The section alone holds the address, and its raw data has the byte there at a place. -/
structure FoundIn (image : Image) (rva place : Nat) (item : Section) : Prop where
  only : image.sections.filter (fun other => other.holds rva) = [item]
  backed : item.rawSpan.Covers place
  start : place + item.virtualAddress = item.rawOffset + rva

/-- The name at an address starts in the raw data of the section that holds it, and ends there when
there is a NUL left. -/
def NamePlaced (data : Bytes) (image : Image) (rva : Nat) (name : Span) : Prop :=
  ∃ item, image.FoundIn rva name.start item ∧ name.start + name.length ≤ data.length ∧
    (name.Within item.rawSpan ↔
      ∃ offset, name.start ≤ offset ∧ item.rawSpan.Covers offset ∧ data[offset]? = some 0)

/-- The table at an address starts in the raw data of the section that holds it, and ends there when
there is a record of zeros left. It is filled by the descriptors at `offsets` and the one of zeros
behind them. -/
def TablePlaced (data : Bytes) (image : Image) (rva size : Nat) (offsets : List Nat)
    (table : Span) : Prop :=
  (∀ index offset, offsets[index]? = some offset → offset = table.start + index * size) ∧
  table.length = (offsets.length + 1) * size ∧
  ∃ item, image.FoundIn rva table.start item ∧ table.start + table.length ≤ data.length ∧
    (table.Within item.rawSpan ↔
      ∃ index record, Span.Within ⟨table.start + index * size, size⟩ item.rawSpan ∧
        data.slice? ⟨table.start + index * size, size⟩ = some record ∧
        record.all (· == 0) = true)

variable {data : Bytes} {image : Image}

theorem found_of_file_offset {rva place : Nat}
    (located : fileOffset image.sections rva = .ok place) :
    ∃ item, image.FoundIn rva place item := by
  obtain ⟨item, only, offset⟩ := file_offset_eq_ok_iff.mp located
  obtain ⟨reached, placed, rfl⟩ := Section.file_offset_eq_ok_iff.mp offset
  have holds : item.holds rva = true := by
    have member : item ∈ image.sections.filter fun other => other.holds rva := by
      rw [only]
      exact List.mem_singleton_self item
    exact (List.mem_filter.mp member).2
  have above : item.virtualAddress ≤ rva := by
    simp only [Section.holds, Bool.and_eq_true, decide_eq_true_eq] at holds
    exact holds.1
  refine ⟨item, only, ?_, ?_⟩
  · rw [Section.rawSpan, if_neg placed]
    exact ⟨Nat.le_add_right _ _, Nat.add_lt_add_left reached _⟩
  · omega

theorem name_placed {rva descriptor : Nat} {name : Span}
    (named : resolveName data image.sections rva descriptor = .ok name) :
    NamePlaced data image rva name := by
  have inside := inside_of_resolves ⟨rva, descriptor, named⟩
  obtain ⟨_, start, located, _, length, ends, rfl⟩ := resolve_name_eq_ok_iff.mp named
  obtain ⟨item, found⟩ := found_of_file_offset located
  exact ⟨item, found, inside, Bytes.string_within_iff found.backed ends⟩

section Table

variable {Descriptor : Type} {kind : DescriptorKind Descriptor} {descriptors : List Descriptor}
  (read : parseTable kind data image.headers image.sections = .ok descriptors)
include read

theorem names_placed :
    ∀ descriptor ∈ descriptors,
      NamePlaced data image (kind.nameRva descriptor) (kind.name descriptor) := by
  intro descriptor member
  obtain ⟨offset, record, parsed⟩ := parsed_of_table read descriptor member
  exact name_placed (DescriptorKind.name_of_parse parsed)

theorem table_placed
    (own : ∀ offset, Reader.Returns (kind.read offset) fun bare => kind.offset bare = offset)
    {directory : DataDirectory}
    (present : image.headers.optional.directory? kind.directory = some directory) :
    ∃ table, image.tableSpan? kind descriptors.length = some table ∧
      TablePlaced data image directory.address kind.recordSize (descriptors.map kind.offset)
        table := by
  obtain ⟨start, records, located, walked, all, place⟩ := walk_of_table read present
  obtain ⟨item, found⟩ := found_of_file_offset located
  have paired := mapM_eq_ok_iff.mp all
  refine ⟨_, place, ?_, ?_, item, found, table_inside read place,
    table_within_iff found.backed walked⟩
  · intro position offset told
    rw [List.getElem?_map, Option.map_eq_some_iff] at told
    obtain ⟨descriptor, found, rfl⟩ := told
    obtain ⟨below, rfl⟩ := List.getElem?_eq_some_iff.mp found
    have recorded : position < records.length := paired.length_eq ▸ below
    obtain ⟨bare, readBare, name, _, same⟩ :=
      DescriptorKind.parse_eq_ok_iff.mp (paired.get recorded below)
    have first := Reader.run_on_returns (own _) (read_record_eq_ok_iff.mp readBare)
    rw [List.get_eq_getElem] at same
    rw [same, kind.offset_named, first]
    exact offset_of_walk walked (List.getElem?_eq_getElem recorded)
  · rw [List.length_map, paired.length_eq]

end Table

end Image

end Pe

namespace Session

open Pe Pe.Image

/-- Names and tables start in the raw data of their section, lie in the file, and leave the section
where it does not end them. -/
theorem import_data_placed {data : Bytes} {session : Session} {image : Pe.Image}
    (opened : ofFile data = .ok session) (pe : session.image = .pe image) :
    ((∀ descriptor ∈ image.imports, NamePlaced data image descriptor.nameRva descriptor.name) ∧
      ∀ directory, image.headers.optional.directory? DataDirectory.imports = some directory →
        ∃ table, image.importTable? = some table ∧
          TablePlaced data image directory.address ImportDescriptor.recordSize
            (image.imports.map ImportDescriptor.offset) table) ∧
    (∀ descriptor ∈ image.delayImports,
        NamePlaced data image descriptor.nameRva descriptor.name) ∧
      ∀ directory, image.headers.optional.directory? DataDirectory.delayImports = some directory →
        ∃ table, image.delayImportTable? = some table ∧
          TablePlaced data image directory.address DelayLoadDescriptor.recordSize
            (image.delayImports.map DelayLoadDescriptor.offset) table := by
  obtain ⟨format, _, rfl, read⟩ := of_file_eq_ok_iff.mp opened
  rw [pe] at read
  have parsed := Image.pe_of_parse (Image.parse_valid_eq_ok_iff.mp read).1
  have imports := imports_of_parse parsed
  have delayImports := delay_imports_of_parse parsed
  exact ⟨⟨names_placed imports,
      fun _ present => table_placed imports ImportDescriptor.returns_read present⟩,
    names_placed delayImports,
    fun _ present => table_placed delayImports DelayLoadDescriptor.returns_read present⟩

section Sample

def importingDirectory : DataDirectory :=
  (importingImage.headers.optional.directory? DataDirectory.imports).get (by decide +kernel)

/-- The importing file, whose section ends in the middle of the second name. Another section with
the rest of the name lies behind it. -/
def adjoiningFile : Bytes :=
  let front := (importingFile.splice 70 (littleHalves [2])).splice 216 (littleWords [68, 280])
  front.take 240 ++ Text.Utf8.encode ".data\x00\x00\x00" ++
    littleWords [4, 0x2000, 4, 348, 0, 0] ++ littleHalves [0, 0] ++ littleWords [0xc0000040] ++
    front.drop 240

def adjoiningSession : Session := (ofFile adjoiningFile).toOption.get (by decide +kernel)

def adjoiningImage : Pe.Image := (Pe.Image.parse adjoiningFile).toOption.get (by decide +kernel)

def adjoiningEdited : Bytes :=
  (adjoiningSession.attempt (.pe ⟨.imports, 1, "c.exe"⟩)).serialize.toOption.get
    (by decide +kernel)

end Sample

theorem import_data_placed_importing :
    ofFile importingFile = .ok importingSession ∧
      importingSession.image = .pe importingImage ∧
      importingImage.imports.map ImportDescriptor.name = [⟨300, 6⟩, ⟨306, 6⟩] ∧
      (∀ descriptor ∈ importingImage.imports,
        NamePlaced importingFile importingImage descriptor.nameRva descriptor.name) ∧
      importingImage.headers.optional.directory? DataDirectory.imports =
        some importingDirectory ∧
      ∃ table, importingImage.importTable? = some table ∧
        TablePlaced importingFile importingImage importingDirectory.address
          ImportDescriptor.recordSize [240, 260] table := by
  have opened : ofFile importingFile = .ok importingSession := by decide +kernel
  have pe : importingSession.image = .pe importingImage := by decide +kernel
  have present : importingImage.headers.optional.directory? DataDirectory.imports =
      some importingDirectory := by decide +kernel
  have offsets : importingImage.imports.map ImportDescriptor.offset = [240, 260] := by
    decide +kernel
  obtain ⟨⟨names, tables⟩, _⟩ := import_data_placed opened pe
  obtain ⟨table, isTable, placed⟩ := tables importingDirectory present
  rw [offsets] at placed
  exact ⟨opened, pe, by decide +kernel, names, present, table, isTable, placed⟩

-- The second name starts in the first section and ends in the other one, which a rename changes.
theorem name_leaves_section :
    ofFile adjoiningFile = .ok adjoiningSession ∧ adjoiningSession.image = .pe adjoiningImage ∧
      adjoiningImage.sections.map Pe.Section.rawSpan = [⟨280, 68⟩, ⟨348, 4⟩] ∧
      (adjoiningImage.imports[1]?.map fun descriptor => (descriptor.nameRva, descriptor.name)) =
        some (0x1042, ⟨346, 6⟩) ∧
      (adjoiningImage.sections.map fun item => item.holds 0x1042) = [true, false] ∧
      ¬ Span.Within ⟨346, 6⟩ ⟨280, 68⟩ ∧
      adjoiningFile.slice? ⟨348, 4⟩ = some (Text.Utf8.encode "dll\x00") ∧
      (adjoiningSession.attempt (.pe ⟨.imports, 1, "c.exe"⟩)).serialize = .ok adjoiningEdited ∧
      adjoiningEdited.slice? ⟨348, 4⟩ = some (Text.Utf8.encode "exe\x00") := by
  decide +kernel

end Session

end BinaryImage
