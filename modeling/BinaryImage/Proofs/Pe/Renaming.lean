import BinaryImage.Proofs.EditWriting
import BinaryImage.Session

/-!
What renames leave staged. Each edit fills the name of a descriptor, which is looked up through the
one section that holds its address. A name is left alone where a different one shares bytes with it,
so edits of different names do not meet, and they can always be written.
-/

namespace BinaryImage.Pe

theorem Section.file_offset_eq_ok_iff {item : Section} {rva offset : Nat} :
    item.fileOffset rva = .ok offset ↔
      rva - item.virtualAddress < item.rawSize ∧ item.rawOffset ≠ 0 ∧
        offset = item.rawOffset + (rva - item.virtualAddress) := by
  simp only [fileOffset, bind_eq_ok_iff, require_eq_ok_iff, exists_const, Bool.and_eq_true,
    decide_eq_true_eq, bne_iff_ne, pure, Except.pure, Except.ok.injEq, eq_comm (b := offset),
    and_assoc]

-- One section alone holds the address.
theorem file_offset_eq_ok_iff {sections : List Section} {rva offset : Nat} :
    fileOffset sections rva = .ok offset ↔
      ∃ item, sections.filter (fun item => item.holds rva) = [item] ∧
        item.fileOffset rva = .ok offset := by
  unfold fileOffset
  generalize sections.filter (fun item => item.holds rva) = holders
  rcases holders with _ | ⟨only, _ | ⟨other, rest⟩⟩
  · simp
  · simp
  · simp

theorem resolve_name_eq_ok_iff {data : Bytes} {sections : List Section} {rva descriptor : Nat}
    {span : Span} :
    resolveName data sections rva descriptor = .ok span ↔
      rva ≠ 0 ∧ ∃ start, fileOffset sections rva = .ok start ∧ start ≤ data.length ∧
        ∃ length, Bytes.terminator? (data.drop start) = some length ∧
          span = ⟨start, length + 1⟩ := by
  simp only [resolveName, bind_eq_ok_iff, require_eq_ok_iff, require_some_eq_ok_iff, exists_const,
    bne_iff_ne, decide_eq_true_eq, pure, Except.pure, Except.ok.injEq, eq_comm (b := span)]

section Tables

variable {Descriptor : Type} {kind : DescriptorKind Descriptor} {data : Bytes} {headers : Headers}
  {sections : List Section}

theorem DescriptorKind.parse_eq_ok_iff {record : Bytes} {offset : Nat} {descriptor : Descriptor} :
    kind.parse data sections offset record = .ok descriptor ↔
      ∃ bare, readRecord (kind.read offset) record offset = .ok bare ∧
        ∃ span, resolveName data sections (kind.nameRva bare) offset = .ok span ∧
          descriptor = kind.named bare span := by
  simp only [parse, bind_eq_ok_iff, pure, Except.pure, Except.ok.injEq, eq_comm (b := descriptor)]

/-- A descriptor has the name for its address. -/
theorem DescriptorKind.name_of_parse {record : Bytes} {offset : Nat} {descriptor : Descriptor}
    (parsed : kind.parse data sections offset record = .ok descriptor) :
    resolveName data sections (kind.nameRva descriptor) offset = .ok (kind.name descriptor) := by
  obtain ⟨bare, _, span, named, rfl⟩ := parse_eq_ok_iff.mp parsed
  rwa [kind.name_rva_named, kind.name_named]

/-- Every descriptor of a table is parsed from a record of it. -/
theorem parsed_of_table {descriptors : List Descriptor}
    (read : Image.parseTable kind data headers sections = .ok descriptors) :
    ∀ descriptor ∈ descriptors, ∃ offset record,
      kind.parse data sections offset record = .ok descriptor := by
  intro descriptor member
  unfold Image.parseTable at read
  split at read
  · obtain ⟨records, _, all⟩ := bind_eq_ok_iff.mp read
    obtain ⟨⟨offset, record⟩, _, one⟩ := mem_of_mapM_eq_ok all member
    exact ⟨offset, record, one⟩
  · cases read
    cases member

theorem resolved_of_table {descriptors : List Descriptor}
    (read : Image.parseTable kind data headers sections = .ok descriptors) :
    ∀ descriptor ∈ descriptors, ∃ rva offset,
      resolveName data sections rva offset = .ok (kind.name descriptor) := by
  intro descriptor member
  obtain ⟨offset, record, parsed⟩ := parsed_of_table read descriptor member
  exact ⟨_, offset, DescriptorKind.name_of_parse parsed⟩

end Tables

namespace Image

def Resolves (data : Bytes) (image : Image) (span : Span) : Prop :=
  ∃ rva descriptor, resolveName data image.sections rva descriptor = .ok span

theorem resolves_of_parse {data : Bytes} {image : Image} (parsed : parse data = .ok image) :
    ∀ span ∈ image.nameSpans, Resolves data image span := by
  obtain ⟨headers, sections, imports, delayImports, _, _, importsRead, delayImportsRead, rfl⟩ :=
    parse_eq_ok_iff.mp parsed
  intro span member
  rcases List.mem_append.mp member with imported | delayed
  · obtain ⟨descriptor, inside, rfl⟩ := List.mem_map.mp imported
    exact resolved_of_table importsRead descriptor inside
  · obtain ⟨descriptor, inside, rfl⟩ := List.mem_map.mp delayed
    exact resolved_of_table delayImportsRead descriptor inside

theorem inside_of_resolves {data : Bytes} {image : Image} {span : Span}
    (resolved : Resolves data image span) : span.start + span.length ≤ data.length := by
  obtain ⟨rva, descriptor, found⟩ := resolved
  obtain ⟨_, start, _, _, length, terminated, rfl⟩ := resolve_name_eq_ok_iff.mp found
  have nul := Bytes.nul_of_terminator terminated
  rw [List.getElem?_drop] at nul
  have below : start + length < data.length := (List.getElem?_eq_some_iff.mp nul).1
  simp only
  omega

/-- An edit that fills the name of a descriptor, with which no other name shares bytes. -/
structure Placed (fresh : Image) (edit : Edit) : Prop where
  target : edit.target = .dllName edit.start
  place : edit.span ∈ fresh.nameSpans
  terminated : edit.bytes.getLast? = some 0
  unshared : ∀ other ∈ fresh.nameSpans, other = edit.span ∨ other.overlaps edit.span = false

structure Staged (fresh image : Image) : Prop where
  same : image = { fresh with edits := image.edits }
  placed : ∀ edit ∈ image.edits.edits, fresh.Placed edit

variable {data : Bytes} {fresh image edited : Image}

theorem staged_of_fresh (unedited : fresh.edits = EditSet.empty) : Staged fresh fresh := by
  refine ⟨rfl, ?_⟩
  intro edit member
  rw [unedited] at member
  cases member

theorem Staged.imports (staged : Staged fresh image) : image.imports = fresh.imports := by
  rw [staged.same]

theorem Staged.delay_imports (staged : Staged fresh image) :
    image.delayImports = fresh.delayImports := by
  rw [staged.same]

theorem Staged.name_spans (staged : Staged fresh image) : image.nameSpans = fresh.nameSpans := by
  rw [nameSpans, staged.imports, staged.delay_imports]
  rfl

theorem import_name_mem {descriptor : ImportDescriptor} (member : descriptor ∈ image.imports) :
    descriptor.name ∈ image.nameSpans :=
  List.mem_append_left _ (List.mem_map_of_mem member)

theorem delay_import_name_mem {descriptor : DelayLoadDescriptor}
    (member : descriptor ∈ image.delayImports) : descriptor.name ∈ image.nameSpans :=
  List.mem_append_right _ (List.mem_map_of_mem member)

def spansOf (image : Image) : DescriptorTable → List Span
  | .imports => image.imports.map ImportDescriptor.name
  | .delayImports => image.delayImports.map DelayLoadDescriptor.name

theorem name_span_eq {table : DescriptorTable} {index : Nat} :
    image.nameSpan? table index = (image.spansOf table)[index]? := by
  cases table <;> exact List.getElem?_map.symm

theorem spans_of_subset (table : DescriptorTable) : image.spansOf table ⊆ image.nameSpans := by
  cases table with
  | imports => exact List.subset_append_left _ _
  | delayImports => exact List.subset_append_right _ _

theorem Staged.spans_of (staged : Staged fresh image) (table : DescriptorTable) :
    image.spansOf table = fresh.spansOf table := by
  rw [staged.same]
  cases table <;> rfl

theorem name_span_mem {table : DescriptorTable} {index : Nat} {span : Span}
    (found : image.nameSpan? table index = some span) : span ∈ image.nameSpans := by
  rw [name_span_eq] at found
  exact spans_of_subset table (List.mem_of_getElem? found)

/-- What a rename does: it stages the padded name over the name of the descriptor, with which no
other name shares bytes unless it is the same one. -/
theorem rename_eq_ok_iff {request : Rename} :
    image.rename request = .ok edited ↔
      ∃ span edit, image.nameSpan? request.table request.index = some span ∧
        (∀ other ∈ image.nameSpans, other = span ∨ other.overlaps span = false) ∧
        Edit.padded (.dllName span.start) span request.name = .ok edit ∧
        edited = { image with edits := image.edits.stage edit } := by
  simp only [rename, checkUnshared, bind_eq_ok_iff, require_some_eq_ok_iff, forM_eq_ok_iff,
    require_eq_ok_iff, Bool.or_eq_true, beq_iff_eq, Bool.not_eq_true', pure, Except.pure,
    Except.ok.injEq]
  constructor
  · rintro ⟨span, found, _, clear, edit, padded, rfl⟩
    exact ⟨span, edit, found, clear, padded, rfl⟩
  · rintro ⟨span, edit, found, clear, padded, rfl⟩
    exact ⟨span, found, (), clear, edit, padded, rfl⟩

theorem staged_of_rename {request : Rename} (staged : Staged fresh image)
    (done : image.rename request = .ok edited) : Staged fresh edited := by
  obtain ⟨span, edit, found, clear, padded, rfl⟩ := rename_eq_ok_iff.mp done
  obtain ⟨target, place, terminated⟩ := Edit.of_padded padded
  have spans := staged.name_spans
  refine ⟨?_, ?_⟩
  · conv_lhs => rw [staged.same]
  · intro item member
    rcases Edit.mem_insert member with rfl | before
    · refine ⟨?_, ?_, terminated, ?_⟩
      · rw [target, ← place]
        rfl
      · rw [place, ← spans]
        exact name_span_mem found
      · rw [place, ← spans]
        exact clear
    · exact staged.placed item before

structure Opened (data : Bytes) (image : Image) : Prop where
  addressable : data.length < offsetLimit
  parsed : parse data = .ok image
  valid : image.validate = .ok ()

namespace Opened

theorem edit_inside (opened : Opened data fresh) {edit : Edit} (placed : fresh.Placed edit) :
    edit.span.start + edit.span.length ≤ data.length :=
  inside_of_resolves (resolves_of_parse opened.parsed _ placed.place)

-- A name is told by its start, so edits of two targets are edits of two names.
theorem apart_of_placed (opened : Opened data fresh) {a b : Edit} (placedA : fresh.Placed a)
    (placedB : fresh.Placed b) (different : a.target ≠ b.target) : a.Apart b := by
  rintro offset ⟨inA, inB⟩
  rcases placedA.unshared b.span placedB.place with same | free
  · have starts : b.start = a.start := congrArg Span.start same
    rw [placedA.target, placedB.target, starts] at different
    contradiction
  · have small := Nat.lt_of_le_of_lt (opened.edit_inside placedA) opened.addressable
    exact Span.not_covers_of_apart small free inB inA

theorem edits_apart (opened : Opened data fresh) (staged : Staged fresh image) :
    image.edits.edits.Pairwise Edit.Apart := by
  apply image.edits.targets_distinct.imp_of_mem
  intro a b memberA memberB different
  exact opened.apart_of_placed (staged.placed a memberA) (staged.placed b memberB) different

end Opened

end Image

end BinaryImage.Pe

namespace BinaryImage.Session

open Pe.Image

/-- A session starts with the image that was read, and no edits. -/
theorem pe_of_file {data : Bytes} {session : Session} {image : Pe.Image}
    (addressable : data.length < offsetLimit) (opened : ofFile data = .ok session)
    (pe : session.image = .pe image) :
    session.data = data ∧ Opened data image ∧ Staged image image := by
  obtain ⟨format, _, rfl, read⟩ := of_file_eq_ok_iff.mp opened
  rw [pe] at read
  obtain ⟨parsedAny, valid⟩ := Image.parse_valid_eq_ok_iff.mp read
  have parsed := Image.pe_of_parse parsedAny
  exact ⟨rfl, ⟨addressable, parsed, valid⟩, staged_of_fresh (fresh_of_parse parsed).1⟩

theorem renamed_of_attempt_all {session : Session} {fresh image : Pe.Image}
    (pe : session.image = .pe image) (staged : Staged fresh image) (commands : List Command) :
    ∃ edited, (session.attemptAll commands).image = .pe edited ∧ Staged fresh edited :=
  pe_of_attempt_all pe staged fun _ _ _ _ before done => staged_of_rename before done

section Sample

def littleHalves (values : List Nat) : Bytes := values.flatMap (ByteOrder.little.encode 2)

def littleWords (values : List Nat) : Bytes := values.flatMap (ByteOrder.little.encode 4)

/-- A 32-bit file with one section, whose descriptors import two DLLs. -/
def importingFile : Bytes :=
  Text.Utf8.encode "MZ" ++ List.replicate 58 0 ++ littleWords [64] ++
  Text.Utf8.encode "PE\x00\x00" ++
  littleHalves [0x14c, 1] ++ littleWords [0, 0, 0] ++ littleHalves [112, 2] ++
  -- optional header, with two data directories
  littleHalves [0x10b] ++ List.replicate 14 0 ++ littleWords [0x1000] ++ List.replicate 8 0 ++
  littleWords [0x400000, 0x1000, 0x200] ++ List.replicate 16 0 ++
  littleWords [0x2000, 240, 0] ++ littleHalves [3, 0] ++ List.replicate 20 0 ++
  littleWords [2, 0, 0, 0x1000, 60] ++
  -- section table
  Text.Utf8.encode ".idata\x00\x00" ++ littleWords [72, 0x1000, 72, 240, 0, 0] ++
  littleHalves [0, 0] ++ littleWords [0x40000040] ++
  -- descriptors and names
  littleWords [0, 0, 0, 0x103c, 0] ++ littleWords [0, 0, 0, 0x1042, 0] ++
  List.replicate 20 0 ++
  Text.Utf8.encode "a.dll\x00b.dll\x00"

def importingSession : Session := (ofFile importingFile).toOption.get (by decide +kernel)

def importingCommands : List Command :=
  [.pe ⟨.imports, 0, "x.dll"⟩, .pe ⟨.imports, 1, "y"⟩, .pe ⟨.imports, 2, "z"⟩]

theorem importing_addressable : importingFile.length < offsetLimit := by decide +kernel

theorem importing_opened : ofFile importingFile = .ok importingSession := by decide +kernel

end Sample

end BinaryImage.Session
