import BinaryImage.Proofs.Pe.HeaderFrame
import BinaryImage.Proofs.Pe.NameReading

/-!
Descriptor tables under renames. Where no name that is replaced shares bytes with a table, the
table is walked again to the same record of zeros, and its descriptors say what they said. Only the
length of a replaced name may be another, for it is read up to its first NUL. The layout rules do
not keep names off the tables, and a name may lie in one.
-/

namespace BinaryImage.Pe

section Walk

variable {a b data : Bytes} {size room offset : Nat} {records : List (Nat × Bytes)}

theorem walk_succ_eq_ok_iff :
    walk data size (room + 1) offset = .ok records ↔
      ∃ record, data.slice? ⟨offset, size⟩ = some record ∧
        if record.all (· == 0) then records = []
        else ∃ rest, walk data size room (offset + size) = .ok rest ∧
          records = (offset, record) :: rest := by
  rw [walk]
  cases data.slice? ⟨offset, size⟩ with
  | none => simp
  | some record =>
    simp only [Option.some.injEq, exists_eq_left']
    split
    · simp [eq_comm]
    · cases walk data size room (offset + size) with
      | error stop => simp [Except.map]
      | ok rest => simp [Except.map, eq_comm]

/-- A walk ends at a record of zeros, which lies in the file. -/
theorem zeros_of_walk (walked : walk data size room offset = .ok records) :
    ∃ last, data.slice? ⟨offset + records.length * size, size⟩ = some last ∧
      last.all (· == 0) = true := by
  induction room generalizing offset records with
  | zero => cases walked
  | succ room ih =>
    obtain ⟨record, sliced, outcome⟩ := walk_succ_eq_ok_iff.mp walked
    split at outcome
    · next zeros =>
      subst outcome
      rw [List.length_nil, Nat.zero_mul, Nat.add_zero]
      exact ⟨record, sliced, zeros⟩
    · obtain ⟨rest, later, rfl⟩ := outcome
      obtain ⟨last, found, zeros⟩ := ih later
      have place : offset + size + rest.length * size =
          offset + (rest.length + 1) * size := by
        rw [Nat.succ_mul]
        omega
      rw [place] at found
      exact ⟨last, found, zeros⟩

-- Along the walk: the first record is the same, and the rest of the table lies behind it.
theorem walk_of_agree (length : a.length = b.length)
    (agree : Bytes.Agree a b ⟨offset, (records.length + 1) * size⟩)
    (walked : walk a size room offset = .ok records) : walk b size room offset = .ok records := by
  induction room generalizing offset records with
  | zero => cases walked
  | succ room ih =>
    obtain ⟨record, sliced, outcome⟩ := walk_succ_eq_ok_iff.mp walked
    have first : Bytes.Agree a b ⟨offset, size⟩ := by
      apply agree.mono
      · exact Nat.le_refl _
      · simp only [Nat.succ_mul]
        omega
    rw [first.slice length] at sliced
    refine walk_succ_eq_ok_iff.mpr ⟨record, sliced, ?_⟩
    split at outcome
    · next zeros => rwa [if_pos zeros]
    · next filled =>
      obtain ⟨rest, later, rfl⟩ := outcome
      rw [if_neg filled]
      refine ⟨rest, ih ?_ later, rfl⟩
      apply agree.mono
      · exact Nat.le_add_right _ _
      · simp only [List.length_cons, Nat.succ_mul]
        omega

theorem descriptor_records_eq_ok_iff {sections : List Section} {directory : DataDirectory} :
    descriptorRecords data sections directory size = .ok records ↔
      ∃ start, fileOffset sections directory.address = .ok start ∧
        walk data size (data.length + 1) start = .ok records := by
  simp only [descriptorRecords, bind_eq_ok_iff]
  apply exists_congr
  intro start
  cases walk data size (data.length + 1) start <;> simp [pure, Except.pure]

end Walk

/-- The descriptor with its name told by the start alone. -/
def DescriptorKind.unsized {Descriptor : Type} (kind : DescriptorKind Descriptor)
    (descriptor : Descriptor) : Descriptor :=
  kind.named descriptor ⟨(kind.name descriptor).start, 0⟩

def ImportDescriptor.unsized : ImportDescriptor → ImportDescriptor := kind.unsized

def DelayLoadDescriptor.unsized : DelayLoadDescriptor → DelayLoadDescriptor := kind.unsized

section Tables

/-- A name is found by the sections and its own bytes. -/
theorem resolve_name_of_agree {a b : Bytes} {sections : List Section} {rva descriptor : Nat}
    {name : Span} (length : a.length = b.length) (agree : Bytes.Agree a b name)
    (named : resolveName a sections rva descriptor = .ok name) :
    resolveName b sections rva descriptor = .ok name := by
  obtain ⟨present, start, located, within, count, ends, rfl⟩ := resolve_name_eq_ok_iff.mp named
  exact resolve_name_eq_ok_iff.mpr
    ⟨present, start, located, length ▸ within, count, agree.terminator ends, rfl⟩

/-- The name of the descriptor is found at the same place in another file. -/
def NameKept (a b : Bytes) (sections : List Section) (name : Span) : Prop :=
  ∀ rva descriptor, resolveName a sections rva descriptor = .ok name →
    ∃ again, resolveName b sections rva descriptor = .ok again ∧ again.start = name.start

variable {a b : Bytes} {sections : List Section} {offset : Nat} {record : Bytes}

variable {Descriptor : Type} {kind : DescriptorKind Descriptor}

theorem DescriptorKind.parse_unsized {descriptor : Descriptor}
    (kept : NameKept a b sections (kind.name descriptor))
    (parsed : kind.parse a sections offset record = .ok descriptor) :
    ∃ other, kind.parse b sections offset record = .ok other ∧
      kind.unsized other = kind.unsized descriptor := by
  obtain ⟨bare, read, name, named, rfl⟩ := parse_eq_ok_iff.mp parsed
  rw [kind.name_named] at kept
  obtain ⟨again, found, start⟩ := kept _ _ named
  refine ⟨kind.named bare again, parse_eq_ok_iff.mpr ⟨bare, read, again, found, rfl⟩, ?_⟩
  simp only [unsized, kind.named_named, kind.name_named, start]

end Tables

namespace Image

/-- Where a table lies: `count` records, and the one of zeros behind them. -/
def tableSpan? {Descriptor : Type} (image : Image) (kind : DescriptorKind Descriptor)
    (count : Nat) : Option Span := do
  let directory ← image.headers.optional.directory? kind.directory
  let start ← (fileOffset image.sections directory.address).toOption
  return ⟨start, (count + 1) * kind.recordSize⟩

def importTable? (image : Image) : Option Span :=
  image.tableSpan? ImportDescriptor.kind image.imports.length

def delayImportTable? (image : Image) : Option Span :=
  image.tableSpan? DelayLoadDescriptor.kind image.delayImports.length

def descriptorTables (image : Image) : List Span :=
  image.importTable?.toList ++ image.delayImportTable?.toList

variable {data out : Bytes} {fresh image : Image}

theorem import_table_mem {table : Span} (isTable : table ∈ image.importTable?) :
    table ∈ image.descriptorTables :=
  List.mem_append_left _ (Option.mem_toList.mpr isTable)

theorem delay_import_table_mem {table : Span} (isTable : table ∈ image.delayImportTable?) :
    table ∈ image.descriptorTables :=
  List.mem_append_right _ (Option.mem_toList.mpr isTable)

theorem imports_of_parse (parsed : parse data = .ok image) :
    parseTable ImportDescriptor.kind data image.headers image.sections = .ok image.imports := by
  obtain ⟨_, _, _, _, _, _, read, _, rfl⟩ := parse_eq_ok_iff.mp parsed
  exact read

theorem delay_imports_of_parse (parsed : parse data = .ok image) :
    parseTable DelayLoadDescriptor.kind data image.headers image.sections =
      .ok image.delayImports := by
  obtain ⟨_, _, _, _, _, _, _, read, rfl⟩ := parse_eq_ok_iff.mp parsed
  exact read

section Table

variable {Descriptor : Type} {kind : DescriptorKind Descriptor} {descriptors : List Descriptor}

/-- The table of a data directory is walked from the place of its address. -/
theorem walk_of_table {directory : DataDirectory}
    (read : parseTable kind data image.headers image.sections = .ok descriptors)
    (present : image.headers.optional.directory? kind.directory = some directory) :
    ∃ start records, fileOffset image.sections directory.address = .ok start ∧
      walk data kind.recordSize (data.length + 1) start = .ok records ∧
      (records.mapM fun (offset, record) => kind.parse data image.sections offset record) =
        .ok descriptors ∧
      image.tableSpan? kind descriptors.length =
        some ⟨start, (records.length + 1) * kind.recordSize⟩ := by
  simp only [parseTable, present, DescriptorKind.parseAll, bind_eq_ok_iff] at read
  obtain ⟨records, found, all⟩ := read
  obtain ⟨start, located, walked⟩ := descriptor_records_eq_ok_iff.mp found
  have count : descriptors.length = records.length := (mapM_eq_ok_iff.mp all).length_eq.symm
  refine ⟨start, records, located, walked, all, ?_⟩
  simp [tableSpan?, present, located, count, Except.toOption]

/-- Files that agree on a table have descriptors there that agree in a part, if this part of a
descriptor is the same in both. -/
theorem table_of_agree {a b : Bytes} {Part : Type} (part : Descriptor → Part)
    (length : a.length = b.length)
    (agree : ∀ table ∈ image.tableSpan? kind descriptors.length, Bytes.Agree a b table)
    (reparse : ∀ descriptor ∈ descriptors, ∀ offset record,
      kind.parse a image.sections offset record = .ok descriptor →
      ∃ other, kind.parse b image.sections offset record = .ok other ∧
        part other = part descriptor)
    (read : parseTable kind a image.headers image.sections = .ok descriptors) :
    ∃ others, parseTable kind b image.headers image.sections = .ok others ∧
      others.map part = descriptors.map part := by
  cases present : image.headers.optional.directory? kind.directory with
  | none =>
    simp only [parseTable, present] at read ⊢
    cases read
    exact ⟨[], rfl, rfl⟩
  | some directory =>
    obtain ⟨start, records, located, walked, all, place⟩ := walk_of_table read present
    have walkedAgain := walk_of_agree length (agree _ place) walked
    rw [length] at walkedAgain
    obtain ⟨others, again, same⟩ := mapM_related part all
      fun item _ descriptor member parsed => reparse descriptor member item.1 item.2 parsed
    refine ⟨others, ?_, same⟩
    simp only [parseTable, present, DescriptorKind.parseAll, bind_eq_ok_iff]
    exact ⟨records, descriptor_records_eq_ok_iff.mpr ⟨start, located, walkedAgain⟩, again⟩

/-- A table was read to its end, so all of it lies in the file. -/
theorem table_inside {table : Span}
    (read : parseTable kind data image.headers image.sections = .ok descriptors)
    (place : image.tableSpan? kind descriptors.length = some table) :
    table.start + table.length ≤ data.length := by
  have known := place
  simp only [tableSpan?, bind, Option.bind_eq_some_iff] at known
  obtain ⟨directory, present, _⟩ := known
  obtain ⟨start, records, _, walked, _, walkedPlace⟩ := walk_of_table read present
  cases place.symm.trans walkedPlace
  obtain ⟨last, sliced, _⟩ := zeros_of_walk walked
  obtain ⟨inside, _⟩ := Bytes.slice_eq_some_iff.mp sliced
  simp only [Nat.succ_mul] at inside ⊢
  omega

end Table

namespace Opened

theorem tables_inside (opened : Opened data fresh) {table : Span}
    (isTable : table ∈ fresh.descriptorTables) : table.start + table.length ≤ data.length := by
  rcases List.mem_append.mp isTable with imports | delayImports
  · exact table_inside (imports_of_parse opened.parsed) (Option.mem_toList.mp imports)
  · exact table_inside (delay_imports_of_parse opened.parsed) (Option.mem_toList.mp delayImports)

theorem name_kept (opened : Opened data fresh) (staged : Staged fresh image)
    (wrote : image.edits.write data = .ok out) {span : Span} (isName : span ∈ fresh.nameSpans) :
    NameKept data out fresh.sections span := by
  intro rva descriptor named
  obtain ⟨record, written, nul, _⟩ := opened.name_written staged wrote isName
  obtain ⟨present, start, located, within, _, _, rfl⟩ := resolve_name_eq_ok_iff.mp named
  obtain ⟨_, rfl⟩ := Bytes.slice_eq_some_iff.mp written
  obtain ⟨length, ends⟩ := Option.isSome_iff_exists.mp
    (Bytes.terminator_isSome_iff.mpr (List.mem_of_mem_take nul))
  rw [← EditSet.length_write wrote] at within
  exact ⟨_, resolve_name_eq_ok_iff.mpr ⟨present, start, located, within, length, ends, rfl⟩, rfl⟩

/-- A table that no edit overlaps is read again as it was. -/
theorem table_reread {Descriptor : Type} {kind : DescriptorKind Descriptor}
    {descriptors : List Descriptor} (opened : Opened data fresh) (staged : Staged fresh image)
    (wrote : image.edits.write data = .ok out)
    (isName : ∀ descriptor ∈ descriptors, kind.name descriptor ∈ fresh.nameSpans)
    (spared : ∀ table ∈ fresh.tableSpan? kind descriptors.length, image.edits.Spares table)
    (read : parseTable kind data fresh.headers fresh.sections = .ok descriptors) :
    ∃ others, parseTable kind out fresh.headers fresh.sections = .ok others ∧
      others.map kind.unsized = descriptors.map kind.unsized := by
  refine table_of_agree kind.unsized (EditSet.length_write wrote).symm ?_ ?_ read
  · intro table isTable
    exact EditSet.agree_of_spared opened.addressable wrote (spared table isTable)
  · intro descriptor member offset record
    exact DescriptorKind.parse_unsized (opened.name_kept staged wrote (isName _ member))

theorem imports_reread (opened : Opened data fresh) (staged : Staged fresh image)
    (wrote : image.edits.write data = .ok out)
    (spared : ∀ table ∈ fresh.importTable?, image.edits.Spares table) :
    ∃ imports, parseTable ImportDescriptor.kind out fresh.headers fresh.sections = .ok imports ∧
      imports.map ImportDescriptor.unsized = fresh.imports.map ImportDescriptor.unsized :=
  opened.table_reread staged wrote (fun _ => import_name_mem) spared
    (imports_of_parse opened.parsed)

theorem delay_imports_reread (opened : Opened data fresh) (staged : Staged fresh image)
    (wrote : image.edits.write data = .ok out)
    (spared : ∀ table ∈ fresh.delayImportTable?, image.edits.Spares table) :
    ∃ delayImports,
      parseTable DelayLoadDescriptor.kind out fresh.headers fresh.sections = .ok delayImports ∧
      delayImports.map DelayLoadDescriptor.unsized =
        fresh.delayImports.map DelayLoadDescriptor.unsized :=
  opened.table_reread staged wrote (fun _ => delay_import_name_mem) spared
    (delay_imports_of_parse opened.parsed)

end Opened

end Image

end BinaryImage.Pe

namespace BinaryImage.Session

open Pe.Image

/-- What is written after renames is a file that can be opened, too. -/
theorem pe_of_serialize {data out : Bytes} {session : Session} {image : Pe.Image}
    (addressable : data.length < offsetLimit) (opened : ofFile data = .ok session)
    (pe : session.image = .pe image) {commands : List Command}
    (written : (session.attemptAll commands).serialize = .ok out) :
    ∃ reread, Opened out reread := by
  obtain ⟨rfl, _, _⟩ := pe_of_file addressable opened pe
  obtain ⟨reopened, openedAgain, format⟩ := reopen_of_serialize opened
    (session.attempt_all_data commands) (session.attempt_all_format commands) written
  obtain ⟨_, _, _, wrote, _⟩ := Image.serialize_eq_ok_iff.mp written
  have length := EditSet.length_write wrote
  rw [session.attempt_all_data] at length
  cases again : reopened.image with
  | elf reread =>
    rw [again, pe] at format
    cases format
  | pe reread =>
    obtain ⟨_, openedOut, _⟩ := pe_of_file (length ▸ addressable) openedAgain again
    exact ⟨reread, openedOut⟩

/-- A descriptor table keeps its bytes and says what it said as long as no name that shares bytes
with it is replaced. -/
theorem descriptors_kept {data out : Bytes} {session : Session} {image : Pe.Image}
    {commands : List Command} (addressable : data.length < offsetLimit)
    (opened : ofFile data = .ok session) (pe : session.image = .pe image)
    (written : (session.attemptAll commands).serialize = .ok out) :
    (∀ table ∈ image.descriptorTables,
      (session.attemptAll commands).image.edits.Spares table →
        ∃ bytes, data.slice? table = some bytes ∧ out.slice? table = some bytes) ∧
    ∃ reread, Pe.Image.parse out = .ok reread ∧
      ((∀ table ∈ image.importTable?, (session.attemptAll commands).image.edits.Spares table) →
        reread.imports.map Pe.ImportDescriptor.unsized =
          image.imports.map Pe.ImportDescriptor.unsized) ∧
      ((∀ table ∈ image.delayImportTable?,
          (session.attemptAll commands).image.edits.Spares table) →
        reread.delayImports.map Pe.DelayLoadDescriptor.unsized =
          image.delayImports.map Pe.DelayLoadDescriptor.unsized) := by
  obtain ⟨reread, openedOut⟩ := pe_of_serialize addressable opened pe written
  obtain ⟨rfl, openedImage, fresh⟩ := pe_of_file addressable opened pe
  obtain ⟨edited, peEdited, staged⟩ := renamed_of_attempt_all pe fresh commands
  obtain ⟨_, _, _, wrote, _⟩ := Image.serialize_eq_ok_iff.mp written
  rw [peEdited, session.attempt_all_data] at wrote
  rw [peEdited]
  have length := (EditSet.length_write wrote).symm
  obtain ⟨headers, sections⟩ := openedImage.headers_reread staged wrote openedOut.parsed
  refine ⟨?_, reread, openedOut.parsed, ?_, ?_⟩
  · intro table isTable spared
    have sliced := Bytes.slice_of_fits (openedImage.tables_inside isTable)
    have agree := EditSet.agree_of_spared addressable wrote spared
    exact ⟨_, sliced, agree.slice length ▸ sliced⟩
  · intro spared
    obtain ⟨imports, again, same⟩ := openedImage.imports_reread staged wrote spared
    rw [← headers, ← sections, imports_of_parse openedOut.parsed] at again
    cases again
    exact same
  · intro spared
    obtain ⟨delayImports, again, same⟩ := openedImage.delay_imports_reread staged wrote spared
    rw [← headers, ← sections, delay_imports_of_parse openedOut.parsed] at again
    cases again
    exact same

section Sample

def sharingRenamed : Bytes :=
  (sharingSession.attemptAll sharingHistory).serialize.toOption.get (by decide +kernel)

theorem descriptors_kept_sharing :
    sharingImage.descriptorTables = [⟨336, 60⟩, ⟨396, 96⟩] ∧ sharingRenamed ≠ sharingFile ∧
      (∀ table ∈ sharingImage.descriptorTables, ∃ bytes,
        sharingFile.slice? table = some bytes ∧ sharingRenamed.slice? table = some bytes) ∧
      ∃ reread, Pe.Image.parse sharingRenamed = .ok reread ∧
        reread.imports.map Pe.ImportDescriptor.unsized =
          sharingImage.imports.map Pe.ImportDescriptor.unsized ∧
        reread.delayImports.map Pe.DelayLoadDescriptor.unsized =
          sharingImage.delayImports.map Pe.DelayLoadDescriptor.unsized := by
  have written : (sharingSession.attemptAll sharingHistory).serialize = .ok sharingRenamed := by
    decide +kernel
  have spared : ∀ table ∈ sharingImage.descriptorTables,
      (sharingSession.attemptAll sharingHistory).image.edits.Spares table := by
    decide +kernel
  obtain ⟨kept, reread, parsed, imports, delayImports⟩ :=
    descriptors_kept sharing_addressable sharing_opened sharing_pe written
  refine ⟨by decide +kernel, by decide +kernel, ?_, reread, parsed, imports ?_, delayImports ?_⟩
  · intro table isTable
    exact kept table isTable (spared table isTable)
  · intro table isTable
    exact spared table (import_table_mem isTable)
  · intro table isTable
    exact spared table (delay_import_table_mem isTable)

/-- A file whose first import descriptor holds its own name, in place of the address of its lookup
table. -/
def nestedFile : Bytes := importingFile.splice 240 (littleWords [0x636261, 0, 0, 0x1000])

def nestedSession : Session := (ofFile nestedFile).toOption.get (by decide +kernel)

def nestedImage : Pe.Image := (Pe.Image.parse nestedFile).toOption.get (by decide +kernel)

def nestedRenamed : Bytes :=
  (nestedSession.attemptAll [.pe ⟨.imports, 0, "xyz"⟩]).serialize.toOption.get (by decide +kernel)

-- The new name is written over the address of the lookup table.
theorem descriptor_overwritten :
    ofFile nestedFile = .ok nestedSession ∧ nestedSession.image = .pe nestedImage ∧
      nestedImage.descriptorTables = [⟨240, 60⟩] ∧
      (nestedSession.attemptAll [.pe ⟨.imports, 0, "xyz"⟩]).serialize = .ok nestedRenamed ∧
      nestedRenamed.slice? ⟨240, 60⟩ ≠ nestedFile.slice? ⟨240, 60⟩ ∧
      nestedImage.imports.map Pe.ImportDescriptor.lookupTable = [0x636261, 0] ∧
      (Pe.Image.parse nestedRenamed).map
        (fun image => image.imports.map Pe.ImportDescriptor.lookupTable) =
          .ok [0x7a7978, 0] := by
  decide +kernel

end Sample

end BinaryImage.Session
