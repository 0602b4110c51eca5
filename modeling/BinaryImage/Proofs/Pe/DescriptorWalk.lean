import BinaryImage.Proofs.FieldPlaces
import BinaryImage.Proofs.Pe.ImportPlaces

/-!
Descriptor tables by the bytes of the file. The walk over a table is a loop without a bound of its
own, and the end of the file stops it. Which tables are parsed, and to which descriptors, is told
here with no loop and no reader: by the first record of zeros, the fields at their offsets, and the
first NUL behind the place of each name.
-/

namespace BinaryImage

namespace Bytes

def ZeroIn (data : Bytes) (span : Span) : Prop :=
  ∀ offset, span.Covers offset → data[offset]? = some 0

theorem zero_in_iff {data : Bytes} {span : Span} (filled : 0 < span.length) :
    data.ZeroIn span ↔ ∃ bytes, data.slice? span = some bytes ∧ bytes.all (· == 0) = true := by
  constructor
  · intro zero
    have last := zero (span.start + (span.length - 1)) ⟨Nat.le_add_right _ _, by omega⟩
    have inside := (List.getElem?_eq_some_iff.mp last).1
    have sliced : data.slice? span = some _ := slice_of_fits (by omega)
    refine ⟨_, sliced, List.all_eq_true.mpr ?_⟩
    intro byte member
    obtain ⟨index, found⟩ := List.mem_iff_getElem?.mp member
    obtain ⟨below, _⟩ := List.getElem?_eq_some_iff.mp found
    rw [length_slice sliced] at below
    rw [List.getElem?_take_of_lt below, List.getElem?_drop,
      zero _ ⟨Nat.le_add_right _ _, Nat.add_lt_add_left below _⟩] at found
    cases found
    rfl
  · rintro ⟨bytes, sliced, zeros⟩ offset ⟨above, below⟩
    have count := length_slice sliced
    obtain ⟨_, rfl⟩ := slice_eq_some_iff.mp sliced
    have present : offset - span.start < ((data.drop span.start).take span.length).length := by
      omega
    have zero := List.all_eq_true.mp zeros _ (List.getElem_mem present)
    have found := List.getElem?_eq_getElem present
    have place : span.start + (offset - span.start) = offset := by omega
    rw [List.getElem?_take_of_lt (by omega), List.getElem?_drop, place] at found
    rw [found, beq_iff_eq.mp zero]

end Bytes

namespace Pe

section Walk

/-- A run of the loop over the records from an offset on, with no bound on their number: it stops
where a record leaves the file, or at a record of zeros. -/
inductive Walks (data : Bytes) (size : Nat) :
    (offset : Nat) → Except Nat (List (Nat × Bytes)) → Prop
  | leaves {offset : Nat} (outside : data.slice? ⟨offset, size⟩ = none) :
    Walks data size offset (.error offset)
  | ends {offset : Nat} {record : Bytes} (inside : data.slice? ⟨offset, size⟩ = some record)
    (zeros : record.all (· == 0) = true) : Walks data size offset (.ok [])
  | goesOn {offset : Nat} {record : Bytes} {outcome : Except Nat (List (Nat × Bytes))}
    (inside : data.slice? ⟨offset, size⟩ = some record) (filled : record.all (· == 0) = false)
    (rest : Walks data size (offset + size) outcome) :
    Walks data size offset (outcome.map ((offset, record) :: ·))

/-- Record `count` of the table at `start` is the first of zeros, and lies in the file. -/
def EndsAfter (data : Bytes) (size start count : Nat) : Prop :=
  data.ZeroIn ⟨start + count * size, size⟩ ∧
    ∀ index < count, ¬ data.ZeroIn ⟨start + index * size, size⟩

def recordsAt (data : Bytes) (size start count : Nat) : List (Nat × Bytes) :=
  (List.range count).map fun index =>
    (start + index * size, (data.drop (start + index * size)).take size)

variable {data : Bytes} {size room offset count : Nat} {records : List (Nat × Bytes)}

theorem fits_of_slice {record : Bytes} (inside : data.slice? ⟨offset, size⟩ = some record) :
    offset + size ≤ data.length := (Bytes.slice_eq_some_iff.mp inside).1

theorem records_at_succ :
    recordsAt data size offset (count + 1) =
      (offset, (data.drop offset).take size) :: recordsAt data size (offset + size) count := by
  rw [recordsAt, List.range_succ_eq_map, List.map_cons, List.map_map, Nat.zero_mul, Nat.add_zero,
    recordsAt]
  congr 1
  apply List.map_congr_left
  intro index _
  have place : offset + (index + 1) * size = offset + size + index * size := by
    rw [Nat.succ_mul]
    omega
  simp only [Function.comp, Nat.succ_eq_add_one, place]

theorem ends_after_zero_iff :
    EndsAfter data size offset 0 ↔ data.ZeroIn ⟨offset, size⟩ := by
  simp [EndsAfter]

theorem ends_after_succ_iff :
    EndsAfter data size offset (count + 1) ↔
      ¬ data.ZeroIn ⟨offset, size⟩ ∧ EndsAfter data size (offset + size) count := by
  have place : ∀ index, offset + (index + 1) * size = offset + size + index * size := by
    intro index
    rw [Nat.succ_mul]
    omega
  simp only [EndsAfter, place, Nat.forall_lt_succ_left', Nat.zero_mul, Nat.add_zero]
  exact and_left_comm

section Sized

variable (sized : 0 < size)
include sized

/-- A loop that is not done has brought the walk on by a record, and the file has an end. -/
theorem walks_iff {outcome : Except Nat (List (Nat × Bytes))}
    (enough : data.length < offset + room) :
    Walks data size offset outcome ↔ walk data size room offset = outcome := by
  constructor
  · intro walks
    induction walks generalizing room with
    | leaves outside =>
      cases room with
      | zero => rfl
      | succ room => rw [walk, outside]
    | ends inside zeros =>
      have fits := fits_of_slice inside
      obtain ⟨room, rfl⟩ := Nat.exists_eq_add_one.mpr (by omega : 0 < room)
      simp [walk, inside, zeros]
    | @goesOn offset record outcome inside filled rest ih =>
      have fits := fits_of_slice inside
      obtain ⟨room, rfl⟩ := Nat.exists_eq_add_one.mpr (by omega : 0 < room)
      have later : walk data size room (offset + size) = outcome := ih (by omega)
      simp [walk, inside, filled, later]
  · rintro rfl
    induction room generalizing offset with
    | zero =>
      refine .leaves (Option.eq_none_iff_forall_ne_some.mpr ?_)
      intro record inside
      have fits := fits_of_slice inside
      omega
    | succ room ih =>
      rw [walk]
      cases inside : data.slice? ⟨offset, size⟩ with
      | none => exact .leaves inside
      | some record =>
        cases zeros : record.all (· == 0) with
        | true =>
          simp only [zeros, if_true]
          exact .ends inside zeros
        | false =>
          simp only [zeros, Bool.false_eq_true, if_false]
          exact .goesOn inside zeros (ih (by omega))

theorem inside_of_ends_after (ends : EndsAfter data size offset count) :
    offset + count * size + size ≤ data.length := by
  obtain ⟨_, sliced, _⟩ := (Bytes.zero_in_iff sized).mp ends.1
  exact fits_of_slice sliced

theorem record_of_ends_after (ends : EndsAfter data size offset count) {index : Nat}
    (below : index < count) :
    data.slice? ⟨offset + index * size, size⟩ =
      some ((data.drop (offset + index * size)).take size) := by
  have inside := inside_of_ends_after sized ends
  have earlier := Nat.mul_le_mul_right size below
  rw [Nat.succ_mul] at earlier
  exact Bytes.slice_of_fits (by simp only; omega)

theorem walk_eq_ok_iff :
    walk data size room offset = .ok records ↔
      ∃ count < room, EndsAfter data size offset count ∧
        records = recordsAt data size offset count := by
  induction room generalizing offset records with
  | zero => simp [walk]
  | succ room ih =>
    rw [walk_succ_eq_ok_iff]
    constructor
    · rintro ⟨record, sliced, outcome⟩
      split at outcome
      · next zeros =>
        subst outcome
        have zero := (Bytes.zero_in_iff sized).mpr ⟨record, sliced, zeros⟩
        exact ⟨0, Nat.succ_pos room, ends_after_zero_iff.mpr zero, rfl⟩
      · next filled =>
        obtain ⟨rest, later, rfl⟩ := outcome
        obtain ⟨count, below, ends, rfl⟩ := ih.mp later
        refine ⟨count + 1, Nat.succ_lt_succ below, ends_after_succ_iff.mpr ⟨?_, ends⟩, ?_⟩
        · intro zero
          obtain ⟨_, again, zeros⟩ := (Bytes.zero_in_iff sized).mp zero
          cases sliced.symm.trans again
          exact filled zeros
        · rw [records_at_succ, (Bytes.slice_eq_some_iff.mp sliced).2]
    · rintro ⟨count, below, ends, rfl⟩
      cases count with
      | zero =>
        obtain ⟨record, sliced, zeros⟩ :=
          (Bytes.zero_in_iff sized).mp (ends_after_zero_iff.mp ends)
        exact ⟨record, sliced, by rw [if_pos zeros]; rfl⟩
      | succ count =>
        obtain ⟨filled, later⟩ := ends_after_succ_iff.mp ends
        have inside := inside_of_ends_after sized later
        have sliced : data.slice? ⟨offset, size⟩ = some _ :=
          Bytes.slice_of_fits (by simp only; omega)
        refine ⟨_, sliced, ?_⟩
        rw [if_neg fun zeros => filled ((Bytes.zero_in_iff sized).mpr ⟨_, sliced, zeros⟩)]
        exact ⟨_, ih.mpr ⟨count, Nat.lt_of_succ_lt_succ below, later, rfl⟩, records_at_succ⟩

-- A record that is zero in part does not end the table.
example : walk [7, 0, 1, 0, 0, 9] 2 7 1 = .ok [(1, [0, 1])] := by decide

theorem descriptor_records_eq_ok_iff_ends_after {sections : List Section}
    {directory : DataDirectory} :
    descriptorRecords data sections directory size = .ok records ↔
      ∃ start count, fileOffset sections directory.address = .ok start ∧
        EndsAfter data size start count ∧ records = recordsAt data size start count := by
  rw [descriptor_records_eq_ok_iff]
  apply exists_congr
  intro start
  rw [walk_eq_ok_iff sized, exists_and_left]
  apply and_congr_right
  intro _
  constructor
  · rintro ⟨count, _, found⟩
    exact ⟨count, found⟩
  · rintro ⟨count, ends, same⟩
    have inside := inside_of_ends_after sized ends
    have spread := Nat.le_mul_of_pos_right count sized
    exact ⟨count, by omega, ends, same⟩

end Sized

end Walk

def ImportDescriptor.placed (data : Bytes) (start : Nat) (name : Span) : ImportDescriptor :=
  let word := fun offset => ByteOrder.little.unsignedAt data (start + offset) 4
  { offset := start, lookupTable := word 0, timestamp := word 4, forwarderChain := word 8
    nameRva := word 12, addressTable := word 16, name }

def DelayLoadDescriptor.placed (data : Bytes) (start : Nat) (name : Span) : DelayLoadDescriptor :=
  let word := fun offset => ByteOrder.little.unsignedAt data (start + offset) 4
  { offset := start, attributes := word 0, nameRva := word 4, moduleHandle := word 8
    addressTable := word 12, nameTable := word 16, boundAddressTable := word 20
    unloadTable := word 24, timestamp := word 28, name }

/-- The name for an address: from the place of the address on, up to the first NUL. -/
def NameFor (data : Bytes) (sections : List Section) (rva : Nat) (name : Span) : Prop :=
  rva ≠ 0 ∧ fileOffset sections rva = .ok name.start ∧ data.EndsAtNul name

section Descriptors

open Reader

theorem resolve_name_eq_ok_iff_name_for {data : Bytes} {sections : List Section}
    {rva descriptor : Nat} {name : Span} :
    resolveName data sections rva descriptor = .ok name ↔ NameFor data sections rva name := by
  rw [resolve_name_eq_ok_iff, NameFor]
  apply and_congr_right
  intro _
  constructor
  · rintro ⟨start, located, _, length, ends, rfl⟩
    exact ⟨located, length, rfl, Bytes.terminator_drop_eq_some_iff.mp ends⟩
  · rintro ⟨located, length, span, nul, live⟩
    have below := (List.getElem?_eq_some_iff.mp nul).1
    refine ⟨name.start, located, by omega, length,
      Bytes.terminator_drop_eq_some_iff.mpr ⟨nul, live⟩, ?_⟩
    rw [← span]

/-- What the record at a place makes of a descriptor, whose name is filled in; the address of the
name is the word at `nameField`. -/
structure DescriptorKind.Places {Descriptor : Type} (kind : DescriptorKind Descriptor)
    (placed : Bytes → Nat → Span → Descriptor) (nameField : Nat) : Prop where
  reads : ∀ {data record : Bytes} {offset : Nat},
    data.slice? ⟨offset, kind.recordSize⟩ = some record →
      Reader.runOn (kind.read offset) record offset = .ok (placed data offset ⟨0, 0⟩)
  name_rva : ∀ data offset name, kind.nameRva (placed data offset name) =
    ByteOrder.little.unsignedAt data (offset + nameField) 4
  named : ∀ data offset a b, kind.named (placed data offset a) b = placed data offset b

theorem ImportDescriptor.reads (offset : Nat) :
    Reads (read offset) recordSize
      fun data start => { placed data start ⟨0, 0⟩ with offset } := by
  apply Reads.congr
  case reads =>
    iterate 5 (apply reads_bind (reads_unsigned _ _); intro _)
    exact reads_pure _
  case sizes => rfl
  case values => exact fun _ _ => rfl

theorem ImportDescriptor.places : kind.Places placed 12 where
  reads sliced := (reads _).run_on sliced (Nat.le_refl _) _
  name_rva _ _ _ := rfl
  named _ _ _ _ := rfl

theorem DelayLoadDescriptor.reads (offset : Nat) :
    Reads (read offset) recordSize
      fun data start => { placed data start ⟨0, 0⟩ with offset } := by
  apply Reads.congr
  case reads =>
    iterate 8 (apply reads_bind (reads_unsigned _ _); intro _)
    exact reads_pure _
  case sizes => rfl
  case values => exact fun _ _ => rfl

theorem DelayLoadDescriptor.places : kind.Places placed 4 where
  reads sliced := (reads _).run_on sliced (Nat.le_refl _) _
  name_rva _ _ _ := rfl
  named _ _ _ _ := rfl

end Descriptors

section Tables

variable {Descriptor : Type}

/-- The descriptors of a table: the records before the first of zeros, in their order, as `placed`
says of their places. The address of a name is the word at `nameField` of its record. -/
def Tabulates (placed : Bytes → Nat → Span → Descriptor) (size nameField : Nat) (data : Bytes)
    (sections : List Section) (directory : DataDirectory) (descriptors : List Descriptor) : Prop :=
  ∃ start, fileOffset sections directory.address = .ok start ∧
    EndsAfter data size start descriptors.length ∧
    ∀ index descriptor, descriptors[index]? = some descriptor →
      ∃ name, NameFor data sections
          (ByteOrder.little.unsignedAt data (start + index * size + nameField) 4) name ∧
        descriptor = placed data (start + index * size) name

/-- The table has a record of zeros, and each record before the first one has a name. -/
def Complete (size nameField : Nat) (data : Bytes) (sections : List Section)
    (directory : DataDirectory) : Prop :=
  ∃ start count, fileOffset sections directory.address = .ok start ∧
    EndsAfter data size start count ∧
    ∀ index < count,
      let rva := ByteOrder.little.unsignedAt data (start + index * size + nameField) 4
      rva ≠ 0 ∧ ∃ place, fileOffset sections rva = .ok place ∧
        ∃ offset, place ≤ offset ∧ data[offset]? = some 0

theorem forall₂_range_iff {count : Nat} {related : Nat → Descriptor → Prop}
    {results : List Descriptor} :
    List.Forall₂ related (List.range count) results ↔
      results.length = count ∧
        ∀ index result, results[index]? = some result → related index result := by
  simp only [List.forall₂_iff_get, List.length_range, List.get_eq_getElem, List.getElem_range]
  constructor
  · rintro ⟨rfl, each⟩
    refine ⟨rfl, ?_⟩
    intro index result found
    obtain ⟨below, rfl⟩ := List.getElem?_eq_some_iff.mp found
    exact each index below below
  · rintro ⟨rfl, each⟩
    exact ⟨rfl, fun index _ below => each index _ (List.getElem?_eq_getElem below)⟩

variable {kind : DescriptorKind Descriptor} {placed : Bytes → Nat → Span → Descriptor}
  {size nameField : Nat} {data : Bytes} {sections : List Section} {directory : DataDirectory}

theorem DescriptorKind.Places.parse_eq_ok_iff (places : kind.Places placed nameField)
    {record : Bytes} {offset : Nat} {descriptor : Descriptor}
    (sliced : data.slice? ⟨offset, kind.recordSize⟩ = some record) :
    kind.parse data sections offset record = .ok descriptor ↔
      ∃ name, NameFor data sections
          (ByteOrder.little.unsignedAt data (offset + nameField) 4) name ∧
        descriptor = placed data offset name := by
  simp only [DescriptorKind.parse_eq_ok_iff, read_record_eq_ok_iff, places.reads sliced,
    Except.ok.injEq, exists_eq_left', resolve_name_eq_ok_iff_name_for, places.name_rva,
    places.named]

theorem DescriptorKind.Places.parse_all_eq_ok_iff (places : kind.Places placed nameField)
    (sized : 0 < kind.recordSize) (descriptors : List Descriptor) :
    kind.parseAll data sections directory = .ok descriptors ↔
      Tabulates placed kind.recordSize nameField data sections directory descriptors := by
  simp only [parseAll, bind_eq_ok_iff, descriptor_records_eq_ok_iff_ends_after sized,
    mapM_eq_ok_iff, Tabulates]
  constructor
  · rintro ⟨_, ⟨start, count, located, ends, rfl⟩, all⟩
    rw [recordsAt, List.forall₂_map_left_iff, forall₂_range_iff] at all
    obtain ⟨rfl, each⟩ := all
    refine ⟨start, located, ends, ?_⟩
    intro index descriptor found
    have below := (List.getElem?_eq_some_iff.mp found).1
    exact (places.parse_eq_ok_iff (record_of_ends_after sized ends below)).mp
      (each index descriptor found)
  · rintro ⟨start, located, ends, each⟩
    refine ⟨_, ⟨start, _, located, ends, rfl⟩, ?_⟩
    rw [recordsAt, List.forall₂_map_left_iff, forall₂_range_iff]
    refine ⟨rfl, ?_⟩
    intro index descriptor found
    have below := (List.getElem?_eq_some_iff.mp found).1
    exact (places.parse_eq_ok_iff (record_of_ends_after sized ends below)).mpr
      (each index descriptor found)

theorem exists_tabulates_iff :
    (∃ descriptors, Tabulates placed size nameField data sections directory descriptors) ↔
      Complete size nameField data sections directory := by
  constructor
  · rintro ⟨descriptors, start, located, ends, each⟩
    refine ⟨start, _, located, ends, ?_⟩
    intro index below
    obtain ⟨name, ⟨present, found, last⟩, _⟩ := each index _ (List.getElem?_eq_getElem below)
    exact ⟨present, name.start, found, Bytes.ends_at_nul_iff.mp ⟨name, rfl, last⟩⟩
  · rintro ⟨start, count, located, ends, each⟩
    have named : ∀ index, ∃ name, index < count → NameFor data sections
        (ByteOrder.little.unsignedAt data (start + index * size + nameField) 4) name := by
      intro index
      by_cases below : index < count
      · obtain ⟨present, place, found, nul⟩ := each index below
        obtain ⟨name, rfl, last⟩ := Bytes.ends_at_nul_iff.mpr nul
        exact ⟨name, fun _ => ⟨present, found, last⟩⟩
      · exact ⟨⟨0, 0⟩, fun less => absurd less below⟩
    choose names named using named
    refine ⟨(List.range count).map fun index => placed data (start + index * size) (names index),
      start, located, ?_, ?_⟩
    · rwa [List.length_map, List.length_range]
    · intro index descriptor found
      rw [List.getElem?_map, Option.map_eq_some_iff] at found
      obtain ⟨place, member, rfl⟩ := found
      obtain ⟨below, rfl⟩ : index < count ∧ index = place := by
        rw [List.getElem?_eq_some_iff] at member
        simpa using member
      exact ⟨names index, named index below, rfl⟩

theorem DescriptorKind.Places.table_parsed (places : kind.Places placed nameField)
    (sized : 0 < kind.recordSize) :
    (∀ descriptors, kind.parseAll data sections directory = .ok descriptors ↔
      Tabulates placed kind.recordSize nameField data sections directory descriptors) ∧
    ((∃ descriptors, kind.parseAll data sections directory = .ok descriptors) ↔
      Complete kind.recordSize nameField data sections directory) ∧
    (∀ start outcome, Walks data kind.recordSize start outcome ↔
      walk data kind.recordSize (data.length + 1) start = outcome) ∧
    ∀ size, kind.parseAll data sections { directory with size } =
      kind.parseAll data sections directory := by
  have tabulates : ∀ descriptors, kind.parseAll data sections directory = .ok descriptors ↔
      Tabulates placed kind.recordSize nameField data sections directory descriptors :=
    places.parse_all_eq_ok_iff sized
  refine ⟨tabulates, ?_, ?_, fun _ => rfl⟩
  · rw [← exists_tabulates_iff]
    exact exists_congr tabulates
  · intro start outcome
    exact walks_iff sized (by omega)

end Tables

/-- A table is parsed when it is complete, to the descriptors before its first record of zeros. The
loop over its records comes to an end on every file, and asks nothing of the size of the
directory. -/
theorem descriptor_tables_parsed (data : Bytes) (sections : List Section)
    (directory : DataDirectory) :
    ((∀ descriptors, ImportDescriptor.parseAll data sections directory = .ok descriptors ↔
        Tabulates ImportDescriptor.placed 20 12 data sections directory descriptors) ∧
      ((∃ descriptors, ImportDescriptor.parseAll data sections directory = .ok descriptors) ↔
        Complete 20 12 data sections directory) ∧
      (∀ start outcome, Walks data 20 start outcome ↔
        walk data 20 (data.length + 1) start = outcome) ∧
      ∀ size, ImportDescriptor.parseAll data sections { directory with size } =
        ImportDescriptor.parseAll data sections directory) ∧
    (∀ descriptors, DelayLoadDescriptor.parseAll data sections directory = .ok descriptors ↔
        Tabulates DelayLoadDescriptor.placed 32 4 data sections directory descriptors) ∧
      ((∃ descriptors, DelayLoadDescriptor.parseAll data sections directory = .ok descriptors) ↔
        Complete 32 4 data sections directory) ∧
      (∀ start outcome, Walks data 32 start outcome ↔
        walk data 32 (data.length + 1) start = outcome) ∧
      ∀ size, DelayLoadDescriptor.parseAll data sections { directory with size } =
        DelayLoadDescriptor.parseAll data sections directory :=
  ⟨ImportDescriptor.places.table_parsed (by decide),
    DelayLoadDescriptor.places.table_parsed (by decide)⟩

end Pe

namespace Session

open Pe

section Sample

def sharingDirectory (index : Nat) : DataDirectory :=
  (sharingImage.headers.optional.directory? index).getD ⟨0, 0⟩

-- Something else of the file follows each table, so it is the record of zeros that ends it.
theorem descriptor_tables_parsed_sharing :
    sharingImage.imports.length = 2 ∧ sharingImage.delayImports.length = 2 ∧
      Tabulates ImportDescriptor.placed 20 12 sharingFile sharingImage.sections
        (sharingDirectory DataDirectory.imports) sharingImage.imports ∧
      Complete 32 4 sharingFile sharingImage.sections
        (sharingDirectory DataDirectory.delayImports) := by
  have imports : ImportDescriptor.parseAll sharingFile sharingImage.sections
      (sharingDirectory DataDirectory.imports) = .ok sharingImage.imports := by
    decide +kernel
  have delayImports : DelayLoadDescriptor.parseAll sharingFile sharingImage.sections
      (sharingDirectory DataDirectory.delayImports) = .ok sharingImage.delayImports := by
    decide +kernel
  obtain ⟨⟨tabulates, _⟩, _⟩ := descriptor_tables_parsed sharingFile sharingImage.sections
    (sharingDirectory DataDirectory.imports)
  obtain ⟨_, _, complete, _⟩ := descriptor_tables_parsed sharingFile sharingImage.sections
    (sharingDirectory DataDirectory.delayImports)
  exact ⟨by decide +kernel, by decide +kernel, (tabulates _).mp imports,
    complete.mp ⟨_, delayImports⟩⟩

end Sample

end Session

end BinaryImage
