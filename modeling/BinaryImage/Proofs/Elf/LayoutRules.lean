import BinaryImage.Proofs.Elf.Reopening
import Mathlib.Data.List.Nodup

/-!
The layout rules of ELF files, stated without sorting, sweeping or names: the validator accepts an
image exactly when they hold, whatever its sections are called.
-/

namespace BinaryImage.Elf

open Layout

inductive Table where
  | fileHeader
  | segments
  | sections
  deriving DecidableEq

namespace Table

def all : List Table := [.fileHeader, .segments, .sections]

theorem mem_all (table : Table) : table ∈ all := by
  cases table <;> decide

def entity : Table → Entity
  | .fileHeader => .elfHeader
  | .segments => .programHeaders
  | .sections => .sectionHeaders

def span (image : Image) : Table → Span
  | .fileHeader => ⟨0, image.header.fileClass.fileHeaderSize⟩
  | .segments => ⟨image.header.programHeaderOffset,
      image.segments.length * image.header.fileClass.programHeaderSize⟩
  | .sections => ⟨image.header.sectionHeaderOffset,
      image.sections.length * image.header.fileClass.sectionHeaderSize⟩

/-- A table without entries takes no room. -/
def isPresent (image : Image) : Table → Bool
  | .fileHeader => true
  | .segments => !image.segments.isEmpty
  | .sections => !image.sections.isEmpty

def region (image : Image) (table : Table) : Region := ⟨table.entity, table.span image⟩

end Table

structure Segment.Lawful (segment : Segment) (fileLength : Nat) : Prop where
  inside : segment.fileSpan.fitsIn fileLength = true
  aligned : segment.alignment = 0 ∨ segment.alignment.isPowerOfTwo
  congruent : 1 < segment.alignment →
    segment.offset % segment.alignment = segment.address % segment.alignment

structure Section.Lawful (item : Section) (fileLength : Nat) : Prop where
  aligned : item.alignment = 0 ∨ item.alignment.isPowerOfTwo
  inside : item.fileSpan.fitsIn fileLength = true

def Section.isUsed (item : Section) : Bool := item.kind != SectionHeader.nullKind

structure Image.Lawful (image : Image) : Prop where
  tables_inside : ∀ table : Table, table.isPresent image = true →
    (table.span image).fitsIn image.fileLength = true
  tables_apart : ∀ a b : Table, a.isPresent image = true → b.isPresent image = true → a ≠ b →
    (a.span image).Apart (b.span image)
  segments_lawful : ∀ segment ∈ image.segments, segment.Lawful image.fileLength
  loads_apart : ∀ (i j : Nat) (a b : Segment), image.segments[i]? = some a →
    image.segments[j]? = some b → i ≠ j → a.isLoad = true → b.isLoad = true →
      a.memorySpan.overlaps b.memorySpan = false
  sections_lawful : ∀ item ∈ image.sections, item.isUsed = true → item.Lawful image.fileLength
  sections_off_tables : ∀ item ∈ image.sections, item.isUsed = true →
    ∀ table : Table, table.isPresent image = true → (table.span image).Apart item.fileSpan
  /-- Only with the section that holds the section names may a section share its place. -/
  sections_apart : ∀ (i j : Nat) (a b : Section), image.sections[i]? = some a →
    image.sections[j]? = some b → i ≠ j → a.isUsed = true → b.isUsed = true →
      image.nameTable ≠ some i → image.nameTable ≠ some j → a.fileSpan.Apart b.fileSpan
  interpreter_inside : ∀ span ∈ image.interpreter, span.fitsIn image.fileLength = true
  dynamic_inside : ∀ dynamic ∈ image.dynamic, dynamic.span.fitsIn image.fileLength = true
  strings_inside : ∀ dynamic ∈ image.dynamic, ∀ table ∈ dynamic.strings,
    table.span.fitsIn image.fileLength = true

namespace Image

variable {image : Image}

theorem table_regions_eq :
    image.tableRegions =
      (Table.all.filter fun table => table.isPresent image).map fun table =>
        table.region image := by
  cases noSegments : image.segments.isEmpty <;> cases noSections : image.sections.isEmpty <;>
    simp [tableRegions, Table.all, Table.isPresent, Table.region, Table.entity, Table.span,
      noSegments, noSections, List.filter]

theorem forall_table_iff {holds : Region → Prop} :
    (∀ region ∈ image.tableRegions, holds region) ↔
      ∀ table : Table, table.isPresent image = true → holds (table.region image) := by
  simp only [table_regions_eq, List.forall_mem_map, List.mem_filter, Table.mem_all, true_and]

theorem pairwise_table_iff {relation : Region → Region → Prop}
    (symmetric : ∀ {a b}, relation a b → relation b a) :
    image.tableRegions.Pairwise relation ↔
      ∀ a b : Table, a.isPresent image = true → b.isPresent image = true → a ≠ b →
        relation (a.region image) (b.region image) := by
  rw [table_regions_eq, List.pairwise_map, List.pairwise_filter]
  have swap : Std.Symm fun a b : Table => a.isPresent image = true → b.isPresent image = true →
      relation (a.region image) (b.region image) :=
    ⟨fun a b both presentB presentA => symmetric (both presentA presentB)⟩
  constructor
  · intro pairs a b presentA presentB different
    exact pairs.forall (Table.mem_all a) (Table.mem_all b) different presentA presentB
  · intro all
    apply List.Nodup.pairwise_of_forall_ne (by decide)
    intro a _ b _ different presentA presentB
    exact all a b presentA presentB different

theorem check_segment_eq_ok_iff (fileLength : Nat) (segment : Segment) (index : Nat) :
    checkSegment fileLength segment index = .ok () ↔ segment.Lawful fileLength := by
  simp only [checkSegment, check_bind_eq_ok_iff, checkInside, require_eq_ok_iff,
    isPowerOfTwoOrZero_iff, Bool.or_eq_true, decide_eq_true_eq, beq_iff_eq]
  constructor
  · rintro ⟨inside, aligned, congruent⟩
    exact ⟨inside, aligned, fun large => congruent.resolve_left (by omega)⟩
  · rintro ⟨inside, aligned, congruent⟩
    refine ⟨inside, aligned, ?_⟩
    by_cases large : 1 < segment.alignment
    · exact .inr (congruent large)
    · exact .inl (by omega)

theorem check_section_eq_ok_iff (fileLength : Nat) (item : Section) (index : Nat) :
    checkSection fileLength item index = .ok () ↔ item.Lawful fileLength := by
  simp only [checkSection, check_bind_eq_ok_iff, checkInside, require_eq_ok_iff,
    isPowerOfTwoOrZero_iff]
  constructor
  · rintro ⟨aligned, inside⟩
    exact ⟨aligned, inside⟩
  · rintro ⟨aligned, inside⟩
    exact ⟨aligned, inside⟩

theorem forall_numbered_iff {α : Type} (holds : α → Prop) (items : List α) :
    (∀ item ∈ items.zipIdx, holds item.1) ↔ ∀ item ∈ items, holds item := by
  simp only [List.forall_mem_iff_getElem, List.length_zipIdx, List.getElem_zipIdx]

theorem loads_disjoint_iff :
    checkDisjoint .addresses noExcuse ((image.segments.zipIdx.filter fun item =>
        item.1.isLoad).map fun item => ⟨segmentEntity item.1 item.2, item.1.memorySpan⟩) = .ok () ↔
      ∀ (i j : Nat) (a b : Segment), image.segments[i]? = some a →
        image.segments[j]? = some b → i ≠ j → a.isLoad = true → b.isLoad = true →
          a.memorySpan.overlaps b.memorySpan = false := by
  rw [check_disjoint_eq_ok_iff_apart, List.pairwise_map]
  apply pairwise_kept_iff_places
  intro a b apart
  rwa [Span.overlaps_comm]

theorem check_segments_eq_ok_iff :
    image.checkSegments = .ok () ↔
      (∀ segment ∈ image.segments, segment.Lawful image.fileLength) ∧
        ∀ (i j : Nat) (a b : Segment), image.segments[i]? = some a →
          image.segments[j]? = some b → i ≠ j → a.isLoad = true → b.isLoad = true →
            a.memorySpan.overlaps b.memorySpan = false := by
  rw [← loads_disjoint_iff, ← forall_numbered_iff (Segment.Lawful · image.fileLength)]
  simp only [checkSegments, check_bind_eq_ok_iff, forM_eq_ok_iff, check_segment_eq_ok_iff]

theorem forall_used_iff (holds : Section → Prop) :
    (∀ used ∈ image.usedSections, holds used.1) ↔
      ∀ item ∈ image.sections, item.isUsed = true → holds item := by
  rw [← forall_numbered_iff fun item => item.isUsed = true → holds item]
  simp only [usedSections, List.mem_filter, and_imp]
  rfl

/-- Two sections may overlap where one of them holds the section names. -/
theorem sections_disjoint_iff :
    checkDisjoint .sectionData (fun a b => image.isNameTable a || image.isNameTable b)
        image.sectionRegions = .ok () ↔
      ∀ (i j : Nat) (a b : Section), image.sections[i]? = some a →
        image.sections[j]? = some b → i ≠ j → a.isUsed = true → b.isUsed = true →
          image.nameTable ≠ some i → image.nameTable ≠ some j →
            a.fileSpan.overlaps b.fileSpan = false := by
  have byIndex : ∀ {a b : Section × Nat}, a ∈ image.usedSections → b ∈ image.usedSections →
      ((a.1.fileSpan.overlaps b.1.fileSpan = true →
        (image.isNameTable ⟨sectionEntity a.1 a.2, a.1.fileSpan⟩ ||
          image.isNameTable ⟨sectionEntity b.1 b.2, b.1.fileSpan⟩) = true) ↔
        (image.nameTable ≠ some a.2 → image.nameTable ≠ some b.2 →
          a.1.fileSpan.overlaps b.1.fileSpan = false)) := by
    intro a b usedA usedB
    rw [Bool.or_eq_true, is_name_table_section usedA, is_name_table_section usedB,
      ← Bool.not_eq_true]
    tauto
  rw [check_disjoint_eq_ok_iff_pairwise .sectionData fun a b => Bool.or_comm _ _, sectionRegions,
    List.pairwise_map, List.Pairwise.iff_of_mem byIndex]
  apply pairwise_kept_iff_places Section.isUsed
  intro a b apart holdsB holdsA
  rw [Span.overlaps_comm]
  exact apart holdsA holdsB

/-- No section may overlap a table. -/
theorem sections_off_tables_iff :
    checkDisjoint .sectionData (fun a b => !image.isTable a && !image.isTable b)
        (image.tableRegions ++ image.sectionRegions) = .ok () ↔
      (image.tableRegions.Pairwise fun a b => a.span.overlaps b.span = false) ∧
      ∀ item ∈ image.sections, item.isUsed = true → ∀ table : Table,
        table.isPresent image = true → (table.span image).overlaps item.fileSpan = false := by
  rw [check_disjoint_eq_ok_iff_pairwise .sectionData fun a b => Bool.and_comm _ _,
    List.pairwise_append]
  have tables : (image.tableRegions.Pairwise fun a b => a.span.overlaps b.span = true →
      (!image.isTable a && !image.isTable b) = true) ↔
        image.tableRegions.Pairwise fun a b => a.span.overlaps b.span = false := by
    apply List.Pairwise.iff_of_mem
    intro a b memberA memberB
    simp only [is_table_of_mem memberA, is_table_of_mem memberB, Bool.not_true, Bool.and_self,
      Bool.false_eq_true, imp_false, Bool.not_eq_true]
  have sections : image.sectionRegions.Pairwise fun a b => a.span.overlaps b.span = true →
      (!image.isTable a && !image.isTable b) = true := by
    rw [sectionRegions, List.pairwise_map]
    apply List.pairwise_of_forall
    intro a b _
    simp only [is_table_section, Bool.not_false, Bool.and_self]
  have crossing : (∀ table ∈ image.tableRegions, ∀ region ∈ image.sectionRegions,
      table.span.overlaps region.span = true →
        (!image.isTable table && !image.isTable region) = true) ↔
          ∀ used ∈ image.usedSections, ∀ table ∈ image.tableRegions,
            table.span.overlaps used.1.fileSpan = false := by
    constructor
    · intro clear used member table isTable
      have excuse := clear table isTable _ (List.mem_map_of_mem member)
      simpa only [is_table_of_mem isTable, Bool.not_true, Bool.false_and, Bool.false_eq_true,
        imp_false, Bool.not_eq_true] using excuse
    · intro clear table isTable region member shared
      obtain ⟨used, inUse, rfl⟩ := List.mem_map.mp member
      rw [clear used inUse table isTable] at shared
      cases shared
  rw [tables, crossing, forall_used_iff (fun item => ∀ table ∈ image.tableRegions,
    table.span.overlaps item.fileSpan = false)]
  simp only [sections, true_and, forall_table_iff, Table.region]

theorem forall_dynamic_region_iff (holds : Span → Prop) :
    (∀ region ∈ image.dynamicRegions, holds region.span) ↔
      (∀ span ∈ image.interpreter, holds span) ∧
      (∀ dynamic ∈ image.dynamic, holds dynamic.span) ∧
      ∀ dynamic ∈ image.dynamic, ∀ table ∈ dynamic.strings, holds table.span := by
  have dynamic : (∀ region ∈ image.dynamic.toList.flatMap fun dynamic =>
      (⟨.dynamicArray, dynamic.span⟩ : Region) ::
        dynamic.strings.toList.map fun table => ⟨.dynamicStrings, table.span⟩, holds region.span) ↔
      ∀ dynamic ∈ image.dynamic, holds dynamic.span ∧ ∀ table ∈ dynamic.strings,
        holds table.span := by
    simp only [List.forall_mem_flatMap, Option.mem_toList, List.forall_mem_cons,
      List.forall_mem_map, Option.mem_def]
  rw [dynamicRegions, List.forall_mem_append, List.forall_mem_map, dynamic]
  simp only [Option.mem_toList, Option.mem_def, forall_and]

/-- Parts that fit in the file end below the limit of offsets, where nothing is clipped. -/
theorem apart_iff_of_fits {fileLength : Nat} (addressable : fileLength < offsetLimit) {a b : Span}
    (insideA : a.fitsIn fileLength = true) (insideB : b.fitsIn fileLength = true) :
    a.overlaps b = false ↔ a.Apart b :=
  Span.overlaps_eq_false_iff_apart
    (Nat.lt_of_le_of_lt (Span.fitsIn_iff.mp insideA) addressable)
    (Nat.lt_of_le_of_lt (Span.fitsIn_iff.mp insideB) addressable)

theorem validate_eq_ok_iff_lawful (addressable : image.fileLength < offsetLimit) :
    image.validate = .ok () ↔ image.Lawful := by
  have symmetric : ∀ {a b : Region}, a.span.overlaps b.span = false →
      b.span.overlaps a.span = false := by
    intro a b apart
    rwa [Span.overlaps_comm]
  rw [validate_eq_ok_iff, check_disjoint_eq_ok_iff_apart, check_segments_eq_ok_iff,
    check_sections_eq_ok_iff, sections_disjoint_iff, sections_off_tables_iff,
    pairwise_table_iff symmetric, forall_table_iff,
    forall_dynamic_region_iff (Span.fitsIn · image.fileLength = true)]
  simp only [check_section_eq_ok_iff]
  rw [forall_used_iff (Section.Lawful · image.fileLength)]
  constructor
  · rintro ⟨inside, tables, ⟨segments, loads⟩, ⟨sections, apart, _, off⟩, interpreter, dynamic,
      strings⟩
    constructor
    case tables_inside => exact inside
    case tables_apart =>
      intro a b presentA presentB different
      exact (apart_iff_of_fits addressable (inside a presentA) (inside b presentB)).mp
        (tables a b presentA presentB different)
    case sections_off_tables =>
      intro item member used table present
      exact (apart_iff_of_fits addressable (inside table present)
        (sections item member used).inside).mp (off item member used table present)
    case sections_apart =>
      intro i j a b foundA foundB different usedA usedB otherA otherB
      exact (apart_iff_of_fits addressable
        (sections a (List.mem_of_getElem? foundA) usedA).inside
        (sections b (List.mem_of_getElem? foundB) usedB).inside).mp
        (apart i j a b foundA foundB different usedA usedB otherA otherB)
    all_goals assumption
  · intro lawful
    have tables : ∀ a b : Table, a.isPresent image = true → b.isPresent image = true → a ≠ b →
        (a.span image).overlaps (b.span image) = false := by
      intro a b presentA presentB different
      exact (apart_iff_of_fits addressable (lawful.tables_inside a presentA)
        (lawful.tables_inside b presentB)).mpr (lawful.tables_apart a b presentA presentB different)
    refine ⟨lawful.tables_inside, tables, ⟨lawful.segments_lawful, lawful.loads_apart⟩,
      ⟨lawful.sections_lawful, ?_, tables, ?_⟩, lawful.interpreter_inside, lawful.dynamic_inside,
      lawful.strings_inside⟩
    · intro i j a b foundA foundB different usedA usedB otherA otherB
      exact (apart_iff_of_fits addressable
        (lawful.sections_lawful a (List.mem_of_getElem? foundA) usedA).inside
        (lawful.sections_lawful b (List.mem_of_getElem? foundB) usedB).inside).mpr
        (lawful.sections_apart i j a b foundA foundB different usedA usedB otherA otherB)
    · intro item member used table present
      exact (apart_iff_of_fits addressable (lawful.tables_inside table present)
        (lawful.sections_lawful item member used).inside).mpr
        (lawful.sections_off_tables item member used table present)

section Sample

/-- A file whose interpreter section runs into the dynamic strings, with the section names at a
chosen index. The name of that section imitates the one it runs into. -/
def stretchedImage (names : Nat) : Image :=
  { Session.sampleImage with
    nameTable := some names
    sections := Session.sampleImage.sections.modify 1 fun item =>
      { item with size := 9, name := ") section #2 (" } }

theorem stretched_image_lawful :
    (stretchedImage 2).Lawful ∧ ¬ (stretchedImage 4).Lawful := by
  constructor
  · exact (validate_eq_ok_iff_lawful (by decide +kernel)).mp (by decide +kernel)
  · exact mt (validate_eq_ok_iff_lawful (by decide +kernel)).mpr (by decide +kernel)

end Sample

end Image

end BinaryImage.Elf
