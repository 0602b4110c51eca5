import BinaryImage.Elf.Layout
import BinaryImage.Proofs.Elf.Tables
import BinaryImage.Proofs.Machine.Sweep

/-!
Layout rules of ELF files on a machine. The sizes of the tables are products of counts, which are
small where the tables were read from a file; alignments of zero and one are never divided by.
-/

namespace BinaryImage.Elf.Machine

open BinaryImage.Machine Layout

def tableRegion (entity : Entity) (start count size : Nat) : Machine Error (List Region) :=
  if count = 0 then return []
  else do
    let length ← mul count size
    return [⟨entity, ⟨start, length⟩⟩]

def tableRegions (image : Image) : Machine Error (List Region) := do
  let fileClass := image.header.fileClass
  let segments ← tableRegion .programHeaders image.header.programHeaderOffset
    image.segments.length fileClass.programHeaderSize
  let sections ← tableRegion .sectionHeaders image.header.sectionHeaderOffset
    image.sections.length fileClass.sectionHeaderSize
  return ⟨.elfHeader, ⟨0, fileClass.fileHeaderSize⟩⟩ :: segments ++ sections

def checkSegment (fileLength : Nat) (segment : Segment) (index : Nat) : Machine Error Unit := do
  let entity := Image.segmentEntity segment index
  plain (checkInside fileLength ⟨entity, segment.fileSpan⟩)
  plain (require (isPowerOfTwoOrZero segment.alignment)
    (.violation entity segment.offset (.notPowerOfTwo .segment segment.alignment)))
  if 1 < segment.alignment then
    let offset ← rem segment.offset segment.alignment
    let address ← rem segment.address segment.alignment
    plain (require (offset == address) (.violation entity segment.offset
      (.incongruent segment.offset segment.address segment.alignment)))

def checkSegments (image : Image) : Machine Error Unit := do
  let numbered := image.segments.zipIdx
  numbered.forM fun (segment, index) => checkSegment image.fileLength segment index
  let loads := numbered.filter fun (segment, _) => segment.isLoad
  checkRegions .addresses noExcuse
    (loads.map fun (segment, index) => ⟨Image.segmentEntity segment index, segment.memorySpan⟩)

def checkSections (image : Image) (tables : List Region) : Machine Error Unit := do
  image.usedSections.forM fun (item, index) =>
    plain (Image.checkSection image.fileLength item index)
  let regions := image.sectionRegions
  checkRegions .sectionData (fun a b => image.isNameTable a || image.isNameTable b) regions
  checkRegions .sectionData (fun a b => !image.isTable a && !image.isTable b) (tables ++ regions)

def validate (image : Image) : Machine Error Unit := do
  let tables ← tableRegions image
  tables.forM fun table => plain (checkInside image.fileLength table)
  checkRegions .tables noExcuse tables
  checkSegments image
  checkSections image tables
  image.dynamicRegions.forM fun region => plain (checkInside image.fileLength region)

variable {image : Image}

structure TablesFit (image : Image) : Prop where
  segments : image.segments.length * image.header.fileClass.programHeaderSize < offsetLimit
  sections : image.sections.length * image.header.fileClass.sectionHeaderSize < offsetLimit

theorem fits_of_read_table {α : Type} {part : Part} {reader : Reader α} {data : Bytes}
    {start count size : Nat} {records : List α}
    (read : readTable part reader data start count size = .ok records) :
    records.length * size < offsetLimit := by
  have counted := length_of_read_table read
  obtain ⟨span, tabled, _⟩ := bind_eq_ok_iff.mp read
  rw [counted]
  exact (table_span_eq_ok_iff.mp tabled).1

theorem tables_fit_of_parse {data : Bytes} (parsed : Image.parse data = .ok image) :
    TablesFit image := by
  rcases Image.parse_eq_ok_iff.mp parsed with
    ⟨first?, headers, _, _, headersRead, segmentsRead, _, named, _⟩
  have counted : image.sections.length = headers.length := by
    rw [← Image.headers_of_name_sections named, List.length_map]
  have none : ∀ size, ([] : List Segment).length * size < offsetLimit := by
    intro size
    rw [List.length_nil, Nat.zero_mul]
    decide
  constructor
  case segments =>
    unfold Image.programHeaders at segmentsRead
    split at segmentsRead
    · rw [← Except.ok.inj segmentsRead]
      exact none _
    · exact fits_of_read_table segmentsRead
  case sections =>
    rw [counted]
    cases first? with
    | none =>
      obtain ⟨_, _, same⟩ := bind_eq_ok_iff.mp headersRead
      cases same
      exact none _
    | some first => exact fits_of_read_table headersRead

/-- Their entries are fewer than there are offsets, with some to spare. -/
theorem TablesFit.few (fit : TablesFit image) :
    image.segments.length < offsetLimit ∧ image.sections.length + 3 < offsetLimit := by
  have segments : image.segments.length * 32 < offsetLimit :=
    Nat.lt_of_le_of_lt (Nat.mul_le_mul_left _ (by cases image.header.fileClass <;> decide))
      fit.segments
  have sections : image.sections.length * 40 < offsetLimit :=
    Nat.lt_of_le_of_lt (Nat.mul_le_mul_left _ (by cases image.header.fileClass <;> decide))
      fit.sections
  unfold offsetLimit at *
  omega

theorem gives_table_region {entity : Entity} {start count size : Nat}
    (small : count * size < offsetLimit) :
    Gives (tableRegion entity start count size)
      (.ok (if count = 0 then [] else [⟨entity, ⟨start, count * size⟩⟩])) := by
  unfold tableRegion
  split
  · exact gives_pure []
  · exact gives_ok_bind (gives_mul small) (gives_pure _)

theorem gives_table_regions (fit : TablesFit image) :
    Gives (tableRegions image) (.ok image.tableRegions) := by
  apply gives_ok_bind (gives_table_region fit.segments)
  apply gives_ok_bind (gives_table_region fit.sections)
  simp only [Image.tableRegions, List.isEmpty_iff_length_eq_zero]
  exact gives_pure _

theorem length_table_regions_le (image : Image) : image.tableRegions.length ≤ 3 := by
  simp only [Image.tableRegions, List.length_append, List.length_cons]
  split <;> split <;> simp only [List.length_cons, List.length_nil] <;> omega

theorem length_section_regions_le (image : Image) :
    image.sectionRegions.length ≤ image.sections.length := by
  rw [Image.sectionRegions, List.length_map]
  refine Nat.le_trans (List.length_filter_le _ _) (Nat.le_of_eq ?_)
  exact List.length_zipIdx

theorem gives_check_segment (fileLength : Nat) (segment : Segment) (index : Nat) :
    Gives (checkSegment fileLength segment index)
      (Image.checkSegment fileLength segment index) := by
  unfold checkSegment Image.checkSegment
  apply gives_bind (gives_plain _)
  intro _ _
  apply gives_bind (gives_plain _)
  intro _ _
  by_cases large : 1 < segment.alignment
  · have nonzero := Nat.ne_zero_of_lt large
    rw [if_pos large, decide_eq_false (Nat.not_le.mpr large), Bool.false_or]
    apply gives_ok_bind (gives_rem nonzero)
    apply gives_ok_bind (gives_rem nonzero)
    exact gives_plain _
  · rw [if_neg large, decide_eq_true (Nat.not_lt.mp large), Bool.true_or]
    exact gives_pure ()

theorem gives_check_segments (fit : TablesFit image) :
    Gives (checkSegments image) image.checkSegments := by
  apply gives_bind (gives_forM fun entry _ => gives_check_segment _ _ _)
  intro _ _
  refine gives_check_regions _ _ ?_
  rw [List.length_map]
  refine Nat.lt_of_le_of_lt (List.length_filter_le _ _) ?_
  rw [List.length_zipIdx]
  exact fit.few.1

theorem gives_check_sections (fit : TablesFit image) :
    Gives (checkSections image image.tableRegions) image.checkSections := by
  have few := fit.few.2
  have regions := length_section_regions_le image
  have tables := length_table_regions_le image
  apply gives_bind (gives_forM fun entry _ => gives_plain _)
  intro _ _
  apply gives_bind (gives_check_regions _ _ (by omega))
  intro _ _
  refine gives_check_regions _ _ ?_
  rw [List.length_append]
  omega

theorem gives_validate (fit : TablesFit image) : Gives (validate image) image.validate := by
  unfold validate Image.validate
  apply gives_ok_bind (gives_table_regions fit)
  apply gives_bind (gives_forM fun table _ => gives_plain _)
  intro _ _
  refine gives_bind (gives_check_regions _ _ ?_) fun _ _ => ?_
  · exact Nat.lt_of_le_of_lt (length_table_regions_le image) (by decide)
  · apply gives_bind (gives_check_segments fit)
    intro _ _
    apply gives_bind (gives_check_sections fit)
    intro _ _
    exact gives_forM fun region _ => gives_plain _

end BinaryImage.Elf.Machine
