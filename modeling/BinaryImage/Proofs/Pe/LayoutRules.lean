import BinaryImage.Proofs.Machine.Pe.Layout
import BinaryImage.Proofs.Overlap
import BinaryImage.Proofs.Pe.FieldRanges

/-!
The layout rules of PE images, stated without sorting and sweeping: the validator accepts an image
that was read exactly when they hold.
-/

namespace BinaryImage.Pe

open Layout

structure Section.Lawful (item : Section) (alignment fileLength : Nat) : Prop where
  aligned : alignment ∣ item.virtualAddress
  inside : item.rawSpan.fitsIn fileLength = true

structure Image.Lawful (image : Image) : Prop where
  section_alignment : image.headers.optional.sectionAlignment.isPowerOfTwo
  file_alignment : image.headers.optional.fileAlignment.isPowerOfTwo
  headers_inside : image.headers.sectionTableOffset +
    image.sections.length * Section.recordSize ≤ image.fileLength
  declared_inside : image.headers.optional.headersSize ≤ image.fileLength
  sections_lawful : ∀ item ∈ image.sections,
    item.Lawful image.headers.optional.sectionAlignment image.fileLength
  raw_off_headers : ∀ item ∈ image.sections, image.headersSpan.Apart item.rawSpan
  raw_apart : ∀ (i j : Nat) (a b : Section), image.sections[i]? = some a →
    image.sections[j]? = some b → i ≠ j → a.rawSpan.Apart b.rawSpan
  memory_apart : ∀ (i j : Nat) (a b : Section), image.sections[i]? = some a →
    image.sections[j]? = some b → i ≠ j → a.memorySpan.Apart b.memorySpan

/-- As with raw data, the memory of a section is not clipped. -/
theorem Section.Ranged.memory_fits {item : Section} (ranged : item.Ranged) :
    item.memorySpan.start + item.memorySpan.length < offsetLimit := by
  have address := ranged.virtualAddress
  have size := ranged.memory_size
  unfold wordLimit at address size
  simp only [Section.memorySpan, offsetLimit]
  omega

namespace Image

variable {data : Bytes} {image : Image}

theorem check_section_eq_ok_iff (item : Section) :
    image.checkSection item = .ok () ↔
      item.Lawful image.headers.optional.sectionAlignment image.fileLength := by
  simp only [checkSection, checkInside, check_bind_eq_ok_iff, require_eq_ok_iff, beq_iff_eq]
  constructor
  · rintro ⟨aligned, inside⟩
    exact ⟨Nat.dvd_of_mod_eq_zero aligned, inside⟩
  · rintro ⟨aligned, inside⟩
    exact ⟨Nat.mod_eq_zero_of_dvd aligned, inside⟩

/-- Spans of sections, compared as the sorted sweep does, and place by place. -/
theorem sections_apart_iff {spanOf : Section → Span} (fits : ∀ item ∈ image.sections,
      (spanOf item).start + (spanOf item).length < offsetLimit) :
    (image.sections.Pairwise fun a b => (spanOf a).overlaps (spanOf b) = false) ↔
      ∀ (i j : Nat) (a b : Section), image.sections[i]? = some a → image.sections[j]? = some b →
        i ≠ j → (spanOf a).Apart (spanOf b) := by
  rw [pairwise_iff_places (fun {a b} apart => by rwa [Span.overlaps_comm])]
  refine forall₄_congr fun i j a b => forall₃_congr fun foundA foundB _ => ?_
  exact Span.overlaps_eq_false_iff_apart (fits a (List.mem_of_getElem? foundA))
    (fits b (List.mem_of_getElem? foundB))

theorem raw_regions_apart_iff :
    checkDisjoint .rawData noExcuse image.rawRegions = .ok () ↔
      (∀ item ∈ image.sections, image.headersSpan.overlaps item.rawSpan = false) ∧
        image.sections.Pairwise fun a b => a.rawSpan.overlaps b.rawSpan = false := by
  rw [check_disjoint_eq_ok_iff_apart, rawRegions, List.pairwise_cons, List.forall_mem_map,
    List.pairwise_map]

theorem memory_regions_apart_iff :
    checkDisjoint .addresses noExcuse image.memoryRegions = .ok () ↔
      image.sections.Pairwise fun a b => a.memorySpan.overlaps b.memorySpan = false := by
  rw [check_disjoint_eq_ok_iff_apart, memoryRegions, List.pairwise_map]

/-- The validator decides the rules, and no step of it faults: in particular it never divides by an
alignment of zero. -/
theorem valid_iff_lawful_of_parse (addressable : data.length < offsetLimit)
    (parsed : parse data = .ok image) :
    (image.validate = .ok () ↔ image.Lawful) ∧
      BinaryImage.Machine.Gives (Machine.validate image) image.validate := by
  have length : image.fileLength = data.length := (fresh_of_parse parsed).2
  have headers := Nat.lt_of_le_of_lt (Machine.headers_span_le_of_parse parsed) addressable
  have ranged := ranged_of_parse parsed
  refine ⟨?_, Machine.gives_validate headers⟩
  have fits : ∀ span : Span, span.fitsIn image.fileLength = true →
      span.start + span.length < offsetLimit := by
    intro span inside
    rw [length, Span.fitsIn_iff] at inside
    exact Nat.lt_of_le_of_lt inside addressable
  have memoryFits : ∀ item ∈ image.sections,
      item.memorySpan.start + item.memorySpan.length < offsetLimit :=
    fun item member => (ranged item member).memory_fits
  have within : image.headersSpan.fitsIn image.fileLength = true ↔
      image.headers.sectionTableOffset + image.sections.length * Section.recordSize ≤
        image.fileLength := by
    rw [Span.fitsIn_iff, headersSpan, Nat.zero_add]
  rw [validate_eq_ok_iff, raw_regions_apart_iff, memory_regions_apart_iff,
    sections_apart_iff memoryFits]
  simp only [checkAlignment, require_eq_ok_iff, isPowerOfTwo_iff, check_section_eq_ok_iff]
  constructor
  · rintro ⟨sectionAlignment, fileAlignment, inside, declared, sections, ⟨off, raw⟩, memory⟩
    have rawFits : ∀ item ∈ image.sections,
        item.rawSpan.start + item.rawSpan.length < offsetLimit :=
      fun item member => fits _ (sections item member).inside
    have rawApart := (sections_apart_iff rawFits).mp raw
    constructor
    case headers_inside => exact within.mp inside
    case declared_inside =>
      rw [Span.fitsIn_iff, Nat.zero_add] at declared
      exact declared
    case raw_off_headers =>
      intro item member
      exact (Span.overlaps_eq_false_iff_apart (fits _ inside) (rawFits item member)).mp
        (off item member)
    all_goals assumption
  · intro lawful
    have rawFits : ∀ item ∈ image.sections,
        item.rawSpan.start + item.rawSpan.length < offsetLimit :=
      fun item member => fits _ (lawful.sections_lawful item member).inside
    have declared :
        Span.fitsIn ⟨0, image.headers.optional.headersSize⟩ image.fileLength = true := by
      rw [Span.fitsIn_iff, Nat.zero_add]
      exact lawful.declared_inside
    refine ⟨lawful.section_alignment, lawful.file_alignment, within.mpr lawful.headers_inside,
      declared, lawful.sections_lawful, ⟨?_, (sections_apart_iff rawFits).mpr lawful.raw_apart⟩,
      lawful.memory_apart⟩
    intro item member
    exact (Span.overlaps_eq_false_iff_apart (fits _ (within.mpr lawful.headers_inside))
      (rawFits item member)).mpr (lawful.raw_off_headers item member)

section Sample

open Session

def unalignedFile : Bytes := Bytes.splice importingFile 120 (littleWords [0])

def unalignedImage : Image := (parse unalignedFile).toOption.get (by decide +kernel)

theorem importing_image_lawful :
    importingImage.Lawful ∧ ¬ unalignedImage.Lawful ∧
      BinaryImage.Machine.Gives (Machine.validate unalignedImage)
        (.error (.violation .optionalHeader 88 (.notPowerOfTwo .sections 0))) := by
  have unaligned : unalignedImage.validate =
      .error (.violation .optionalHeader 88 (.notPowerOfTwo .sections 0)) := by
    decide +kernel
  obtain ⟨lawful, _⟩ := valid_iff_lawful_of_parse importing_addressable
    (show parse importingFile = .ok importingImage by decide +kernel)
  obtain ⟨unlawful, runs⟩ := valid_iff_lawful_of_parse (by decide +kernel)
    (show parse unalignedFile = .ok unalignedImage by decide +kernel)
  refine ⟨lawful.mp (by decide +kernel), mt unlawful.mpr ?_, unaligned ▸ runs⟩
  rw [unaligned]
  exact nofun

end Sample

end Image

end BinaryImage.Pe
