import BinaryImage.Proofs.Pe.ImportPlaces
import BinaryImage.Proofs.Pe.LayoutRules

/-!
The mapping of addresses to places of the file. In an image that follows the layout rules no two
sections hold an address, and no two have raw data at a place. So each address that the raw data of
its section reaches is mapped to a place of its own, behind the headers.
-/

namespace BinaryImage.Pe

namespace Section

theorem holds_iff_covers {item : Section} {rva : Nat} :
    item.holds rva = true ↔ item.memorySpan.Covers rva := by
  simp only [holds, memorySpan, Span.Covers, Bool.and_eq_true, decide_eq_true_eq]

/-- A section without a raw offset has no raw data. -/
theorem raw_span_covers_iff {item : Section} {place : Nat} :
    item.rawSpan.Covers place ↔
      item.rawOffset ≠ 0 ∧ item.rawOffset ≤ place ∧ place < item.rawOffset + item.rawSize := by
  unfold rawSpan
  by_cases absent : item.rawOffset = 0
  · simp [Span.Covers, absent]
  · simp [Span.Covers, absent]

end Section

namespace Image

/-- The section at an index holds the address, and it alone has the place in its raw data. -/
structure Backed (image : Image) (rva place index : Nat) (item : Section) : Prop where
  found : image.sections[index]? = some item
  holds : item.holds rva = true
  backed : item.rawSpan.Covers place
  alone : ∀ (other : Nat) (rival : Section), image.sections[other]? = some rival →
    rival.rawSpan.Covers place → other = index

section Mapping

variable {data : Bytes} {image : Image} (parsed : parse data = .ok image)
  (valid : image.validate = .ok ())
include parsed valid

/-- No address is in the memory of two sections. -/
theorem memory_apart_of_valid :
    image.sections.Pairwise fun a b => a.memorySpan.Apart b.memorySpan := by
  obtain ⟨_, _, _, _, _, _, memory⟩ := validate_eq_ok_iff.mp valid
  have ranged := ranged_of_parse parsed
  refine (memory_regions_apart_iff.mp memory).imp_of_mem fun {a b} memberA memberB apart => ?_
  exact (Span.overlaps_eq_false_iff_apart (ranged a memberA).memory_fits
    (ranged b memberB).memory_fits).mp apart

theorem raw_data_unique {i j place : Nat} {a b : Section} (foundA : image.sections[i]? = some a)
    (foundB : image.sections[j]? = some b) (inA : a.rawSpan.Covers place)
    (inB : b.rawSpan.Covers place) : i = j := by
  obtain ⟨_, _, _, _, _, raw, _⟩ := validate_eq_ok_iff.mp valid
  have fits : ∀ item ∈ image.sections,
      item.rawSpan.start + item.rawSpan.length < offsetLimit :=
    fun item member => (ranged_of_parse parsed item member).raw_fits
  by_contra different
  exact (sections_apart_iff fits).mp (raw_regions_apart_iff.mp raw).2 i j a b foundA foundB
    different place ⟨inA, inB⟩

/-- Raw data begins behind the section table, and ends in the file. -/
theorem raw_data_placed {item : Section} (member : item ∈ image.sections) {place : Nat}
    (inside : item.rawSpan.Covers place) :
    image.headers.sectionTableOffset + image.sections.length * Section.recordSize ≤ place ∧
      place < image.fileLength := by
  obtain ⟨_, _, _, _, sections, _⟩ := validate_eq_ok_iff.mp valid
  have lawful := (check_section_eq_ok_iff item).mp (sections item member)
  exact ⟨headers_before_raw_data parsed valid member inside,
    Nat.lt_of_lt_of_le inside.2 (Span.fitsIn_iff.mp lawful.inside)⟩

theorem holders_of_valid (rva : Nat) :
    (image.sections.filter fun item => item.holds rva) = [] ∨
      ∃ item, (image.sections.filter fun item => item.holds rva) = [item] := by
  have apart := (memory_apart_of_valid parsed valid).filter fun item => item.holds rva
  have holds : ∀ item ∈ image.sections.filter fun item => item.holds rva,
      item.memorySpan.Covers rva :=
    fun item member => Section.holds_iff_covers.mp (List.mem_filter.mp member).2
  generalize (image.sections.filter fun item => item.holds rva) = holders at apart holds
  rcases holders with _ | ⟨first, _ | ⟨second, rest⟩⟩
  · exact .inl rfl
  · exact .inr ⟨first, rfl⟩
  · have clear := (List.pairwise_cons.mp apart).1 second List.mem_cons_self
    exact absurd ⟨holds first (by simp), holds second (by simp)⟩ (clear rva)

/-- An address is mapped exactly where the raw data of a section that holds it reaches that far. -/
theorem file_offset_of_valid_iff {rva place : Nat} :
    fileOffset image.sections rva = .ok place ↔
      ∃ item ∈ image.sections, item.holds rva = true ∧ item.rawSpan.Covers place ∧
        place + item.virtualAddress = item.rawOffset + rva := by
  constructor
  · intro located
    obtain ⟨item, only, backed, start⟩ := found_of_file_offset located
    have member : item ∈ image.sections.filter fun item => item.holds rva := by
      rw [only]
      exact List.mem_singleton_self item
    obtain ⟨inside, holds⟩ := List.mem_filter.mp member
    exact ⟨item, inside, holds, backed, start⟩
  · rintro ⟨item, member, holds, backed, start⟩
    have held : item ∈ image.sections.filter fun item => item.holds rva :=
      List.mem_filter.mpr ⟨member, holds⟩
    obtain ⟨placed, above, below⟩ := Section.raw_span_covers_iff.mp backed
    have least := (Section.holds_iff_covers.mp holds).1
    simp only [Section.memorySpan] at least
    rcases holders_of_valid parsed valid rva with none | ⟨only, single⟩
    · rw [none] at held
      cases held
    · rw [single, List.mem_singleton] at held
      rw [← held] at single
      refine file_offset_eq_ok_iff.mpr ⟨item, single, Section.file_offset_eq_ok_iff.mpr ?_⟩
      exact ⟨by omega, placed, by omega⟩

/-- One place is in one section only, and there it tells the address. -/
theorem address_of_place {rva other place : Nat}
    (located : fileOffset image.sections rva = .ok place)
    (locatedOther : fileOffset image.sections other = .ok place) : rva = other := by
  obtain ⟨a, memberA, _, backedA, startA⟩ := (file_offset_of_valid_iff parsed valid).mp located
  obtain ⟨b, memberB, _, backedB, startB⟩ :=
    (file_offset_of_valid_iff parsed valid).mp locatedOther
  obtain ⟨i, foundA⟩ := List.mem_iff_getElem?.mp memberA
  obtain ⟨j, foundB⟩ := List.mem_iff_getElem?.mp memberB
  cases raw_data_unique parsed valid foundA foundB backedA backedB
  cases foundA.symm.trans foundB
  omega

theorem unambiguous_of_valid {rva offset other : Nat} {first second : String} :
    fileOffset image.sections rva ≠
      .error (.malformedPe offset (.ambiguousRva other first second)) := by
  intro refused
  unfold fileOffset at refused
  rcases holders_of_valid parsed valid rva with none | ⟨only, single⟩
  · rw [none] at refused
    cases refused
  · rw [single] at refused
    simp only [Section.fileOffset] at refused
    unfold require at refused
    split at refused
    · cases refused
    · cases refused

/-- Addresses are mapped to places of their own, each into the raw data of the one section that
holds it, and none is refused because two sections hold it. -/
theorem addresses_mapped_apart :
    (∀ rva place, fileOffset image.sections rva = .ok place ↔
      ∃ item ∈ image.sections, item.holds rva = true ∧ item.rawSpan.Covers place ∧
        place + item.virtualAddress = item.rawOffset + rva) ∧
    (∀ rva place, fileOffset image.sections rva = .ok place →
      (∃ index item, image.Backed rva place index item) ∧ place < image.fileLength ∧
        image.headers.sectionTableOffset + image.sections.length * Section.recordSize ≤ place) ∧
    (∀ rva other place otherPlace, fileOffset image.sections rva = .ok place →
      fileOffset image.sections other = .ok otherPlace → rva ≠ other → place ≠ otherPlace) ∧
    ∀ rva offset other first second, fileOffset image.sections rva ≠
      .error (.malformedPe offset (.ambiguousRva other first second)) := by
  have mapped := @file_offset_of_valid_iff data image parsed valid
  refine ⟨fun rva place => mapped, ?_, ?_, ?_⟩
  · intro rva place located
    obtain ⟨item, member, holds, backed, _⟩ := mapped.mp located
    obtain ⟨index, found⟩ := List.mem_iff_getElem?.mp member
    obtain ⟨behind, inside⟩ := raw_data_placed parsed valid member backed
    refine ⟨⟨index, item, found, holds, backed, ?_⟩, inside, behind⟩
    intro other rival foundRival inRival
    exact raw_data_unique parsed valid foundRival found inRival backed
  · rintro rva other place _ located locatedOther different rfl
    exact different (address_of_place parsed valid located locatedOther)
  · intro rva offset other first second
    exact unambiguous_of_valid parsed valid

end Mapping

section Sample

open Session

-- The last byte of one section and the first of the next one stand side by side in the file.
theorem addresses_mapped_apart_adjoining :
    parse adjoiningFile = .ok adjoiningImage ∧ adjoiningImage.validate = .ok () ∧
      fileOffset adjoiningImage.sections 0x1043 = .ok 347 ∧
      fileOffset adjoiningImage.sections 0x2000 = .ok 348 ∧
      (∃ item ∈ adjoiningImage.sections, item.holds 0x1043 = true ∧ item.rawSpan.Covers 347 ∧
        347 + item.virtualAddress = item.rawOffset + 0x1043) ∧
      (∃ index item, adjoiningImage.Backed 0x2000 348 index item) ∧
      ((0x1043 : Nat) ≠ 0x2000 ∧ (347 : Nat) ≠ 348) ∧
      ∀ offset other first second, fileOffset adjoiningImage.sections 0x1044 ≠
        .error (.malformedPe offset (.ambiguousRva other first second)) := by
  have parsed : parse adjoiningFile = .ok adjoiningImage := by decide +kernel
  have valid : adjoiningImage.validate = .ok () := by decide +kernel
  have last : fileOffset adjoiningImage.sections 0x1043 = .ok 347 := by decide +kernel
  have first : fileOffset adjoiningImage.sections 0x2000 = .ok 348 := by decide +kernel
  obtain ⟨mapped, placed, injective, clear⟩ := addresses_mapped_apart parsed valid
  have different : (0x1043 : Nat) ≠ 0x2000 := by decide
  exact ⟨parsed, valid, last, first, (mapped _ _).mp last, (placed _ _ first).1,
    ⟨different, injective _ _ _ _ last first different⟩, clear 0x1044⟩

end Sample

end Image

end BinaryImage.Pe
