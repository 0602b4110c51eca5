import BinaryImage.Elf.Layout
import BinaryImage.Proofs.Elf.Tables
import BinaryImage.Proofs.EntityNames
import BinaryImage.Proofs.Overlap

/-!
Where the parts of an ELF file that commands edit are sections of their own, the layout rules keep
them apart from each other and from all that is read to find them.
-/

namespace BinaryImage.Elf.Image

open Layout

/-- The span is that of a section in use, which is not the one with the section names. -/
def OwnedBy (image : Image) (span : Span) (index : Nat) : Prop :=
  image.nameTable ≠ some index ∧
    ∃ item, image.sections[index]? = some item ∧ item.kind ≠ SectionHeader.nullKind ∧
      item.fileSpan = span

instance (image : Image) (span : Span) (index : Nat) : Decidable (image.OwnedBy span index) :=
  decidable_of_iff
    (image.nameTable ≠ some index ∧ ∃ item ∈ image.sections[index]?,
      item.kind ≠ SectionHeader.nullKind ∧ item.fileSpan = span) Iff.rfl

/-- What commands edit are sections of their own, and none of the section names lie there. -/
structure Separated (image : Image) : Prop where
  owned : ∃ owner : Entity → Nat,
    (∀ region ∈ image.dynamicRegions, image.OwnedBy region.span (owner region.entity)) ∧
      image.dynamicRegions.Pairwise fun a b => owner a.entity ≠ owner b.entity
  unnamed : ∀ index item, image.nameTable = some index → image.sections[index]? = some item →
    ∀ region ∈ image.dynamicRegions, item.fileSpan.overlaps region.span = false

variable {image : Image}

theorem validate_eq_ok_iff :
    image.validate = .ok () ↔
      (∀ region ∈ image.tableRegions, region.span.fitsIn image.fileLength = true) ∧
        checkDisjoint .tables noExcuse image.tableRegions = .ok () ∧
        image.checkSegments = .ok () ∧ image.checkSections = .ok () ∧
        ∀ region ∈ image.dynamicRegions, region.span.fitsIn image.fileLength = true := by
  simp only [validate, check_bind_eq_ok_iff, forM_eq_ok_iff, checkInside, require_eq_ok_iff]

theorem check_sections_eq_ok_iff :
    image.checkSections = .ok () ↔
      (∀ used ∈ image.usedSections, checkSection image.fileLength used.1 used.2 = .ok ()) ∧
        checkDisjoint .sectionData (fun a b => image.isNameTable a || image.isNameTable b)
          image.sectionRegions = .ok () ∧
        checkDisjoint .sectionData (fun a b => !image.isTable a && !image.isTable b)
          (image.tableRegions ++ image.sectionRegions) = .ok () := by
  simp only [checkSections, check_bind_eq_ok_iff, forM_eq_ok_iff]

theorem used_section_mem {item : Section} {index : Nat}
    (found : image.sections[index]? = some item) (used : item.kind ≠ SectionHeader.nullKind) :
    (item, index) ∈ image.usedSections := by
  apply List.mem_filter.mpr
  exact ⟨List.mk_mem_zipIdx_iff_getElem?.mpr found, by simpa using used⟩

theorem section_region_mem {item : Section} {index : Nat}
    (used : (item, index) ∈ image.usedSections) :
    ⟨sectionEntity item index, item.fileSpan⟩ ∈ image.sectionRegions :=
  List.mem_map.mpr ⟨(item, index), used, rfl⟩

theorem is_table_of_mem {region : Region} (member : region ∈ image.tableRegions) :
    image.isTable region = true :=
  List.any_eq_true.mpr ⟨region, member, beq_self_eq_true _⟩

theorem is_table_section (item : Section) (index : Nat) (span : Span) :
    image.isTable ⟨sectionEntity item index, span⟩ = false := by
  have named : ∀ table ∈ image.tableRegions, table.entity ∈
      [Entity.elfHeader, .programHeaders, .sectionHeaders] := by
    unfold tableRegions
    grind
  apply List.any_eq_false.mpr
  intro table member same
  refine Entity.section_name_ne ?_ (beq_iff_eq.mp same).symm
  have kinds := named table member
  simp only [List.mem_cons, List.not_mem_nil, or_false] at kinds
  rcases kinds with kind | kind | kind
  all_goals
    rw [kind]
    decide

/-- Names being distinct, the excuse made by name is one made by index. -/
theorem is_name_table_section {item : Section} {index : Nat}
    (used : (item, index) ∈ image.usedSections) (span : Span) :
    image.isNameTable ⟨sectionEntity item index, span⟩ = true ↔ image.nameTable = some index := by
  constructor
  · intro excuse
    obtain ⟨⟨other, place⟩, _, holds⟩ := List.any_eq_true.mp excuse
    obtain ⟨table, same⟩ := Bool.and_eq_true_iff.mp holds
    rw [Entity.index_of_section_name (beq_iff_eq.mp same)] at table
    exact beq_iff_eq.mp table
  · intro table
    refine List.any_eq_true.mpr ⟨(item, index), used, ?_⟩
    simp only [table, beq_self_eq_true, Bool.and_self]

theorem owned_apart (valid : image.validate = .ok ()) {a b : Span} {i j : Nat}
    (ownedA : image.OwnedBy a i) (ownedB : image.OwnedBy b j) (different : i ≠ j) :
    a.overlaps b = false := by
  obtain ⟨_, _, _, sectionsValid, _⟩ := validate_eq_ok_iff.mp valid
  obtain ⟨_, apart, _⟩ := check_sections_eq_ok_iff.mp sectionsValid
  rcases ownedA with ⟨otherA, itemA, foundA, filledA, rfl⟩
  rcases ownedB with ⟨otherB, itemB, foundB, filledB, rfl⟩
  have usedA := used_section_mem foundA filledA
  have usedB := used_section_mem foundB filledB
  apply Bool.eq_false_iff.mpr
  intro shared
  have excuse := excused_of_check_disjoint (fun a b => Bool.or_comm _ _) apart
    (section_region_mem usedA) (section_region_mem usedB)
    (by simp [sectionEntity, different]) shared
  rcases Bool.or_eq_true_iff.mp excuse with excuseA | excuseB
  · exact otherA ((is_name_table_section usedA _).mp excuseA)
  · exact otherB ((is_name_table_section usedB _).mp excuseB)

theorem table_apart_of_owned (valid : image.validate = .ok ()) {span : Span} {index : Nat}
    (owned : image.OwnedBy span index) {table : Region} (member : table ∈ image.tableRegions) :
    table.span.overlaps span = false := by
  obtain ⟨_, _, _, sectionsValid, _⟩ := validate_eq_ok_iff.mp valid
  obtain ⟨_, _, apart⟩ := check_sections_eq_ok_iff.mp sectionsValid
  rcases owned with ⟨_, item, found, filled, rfl⟩
  have isTable := is_table_of_mem member
  apply Bool.eq_false_iff.mpr
  intro shared
  have different : table ≠ ⟨sectionEntity item index, item.fileSpan⟩ := by
    intro same
    rw [same, is_table_section] at isTable
    cases isTable
  have excuse := excused_of_check_disjoint (fun a b => Bool.and_comm _ _) apart
    (List.mem_append_left _ member)
    (List.mem_append_right _ (section_region_mem (used_section_mem found filled))) different shared
  simp [isTable] at excuse

namespace Separated

theorem regions_apart (separated : image.Separated) (valid : image.validate = .ok ()) :
    image.dynamicRegions.Pairwise fun a b => a.span.overlaps b.span = false := by
  rcases separated.owned with ⟨owner, owned, distinct⟩
  apply distinct.imp_of_mem
  intro a b memberA memberB different
  exact owned_apart valid (owned a memberA) (owned b memberB) different

theorem table_apart (separated : image.Separated) (valid : image.validate = .ok ())
    {table region : Region} (isTable : table ∈ image.tableRegions)
    (member : region ∈ image.dynamicRegions) : table.span.overlaps region.span = false := by
  rcases separated.owned with ⟨owner, owned, _⟩
  exact table_apart_of_owned valid (owned region member) isTable

end Separated

end BinaryImage.Elf.Image
