import BinaryImage.Proofs.Elf.Reopening

/-!
What edits leave of the tables. The layout rules compare the file header and the tables with each
other and with section data, but not with the interpreter and the dynamic parts, which segments
locate. So a table is kept where no place that commands fill overlaps it, and a file in which one
does can be opened.
-/

namespace BinaryImage

namespace Elf.Image

def SetApart (data : Bytes) (image : Image) (span : Span) : Prop :=
  ∀ target place, image.Offers data target place → span.overlaps place = false

variable {data : Bytes} {fresh image : Image}

theorem Opened.table_inside (opened : Opened data fresh) {table : Layout.Region}
    (listed : table ∈ fresh.tableRegions) : table.span.start + table.span.length ≤ data.length := by
  obtain ⟨inside, _⟩ := validate_eq_ok_iff.mp opened.valid
  have fits := Span.fitsIn_iff.mp (inside table listed)
  rw [file_length_of_parse opened.parsed] at fits
  exact fits

theorem Opened.set_apart_of_regions (opened : Opened data fresh) {span : Span}
    (inside : span.start + span.length ≤ data.length)
    (apart : ∀ region ∈ fresh.dynamicRegions, span.overlaps region.span = false) :
    fresh.SetApart data span := by
  intro target place offered
  obtain ⟨region, isPart, _, start, stop⟩ := opened.region_of_offers offered
  have within := opened.region_inside isPart
  have placeInside : place.start + place.length ≤ data.length := by omega
  apply Bool.eq_false_iff.mpr
  intro shared
  obtain ⟨offset, inSpan, inPlace⟩ := (Span.overlaps_iff_covers (opened.below_limit inside)
    (opened.below_limit placeInside)).mp shared
  exact Span.not_covers_of_apart (opened.below_limit within) (apart region isPart) inSpan
    (Span.covers_of_fits start stop inPlace)

end Elf.Image

namespace Session

open Elf.Image

theorem tables_kept {data out : Bytes} {session : Session} {image : Elf.Image}
    (addressable : data.length < offsetLimit) (opened : ofFile data = .ok session)
    (elf : session.image = .elf image) (commands : List Command)
    (written : (session.attemptAll commands).serialize = .ok out) {table : Layout.Region}
    (listed : table ∈ image.tableRegions) (apart : image.SetApart data table.span) :
    ∃ bytes, data.slice? table.span = some bytes ∧ out.slice? table.span = some bytes := by
  obtain ⟨rfl, openedImage, fresh⟩ := elf_of_file addressable opened elf
  obtain ⟨edited, elfEdited, staged⟩ := staged_of_attempt_all elf fresh commands
  obtain ⟨_, _, _, wrote, _⟩ := Image.serialize_eq_ok_iff.mp written
  rw [elfEdited, session.attempt_all_data] at wrote
  have agree : Bytes.Agree session.data out table.span := by
    apply openedImage.agree_of_apart staged.placed wrote
    intro edit member
    exact apart _ _ (openedImage.offers_of_placed staged.placed member)
  have sliced := Bytes.slice_of_fits (openedImage.table_inside listed)
  have same := agree.slice (EditSet.length_write wrote).symm
  exact ⟨_, sliced, same.symm.trans sliced⟩

section Sample

theorem tables_kept_sample :
    sampleImage.tableRegions.map Layout.Region.span = [⟨0, 52⟩, ⟨52, 96⟩, ⟨221, 200⟩] ∧
      sampleEdited ≠ sampleFile ∧
      ∀ table ∈ sampleImage.tableRegions, ∃ bytes,
        sampleFile.slice? table.span = some bytes ∧
          sampleEdited.slice? table.span = some bytes := by
  obtain ⟨_, openedImage, _⟩ := elf_of_file sample_addressable sample_opened sample_elf
  refine ⟨by decide +kernel, by decide +kernel, ?_⟩
  intro table listed
  have apart := openedImage.set_apart_of_regions (openedImage.table_inside listed)
    fun _ isPart => separated_sample.table_apart openedImage.valid listed isPart
  exact tables_kept sample_addressable sample_opened sample_elf sampleCommands sample_written
    listed apart

/-- The sample with its dynamic strings over the file header, whose entry point spells the run
path. -/
def overlaidFile : Bytes :=
  (sampleFile.splice 24 (words [0x2f6c0000])).splice 172
    (words [1, 157, 1, 162, 29, 24, 5, 0x1000, 10, 172, 0, 0])

def overlaidSession : Session := (ofFile overlaidFile).toOption.get (by decide +kernel)

def overlaidImage : Elf.Image := (Elf.Image.parse overlaidFile).toOption.get (by decide +kernel)

def overlaidEdited : Bytes :=
  (overlaidSession.attemptAll [.elf (.setPath .runPath "x")]).serialize.toOption.get
    (by decide +kernel)

-- The run path is named by an entry that lies where the layout rules do not look.
theorem file_header_overwritten :
    ofFile overlaidFile = .ok overlaidSession ∧ overlaidSession.image = .elf overlaidImage ∧
      (overlaidSession.attemptAll [.elf (.setPath .runPath "x")]).serialize = .ok overlaidEdited ∧
      ⟨.elfHeader, ⟨0, 52⟩⟩ ∈ overlaidImage.tableRegions ∧
      overlaidEdited.slice? ⟨0, 52⟩ ≠ overlaidFile.slice? ⟨0, 52⟩ ∧
      (Elf.Image.parse overlaidEdited).map (fun image => image.header.entry) = .ok 0x78000000 ∧
      overlaidImage.header.entry = 0x2f6c0000 := by
  decide +kernel

end Sample

end Session

end BinaryImage
