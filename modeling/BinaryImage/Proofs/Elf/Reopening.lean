import BinaryImage.Proofs.Elf.Rereading
import BinaryImage.Proofs.RoundTrip

/-!
Sessions whose file sets apart what commands edit. Whatever calls are made, the outcome can be
written; the written file is read as the edited image, and answers every question as it did.
-/

namespace BinaryImage

namespace Elf.Image

-- The layout rules do not look at entries or edits.
theorem validate_with_edits (image : Image) (staged other : EditSet) :
    Image.validate { image.withEdits staged with edits := other } = image.validate := by
  have regions : Image.dynamicRegions { image.withEdits staged with edits := other } =
      image.dynamicRegions := by
    simp only [dynamicRegions, withEdits]
    cases image.dynamic <;> rfl
  unfold validate
  rw [regions]
  rfl

section Queries

variable {data out : Bytes} {image : Image}

/-- The image once its edits are in the file. -/
def settled (image : Image) : Image := { image with edits := EditSet.empty }

-- What was seen through the edits is what the written file holds.
theorem view_settled (addressable : data.length < offsetLimit)
    (wrote : image.edits.write data = .ok out) (span : Span) (part : Part) :
    image.settled.view out span part = image.view data span part := by
  unfold view slice
  cases found : data.slice? span with
  | some bytes =>
    rw [EditSet.slice_write_eq_overlay addressable wrote found]
    rfl
  | none =>
    have missing : out.slice? span = none := by
      unfold Bytes.slice? at found ⊢
      rw [EditSet.length_write wrote]
      split at found
      · cases found
      · next outside => exact if_neg outside
    rw [missing]
    rfl

-- The bytes of the file are looked up twice, and the second look-up tells as much.
theorem dynamic_string_eq_view (index : Nat) :
    image.dynamicString data index =
      (requireSome (image.dynamic.bind DynamicArray.strings) (.notFound .dynamicStrings) >>=
        fun table => image.view data table.span .dynamicStrings >>=
          fun bytes => table.get bytes index) := by
  unfold dynamicString dynamicStrings view
  cases requireSome (image.dynamic.bind DynamicArray.strings)
      (.notFound .dynamicStrings) with
  | error cause => rfl
  | ok table => cases found : slice data table.span .dynamicStrings <;>
      simp [found, bind, Except.bind, pure, Except.pure]

variable (addressable : data.length < offsetLimit) (wrote : image.edits.write data = .ok out)
include addressable wrote

theorem dynamic_string_settled (index : Nat) :
    image.settled.dynamicString out index = image.dynamicString data index := by
  rw [dynamic_string_eq_view, dynamic_string_eq_view]
  simp only [view_settled addressable wrote]
  rfl

theorem tagged_string_settled (tag : Nat) :
    image.settled.taggedString out tag = image.taggedString data tag := by
  simp only [taggedString, dynamic_string_settled addressable wrote]
  rfl

theorem needed_settled : image.settled.needed out = image.needed data := by
  simp only [needed, dynamic_string_settled addressable wrote]
  rfl

theorem interpreter_path_settled :
    image.settled.interpreterPath out = image.interpreterPath data := by
  simp only [interpreterPath, view_settled addressable wrote]
  rfl

theorem search_path_settled : image.settled.searchPath out = image.searchPath data := by
  simp only [searchPath, runPath, rpath, tagged_string_settled addressable wrote]

end Queries

theorem settled_of_staged {data : Bytes} {fresh image : Image} (staged : Staged data fresh image) :
    image.settled = { fresh.withEdits image.edits with edits := EditSet.empty } := by
  conv => lhs; rw [staged.same]
  rfl

/-- Serializing an image with edits in their places succeeds, and the file is read as it. -/
theorem serialize_of_staged {data : Bytes} {fresh image : Image} (editable : Editable data fresh)
    (staged : Staged data fresh image) :
    ∃ out, (BinaryImage.Image.elf image).serialize data = .ok out ∧
      image.edits.write data = .ok out ∧ parse out = .ok image.settled := by
  rcases editable.write_of_placed staged.placed with ⟨_, disjoint, out, wrote⟩
  have written : Written data out fresh image.edits := ⟨editable, staged.placed, wrote⟩
  have reread : parse out = .ok image.settled := by
    rw [settled_of_staged staged]
    exact written.parse_reread
  have valid : image.settled.validate = .ok () := by
    rw [settled_of_staged staged, validate_with_edits]
    exact editable.valid
  have length : data.length = image.fileLength := by
    rw [staged.same]
    exact (file_length_of_parse editable.parsed).symm
  refine ⟨out, BinaryImage.Image.serialize_eq_ok_iff.mpr
    ⟨length, valid, disjoint, wrote, fun _ => ⟨.elf image.settled, ?_⟩⟩, wrote, reread⟩
  exact BinaryImage.Image.parse_valid_eq_ok_iff.mpr ⟨map_eq_ok_iff.mpr ⟨_, reread, rfl⟩, valid⟩

end Elf.Image

namespace Session

/-- What is written after commands is a file that can be opened, too. -/
theorem elf_of_serialize {data out : Bytes} {session : Session} {image : Elf.Image}
    {commands : List Command} (addressable : data.length < offsetLimit)
    (opened : ofFile data = .ok session) (elf : session.image = .elf image)
    (written : (session.attemptAll commands).serialize = .ok out) :
    ∃ reopened reread, ofFile out = .ok reopened ∧ reopened.image = .elf reread ∧
      Elf.Image.Opened out reread := by
  obtain ⟨rfl, _, _⟩ := elf_of_file addressable opened elf
  obtain ⟨reopened, openedAgain, format⟩ := reopen_of_serialize opened
    (session.attempt_all_data commands) (session.attempt_all_format commands) written
  obtain ⟨_, _, _, wrote, _⟩ := Image.serialize_eq_ok_iff.mp written
  have length := EditSet.length_write wrote
  rw [session.attempt_all_data] at length
  cases again : reopened.image with
  | pe reread =>
    rw [again, elf] at format
    cases format
  | elf reread =>
    obtain ⟨_, openedOut, _⟩ := elf_of_file (length ▸ addressable) openedAgain again
    exact ⟨reopened, reread, openedAgain, again, openedOut⟩

-- In a file whose editable parts are sections of their own, no sequence of calls leads to an image
-- that cannot be written, and the written file is read as that image.
theorem reopen_as_edited {data : Bytes} {session : Session} {image : Elf.Image}
    (addressable : data.length < offsetLimit) (opened : ofFile data = .ok session)
    (elf : session.image = .elf image) (separated : image.Separated) (commands : List Command) :
    ∃ edited out, (session.attemptAll commands).image = .elf edited ∧
      (session.attemptAll commands).serialize = .ok out ∧
      Elf.Image.parse out = .ok edited.settled ∧
      edited.settled.interpreterPath out = edited.interpreterPath data ∧
      edited.settled.needed out = edited.needed data ∧
      edited.settled.rpath out = edited.rpath data ∧
      edited.settled.runPath out = edited.runPath data ∧
      edited.settled.soName out = edited.soName data ∧
      edited.settled.searchPath out = edited.searchPath data := by
  obtain ⟨format, _, rfl, read⟩ := of_file_eq_ok_iff.mp opened
  rw [elf] at read
  obtain ⟨parsedAny, valid⟩ := Image.parse_valid_eq_ok_iff.mp read
  have parsed := Image.elf_of_parse parsedAny
  have editable : Elf.Image.Editable session.data image := ⟨addressable, parsed, valid, separated⟩
  have unedited := Elf.Image.unedited_of_parse parsed
  obtain ⟨edited, elfEdited, staged⟩ :=
    staged_of_attempt_all elf (Elf.Image.staged_of_fresh unedited) commands
  obtain ⟨out, serialized, wrote, reread⟩ := Elf.Image.serialize_of_staged editable staged
  refine ⟨edited, out, elfEdited, ?_, reread, ?_, ?_, ?_, ?_, ?_, ?_⟩
  · rw [serialize, elfEdited, session.attempt_all_data]
    exact serialized
  · exact Elf.Image.interpreter_path_settled addressable wrote
  · exact Elf.Image.needed_settled addressable wrote
  · exact Elf.Image.tagged_string_settled addressable wrote Elf.Tag.rpath
  · exact Elf.Image.tagged_string_settled addressable wrote Elf.Tag.runPath
  · exact Elf.Image.tagged_string_settled addressable wrote Elf.Tag.soName
  · exact Elf.Image.search_path_settled addressable wrote

section Sample

def sampleImage : Elf.Image := (Elf.Image.parse sampleFile).toOption.get (by decide +kernel)

def sampleArray : Elf.DynamicArray := sampleImage.dynamic.get (by decide +kernel)

theorem sample_elf : sampleSession.image = .elf sampleImage := by decide +kernel

theorem separated_sample : sampleImage.Separated := by
  have regions : sampleImage.dynamicRegions =
      [⟨.interpreter, ⟨148, 8⟩⟩, ⟨.dynamicArray, ⟨172, 48⟩⟩, ⟨.dynamicStrings, ⟨156, 16⟩⟩] := by
    decide +kernel
  have owners : sampleImage.OwnedBy ⟨148, 8⟩ 1 ∧ sampleImage.OwnedBy ⟨172, 48⟩ 3 ∧
      sampleImage.OwnedBy ⟨156, 16⟩ 2 := by
    decide +kernel
  have names : sampleImage.nameTable = some 4 := by decide +kernel
  have nameSpan : sampleImage.sections[4]?.map (fun item => item.fileSpan) = some ⟨220, 1⟩ := by
    decide +kernel
  constructor
  · refine ⟨fun entity => match entity with
      | .interpreter => 1
      | .dynamicArray => 3
      | _ => 2, ?_, ?_⟩
    · rw [regions]
      simpa using owners
    · rw [regions]
      simp
  · intro index item isTable found region member
    cases names.symm.trans isTable
    rw [found] at nameSpan
    have place : item.fileSpan = ⟨220, 1⟩ := Option.some.inj nameSpan
    rw [place]
    rw [regions] at member
    revert member region
    decide

theorem reopen_as_edited_sample :
    (sampleSession.attemptAll sampleCommands).image.needed sampleFile = .ok ["a.so"] ∧
      ∃ edited out, (sampleSession.attemptAll sampleCommands).image = .elf edited ∧
        (sampleSession.attemptAll sampleCommands).serialize = .ok out ∧
        Elf.Image.parse out = .ok edited.settled ∧
        edited.settled.interpreterPath out = edited.interpreterPath sampleFile ∧
        edited.settled.needed out = edited.needed sampleFile ∧
        edited.settled.rpath out = edited.rpath sampleFile ∧
        edited.settled.runPath out = edited.runPath sampleFile ∧
        edited.settled.soName out = edited.soName sampleFile ∧
        edited.settled.searchPath out = edited.searchPath sampleFile := by
  have opened : ofFile sampleFile = .ok sampleSession := by decide +kernel
  have elf : sampleSession.image = .elf sampleImage := by decide +kernel
  have addressable : sampleFile.length < offsetLimit := by decide +kernel
  exact ⟨by decide +kernel,
    reopen_as_edited addressable opened elf separated_sample sampleCommands⟩

end Sample

end Session

end BinaryImage
