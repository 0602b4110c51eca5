import BinaryImage.Proofs.Elf.Placement
import BinaryImage.Proofs.Pe.Renaming
import BinaryImage.Proofs.RoundTrip

/-!
Where edits are confined to. Whatever calls are made, each staged edit fills one of the places that
the file had for it when it was opened, and edits that could meet are kept apart when they are
staged, not when they are written.
-/

namespace BinaryImage

/-- Edits fill places that the file offers, each string with a NUL at its end, and no two of one
kind share a byte. -/
structure Elf.Image.Confined (data : Bytes) (image : Elf.Image) (staged : EditSet) : Prop where
  inside : ∀ edit ∈ staged.edits, edit.span.fitsIn data.length = true
  offered : ∀ edit ∈ staged.edits, image.Offers data edit.target edit.span
  terminated : ∀ edit ∈ staged.edits, (∀ index, edit.target ≠ .dynamicEntry index) →
    edit.bytes.getLast? = some 0
  apart : staged.edits.Pairwise fun a b => a.target.kind = b.target.kind → a.Apart b

/-- Edits fill names of descriptors, each with a NUL at its end, and no two share a byte. -/
structure Pe.Image.Confined (data : Bytes) (image : Pe.Image) (staged : EditSet) : Prop where
  inside : ∀ edit ∈ staged.edits, edit.span.fitsIn data.length = true
  offered : ∀ edit ∈ staged.edits,
    edit.target = .dllName edit.start ∧ edit.span ∈ image.nameSpans
  terminated : ∀ edit ∈ staged.edits, edit.bytes.getLast? = some 0
  apart : staged.edits.Pairwise Edit.Apart
  disjoint : staged.checkDisjoint = .ok ()

inductive Image.Confined (data : Bytes) : Image → EditSet → Prop where
  | elf {image : Elf.Image} {staged : EditSet} (confined : image.Confined data staged) :
      Confined data (.elf image) staged
  | pe {image : Pe.Image} {staged : EditSet} (confined : image.Confined data staged) :
      Confined data (.pe image) staged

namespace Elf.Image

variable {data : Bytes} {fresh image : Image} {staged : EditSet}

theorem Placed.terminated {edit : Edit} (placed : Placed data fresh staged edit)
    (other : ∀ index, edit.target ≠ .dynamicEntry index) : edit.bytes.getLast? = some 0 := by
  cases placed with
  | interpreter _ _ terminated => exact terminated
  | path _ _ _ _ _ terminated => exact terminated
  | removal => exact absurd rfl (other _)

theorem confined_of_staged (opened : Opened data fresh) (staged : Staged data fresh image) :
    fresh.Confined data image.edits where
  inside edit member := Span.fitsIn_iff.mpr (opened.edit_inside staged.placed member)
  offered edit member := opened.offers_of_placed staged.placed member
  terminated edit member other := (staged.placed edit member).terminated other
  apart := by
    apply image.edits.targets_distinct.imp_of_mem
    intro a b memberA memberB different kind
    exact opened.apart_of_same_part staged.placed memberA memberB different
      (EditTarget.part_of_kind kind)

end Elf.Image

namespace Pe.Image

theorem confined_of_staged {data : Bytes} {fresh image : Image} (opened : Opened data fresh)
    (staged : Staged fresh image) : fresh.Confined data image.edits := by
  have inside : ∀ edit ∈ image.edits.edits, edit.span.fitsIn data.length = true := by
    intro edit member
    exact Span.fitsIn_iff.mpr (opened.edit_inside (staged.placed edit member))
  have apart := opened.edits_apart staged
  refine ⟨inside, ?_, ?_, apart, ?_⟩
  · intro edit member
    exact ⟨(staged.placed edit member).target, (staged.placed edit member).place⟩
  · intro edit member
    exact (staged.placed edit member).terminated
  · exact (EditSet.check_disjoint_eq_ok_iff_apart opened.addressable inside).mpr apart

end Pe.Image

namespace Session

-- An edit is as long as its bytes, so one that fills a place has just the bytes for it. No call
-- compares what it stages with what is staged; that edits are apart all the same is due to the
-- places they fill, which were compared with each other.
theorem edits_confined {data : Bytes} {session : Session} (addressable : data.length < offsetLimit)
    (opened : ofFile data = .ok session) (commands : List Command) :
    session.image.Confined data (session.attemptAll commands).image.edits := by
  cases format : session.image with
  | elf image =>
    obtain ⟨rfl, openedImage, fresh⟩ := elf_of_file addressable opened format
    obtain ⟨edited, elfEdited, staged⟩ := staged_of_attempt_all format fresh commands
    rw [elfEdited]
    exact .elf (Elf.Image.confined_of_staged openedImage staged)
  | pe image =>
    obtain ⟨rfl, openedImage, fresh⟩ := pe_of_file addressable opened format
    obtain ⟨edited, peEdited, staged⟩ := renamed_of_attempt_all format fresh commands
    rw [peEdited]
    exact .pe (Pe.Image.confined_of_staged openedImage staged)

theorem edits_confined_samples :
    (sampleSession.attemptAll sampleCommands).image.edits.edits.map Edit.target =
        [.interpreter, .dynamicString 167, .dynamicEntry 1] ∧
      sampleSession.image.Confined sampleFile
        (sampleSession.attemptAll sampleCommands).image.edits ∧
      (importingSession.attemptAll importingCommands).image.edits.edits.map Edit.target =
        [.dllName 300, .dllName 306] ∧
      importingSession.image.Confined importingFile
        (importingSession.attemptAll importingCommands).image.edits := by
  have elfConfined := edits_confined sample_addressable sample_opened sampleCommands
  have peConfined := edits_confined importing_addressable importing_opened importingCommands
  exact ⟨by decide +kernel, elfConfined, by decide +kernel, peConfined⟩

end Session

end BinaryImage
