import BinaryImage.Elf.Layout
import BinaryImage.Elf.Query
import BinaryImage.Pe.Layout
import BinaryImage.Pe.Query
import BinaryImage.Signature
import BinaryImage.Summary

/-!
Images of either format, and their serialization: the staged edits written over the bytes of
the file. The image is validated before. Where there are edits, the written file is parsed and
validated as well, so that an edited file leaves the serializer only in a form that can be read.
-/

namespace BinaryImage

inductive Image where
  | elf (image : Elf.Image)
  | pe (image : Pe.Image)
  deriving DecidableEq

namespace Image

def format : Image → Format
  | elf _ => .elf
  | pe _ => .pe

def parse (format : Format) (data : Bytes) : Except Error Image :=
  match format with
  | .elf => (Elf.Image.parse data).map elf
  | .pe => (Pe.Image.parse data).map pe
  | .unknown => .error .unrecognized

def validate : Image → Except Error Unit
  | elf image => image.validate
  | pe image => image.validate

def edits : Image → EditSet
  | elf image => image.edits
  | pe image => image.edits

def fileLength : Image → Nat
  | elf image => image.fileLength
  | pe image => image.fileLength

def header : Image → HeaderSummary
  | elf image => image.header.summary
  | pe image => image.headers.summary

def platform : Image → Platform
  | elf image => image.platform
  | pe image => image.platform

def sections : Image → List SectionSummary
  | elf image => image.sectionSummaries
  | pe image => image.sectionSummaries

def hasDebugSymbols : Image → Bool
  | elf image => image.hasDebugSymbols
  | pe image => image.hasDebugSymbols

def needed (data : Bytes) : Image → Except Error (List String)
  | elf image => image.needed data
  | pe image => image.needed data

def searchPath (data : Bytes) : Image → Except Error SearchPath
  | elf image => image.searchPath data
  | pe _ => .ok SearchPath.empty

def parseValid (format : Format) (data : Bytes) : Except Error Image := do
  let image ← parse format data
  image.validate
  return image

def writeEdits (image : Image) (data : Bytes) : Except Error Bytes := do
  require (data.length == image.fileLength)
    (.invalid (.otherLength image.fileLength data.length))
  image.validate
  image.edits.checkDisjoint
  let written ← image.edits.write data
  if !image.edits.isEmpty then
    let _ ← parseValid image.format written
  return written

def serialize (image : Image) (data : Bytes) : Except Error Bytes :=
  (image.writeEdits data).mapError Error.rejected

theorem elf_of_parse {format : Format} {data : Bytes} {image : Elf.Image}
    (parsed : parse format data = .ok (.elf image)) : Elf.Image.parse data = .ok image := by
  cases format with
  | elf =>
    obtain ⟨_, read, same⟩ := map_eq_ok_iff.mp parsed
    cases same
    exact read
  | pe =>
    obtain ⟨_, _, same⟩ := map_eq_ok_iff.mp parsed
    cases same
  | unknown => cases parsed

theorem pe_of_parse {format : Format} {data : Bytes} {image : Pe.Image}
    (parsed : parse format data = .ok (.pe image)) : Pe.Image.parse data = .ok image := by
  cases format with
  | elf =>
    obtain ⟨_, _, same⟩ := map_eq_ok_iff.mp parsed
    cases same
  | pe =>
    obtain ⟨_, read, same⟩ := map_eq_ok_iff.mp parsed
    cases same
    exact read
  | unknown => cases parsed

theorem parse_valid_eq_ok_iff {format : Format} {data : Bytes} {image : Image} :
    parseValid format data = .ok image ↔
      parse format data = .ok image ∧ image.validate = .ok () := by
  simp only [parseValid, bind_eq_ok_iff, pure, Except.pure, Except.ok.injEq]
  constructor
  · rintro ⟨parsed, found, _, valid, rfl⟩
    exact ⟨found, valid⟩
  · rintro ⟨found, valid⟩
    exact ⟨image, found, (), valid, rfl⟩

/-- What serializing a file asks for. -/
theorem serialize_eq_ok_iff {image : Image} {data out : Bytes} :
    image.serialize data = .ok out ↔
      data.length = image.fileLength ∧ image.validate = .ok () ∧
        image.edits.checkDisjoint = .ok () ∧ image.edits.write data = .ok out ∧
          (image.edits.isEmpty = false → ∃ reread, parseValid image.format out = .ok reread) := by
  simp only [serialize, map_error_eq_ok_iff, writeEdits, bind_eq_ok_iff, require_eq_ok_iff,
    beq_iff_eq, exists_const]
  have rereading : ∀ written,
      ((if !image.edits.isEmpty then do
          let _ ← parseValid image.format written
          pure written
        else pure written : Except Error Bytes) = .ok out) ↔
        written = out ∧
          (image.edits.isEmpty = false → ∃ reread, parseValid image.format out = .ok reread) := by
    intro written
    cases image.edits.isEmpty with
    | true => simp [pure, Except.pure]
    | false =>
      simp only [Bool.not_false, ↓reduceIte, bind_eq_ok_iff, pure, Except.pure, Except.ok.injEq,
        forall_const]
      constructor
      · rintro ⟨reread, read, rfl⟩
        exact ⟨rfl, reread, read⟩
      · rintro ⟨rfl, reread, read⟩
        exact ⟨reread, read, rfl⟩
  simp only [rereading]
  constructor
  · rintro ⟨same, _, valid, _, disjoint, written, wrote, rfl, reread⟩
    exact ⟨same, valid, disjoint, wrote, reread⟩
  · rintro ⟨same, valid, disjoint, wrote, reread⟩
    exact ⟨same, (), valid, (), disjoint, out, wrote, rfl, reread⟩

end Image

end BinaryImage
