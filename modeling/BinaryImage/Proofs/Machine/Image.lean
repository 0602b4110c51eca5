import BinaryImage.Image
import BinaryImage.Proofs.EditWriting
import BinaryImage.Proofs.Machine.Edits
import BinaryImage.Proofs.Machine.Elf.Layout
import BinaryImage.Proofs.Machine.Elf.Parsing
import BinaryImage.Proofs.Machine.Pe.Layout
import BinaryImage.Proofs.Machine.Pe.Parsing
import BinaryImage.Proofs.UnsignedRange

/-!
Detecting, parsing and serializing on a machine, for files of either format. The written file is as
long as the one that was read, so it is parsed again under the same bound.
-/

namespace BinaryImage.Machine

def littleAt (data : Bytes) (start stop : Nat) : Machine Error Nat := do
  let field ← slice data start stop
  return ByteOrder.little.decode field

def detectBehindDosHeader (data : Bytes) : Machine Error Format := do
  let pointed ← add Pe.DosHeader.signaturePointer 4
  let offset ← littleAt data Pe.DosHeader.signaturePointer pointed
  let needed ← add offset Pe.Headers.signatureSize
  plain (require (needed ≤ data.length) (.truncated needed data.length))
  let stop ← add offset Pe.Headers.signatureSize
  let signature ← littleAt data offset stop
  plain (require (signature == Pe.Headers.expectedSignature) .unrecognized)
  return .pe

def detect (data : Bytes) : Machine Error Format := do
  plain (require (Format.signatureLength ≤ data.length)
    (.truncated Format.signatureLength data.length))
  let magic ← slice data 0 4
  if magic == Elf.Ident.magic then
    return .elf
  let dos ← littleAt data 0 2
  if dos == Pe.DosHeader.expectedMagic then
    detectBehindDosHeader data
  else
    throw .unrecognized

def parse (format : Format) (data : Bytes) : Machine Error Image :=
  match format with
  | .elf => do return .elf (← Elf.Machine.parse data)
  | .pe => do return .pe (← Pe.Machine.parse data)
  | .unknown => throw .unrecognized

def validate : Image → Machine Error Unit
  | .elf image => Elf.Machine.validate image
  | .pe image => Pe.Machine.validate image

def parseValid (format : Format) (data : Bytes) : Machine Error Image := do
  let image ← parse format data
  validate image
  return image

def writeEdits (image : Image) (data : Bytes) : Machine Error Bytes := do
  plain (require (data.length == image.fileLength)
    (.invalid (.otherLength image.fileLength data.length)))
  validate image
  checkDisjoint image.edits
  let written ← writeAll image.edits.edits data
  if !image.edits.isEmpty then
    let _ ← parseValid image.format written
  return written

def serialize (image : Image) (data : Bytes) : Machine Error Bytes :=
  mapError Error.rejected (writeEdits image data)

inductive TablesFit : Image → Prop
  | elf {image : Elf.Image} (fit : Elf.Machine.TablesFit image) : TablesFit (.elf image)
  | pe {image : Pe.Image} (small : image.headersSpan.length < offsetLimit) : TablesFit (.pe image)

variable {image : Image} {data : Bytes}

theorem gives_little_at {start stop width : Nat} (length : start + width = stop)
    (inside : stop ≤ data.length) :
    Gives (littleAt data start stop) (.ok (Format.littleAt data start width)) := by
  have width : stop - start = width := by omega
  apply gives_ok_bind (gives_slice (by omega) inside)
  rw [width]
  exact gives_pure _

/-- Four bytes hold a number to which more can be added. -/
theorem little_at_lt (data : Bytes) (start : Nat) : Format.littleAt data start 4 < 0x100000000 := by
  refine Nat.lt_of_lt_of_le (ByteOrder.little.decode_lt _) ?_
  exact Nat.pow_le_pow_right (by decide) (List.length_take_le _ _)

theorem gives_detect_behind_dos_header (long : Format.signatureLength ≤ data.length) :
    Gives (detectBehindDosHeader data) (Format.behindDosHeader data) := by
  have small := little_at_lt data Pe.DosHeader.signaturePointer
  have pointer : Pe.DosHeader.signaturePointer + 4 ≤ data.length :=
    Nat.le_trans (by decide) long
  have addressed : Format.littleAt data Pe.DosHeader.signaturePointer 4 +
      Pe.Headers.signatureSize < offsetLimit := by
    unfold Pe.Headers.signatureSize offsetLimit
    omega
  apply gives_ok_bind (gives_add (by decide))
  apply gives_ok_bind (gives_little_at rfl pointer)
  apply gives_ok_bind (gives_add addressed)
  apply gives_bind (gives_plain _)
  intro _ checked
  have inside := of_decide_eq_true (require_eq_ok_iff.mp checked)
  apply gives_ok_bind (gives_add addressed)
  apply gives_ok_bind (gives_little_at rfl inside)
  apply gives_bind (gives_plain _)
  intro _ _
  exact gives_pure _

theorem gives_detect (data : Bytes) : Gives (detect data) (Format.detect data) := by
  unfold detect Format.detect
  apply gives_bind (gives_plain _)
  intro _ checked
  have long := of_decide_eq_true (require_eq_ok_iff.mp checked)
  apply gives_ok_bind (gives_slice_to (Nat.le_trans (by decide) long))
  split
  · exact gives_pure _
  · apply gives_ok_bind (gives_little_at (Nat.zero_add 2) (Nat.le_trans (by decide) long))
    split
    · exact gives_detect_behind_dos_header long
    · exact gives_throw _

theorem gives_validate (fit : TablesFit image) : Gives (validate image) image.validate := by
  cases fit with
  | elf fit => exact Elf.Machine.gives_validate fit
  | pe small => exact Pe.Machine.gives_validate small

section Allocated

variable (allocated : data.length < allocationLimit)
include allocated

theorem gives_parse (format : Format) : Gives (parse format data) (Image.parse format data) := by
  cases format with
  | elf => exact gives_map Image.elf (Elf.Machine.gives_parse allocated)
  | pe => exact gives_map Image.pe (Pe.Machine.gives_parse allocated)
  | unknown => exact gives_throw _

theorem tables_fit_of_parse {format : Format} (parsed : Image.parse format data = .ok image) :
    TablesFit image := by
  cases image with
  | elf image => exact .elf (Elf.Machine.tables_fit_of_parse (Image.elf_of_parse parsed))
  | pe image =>
    have inside := Pe.Machine.headers_span_le_of_parse (Image.pe_of_parse parsed)
    unfold allocationLimit at allocated
    exact .pe (by unfold offsetLimit; omega)

theorem gives_parse_valid (format : Format) :
    Gives (parseValid format data) (Image.parseValid format data) := by
  apply gives_bind (gives_parse allocated format)
  intro image parsed
  apply gives_bind (gives_validate (tables_fit_of_parse allocated parsed))
  intro _ _
  exact gives_pure image

theorem gives_write_edits (fit : TablesFit image) :
    Gives (writeEdits image data) (image.writeEdits data) := by
  unfold writeEdits Image.writeEdits
  apply gives_bind (gives_plain _)
  intro _ _
  apply gives_bind (gives_validate fit)
  intro _ _
  apply gives_bind (gives_check_disjoint _)
  intro _ _
  apply gives_bind (gives_write_all _ data)
  intro written wrote
  have length : written.length < allocationLimit := by
    rwa [EditSet.length_write wrote]
  split
  · apply gives_bind (gives_parse_valid length _)
    intro _ _
    exact gives_pure written
  · exact gives_pure written

theorem gives_serialize (fit : TablesFit image) :
    Gives (serialize image data) (image.serialize data) :=
  gives_map_error Error.rejected (gives_write_edits allocated fit)

end Allocated

end BinaryImage.Machine
