import BinaryImage.Pe.Layout
import BinaryImage.Proofs.Machine.Sweep
import BinaryImage.Proofs.Pe.HeaderFrame

/-!
Layout rules of PE images on a machine. The only division is by the section alignment, which has
been found to be a power of two before.
-/

namespace BinaryImage.Pe.Machine

open BinaryImage.Machine Layout

def checkSection (image : Image) (item : Section) : Machine Error Unit := do
  let alignment := image.headers.optional.sectionAlignment
  let remainder ← rem item.virtualAddress alignment
  plain (require (remainder == 0) (.violation (.peSection item.name) item.rawOffset
    (.unalignedAddress item.virtualAddress alignment)))
  plain (checkInside image.fileLength ⟨.peSection item.name, item.rawSpan⟩)

def validate (image : Image) : Machine Error Unit := do
  let optional := image.headers.optional
  plain (image.checkAlignment .sections optional.sectionAlignment)
  plain (image.checkAlignment .file optional.fileAlignment)
  let size ← mul image.sections.length Section.recordSize
  let stop ← add image.headers.sectionTableOffset size
  let headers : Region := ⟨.peHeaders, ⟨0, stop⟩⟩
  plain (checkInside image.fileLength headers)
  plain (checkInside image.fileLength ⟨.declaredHeaders, ⟨0, optional.headersSize⟩⟩)
  image.sections.forM (checkSection image)
  checkRegions .rawData noExcuse
    (headers :: image.sections.map fun item => ⟨.peSection item.name, item.rawSpan⟩)
  checkRegions .addresses noExcuse image.memoryRegions

variable {image : Image}

theorem gives_check_section (item : Section)
    (nonzero : image.headers.optional.sectionAlignment ≠ 0) :
    Gives (checkSection image item) (image.checkSection item) := by
  apply gives_ok_bind (gives_rem nonzero)
  apply gives_bind (gives_plain _)
  intro _ _
  exact gives_plain _

theorem gives_validate (small : image.headersSpan.length < offsetLimit) :
    Gives (validate image) image.validate := by
  have sized : image.sections.length ≤ image.sections.length * Section.recordSize :=
    Nat.le_mul_of_pos_right _ (by decide)
  simp only [Image.headersSpan] at small
  unfold validate Image.validate
  apply gives_bind (gives_plain _)
  intro _ aligned
  have power := isPowerOfTwo_iff.mp (require_eq_ok_iff.mp aligned)
  have nonzero := Nat.ne_zero_of_lt (Nat.pos_of_isPowerOfTwo power)
  apply gives_bind (gives_plain _)
  intro _ _
  apply gives_ok_bind (gives_mul (by omega))
  apply gives_ok_bind (gives_add (by omega))
  apply gives_bind (gives_plain _)
  intro _ _
  apply gives_bind (gives_plain _)
  intro _ _
  apply gives_bind (gives_forM fun item _ => gives_check_section item nonzero)
  intro _ _
  refine gives_bind (gives_check_regions _ _ ?_) fun _ _ => ?_
  · rw [List.length_cons, List.length_map]
    simp only [Section.recordSize, offsetLimit] at small ⊢
    omega
  · refine gives_check_regions _ _ ?_
    rw [Image.memoryRegions, List.length_map]
    omega

/-- The headers lie in the file that was read. -/
theorem headers_span_le_of_parse {data : Bytes} (parsed : Image.parse data = .ok image) :
    image.headersSpan.length ≤ data.length := by
  obtain ⟨headers, sections, _, _, _, read, _, _, rfl⟩ := Image.parse_eq_ok_iff.mp parsed
  have counted := Image.length_of_parse_sections read
  obtain ⟨bytes, sliced, _⟩ := bind_eq_ok_iff.mp read
  have inside := (Bytes.slice_eq_some_iff.mp (require_some_eq_ok_iff.mp sliced)).1
  simp only [Image.headersSpan, counted]
  exact inside

end BinaryImage.Pe.Machine
