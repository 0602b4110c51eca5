import BinaryImage.Proofs.Assignment
import BinaryImage.Proofs.Pe.Renaming

/-!
Renames as values for strings of the file. The place of a name is the string that a descriptor
points to, with its terminator. Whether a new name is accepted, and why it is refused, depends on
the file and on no edit that is staged.
-/

namespace BinaryImage.Pe.Image

def room? (data : Bytes) : EditTarget → Option Span
  | .dllName start => some (data.stringSpan start)
  | .interpreter | .dynamicString _ | .dynamicEntry _ => none

def assignment? (image : Image) (data : Bytes) (request : Rename) : Option Assignment :=
  (image.nameSpan? request.table request.index).map fun span =>
    ⟨.dllName span.start, data.stringSpan span.start, request.name⟩

def namePlaces (image : Image) (data : Bytes) : List Span :=
  image.nameSpans.map fun span => data.stringSpan span.start

def accepted? (image : Image) (data : Bytes) (request : Rename) : Option Assignment :=
  (image.assignment? data request).filter fun assignment =>
    assignment.Unshared (image.namePlaces data) ∧ assignment.Fits

variable {data : Bytes} {fresh image edited : Image} {request : Rename} {assignment : Assignment}

theorem accepted_eq_some_iff :
    image.accepted? data request = some assignment ↔
      image.assignment? data request = some assignment ∧
        assignment.Unshared (image.namePlaces data) ∧ assignment.Fits := by
  rw [accepted?, Option.filter_eq_some_iff, decide_eq_true_eq]

theorem room_of_assignment (assigned : image.assignment? data request = some assignment) :
    room? data assignment.target = some assignment.place := by
  obtain ⟨span, _, rfl⟩ := Option.map_eq_some_iff.mp assigned
  rfl

-- What is staged is not looked at, neither by the checks nor for the reason of a refusal.
theorem rename_outcome (staged : EditSet) :
    (rename { image with edits := staged } request).map (fun _ => ()) =
      (image.rename request).map fun _ => () := by
  simp only [rename, map_of_bind]
  rfl

namespace Opened

-- The span of a name was measured when the file was read, up to the first NUL.
theorem string_span_of_name (opened : Opened data fresh) {span : Span}
    (isName : span ∈ fresh.nameSpans) : data.stringSpan span.start = span := by
  obtain ⟨_, _, named⟩ := resolves_of_parse opened.parsed span isName
  obtain ⟨_, start, _, _, length, ends, rfl⟩ := resolve_name_eq_ok_iff.mp named
  obtain ⟨_, rfl⟩ := Bytes.terminator_eq_some_iff.mp ends
  rfl

theorem name_places (opened : Opened data fresh) : fresh.namePlaces data = fresh.nameSpans := by
  unfold namePlaces
  conv_rhs => rw [← List.map_id fresh.nameSpans]
  apply List.map_congr_left
  intro span isName
  exact opened.string_span_of_name isName

/-- A rename stages just what is accepted for the file. -/
theorem rename_accepted_iff (opened : Opened data fresh) {staged : EditSet} :
    rename { fresh with edits := staged } request = .ok edited ↔
      ∃ assignment, fresh.accepted? data request = some assignment ∧
        edited = { fresh with edits := staged.stage assignment.edit } := by
  rw [rename_eq_ok_iff]
  simp only [accepted_eq_some_iff, opened.name_places]
  constructor
  · rintro ⟨span, edit, found, clear, padded, rfl⟩
    have place := opened.string_span_of_name (name_span_mem found)
    obtain ⟨fits, rfl⟩ :=
      (Assignment.padded_eq_ok_iff ⟨.dllName span.start, span, request.name⟩).mp padded
    refine ⟨⟨.dllName span.start, span, request.name⟩, ⟨?_, clear, fits⟩, rfl⟩
    exact Option.map_eq_some_iff.mpr ⟨span, found, by rw [place]⟩
  · rintro ⟨_, ⟨assigned, unshared, fits⟩, rfl⟩
    obtain ⟨span, found, rfl⟩ := Option.map_eq_some_iff.mp assigned
    rw [opened.string_span_of_name (name_span_mem found)] at unshared fits ⊢
    have padded :=
      (Assignment.padded_eq_ok_iff ⟨.dllName span.start, span, request.name⟩).mpr ⟨fits, rfl⟩
    exact ⟨span, _, found, unshared, padded, rfl⟩

end Opened

end BinaryImage.Pe.Image
