import BinaryImage.Proofs.Machine.Basic
import BinaryImage.Edit.Staged

/-!
Edits on a machine. An edit to be staged is held with the span it shall fill, and staging insists
that it does. Laying edits over a slice works out where they start and stop in it.
-/

namespace BinaryImage

structure Patch where
  target : EditTarget
  span : Span
  bytes : Bytes

def Edit.patch (edit : Edit) : Patch := ⟨edit.target, edit.span, edit.bytes⟩

namespace Machine

variable {ε : Type}

def stage (staged : EditSet) (patch : Patch) : Machine ε EditSet :=
  if patch.bytes.length = patch.span.length then
    pure (staged.stage ⟨patch.target, patch.span.start, patch.bytes⟩)
  else
    fault .failedAssertion

def padded (target : EditTarget) (span : Span) (value : String) : Machine Error Patch := do
  let text := Text.Utf8.encode value
  plain (require (!text.contains 0) (.invalid (.containsNul target)))
  let required ← add text.length 1
  plain (require (required ≤ span.length) (.noRoom target required span.length))
  let bytes ← copy (List.replicate span.length 0) 0 text.length text
  return ⟨target, span, bytes⟩

def paint (edit : Edit) (base : Nat) (bytes : Bytes) : Machine ε Bytes := do
  let start := max edit.start base
  let limit ← add base bytes.length
  let stop := min edit.span.clippedStop limit
  if stop ≤ start then
    return bytes
  let first ← sub start edit.start
  let last ← sub stop edit.start
  let low ← sub start base
  let high ← sub stop base
  let part ← slice edit.bytes first last
  copy bytes low high part

def overlay (staged : EditSet) (bytes : Bytes) (span : Span) : Machine ε Bytes :=
  (staged.touching span).foldlM (fun painted edit => paint edit span.start painted) bytes

def write (data : Bytes) (start : Nat) (patch : Bytes) : Machine Error Bytes :=
  if Span.fitsIn ⟨start, patch.length⟩ data.length then
    copy data start (start + patch.length) patch
  else
    throw (.truncated (Span.clippedStop ⟨start, patch.length⟩) data.length)

def writeAll (edits : List Edit) (data : Bytes) : Machine Error Bytes :=
  edits.foldlM (fun written edit => write written edit.start edit.bytes) data

def checkApart (pair : List Edit) : Machine Error Unit := do
  let earlier ← item pair 0
  let later ← item pair 1
  if earlier.span.overlaps later.span then
    throw (.violation (.edit later.target) later.start
      (.overlapsEdit earlier.target earlier.span))

def checkDisjoint (staged : EditSet) : Machine Error Unit :=
  let filled := staged.edits.filter fun edit => !edit.span.isEmpty
  (windows (sortOn Edit.start filled)).forM checkApart

def Holds (text? : Option String) : Prop :=
  ∀ text ∈ text?, (Text.Utf8.encode text).length < allocationLimit

instance (text? : Option String) : Decidable (Holds text?) :=
  inferInstanceAs (Decidable (∀ text ∈ text?, (Text.Utf8.encode text).length < allocationLimit))

theorem gives_stage (staged : EditSet) (edit : Edit) :
    Gives (stage staged edit.patch : Machine ε EditSet) (.ok (staged.stage edit)) := by
  have fills : edit.patch.bytes.length = edit.patch.span.length := rfl
  rw [stage, if_pos fills]
  exact gives_pure _

theorem gives_padded {target : EditTarget} {span : Span} {value : String}
    (small : (Text.Utf8.encode value).length < allocationLimit) :
    Gives (padded target span value) ((Edit.padded target span value).map Edit.patch) := by
  unfold padded Edit.padded
  rw [map_of_bind]
  apply gives_bind (gives_plain _)
  intro _ _
  rw [map_of_bind]
  unfold allocationLimit at small
  apply gives_ok_bind (gives_add (by unfold offsetLimit; omega))
  apply gives_bind (gives_plain _)
  intro _ checked
  have room : (Text.Utf8.encode value).length + 1 ≤ span.length :=
    of_decide_eq_true (require_eq_ok_iff.mp checked)
  apply gives_ok_bind (gives_copy (Nat.zero_add _) (by rw [List.length_replicate]; omega))
  have bytes : Bytes.splice (List.replicate span.length 0) 0 (Text.Utf8.encode value) =
      Text.Utf8.encode value ++
        List.replicate (span.length - (Text.Utf8.encode value).length) 0 := by
    rw [Bytes.splice, List.take_zero, List.nil_append, Nat.zero_add, List.drop_replicate]
  have filled : (Text.Utf8.encode value ++
      List.replicate (span.length - (Text.Utf8.encode value).length) (0 : UInt8)).length =
        span.length := by
    rw [List.length_append, List.length_replicate]
    omega
  have patch : Edit.patch ⟨target, span.start, Text.Utf8.encode value ++
      List.replicate (span.length - (Text.Utf8.encode value).length) 0⟩ =
        ⟨target, span, Bytes.splice (List.replicate span.length 0) 0 (Text.Utf8.encode value)⟩ := by
    rw [bytes, Edit.patch, Edit.span, filled]
  rw [← patch]
  exact gives_pure _

theorem gives_paint (edit : Edit) {base : Nat} {bytes : Bytes}
    (small : base + bytes.length < offsetLimit) :
    Gives (paint edit base bytes : Machine ε Bytes) (.ok (edit.paint base bytes)) := by
  unfold paint Edit.paint
  apply gives_ok_bind (gives_add small)
  have reach : edit.span.clippedStop = min (edit.start + edit.bytes.length) (offsetLimit - 1) :=
    edit.span.clippedStop_eq_min
  by_cases filled : max edit.start base < min edit.span.clippedStop (base + bytes.length)
  · have length := edit.length_clipped filled
    rw [if_neg (Nat.not_le.mpr filled), if_pos filled]
    apply gives_ok_bind (gives_sub (Nat.le_max_left _ _))
    apply gives_ok_bind (gives_sub (by omega))
    apply gives_ok_bind (gives_sub (Nat.le_max_right _ _))
    apply gives_ok_bind (gives_sub (by omega))
    have amount : min edit.span.clippedStop (base + bytes.length) - edit.start -
        (max edit.start base - edit.start) =
          min edit.span.clippedStop (base + bytes.length) - max edit.start base := by
      omega
    apply gives_ok_bind (gives_slice (by omega) (by omega))
    rw [amount]
    exact gives_copy (by omega) (by omega)
  · rw [if_pos (Nat.not_lt.mp filled), if_neg filled]
    exact gives_pure _

theorem gives_overlay (staged : EditSet) {bytes : Bytes} {span : Span}
    (small : span.start + bytes.length < offsetLimit) :
    Gives (overlay staged bytes span : Machine ε Bytes) (.ok (staged.overlay bytes span)) := by
  have kept : ∀ painted : Bytes, span.start + painted.length < offsetLimit →
      ∀ edit ∈ staged.touching span,
        Gives (paint edit span.start painted : Machine ε Bytes)
            (.ok (edit.paint span.start painted)) ∧
          span.start + (edit.paint span.start painted).length < offsetLimit := by
    intro painted inside edit _
    refine ⟨gives_paint edit inside, ?_⟩
    rwa [Edit.length_paint]
  exact gives_foldl small kept

theorem gives_write (data : Bytes) (start : Nat) (patch : Bytes) :
    Gives (write data start patch) (data.write start patch) := by
  unfold write Bytes.write Bytes.write?
  by_cases fits : start + patch.length ≤ data.length
  · rw [if_pos (Span.fitsIn_iff.mpr fits), if_pos fits]
    exact gives_copy rfl fits
  · rw [if_neg (mt Span.fitsIn_iff.mp fits), if_neg fits]
    exact gives_throw _

theorem gives_write_all (edits : List Edit) (data : Bytes) :
    Gives (writeAll edits data) (Edit.writeAll edits data) := by
  unfold writeAll Edit.writeAll
  induction edits generalizing data with
  | nil => exact gives_pure data
  | cons edit rest ih =>
    rw [List.foldlM_cons, List.foldlM_cons]
    apply gives_bind (gives_write data edit.start edit.bytes)
    intro written _
    exact ih written

theorem gives_check_apart (earlier later : Edit) :
    Gives (checkApart [earlier, later])
      (if earlier.span.overlaps later.span then
        .error (.violation (.edit later.target) later.start
          (.overlapsEdit earlier.target earlier.span))
      else .ok ()) := by
  apply gives_ok_bind (gives_item rfl)
  apply gives_ok_bind (gives_item rfl)
  cases earlier.span.overlaps later.span with
  | true => exact gives_throw _
  | false => exact gives_pure _

theorem gives_check_disjoint (staged : EditSet) :
    Gives (checkDisjoint staged) staged.checkDisjoint := by
  let filled := staged.edits.filter fun edit => !edit.span.isEmpty
  have search : staged.checkDisjoint =
      refusal (fun pair : Edit × Edit => .violation (.edit pair.2.target) pair.2.start
        (.overlapsEdit pair.1.target pair.1.span)) staged.clash? := by
    unfold EditSet.checkDisjoint
    cases staged.clash? <;> rfl
  rw [search]
  exact gives_search_windows (sortOn Edit.start filled) gives_check_apart

end Machine

end BinaryImage
