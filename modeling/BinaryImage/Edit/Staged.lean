import BinaryImage.Bytes.Access
import BinaryImage.Edit.Basic
import BinaryImage.Sorting

/-!
Edits staged over a file, at most one a target and in the order of their targets. Staging a
target again replaces its edit. The edits may be looked at through a slice of the file before
they are written, and they are written all at once.
-/

namespace BinaryImage

namespace Edit

/-- Into its place, or over the edit of the same target. -/
def insert (edit : Edit) : List Edit → List Edit
  | [] => [edit]
  | first :: rest =>
    if edit.target = first.target then edit :: rest
    else if edit.target.Before first.target then edit :: first :: rest
    else first :: insert edit rest

def writeAll (edits : List Edit) (data : Bytes) : Except Error Bytes :=
  edits.foldlM (fun written edit => written.write edit.start edit.bytes) data

def Ordered (edits : List Edit) : Prop := edits.Pairwise fun a b => a.target.Before b.target

theorem mem_insert {edit item : Edit} {edits : List Edit} (found : item ∈ insert edit edits) :
    item = edit ∨ item ∈ edits := by
  induction edits with
  | nil => simpa [insert] using found
  | cons first rest ih =>
    unfold insert at found
    split at found
    · rcases List.mem_cons.mp found with same | inRest
      · exact .inl same
      · exact .inr (List.mem_cons_of_mem _ inRest)
    · split at found
      · exact List.mem_cons.mp found
      · rcases List.mem_cons.mp found with same | inRest
        · exact .inr (same ▸ List.mem_cons_self)
        · exact (ih inRest).imp_right (List.mem_cons_of_mem _)

theorem find_insert (edit : Edit) (edits : List Edit) (target : EditTarget) :
    (insert edit edits).find? (fun item => item.target = target) =
      if edit.target = target then some edit
      else edits.find? fun item => item.target = target := by
  induction edits with
  | nil => by_cases hit : edit.target = target <;> simp [insert, hit]
  | cons first rest ih =>
    unfold insert
    split
    · next same =>
      rw [List.find?_cons, List.find?_cons, ← same]
      by_cases hit : edit.target = target <;> simp [hit]
    · next different =>
      split
      · by_cases hit : edit.target = target <;> simp [hit]
      · rw [List.find?_cons, List.find?_cons, ih]
        by_cases found : first.target = target
        · have other : edit.target ≠ target := fun hit => different (hit.trans found.symm)
          simp [found, other]
        · simp [found]

theorem insert_ordered (edit : Edit) {edits : List Edit} (ordered : Ordered edits) :
    Ordered (insert edit edits) := by
  induction edits with
  | nil => exact List.pairwise_singleton _ _
  | cons first rest ih =>
    obtain ⟨head, tail⟩ := List.pairwise_cons.mp ordered
    unfold insert
    split
    · next same => exact List.pairwise_cons.mpr ⟨fun item inRest => same ▸ head item inRest, tail⟩
    · next different =>
      split
      · next before =>
        refine List.pairwise_cons.mpr ⟨fun item found => ?_, ordered⟩
        rcases List.mem_cons.mp found with same | inRest
        · exact same ▸ before
        · exact EditTarget.before_trans before (head item inRest)
      · next behind =>
        refine List.pairwise_cons.mpr ⟨fun item found => ?_, ih tail⟩
        rcases mem_insert found with same | inRest
        · exact same ▸ EditTarget.before_of_ne different behind
        · exact head item inRest

end Edit

structure EditSet where
  edits : List Edit
  ordered : Edit.Ordered edits
  deriving DecidableEq

namespace EditSet

def empty : EditSet := ⟨[], List.Pairwise.nil⟩

def stage (staged : EditSet) (edit : Edit) : EditSet :=
  ⟨edit.insert staged.edits, edit.insert_ordered staged.ordered⟩

def get? (staged : EditSet) (target : EditTarget) : Option Edit :=
  staged.edits.find? fun edit => edit.target = target

-- Staging replaces what was staged for the target, and nothing else.
theorem get_stage (staged : EditSet) (edit : Edit) (target : EditTarget) :
    (staged.stage edit).get? target =
      if edit.target = target then some edit else staged.get? target :=
  edit.find_insert staged.edits target

theorem targets_distinct (staged : EditSet) :
    staged.edits.Pairwise fun a b => a.target ≠ b.target :=
  staged.ordered.imp EditTarget.ne_of_before

def size (staged : EditSet) : Nat := staged.edits.length

def isEmpty (staged : EditSet) : Bool := staged.edits.isEmpty

def touching (staged : EditSet) (span : Span) : List Edit :=
  staged.edits.filter fun edit => edit.span.overlaps span

/-- The bytes of `span`, given as `bytes`, as they will be written. -/
def overlay (staged : EditSet) (bytes : Bytes) (span : Span) : Bytes :=
  (staged.touching span).foldl (fun painted edit => edit.paint span.start painted) bytes

theorem length_overlay (staged : EditSet) (bytes : Bytes) (span : Span) :
    (staged.overlay bytes span).length = bytes.length := by
  unfold overlay
  generalize staged.touching span = edits
  induction edits generalizing bytes with
  | nil => rfl
  | cons edit rest ih => rw [List.foldl_cons, ih, Edit.length_paint]

def clash? (staged : EditSet) : Option (Edit × Edit) :=
  let filled := staged.edits.filter fun edit => !edit.span.isEmpty
  (neighbours (sortOn Edit.start filled)).find? fun (earlier, later) =>
    earlier.span.overlaps later.span

-- Were two edits to share a byte, the outcome of writing them would depend on their order.
def checkDisjoint (staged : EditSet) : Except Error Unit :=
  match staged.clash? with
  | some (earlier, later) =>
    .error (.violation (.edit later.target) later.start
      (.overlapsEdit earlier.target earlier.span))
  | none => .ok ()

def write (staged : EditSet) (data : Bytes) : Except Error Bytes := Edit.writeAll staged.edits data

end EditSet

end BinaryImage
