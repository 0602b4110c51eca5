import BinaryImage.Edit.Staged
import Mathlib.Data.List.Sort

/-!
Values meant for places of a file. Which values a place takes is told by the file alone: the place
is a string with its terminator, or a segment that is filled by one, and staged edits do not come
in. A set of edits is told by what it holds for each target.
-/

namespace BinaryImage

namespace Bytes

/-- The string that starts at a place of the file, its terminator included. -/
def stringSpan (data : Bytes) (start : Nat) : Span :=
  ⟨start, (beforeNul (data.drop start)).length + 1⟩

theorem terminator_eq_some_iff {bytes : Bytes} {length : Nat} :
    terminator? bytes = some length ↔ 0 ∈ bytes ∧ length = (beforeNul bytes).length := by
  unfold terminator? beforeNul
  induction bytes generalizing length with
  | nil => simp
  | cons byte rest ih =>
    rw [List.findIdx?_cons, List.takeWhile_cons]
    by_cases nul : byte = 0
    · simp [nul, eq_comm]
    · have live : (byte == 0) = false := beq_eq_false_iff_ne.mpr nul
      have other : (0 : UInt8) ≠ byte := Ne.symm nul
      simp only [live, Bool.false_eq_true, if_false, Option.map_eq_some_iff, ih, bne,
        Bool.not_false, if_true, List.length_cons, List.mem_cons, other, false_or]
      constructor
      · rintro ⟨_, ⟨inRest, rfl⟩, rfl⟩
        exact ⟨inRest, rfl⟩
      · rintro ⟨inRest, rfl⟩
        exact ⟨_, ⟨inRest, rfl⟩, rfl⟩

end Bytes

structure Assignment where
  target : EditTarget
  place : Span
  value : String
  deriving DecidableEq

namespace Assignment

/-- The value holds no NUL and leaves room for one. -/
def Fits (assignment : Assignment) : Prop :=
  0 ∉ Text.Utf8.encode assignment.value ∧
    (Text.Utf8.encode assignment.value).length + 1 ≤ assignment.place.length

instance (assignment : Assignment) : Decidable assignment.Fits :=
  inferInstanceAs (Decidable (0 ∉ Text.Utf8.encode assignment.value ∧
    (Text.Utf8.encode assignment.value).length + 1 ≤ assignment.place.length))

def Unshared (assignment : Assignment) (others : List Span) : Prop :=
  ∀ other ∈ others, other = assignment.place ∨ other.overlaps assignment.place = false

instance (assignment : Assignment) (others : List Span) : Decidable (assignment.Unshared others) :=
  inferInstanceAs (Decidable (∀ other ∈ others,
    other = assignment.place ∨ other.overlaps assignment.place = false))

def edit (assignment : Assignment) : Edit where
  target := assignment.target
  start := assignment.place.start
  bytes := Text.Utf8.encode assignment.value ++
    List.replicate (assignment.place.length - (Text.Utf8.encode assignment.value).length) 0

theorem padded_eq_ok_iff (assignment : Assignment) {edit : Edit} :
    Edit.padded assignment.target assignment.place assignment.value = .ok edit ↔
      assignment.Fits ∧ edit = assignment.edit := by
  rw [Edit.padded_eq_ok_iff, Fits, and_assoc]
  rfl

end Assignment

theorem Edit.find_of_mem {edits : List Edit} {edit : Edit}
    (distinct : edits.Pairwise fun a b => a.target ≠ b.target) (member : edit ∈ edits) :
    edits.find? (fun item => item.target = edit.target) = some edit := by
  induction edits with
  | nil => cases member
  | cons first rest ih =>
    obtain ⟨head, tail⟩ := List.pairwise_cons.mp distinct
    rcases List.mem_cons.mp member with rfl | later
    · simp
    · have other : first.target ≠ edit.target := head edit later
      rw [List.find?_cons_of_neg (by simpa using other)]
      exact ih tail later

namespace EditSet

theorem mem_edits_iff {staged : EditSet} {edit : Edit} :
    edit ∈ staged.edits ↔ staged.get? edit.target = some edit :=
  ⟨Edit.find_of_mem staged.targets_distinct, List.mem_of_find?_eq_some⟩

/-- Edits are in the order of their targets, so what is found for each target tells the set. -/
theorem ext_get {a b : EditSet} (same : ∀ target, a.get? target = b.get? target) : a = b := by
  have antisymm : Std.Antisymm fun a b : Edit => a.target.Before b.target := by
    refine ⟨fun _ _ before after => ?_⟩
    exact absurd rfl (EditTarget.ne_of_before (EditTarget.before_trans before after))
  have irrefl : Std.Irrefl fun a b : Edit => a.target.Before b.target :=
    ⟨fun _ before => EditTarget.ne_of_before before rfl⟩
  have edits : a.edits = b.edits := by
    apply a.ordered.eq_of_mem_iff b.ordered
    intro edit
    rw [mem_edits_iff, mem_edits_iff, same]
  cases a
  cases b
  cases edits
  rfl

/-- Staging an edit once more changes nothing. -/
theorem stage_again (staged : EditSet) (edit : Edit) :
    (staged.stage edit).stage edit = staged.stage edit := by
  apply ext_get
  intro target
  simp only [get_stage]
  split <;> rfl

def assign (staged : EditSet) : Option Assignment → EditSet
  | some assignment => staged.stage assignment.edit
  | none => staged

theorem get_assign (staged : EditSet) (assignment : Assignment) (target : EditTarget) :
    (staged.assign (some assignment)).get? target =
      if assignment.target = target then some assignment.edit else staged.get? target :=
  staged.get_stage assignment.edit target

theorem assign_again (staged : EditSet) (accepted : Option Assignment) :
    (staged.assign accepted).assign accepted = staged.assign accepted := by
  cases accepted with
  | none => rfl
  | some assignment => exact staged.stage_again assignment.edit

end EditSet

end BinaryImage
