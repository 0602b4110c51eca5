import BinaryImage.Error
import BinaryImage.Sorting

/-!
Placement of named spans: inside the file, and clear of each other.
-/

namespace BinaryImage.Layout

structure Region where
  entity : Entity
  span : Span
  deriving DecidableEq

def isPowerOfTwo (n : Nat) : Bool := 1 <<< n.log2 == n

def isPowerOfTwoOrZero (n : Nat) : Bool := n == 0 || isPowerOfTwo n

theorem isPowerOfTwo_iff {n : Nat} : isPowerOfTwo n = true ↔ n.isPowerOfTwo := by
  rw [isPowerOfTwo, beq_iff_eq, Nat.shiftLeft_eq, Nat.one_mul]
  constructor
  · intro same
    exact ⟨n.log2, same.symm⟩
  · rintro ⟨exponent, rfl⟩
    rw [Nat.log2_two_pow]

theorem isPowerOfTwoOrZero_iff {n : Nat} :
    isPowerOfTwoOrZero n = true ↔ n = 0 ∨ n.isPowerOfTwo := by
  rw [isPowerOfTwoOrZero, Bool.or_eq_true, beq_iff_eq, isPowerOfTwo_iff]

def checkInside (fileLength : Nat) (region : Region) : Except Error Unit :=
  require (region.span.fitsIn fileLength)
    (.violation region.entity region.span.start (.exceedsFile region.span fileLength))

/-- The first pair, in a list sorted by start, whose later region starts before the earlier one
stops, and which is not excused. -/
def firstConflict? (excused : Region → Region → Bool) : List Region → Option (Region × Region)
  | [] => none
  | region :: rest =>
    let reached := rest.takeWhile fun later => later.span.start < region.span.clippedStop
    match reached.find? fun later => !excused region later with
    | some later => some (region, later)
    | none => firstConflict? excused rest

def checkDisjoint (space : Space) (excused : Region → Region → Bool) (regions : List Region) :
    Except Error Unit :=
  let filled := regions.filter fun region => !region.span.isEmpty
  match firstConflict? excused (sortOn (fun region => region.span.start) filled) with
  | some (earlier, later) =>
    .error (.violation later.entity later.span.start
      (.overlaps space later.span earlier.entity earlier.span))
  | none => .ok ()

def noExcuse : Region → Region → Bool := fun _ _ => false

end BinaryImage.Layout
