import BinaryImage.Text.Hex

/-!
Half-open spans of file offsets or of addresses. Both are 64-bit quantities: a span whose end
lies above the largest offset has no stop, and a comparison clips it there.
-/

namespace BinaryImage

/-- Offsets and addresses lie strictly below this bound, the 64th power of two. -/
def offsetLimit : Nat := 0x10000000000000000

structure Span where
  start : Nat
  length : Nat
  deriving DecidableEq

namespace Span

def stop? (span : Span) : Option Nat :=
  if span.start + span.length < offsetLimit then some (span.start + span.length) else none

/-- The stop, or the largest offset where there is none. -/
def clippedStop (span : Span) : Nat := span.stop?.getD (offsetLimit - 1)

def isEmpty (span : Span) : Bool := span.length == 0

def fitsIn (span : Span) (size : Nat) : Bool := span.start + span.length ≤ size

def contains (outer inner : Span) : Bool :=
  match outer.stop?, inner.stop? with
  | some outerStop, some innerStop => outer.start ≤ inner.start && innerStop ≤ outerStop
  | _, _ => false

-- An empty span overlaps nothing, not even a span around it.
def overlaps (a b : Span) : Bool :=
  !a.isEmpty && !b.isEmpty && a.start < b.clippedStop && b.start < a.clippedStop

def Covers (span : Span) (offset : Nat) : Prop :=
  span.start ≤ offset ∧ offset < span.start + span.length

def Apart (a b : Span) : Prop := ∀ offset, ¬ (a.Covers offset ∧ b.Covers offset)

def render (span : Span) : String :=
  "[" ++ Text.hex span.start ++ ", +" ++ Text.hex span.length ++ ")"

theorem fitsIn_iff {span : Span} {size : Nat} :
    span.fitsIn size = true ↔ span.start + span.length ≤ size := decide_eq_true_iff

theorem clippedStop_eq_min (span : Span) :
    span.clippedStop = min (span.start + span.length) (offsetLimit - 1) := by
  unfold clippedStop stop?
  split
  · simp only [Option.getD_some]
    omega
  · simp only [Option.getD_none]
    omega

theorem isEmpty_eq_false_iff (span : Span) : span.isEmpty = false ↔ 0 < span.length := by
  unfold isEmpty
  rw [beq_eq_false_iff_ne]
  omega

theorem overlaps_iff (a b : Span) :
    a.overlaps b = true ↔
      0 < a.length ∧ 0 < b.length ∧ a.start < b.clippedStop ∧ b.start < a.clippedStop := by
  simp only [overlaps, Bool.and_eq_true, Bool.not_eq_true', isEmpty_eq_false_iff,
    decide_eq_true_eq, and_assoc]

theorem overlaps_comm (a b : Span) : a.overlaps b = b.overlaps a := by
  apply Bool.eq_iff_iff.mpr
  rw [overlaps_iff, overlaps_iff]
  constructor
  · rintro ⟨filled, other, before, after⟩
    exact ⟨other, filled, after, before⟩
  · rintro ⟨filled, other, before, after⟩
    exact ⟨other, filled, after, before⟩

theorem overlaps_of_covers {a b : Span} (small : b.start + b.length < offsetLimit)
    {offset : Nat} (inA : a.Covers offset) (inB : b.Covers offset) : a.overlaps b = true := by
  unfold Covers at inA inB
  rw [overlaps_iff, a.clippedStop_eq_min, b.clippedStop_eq_min]
  omega

theorem not_covers_of_apart {a b : Span} (small : b.start + b.length < offsetLimit)
    (apart : a.overlaps b = false) {offset : Nat} (inA : a.Covers offset) : ¬ b.Covers offset := by
  intro inB
  rw [overlaps_of_covers small inA inB] at apart
  cases apart

-- Below the limit, where nothing is clipped, spans overlap when they share a place.
theorem overlaps_iff_covers {a b : Span} (smallA : a.start + a.length < offsetLimit)
    (smallB : b.start + b.length < offsetLimit) :
    a.overlaps b = true ↔ ∃ offset, a.Covers offset ∧ b.Covers offset := by
  constructor
  · intro shared
    rw [overlaps_iff, a.clippedStop_eq_min, b.clippedStop_eq_min] at shared
    refine ⟨max a.start b.start, ?_, ?_⟩
    · unfold Covers
      omega
    · unfold Covers
      omega
  · rintro ⟨offset, inA, inB⟩
    exact overlaps_of_covers smallB inA inB

theorem overlaps_eq_false_iff_apart {a b : Span} (smallA : a.start + a.length < offsetLimit)
    (smallB : b.start + b.length < offsetLimit) : a.overlaps b = false ↔ a.Apart b := by
  rw [← Bool.not_eq_true, overlaps_iff_covers smallA smallB, not_exists]
  rfl

end Span

end BinaryImage
