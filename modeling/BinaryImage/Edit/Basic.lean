import BinaryImage.Error
import BinaryImage.Text.Utf8

/-!
An edit replaces a span of a file by bytes of the same length; its span is read off its bytes.
-/

namespace BinaryImage

structure Edit where
  target : EditTarget
  start : Nat
  bytes : Bytes
  deriving DecidableEq

namespace Edit

def span (edit : Edit) : Span := ⟨edit.start, edit.bytes.length⟩

def byteAt? (edit : Edit) (offset : Nat) : Option UInt8 :=
  if edit.start ≤ offset then edit.bytes[offset - edit.start]? else none

/-- Lay the edit over `bytes`, which are those of the file from `base` on. The edit is clipped to
them at both ends. -/
def paint (edit : Edit) (base : Nat) (bytes : Bytes) : Bytes :=
  let start := max edit.start base
  let stop := min edit.span.clippedStop (base + bytes.length)
  if start < stop then
    bytes.splice (start - base) ((edit.bytes.drop (start - edit.start)).take (stop - start))
  else
    bytes

theorem byteAt_of_covers {edit : Edit} {offset : Nat} (inside : edit.span.Covers offset) :
    edit.byteAt? offset = edit.bytes[offset - edit.start]? := by
  have reached : edit.start ≤ offset := inside.1
  simp only [byteAt?, if_pos reached]

theorem byteAt_eq_none_iff (edit : Edit) (offset : Nat) :
    edit.byteAt? offset = none ↔ ¬ edit.span.Covers offset := by
  simp only [byteAt?, Span.Covers, span]
  split
  · rw [List.getElem?_eq_none_iff]
    omega
  · next before => simp [before]

/-- The part of the edit that is laid over `length` bytes from `base` on. -/
theorem length_clipped (edit : Edit) {base length : Nat}
    (filled : max edit.start base < min edit.span.clippedStop (base + length)) :
    ((edit.bytes.drop (max edit.start base - edit.start)).take
      (min edit.span.clippedStop (base + length) - max edit.start base)).length =
        min edit.span.clippedStop (base + length) - max edit.start base := by
  rw [edit.span.clippedStop_eq_min] at filled ⊢
  simp only [span] at filled ⊢
  rw [List.length_take, List.length_drop]
  omega

theorem length_paint (edit : Edit) (base : Nat) (bytes : Bytes) :
    (edit.paint base bytes).length = bytes.length := by
  simp only [paint]
  split
  · next filled =>
    apply Bytes.length_splice
    rw [edit.length_clipped filled]
    omega
  · rfl

-- Clipping loses nothing: byte by byte, painting is looking the edit up.
theorem getElem_paint (edit : Edit) {base : Nat} {bytes : Bytes}
    (small : base + bytes.length < offsetLimit) (index : Nat) :
    (edit.paint base bytes)[index]? =
      bytes[index]?.map fun byte => (edit.byteAt? (base + index)).getD byte := by
  by_cases read : index < bytes.length
  · have stops : min edit.span.clippedStop (base + bytes.length) =
        min (edit.start + edit.bytes.length) (base + bytes.length) := by
      rw [edit.span.clippedStop_eq_min]
      simp only [span]
      omega
    simp only [paint, List.getElem?_eq_getElem read, Option.map_some]
    by_cases inside : edit.span.Covers (base + index)
    · have reached : edit.start ≤ base + index := inside.1
      have below : base + index < edit.start + edit.bytes.length := inside.2
      have filled : max edit.start base < min edit.span.clippedStop (base + bytes.length) := by
        omega
      have place : max edit.start base - edit.start + (index - (max edit.start base - base)) =
          base + index - edit.start := by omega
      rw [if_pos filled, Bytes.getElem_splice, edit.length_clipped filled, if_pos (by omega),
        List.getElem?_take_of_lt (by omega), List.getElem?_drop, place, byteAt_of_covers inside,
        List.getElem?_eq_getElem (by omega), Option.getD_some]
      rw [edit.length_clipped filled]
      omega
    · rw [(edit.byteAt_eq_none_iff _).mpr inside, Option.getD_none]
      have away : ¬ (edit.start ≤ base + index ∧
        base + index < edit.start + edit.bytes.length) := inside
      split
      · next filled =>
        rw [Bytes.getElem_splice, edit.length_clipped filled, if_neg (by omega),
          List.getElem?_eq_getElem read]
        rw [edit.length_clipped filled]
        omega
      · exact List.getElem?_eq_getElem read
  · have beyond : (edit.paint base bytes)[index]? = none := by
      rw [List.getElem?_eq_none_iff, length_paint]
      omega
    rw [beyond, List.getElem?_eq_none (by omega), Option.map_none]

/-- An edit that fills `span` with `value` and NUL bytes. The value has to leave room for at least
one terminator and may not hold one itself. -/
def padded (target : EditTarget) (span : Span) (value : String) : Except Error Edit := do
  let text := Text.Utf8.encode value
  require (!text.contains 0) (.invalid (.containsNul target))
  require (text.length + 1 ≤ span.length) (.noRoom target (text.length + 1) span.length)
  return ⟨target, span.start, text ++ List.replicate (span.length - text.length) 0⟩

theorem padded_eq_ok_iff {target : EditTarget} {span : Span} {value : String} {edit : Edit} :
    padded target span value = .ok edit ↔
      0 ∉ Text.Utf8.encode value ∧ (Text.Utf8.encode value).length + 1 ≤ span.length ∧
        edit = ⟨target, span.start, Text.Utf8.encode value ++
          List.replicate (span.length - (Text.Utf8.encode value).length) 0⟩ := by
  simp only [padded, bind_eq_ok_iff, require_eq_ok_iff, exists_const, Bool.not_eq_true',
    List.contains_eq_mem, decide_eq_false_iff_not, decide_eq_true_eq, pure, Except.pure,
    Except.ok.injEq, eq_comm (b := edit)]

-- What is written fills its span, the last byte of it with a NUL.
theorem of_padded {target : EditTarget} {span : Span} {value : String} {edit : Edit}
    (done : padded target span value = .ok edit) :
    edit.target = target ∧ edit.span = span ∧ edit.bytes.getLast? = some 0 := by
  obtain ⟨_, room, rfl⟩ := padded_eq_ok_iff.mp done
  refine ⟨rfl, ?_, ?_⟩
  · simp only [Edit.span, List.length_append, List.length_replicate]
    rw [Nat.add_sub_cancel' (by omega)]
  · have padding : span.length - (Text.Utf8.encode value).length ≠ 0 := by omega
    rw [List.getLast?_append, List.getLast?_replicate, if_neg padding]
    rfl

end Edit

end BinaryImage
