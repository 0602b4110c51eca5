import BinaryImage.Proofs.Agreement
import BinaryImage.Proofs.UnsignedRange
import Mathlib.Algebra.BigOperators.Ring.Finset
import Mathlib.Data.List.TakeWhile

/-!
Fields and strings by their places. A reader takes one field after another, so where a field lies
is the sum of all widths before it. Here a field is told by the bytes at an offset of the file, with
no reader: each byte counts by its significance. What readers return is described in these terms,
from one field to a record and on to a table of records.
-/

namespace BinaryImage

namespace Unsigned

theorem decode_little_eq_sum (bytes : Bytes) :
    decodeLittle bytes =
      ∑ significance ∈ Finset.range bytes.length,
        (bytes.getD significance 0).toNat * 256 ^ significance := by
  induction bytes with
  | nil => rfl
  | cons byte rest ih =>
    have shifted : ∀ significance ∈ Finset.range rest.length,
        256 * ((rest.getD significance 0).toNat * 256 ^ significance) =
          ((byte :: rest).getD (significance + 1) 0).toNat * 256 ^ (significance + 1) := by
      intro significance _
      rw [List.getD_cons_succ, Nat.pow_succ, Nat.mul_left_comm, Nat.mul_comm 256]
    rw [decodeLittle, ih, List.length_cons, Finset.sum_range_succ', Finset.mul_sum,
      Finset.sum_congr rfl shifted, List.getD_cons_zero, Nat.pow_zero, Nat.mul_one, Nat.add_comm]

end Unsigned

namespace ByteOrder

/-- Where the byte of a significance stands in a field of `size` bytes. -/
def placeOf : ByteOrder → (size significance : Nat) → Nat
  | little, _, significance => significance
  | big, size, significance => size - 1 - significance

def unsignedAt (order : ByteOrder) (data : Bytes) (offset size : Nat) : Nat :=
  ∑ significance ∈ Finset.range size,
    (data.getD (offset + order.placeOf size significance) 0).toNat * 256 ^ significance

-- The most significant byte stands first in the one order and last in the other.
theorem decode_eq_sum (order : ByteOrder) (bytes : Bytes) :
    order.decode bytes =
      ∑ significance ∈ Finset.range bytes.length,
        (bytes.getD (order.placeOf bytes.length significance) 0).toNat * 256 ^ significance := by
  cases order with
  | little => exact Unsigned.decode_little_eq_sum bytes
  | big =>
    rw [decode, Unsigned.decode_little_eq_sum, List.length_reverse]
    apply Finset.sum_congr rfl
    intro significance member
    have below := Finset.mem_range.mp member
    rw [placeOf, List.getD_eq_getElem?_getD, List.getD_eq_getElem?_getD,
      List.getElem?_reverse below]

theorem decode_eq_unsigned_at (order : ByteOrder) {data : Bytes} {offset size : Nat}
    (inside : offset + size ≤ data.length) :
    order.decode ((data.drop offset).take size) = order.unsignedAt data offset size := by
  have length : ((data.drop offset).take size).length = size := by
    rw [List.length_take, List.length_drop]
    omega
  rw [decode_eq_sum, length, unsignedAt]
  apply Finset.sum_congr rfl
  intro significance member
  have below := Finset.mem_range.mp member
  have place : order.placeOf size significance < size := by
    cases order
    · exact below
    · simp only [placeOf]
      omega
  rw [List.getD_eq_getElem?_getD, List.getD_eq_getElem?_getD, List.getElem?_take_of_lt place,
    List.getElem?_drop]

example : little.unsignedAt [9, 1, 2, 9] 1 2 = 0x201 := by decide

example : big.unsignedAt [9, 1, 2, 9] 1 2 = 0x102 := by decide

end ByteOrder

namespace Bytes

/-- The NUL-terminated string at `index` of a table that lies in the file. -/
def StringAt (data : Bytes) (table : Span) (index : Nat) (text : Bytes) : Prop :=
  0 ∉ text ∧ index + text.length + 1 ≤ table.length ∧
    data.slice? ⟨table.start + index, text.length + 1⟩ = some (text ++ [0])

/-- The first NUL from a place on. -/
theorem terminator_drop_eq_some_iff {data : Bytes} {start length : Nat} :
    terminator? (data.drop start) = some length ↔
      data[start + length]? = some 0 ∧ ∀ index < length, data[start + index]? ≠ some 0 := by
  constructor
  · intro ends
    have nul := nul_of_terminator ends
    obtain ⟨_, _, live⟩ := List.findIdx?_eq_some_iff_getElem.mp ends
    rw [List.getElem?_drop] at nul
    refine ⟨nul, ?_⟩
    intro index before zero
    have alive := live index before
    rw [← List.getElem?_drop, List.getElem?_eq_some_iff] at zero
    obtain ⟨_, zero⟩ := zero
    simp [zero] at alive
  · rintro ⟨nul, live⟩
    rw [← List.getElem?_drop, List.getElem?_eq_some_iff] at nul
    obtain ⟨below, nul⟩ := nul
    refine List.findIdx?_eq_some_iff_getElem.mpr ⟨below, by simp [nul], ?_⟩
    intro index before zero
    apply live index before
    rw [← List.getElem?_drop, List.getElem?_eq_getElem (Nat.lt_trans before below),
      beq_iff_eq.mp zero]

/-- The span ends with the first NUL from its start on. -/
def EndsAtNul (data : Bytes) (span : Span) : Prop :=
  ∃ length, span.length = length + 1 ∧ data[span.start + length]? = some 0 ∧
    ∀ index < length, data[span.start + index]? ≠ some 0

theorem ends_at_nul_iff {data : Bytes} {start : Nat} :
    (∃ span, span.start = start ∧ data.EndsAtNul span) ↔
      ∃ offset, start ≤ offset ∧ data[offset]? = some 0 := by
  constructor
  · rintro ⟨span, rfl, length, _, nul, _⟩
    exact ⟨span.start + length, Nat.le_add_right _ _, nul⟩
  · rintro ⟨offset, behind, nul⟩
    have member : 0 ∈ data.drop start := by
      apply List.mem_of_getElem? (i := offset - start)
      rwa [List.getElem?_drop, Nat.add_sub_cancel' behind]
    obtain ⟨length, ends⟩ := Option.isSome_iff_exists.mp (terminator_isSome_iff.mpr member)
    obtain ⟨nul, live⟩ := terminator_drop_eq_some_iff.mp ends
    exact ⟨⟨start, length + 1⟩, rfl, length, rfl, nul, live⟩

theorem nul_not_mem_beforeNul (bytes : Bytes) : 0 ∉ beforeNul bytes := by
  intro member
  have live := List.mem_takeWhile_imp member
  cases live

theorem take_of_terminator {bytes : Bytes} {length : Nat} (ends : terminator? bytes = some length) :
    bytes.take length = beforeNul bytes := by
  have front := take_terminator bytes
  rwa [ends] at front

/-- A string with its terminator, cut out of what it is scanned in. -/
theorem slice_of_terminator {bytes : Bytes} {index length : Nat}
    (ends : terminator? (bytes.drop index) = some length) :
    bytes.slice? ⟨index, length + 1⟩ = some (beforeNul (bytes.drop index) ++ [0]) := by
  have nul := nul_of_terminator ends
  have inside := (List.getElem?_eq_some_iff.mp nul).1
  rw [List.length_drop] at inside
  rw [slice_of_fits (by simp only; omega), Option.some.injEq, List.take_add_one,
    take_of_terminator ends, nul]
  rfl

theorem string_at_of_terminator {data bytes : Bytes} {table : Span} {index length : Nat}
    (sliced : data.slice? table = some bytes)
    (ends : terminator? (bytes.drop index) = some length) :
    data.StringAt table index (beforeNul (bytes.drop index)) := by
  have text := slice_of_terminator ends
  have counted := length_slice text
  have inside := (slice_eq_some_iff.mp text).1
  have exact := length_slice sliced
  simp only [List.length_append, List.length_singleton] at counted inside
  have part := slice_slice sliced ⟨index, length + 1⟩ (by simp only; omega)
  refine ⟨nul_not_mem_beforeNul _, by omega, ?_⟩
  rw [counted, ← part, text]

end Bytes

namespace Reader

/-- From any place of a slice the reader takes `size` bytes and returns what `value` says of this
place of the file. -/
def Reads {α : Type} (reader : Reader α) (size : Nat) (value : Bytes → Nat → α) : Prop :=
  ∀ (data bytes : Bytes) (span : Span) (base position : Nat), data.slice? span = some bytes →
    position + size ≤ span.length →
      reader ⟨bytes, base, position⟩ =
        .ok (value data (span.start + position)) ⟨bytes, base, position + size⟩

variable {α β : Type}

theorem reads_pure (result : α) : Reads (pure result) 0 fun _ _ => result :=
  fun _ _ _ _ _ _ _ => rfl

theorem reads_skip (count : Nat) : Reads (FieldReader.skip count) count fun _ _ => () :=
  fun _ _ _ _ _ _ _ => rfl

theorem reads_unsigned (order : ByteOrder) (width : Width) :
    Reads (FieldReader.unsigned order width) width.size
      fun data offset => order.unsignedAt data offset width.size := by
  intro data bytes span base position sliced room
  have length := Bytes.length_slice sliced
  have part := Bytes.slice_slice sliced ⟨position, width.size⟩ room
  obtain ⟨fits, _⟩ := Bytes.slice_eq_some_iff.mp sliced
  have inside : span.start + position + width.size ≤ data.length := by omega
  have within : position + width.size ≤ bytes.length := by omega
  rw [Bytes.slice_of_fits within, Bytes.slice_of_fits inside, Option.some.injEq] at part
  change unsigned order width _ = _
  rw [unsigned, if_pos within]
  simp only [part, order.decode_eq_unsigned_at inside]

theorem reads_bind {first : Reader β} {rest : β → Reader α} {size later : Nat}
    {value : Bytes → Nat → β} {restValue : β → Bytes → Nat → α} (start : Reads first size value)
    (next : ∀ result, Reads (rest result) later (restValue result)) :
    Reads (first >>= rest) (size + later)
      fun data offset => restValue (value data offset) data (offset + size) := by
  intro data bytes span base position sliced room
  have begun := start data bytes span base position sliced (by omega)
  have done := next (value data (span.start + position)) data bytes span base (position + size)
    sliced (by omega)
  change EStateM.bind first rest _ = _
  simp only [EStateM.bind, begun, done, Nat.add_assoc]

theorem Reads.congr {reader : Reader α} {size other : Nat} {value same : Bytes → Nat → α}
    (reads : Reads reader size value) (sizes : size = other)
    (values : ∀ data offset, value data offset = same data offset) : Reads reader other same := by
  subst sizes
  have equal : value = same := funext₂ values
  exact equal ▸ reads

/-- A table is read record by record, each right behind the one before. -/
theorem reads_times {reader : Reader α} {size : Nat} {value : Bytes → Nat → α}
    (reads : Reads reader size value) (count : Nat) :
    Reads (FieldReader.times reader count) (count * size)
      fun data offset =>
        (List.range count).map fun index => value data (offset + index * size) := by
  induction count with
  | zero => exact (reads_pure []).congr (Nat.zero_mul size).symm fun _ _ => rfl
  | succ count ih =>
    have table := reads_bind reads fun first => reads_bind ih fun rest => reads_pure (first :: rest)
    refine table.congr ?_ fun data offset => ?_
    · rw [Nat.add_zero, Nat.succ_mul, Nat.add_comm]
    · rw [List.range_succ_eq_map, List.map_cons, List.map_map, Nat.zero_mul, Nat.add_zero]
      congr 1
      apply List.map_congr_left
      intro index _
      simp only [Function.comp, Nat.succ_mul, Nat.add_assoc, Nat.add_comm size]

theorem Reads.run_on {reader : Reader α} {size : Nat} {value : Bytes → Nat → α}
    (reads : Reads reader size value) {data bytes : Bytes} {span : Span}
    (sliced : data.slice? span = some bytes) (room : size ≤ span.length) (base : Nat) :
    reader.runOn bytes base = .ok (value data span.start) := by
  have done := reads data bytes span base 0 sliced (by omega)
  have run : reader.run ⟨bytes, base, 0⟩ = _ := done
  rw [runOn, run]
  rfl

end Reader

end BinaryImage
