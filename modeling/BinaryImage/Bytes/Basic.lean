import BinaryImage.Span

/-!
File contents as a list of bytes. A slice exists only where the whole span lies inside the
content, and a write keeps the length.
-/

namespace BinaryImage

abbrev Bytes := List UInt8

namespace Bytes

def slice? (data : Bytes) (span : Span) : Option Bytes :=
  if span.fitsIn data.length then some ((data.drop span.start).take span.length) else none

/-- `patch` in the place of as many bytes of `data` from `start` on. -/
def splice (data : Bytes) (start : Nat) (patch : Bytes) : Bytes :=
  data.take start ++ patch ++ data.drop (start + patch.length)

def write? (data : Bytes) (start : Nat) (patch : Bytes) : Option Bytes :=
  if start + patch.length ≤ data.length then some (data.splice start patch) else none

def terminator? (bytes : Bytes) : Option Nat := bytes.findIdx? (· == 0)

def beforeNul (bytes : Bytes) : Bytes := bytes.takeWhile (· != 0)

theorem slice_eq_some_iff {data bytes : Bytes} {span : Span} :
    data.slice? span = some bytes ↔
      span.start + span.length ≤ data.length ∧
        bytes = (data.drop span.start).take span.length := by
  unfold slice? Span.fitsIn
  by_cases fits : span.start + span.length ≤ data.length
  · simp [fits, eq_comm]
  · simp [fits]

theorem slice_of_fits {data : Bytes} {span : Span} (fits : span.start + span.length ≤ data.length) :
    data.slice? span = some ((data.drop span.start).take span.length) :=
  slice_eq_some_iff.mpr ⟨fits, rfl⟩

theorem write_eq_some_iff {data patch written : Bytes} {start : Nat} :
    data.write? start patch = some written ↔
      start + patch.length ≤ data.length ∧ written = data.splice start patch := by
  unfold write?
  by_cases fits : start + patch.length ≤ data.length
  · simp [fits, eq_comm]
  · simp [fits]

theorem length_splice (data patch : Bytes) {start : Nat}
    (fits : start + patch.length ≤ data.length) :
    (data.splice start patch).length = data.length := by
  simp only [splice, List.length_append, List.length_take, List.length_drop]
  omega

theorem getElem_splice (data patch : Bytes) {start : Nat}
    (fits : start + patch.length ≤ data.length) (index : Nat) :
    (data.splice start patch)[index]? =
      if start ≤ index ∧ index < start + patch.length then patch[index - start]?
      else data[index]? := by
  have front : (data.take start).length = start := by
    rw [List.length_take]
    omega
  rw [splice, List.append_assoc]
  by_cases before : index < start
  · rw [if_neg (by omega), List.getElem?_append_left (by omega), List.getElem?_take_of_lt before]
  · rw [List.getElem?_append_right (by omega), front]
    by_cases inside : index < start + patch.length
    · rw [if_pos (by omega), List.getElem?_append_left (by omega)]
    · have place : start + patch.length + (index - start - patch.length) = index := by omega
      rw [if_neg (by omega), List.getElem?_append_right (by omega), List.getElem?_drop, place]

theorem terminator_isSome_iff {bytes : Bytes} : (terminator? bytes).isSome = true ↔ 0 ∈ bytes := by
  rw [terminator?, List.findIdx?_isSome, List.any_eq_true]
  simp

-- The first NUL is a NUL.
theorem nul_of_terminator {bytes : Bytes} {position : Nat}
    (found : terminator? bytes = some position) : bytes[position]? = some 0 := by
  obtain ⟨below, nul, _⟩ := List.findIdx?_eq_some_iff_getElem.mp found
  rw [List.getElem?_eq_getElem below]
  simpa using nul

theorem terminator_le (bytes : Bytes) : (terminator? bytes).getD bytes.length ≤ bytes.length := by
  rw [terminator?, ← List.findIdx_eq_getD_findIdx?]
  exact List.findIdx_le_length

theorem take_terminator (bytes : Bytes) :
    bytes.take ((terminator? bytes).getD bytes.length) = beforeNul bytes := by
  have live : (fun byte : UInt8 => byte == 0) = fun byte => !(byte != 0) := by
    funext byte
    rw [bne, Bool.not_not]
  rw [terminator?, ← List.findIdx_eq_getD_findIdx?, beforeNul, List.takeWhile_eq_take_findIdx_not,
    live]

theorem beforeNul_append {record rest : Bytes} (nul : 0 ∈ record) :
    beforeNul (record ++ rest) = beforeNul record := by
  unfold beforeNul
  induction record with
  | nil => cases nul
  | cons byte record ih =>
    rw [List.cons_append, List.takeWhile_cons, List.takeWhile_cons]
    split
    · next live =>
      have later : 0 ∈ record := by
        rcases List.mem_cons.mp nul with rfl | later
        · cases live
        · exact later
      rw [ih later]
    · rfl

-- What stands behind a terminated slice is not looked at.
theorem beforeNul_of_slice {data record : Bytes} {span : Span}
    (sliced : data.slice? span = some record) (nul : 0 ∈ record) :
    beforeNul (data.drop span.start) = beforeNul record := by
  obtain ⟨_, rfl⟩ := slice_eq_some_iff.mp sliced
  rw [← beforeNul_append nul, List.take_append_drop]

theorem beforeNul_padded {text : Bytes} (clean : 0 ∉ text) {count : Nat} (padded : count ≠ 0) :
    beforeNul (text ++ List.replicate count 0) = text := by
  obtain ⟨count, rfl⟩ := Nat.exists_eq_succ_of_ne_zero padded
  unfold beforeNul
  induction text with
  | nil => rfl
  | cons byte text ih =>
    rw [List.mem_cons, not_or] at clean
    have live : (byte != 0) = true := bne_iff_ne.mpr (Ne.symm clean.1)
    rw [List.cons_append, List.takeWhile_cons, if_pos live, ih clean.2]

theorem length_slice {data bytes : Bytes} {span : Span} (found : data.slice? span = some bytes) :
    bytes.length = span.length := by
  obtain ⟨fits, rfl⟩ := slice_eq_some_iff.mp found
  simp only [List.length_take, List.length_drop]
  omega

theorem length_write {data patch written : Bytes} {start : Nat}
    (done : data.write? start patch = some written) : written.length = data.length := by
  obtain ⟨fits, rfl⟩ := write_eq_some_iff.mp done
  exact length_splice data patch fits

end Bytes

end BinaryImage
