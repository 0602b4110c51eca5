import BinaryImage.Proofs.Elf.DynamicEntries
import BinaryImage.Proofs.FieldPlaces

/-!
Strings of one table. A string goes on to the first NUL from its index on, so two strings that share
a byte end together, and the one that starts later is a tail of the other. A string may be replaced
by any bytes that end with a NUL: what was a string before is still one, and strings elsewhere stay
as they are.
-/

namespace BinaryImage

theorem Span.contains_of_within {outer inner : Span}
    (small : outer.start + outer.length < offsetLimit) (first : outer.start ≤ inner.start)
    (last : inner.start + inner.length ≤ outer.start + outer.length) :
    outer.contains inner = true := by
  have stopOuter : outer.stop? = some _ := if_pos small
  have stopInner : inner.stop? = some _ := if_pos (Nat.lt_of_le_of_lt last small)
  simp only [contains, stopOuter, stopInner, Bool.and_eq_true, decide_eq_true_eq]
  exact ⟨first, last⟩

namespace Bytes.EndsAtNul

variable {bytes patch : Bytes} {a b : Span}

theorem length_pos (ends : bytes.EndsAtNul a) : 0 < a.length := by
  obtain ⟨length, size, _⟩ := ends
  omega

theorem last_nul (ends : bytes.EndsAtNul a) : bytes[a.start + a.length - 1]? = some 0 := by
  obtain ⟨length, size, nul, _⟩ := ends
  rw [size]
  exact nul

theorem inside (ends : bytes.EndsAtNul a) : a.start + a.length ≤ bytes.length := by
  have below := (List.getElem?_eq_some_iff.mp ends.last_nul).1
  omega

/-- A string that starts before the end of another one has ended when that one ends. -/
theorem stop_le (endsA : bytes.EndsAtNul a) (endsB : bytes.EndsAtNul b)
    (reached : b.start < a.start + a.length) : b.start + b.length ≤ a.start + a.length := by
  obtain ⟨length, size, _, live⟩ := endsB
  have filled := endsA.length_pos
  by_contra beyond
  apply live (a.start + a.length - 1 - b.start) (by omega)
  rw [Nat.add_sub_cancel' (by omega)]
  exact endsA.last_nul

/-- Where a string has been replaced, other strings are as they were. -/
theorem splice_of_apart (endsA : bytes.EndsAtNul a) (endsB : bytes.EndsAtNul b) (apart : a.Apart b)
    (size : patch.length = a.length) : (bytes.splice a.start patch).EndsAtNul b := by
  have fits := endsA.inside
  have kept : ∀ offset, b.Covers offset →
      (bytes.splice a.start patch)[offset]? = bytes[offset]? := by
    intro offset inB
    have outside : ¬ a.Covers offset := fun inA => apart offset ⟨inA, inB⟩
    rw [getElem_splice _ _ (by omega), size]
    exact if_neg outside
  obtain ⟨length, count, nul, live⟩ := endsB
  refine ⟨length, count, ?_, ?_⟩
  · rw [kept _ ⟨Nat.le_add_right _ _, by omega⟩]
    exact nul
  · intro index before
    rw [kept _ ⟨Nat.le_add_right _ _, by omega⟩]
    exact live index before

-- The NUL that a scan has come upon may be gone; then the last byte of the patch stands behind it.
theorem nul_behind_splice (ends : bytes.EndsAtNul a) (size : patch.length = a.length)
    (last : patch.getLast? = some 0) {start : Nat}
    (behind : ∃ place, start ≤ place ∧ bytes[place]? = some 0) :
    ∃ place, start ≤ place ∧ (bytes.splice a.start patch)[place]? = some 0 := by
  obtain ⟨place, after, nul⟩ := behind
  have fits := ends.inside
  have filled := ends.length_pos
  by_cases replaced : a.Covers place
  · unfold Span.Covers at replaced
    refine ⟨a.start + a.length - 1, by omega, ?_⟩
    have final : a.start + a.length - 1 - a.start = patch.length - 1 := by omega
    rw [getElem_splice _ _ (by omega), if_pos (by omega), final, ← List.getLast?_eq_getElem?, last]
  · refine ⟨place, after, ?_⟩
    rw [getElem_splice _ _ (by omega), size]
    exact (if_neg replaced).trans nul

end Bytes.EndsAtNul

namespace Elf.StringTable

variable {table : StringTable} {bytes patch : Bytes} {i j : Nat} {a b : Span}

/-- The span of a string in the file is that in the table, moved by the start of the table. -/
theorem entry_span_eq_ok_iff_ends :
    table.entrySpan bytes i = .ok a ↔
      a.start = table.span.start + i ∧ bytes.EndsAtNul ⟨i, a.length⟩ := by
  rw [entry_span_eq_ok_iff]
  constructor
  · rintro ⟨_, length, ends, rfl⟩
    exact ⟨rfl, length, rfl, Bytes.terminator_drop_eq_some_iff.mp ends⟩
  · obtain ⟨start, size⟩ := a
    rintro ⟨rfl, ends⟩
    have fits := ends.inside
    have filled := ends.length_pos
    obtain ⟨length, rfl, found⟩ := ends
    simp only at fits filled
    exact ⟨by omega, length, Bytes.terminator_drop_eq_some_iff.mpr found, rfl⟩

/-- An index names a string where a NUL stands at it or behind it. -/
theorem names_string_iff :
    (∃ span, table.entrySpan bytes i = .ok span) ↔
      ∃ place, i ≤ place ∧ bytes[place]? = some 0 := by
  rw [← Bytes.ends_at_nul_iff]
  constructor
  · rintro ⟨span, located⟩
    exact ⟨_, rfl, (entry_span_eq_ok_iff_ends.mp located).2⟩
  · rintro ⟨span, rfl, ends⟩
    exact ⟨⟨table.span.start + span.start, span.length⟩, entry_span_eq_ok_iff_ends.mpr ⟨rfl, ends⟩⟩

section Two

variable (foundA : table.entrySpan bytes i = .ok a) (foundB : table.entrySpan bytes j = .ok b)
include foundA foundB

/-- Two strings share a byte when they end together. -/
theorem shares_iff_stop_eq :
    (∃ offset, a.Covers offset ∧ b.Covers offset) ↔ a.start + a.length = b.start + b.length := by
  obtain ⟨startA, endsA⟩ := entry_span_eq_ok_iff_ends.mp foundA
  obtain ⟨startB, endsB⟩ := entry_span_eq_ok_iff_ends.mp foundB
  unfold Span.Covers
  constructor
  · rintro ⟨offset, inA, inB⟩
    have first := endsA.stop_le endsB (by simp only; omega)
    have second := endsB.stop_le endsA (by simp only; omega)
    simp only at first second
    omega
  · intro same
    have filledA := endsA.length_pos
    have filledB := endsB.length_pos
    simp only at filledA filledB
    refine ⟨a.start + a.length - 1, ?_, ?_⟩
    · omega
    · omega

theorem overlaps_iff_stop_eq (small : table.span.start + bytes.length < offsetLimit) :
    a.overlaps b = true ↔ a.start + a.length = b.start + b.length := by
  obtain ⟨startA, endsA⟩ := entry_span_eq_ok_iff_ends.mp foundA
  obtain ⟨startB, endsB⟩ := entry_span_eq_ok_iff_ends.mp foundB
  have insideA := endsA.inside
  have insideB := endsB.inside
  simp only at insideA insideB
  rw [Span.overlaps_iff_covers (by omega) (by omega), shares_iff_stop_eq foundA foundB]

end Two

/-- The string at the second index is a tail of the string at the first one, and reads as it. -/
structure Tail (table : StringTable) (bytes : Bytes) (i j : Nat) (a b : Span) : Prop where
  inside : a.contains b = true
  reads : ∃ text, bytes.slice? ⟨i, a.length⟩ = some (text ++ [0]) ∧
    table.get bytes i = .ok (Text.Utf8.decode text) ∧
    table.get bytes j = .ok (Text.Utf8.decode (text.drop (j - i)))

theorem tail_of_stop_eq (small : table.span.start + bytes.length < offsetLimit) (ordered : i ≤ j)
    (foundA : table.entrySpan bytes i = .ok a) (foundB : table.entrySpan bytes j = .ok b)
    (same : a.start + a.length = b.start + b.length) : Tail table bytes i j a b := by
  obtain ⟨belowA, lengthA, endsA, rfl⟩ := entry_span_eq_ok_iff.mp foundA
  obtain ⟨belowB, lengthB, endsB, rfl⟩ := entry_span_eq_ok_iff.mp foundB
  simp only at same
  have sliced := Bytes.slice_of_terminator endsA
  have fits := (Bytes.slice_eq_some_iff.mp sliced).1
  simp only at fits
  have tail : Bytes.beforeNul (bytes.drop j) = (Bytes.beforeNul (bytes.drop i)).drop (j - i) := by
    have left : lengthA - (j - i) = lengthB := by omega
    rw [← Bytes.take_of_terminator endsA, ← Bytes.take_of_terminator endsB, List.drop_take,
      List.drop_drop, Nat.add_sub_cancel' ordered, left]
  constructor
  case inside =>
    apply Span.contains_of_within
    all_goals simp only; omega
  case reads =>
    refine ⟨_, sliced, get_eq_ok_iff.mpr ⟨belowA, lengthA, endsA, rfl⟩, ?_⟩
    exact get_eq_ok_iff.mpr ⟨belowB, lengthB, endsB, by rw [tail]⟩

/-- Two strings of a table are one, or apart, or one is a tail of the other. Where one is replaced
by bytes that end with a NUL, no index ceases to name a string, and what lies apart from it keeps
its span. -/
theorem strings_equal_apart_or_tails
    (addressable : table.span.start + table.span.length < offsetLimit)
    (held : bytes.length = table.span.length) :
    (∀ index, (∃ span, table.entrySpan bytes index = .ok span) ↔
      ∃ place, index ≤ place ∧ bytes[place]? = some 0) ∧
    (∀ i j a b, i ≤ j → table.entrySpan bytes i = .ok a → table.entrySpan bytes j = .ok b →
      ((∃ offset, a.Covers offset ∧ b.Covers offset) ↔ a.start + a.length = b.start + b.length) ∧
      (a.overlaps b = true ↔ a.start + a.length = b.start + b.length) ∧
      (a.start + a.length = b.start + b.length → Tail table bytes i j a b)) ∧
    ∀ i a patch, table.entrySpan bytes i = .ok a → patch.length = a.length →
      patch.getLast? = some 0 → ∀ index b, table.entrySpan bytes index = .ok b →
        (∃ span, table.entrySpan (bytes.splice i patch) index = .ok span) ∧
        (a.Apart b → table.entrySpan (bytes.splice i patch) index = .ok b) := by
  have small : table.span.start + bytes.length < offsetLimit := held ▸ addressable
  refine ⟨fun index => names_string_iff, ?_, ?_⟩
  · intro i j a b ordered foundA foundB
    exact ⟨shares_iff_stop_eq foundA foundB, overlaps_iff_stop_eq foundA foundB small,
      tail_of_stop_eq small ordered foundA foundB⟩
  · intro i a patch foundA size last index b foundB
    obtain ⟨startA, endsA⟩ := entry_span_eq_ok_iff_ends.mp foundA
    obtain ⟨startB, endsB⟩ := entry_span_eq_ok_iff_ends.mp foundB
    constructor
    · apply names_string_iff.mpr
      exact endsA.nul_behind_splice size last (names_string_iff.mp ⟨b, foundB⟩)
    · intro apart
      refine entry_span_eq_ok_iff_ends.mpr ⟨startB, endsA.splice_of_apart endsB ?_ size⟩
      intro offset shared
      simp only [Span.Covers] at shared
      apply apart (table.span.start + offset)
      unfold Span.Covers
      omega

section Sample

/-- The strings `libc.so.6` and `.interp`, and one that is not ended. -/
def sampleStrings : Bytes :=
  [0] ++ Text.Utf8.encode "libc.so.6" ++ [0] ++ Text.Utf8.encode ".interp" ++ [0] ++
    Text.Utf8.encode "tail"

def sampleTable : StringTable := ⟨⟨0x200, sampleStrings.length⟩⟩

def shorterName : Bytes := Text.Utf8.encode "ld.so" ++ List.replicate 5 0

/-- The second string is `.so.6`, in the middle of the first one. -/
theorem strings_equal_apart_or_tails_sample :
    sampleTable.entrySpan sampleStrings 1 = .ok ⟨0x201, 10⟩ ∧
      sampleTable.entrySpan sampleStrings 5 = .ok ⟨0x205, 6⟩ ∧
      sampleTable.entrySpan sampleStrings 11 = .ok ⟨0x20b, 8⟩ ∧
      Tail sampleTable sampleStrings 1 5 ⟨0x201, 10⟩ ⟨0x205, 6⟩ ∧
      (∃ span, sampleTable.entrySpan (sampleStrings.splice 1 shorterName) 5 = .ok span) ∧
      sampleTable.entrySpan (sampleStrings.splice 1 shorterName) 11 = .ok ⟨0x20b, 8⟩ := by
  have whole : sampleTable.entrySpan sampleStrings 1 = .ok ⟨0x201, 10⟩ := by decide +kernel
  have inner : sampleTable.entrySpan sampleStrings 5 = .ok ⟨0x205, 6⟩ := by decide +kernel
  have other : sampleTable.entrySpan sampleStrings 11 = .ok ⟨0x20b, 8⟩ := by decide +kernel
  obtain ⟨_, pairs, replaced⟩ :=
    @strings_equal_apart_or_tails sampleTable sampleStrings (by decide +kernel) rfl
  have after := replaced 1 _ shorterName whole (by decide +kernel) (by decide +kernel)
  refine ⟨whole, inner, other, (pairs 1 5 _ _ (by decide) whole inner).2.2 rfl,
    (after 5 _ inner).1, (after 11 _ other).2 ?_⟩
  rintro offset ⟨⟨_, below⟩, ⟨above, _⟩⟩
  simp only at below above
  omega

end Sample

end Elf.StringTable

end BinaryImage
