import BinaryImage.Elf.Image
import BinaryImage.Proofs.Agreement
import BinaryImage.Proofs.UnsignedRange
import Mathlib.Data.List.TakeWhile

/-!
The dynamic array and its bytes. An entry stands in the slot of its index, so taking entries out
of the array and overwriting their slots come to the same array when it is read again.
-/

namespace BinaryImage.Elf

namespace Encoding

theorem entry_size (encoding : Encoding) :
    encoding.fileClass.dynamicEntrySize = encoding.wordSize + encoding.wordSize := by
  unfold wordSize
  cases encoding.fileClass <;> rfl

theorem length_encode_word (encoding : Encoding) (value : Nat) :
    (encoding.encodeWord value).length = encoding.wordSize :=
  encoding.byteOrder.length_encode encoding.wordSize value

end Encoding

theorem length_encode_entry (encoding : Encoding) (tag value : Nat) :
    (encodeEntry encoding tag value).length = encoding.fileClass.dynamicEntrySize := by
  rw [encodeEntry, List.length_append, encoding.length_encode_word, encoding.length_encode_word,
    encoding.entry_size]

/-- Slots of one size that stand one behind the other share nothing. -/
theorem slots_apart {size i j : Nat} (base : Nat) (different : i ≠ j) :
    Span.Apart ⟨base + i * size, size⟩ ⟨base + j * size, size⟩ := by
  rintro offset ⟨inI, inJ⟩
  simp only [Span.Covers] at inI inJ
  rcases Nat.lt_or_gt_of_ne different with before | behind
  · have step := Nat.mul_le_mul_right size before
    rw [Nat.succ_mul] at step
    omega
  · have step := Nat.mul_le_mul_right size behind
    rw [Nat.succ_mul] at step
    omega

namespace DynamicArray

def slot (encoding : Encoding) (index : Nat) : Span :=
  ⟨index * encoding.fileClass.dynamicEntrySize, encoding.fileClass.dynamicEntrySize⟩

theorem slot_inside {encoding : Encoding} {index length : Nat}
    (below : index < length / encoding.fileClass.dynamicEntrySize) :
    (slot encoding index).start + (slot encoding index).length ≤ length := by
  simp only [slot]
  rw [← Nat.succ_mul]
  exact (Nat.le_div_iff_mul_le (by cases encoding.fileClass <;> decide)).mp below

theorem entry_in_of_slice {encoding : Encoding} {bytes record : Bytes} {index : Nat}
    (found : bytes.slice? (slot encoding index) = some record) :
    entryIn encoding bytes index =
      ⟨index, encoding.byteOrder.decode (record.take encoding.wordSize),
        encoding.byteOrder.decode ((record.drop encoding.wordSize).take encoding.wordSize)⟩ := by
  obtain ⟨_, rfl⟩ := Bytes.slice_eq_some_iff.mp found
  have width := encoding.entry_size
  have first : min encoding.wordSize encoding.fileClass.dynamicEntrySize = encoding.wordSize := by
    omega
  have second : min encoding.wordSize (encoding.fileClass.dynamicEntrySize - encoding.wordSize) =
      encoding.wordSize := by omega
  simp only [entryIn, Encoding.wordAt, slot, List.take_take, List.drop_take, List.drop_drop, first,
    second]

-- A word keeps what fits in it.
theorem entry_in_of_encoded {encoding : Encoding} {bytes : Bytes} {index tag value : Nat}
    (found : bytes.slice? (slot encoding index) = some (encodeEntry encoding tag value)) :
    entryIn encoding bytes index =
      ⟨index, tag % 256 ^ encoding.wordSize, value % 256 ^ encoding.wordSize⟩ := by
  have first : (encodeEntry encoding tag value).take encoding.wordSize =
      encoding.encodeWord tag := List.take_left' (encoding.length_encode_word tag)
  have second : ((encodeEntry encoding tag value).drop encoding.wordSize).take
      encoding.wordSize = encoding.encodeWord value := by
    have rest : (encodeEntry encoding tag value).drop encoding.wordSize =
        encoding.encodeWord value := List.drop_left' (encoding.length_encode_word tag)
    rw [rest]
    exact List.take_of_length_le (Nat.le_of_eq (encoding.length_encode_word value))
  rw [entry_in_of_slice found, first, second]
  simp only [Encoding.encodeWord, ByteOrder.decode_encode]

-- Both words of a removed entry fit in a word of either class.
theorem entry_in_of_removed {encoding : Encoding} {bytes : Bytes} {index : Nat}
    (found : bytes.slice? (slot encoding index) = some (encodeEntry encoding Tag.removed 0)) :
    entryIn encoding bytes index = ⟨index, Tag.removed, 0⟩ := by
  have fits : Tag.removed % 256 ^ encoding.wordSize = Tag.removed := by
    unfold Encoding.wordSize
    cases encoding.fileClass <;> rfl
  rw [entry_in_of_encoded found, fits, Nat.zero_mod]

theorem mem_entries_decode {encoding : Encoding} {bytes : Bytes} {span : Span}
    {entry : DynamicEntry} (member : entry ∈ (decode encoding bytes span).entries) :
    entry.index < bytes.length / encoding.fileClass.dynamicEntrySize ∧
      entry = entryIn encoding bytes entry.index ∧ entry.tag ≠ Tag.null := by
  simp only [decode] at member
  have live := List.mem_takeWhile_imp member
  obtain ⟨index, inside, rfl⟩ := List.mem_map.mp ((List.takeWhile_sublist _).subset member)
  exact ⟨List.mem_range.mp inside, rfl, by simpa using live⟩

def without (dynamic : DynamicArray) (removed : Nat → Bool) : DynamicArray :=
  { dynamic with
    entries := dynamic.entries.map fun entry =>
      if removed entry.index then entry.removed else entry }

variable {dynamic : DynamicArray} {removed : Nat → Bool}

theorem without_of_none (none : ∀ index, removed index = false) :
    dynamic.without removed = dynamic := by
  simp [without, none]

theorem takeWhile_map_of_same {α : Type} {keep : α → Bool} {change : α → α} {items : List α}
    (same : ∀ item ∈ items, keep (change item) = keep item) :
    (items.map change).takeWhile keep = (items.takeWhile keep).map change := by
  induction items with
  | nil => rfl
  | cons item rest ih =>
    obtain ⟨first, later⟩ := List.forall_mem_cons.mp same
    rw [List.map_cons, List.takeWhile_cons, List.takeWhile_cons, first, ih later]
    split <;> rfl

-- A removed entry does not end the array, so what stood behind it is still read.
theorem decode_without {encoding : Encoding} {before after : Bytes} {span : Span}
    (length : after.length = before.length)
    (slots : ∀ index < before.length / encoding.fileClass.dynamicEntrySize,
      entryIn encoding after index =
        if removed index then (entryIn encoding before index).removed
        else entryIn encoding before index)
    (live : ∀ index < before.length / encoding.fileClass.dynamicEntrySize,
      removed index = true → (entryIn encoding before index).tag ≠ Tag.null) :
    decode encoding after span = (decode encoding before span).without removed := by
  have remapped : (List.range (before.length / encoding.fileClass.dynamicEntrySize)).map
      (entryIn encoding after) =
        ((List.range (before.length / encoding.fileClass.dynamicEntrySize)).map
          (entryIn encoding before)).map fun entry =>
            if removed entry.index then entry.removed else entry := by
    rw [List.map_map]
    apply List.map_congr_left
    intro index member
    exact slots index (List.mem_range.mp member)
  simp only [decode, without, length]
  rw [remapped, takeWhile_map_of_same]
  intro entry member
  obtain ⟨index, inside, rfl⟩ := List.mem_map.mp member
  split
  · next out =>
    have read := live index (List.mem_range.mp inside) out
    exact (bne_iff_ne.mpr read).symm
  · rfl

theorem find_without {tag : Nat} (other : Tag.removed ≠ tag)
    (kept : ∀ entry ∈ dynamic.entries, removed entry.index = true → entry.tag ≠ tag) :
    (dynamic.without removed).find? tag = dynamic.find? tag := by
  simp only [find?, without]
  generalize dynamic.entries = entries at kept
  induction entries with
  | nil => rfl
  | cons entry rest ih =>
    obtain ⟨first, later⟩ := List.forall_mem_cons.mp kept
    rw [List.map_cons, List.find?_cons, List.find?_cons, ih later]
    by_cases out : removed entry.index = true
    · have before : (entry.tag == tag) = false := beq_eq_false_iff_ne.mpr (first out)
      have after : (entry.removed.tag == tag) = false := beq_eq_false_iff_ne.mpr other
      rw [if_pos out, before, after]
    · rw [if_neg out]

theorem mem_of_find {tag : Nat} {entry : DynamicEntry} (first : dynamic.find? tag = some entry) :
    entry ∈ dynamic.entries ∧ entry.tag = tag :=
  ⟨List.mem_of_find?_eq_some first, by simpa using List.find?_some first⟩

theorem mem_string_entries {entry : DynamicEntry} {tag : Nat}
    (member : entry ∈ dynamic.findAll tag) (names : Tag.namesString tag = true) :
    entry ∈ dynamic.stringEntries := by
  obtain ⟨inside, tagged⟩ := List.mem_filter.mp member
  have same : entry.tag = tag := by simpa using tagged
  refine List.mem_filter.mpr ⟨inside, ?_⟩
  rw [DynamicEntry.namesString, same]
  exact names

theorem mem_string_entries_of_find {entry : DynamicEntry} {tag : Nat}
    (first : dynamic.find? tag = some entry) (names : Tag.namesString tag = true) :
    entry ∈ dynamic.stringEntries := by
  obtain ⟨inside, tagged⟩ := mem_of_find first
  exact mem_string_entries (List.mem_filter.mpr ⟨inside, by simpa using tagged⟩) names

theorem mem_entries_without {entry : DynamicEntry}
    (member : entry ∈ (dynamic.without removed).entries) (present : entry.tag ≠ Tag.removed) :
    entry ∈ dynamic.entries ∧ removed entry.index = false := by
  obtain ⟨item, before, same⟩ := List.mem_map.mp member
  split at same
  · rw [← same] at present
    contradiction
  · next stays =>
    subst same
    exact ⟨before, by simpa using stays⟩

theorem mem_string_entries_without_iff {entry : DynamicEntry} :
    entry ∈ (dynamic.without removed).stringEntries ↔
      entry ∈ dynamic.stringEntries ∧ removed entry.index = false := by
  constructor
  · intro member
    obtain ⟨inside, names⟩ := List.mem_filter.mp member
    have present : entry.tag ≠ Tag.removed := by
      intro out
      rw [DynamicEntry.namesString, out] at names
      revert names
      decide
    obtain ⟨before, left⟩ := mem_entries_without inside present
    exact ⟨List.mem_filter.mpr ⟨before, names⟩, left⟩
  · rintro ⟨member, left⟩
    obtain ⟨before, names⟩ := List.mem_filter.mp member
    refine List.mem_filter.mpr ⟨List.mem_map.mpr ⟨entry, before, ?_⟩, names⟩
    rw [left]
    rfl

end DynamicArray

namespace StringTable

/-- The string that starts at `index` of a table has the span. -/
theorem entry_span_eq_ok_iff {table : StringTable} {bytes : Bytes} {index : Nat} {span : Span} :
    table.entrySpan bytes index = .ok span ↔
      index < bytes.length ∧ ∃ length, Bytes.terminator? (bytes.drop index) = some length ∧
        span = ⟨table.span.start + index, length + 1⟩ := by
  simp only [entrySpan, bind_eq_ok_iff, require_eq_ok_iff, exists_const, require_some_eq_ok_iff,
    decide_eq_true_eq, pure, Except.pure, Except.ok.injEq, eq_comm (b := span)]

theorem get_eq_ok_iff {table : StringTable} {bytes : Bytes} {index : Nat} {text : String} :
    table.get bytes index = .ok text ↔
      index < bytes.length ∧ ∃ length, Bytes.terminator? (bytes.drop index) = some length ∧
        text = Text.Utf8.decode (Bytes.beforeNul (bytes.drop index)) := by
  simp only [get, bind_eq_ok_iff, entry_span_eq_ok_iff, pure, Except.pure, Except.ok.injEq,
    eq_comm (b := text)]
  constructor
  · rintro ⟨_, ⟨below, length, ends, _⟩, read⟩
    exact ⟨below, length, ends, read⟩
  · rintro ⟨below, length, ends, read⟩
    exact ⟨_, ⟨below, length, ends, rfl⟩, read⟩

end StringTable

namespace Image

theorem attach_strings_eq_ok_iff {data : Bytes} {dynamic result : DynamicArray}
    {located? : Option (Span × StringSource)} :
    attachStrings data dynamic located? = .ok result ↔
      match located? with
      | some (span, source) =>
        (∃ bytes, data.slice? span = some bytes ∧ ∀ entry ∈ dynamic.stringEntries,
          ∃ place, StringTable.entrySpan ⟨span⟩ bytes entry.value = .ok place) ∧
            result = { dynamic with strings := some ⟨span⟩, stringSource := some source }
      | none => dynamic.stringEntries = [] ∧ result = dynamic := by
  cases located? with
  | none =>
    simp only [attachStrings, check_bind_eq_ok_iff, require_eq_ok_iff, List.isEmpty_iff, pure,
      Except.pure, Except.ok.injEq, eq_comm (b := result)]
  | some located =>
    simp only [attachStrings, bind_eq_ok_iff, slice_eq_ok_iff, forM_eq_ok_iff, exists_const,
      pure, Except.pure, Except.ok.injEq, eq_comm (b := result), and_true]
    constructor
    · rintro ⟨bytes, sliced, named, same⟩
      exact ⟨⟨bytes, sliced, named⟩, same⟩
    · rintro ⟨⟨bytes, sliced, named⟩, same⟩
      exact ⟨bytes, sliced, named, same⟩

-- Strings are attached to an array and leave it as it was.
theorem array_of_attach_strings {data : Bytes} {dynamic result : DynamicArray}
    {located? : Option (Span × StringSource)}
    (attached : attachStrings data dynamic located? = .ok result) :
    result.span = dynamic.span ∧ result.entries = dynamic.entries ∧
      result.entrySize = dynamic.entrySize := by
  rw [attach_strings_eq_ok_iff] at attached
  cases located? with
  | some located =>
    rcases attached with ⟨_, rfl⟩
    exact ⟨rfl, rfl, rfl⟩
  | none =>
    rcases attached with ⟨_, rfl⟩
    exact ⟨rfl, rfl, rfl⟩

-- No needed library says where the strings are.
theorem locate_strings_without {segments : List Segment} {linked? : Option (Nat × Section)}
    {dynamic : DynamicArray} {removed : Nat → Bool}
    (needed : ∀ entry ∈ dynamic.entries, removed entry.index = true → entry.tag = Tag.needed) :
    locateStrings? segments linked? (dynamic.without removed) =
      locateStrings? segments linked? dynamic := by
  have kept : ∀ tag, tag ≠ Tag.needed →
      ∀ entry ∈ dynamic.entries, removed entry.index = true → entry.tag ≠ tag := by
    intro tag other entry member out
    rw [needed entry member out]
    exact Ne.symm other
  have address := DynamicArray.find_without (by decide) (kept Tag.stringTable (by decide))
  have size := DynamicArray.find_without (by decide) (kept Tag.stringTableSize (by decide))
  simp only [locateStrings?, mappedStrings?, DynamicArray.stringTableAddress?,
    DynamicArray.stringTableSize?, address, size]

/-- What is found of a dynamic array: its span, and its entries with their strings. -/
theorem find_dynamic_eq_ok_iff {data : Bytes} {encoding : Encoding} {segments : List Segment}
    {sections : List Section} {found? : Option DynamicArray} :
    findDynamic data encoding segments sections = .ok found? ↔
      match dynamicSpan? segments
          (sections.find? fun item => item.kind == SectionHeader.dynamicKind) with
      | none => found? = none
      | some span => ∃ bytes dynamic, data.slice? span = some bytes ∧
          attachStrings data (DynamicArray.decode encoding bytes span)
            (locateStrings? segments (linkedSection? sections
              (sections.find? fun item => item.kind == SectionHeader.dynamicKind))
              (DynamicArray.decode encoding bytes span)) = .ok dynamic ∧
            found? = some dynamic := by
  simp only [findDynamic]
  cases dynamicSpan? segments
      (sections.find? fun item => item.kind == SectionHeader.dynamicKind) with
  | none => simp only [pure, Except.pure, Except.ok.injEq, eq_comm (b := found?)]
  | some span =>
    simp only [bind_eq_ok_iff, slice_eq_ok_iff, pure, Except.pure, Except.ok.injEq,
      eq_comm (b := found?), exists_and_left]

section Agree

variable {a b : Bytes} (length : a.length = b.length)
include length

theorem attach_strings_of_agree {dynamic result : DynamicArray}
    {located? : Option (Span × StringSource)}
    (agree : ∀ table ∈ result.strings, Bytes.Agree a b table.span)
    (attached : attachStrings a dynamic located? = .ok result) :
    attachStrings b dynamic located? = .ok result := by
  rw [attach_strings_eq_ok_iff] at attached ⊢
  cases located? with
  | none => exact attached
  | some located =>
    obtain ⟨⟨bytes, sliced, named⟩, rfl⟩ := attached
    have tableAgree := agree ⟨located.1⟩ rfl
    exact ⟨⟨bytes, (tableAgree.slice length).symm.trans sliced, named⟩, rfl⟩

-- The array is found by the tables, and its strings by the array.
theorem find_dynamic_of_agree {encoding : Encoding} {segments : List Segment}
    {sections : List Section} {found? : Option DynamicArray}
    (array : ∀ dynamic ∈ found?, Bytes.Agree a b dynamic.span)
    (strings : ∀ dynamic ∈ found?, ∀ table ∈ dynamic.strings, Bytes.Agree a b table.span)
    (found : findDynamic a encoding segments sections = .ok found?) :
    findDynamic b encoding segments sections = .ok found? := by
  rw [find_dynamic_eq_ok_iff] at found ⊢
  split at found
  · exact found
  · obtain ⟨bytes, dynamic, sliced, attached, rfl⟩ := found
    obtain ⟨same, _⟩ := array_of_attach_strings attached
    have arrayAgree := array dynamic rfl
    rw [same] at arrayAgree
    exact ⟨bytes, dynamic, (arrayAgree.slice length).symm.trans sliced,
      attach_strings_of_agree length (strings dynamic rfl) attached, rfl⟩

end Agree

end Image

end BinaryImage.Elf
