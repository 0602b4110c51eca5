import BinaryImage.Proofs.Elf.DynamicEntries

/-!
Writing dynamic entries and reading them. Entries written one behind the other are read back up to
the null entry or the end of the array, what was read is what the slots hold, and a slot that is
overwritten changes in the array alone.
-/

namespace BinaryImage

namespace Bytes

variable {data patch : Bytes} {start : Nat}

theorem slice_splice (fits : start + patch.length ≤ data.length) :
    (data.splice start patch).slice? ⟨start, patch.length⟩ = some patch := by
  have same := length_splice data patch fits
  refine slice_eq_some_iff.mpr ⟨by simp only; omega, ?_⟩
  have front : (data.take start).length = start := by
    rw [List.length_take]
    omega
  simp only [splice, List.append_assoc]
  rw [List.drop_left' front, List.take_left' rfl]

-- A patch changes nothing outside of it.
theorem agree_splice (fits : start + patch.length ≤ data.length) {span : Span}
    (apart : span.Apart ⟨start, patch.length⟩) : Agree data (data.splice start patch) span := by
  intro offset inside
  rw [getElem_splice data patch fits, if_neg]
  exact fun patched => apart offset ⟨inside, patched⟩

end Bytes

namespace Elf

namespace DynamicArray

variable {encoding : Encoding} {span : Span}

section Reading

theorem entries_of_short {rest : Bytes}
    (short : rest.length < encoding.fileClass.dynamicEntrySize) :
    (decode encoding rest span).entries = [] := by
  simp only [decode, Nat.div_eq_of_lt short, List.range_zero, List.map_nil, List.takeWhile_nil]

def later (entry : DynamicEntry) : DynamicEntry := { entry with index := entry.index + 1 }

theorem entry_in_later {record rest : Bytes}
    (length : record.length = encoding.fileClass.dynamicEntrySize) (index : Nat) :
    entryIn encoding (record ++ rest) (index + 1) = later (entryIn encoding rest index) := by
  have behind : ∀ offset, (record ++ rest).drop ((index + 1) * record.length + offset) =
      rest.drop (index * record.length + offset) := by
    intro offset
    rw [Nat.succ_mul, Nat.add_comm (index * record.length), Nat.add_assoc, List.drop_append,
      List.drop_eq_nil_of_le (Nat.le_add_right _ _), List.nil_append, Nat.add_sub_cancel_left]
  have place := behind 0
  simp only [Nat.add_zero] at place
  simp only [entryIn, later, Encoding.wordAt, ← length, behind, place]

/-- An array is its first slot and the array of the slots behind it. -/
theorem entries_of_encoded (tag value : Nat) (rest : Bytes) :
    (decode encoding (encodeEntry encoding tag value ++ rest) span).entries =
      if tag % 256 ^ encoding.wordSize = Tag.null then []
      else ⟨0, tag % 256 ^ encoding.wordSize, value % 256 ^ encoding.wordSize⟩ ::
        (decode encoding rest span).entries.map later := by
  have length := length_encode_entry encoding tag value
  have sized : 0 < encoding.fileClass.dynamicEntrySize := by
    cases encoding.fileClass <;> decide
  have slots : (encodeEntry encoding tag value ++ rest).length /
      encoding.fileClass.dynamicEntrySize =
        rest.length / encoding.fileClass.dynamicEntrySize + 1 := by
    rw [List.length_append, length, Nat.add_div_left _ sized]
  have sliced : (encodeEntry encoding tag value ++ rest).slice? (slot encoding 0) =
      some (encodeEntry encoding tag value) := by
    refine Bytes.slice_eq_some_iff.mpr ⟨?_, ?_⟩
    · simp only [slot, List.length_append]
      omega
    · simp only [slot, Nat.zero_mul, List.drop_zero]
      rw [List.take_left' length]
  have shifted : (List.map Nat.succ
      (List.range (rest.length / encoding.fileClass.dynamicEntrySize))).map
        (entryIn encoding (encodeEntry encoding tag value ++ rest)) =
      ((List.range (rest.length / encoding.fileClass.dynamicEntrySize)).map
        (entryIn encoding rest)).map later := by
    rw [List.map_map, List.map_map]
    exact List.map_congr_left fun index _ => entry_in_later length index
  have kept : ∀ entry ∈ (List.range (rest.length / encoding.fileClass.dynamicEntrySize)).map
      (entryIn encoding rest), ((later entry).tag != Tag.null) = (entry.tag != Tag.null) :=
    fun _ _ => rfl
  simp only [decode]
  rw [slots, List.range_succ_eq_map, List.map_cons, List.takeWhile_cons,
    entry_in_of_encoded sliced, shifted, takeWhile_map_of_same kept]
  by_cases null : tag % 256 ^ encoding.wordSize = Tag.null
  · simp [null]
  · simp [null]

/-- Entries whose words fit their class are read back, up to an end of the array. -/
theorem entries_of_pairs {pairs : List (Nat × Nat)} {rest : Bytes}
    (fit : ∀ pair ∈ pairs, pair.1 ≠ Tag.null ∧ pair.1 < 256 ^ encoding.wordSize ∧
      pair.2 < 256 ^ encoding.wordSize)
    (ends : (decode encoding rest span).entries = []) :
    (decode encoding (pairs.flatMap (fun pair => encodeEntry encoding pair.1 pair.2) ++ rest)
        span).entries =
      pairs.mapIdx fun index pair => ⟨index, pair.1, pair.2⟩ := by
  induction pairs with
  | nil => simpa using ends
  | cons pair pairs ih =>
    obtain ⟨⟨live, tag, value⟩, behind⟩ := List.forall_mem_cons.mp fit
    have numbered : (pairs.mapIdx fun index pair => ⟨index, pair.1, pair.2⟩).map later =
        pairs.mapIdx fun index pair => (⟨index + 1, pair.1, pair.2⟩ : DynamicEntry) := by
      apply List.ext_getElem?
      intro index
      simp only [List.getElem?_map, List.getElem?_mapIdx, Option.map_map]
      rfl
    rw [List.flatMap_cons, List.append_assoc, entries_of_encoded, Nat.mod_eq_of_lt tag,
      Nat.mod_eq_of_lt value, if_neg live, ih behind, List.mapIdx_cons, numbered]

end Reading

/-- What was read from a slot is written as the bytes of the slot. -/
theorem slot_of_entry {bytes : Bytes} {entry : DynamicEntry}
    (member : entry ∈ (decode encoding bytes span).entries) :
    bytes.slice? (slot encoding entry.index) =
      some (encodeEntry encoding entry.tag entry.value) := by
  obtain ⟨below, read, _⟩ := mem_entries_decode member
  have sliced := Bytes.slice_of_fits (slot_inside below)
  rw [entry_in_of_slice sliced] at read
  generalize (bytes.drop (slot encoding entry.index).start).take
    (slot encoding entry.index).length = record at sliced read
  have size := Bytes.length_slice sliced
  have width := encoding.entry_size
  simp only [slot] at size
  have first : (record.take encoding.wordSize).length = encoding.wordSize := by
    rw [List.length_take]
    omega
  have second : ((record.drop encoding.wordSize).take encoding.wordSize).length =
      encoding.wordSize := by
    rw [List.length_take, List.length_drop]
    omega
  have whole : (record.drop encoding.wordSize).take encoding.wordSize =
      record.drop encoding.wordSize := List.take_of_length_le (by rw [List.length_drop]; omega)
  have tag := encoding.byteOrder.encode_decode (record.take encoding.wordSize)
  have value := encoding.byteOrder.encode_decode
    ((record.drop encoding.wordSize).take encoding.wordSize)
  rw [first] at tag
  rw [second] at value
  rw [sliced, read, encodeEntry, Encoding.encodeWord, Encoding.encodeWord, tag, value, whole,
    List.take_append_drop]

section Clearing

def clearSlots (encoding : Encoding) (bytes : Bytes) (indexes : List Nat) : Option Bytes :=
  indexes.foldlM (fun bytes index =>
    bytes.write? (slot encoding index).start (encodeEntry encoding Tag.removed 0)) bytes

-- One write changes one entry, and the array goes on behind it.
theorem decode_of_cleared {bytes : Bytes} {index : Nat}
    (parsed : index ∈ (decode encoding bytes span).entries.map DynamicEntry.index) :
    ∃ after, bytes.write? (slot encoding index).start (encodeEntry encoding Tag.removed 0) =
        some after ∧ after.length = bytes.length ∧
      decode encoding after span = (decode encoding bytes span).without (· == index) := by
  obtain ⟨entry, member, rfl⟩ := List.mem_map.mp parsed
  obtain ⟨below, read, live⟩ := mem_entries_decode member
  have patchLength := length_encode_entry encoding Tag.removed 0
  have fits : (slot encoding entry.index).start + (encodeEntry encoding Tag.removed 0).length ≤
      bytes.length := by
    rw [patchLength]
    exact slot_inside below
  have same := Bytes.length_splice bytes (encodeEntry encoding Tag.removed 0) fits
  refine ⟨_, Bytes.write_eq_some_iff.mpr ⟨fits, rfl⟩, same, decode_without same ?_ ?_⟩
  · intro other inside
    by_cases hit : other = entry.index
    · have sliced := Bytes.slice_splice fits
      rw [patchLength] at sliced
      rw [hit, if_pos (by simp)]
      exact entry_in_of_removed sliced
    · have apart : (slot encoding other).Apart
          ⟨(slot encoding entry.index).start, (encodeEntry encoding Tag.removed 0).length⟩ := by
        rw [patchLength]
        simpa only [slot, Nat.zero_add] using slots_apart 0 hit
      have kept := Bytes.slice_of_fits (slot_inside inside)
      have read := kept
      rw [(Bytes.agree_splice fits apart).slice same.symm] at read
      rw [if_neg (by simpa using hit), entry_in_of_slice read, entry_in_of_slice kept]
  · intro other _ hit
    rw [beq_iff_eq] at hit
    rw [hit, ← read]
    exact live

theorem without_without (dynamic : DynamicArray) (first second : Nat → Bool) :
    (dynamic.without first).without second =
      dynamic.without fun index => first index || second index := by
  simp only [without, List.map_map, DynamicArray.mk.injEq, true_and, and_true]
  apply List.map_congr_left
  intro entry _
  by_cases one : first entry.index = true
  · by_cases two : second entry.index = true
    · simp [one, two, DynamicEntry.removed]
    · simp [one, two, DynamicEntry.removed]
  · simp [one]

theorem indexes_without (dynamic : DynamicArray) (removed : Nat → Bool) :
    (dynamic.without removed).entries.map DynamicEntry.index =
      dynamic.entries.map DynamicEntry.index := by
  simp only [without, List.map_map]
  apply List.map_congr_left
  intro entry _
  simp only [Function.comp_apply]
  split <;> rfl

/-- A run of writes changes the entries of its slots. -/
theorem decode_of_clear_slots {bytes : Bytes} {indexes : List Nat}
    (parsed : ∀ index ∈ indexes,
      index ∈ (decode encoding bytes span).entries.map DynamicEntry.index) :
    ∃ after, clearSlots encoding bytes indexes = some after ∧ after.length = bytes.length ∧
      decode encoding after span = (decode encoding bytes span).without indexes.contains := by
  induction indexes generalizing bytes with
  | nil => exact ⟨bytes, rfl, rfl, (without_of_none fun _ => rfl).symm⟩
  | cons index indexes ih =>
    obtain ⟨here, later⟩ := List.forall_mem_cons.mp parsed
    obtain ⟨middle, wrote, length, cleared⟩ := decode_of_cleared here
    have left : ∀ other ∈ indexes,
        other ∈ (decode encoding middle span).entries.map DynamicEntry.index := by
      intro other member
      rw [cleared, indexes_without]
      exact later other member
    obtain ⟨after, done, same, all⟩ := ih left
    refine ⟨after, ?_, same.trans length, ?_⟩
    · rw [clearSlots, List.foldlM_cons, wrote]
      exact done
    · rw [all, cleared, without_without]
      congr 1

end Clearing

/-- A null entry stands here, or less than a slot is left. -/
def Ends (encoding : Encoding) (rest : Bytes) : Prop :=
  (∃ value behind, rest = encodeEntry encoding Tag.null value ++ behind) ∨
    rest.length < encoding.fileClass.dynamicEntrySize

theorem entries_of_ends {rest : Bytes} (ends : Ends encoding rest) :
    (decode encoding rest span).entries = [] := by
  rcases ends with ⟨value, behind, rfl⟩ | short
  · have null : Tag.null % 256 ^ encoding.wordSize = Tag.null := Nat.zero_mod _
    rw [entries_of_encoded, if_pos null]
  · exact entries_of_short short

/-- Entries are read as they were written, written as they were read, and taken out one by one in
their slots. -/
theorem entries_round_trip (encoding : Encoding) (span : Span) :
    (∀ (pairs : List (Nat × Nat)) (rest : Bytes),
      (∀ pair ∈ pairs, pair.1 ≠ Tag.null ∧ pair.1 < 256 ^ encoding.wordSize ∧
        pair.2 < 256 ^ encoding.wordSize) → Ends encoding rest →
      (decode encoding (pairs.flatMap (fun pair => encodeEntry encoding pair.1 pair.2) ++ rest)
          span).entries =
        pairs.mapIdx fun index pair => ⟨index, pair.1, pair.2⟩) ∧
    (∀ file bytes : Bytes, file.slice? span = some bytes →
      ∀ entry ∈ (decode encoding bytes span).entries,
        file.slice? ((decode encoding bytes span).entrySpan entry) =
          some (encodeEntry encoding entry.tag entry.value)) ∧
    ∀ (bytes : Bytes) (indexes : List Nat),
      (∀ index ∈ indexes, index ∈ (decode encoding bytes span).entries.map DynamicEntry.index) →
      ∃ after, clearSlots encoding bytes indexes = some after ∧
        (decode encoding after span).entries =
          (decode encoding bytes span).entries.map fun entry =>
            if entry.index ∈ indexes then ⟨entry.index, Tag.removed, 0⟩ else entry := by
  refine ⟨fun pairs rest fit ends => entries_of_pairs fit (entries_of_ends ends), ?_, ?_⟩
  · intro file bytes sliced entry member
    have inside := slot_inside (mem_entries_decode member).1
    rw [Bytes.length_slice sliced] at inside
    rw [← slot_of_entry member, Bytes.slice_slice sliced _ inside]
    rfl
  · intro bytes indexes parsed
    obtain ⟨after, done, _, cleared⟩ := decode_of_clear_slots parsed
    refine ⟨after, done, ?_⟩
    rw [cleared, without]
    apply List.map_congr_left
    intro entry _
    simp only [List.contains_iff_mem]
    rfl

section Sample

def bigWords : Encoding := ⟨.elf32, .big⟩

def codedPairs : List (Nat × Nat) := [(Tag.needed, 1), (Tag.runPath, 0xffffffff)]

/-- Two entries, a null entry with a value, and the beginning of another slot. -/
def codedArray : Bytes :=
  codedPairs.flatMap (fun pair => encodeEntry bigWords pair.1 pair.2) ++
    (encodeEntry bigWords Tag.null 7 ++ [0, 0, 1])

end Sample

theorem entries_round_trip_sample :
    (∀ pair ∈ codedPairs, pair.1 ≠ Tag.null ∧ pair.1 < 256 ^ bigWords.wordSize ∧
        pair.2 < 256 ^ bigWords.wordSize) ∧
      Ends bigWords (encodeEntry bigWords Tag.null 7 ++ [0, 0, 1]) ∧
      (decode bigWords codedArray ⟨5, 27⟩).entries =
        [⟨0, Tag.needed, 1⟩, ⟨1, Tag.runPath, 0xffffffff⟩] ∧
      Bytes.slice? (List.replicate 5 9 ++ codedArray) ⟨5, 27⟩ = some codedArray ∧
      Bytes.slice? (List.replicate 5 9 ++ codedArray) ⟨13, 8⟩ =
        some (encodeEntry bigWords Tag.runPath 0xffffffff) ∧
      ∃ after, clearSlots bigWords codedArray [0] = some after ∧
        (decode bigWords after ⟨5, 27⟩).entries =
          [⟨0, Tag.removed, 0⟩, ⟨1, Tag.runPath, 0xffffffff⟩] := by
  obtain ⟨read, written, taken⟩ := entries_round_trip bigWords ⟨5, 27⟩
  have fit : ∀ pair ∈ codedPairs, pair.1 ≠ Tag.null ∧ pair.1 < 256 ^ bigWords.wordSize ∧
      pair.2 < 256 ^ bigWords.wordSize := by decide
  have ends : Ends bigWords (encodeEntry bigWords Tag.null 7 ++ [0, 0, 1]) := .inl ⟨7, _, rfl⟩
  have entries := read codedPairs _ fit ends
  have sliced : Bytes.slice? (List.replicate 5 9 ++ codedArray) ⟨5, 27⟩ = some codedArray := by
    decide
  have second : ⟨1, Tag.runPath, 0xffffffff⟩ ∈ (decode bigWords codedArray ⟨5, 27⟩).entries := by
    rw [codedArray, entries]
    decide
  obtain ⟨after, done, cleared⟩ := taken codedArray [0] (by decide)
  refine ⟨fit, ends, entries, sliced, written _ _ sliced _ second, after, done, ?_⟩
  rw [cleared, codedArray, entries]
  rfl

end DynamicArray

end Elf

end BinaryImage
