import BinaryImage.Proofs.EditWriting
import BinaryImage.Proofs.Elf.Separation
import BinaryImage.Proofs.Elf.Staging

/-!
Where staged edits lie. Each of them fills a place that the file offers, inside the part of the
file that it is meant for, and inside one part edits of different targets do not meet. Where these
parts are set apart, no two edits meet, so they can always be written.
-/

namespace BinaryImage

open Layout

def EditTarget.part? : EditTarget → Option Entity
  | interpreter => some .interpreter
  | dynamicString _ => some .dynamicStrings
  | dynamicEntry _ => some .dynamicArray
  | dllName _ => none

theorem EditTarget.part_of_kind {a b : EditTarget} (kind : a.kind = b.kind) :
    a.part? = b.part? := by
  cases a <;> cases b <;> simp_all [EditTarget.kind, part?]

namespace Elf

namespace PathTag

variable (path : PathTag)

theorem names_string : Tag.namesString path.tag = true := by
  cases path <;> rfl

theorem tag_ne_needed : path.tag ≠ Tag.needed := by
  cases path <;> decide

theorem tag_ne_removed : path.tag ≠ Tag.removed := by
  cases path <;> decide

end PathTag

/-- The span of a string lies in its table, and it ends with a NUL. -/
theorem DynamicArray.Names.in_table {dynamic : DynamicArray} {data : Bytes} {entry : DynamicEntry}
    {span : Span} (named : dynamic.Names data entry span) :
    ∃ table bytes, dynamic.strings = some table ∧ data.slice? table.span = some bytes ∧
      entry.value < bytes.length ∧ span.start = table.span.start + entry.value ∧
      entry.value + span.length ≤ table.span.length ∧
      ∃ record, data.slice? span = some record ∧ 0 ∈ record := by
  rcases named with ⟨table, bytes, strings, sliced, found⟩
  obtain ⟨below, length, terminated, rfl⟩ := StringTable.entry_span_eq_ok_iff.mp found
  have nul := Bytes.nul_of_terminator terminated
  rw [List.getElem?_drop] at nul
  have inside : entry.value + length < bytes.length := (List.getElem?_eq_some_iff.mp nul).1
  have exact := Bytes.length_slice sliced
  have part : bytes.slice? ⟨entry.value, length + 1⟩ =
      some ((bytes.drop entry.value).take (length + 1)) := Bytes.slice_of_fits inside
  have fits : entry.value + (length + 1) ≤ table.span.length := by omega
  have whole := Bytes.slice_slice sliced ⟨entry.value, length + 1⟩ fits
  refine ⟨table, bytes, strings, sliced, below, rfl, fits, _, whole.symm.trans part, ?_⟩
  have last : ((bytes.drop entry.value).take (length + 1))[length]? = some 0 := by
    rw [List.getElem?_take_of_lt (by omega), List.getElem?_drop]
    exact nul
  exact List.mem_of_getElem? last

/-- The first entry with a search path tag, once others are taken out, is one of the array. -/
theorem DynamicArray.of_find_path {dynamic : DynamicArray} {removed : Nat → Bool} {path : PathTag}
    {entry : DynamicEntry} (first : (dynamic.without removed).find? path.tag = some entry) :
    entry ∈ dynamic.entries ∧ entry.tag = path.tag := by
  obtain ⟨member, tag⟩ := mem_of_find first
  have present : entry.tag ≠ Tag.removed := tag ▸ path.tag_ne_removed
  exact ⟨(mem_entries_without member present).1, tag⟩

namespace Image

structure Opened (data : Bytes) (image : Image) : Prop where
  addressable : data.length < offsetLimit
  parsed : parse data = .ok image
  valid : image.validate = .ok ()

/-- A file that can be opened, where what commands edit is set apart. -/
structure Editable (data : Bytes) (image : Image) : Prop where
  addressable : data.length < offsetLimit
  parsed : parse data = .ok image
  valid : image.validate = .ok ()
  separated : image.Separated

theorem Editable.opened {data : Bytes} {image : Image} (editable : Editable data image) :
    Opened data image := ⟨editable.addressable, editable.parsed, editable.valid⟩

variable {data : Bytes} {fresh : Image} {staged : EditSet} {dynamic : DynamicArray}

theorem Placed.of_interpreter {edit : Edit} (placed : Placed data fresh staged edit)
    (part : edit.target.part? = some .interpreter) :
    edit.target = .interpreter ∧ fresh.interpreter = some edit.span ∧ 0 ∈ edit.bytes := by
  cases placed with
  | interpreter target place terminated =>
    exact ⟨target, place, List.mem_of_getLast? terminated⟩
  | path target =>
    rw [target] at part
    cases part
  | removal => cases part

theorem Placed.of_strings {edit : Edit} (placed : Placed data fresh staged edit)
    (part : edit.target.part? = some .dynamicStrings) :
    edit.target = .dynamicString edit.start ∧ ∃ dynamic entry, ∃ path : PathTag,
      fresh.dynamic = some dynamic ∧ entry ∈ dynamic.entries ∧ entry.tag = path.tag ∧
      dynamic.Names data entry edit.span ∧ 0 ∈ edit.bytes ∧
      ∀ other ∈ dynamic.stringEntries, staged.removes other.index = false →
        ∀ span, dynamic.Names data other span →
          span = edit.span ∨ span.overlaps edit.span = false := by
  cases placed with
  | interpreter target =>
    rw [target] at part
    cases part
  | path target found first _ place terminated unshared =>
    obtain ⟨member, tag⟩ := DynamicArray.of_find_path first
    exact ⟨target, _, _, _, found, member, tag, place, List.mem_of_getLast? terminated, unshared⟩
  | removal => cases part

theorem Placed.of_array {edit : Edit} (placed : Placed data fresh staged edit)
    (part : edit.target.part? = some .dynamicArray) :
    ∃ dynamic entry, fresh.dynamic = some dynamic ∧ entry ∈ dynamic.entries ∧
      entry.tag = Tag.needed ∧ edit.target = .dynamicEntry entry.index ∧
      edit.start = (dynamic.entrySpan entry).start ∧
      edit.bytes = encodeEntry fresh.header.encoding Tag.removed 0 := by
  cases placed with
  | interpreter target =>
    rw [target] at part
    cases part
  | path target =>
    rw [target] at part
    cases part
  | removal found member tag => exact ⟨_, _, found, member, tag, rfl, rfl, rfl⟩

theorem interpreter_region_mem {span : Span} (found : fresh.interpreter = some span) :
    ⟨.interpreter, span⟩ ∈ fresh.dynamicRegions := by
  simp [dynamicRegions, found]

theorem array_region_mem (found : fresh.dynamic = some dynamic) :
    ⟨.dynamicArray, dynamic.span⟩ ∈ fresh.dynamicRegions := by
  simp [dynamicRegions, found]

theorem strings_region_mem {table : StringTable} (found : fresh.dynamic = some dynamic)
    (strings : dynamic.strings = some table) :
    ⟨.dynamicStrings, table.span⟩ ∈ fresh.dynamicRegions := by
  simp [dynamicRegions, found, strings]

/-- A place of the file that a command may fill: the interpreter, the string of the first entry
with the tag of a search path, or the slot of an entry that names a needed library. -/
inductive Offers (data : Bytes) (image : Image) : EditTarget → Span → Prop where
  | interpreter {span : Span} (found : image.interpreter = some span) :
      Offers data image .interpreter span
  | path {dynamic : DynamicArray} {entry : DynamicEntry} {span : Span} (path : PathTag)
      (found : image.dynamic = some dynamic) (first : dynamic.find? path.tag = some entry)
      (named : dynamic.Names data entry span) : Offers data image (.dynamicString span.start) span
  | slot {dynamic : DynamicArray} {entry : DynamicEntry} (found : image.dynamic = some dynamic)
      (member : entry ∈ dynamic.entries) (tag : entry.tag = Tag.needed) :
      Offers data image (.dynamicEntry entry.index) (dynamic.entrySpan entry)

/-- Each entry that names a string finds it in the table. -/
theorem strings_named_of_parse (parsed : parse data = .ok fresh)
    (found : fresh.dynamic = some dynamic) :
    ∀ entry ∈ dynamic.stringEntries, ∃ span, dynamic.Names data entry span := by
  have read := find_dynamic_of_parse parsed
  rw [found, find_dynamic_eq_ok_iff] at read
  split at read
  · cases read
  · rcases read with ⟨_, attached, _, done, same⟩
    cases same
    rw [attach_strings_eq_ok_iff] at done
    split at done
    · rcases done with ⟨⟨bytes, sliced, named⟩, rfl⟩
      intro entry member
      rcases named entry member with ⟨place, one⟩
      exact ⟨place, _, bytes, rfl, sliced, one⟩
    · rcases done with ⟨none, rfl⟩
      rw [none]
      intro entry member
      cases member

namespace Opened

theorem below_limit (opened : Opened data fresh) {span : Span}
    (inside : span.start + span.length ≤ data.length) : span.start + span.length < offsetLimit :=
  Nat.lt_of_le_of_lt inside opened.addressable

theorem region_inside (opened : Opened data fresh) {region : Region}
    (member : region ∈ fresh.dynamicRegions) :
    region.span.start + region.span.length ≤ data.length := by
  obtain ⟨_, _, _, _, inside⟩ := validate_eq_ok_iff.mp opened.valid
  have fits := Span.fitsIn_iff.mp (inside region member)
  rw [file_length_of_parse opened.parsed] at fits
  exact fits

/-- The entries are those of the bytes in the file. -/
theorem entries_decoded (opened : Opened data fresh) (found : fresh.dynamic = some dynamic) :
    ∃ bytes, data.slice? dynamic.span = some bytes ∧
      dynamic.entries =
        (DynamicArray.decode fresh.header.encoding bytes dynamic.span).entries ∧
      dynamic.entrySize = fresh.header.encoding.fileClass.dynamicEntrySize := by
  have read := find_dynamic_of_parse opened.parsed
  rw [found, find_dynamic_eq_ok_iff] at read
  split at read
  · cases read
  · rcases read with ⟨bytes, attached, sliced, done, same⟩
    cases same
    obtain ⟨span, entries, size⟩ := array_of_attach_strings done
    rw [span]
    exact ⟨bytes, sliced, entries, size⟩

theorem strings_named (opened : Opened data fresh) (found : fresh.dynamic = some dynamic) :
    ∀ entry ∈ dynamic.stringEntries, ∃ span, dynamic.Names data entry span :=
  strings_named_of_parse opened.parsed found

theorem entry_unique (opened : Opened data fresh) (found : fresh.dynamic = some dynamic)
    {a b : DynamicEntry} (memberA : a ∈ dynamic.entries) (memberB : b ∈ dynamic.entries)
    (same : a.index = b.index) : a = b := by
  rcases opened.entries_decoded found with ⟨bytes, _, decoded, _⟩
  rw [decoded] at memberA memberB
  obtain ⟨_, readA, _⟩ := DynamicArray.mem_entries_decode memberA
  obtain ⟨_, readB, _⟩ := DynamicArray.mem_entries_decode memberB
  rw [readA, readB, same]

theorem slot_inside (opened : Opened data fresh) (found : fresh.dynamic = some dynamic)
    {entry : DynamicEntry} (member : entry ∈ dynamic.entries) :
    entry.index * dynamic.entrySize + dynamic.entrySize ≤ dynamic.span.length := by
  rcases opened.entries_decoded found with ⟨bytes, sliced, decoded, size⟩
  rw [decoded] at member
  obtain ⟨below, _⟩ := DynamicArray.mem_entries_decode member
  rw [← Bytes.length_slice sliced, size]
  exact DynamicArray.slot_inside below

theorem removal_span (opened : Opened data fresh) (found : fresh.dynamic = some dynamic)
    {edit : Edit} {entry : DynamicEntry} (start : edit.start = (dynamic.entrySpan entry).start)
    (bytes : edit.bytes = encodeEntry fresh.header.encoding Tag.removed 0) :
    edit.span = dynamic.entrySpan entry := by
  rcases opened.entries_decoded found with ⟨_, _, _, size⟩
  rw [Edit.span, start, bytes, length_encode_entry, ← size]
  rfl

/-- Only needed libraries are taken out. -/
theorem needed_of_removes (opened : Opened data fresh)
    (placed : ∀ edit ∈ staged.edits, Placed data fresh staged edit)
    (found : fresh.dynamic = some dynamic) {entry : DynamicEntry}
    (member : entry ∈ dynamic.entries) (removed : staged.removes entry.index = true) :
    entry.tag = Tag.needed := by
  obtain ⟨edit, inside, hit⟩ := EditSet.removes_iff.mp removed
  obtain ⟨_, _, foundAgain, memberAgain, tag, target, _⟩ :=
    (placed edit inside).of_array (by rw [hit]; rfl)
  cases found.symm.trans foundAgain
  cases opened.entry_unique found member memberAgain
    (EditTarget.dynamicEntry.inj (hit.symm.trans target))
  exact tag

/-- An entry that names a search path is never taken out. -/
theorem present_of_path (opened : Opened data fresh)
    (placed : ∀ edit ∈ staged.edits, Placed data fresh staged edit)
    (found : fresh.dynamic = some dynamic) {entry : DynamicEntry}
    (member : entry ∈ dynamic.entries) {path : PathTag} (tag : entry.tag = path.tag) :
    entry ∈ dynamic.stringEntries ∧ staged.removes entry.index = false := by
  constructor
  · apply List.mem_filter.mpr
    refine ⟨member, ?_⟩
    rw [DynamicEntry.namesString, tag]
    exact path.names_string
  · apply Bool.eq_false_iff.mpr
    intro removed
    exact path.tag_ne_needed (tag.symm.trans (opened.needed_of_removes placed found member removed))

/-- What is edited is one of the places that the file offers. -/
theorem offers_of_placed (opened : Opened data fresh)
    (placed : ∀ edit ∈ staged.edits, Placed data fresh staged edit) {edit : Edit}
    (member : edit ∈ staged.edits) : Offers data fresh edit.target edit.span := by
  cases placed edit member with
  | interpreter target place =>
    rw [target]
    exact .interpreter place
  | @path _ dynamic _ path removed target found first earlier place =>
    -- The entries that had been taken out named libraries, so none of them was found before.
    have kept : ∀ item ∈ dynamic.entries, removed item.index = true → item.tag ≠ path.tag := by
      intro item inside out tag
      have needed := opened.needed_of_removes placed found inside (earlier _ out)
      exact path.tag_ne_needed (tag.symm.trans needed)
    rw [DynamicArray.find_without path.tag_ne_removed.symm kept] at first
    rw [target]
    exact .path path found first place
  | removal found inside tag =>
    rw [opened.removal_span found rfl rfl]
    exact .slot found inside tag

/-- A place lies in the part of the file that its target names. -/
theorem region_of_offers (opened : Opened data fresh) {target : EditTarget} {span : Span}
    (offered : Offers data fresh target span) :
    ∃ region ∈ fresh.dynamicRegions, target.part? = some region.entity ∧
      region.span.start ≤ span.start ∧
      span.start + span.length ≤ region.span.start + region.span.length := by
  cases offered with
  | interpreter found =>
    exact ⟨_, interpreter_region_mem found, rfl, Nat.le_refl _, Nat.le_refl _⟩
  | path path found first named =>
    rcases named.in_table with ⟨table, _, strings, _, _, start, fits, _⟩
    refine ⟨_, strings_region_mem found strings, rfl, ?_, ?_⟩
    · simp only
      omega
    · simp only
      omega
  | slot found member tag =>
    have inside := opened.slot_inside found member
    refine ⟨_, array_region_mem found, rfl, Nat.le_add_right _ _, ?_⟩
    simp only [DynamicArray.entrySpan]
    omega

theorem edit_inside (opened : Opened data fresh)
    (placed : ∀ edit ∈ staged.edits, Placed data fresh staged edit) {edit : Edit}
    (member : edit ∈ staged.edits) : edit.span.start + edit.span.length ≤ data.length := by
  rcases opened.region_of_offers (opened.offers_of_placed placed member) with
    ⟨region, isPart, _, _, stop⟩
  have bound := opened.region_inside isPart
  omega

-- In one part, targets tell the places apart: a string by its start, a slot by its index.
theorem apart_of_same_part (opened : Opened data fresh)
    (placed : ∀ edit ∈ staged.edits, Placed data fresh staged edit) {a b : Edit}
    (memberA : a ∈ staged.edits) (memberB : b ∈ staged.edits) (different : a.target ≠ b.target)
    (part : a.target.part? = b.target.part?) : a.Apart b := by
  have placedB := placed b memberB
  cases placed a memberA with
  | interpreter targetA =>
    rcases placedB.of_interpreter (by rw [← part, targetA]; rfl) with ⟨targetB, _⟩
    exact absurd (targetA.trans targetB.symm) different
  | path targetA foundA firstA earlierA placeA terminatedA unsharedA =>
    obtain ⟨targetB, _, _, _, foundB, entryB, tagB, placeB, _⟩ :=
      placedB.of_strings (by rw [← part, targetA]; rfl)
    cases foundA.symm.trans foundB
    rcases opened.present_of_path placed foundB entryB tagB with ⟨names, present⟩
    rintro offset ⟨inA, inB⟩
    rcases unsharedA _ names present _ placeB with same | free
    · have starts : b.start = a.start := congrArg Span.start same
      rw [targetA, targetB, starts] at different
      contradiction
    · have inside := opened.edit_inside placed memberA
      exact Span.not_covers_of_apart (opened.below_limit inside) free inB inA
  | removal foundA entryA =>
    obtain ⟨_, _, foundB, entryB, _, targetB, startB, bytesB⟩ :=
      placedB.of_array (by rw [← part]; rfl)
    cases foundA.symm.trans foundB
    rw [targetB] at different
    have indices : _ ≠ _ := fun same => different (congrArg EditTarget.dynamicEntry same)
    rintro offset ⟨inA, inB⟩
    rw [opened.removal_span foundB startB bytesB] at inB
    rw [opened.removal_span foundA rfl rfl] at inA
    exact slots_apart _ indices offset ⟨inA, inB⟩

/-- Bytes that no edit overlaps are written as they were read. -/
theorem agree_of_apart (opened : Opened data fresh)
    (placed : ∀ edit ∈ staged.edits, Placed data fresh staged edit) {out : Bytes}
    (wrote : staged.write data = .ok out) {span : Span}
    (apart : ∀ edit ∈ staged.edits, span.overlaps edit.span = false) :
    Bytes.Agree data out span := by
  apply EditSet.agree_of_uncovered wrote
  intro edit member offset inside
  have small := opened.below_limit (opened.edit_inside placed member)
  exact Span.not_covers_of_apart small (apart edit member) inside

end Opened

namespace Editable

theorem region_exclusive (editable : Editable data fresh) {a b : Region}
    (memberA : a ∈ fresh.dynamicRegions) (memberB : b ∈ fresh.dynamicRegions)
    (different : a.entity ≠ b.entity) {offset : Nat} (inA : a.span.Covers offset) :
    ¬ b.span.Covers offset := by
  have apart := editable.separated.regions_apart editable.valid
  have swap : Std.Symm fun a b : Region => a.span.overlaps b.span = false := by
    constructor
    intro a b free
    rw [Span.overlaps_comm]
    exact free
  have free := apart.forall memberA memberB fun same => different (congrArg Region.entity same)
  have small := editable.opened.below_limit (editable.opened.region_inside memberB)
  exact Span.not_covers_of_apart small free inA

theorem apart_of_part_ne (editable : Editable data fresh)
    (placed : ∀ edit ∈ staged.edits, Placed data fresh staged edit) {a b : Edit}
    (memberA : a ∈ staged.edits) (memberB : b ∈ staged.edits)
    (different : a.target.part? ≠ b.target.part?) : a.Apart b := by
  have opened := editable.opened
  rintro offset ⟨inA, inB⟩
  rcases opened.region_of_offers (opened.offers_of_placed placed memberA) with
    ⟨regionA, isPartA, partA, startA, stopA⟩
  rcases opened.region_of_offers (opened.offers_of_placed placed memberB) with
    ⟨regionB, isPartB, partB, startB, stopB⟩
  have entities : regionA.entity ≠ regionB.entity := by
    intro same
    rw [partA, partB, same] at different
    contradiction
  exact editable.region_exclusive isPartA isPartB entities
    (Span.covers_of_fits startA stopA inA) (Span.covers_of_fits startB stopB inB)

theorem apart_of_placed (editable : Editable data fresh)
    (placed : ∀ edit ∈ staged.edits, Placed data fresh staged edit) {a b : Edit}
    (memberA : a ∈ staged.edits) (memberB : b ∈ staged.edits) (different : a.target ≠ b.target) :
    a.Apart b := by
  by_cases part : a.target.part? = b.target.part?
  · exact editable.opened.apart_of_same_part placed memberA memberB different part
  · exact editable.apart_of_part_ne placed memberA memberB part

/-- Staged edits can be written. -/
theorem write_of_placed (editable : Editable data fresh)
    (placed : ∀ edit ∈ staged.edits, Placed data fresh staged edit) :
    staged.edits.Pairwise Edit.Apart ∧ staged.checkDisjoint = .ok () ∧
      ∃ out, staged.write data = .ok out := by
  have apart : staged.edits.Pairwise Edit.Apart := by
    apply staged.targets_distinct.imp_of_mem
    intro a b memberA memberB different
    exact editable.apart_of_placed placed memberA memberB different
  have inside : ∀ edit ∈ staged.edits, edit.span.fitsIn data.length = true := by
    intro edit member
    exact Span.fitsIn_iff.mpr (editable.opened.edit_inside placed member)
  refine ⟨apart, ?_, _, EditSet.write_eq_ok_iff.mpr ⟨inside, rfl⟩⟩
  exact (EditSet.check_disjoint_eq_ok_iff_apart editable.addressable inside).mpr apart

end Editable

end Image

end Elf

namespace Session

open Elf.Image

/-- A session starts with the image that was read, and no edits. -/
theorem elf_of_file {data : Bytes} {session : Session} {image : Elf.Image}
    (addressable : data.length < offsetLimit) (opened : ofFile data = .ok session)
    (elf : session.image = .elf image) :
    session.data = data ∧ Opened data image ∧ Staged data image image := by
  obtain ⟨format, _, rfl, read⟩ := of_file_eq_ok_iff.mp opened
  rw [elf] at read
  obtain ⟨parsedAny, valid⟩ := Image.parse_valid_eq_ok_iff.mp read
  have parsed := Image.elf_of_parse parsedAny
  exact ⟨rfl, ⟨addressable, parsed, valid⟩, staged_of_fresh (unedited_of_parse parsed)⟩

end Session

end BinaryImage
