import BinaryImage.Proofs.Elf.StringEdits

/-!
Reading a written file again. Edits in their places leave alone every byte from which the tables
are read, keep each string terminated, and mark in the array just the entries that were taken out
in memory. So the file is read as the edited image.
-/

namespace BinaryImage

namespace Elf.Image

open Layout

structure Written (data out : Bytes) (fresh : Image) (staged : EditSet) : Prop where
  editable : Editable data fresh
  placed : ∀ edit ∈ staged.edits, Placed data fresh staged edit
  wrote : staged.write data = .ok out

namespace Written

variable {data out : Bytes} {fresh : Image} {staged : EditSet}

theorem same_length (written : Written data out fresh staged) : data.length = out.length :=
  (EditSet.length_write written.wrote).symm

theorem slice_edit (written : Written data out fresh staged) {edit : Edit}
    (member : edit ∈ staged.edits) : out.slice? edit.span = some edit.bytes :=
  EditSet.slice_write_of_mem written.wrote
    (written.editable.write_of_placed written.placed).1 member

theorem agree_of_uncovered (written : Written data out fresh staged) {span : Span}
    (free : ∀ edit ∈ staged.edits, ∀ offset, span.Covers offset → ¬ edit.span.Covers offset) :
    Bytes.Agree data out span := EditSet.agree_of_uncovered written.wrote free

theorem region_of_edit (written : Written data out fresh staged) {edit : Edit}
    (member : edit ∈ staged.edits) :
    ∃ region ∈ fresh.dynamicRegions, edit.target.part? = some region.entity ∧
      region.span.start ≤ edit.span.start ∧
      edit.span.start + edit.span.length ≤ region.span.start + region.span.length :=
  written.editable.opened.region_of_offers
    (written.editable.opened.offers_of_placed written.placed member)

theorem agree_of_apart (written : Written data out fresh staged) {span : Span}
    (apart : ∀ region ∈ fresh.dynamicRegions, span.overlaps region.span = false) :
    Bytes.Agree data out span := by
  apply written.agree_of_uncovered
  intro edit member offset inside covered
  obtain ⟨region, isPart, _, start, stop⟩ := written.region_of_edit member
  have small := written.editable.opened.below_limit (written.editable.opened.region_inside isPart)
  exact Span.not_covers_of_apart small (apart region isPart) inside
    (Span.covers_of_fits start stop covered)

/-- An edit that reaches into a part of the file is one of that part. -/
theorem part_of_covers (written : Written data out fresh staged) {edit : Edit}
    (member : edit ∈ staged.edits) {region : Region} (isPart : region ∈ fresh.dynamicRegions)
    {offset : Nat} (inRegion : region.span.Covers offset) (covered : edit.span.Covers offset) :
    edit.target.part? = some region.entity := by
  obtain ⟨own, isOwn, part, start, stop⟩ := written.region_of_edit member
  have inOwn := Span.covers_of_fits start stop covered
  by_cases same : own.entity = region.entity
  · rw [part, same]
  · exact absurd inRegion (written.editable.region_exclusive isOwn isPart same inOwn)

theorem interpreter_kept (written : Written data out fresh staged) {span : Span}
    (found : fresh.interpreter = some span) :
    ∃ bytes, out.slice? span = some bytes ∧ 0 ∈ bytes := by
  by_cases edited : ∃ edit ∈ staged.edits, edit.target.part? = some .interpreter
  · rcases edited with ⟨edit, member, part⟩
    rcases (written.placed edit member).of_interpreter part with ⟨_, place, terminated⟩
    cases found.symm.trans place
    exact ⟨edit.bytes, written.slice_edit member, terminated⟩
  · have read := find_interpreter_of_parse written.editable.parsed
    rw [found] at read
    obtain ⟨_, _, _, bytes, sliced, nul⟩ := find_interpreter_eq_ok_some_iff.mp read
    have agree : Bytes.Agree data out span := by
      apply written.agree_of_uncovered
      intro edit member offset inside covered
      exact edited ⟨edit, member,
        written.part_of_covers member (interpreter_region_mem found) inside covered⟩
    exact ⟨bytes, agree.slice written.same_length ▸ sliced, nul⟩

variable {dynamic : DynamicArray}

theorem slice_of_removed (written : Written data out fresh staged)
    (found : fresh.dynamic = some dynamic) {entry : DynamicEntry}
    (removed : staged.removes entry.index = true) :
    out.slice? (dynamic.entrySpan entry) =
      some (encodeEntry fresh.header.encoding Tag.removed 0) := by
  obtain ⟨edit, member, hit⟩ := EditSet.removes_iff.mp removed
  obtain ⟨_, item, foundAgain, _, _, target, start, bytes⟩ :=
    (written.placed edit member).of_array (by rw [hit]; rfl)
  cases found.symm.trans foundAgain
  have index : entry.index = item.index := EditTarget.dynamicEntry.inj (hit.symm.trans target)
  have slot : edit.span = dynamic.entrySpan entry := by
    rw [written.editable.opened.removal_span found start bytes, DynamicArray.entrySpan,
      DynamicArray.entrySpan, index]
  rw [← slot, ← bytes]
  exact written.slice_edit member

theorem agree_of_present (written : Written data out fresh staged)
    (found : fresh.dynamic = some dynamic) {entry : DynamicEntry}
    (fits : entry.index * dynamic.entrySize + dynamic.entrySize ≤ dynamic.span.length)
    (present : ¬ staged.removes entry.index = true) :
    Bytes.Agree data out (dynamic.entrySpan entry) := by
  apply written.agree_of_uncovered
  intro edit member offset inside covered
  have inArray : dynamic.span.Covers offset := by
    apply Span.covers_of_fits _ _ inside
    · exact Nat.le_add_right _ _
    · simp only [DynamicArray.entrySpan]
      omega
  have part := written.part_of_covers member (array_region_mem found) inArray covered
  obtain ⟨_, item, foundAgain, _, _, target, start, bytes⟩ :=
    (written.placed edit member).of_array part
  cases found.symm.trans foundAgain
  rw [written.editable.opened.removal_span found start bytes] at covered
  have other : entry.index ≠ item.index := by
    intro same
    exact present (EditSet.removes_iff.mpr ⟨edit, member, same ▸ target⟩)
  exact slots_apart _ other offset ⟨inside, covered⟩

-- A slot holds what it held, unless its entry was taken out.
theorem slot_reread (written : Written data out fresh staged)
    (found : fresh.dynamic = some dynamic) {before after : Bytes}
    (slicedBefore : data.slice? dynamic.span = some before)
    (slicedAfter : out.slice? dynamic.span = some after) {index : Nat}
    (below : index < before.length / fresh.header.encoding.fileClass.dynamicEntrySize) :
    DynamicArray.entryIn fresh.header.encoding after index =
      if staged.removes index then
        (DynamicArray.entryIn fresh.header.encoding before index).removed
      else DynamicArray.entryIn fresh.header.encoding before index := by
  rcases written.editable.opened.entries_decoded found with ⟨_, _, _, size⟩
  have fits := DynamicArray.slot_inside below
  have sameBefore := Bytes.slice_slice slicedBefore
    (DynamicArray.slot fresh.header.encoding index) (Bytes.length_slice slicedBefore ▸ fits)
  have sameAfter := Bytes.slice_slice slicedAfter
    (DynamicArray.slot fresh.header.encoding index) (Bytes.length_slice slicedBefore ▸ fits)
  have place : (⟨dynamic.span.start + (DynamicArray.slot fresh.header.encoding index).start,
      (DynamicArray.slot fresh.header.encoding index).length⟩ : Span) =
        dynamic.entrySpan (DynamicArray.entryIn fresh.header.encoding before index) := by
    simp only [DynamicArray.slot, DynamicArray.entrySpan, size]
    rfl
  rw [place] at sameBefore sameAfter
  by_cases removed : staged.removes index = true
  · rw [if_pos removed]
    exact DynamicArray.entry_in_of_removed
      (sameAfter.trans (written.slice_of_removed found removed))
  · rw [if_neg removed]
    have room : index * dynamic.entrySize + dynamic.entrySize ≤ dynamic.span.length := by
      rw [size, ← Bytes.length_slice slicedBefore]
      exact fits
    have agree : Bytes.Agree data out
        (dynamic.entrySpan (DynamicArray.entryIn fresh.header.encoding before index)) :=
      written.agree_of_present found room removed
    have read := Bytes.slice_of_fits fits
    rw [← agree.slice written.same_length, ← sameBefore] at sameAfter
    rw [DynamicArray.entry_in_of_slice read,
      DynamicArray.entry_in_of_slice (sameAfter.trans read)]

theorem entries_reread (written : Written data out fresh staged)
    (found : fresh.dynamic = some dynamic) {before : Bytes}
    (slicedBefore : data.slice? dynamic.span = some before) :
    ∃ after, out.slice? dynamic.span = some after ∧
      DynamicArray.decode fresh.header.encoding after dynamic.span =
        (DynamicArray.decode fresh.header.encoding before dynamic.span).without
          staged.removes := by
  rcases written.editable.opened.entries_decoded found with ⟨_, sliced, decoded, _⟩
  cases slicedBefore.symm.trans sliced
  have bounded := (Bytes.slice_eq_some_iff.mp slicedBefore).1
  rw [written.same_length] at bounded
  have slicedAfter := Bytes.slice_of_fits bounded
  refine ⟨_, slicedAfter, ?_⟩
  have length := (Bytes.length_slice slicedAfter).trans (Bytes.length_slice slicedBefore).symm
  apply DynamicArray.decode_without length
  · intro index below
    exact written.slot_reread found slicedBefore slicedAfter below
  · intro index below removed
    obtain ⟨edit, member, hit⟩ := EditSet.removes_iff.mp removed
    obtain ⟨_, entry, foundAgain, inside, _, target, _⟩ :=
      (written.placed edit member).of_array (by rw [hit]; rfl)
    cases found.symm.trans foundAgain
    rw [decoded] at inside
    obtain ⟨_, read, live⟩ := DynamicArray.mem_entries_decode inside
    rw [← EditTarget.dynamicEntry.inj (hit.symm.trans target)] at read
    exact read ▸ live

theorem string_kept (written : Written data out fresh staged)
    (found : fresh.dynamic = some dynamic) {entry : DynamicEntry}
    (member : entry ∈ dynamic.stringEntries) (present : staged.removes entry.index = false)
    {place : Span} (named : dynamic.Names data entry place) :
    ∃ record, out.slice? place = some record ∧ 0 ∈ record := by
  rcases named.in_table with ⟨table, _, strings, _, _, start, fits, _⟩
  have apart := (written.editable.write_of_placed written.placed).1
  obtain ⟨record, _, sliced, nul⟩ := written.editable.opened.string_held written.placed apart
    written.wrote found member present named (by
      intro edit inside offset inPlace covered
      have inTable : table.span.Covers offset :=
        Span.covers_of_fits (by omega) (by omega) inPlace
      exact written.part_of_covers inside (strings_region_mem found strings) inTable covered)
  exact ⟨record, sliced, nul⟩

theorem strings_reread (written : Written data out fresh staged)
    (found : fresh.dynamic = some dynamic) {table : StringTable}
    (strings : dynamic.strings = some table) {before : Bytes}
    (slicedBefore : data.slice? table.span = some before) :
    ∃ after, out.slice? table.span = some after ∧
      ∀ entry ∈ (dynamic.without staged.removes).stringEntries,
        ∃ place, table.entrySpan after entry.value = .ok place := by
  have bounded := (Bytes.slice_eq_some_iff.mp slicedBefore).1
  rw [written.same_length] at bounded
  have slicedAfter := Bytes.slice_of_fits bounded
  refine ⟨_, slicedAfter, ?_⟩
  intro entry left
  obtain ⟨member, present⟩ := DynamicArray.mem_string_entries_without_iff.mp left
  rcases written.editable.opened.strings_named found entry member with ⟨place, named⟩
  rcases written.string_kept found member present named with ⟨record, sliced, nul⟩
  rcases named.in_table with ⟨_, bytes, stringsAgain, slicedAgain, below, start, fits, _⟩
  cases strings.symm.trans stringsAgain
  have part := Bytes.slice_slice slicedAfter ⟨entry.value, place.length⟩ fits
  have same : (⟨table.span.start + entry.value, place.length⟩ : Span) = place := by
    rw [← start]
  rw [same, sliced] at part
  exact table.entry_span_of_slice part nul

theorem attach_strings_reread (written : Written data out fresh staged)
    (found : fresh.dynamic = some dynamic) {bare : DynamicArray}
    {located? : Option (Span × StringSource)}
    (attached : attachStrings data bare located? = .ok dynamic) :
    attachStrings out (bare.without staged.removes) located? =
      .ok (dynamic.without staged.removes) := by
  rw [attach_strings_eq_ok_iff] at attached ⊢
  cases located? with
  | some located =>
    rcases attached with ⟨⟨bytes, sliced, _⟩, rfl⟩
    rcases written.strings_reread found rfl sliced with ⟨after, slicedAfter, named⟩
    exact ⟨⟨after, slicedAfter, named⟩, rfl⟩
  | none =>
    rcases attached with ⟨none, rfl⟩
    refine ⟨List.eq_nil_iff_forall_not_mem.mpr ?_, rfl⟩
    intro entry left
    have member := (DynamicArray.mem_string_entries_without_iff.mp left).1
    rw [none] at member
    cases member

theorem find_dynamic_reread (written : Written data out fresh staged) :
    findDynamic out fresh.header.encoding fresh.segments fresh.sections =
      .ok (fresh.dynamic.map fun dynamic => dynamic.without staged.removes) := by
  have read := find_dynamic_of_parse written.editable.parsed
  rw [find_dynamic_eq_ok_iff] at read ⊢
  split at read
  · rw [read]
    rfl
  · next span _ =>
    rcases read with ⟨before, dynamic, slicedBefore, attached, found⟩
    obtain ⟨kept, entries, _⟩ := array_of_attach_strings attached
    have sameSpan : dynamic.span = span := kept
    rw [← sameSpan] at slicedBefore attached entries ⊢
    rcases written.entries_reread found slicedBefore with ⟨after, slicedAfter, decoded⟩
    refine ⟨after, _, slicedAfter, ?_, congrArg _ found⟩
    rw [decoded, locate_strings_without]
    · exact written.attach_strings_reread found attached
    · intro entry member removed
      rw [← entries] at member
      exact written.editable.opened.needed_of_removes written.placed found member removed

theorem agree_table (written : Written data out fresh staged) {table : Region}
    (member : table ∈ fresh.tableRegions) : Bytes.Agree data out table.span := by
  apply written.agree_of_apart
  intro region isPart
  exact written.editable.separated.table_apart written.editable.valid member isPart

-- A table without entries is not listed, and has no bytes either.
theorem agree_counted (written : Written data out fresh staged) {entity : Entity}
    {start count size : Nat}
    (listed : count ≠ 0 → (⟨entity, ⟨start, count * size⟩⟩ : Region) ∈ fresh.tableRegions) :
    Bytes.Agree data out ⟨start, count * size⟩ := by
  by_cases none : count = 0
  · rintro offset ⟨reached, below⟩
    simp only [none, Nat.zero_mul] at reached below
    omega
  · exact written.agree_table (listed none)

theorem agree_section_table (written : Written data out fresh staged) :
    Bytes.Agree data out ⟨fresh.header.sectionHeaderOffset,
      fresh.sections.length * fresh.header.fileClass.sectionHeaderSize⟩ := by
  have listed : fresh.sections.length ≠ 0 →
      (⟨.sectionHeaders, ⟨fresh.header.sectionHeaderOffset,
        fresh.sections.length * fresh.header.fileClass.sectionHeaderSize⟩⟩ : Region) ∈
          fresh.tableRegions := by
    intro filled
    have some : fresh.sections.isEmpty = false := by simpa using filled
    simp [tableRegions, some]
  exact written.agree_counted listed

theorem agree_segment_table (written : Written data out fresh staged) :
    Bytes.Agree data out ⟨fresh.header.programHeaderOffset,
      fresh.segments.length * fresh.header.fileClass.programHeaderSize⟩ := by
  have listed : fresh.segments.length ≠ 0 →
      (⟨.programHeaders, ⟨fresh.header.programHeaderOffset,
        fresh.segments.length * fresh.header.fileClass.programHeaderSize⟩⟩ : Region) ∈
          fresh.tableRegions := by
    intro filled
    have some : fresh.segments.isEmpty = false := by simpa using filled
    simp [tableRegions, some]
  exact written.agree_counted listed

-- Without sections nothing is set apart, so nothing is edited.
theorem agree_first_section (written : Written data out fresh staged) :
    Bytes.Agree data out
      ⟨fresh.header.sectionHeaderOffset, fresh.header.fileClass.sectionHeaderSize⟩ := by
  cases filled : fresh.sections with
  | nil =>
    apply written.agree_of_apart
    intro region isPart
    rcases written.editable.separated.owned with ⟨owner, owned, _⟩
    obtain ⟨_, item, found, _⟩ := owned region isPart
    rw [filled] at found
    cases found
  | cons item rest =>
    have filledCount : 0 < fresh.sections.length := by
      rw [filled]
      exact Nat.succ_pos _
    apply written.agree_section_table.mono
    · exact Nat.le_refl _
    · exact Nat.add_le_add_left (Nat.le_mul_of_pos_left _ filledCount) _

theorem agree_headers (written : Written data out fresh staged) :
    ∀ span ∈ fresh.headerSpans, Bytes.Agree data out span := by
  intro span isHeader
  simp only [headerSpans, List.mem_append, List.mem_cons, List.not_mem_nil, or_false,
    Option.mem_toList] at isHeader
  rcases isHeader with (rfl | rfl) | first
  · exact written.agree_table (List.mem_cons_self ..)
  · exact written.agree_section_table
  · unfold firstSectionSpan? at first
    split at first
    · cases first
    · cases first
      exact written.agree_first_section

theorem agree_names (written : Written data out fresh staged) :
    ∀ span ∈ fresh.nameTableSpan?, Bytes.Agree data out span := by
  intro span isTable
  simp only [nameTableSpan?, bind, Option.mem_def, Option.bind_eq_some_iff, pure,
    Option.some.injEq] at isTable
  obtain ⟨index, isIndex, item, found, rfl⟩ := isTable
  apply written.agree_of_apart
  exact written.editable.separated.unnamed index item isIndex found

/-- The written file is read as the edited image. -/
theorem parse_reread (written : Written data out fresh staged) :
    parse out = .ok { fresh.withEdits staged with edits := EditSet.empty } := by
  obtain ⟨first?, headers, headerRead, firstRead, headersRead, segmentsRead, tableIndex, named,
    loads, interpreterFound, _, fileLength, _⟩ := parse_eq_ok_iff.mp written.editable.parsed
  have length := written.same_length
  obtain ⟨headerAgain, firstAgain, headersAgain⟩ := headers_of_agree length written.agree_headers
    headerRead firstRead headersRead (headers_of_name_sections named)
  exact parse_eq_ok_iff.mpr ⟨first?, headers, headerAgain, firstAgain, headersAgain,
    program_headers_of_agree length written.agree_segment_table segmentsRead, tableIndex,
    name_sections_of_agree length written.agree_names named, loads,
    find_interpreter_of_kept interpreterFound fun span found => written.interpreter_kept found,
    written.find_dynamic_reread, fileLength.trans length, rfl⟩

end Written

end Elf.Image

end BinaryImage
