import BinaryImage.Proofs.Assignment
import BinaryImage.Proofs.Elf.Reopening
import BinaryImage.Proofs.Utf8

/-!
Taking a needed library out of a file. The entries that go are told by their stored strings as they
are shown, so a name with a replacement character stands for every string that is shown as it. Each
of them is overwritten in its own slot, and where the slots lie apart from the strings, the library
cannot be taken out again.
-/

namespace BinaryImage

namespace EditSet

theorem overlay_of_spared {staged : EditSet} {span : Span} (spared : staged.Spares span)
    (bytes : Bytes) : staged.overlay bytes span = bytes := by
  have none : staged.touching span = [] := by
    rw [touching, List.filter_eq_nil_iff]
    intro edit member
    rw [Span.overlaps_comm, spared edit member]
    decide
  rw [overlay, none]
  rfl

theorem mem_stage_iff {staged : EditSet} {edit item : Edit}
    (agree : ∀ other ∈ staged.edits, edit.target = other.target → edit = other) :
    item ∈ (staged.stage edit).edits ↔ item = edit ∨ item ∈ staged.edits := by
  rw [mem_edits_iff, get_stage]
  split
  · next hit =>
    rw [Option.some.injEq, eq_comm]
    constructor
    · exact .inl
    · rintro (same | member)
      · exact same
      · exact (agree item member hit).symm
  · next other =>
    rw [← mem_edits_iff]
    constructor
    · exact .inr
    · rintro (rfl | member)
      · contradiction
      · exact member

/-- Edits that differ in their targets are all kept, each of them once. -/
theorem mem_stage_all_iff {edits : List Edit} {staged : EditSet} {item : Edit}
    (agree : ∀ a ∈ edits, ∀ b, b ∈ edits ∨ b ∈ staged.edits → a.target = b.target → a = b) :
    item ∈ (edits.foldl stage staged).edits ↔ item ∈ edits ∨ item ∈ staged.edits := by
  induction edits generalizing staged with
  | nil => simp
  | cons edit rest ih =>
    obtain ⟨first, later⟩ := List.forall_mem_cons.mp agree
    have kept : ∀ other ∈ staged.edits, edit.target = other.target → edit = other :=
      fun other before => first other (.inr before)
    rw [List.foldl_cons, ih, mem_stage_iff kept, List.mem_cons, or_left_comm, or_assoc]
    intro a inRest b inEither
    apply later a inRest b
    rcases inEither with inRestToo | staged
    · exact .inl (List.mem_cons_of_mem _ inRestToo)
    · rw [mem_stage_iff kept] at staged
      rcases staged with rfl | before
      · exact .inl List.mem_cons_self
      · exact .inr before

end EditSet

namespace Elf

namespace DynamicArray

def storedString? (dynamic : DynamicArray) (data : Bytes) (entry : DynamicEntry) :
    Option Bytes := do
  let table ← dynamic.strings
  let bytes ← data.slice? table.span
  return Bytes.beforeNul (bytes.drop entry.value)

/-- The entry needs a library whose stored string is shown as `name`. -/
def Needs (dynamic : DynamicArray) (data : Bytes) (name : String) (entry : DynamicEntry) : Prop :=
  entry.tag = Tag.needed ∧ (dynamic.storedString? data entry).map Text.Utf8.decode = some name

instance (dynamic : DynamicArray) (data : Bytes) (name : String) (entry : DynamicEntry) :
    Decidable (dynamic.Needs data name entry) :=
  inferInstanceAs (Decidable (entry.tag = Tag.needed ∧
    (dynamic.storedString? data entry).map Text.Utf8.decode = some name))

/-- A name without replacement characters stands for one string only. -/
theorem needs_iff_encoded {dynamic : DynamicArray} {data : Bytes} {name : String}
    {entry : DynamicEntry} (clean : Text.Utf8.replacement ∉ name.toList) :
    dynamic.Needs data name entry ↔ entry.tag = Tag.needed ∧
      dynamic.storedString? data entry = some (Text.Utf8.encode name) := by
  unfold Needs
  cases dynamic.storedString? data entry with
  | none => simp
  | some bytes => simp [Text.Utf8.decode_eq_iff clean]

end DynamicArray

namespace Image

variable {data : Bytes} {fresh image edited : Image} {dynamic : DynamicArray} {name : String}
  {staged : EditSet}

def removal (image : Image) (dynamic : DynamicArray) (entry : DynamicEntry) : Edit :=
  ⟨.dynamicEntry entry.index, (dynamic.entrySpan entry).start,
    encodeEntry image.header.encoding Tag.removed 0⟩

def removals (image : Image) (data : Bytes) (dynamic : DynamicArray) (name : String) : EditSet :=
  ((dynamic.entries.filter fun entry => dynamic.Needs data name entry).map
    (image.removal dynamic)).foldl EditSet.stage EditSet.empty

theorem remove_entries_with_edits (dynamic : DynamicArray) (entries : List DynamicEntry) :
    entries.foldl (fun edited entry => edited.removeEntry dynamic entry) (fresh.withEdits staged) =
      fresh.withEdits ((entries.map (fresh.removal dynamic)).foldl EditSet.stage staged) := by
  induction entries generalizing staged with
  | nil => rfl
  | cons entry rest ih =>
    rw [List.foldl_cons, remove_entry_with_edits, ih]
    rfl

/-- Where no edit touches the strings, what an entry reads is what the file stores. -/
theorem dynamic_string_of_spared (found : image.dynamic = some dynamic)
    (spared : ∀ table ∈ dynamic.strings, image.edits.Spares table.span) {entry : DynamicEntry}
    {place : Span} (named : dynamic.Names data entry place) :
    ∃ bytes, dynamic.storedString? data entry = some bytes ∧
      image.dynamicString data entry.value = .ok (Text.Utf8.decode bytes) := by
  obtain ⟨table, bytes, strings, sliced, located⟩ := named
  refine ⟨Bytes.beforeNul (bytes.drop entry.value), ?_, ?_⟩
  · simp [DynamicArray.storedString?, strings, sliced]
  · have seen := EditSet.overlay_of_spared (spared table strings) bytes
    simp only [dynamic_string_eq_view, found, Option.bind_some, strings, requireSome, view, slice,
      sliced, bind, Except.bind, pure, Except.pure, seen, StringTable.get, located]

/-- The entries that are called `name` are found by what each of them reads. -/
theorem needed_named_of_reads {text : DynamicEntry → String}
    (reads : ∀ entry ∈ dynamic.findAll Tag.needed,
      image.dynamicString data entry.value = .ok (text entry)) (name : String) :
    image.neededNamed data dynamic name =
      .ok ((dynamic.findAll Tag.needed).filter fun entry => text entry == name) := by
  have paired : ∀ entry ∈ dynamic.findAll Tag.needed,
      (image.dynamicString data entry.value >>= fun shown => pure (entry, shown)) =
        .ok (entry, text entry) := by
    intro entry member
    rw [reads entry member]
    rfl
  have called : (((dynamic.findAll Tag.needed).map fun entry => (entry, text entry)).filter
      fun pair => pair.2 == name).map Prod.fst =
        (dynamic.findAll Tag.needed).filter fun entry => text entry == name := by
    rw [List.filter_map, List.map_map]
    exact List.map_id _
  rw [neededNamed, mapM_eq_ok_map paired]
  exact congrArg Except.ok called

theorem needed_named_of_spared (found : image.dynamic = some dynamic)
    (spared : ∀ table ∈ dynamic.strings, image.edits.Spares table.span)
    (named : ∀ entry ∈ dynamic.stringEntries, ∃ place, dynamic.Names data entry place)
    (name : String) :
    image.neededNamed data dynamic name =
      .ok (dynamic.entries.filter fun entry => dynamic.Needs data name entry) := by
  let text (entry : DynamicEntry) : String :=
    ((dynamic.storedString? data entry).map Text.Utf8.decode).getD ""
  have shown : ∀ entry ∈ dynamic.findAll Tag.needed, ∃ bytes,
      dynamic.storedString? data entry = some bytes ∧
        image.dynamicString data entry.value = .ok (Text.Utf8.decode bytes) := by
    intro entry member
    obtain ⟨place, one⟩ := named entry (DynamicArray.mem_string_entries member rfl)
    exact dynamic_string_of_spared found spared one
  have reads : ∀ entry ∈ dynamic.findAll Tag.needed,
      image.dynamicString data entry.value = .ok (text entry) := by
    intro entry member
    obtain ⟨bytes, stored, read⟩ := shown entry member
    simp only [text, read, stored, Option.map_some, Option.getD_some]
  have matched : ∀ entry ∈ dynamic.findAll Tag.needed,
      (text entry == name) = decide (dynamic.Needs data name entry) := by
    intro entry member
    obtain ⟨bytes, stored, _⟩ := shown entry member
    have tag : entry.tag = Tag.needed := by simpa using (List.mem_filter.mp member).2
    simp only [text, DynamicArray.Needs, tag, stored]
    simp [Bool.beq_eq_decide_eq]
  rw [needed_named_of_reads reads, List.filter_congr matched, DynamicArray.findAll,
    List.filter_filter]
  congr 2
  funext entry
  by_cases tag : entry.tag = Tag.needed <;> simp [DynamicArray.Needs, tag]

/-- Taking a library out of a file that was just read overwrites the slots of the entries that need
it, all of them and no others. -/
theorem remove_needed_eq_ok_iff (opened : Opened data fresh) :
    fresh.removeNeeded data name = .ok edited ↔
      ∃ dynamic, fresh.dynamic = some dynamic ∧
        (∃ entry ∈ dynamic.entries, dynamic.Needs data name entry) ∧
        edited = fresh.withEdits (fresh.removals data dynamic name) := by
  have unedited := unedited_of_parse opened.parsed
  have spared : ∀ span, fresh.edits.Spares span := by
    intro span edit member
    rw [unedited] at member
    cases member
  have named : ∀ dynamic, fresh.dynamic = some dynamic →
      fresh.neededNamed data dynamic name =
        .ok (dynamic.entries.filter fun entry => dynamic.Needs data name entry) :=
    fun dynamic found => needed_named_of_spared found (fun table _ => spared table.span)
      (opened.strings_named found) name
  have filled : ∀ dynamic : DynamicArray,
      (!(dynamic.entries.filter fun entry => dynamic.Needs data name entry).isEmpty) = true ↔
        ∃ entry ∈ dynamic.entries, dynamic.Needs data name entry := by
    intro dynamic
    simp [List.filter_eq_nil_iff]
  have removed : ∀ dynamic : DynamicArray,
      (dynamic.entries.filter fun entry => dynamic.Needs data name entry).foldl
        (fun edited entry => edited.removeEntry dynamic entry) fresh =
          fresh.withEdits (fresh.removals data dynamic name) := by
    intro dynamic
    conv => lhs; rw [← with_edits_self unedited, unedited]
    exact remove_entries_with_edits dynamic _
  simp only [removeNeeded, bind_eq_ok_iff, require_some_eq_ok_iff, require_eq_ok_iff, pure,
    Except.pure, Except.ok.injEq]
  constructor
  · rintro ⟨dynamic, found, entries, matched, _, some, rfl⟩
    cases (named dynamic found).symm.trans matched
    exact ⟨dynamic, found, (filled dynamic).mp some, removed dynamic⟩
  · rintro ⟨dynamic, found, some, rfl⟩
    exact ⟨dynamic, found, _, named dynamic found, (), (filled dynamic).mpr some, removed dynamic⟩

namespace Opened

variable (opened : Opened data fresh) (found : fresh.dynamic = some dynamic)
include opened found

theorem mem_removals_iff {edit : Edit} :
    edit ∈ (fresh.removals data dynamic name).edits ↔
      ∃ entry ∈ dynamic.entries, dynamic.Needs data name entry ∧
        edit = fresh.removal dynamic entry := by
  rw [removals, EditSet.mem_stage_all_iff]
  · simp [EditSet.empty, and_assoc, eq_comm]
  · rintro a memberA b (memberB | none) same
    · obtain ⟨entryA, matchedA, rfl⟩ := List.mem_map.mp memberA
      obtain ⟨entryB, matchedB, rfl⟩ := List.mem_map.mp memberB
      have entries := opened.entry_unique found (List.mem_filter.mp matchedA).1
        (List.mem_filter.mp matchedB).1 (EditTarget.dynamicEntry.inj same)
      rw [entries]
    · cases none

theorem removes_removals_iff {entry : DynamicEntry} (member : entry ∈ dynamic.entries) :
    (fresh.removals data dynamic name).removes entry.index = true ↔
      dynamic.Needs data name entry := by
  rw [EditSet.removes_iff]
  constructor
  · rintro ⟨edit, staged, target⟩
    obtain ⟨other, inside, needs, rfl⟩ := (opened.mem_removals_iff found).mp staged
    cases opened.entry_unique found inside member (EditTarget.dynamicEntry.inj target)
    exact needs
  · intro needs
    exact ⟨_, (opened.mem_removals_iff found).mpr ⟨entry, member, needs, rfl⟩, rfl⟩

theorem removal_span_eq (entry : DynamicEntry) :
    (fresh.removal dynamic entry).span = dynamic.entrySpan entry :=
  opened.removal_span found rfl rfl

/-- Slots apart from the strings leave the strings alone when they are overwritten. -/
theorem strings_spared (apart : ∀ table ∈ dynamic.strings, dynamic.span.Apart table.span) :
    ∀ table ∈ dynamic.strings, (fresh.removals data dynamic name).Spares table.span := by
  intro table strings edit member
  obtain ⟨entry, inside, _, rfl⟩ := (opened.mem_removals_iff found).mp member
  have slot := opened.slot_inside found inside
  have array := opened.below_limit (opened.region_inside (array_region_mem found))
  have small := opened.below_limit (opened.region_inside (strings_region_mem found strings))
  have covered : ∀ offset, (dynamic.entrySpan entry).Covers offset → dynamic.span.Covers offset :=
    fun offset => Span.covers_of_fits (Nat.le_add_right _ _) (by
      simp only [DynamicArray.entrySpan]
      omega)
  rw [opened.removal_span_eq found]
  rw [Span.overlaps_eq_false_iff_apart small]
  · rintro offset ⟨inTable, inSlot⟩
    exact apart table strings offset ⟨covered offset inSlot, inTable⟩
  · simp only at array
    simp only [DynamicArray.entrySpan]
    omega

/-- What has been taken out is not found again. -/
theorem remove_needed_again (apart : ∀ table ∈ dynamic.strings, dynamic.span.Apart table.span) :
    (fresh.withEdits (fresh.removals data dynamic name)).removeNeeded data name =
      .error (.notFound (.neededLibrary name)) := by
  let left := dynamic.without (fresh.removals data dynamic name).removes
  have foundAgain : (fresh.withEdits (fresh.removals data dynamic name)).dynamic = some left := by
    rw [withEdits, found]
    rfl
  have named : ∀ entry ∈ left.stringEntries, ∃ place, left.Names data entry place := by
    intro entry member
    exact opened.strings_named found entry
      (DynamicArray.mem_string_entries_without_iff.mp member).1
  have none : (left.entries.filter fun entry => left.Needs data name entry) = [] := by
    rw [List.filter_eq_nil_iff]
    intro entry member
    rw [decide_eq_true_iff]
    rintro ⟨tag, stored⟩
    have present : entry.tag ≠ Tag.removed := by
      rw [tag]
      decide
    obtain ⟨before, stays⟩ := DynamicArray.mem_entries_without member present
    rw [(opened.removes_removals_iff found before).mpr ⟨tag, stored⟩] at stays
    cases stays
  have matched := needed_named_of_spared foundAgain (opened.strings_spared found apart) named name
  rw [none] at matched
  simp only [removeNeeded, foundAgain, requireSome, bind, Except.bind, matched]
  rfl

end Opened

end Image

end Elf

namespace Session

open Elf Elf.Image

/--
The entries that are taken out are those whose stored string is shown as the name, which for a name
without replacement characters are those that store its bytes. Each of them is overwritten in its
slot, and the others stay as they are.
-/
theorem needed_removed_exactly {data : Bytes} {session edited : Session} {image : Elf.Image}
    {name : String} (addressable : data.length < offsetLimit) (opened : ofFile data = .ok session)
    (elf : session.image = .elf image)
    (done : session.run? (.elf (.removeNeeded name)) = some (.ok edited)) :
    ∃ dynamic after, image.dynamic = some dynamic ∧ edited = ⟨data, .elf after⟩ ∧
      (∃ entry ∈ dynamic.entries, dynamic.Needs data name entry) ∧
      after.dynamic = some { dynamic with
        entries := dynamic.entries.map fun entry =>
          if dynamic.Needs data name entry then ⟨entry.index, Tag.removed, 0⟩ else entry } ∧
      (∀ edit, edit ∈ after.edits.edits ↔
        ∃ entry ∈ dynamic.entries, dynamic.Needs data name entry ∧
          edit.target = .dynamicEntry entry.index ∧ edit.span = dynamic.entrySpan entry ∧
          edit.bytes = encodeEntry image.header.encoding Tag.removed 0) ∧
      (Text.Utf8.replacement ∉ name.toList → ∀ entry, dynamic.Needs data name entry ↔
        entry.tag = Tag.needed ∧
          dynamic.storedString? data entry = some (Text.Utf8.encode name)) ∧
      ((∀ table ∈ dynamic.strings, dynamic.span.Apart table.span) →
        edited.run? (.elf (.removeNeeded name)) =
          some (.error (.notFound (.neededLibrary name)))) := by
  obtain ⟨rfl, openedImage, _⟩ := elf_of_file addressable opened elf
  simp only [run?, elf, Option.some.injEq, map_eq_ok_iff] at done
  obtain ⟨after, ran, rfl⟩ := done
  obtain ⟨dynamic, found, needed, rfl⟩ := (remove_needed_eq_ok_iff openedImage).mp ran
  refine ⟨dynamic, _, found, rfl, needed, ?_, ?_, ?_, ?_⟩
  · rw [withEdits, found]
    simp only [Option.map_some, Option.some.injEq, DynamicArray.without, DynamicArray.mk.injEq,
      true_and, and_true]
    apply List.map_congr_left
    intro entry member
    simp only [openedImage.removes_removals_iff found member]
    rfl
  · intro edit
    rw [withEdits, openedImage.mem_removals_iff found]
    constructor
    · rintro ⟨entry, member, needs, rfl⟩
      exact ⟨entry, member, needs, rfl, openedImage.removal_span_eq found entry, rfl⟩
    · rintro ⟨entry, member, needs, target, place, bytes⟩
      refine ⟨entry, member, needs, ?_⟩
      obtain ⟨_, start, _⟩ := edit
      have starts : start = (dynamic.entrySpan entry).start := congrArg Span.start place
      subst target starts bytes
      rfl
  · intro clean entry
    exact DynamicArray.needs_iff_encoded clean
  · intro apart
    simp only [run?, Elf.Image.run, openedImage.remove_needed_again found apart]
    rfl

section Sample

def removedSession : Session := sampleSession.attempt (.elf (.removeNeeded "a.so"))

/-- The sample where the first library is called by a replacement character and a letter, the
second one by a byte that no character starts with and the same letter. -/
def brokenNameFile : Bytes :=
  sampleFile.splice 157 (Text.Utf8.encode "\ufffdx\x00" ++ [0xff, 0x78, 0])

def brokenNameSession : Session := (ofFile brokenNameFile).toOption.get (by decide +kernel)

def brokenNameImage : Elf.Image := (parse brokenNameFile).toOption.get (by decide +kernel)

def brokenNameArray : DynamicArray := brokenNameImage.dynamic.get (by decide +kernel)

def brokenNameEdited : Elf.Image :=
  (brokenNameImage.removeNeeded brokenNameFile "\ufffdx").toOption.get (by decide +kernel)

end Sample

theorem needed_removed_exactly_sample :
    sampleSession.run? (.elf (.removeNeeded "a.so")) = some (.ok removedSession) ∧
      removedSession.image.needed sampleFile = .ok ["b.so"] ∧
      (∃ after, removedSession = ⟨sampleFile, .elf after⟩ ∧
        ∀ edit, edit ∈ after.edits.edits ↔
          ∃ entry ∈ sampleArray.entries, sampleArray.Needs sampleFile "a.so" entry ∧
            edit.target = .dynamicEntry entry.index ∧ edit.span = sampleArray.entrySpan entry ∧
            edit.bytes = encodeEntry sampleImage.header.encoding Tag.removed 0) ∧
      removedSession.run? (.elf (.removeNeeded "a.so")) =
        some (.error (.notFound (.neededLibrary "a.so"))) := by
  have apart : Span.Apart ⟨172, 48⟩ ⟨156, 16⟩ := by
    rintro offset ⟨inSlots, inStrings⟩
    simp only [Span.Covers] at inSlots inStrings
    omega
  have opened : ofFile sampleFile = .ok sampleSession := by decide +kernel
  have elf : sampleSession.image = .elf sampleImage := by decide +kernel
  have done : sampleSession.run? (.elf (.removeNeeded "a.so")) = some (.ok removedSession) := by
    decide +kernel
  have array : sampleImage.dynamic = some sampleArray := by decide +kernel
  have places : sampleArray.span = ⟨172, 48⟩ ∧ sampleArray.strings = some ⟨⟨156, 16⟩⟩ := by
    decide +kernel
  obtain ⟨dynamic, after, found, same, _, _, staged, _, again⟩ :=
    needed_removed_exactly sample_addressable opened elf done
  have isSample : dynamic = sampleArray := Option.some.inj (found.symm.trans array)
  rw [isSample] at staged again
  refine ⟨done, by decide +kernel, ⟨after, same, staged⟩, again ?_⟩
  rw [places.1, places.2]
  rintro _ ⟨⟩
  exact apart

-- The second library is shown like the first one and taken out with it, though its bytes differ.
theorem other_library_removed :
    ofFile brokenNameFile = .ok brokenNameSession ∧
      brokenNameSession.image = .elf brokenNameImage ∧
      brokenNameImage.dynamic = some brokenNameArray ∧
      brokenNameArray.span = ⟨172, 48⟩ ∧ brokenNameArray.strings = some ⟨⟨156, 16⟩⟩ ∧
      (brokenNameArray.findAll Tag.needed).map (brokenNameArray.storedString? brokenNameFile) =
        [some (Text.Utf8.encode "\ufffdx"), some [0xff, 0x78]] ∧
      Text.Utf8.encode "\ufffdx" ≠ [0xff, 0x78] ∧
      brokenNameSession.run? (.elf (.removeNeeded "\ufffdx")) =
        some (.ok ⟨brokenNameFile, .elf brokenNameEdited⟩) ∧
      (brokenNameEdited.dynamic.map fun dynamic => dynamic.entries.map DynamicEntry.tag) =
        some [Tag.removed, Tag.removed, Tag.runPath, Tag.stringTable, Tag.stringTableSize] := by
  decide +kernel

end Session

end BinaryImage
