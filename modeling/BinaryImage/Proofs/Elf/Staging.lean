import BinaryImage.Elf.Command
import BinaryImage.Proofs.Elf.DynamicEntries
import BinaryImage.Session

/-!
What commands leave staged. Every edit fills a place that the file has for it, and the image in
memory is the image that was read, less the entries whose slots are edited. Both hold of an image
without edits, and each command keeps them, whether it succeeds or fails.
-/

namespace BinaryImage

namespace EditSet

def removes (staged : EditSet) (index : Nat) : Bool := (staged.get? (.dynamicEntry index)).isSome

theorem removes_stage (staged : EditSet) (edit : Edit) (index : Nat) :
    (staged.stage edit).removes index =
      (decide (edit.target = .dynamicEntry index) || staged.removes index) := by
  unfold removes
  rw [get_stage]
  by_cases hit : edit.target = .dynamicEntry index <;> simp [hit]

theorem removes_stage_of_other (staged : EditSet) {edit : Edit}
    (other : ∀ index, edit.target ≠ .dynamicEntry index) :
    (staged.stage edit).removes = staged.removes := by
  funext index
  rw [removes_stage, decide_eq_false (other index), Bool.false_or]

theorem removes_iff {staged : EditSet} {index : Nat} :
    staged.removes index = true ↔ ∃ edit ∈ staged.edits, edit.target = .dynamicEntry index := by
  simp [removes, get?, List.find?_isSome]

end EditSet

namespace Elf

def DynamicArray.Names (dynamic : DynamicArray) (data : Bytes) (entry : DynamicEntry)
    (span : Span) : Prop :=
  ∃ table bytes, dynamic.strings = some table ∧ data.slice? table.span = some bytes ∧
    table.entrySpan bytes entry.value = .ok span

theorem DynamicArray.names_iff {dynamic : DynamicArray} {data bytes : Bytes} {table : StringTable}
    (strings : dynamic.strings = some table) (sliced : data.slice? table.span = some bytes)
    {entry : DynamicEntry} {span : Span} :
    dynamic.Names data entry span ↔ table.entrySpan bytes entry.value = .ok span := by
  constructor
  · rintro ⟨_, _, otherStrings, otherSliced, named⟩
    cases strings.symm.trans otherStrings
    cases sliced.symm.trans otherSliced
    exact named
  · intro named
    exact ⟨table, bytes, strings, sliced, named⟩

/-- Two strings that an entry names are one. -/
theorem DynamicArray.Names.same {dynamic : DynamicArray} {data : Bytes} {entry : DynamicEntry}
    {a b : Span} (namedA : dynamic.Names data entry a) (namedB : dynamic.Names data entry b) :
    a = b := by
  obtain ⟨table, bytes, strings, sliced, located⟩ := namedA
  have again := (names_iff strings sliced).mp namedB
  exact Except.ok.inj (located.symm.trans again)

namespace Image

variable {data : Bytes} {fresh image edited : Image} {staged : EditSet}

/-- The image with edits staged in it, less the entries whose slots they fill. -/
def withEdits (image : Image) (staged : EditSet) : Image :=
  { image with
    dynamic := image.dynamic.map fun dynamic => dynamic.without staged.removes
    edits := staged }

theorem with_edits_self (unedited : image.edits = EditSet.empty) :
    image.withEdits image.edits = image := by
  have same : ∀ dynamic : DynamicArray, dynamic.without image.edits.removes = dynamic := by
    intro dynamic
    apply DynamicArray.without_of_none
    intro index
    rw [unedited]
    rfl
  simp only [withEdits, same, Option.map_id']

theorem stage_with_edits {edit : Edit} (other : ∀ index, edit.target ≠ .dynamicEntry index) :
    (fresh.withEdits staged).stage edit = fresh.withEdits (staged.stage edit) := by
  simp only [withEdits, stage, staged.removes_stage_of_other other]

-- Taking one more entry out: the slots that are edited are those before and its own.
theorem remove_entry_with_edits (dynamic : DynamicArray) (entry : DynamicEntry) :
    (fresh.withEdits staged).removeEntry dynamic entry =
      fresh.withEdits (staged.stage ⟨.dynamicEntry entry.index, (dynamic.entrySpan entry).start,
        encodeEntry fresh.header.encoding Tag.removed 0⟩) := by
  have composed : ∀ current : DynamicArray,
      { current.without staged.removes with
        entries := (current.without staged.removes).entries.map fun item =>
          if item.index = entry.index then item.removed else item } =
        current.without (staged.stage ⟨.dynamicEntry entry.index, (dynamic.entrySpan entry).start,
          encodeEntry fresh.header.encoding Tag.removed 0⟩).removes := by
    intro current
    simp only [DynamicArray.without, List.map_map]
    congr 1
    apply List.map_congr_left
    intro item _
    simp only [Function.comp_apply, EditSet.removes_stage, EditTarget.dynamicEntry.injEq]
    by_cases before : staged.removes item.index = true
    · have taken : (decide (entry.index = item.index) || staged.removes item.index) = true := by
        rw [before, Bool.or_true]
      rw [if_pos before, if_pos taken]
      split <;> rfl
    · rw [if_neg before]
      by_cases hit : item.index = entry.index
      · have taken : (decide (entry.index = item.index) || staged.removes item.index) = true := by
          rw [decide_eq_true hit.symm, Bool.true_or]
        rw [if_pos hit, if_pos taken]
      · have left : (decide (entry.index = item.index) || staged.removes item.index) = false := by
          rw [decide_eq_false (Ne.symm hit), Bool.false_or]
          exact Bool.eq_false_iff.mpr before
        rw [if_neg hit, left]
        rfl
  simp only [removeEntry, withEdits, stage, Option.map_map]
  congr 1
  cases fresh.dynamic with
  | none => rfl
  | some current => exact congrArg some (composed current)

inductive Placed (data : Bytes) (fresh : Image) (staged : EditSet) : Edit → Prop where
  | interpreter {edit : Edit} (target : edit.target = .interpreter)
      (place : fresh.interpreter = some edit.span)
      (terminated : edit.bytes.getLast? = some 0) : Placed data fresh staged edit
  /-- The string of a search path, of which no entry that is left names a part. Its entry was the
  first with its tag when entries of some of the edited slots had been taken out. -/
  | path {edit : Edit} {dynamic : DynamicArray} {entry : DynamicEntry} {path : PathTag}
      {removed : Nat → Bool} (target : edit.target = .dynamicString edit.start)
      (found : fresh.dynamic = some dynamic)
      (first : (dynamic.without removed).find? path.tag = some entry)
      (earlier : ∀ index, removed index = true → staged.removes index = true)
      (place : dynamic.Names data entry edit.span)
      (terminated : edit.bytes.getLast? = some 0)
      (unshared : ∀ other ∈ dynamic.stringEntries, staged.removes other.index = false →
        ∀ span, dynamic.Names data other span →
          span = edit.span ∨ span.overlaps edit.span = false) :
      Placed data fresh staged edit
  | removal {dynamic : DynamicArray} {entry : DynamicEntry} (found : fresh.dynamic = some dynamic)
      (member : entry ∈ dynamic.entries) (tag : entry.tag = Tag.needed) :
      Placed data fresh staged ⟨.dynamicEntry entry.index, (dynamic.entrySpan entry).start,
        encodeEntry fresh.header.encoding Tag.removed 0⟩

structure Staged (data : Bytes) (fresh image : Image) : Prop where
  same : image = fresh.withEdits image.edits
  placed : ∀ edit ∈ image.edits.edits, Placed data fresh image.edits edit

theorem Staged.dynamic {current : DynamicArray} (staged : Staged data fresh image)
    (found : image.dynamic = some current) :
    ∃ dynamic, fresh.dynamic = some dynamic ∧ dynamic.without image.edits.removes = current := by
  rw [staged.same] at found
  simpa only [withEdits, Option.map_eq_some_iff] using found

theorem staged_of_fresh (unedited : fresh.edits = EditSet.empty) : Staged data fresh fresh := by
  refine ⟨(with_edits_self unedited).symm, ?_⟩
  intro edit member
  rw [unedited] at member
  cases member

-- Staging more edits leaves fewer entries whose strings could be shared.
theorem placed_stage {edit : Edit} (placed : Placed data fresh staged edit) (new : Edit) :
    Placed data fresh (staged.stage new) edit := by
  cases placed with
  | interpreter target place terminated => exact .interpreter target place terminated
  | path target found first earlier place terminated unshared =>
    refine .path target found first ?_ place terminated ?_
    · intro index before
      rw [EditSet.removes_stage, earlier index before, Bool.or_true]
    · intro other names present
      rw [EditSet.removes_stage, Bool.or_eq_false_iff] at present
      exact unshared other names present.2
  | removal found member tag => exact .removal found member tag

theorem staged_stage {new : Edit} (same : edited = fresh.withEdits (staged.stage new))
    (placed : ∀ edit ∈ staged.edits, Placed data fresh staged edit)
    (newPlaced : Placed data fresh (staged.stage new) new) : Staged data fresh edited := by
  subst same
  refine ⟨rfl, ?_⟩
  intro edit member
  rcases Edit.mem_insert member with rfl | before
  · exact newPlaced
  · exact placed_stage (placed edit before) new

theorem staged_of_set_interpreter {path : String} (staged : Staged data fresh image)
    (done : image.setInterpreter path = .ok edited) : Staged data fresh edited := by
  simp only [setInterpreter, bind_eq_ok_iff, require_some_eq_ok_iff, pure, Except.pure,
    Except.ok.injEq] at done
  rcases done with ⟨span, found, edit, padded, rfl⟩
  obtain ⟨target, place, terminated⟩ := Edit.of_padded padded
  have other : ∀ index, edit.target ≠ .dynamicEntry index := by
    intro index hit
    rw [target] at hit
    cases hit
  rw [staged.same] at found
  apply staged_stage _ staged.placed
  · exact .interpreter target (place ▸ found) terminated
  · rw [staged.same]
    exact stage_with_edits other

theorem dynamic_strings_eq_ok_iff {table : StringTable} {bytes : Bytes} :
    image.dynamicStrings data = .ok (table, bytes) ↔
      (∃ dynamic, image.dynamic = some dynamic ∧ dynamic.strings = some table) ∧
        data.slice? table.span = some bytes := by
  simp only [dynamicStrings, bind_eq_ok_iff, require_some_eq_ok_iff, slice_eq_ok_iff, pure,
    Except.pure, Except.ok.injEq, Prod.mk.injEq, Option.bind_eq_some_iff]
  constructor
  · rintro ⟨table, found, bytes, sliced, rfl, rfl⟩
    exact ⟨found, sliced⟩
  · rintro ⟨found, sliced⟩
    exact ⟨table, found, bytes, sliced, rfl, rfl⟩

-- The look-ups of the strings may fail too, which ends the check with their error.
theorem check_unshared_eq_ok_iff {dynamic : DynamicArray} {table : StringTable} {bytes : Bytes}
    {span : Span} {tag : Nat} (found : image.dynamic = some dynamic)
    (read : image.dynamicStrings data = .ok (table, bytes)) :
    image.checkUnshared data span tag = .ok () ↔
      ∀ other ∈ dynamic.stringEntries, ∃ place, table.entrySpan bytes other.value = .ok place ∧
        (place = span ∨ place.overlaps span = false) := by
  simp only [checkUnshared, found, bind_eq_ok_iff, read, Except.ok.injEq, exists_eq_left',
    forM_eq_ok_iff, require_eq_ok_iff, Bool.or_eq_true, beq_iff_eq, Bool.not_eq_true']

/-- What setting a search path does: it stages the padded path over the string of the first entry
with the tag, with which no other string shares bytes unless it is the same one. -/
theorem set_path_eq_ok_iff {path : PathTag} {text : String} :
    image.setPath data path text = .ok edited ↔
      ∃ dynamic entry span edit, image.dynamic = some dynamic ∧
        dynamic.find? path.tag = some entry ∧ dynamic.Names data entry span ∧
        (∀ other ∈ dynamic.stringEntries, ∃ place, dynamic.Names data other place ∧
          (place = span ∨ place.overlaps span = false)) ∧
        Edit.padded (.dynamicString span.start) span text = .ok edit ∧
        edited = image.stage edit := by
  simp only [setPath, bind_eq_ok_iff, require_some_eq_ok_iff, pure, Except.pure, Except.ok.injEq,
    Option.bind_eq_some_iff]
  constructor
  · rintro ⟨entry, ⟨dynamic, found, first⟩, ⟨table, bytes⟩, read, span, named, _, passed, edit,
      padded, rfl⟩
    obtain ⟨⟨_, again, strings⟩, sliced⟩ := dynamic_strings_eq_ok_iff.mp read
    cases found.symm.trans again
    have clear := (check_unshared_eq_ok_iff found read).mp passed
    simp only [← DynamicArray.names_iff strings sliced] at named clear
    exact ⟨dynamic, entry, span, edit, found, first, named, clear, padded, rfl⟩
  · rintro ⟨dynamic, entry, span, edit, found, first, named, clear, padded, rfl⟩
    obtain ⟨table, bytes, strings, sliced, located⟩ := named
    have read := dynamic_strings_eq_ok_iff.mpr ⟨⟨dynamic, found, strings⟩, sliced⟩
    simp only [DynamicArray.names_iff strings sliced] at clear
    exact ⟨entry, ⟨dynamic, found, first⟩, (table, bytes), read, span, located, (),
      (check_unshared_eq_ok_iff found read).mpr clear, edit, padded, rfl⟩

theorem of_set_path {path : PathTag} {text : String}
    (done : image.setPath data path text = .ok edited) :
    ∃ dynamic entry edit, image.dynamic = some dynamic ∧ dynamic.find? path.tag = some entry ∧
      edit.target = .dynamicString edit.start ∧ dynamic.Names data entry edit.span ∧
      edit.bytes.getLast? = some 0 ∧
      (∀ other ∈ dynamic.stringEntries, ∀ place, dynamic.Names data other place →
        place = edit.span ∨ place.overlaps edit.span = false) ∧
      edited = image.stage edit := by
  obtain ⟨dynamic, entry, _, edit, found, first, named, clear, padded, rfl⟩ :=
    set_path_eq_ok_iff.mp done
  obtain ⟨target, rfl, terminated⟩ := Edit.of_padded padded
  refine ⟨dynamic, entry, edit, found, first, target, named, terminated, ?_, rfl⟩
  intro other member place otherNamed
  obtain ⟨_, again, apart⟩ := clear other member
  cases again.same otherNamed
  exact apart

theorem staged_of_set_path {path : PathTag} {text : String} (staged : Staged data fresh image)
    (done : image.setPath data path text = .ok edited) : Staged data fresh edited := by
  obtain ⟨_, entry, edit, found, first, target, named, terminated, clear, rfl⟩ := of_set_path done
  have other : ∀ index, edit.target ≠ .dynamicEntry index := by
    intro index same
    rw [target] at same
    cases same
  rcases staged.dynamic found with ⟨dynamic, freshDynamic, rfl⟩
  apply staged_stage _ staged.placed
  · refine .path target freshDynamic first ?_ named terminated ?_
    · intro index before
      rw [EditSet.removes_stage_of_other image.edits other]
      exact before
    · intro item names left place itemNamed
      rw [EditSet.removes_stage_of_other image.edits other] at left
      exact clear item (DynamicArray.mem_string_entries_without_iff.mpr ⟨names, left⟩) place
        itemNamed
  · rw [staged.same]
    exact stage_with_edits other

theorem staged_of_removals {dynamic current : DynamicArray} {entries : List DynamicEntry}
    (found : fresh.dynamic = some dynamic)
    (sameSpans : ∀ entry, current.entrySpan entry = dynamic.entrySpan entry)
    (needed : ∀ entry ∈ entries, entry ∈ dynamic.entries ∧ entry.tag = Tag.needed)
    (staged : Staged data fresh image) :
    Staged data fresh
      (entries.foldl (fun edited entry => edited.removeEntry current entry) image) := by
  induction entries generalizing image with
  | nil => exact staged
  | cons entry rest ih =>
    obtain ⟨⟨member, tag⟩, later⟩ := List.forall_mem_cons.mp needed
    apply ih later
    apply staged_stage _ staged.placed
    · exact .removal found member tag
    · change image.removeEntry current entry = _
      rw [staged.same, remove_entry_with_edits, sameSpans]
      rfl

theorem mem_of_needed_named {dynamic : DynamicArray} {name : String} {entries : List DynamicEntry}
    (named : image.neededNamed data dynamic name = .ok entries) :
    ∀ entry ∈ entries, entry ∈ dynamic.findAll Tag.needed := by
  intro entry member
  simp only [neededNamed, bind_eq_ok_iff, pure, Except.pure, Except.ok.injEq] at named
  rcases named with ⟨pairs, paired, rfl⟩
  obtain ⟨pair, kept, rfl⟩ := List.mem_map.mp member
  obtain ⟨item, inside, read⟩ := mem_of_mapM_eq_ok paired (List.mem_filter.mp kept).1
  obtain ⟨text, _, done⟩ := bind_eq_ok_iff.mp read
  cases done
  exact inside

theorem staged_of_remove_needed {name : String} (staged : Staged data fresh image)
    (done : image.removeNeeded data name = .ok edited) : Staged data fresh edited := by
  simp only [removeNeeded, bind_eq_ok_iff, require_some_eq_ok_iff, pure, Except.pure,
    Except.ok.injEq] at done
  rcases done with ⟨current, found, entries, named, _, _, rfl⟩
  rcases staged.dynamic found with ⟨dynamic, freshDynamic, rfl⟩
  apply staged_of_removals freshDynamic (fun entry => rfl) _ staged
  intro entry member
  obtain ⟨inside, tagged⟩ := List.mem_filter.mp (mem_of_needed_named named entry member)
  have tag : entry.tag = Tag.needed := by simpa using tagged
  have present : entry.tag ≠ Tag.removed := by
    rw [tag]
    decide
  exact ⟨(DynamicArray.mem_entries_without inside present).1, tag⟩

theorem staged_of_run {command : Command} (staged : Staged data fresh image)
    (done : image.run data command = .ok edited) : Staged data fresh edited := by
  cases command with
  | setInterpreter path => exact staged_of_set_interpreter staged done
  | setPath tag text => exact staged_of_set_path staged done
  | setSearchPath searchPath => exact staged_of_set_path staged done
  | removeNeeded name => exact staged_of_remove_needed staged done

end Image

end Elf

namespace Session

open Elf.Image

variable {fresh image : Elf.Image}

theorem staged_of_attempt_all {session : Session} (elf : session.image = .elf image)
    (staged : Staged session.data fresh image) (commands : List Command) :
    ∃ edited, (session.attemptAll commands).image = .elf edited ∧
      Staged session.data fresh edited :=
  elf_of_attempt_all elf staged fun _ _ _ _ before done => staged_of_run before done

end Session

end BinaryImage
