import BinaryImage.Proofs.Elf.Reopening

/-!
Changes of search paths. As long as nothing else is edited, every entry reads its string either from
the file or from the edit of its place, so setting a search path changes what an entry reads only
where that entry names the very string that is replaced.
-/

namespace BinaryImage

namespace Elf

def Command.pathTag? : Command → Option PathTag
  | setPath tag _ => some tag
  | setSearchPath _ => some .runPath
  | setInterpreter _ | removeNeeded _ => none

namespace Image

variable {data : Bytes} {fresh image edited : Image}

theorem run_of_path_tag (image : Image) (data : Bytes) {request : Command} {path : PathTag}
    (isPath : request.pathTag? = some path) :
    ∃ text, image.run data request = image.setPath data path text := by
  cases request with
  | setInterpreter _ => cases isPath
  | setPath tag text =>
    cases isPath
    exact ⟨text, rfl⟩
  | setSearchPath searchPath =>
    cases isPath
    exact ⟨searchPath.render, rfl⟩
  | removeNeeded _ => cases isPath

structure StringsStaged (data : Bytes) (fresh image : Image) : Prop where
  staged : Staged data fresh image
  only : ∀ edit ∈ image.edits.edits, edit.target.part? = some .dynamicStrings

theorem strings_staged_of_set_path {path : PathTag} {text : String}
    (strings : StringsStaged data fresh image) (done : image.setPath data path text = .ok edited) :
    StringsStaged data fresh edited := by
  refine ⟨staged_of_set_path strings.staged done, ?_⟩
  obtain ⟨_, _, edit, _, _, target, _, _, _, rfl⟩ := of_set_path done
  intro item member
  rcases Edit.mem_insert member with rfl | before
  · rw [target]
    rfl
  · exact strings.only item before

/-- What an entry reads is what the written file says in the place of its string. -/
theorem dynamic_string_of_written {out record : Bytes} (addressable : data.length < offsetLimit)
    (wrote : image.edits.write data = .ok out) {dynamic : DynamicArray}
    (found : image.dynamic = some dynamic) {entry : DynamicEntry} {place : Span}
    (named : dynamic.Names data entry place) (sliced : out.slice? place = some record)
    (nul : 0 ∈ record) :
    image.dynamicString data entry.value = .ok (Text.Utf8.decode (Bytes.beforeNul record)) := by
  rcases named.in_table with ⟨table, bytes, tableFound, tableSliced, _, start, fits, _⟩
  have seen := EditSet.slice_write_eq_overlay addressable wrote tableSliced
  have part := Bytes.slice_slice seen ⟨entry.value, place.length⟩ fits
  have same : (⟨table.span.start + entry.value, place.length⟩ : Span) = place := by
    rw [← start]
  rw [same, sliced] at part
  have read := table.get_of_slice part nul
  have located : image.dynamic.bind DynamicArray.strings = some table := by
    rw [found]
    exact tableFound
  simp only [dynamic_string_eq_view, located, requireSome, view, slice, tableSliced, bind,
    Except.bind, pure, Except.pure, read]

namespace StringsStaged

theorem none_removed (strings : StringsStaged data fresh image) (index : Nat) :
    image.edits.removes index = false := by
  apply Bool.eq_false_iff.mpr
  intro removed
  obtain ⟨edit, member, target⟩ := EditSet.removes_iff.mp removed
  have part := strings.only edit member
  rw [target] at part
  cases part

theorem dynamic (strings : StringsStaged data fresh image) : image.dynamic = fresh.dynamic := by
  have same : ∀ dynamic : DynamicArray, dynamic.without image.edits.removes = dynamic :=
    fun _ => DynamicArray.without_of_none strings.none_removed
  conv_lhs => rw [strings.staged.same]
  simp only [withEdits, same, Option.map_id']

/-- An entry reads the bytes that are held for its string. -/
theorem dynamic_string (strings : StringsStaged data fresh image) (opened : Opened data fresh)
    {dynamic : DynamicArray} (found : fresh.dynamic = some dynamic) {entry : DynamicEntry}
    (member : entry ∈ dynamic.stringEntries) {place : Span}
    (named : dynamic.Names data entry place) :
    ∃ record, image.edits.stringBytes? data place = some record ∧
      image.dynamicString data entry.value =
        .ok (Text.Utf8.decode (Bytes.beforeNul record)) := by
  have placed := strings.staged.placed
  have apart : image.edits.edits.Pairwise Edit.Apart := by
    apply image.edits.targets_distinct.imp_of_mem
    intro a b memberA memberB different
    exact opened.apart_of_same_part placed memberA memberB different
      ((strings.only a memberA).trans (strings.only b memberB).symm)
  have inside : ∀ edit ∈ image.edits.edits, edit.span.fitsIn data.length = true := by
    intro edit isEdit
    exact Span.fitsIn_iff.mpr (opened.edit_inside placed isEdit)
  have wrote := EditSet.write_eq_ok_iff.mpr ⟨inside, rfl⟩
  obtain ⟨record, held, sliced, nul⟩ := opened.string_held placed apart wrote found member
    (strings.none_removed entry.index) named fun edit isEdit _ _ _ => strings.only edit isEdit
  exact ⟨record, held, dynamic_string_of_written opened.addressable wrote
    (strings.dynamic.trans found) named sliced nul⟩

end StringsStaged

/-- Setting a search path leaves alone what an entry reads that names another string. -/
theorem dynamic_string_of_set_path {path : PathTag} {text : String} (opened : Opened data fresh)
    (strings : StringsStaged data fresh image) (done : image.setPath data path text = .ok edited) :
    ∃ dynamic entry, fresh.dynamic = some dynamic ∧ dynamic.find? path.tag = some entry ∧
      ∀ other ∈ dynamic.stringEntries, other.value ≠ entry.value →
        edited.dynamicString data other.value = image.dynamicString data other.value := by
  have stringsAfter := strings_staged_of_set_path strings done
  obtain ⟨dynamic, entry, edit, found, first, target, named, _, _, rfl⟩ := of_set_path done
  rw [strings.dynamic] at found
  refine ⟨dynamic, entry, found, first, ?_⟩
  intro other member different
  obtain ⟨place, otherNamed⟩ := opened.strings_named found other member
  obtain ⟨before, heldBefore, readBefore⟩ := strings.dynamic_string opened found member otherNamed
  obtain ⟨after, heldAfter, readAfter⟩ :=
    stringsAfter.dynamic_string opened found member otherNamed
  -- The edit is of another place, since the strings start at different places of one table.
  have elsewhere : edit.target ≠ .dynamicString place.start := by
    rcases named.in_table with ⟨table, _, strings, _, _, start, _⟩
    rcases otherNamed.in_table with ⟨_, _, stringsAgain, _, _, otherStart, _⟩
    cases strings.symm.trans stringsAgain
    intro same
    rw [target] at same
    have starts : edit.span.start = place.start := EditTarget.dynamicString.inj same
    omega
  have kept : (image.stage edit).edits.stringBytes? data place =
      image.edits.stringBytes? data place := by
    simp only [EditSet.stringBytes?, stage, EditSet.get_stage, if_neg elsewhere]
  rw [kept, heldBefore] at heldAfter
  cases heldAfter
  exact readAfter.trans readBefore.symm

theorem needed_congr {other : Image} {dynamic : DynamicArray} (found : image.dynamic = some dynamic)
    (foundOther : other.dynamic = some dynamic)
    (same : ∀ entry ∈ dynamic.findAll Tag.needed,
      other.dynamicString data entry.value = image.dynamicString data entry.value) :
    other.needed data = image.needed data := by
  simp only [needed, found, foundOther]
  exact mapM_congr same

theorem tagged_string_congr {other : Image} {dynamic : DynamicArray} {tag : Nat}
    (found : image.dynamic = some dynamic) (foundOther : other.dynamic = some dynamic)
    (same : ∀ entry, dynamic.find? tag = some entry →
      other.dynamicString data entry.value = image.dynamicString data entry.value) :
    other.taggedString data tag = image.taggedString data tag := by
  simp only [taggedString, found, foundOther, Option.bind_some]
  cases first : dynamic.find? tag with
  | none => rfl
  | some entry => simp only [same entry first]

end Image

end Elf

namespace Session

open Elf Elf.Image

theorem strings_staged_of_attempt_all {session : Session} {image : Elf.Image}
    {history : List Elf.Command} (elf : session.image = .elf image)
    (unedited : image.edits = EditSet.empty)
    (paths : ∀ request ∈ history, request.pathTag?.isSome = true) :
    ∃ edited, (session.attemptAll (history.map .elf)).image = .elf edited ∧
      StringsStaged session.data image edited := by
  have start : StringsStaged session.data image image := by
    refine ⟨staged_of_fresh unedited, ?_⟩
    intro edit member
    rw [unedited] at member
    cases member
  apply elf_of_attempt_all elf start
  intro before after request member strings done
  have past : request ∈ history := by
    obtain ⟨_, inHistory, same⟩ := List.mem_map.mp member
    cases same
    exact inHistory
  obtain ⟨path, isPath⟩ := Option.isSome_iff_exists.mp (paths request past)
  obtain ⟨text, sets⟩ := before.run_of_path_tag session.data isPath
  exact strings_staged_of_set_path strings (sets.symm.trans done)

-- After search paths alone have been set, setting one more changes no other name, unless an entry
-- names the very string of the path. Such an entry is not told apart from a path that shares it.
theorem names_kept {data : Bytes} {session edited : Session} {image : Elf.Image}
    (addressable : data.length < offsetLimit) (opened : ofFile data = .ok session)
    (elf : session.image = .elf image) {history : List Elf.Command}
    (paths : ∀ request ∈ history, request.pathTag?.isSome = true) {request : Elf.Command}
    {path : PathTag} (isPath : request.pathTag? = some path)
    (done : (session.attemptAll (history.map .elf)).run? (.elf request) = some (.ok edited)) :
    ∃ before after dynamic entry, (session.attemptAll (history.map .elf)).image = .elf before ∧
      edited.image = .elf after ∧ image.dynamic = some dynamic ∧
      dynamic.find? path.tag = some entry ∧
      ((∀ other ∈ dynamic.findAll Tag.needed, other.value ≠ entry.value) →
        after.needed data = before.needed data) ∧
      ((∀ other, dynamic.find? Tag.soName = some other → other.value ≠ entry.value) →
        after.soName data = before.soName data) := by
  obtain ⟨rfl, openedImage, _⟩ := elf_of_file addressable opened elf
  have unedited := unedited_of_parse openedImage.parsed
  obtain ⟨before, elfBefore, strings⟩ := strings_staged_of_attempt_all elf unedited paths
  simp only [run?, elfBefore, Option.some.injEq, session.attempt_all_data, map_eq_ok_iff] at done
  obtain ⟨after, ran, rfl⟩ := done
  obtain ⟨text, sets⟩ := before.run_of_path_tag session.data isPath
  rw [sets] at ran
  obtain ⟨dynamic, entry, found, first, kept⟩ :=
    dynamic_string_of_set_path openedImage strings ran
  have foundBefore := strings.dynamic.trans found
  have foundAfter := (strings_staged_of_set_path strings ran).dynamic.trans found
  refine ⟨before, after, dynamic, entry, elfBefore, rfl, found, first, ?_, ?_⟩
  · intro others
    apply needed_congr foundBefore foundAfter
    intro other member
    exact kept other (DynamicArray.mem_string_entries member rfl) (others other member)
  · intro others
    apply tagged_string_congr foundBefore foundAfter
    intro other first
    obtain ⟨inside, tag⟩ := DynamicArray.mem_of_find first
    have member : other ∈ dynamic.findAll Tag.soName :=
      List.mem_filter.mpr ⟨inside, by simpa using tag⟩
    exact kept other (DynamicArray.mem_string_entries member rfl) (others other first)

section Sample

def samplePathSet : Session := sampleSession.attemptAll [.elf (.setPath .runPath "/b")]

def samplePathReset : Session := samplePathSet.attempt (.elf (.setPath .runPath "/c"))

theorem names_kept_sample :
    samplePathReset.image.searchPath sampleFile ≠ samplePathSet.image.searchPath sampleFile ∧
      ∃ before after, samplePathSet.image = .elf before ∧ samplePathReset.image = .elf after ∧
        after.needed sampleFile = before.needed sampleFile ∧
        after.soName sampleFile = before.soName sampleFile := by
  have isPath : Elf.Command.pathTag? (.setPath .runPath "/c") = some .runPath := rfl
  have done : (sampleSession.attemptAll ([.setPath .runPath "/b"].map .elf)).run?
      (.elf (.setPath .runPath "/c")) = some (.ok samplePathReset) := by
    decide +kernel
  -- The first two entries name libraries, and the third the run path.
  have values : ∀ dynamic ∈ sampleImage.dynamic,
      ∀ entry ∈ dynamic.find? PathTag.runPath.tag,
        (∀ other ∈ dynamic.findAll Tag.needed, other.value ≠ entry.value) ∧
          dynamic.find? Tag.soName = none := by
    decide +kernel
  obtain ⟨before, after, dynamic, entry, elfBefore, elfAfter, found, first, needed, soName⟩ :=
    names_kept sample_addressable sample_opened sample_elf (by decide) isPath done
  obtain ⟨neededApart, soNameAbsent⟩ := values dynamic found entry first
  refine ⟨by decide +kernel, before, after, elfBefore, elfAfter, needed neededApart, soName ?_⟩
  intro other named
  rw [soNameAbsent] at named
  cases named

/-- The sample where the second needed library is named by the string of the run path. -/
def sharedFile : Bytes := sampleFile.splice 184 (words [11])

def sharedSession : Session := (ofFile sharedFile).toOption.get (by decide +kernel)

def sharedEdited : Session := sharedSession.attempt (.elf (.setPath .runPath "/b"))

-- The check for shared strings passes over an entry that names the same string.
theorem needed_changed_by_run_path :
    ofFile sharedFile = .ok sharedSession ∧
      sharedSession.run? (.elf (.setPath .runPath "/b")) = some (.ok sharedEdited) ∧
      sharedSession.image.needed sharedFile = .ok ["a.so", "/lib"] ∧
      sharedEdited.image.needed sharedFile = .ok ["a.so", "/b"] := by
  decide +kernel

end Sample

end Session

end BinaryImage
