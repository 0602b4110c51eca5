import BinaryImage.Proofs.Assignment
import BinaryImage.Proofs.Elf.Placement

/-!
Commands that set a string. Each of them means a value for one place of the file: the interpreter
segment, or the string of a search path with its terminator. Whether the value is accepted, and why
it is refused, depends on the file and on no edit that is staged.
-/

namespace BinaryImage.Elf

def Command.isSetter : Command → Bool
  | setInterpreter _ | setPath _ _ | setSearchPath _ => true
  | removeNeeded _ => false

def DynamicArray.stringPlace? (dynamic : DynamicArray) (data : Bytes) (entry : DynamicEntry) :
    Option Span :=
  dynamic.strings.map fun table => data.stringSpan (table.span.start + entry.value)

-- The string ends inside the table, so that of the file ends there as well.
theorem DynamicArray.string_place_of_names {dynamic : DynamicArray} {data : Bytes}
    {entry : DynamicEntry} {span : Span} (named : dynamic.Names data entry span) :
    dynamic.stringPlace? data entry = some span := by
  obtain ⟨table, bytes, strings, sliced, located⟩ := named
  obtain ⟨_, length, ends, rfl⟩ := StringTable.entry_span_eq_ok_iff.mp located
  obtain ⟨nul, rfl⟩ := Bytes.terminator_eq_some_iff.mp ends
  obtain ⟨_, rfl⟩ := Bytes.slice_eq_some_iff.mp sliced
  have rest : Bytes.beforeNul (data.drop (table.span.start + entry.value)) =
      Bytes.beforeNul (((data.drop table.span.start).take table.span.length).drop entry.value) := by
    rw [List.drop_take, List.drop_drop] at nul ⊢
    rw [← Bytes.beforeNul_append nul, List.take_append_drop]
  simp only [stringPlace?, strings, Option.map_some, Bytes.stringSpan, rest]

namespace Image

def room? (image : Image) (data : Bytes) : EditTarget → Option Span
  | .interpreter =>
    (image.segments.find? fun segment => segment.kind == Segment.interpreterKind).map
      Segment.fileSpan
  | .dynamicString start => some (data.stringSpan start)
  | .dynamicEntry _ | .dllName _ => none

def pathAssignment? (image : Image) (data : Bytes) (path : PathTag) (text : String) :
    Option Assignment := do
  let dynamic ← image.dynamic
  let entry ← dynamic.find? path.tag
  let place ← dynamic.stringPlace? data entry
  return ⟨.dynamicString place.start, place, text⟩

def assignment? (image : Image) (data : Bytes) : Command → Option Assignment
  | .setInterpreter path =>
    (image.room? data .interpreter).map fun place => ⟨.interpreter, place, path⟩
  | .setPath path text => image.pathAssignment? data path text
  | .setSearchPath searchPath => image.pathAssignment? data .runPath searchPath.render
  | .removeNeeded _ => none

def stringPlaces (image : Image) (data : Bytes) : List Span :=
  match image.dynamic with
  | some dynamic => dynamic.stringEntries.filterMap (dynamic.stringPlace? data)
  | none => []

def rivals (image : Image) (data : Bytes) : Command → List Span
  | .setPath _ _ | .setSearchPath _ => image.stringPlaces data
  | .setInterpreter _ | .removeNeeded _ => []

def accepted? (image : Image) (data : Bytes) (command : Command) : Option Assignment :=
  (image.assignment? data command).filter fun assignment =>
    assignment.Unshared (image.rivals data command) ∧ assignment.Fits

variable {data : Bytes} {fresh image edited : Image} {command : Command} {assignment : Assignment}

theorem path_assignment_eq_some_iff {path : PathTag} {text : String} :
    image.pathAssignment? data path text = some assignment ↔
      ∃ dynamic entry place, image.dynamic = some dynamic ∧
        dynamic.find? path.tag = some entry ∧ dynamic.stringPlace? data entry = some place ∧
        assignment = ⟨.dynamicString place.start, place, text⟩ := by
  simp only [pathAssignment?, bind, Option.bind_eq_some_iff, pure, Option.some.injEq,
    eq_comm (b := assignment), exists_and_left]

theorem accepted_eq_some_iff :
    image.accepted? data command = some assignment ↔
      image.assignment? data command = some assignment ∧
        assignment.Unshared (image.rivals data command) ∧ assignment.Fits := by
  rw [accepted?, Option.filter_eq_some_iff, decide_eq_true_eq]

theorem room_of_assignment (assigned : image.assignment? data command = some assignment) :
    image.room? data assignment.target = some assignment.place := by
  have path : ∀ tag text, image.pathAssignment? data tag text = some assignment →
      image.room? data assignment.target = some assignment.place := by
    intro tag text assigned
    obtain ⟨_, _, _, _, _, located, rfl⟩ := path_assignment_eq_some_iff.mp assigned
    obtain ⟨_, _, rfl⟩ := Option.map_eq_some_iff.mp located
    rfl
  cases command with
  | setInterpreter value =>
    obtain ⟨place, found, rfl⟩ := Option.map_eq_some_iff.mp assigned
    exact found
  | setPath tag text => exact path tag text assigned
  | setSearchPath searchPath => exact path .runPath searchPath.render assigned
  | removeNeeded name => cases assigned

-- What is staged is not looked at, neither by the checks nor for the reason of a refusal.
theorem set_path_outcome (staged : EditSet) (path : PathTag) (text : String) :
    (setPath { image with edits := staged } data path text).map (fun _ => ()) =
      (setPath image data path text).map fun _ => () := by
  simp only [setPath, map_of_bind]
  rfl

theorem run_outcome (setter : command.isSetter = true) (staged : EditSet) :
    (run { image with edits := staged } data command).map (fun _ => ()) =
      (image.run data command).map fun _ => () := by
  cases command with
  | setInterpreter value =>
    simp only [run, setInterpreter, map_of_bind]
    rfl
  | setPath tag text => exact set_path_outcome staged tag text
  | setSearchPath searchPath => exact set_path_outcome staged .runPath searchPath.render
  | removeNeeded name => cases setter

theorem interpreter_of_parse (parsed : parse data = .ok image) :
    image.interpreter = image.room? data .interpreter := by
  have found := find_interpreter_of_parse parsed
  rw [room?, ← List.head?_filter]
  cases interpreter : image.interpreter with
  | some span =>
    rw [interpreter] at found
    obtain ⟨segment, only, place, _⟩ := find_interpreter_eq_ok_some_iff.mp found
    rw [only, ← place]
    rfl
  | none =>
    rw [interpreter] at found
    rw [find_interpreter_eq_ok_none_iff.mp found]
    rfl

namespace Opened

theorem set_interpreter_accepted_iff (opened : Opened data fresh) {staged : EditSet}
    {path : String} :
    setInterpreter { fresh with edits := staged } path = .ok edited ↔
      ∃ assignment, (fresh.assignment? data (.setInterpreter path) = some assignment ∧
          assignment.Unshared [] ∧ assignment.Fits) ∧
        edited = { fresh with edits := staged.stage assignment.edit } := by
  simp only [setInterpreter, bind_eq_ok_iff, require_some_eq_ok_iff, pure, Except.pure,
    Except.ok.injEq, assignment?, Option.map_eq_some_iff]
  rw [interpreter_of_parse opened.parsed]
  constructor
  · rintro ⟨place, found, edit, padded, rfl⟩
    obtain ⟨fits, rfl⟩ := (Assignment.padded_eq_ok_iff ⟨.interpreter, place, path⟩).mp padded
    exact ⟨_, ⟨⟨place, found, rfl⟩, List.forall_mem_nil _, fits⟩, rfl⟩
  · rintro ⟨assignment, ⟨⟨place, found, rfl⟩, _, fits⟩, rfl⟩
    have padded := (Assignment.padded_eq_ok_iff ⟨.interpreter, place, path⟩).mpr ⟨fits, rfl⟩
    exact ⟨place, found, _, padded, rfl⟩

/-- Each entry that names a string has it where its value points. -/
theorem names_iff_string_place (opened : Opened data fresh) {dynamic : DynamicArray}
    (found : fresh.dynamic = some dynamic) {entry : DynamicEntry}
    (member : entry ∈ dynamic.stringEntries) {span : Span} :
    dynamic.Names data entry span ↔ dynamic.stringPlace? data entry = some span := by
  refine ⟨DynamicArray.string_place_of_names, ?_⟩
  intro located
  obtain ⟨other, named⟩ := opened.strings_named found entry member
  cases (DynamicArray.string_place_of_names named).symm.trans located
  exact named

theorem unshared_iff (opened : Opened data fresh) {dynamic : DynamicArray}
    (found : fresh.dynamic = some dynamic) :
    assignment.Unshared (fresh.stringPlaces data) ↔
      ∀ other ∈ dynamic.stringEntries, ∃ place, dynamic.Names data other place ∧
        (place = assignment.place ∨ place.overlaps assignment.place = false) := by
  simp only [stringPlaces, found, Assignment.Unshared, List.mem_filterMap]
  constructor
  · intro apart other member
    obtain ⟨place, named⟩ := opened.strings_named found other member
    exact ⟨place, named, apart place ⟨other, member, DynamicArray.string_place_of_names named⟩⟩
  · rintro apart place ⟨other, member, located⟩
    obtain ⟨_, named, free⟩ := apart other member
    cases (DynamicArray.string_place_of_names named).symm.trans located
    exact free

-- In an opened file no look-up of a string fails, so nothing else stands in the way of a path.
theorem set_path_accepted_iff (opened : Opened data fresh) {staged : EditSet} {path : PathTag}
    {text : String} :
    setPath { fresh with edits := staged } data path text = .ok edited ↔
      ∃ assignment, (fresh.pathAssignment? data path text = some assignment ∧
          assignment.Unshared (fresh.stringPlaces data) ∧ assignment.Fits) ∧
        edited = { fresh with edits := staged.stage assignment.edit } := by
  rw [set_path_eq_ok_iff]
  simp only [path_assignment_eq_some_iff]
  constructor
  · rintro ⟨dynamic, entry, place, edit, found, first, named, clear, padded, rfl⟩
    have located := DynamicArray.string_place_of_names named
    obtain ⟨fits, rfl⟩ :=
      (Assignment.padded_eq_ok_iff ⟨.dynamicString place.start, place, text⟩).mp padded
    exact ⟨_, ⟨⟨dynamic, entry, place, found, first, located, rfl⟩,
      (opened.unshared_iff found).mpr clear, fits⟩, rfl⟩
  · rintro ⟨_, ⟨⟨dynamic, entry, place, found, first, located, rfl⟩, unshared, fits⟩, rfl⟩
    have names := DynamicArray.mem_string_entries_of_find first path.names_string
    have named := (opened.names_iff_string_place found names).mpr located
    have padded :=
      (Assignment.padded_eq_ok_iff ⟨.dynamicString place.start, place, text⟩).mpr ⟨fits, rfl⟩
    exact ⟨dynamic, entry, place, _, found, first, named, (opened.unshared_iff found).mp unshared,
      padded, rfl⟩

/-- A command that sets a string stages just what is accepted for the file. -/
theorem run_eq_ok_iff (opened : Opened data fresh) {staged : EditSet}
    (setter : command.isSetter = true) :
    run { fresh with edits := staged } data command = .ok edited ↔
      ∃ assignment, fresh.accepted? data command = some assignment ∧
        edited = { fresh with edits := staged.stage assignment.edit } := by
  simp only [accepted_eq_some_iff]
  cases command with
  | setInterpreter path => exact opened.set_interpreter_accepted_iff
  | setPath path text => exact opened.set_path_accepted_iff
  | setSearchPath searchPath => exact opened.set_path_accepted_iff
  | removeNeeded name => cases setter

end Opened

end Image

end BinaryImage.Elf
