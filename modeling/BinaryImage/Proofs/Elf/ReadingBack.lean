import BinaryImage.Proofs.Elf.SearchPaths
import BinaryImage.Proofs.Elf.Setters
import BinaryImage.Proofs.Utf8

/-!
Reading back what was written. Calls write values to strings of the file, and some of them fail. As
long as the staged edits do not meet, the interpreter and the search paths read as the last value
that was written to their string, whichever entry it was written through and whatever else was
edited.
-/

namespace BinaryImage

/-- What the place of a value says once it is written. -/
theorem Assignment.Fits.reads_back {assignment : Assignment} (fits : assignment.Fits) :
    Text.Utf8.decode (Bytes.beforeNul assignment.edit.bytes) = assignment.value := by
  have room := fits.2
  have padding : assignment.place.length - (Text.Utf8.encode assignment.value).length ≠ 0 := by
    omega
  rw [Assignment.edit, Bytes.beforeNul_padded fits.1 padding, Text.Utf8.decode_encode]

theorem Assignment.Fits.edit_fills {assignment : Assignment} (fits : assignment.Fits) :
    assignment.edit.span = assignment.place ∧ 0 ∈ assignment.edit.bytes := by
  obtain ⟨_, place, terminated⟩ :=
    Edit.of_padded ((Assignment.padded_eq_ok_iff assignment).mpr ⟨fits, rfl⟩)
  exact ⟨place, List.mem_of_getLast? terminated⟩

namespace Elf.Image

def pathTarget? (image : Image) (path : PathTag) : Option EditTarget := do
  let dynamic ← image.dynamic
  let entry ← dynamic.find? path.tag
  let table ← dynamic.strings
  return .dynamicString (table.span.start + entry.value)

def writing? (image : Image) : Command → Option (EditTarget × String)
  | .setInterpreter path => some (.interpreter, path)
  | .setPath path text => (image.pathTarget? path).map fun target => (target, text)
  | .setSearchPath searchPath =>
    (image.pathTarget? .runPath).map fun target => (target, searchPath.render)
  | .removeNeeded _ => none

def valueFor? (image : Image) (target : EditTarget) (command : Command) : Option String :=
  match image.writing? command with
  | some (written, value) => if written = target then some value else none
  | none => none

inductive StringAt (data : Bytes) (image : Image) : EditTarget → Span → Prop where
  | interpreter {span : Span} (found : image.interpreter = some span) :
    StringAt data image .interpreter span
  | path {dynamic : DynamicArray} {entry : DynamicEntry} {span : Span}
    (found : image.dynamic = some dynamic) (named : dynamic.Names data entry span) :
    StringAt data image (.dynamicString span.start) span

variable {data : Bytes} {fresh image edited : Image} {command : Command} {target : EditTarget}
  {value : String}

theorem path_target_eq_some_iff {path : PathTag} :
    image.pathTarget? path = some target ↔
      ∃ dynamic entry table, image.dynamic = some dynamic ∧ dynamic.find? path.tag = some entry ∧
        dynamic.strings = some table ∧
        target = .dynamicString (table.span.start + entry.value) := by
  simp only [pathTarget?, bind, Option.bind_eq_some_iff, pure, Option.some.injEq,
    eq_comm (b := target), exists_and_left]

theorem path_target_of_names {path : PathTag} {dynamic : DynamicArray} {entry : DynamicEntry}
    {span : Span} (found : image.dynamic = some dynamic)
    (first : dynamic.find? path.tag = some entry) (named : dynamic.Names data entry span) :
    image.pathTarget? path = some (.dynamicString span.start) := by
  obtain ⟨table, _, strings, _, _, start, _⟩ := named.in_table
  exact path_target_eq_some_iff.mpr ⟨dynamic, entry, table, found, first, strings, by rw [start]⟩

/-- A successful command that writes stages its value over the string, and nothing else. -/
theorem stages_of_writing (staged : Staged data fresh image)
    (writes : image.writing? command = some (target, value))
    (done : image.run data command = .ok edited) :
    ∃ assignment : Assignment, assignment.target = target ∧ assignment.value = value ∧
      StringAt data fresh target assignment.place ∧ assignment.Fits ∧
      edited = image.stage assignment.edit := by
  have path : ∀ path text, (image.pathTarget? path).map (fun target => (target, text)) =
      some (target, value) → image.setPath data path text = .ok edited →
        ∃ assignment : Assignment, assignment.target = target ∧ assignment.value = value ∧
          StringAt data fresh target assignment.place ∧ assignment.Fits ∧
          edited = image.stage assignment.edit := by
    intro path text writes done
    obtain ⟨_, entry, place, edit, found, first, named, _, padded, rfl⟩ :=
      set_path_eq_ok_iff.mp done
    rw [path_target_of_names found first named] at writes
    cases writes
    obtain ⟨fits, rfl⟩ :=
      (Assignment.padded_eq_ok_iff ⟨.dynamicString place.start, place, value⟩).mp padded
    obtain ⟨dynamic, freshDynamic, rfl⟩ := staged.dynamic found
    exact ⟨_, rfl, rfl, .path freshDynamic named, fits, rfl⟩
  cases command with
  | setInterpreter text =>
    cases writes
    simp only [run, setInterpreter, bind_eq_ok_iff, require_some_eq_ok_iff, pure, Except.pure,
      Except.ok.injEq] at done
    obtain ⟨place, found, edit, padded, rfl⟩ := done
    obtain ⟨fits, rfl⟩ :=
      (Assignment.padded_eq_ok_iff ⟨.interpreter, place, value⟩).mp padded
    have freshFound : fresh.interpreter = some place := by
      rw [staged.same] at found
      exact found
    exact ⟨⟨.interpreter, place, value⟩, rfl, rfl, .interpreter freshFound, fits, rfl⟩
  | setPath tag text => exact path tag text writes done
  | setSearchPath searchPath => exact path .runPath searchPath.render writes done
  | removeNeeded name => cases writes

theorem get_remove_entries {dynamic : DynamicArray} (entries : List DynamicEntry)
    (string : ∀ index, target ≠ .dynamicEntry index) :
    (entries.foldl (fun edited entry => edited.removeEntry dynamic entry) image).edits.get? target =
      image.edits.get? target := by
  induction entries generalizing image with
  | nil => rfl
  | cons entry rest ih =>
    rw [List.foldl_cons, ih]
    exact (image.edits.get_stage _ target).trans (if_neg (string entry.index).symm)

/-- A successful command that writes to no string leaves what is staged for strings. -/
theorem kept_of_no_writing (writes : image.writing? command = none)
    (done : image.run data command = .ok edited) (string : ∀ index, target ≠ .dynamicEntry index) :
    edited.edits.get? target = image.edits.get? target := by
  have path : ∀ path text, (image.pathTarget? path).map (fun target => (target, text)) = none →
      ¬ image.setPath data path text = .ok edited := by
    intro path text writes done
    obtain ⟨_, _, _, _, found, first, named, _⟩ := set_path_eq_ok_iff.mp done
    rw [path_target_of_names found first named] at writes
    cases writes
  cases command with
  | setInterpreter text => cases writes
  | setPath tag text => exact absurd done (path tag text writes)
  | setSearchPath searchPath => exact absurd done (path .runPath searchPath.render writes)
  | removeNeeded name =>
    simp only [run, removeNeeded, bind_eq_ok_iff, require_some_eq_ok_iff, pure, Except.pure,
      Except.ok.injEq] at done
    obtain ⟨dynamic, _, entries, _, _, _, rfl⟩ := done
    exact get_remove_entries entries string

def Holds (data : Bytes) (fresh image : Image) (target : EditTarget) (value : String) : Prop :=
  ∃ assignment : Assignment, assignment.value = value ∧
    StringAt data fresh target assignment.place ∧
    assignment.Fits ∧ image.edits.get? target = some assignment.edit

theorem string_at_ne_entry {place : Span} (located : StringAt data image target place)
    (index : Nat) :
    target ≠ .dynamicEntry index := by
  cases located <;> simp

theorem string_at_dynamic_string {start : Nat} {place : Span}
    (located : StringAt data image (.dynamicString start) place) :
    ∃ dynamic entry, image.dynamic = some dynamic ∧ dynamic.Names data entry place ∧
      place.start = start := by
  generalize same : EditTarget.dynamicString start = target at located
  cases located with
  | interpreter => cases same
  | path found named => exact ⟨_, _, found, named, (EditTarget.dynamicString.inj same).symm⟩

/-- A target holds what the command writes to it, or else what it held. -/
theorem holds_of_run (staged : Staged data fresh image)
    (done : image.run data command = .ok edited) {before : Option String}
    (held : ∀ text ∈ before, Holds data fresh image target text) :
    ∀ text ∈ (image.valueFor? target command).or before, Holds data fresh edited target text := by
  intro text last
  unfold valueFor? at last
  cases writes : image.writing? command with
  | some writing =>
    obtain ⟨written, value⟩ := writing
    obtain ⟨assignment, rfl, rfl, located, fits, rfl⟩ := stages_of_writing staged writes done
    have get := image.edits.get_stage assignment.edit target
    simp only [writes] at last
    by_cases hit : assignment.target = target
    · subst hit
      rw [if_pos rfl] at last
      cases last
      exact ⟨assignment, rfl, located, fits, get.trans (if_pos rfl)⟩
    · rw [if_neg hit] at last
      obtain ⟨other, same, otherLocated, otherFits, otherStaged⟩ := held text last
      exact ⟨other, same, otherLocated, otherFits, (get.trans (if_neg hit)).trans otherStaged⟩
  | none =>
    simp only [writes] at last
    obtain ⟨assignment, same, located, fits, staged⟩ := held text last
    refine ⟨assignment, same, located, fits, ?_⟩
    rw [kept_of_no_writing writes done (string_at_ne_entry located), staged]

section Reading

variable {out : Bytes} (opened : Opened data fresh) (staged : Staged data fresh image)
  (disjoint : image.edits.checkDisjoint = .ok ())
include opened staged disjoint

/-- Edits that do not meet can be written, and the place of each then says its value. -/
theorem write_of_disjoint :
    ∃ out, image.edits.write data = .ok out ∧
      ∀ edit ∈ image.edits.edits, out.slice? edit.span = some edit.bytes := by
  have inside : ∀ edit ∈ image.edits.edits, edit.span.fitsIn data.length = true := by
    intro edit member
    exact Span.fitsIn_iff.mpr (opened.edit_inside staged.placed member)
  have apart := (EditSet.check_disjoint_eq_ok_iff_apart opened.addressable inside).mp disjoint
  have wrote := EditSet.write_eq_ok_iff.mpr ⟨inside, rfl⟩
  exact ⟨_, wrote, fun edit member => EditSet.slice_write_of_mem wrote apart member⟩

theorem interpreter_of_holds (held : Holds data fresh image .interpreter value) :
    image.interpreterPath data = .ok (some value) := by
  obtain ⟨out, wrote, written⟩ := write_of_disjoint opened staged disjoint
  obtain ⟨assignment, rfl, located, fits, filled⟩ := held
  have member := List.mem_of_find?_eq_some filled
  have sliced := written _ member
  have inside := opened.edit_inside staged.placed member
  rw [fits.edit_fills.1] at sliced inside
  have original := Bytes.slice_of_fits inside
  have seen := EditSet.slice_write_eq_overlay opened.addressable wrote original
  have found : image.interpreter = some assignment.place := by
    rw [staged.same]
    cases located with
    | interpreter found => exact found
  have overlaid := Option.some.inj (seen.symm.trans sliced)
  simp only [interpreterPath, found, view, slice_eq_ok_iff.mpr original, bind, Except.bind, pure,
    Except.pure, overlaid, fits.reads_back]

theorem path_of_holds {path : PathTag} (names : image.pathTarget? path = some target)
    (held : Holds data fresh image target value) :
    image.taggedString data path.tag = .ok (some value) := by
  obtain ⟨out, wrote, written⟩ := write_of_disjoint opened staged disjoint
  obtain ⟨assignment, rfl, located, fits, filled⟩ := held
  obtain ⟨dynamic, entry, table, found, first, strings, rfl⟩ := path_target_eq_some_iff.mp names
  have sliced := written _ (List.mem_of_find?_eq_some filled)
  rw [fits.edit_fills.1] at sliced
  obtain ⟨original, other, originalFound, named, start⟩ := string_at_dynamic_string located
  obtain ⟨again, freshFound, rfl⟩ := staged.dynamic found
  cases originalFound.symm.trans freshFound
  -- Entries that name strings with one start have one value.
  obtain ⟨again, _, stringsAgain, _, _, otherStart, _⟩ := named.in_table
  cases strings.symm.trans stringsAgain
  have values : other.value = entry.value := by omega
  have read := dynamic_string_of_written opened.addressable wrote found named sliced
    fits.edit_fills.2
  rw [values, fits.reads_back] at read
  simp only [taggedString, found, Option.bind_some, first, read, bind, Except.bind, pure,
    Except.pure]

end Reading

end Elf.Image

namespace Session

open Elf Elf.Image

/-- The value that a call writes to a target; one that fails writes nothing. -/
def written? (session : Session) (target : EditTarget) (command : Command) : Option String :=
  match session.image, command, session.run? command with
  | .elf image, .elf request, some (.ok _) => image.valueFor? target request
  | _, _, _ => none

def lastWritten? (session : Session) (target : EditTarget) : List Command → Option String
  | [] => none
  | command :: rest =>
    ((session.attempt command).lastWritten? target rest).or (session.written? target command)

variable {session : Session} {fresh image : Elf.Image} {target : EditTarget}

theorem holds_of_attempt (elf : session.image = .elf image)
    (staged : Staged session.data fresh image) {before : Option String}
    (held : ∀ text ∈ before, Holds session.data fresh image target text) (command : Command) :
    ∃ edited, (session.attempt command).image = .elf edited ∧
      Staged session.data fresh edited ∧
      ∀ text ∈ (session.written? target command).or before,
        Holds session.data fresh edited target text := by
  cases command with
  | pe request =>
    have passed : session.run? (.pe request) = none := by
      simp only [run?, elf]
    refine ⟨image, ?_, staged, ?_⟩
    · simp only [attempt, passed, elf]
    · simpa only [written?, elf, passed, Option.none_or] using held
  | elf request =>
    have ran : session.run? (.elf request) =
        some ((image.run session.data request).map fun edited =>
          { session with image := .elf edited }) := by
      simp only [run?, elf]
    cases done : image.run session.data request with
    | ok edited =>
      rw [done] at ran
      refine ⟨edited, ?_, staged_of_run staged done, ?_⟩
      · simp only [attempt, ran, Except.map]
      · simpa only [written?, elf, ran, Except.map] using holds_of_run staged done held
    | error cause =>
      rw [done] at ran
      refine ⟨image, ?_, staged, ?_⟩
      · simp only [attempt, ran, Except.map, elf]
      · simpa only [written?, elf, ran, Except.map, Option.none_or] using held

theorem holds_of_attempt_all (elf : session.image = .elf image)
    (staged : Staged session.data fresh image) {before : Option String}
    (held : ∀ text ∈ before, Holds session.data fresh image target text)
    (commands : List Command) :
    ∃ edited, (session.attemptAll commands).image = .elf edited ∧
      Staged session.data fresh edited ∧
      ∀ text ∈ (session.lastWritten? target commands).or before,
        Holds session.data fresh edited target text := by
  induction commands generalizing session image before with
  | nil => exact ⟨image, elf, staged, held⟩
  | cons command rest ih =>
    obtain ⟨next, elfNext, stagedNext, heldNext⟩ := holds_of_attempt elf staged held command
    have data := session.attempt_data command
    obtain ⟨edited, elfEdited, stagedEdited, heldEdited⟩ :=
      ih elfNext (data ▸ stagedNext) (data ▸ heldNext)
    rw [data] at stagedEdited heldEdited
    refine ⟨edited, elfEdited, stagedEdited, ?_⟩
    rw [lastWritten?, Option.or_assoc]
    exact heldEdited

/-- As long as the staged edits do not meet, the interpreter reads as the last value that a call
wrote to it, and so does each search path by the string that its first entry names. -/
theorem read_back {data : Bytes} (addressable : data.length < offsetLimit)
    (opened : ofFile data = .ok session) (elf : session.image = .elf image)
    (commands : List Command)
    (disjoint : (session.attemptAll commands).image.edits.checkDisjoint = .ok ()) :
    ∃ edited, (session.attemptAll commands).image = .elf edited ∧
      (∀ value, session.lastWritten? .interpreter commands = some value →
        edited.interpreterPath data = .ok (some value)) ∧
      (∀ target value, edited.pathTarget? .rpath = some target →
        session.lastWritten? target commands = some value →
          edited.rpath data = .ok (some value)) ∧
      ∀ target value, edited.pathTarget? .runPath = some target →
        session.lastWritten? target commands = some value →
          edited.runPath data = .ok (some value) := by
  obtain ⟨rfl, openedImage, _⟩ := elf_of_file addressable opened elf
  have fresh : Staged session.data image image :=
    staged_of_fresh (unedited_of_parse openedImage.parsed)
  obtain ⟨edited, elfEdited, staged⟩ := staged_of_attempt_all elf fresh commands
  have clear : edited.edits.checkDisjoint = .ok () := by
    rw [elfEdited] at disjoint
    exact disjoint
  have holds : ∀ target value, session.lastWritten? target commands = some value →
      Holds session.data image edited target value := by
    intro target value last
    have nothing : ∀ text ∈ (none : Option String),
        Holds session.data image image target text := nofun
    obtain ⟨again, elfAgain, _, held⟩ := holds_of_attempt_all elf fresh nothing commands
    cases elfEdited.symm.trans elfAgain
    rw [Option.or_none] at held
    exact held value last
  refine ⟨edited, elfEdited, ?_, ?_, ?_⟩
  · intro value last
    exact interpreter_of_holds openedImage staged clear (holds _ _ last)
  · intro target value names last
    exact path_of_holds openedImage staged clear names (holds _ _ last)
  · intro target value names last
    exact path_of_holds openedImage staged clear names (holds _ _ last)

section Sample

/-- The sample with a needed library in the tail of the string that both of its paths name. -/
def tiedFile : Bytes := sampleFile.splice 172 (words [1, 13, 15, 11, 29, 11])

def tiedSession : Session := (ofFile tiedFile).toOption.get (by decide +kernel)

def tiedImage : Elf.Image := (Elf.Image.parse tiedFile).toOption.get (by decide +kernel)

/-- The first call fails until the library is removed, and the last one for lack of room. -/
def tiedCommands : List Command :=
  [.elf (.setPath .runPath "/a"), .elf (.removeNeeded "ib"), .elf (.setPath .runPath "/b"),
    .elf (.setPath .rpath "/c"), .elf (.setInterpreter "/l"), .elf (.setPath .runPath "/long")]

def tiedEdited : Elf.Image :=
  match (tiedSession.attemptAll tiedCommands).image with
  | .elf edited => edited
  | .pe _ => tiedImage

theorem read_back_tied :
    tiedSession.run? (.elf (.setPath .runPath "/b")) =
        some (.error (.violation (.dynamicTag "RUNPATH") 167 (.sharesString "NEEDED" ⟨169, 3⟩))) ∧
      (tiedSession.attemptAll tiedCommands).image = .elf tiedEdited ∧
      tiedEdited.interpreterPath tiedFile = .ok (some "/l") ∧
      tiedEdited.rpath tiedFile = .ok (some "/c") ∧
      tiedEdited.runPath tiedFile = .ok (some "/c") := by
  have opened : ofFile tiedFile = .ok tiedSession := by decide +kernel
  have elf : tiedSession.image = .elf tiedImage := by decide +kernel
  have elfEdited : (tiedSession.attemptAll tiedCommands).image = .elf tiedEdited := by
    decide +kernel
  obtain ⟨edited, elfAgain, interpreter, rpath, runPath⟩ :=
    read_back (by decide +kernel) opened elf tiedCommands (by decide +kernel)
  have same : edited = tiedEdited := Image.elf.inj (elfAgain.symm.trans elfEdited)
  rw [same] at interpreter rpath runPath
  have written : tiedSession.lastWritten? .interpreter tiedCommands = some "/l" ∧
      tiedSession.lastWritten? (.dynamicString 167) tiedCommands = some "/c" := by
    decide +kernel
  have names : tiedEdited.pathTarget? .rpath = some (.dynamicString 167) ∧
      tiedEdited.pathTarget? .runPath = some (.dynamicString 167) := by
    decide +kernel
  refine ⟨by decide +kernel, elfEdited, interpreter _ written.1, ?_, ?_⟩
  · exact rpath _ _ names.1 written.2
  · exact runPath _ _ names.2 written.2

end Sample

end Session

end BinaryImage
