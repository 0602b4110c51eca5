import BinaryImage.Proofs.Elf.Setters
import BinaryImage.Proofs.Pe.NameReading
import BinaryImage.Proofs.Pe.Setters
import BinaryImage.Proofs.RoundTrip
import Mathlib.Data.List.Induction

/-!
Sessions in which strings are set and nothing is removed. Every call is judged by the file alone,
so the calls before it have no say in it, and for each target the last value that was accepted is
staged.
-/

namespace BinaryImage

def Image.withEdits (staged : EditSet) : Image → Image
  | .elf image => .elf { image with edits := staged }
  | .pe image => .pe { image with edits := staged }

namespace Session

def Command.isSetter : Command → Bool
  | .elf request => request.isSetter
  | .pe _ => true

def withEdits (session : Session) (staged : EditSet) : Session :=
  { session with image := session.image.withEdits staged }

/-- How a call ends: well or with an error; none where it is for another format. -/
def answer? (session : Session) (command : Command) : Option (Except Error Unit) :=
  (session.run? command).map fun outcome => outcome.map fun _ => ()

def room? (session : Session) (target : EditTarget) : Option Span :=
  match session.image with
  | .elf image => image.room? session.data target
  | .pe _ => Pe.Image.room? session.data target

def accepted? (session : Session) (command : Command) : Option Assignment :=
  match session.image, command with
  | .elf image, .elf request => image.accepted? session.data request
  | .pe image, .pe request => image.accepted? session.data request
  | _, _ => none

def lastAccepted? (session : Session) (commands : List Command) (target : EditTarget) :
    Option Assignment :=
  (commands.filterMap session.accepted?).reverse.find? fun assignment => assignment.target = target

inductive Opened : Session → Prop
  | elf {data : Bytes} {image : Elf.Image} (opened : Elf.Image.Opened data image) :
    Opened ⟨data, .elf image⟩
  | pe {data : Bytes} {image : Pe.Image} (opened : Pe.Image.Opened data image) :
    Opened ⟨data, .pe image⟩

theorem opened_of_file {data : Bytes} {session : Session} (addressable : data.length < offsetLimit)
    (opened : ofFile data = .ok session) :
    session.Opened ∧ session.withEdits EditSet.empty = session := by
  obtain ⟨bytes, image⟩ := session
  cases image with
  | elf image =>
    obtain ⟨rfl, openedImage, _⟩ := elf_of_file addressable opened rfl
    refine ⟨.elf openedImage, ?_⟩
    rw [← Elf.Image.unedited_of_parse openedImage.parsed]
    rfl
  | pe image =>
    obtain ⟨rfl, openedImage, _⟩ := pe_of_file addressable opened rfl
    refine ⟨.pe openedImage, ?_⟩
    rw [← (Pe.Image.fresh_of_parse openedImage.parsed).1]
    rfl

variable {session edited : Session} {command : Command} {commands : List Command}
  {target : EditTarget} {assignment : Assignment}

theorem edits_with_edits (session : Session) (staged : EditSet) :
    (session.withEdits staged).image.edits = staged := by
  obtain ⟨data, image⟩ := session
  cases image <;> rfl

-- The staged edits do not come into how a call ends.
theorem answer_with_edits (setter : command.isSetter = true) (staged : EditSet) :
    (session.withEdits staged).answer? command = session.answer? command := by
  obtain ⟨data, image⟩ := session
  cases image with
  | elf image =>
    cases command with
    | elf request =>
      simp only [answer?, run?, withEdits, Image.withEdits, Option.map_some, map_of_map]
      rw [Elf.Image.run_outcome setter]
    | pe request => rfl
  | pe image =>
    cases command with
    | elf request => rfl
    | pe request =>
      simp only [answer?, run?, withEdits, Image.withEdits, Option.map_some, map_of_map]
      rw [Pe.Image.rename_outcome]

theorem last_accepted_append :
    session.lastAccepted? (commands ++ [command]) target =
      match session.accepted? command with
      | some assignment =>
        if assignment.target = target then some assignment
        else session.lastAccepted? commands target
      | none => session.lastAccepted? commands target := by
  unfold lastAccepted?
  rw [List.filterMap_append, List.reverse_append]
  cases accepted : session.accepted? command with
  | none => simp [accepted]
  | some assignment =>
    by_cases hit : assignment.target = target <;> simp [accepted, hit]

theorem answer_eq_ok_iff_run :
    session.answer? command = some (.ok ()) ↔
      ∃ edited, session.run? command = some (.ok edited) := by
  unfold answer?
  cases session.run? command with
  | none => simp
  | some outcome => cases outcome <;> simp [Except.map]

namespace Opened

/-- A call that sets a string stages just what is accepted for the file. -/
theorem run_with_edits_eq_ok_iff (opened : session.Opened) (setter : command.isSetter = true)
    {staged : EditSet} :
    (session.withEdits staged).run? command = some (.ok edited) ↔
      ∃ assignment, session.accepted? command = some assignment ∧
        edited = session.withEdits (staged.stage assignment.edit) := by
  cases opened with
  | elf opened =>
    cases command with
    | elf request =>
      simp only [run?, withEdits, Image.withEdits, accepted?, Option.some.injEq, map_eq_ok_iff,
        opened.run_eq_ok_iff setter]
      constructor
      · rintro ⟨_, ⟨assignment, accepted, rfl⟩, rfl⟩
        exact ⟨assignment, accepted, rfl⟩
      · rintro ⟨assignment, accepted, rfl⟩
        exact ⟨_, ⟨assignment, accepted, rfl⟩, rfl⟩
    | pe request => simp [run?, withEdits, Image.withEdits, accepted?]
  | pe opened =>
    cases command with
    | elf request => simp [run?, withEdits, Image.withEdits, accepted?]
    | pe request =>
      simp only [run?, withEdits, Image.withEdits, accepted?, Option.some.injEq, map_eq_ok_iff,
        opened.rename_accepted_iff]
      constructor
      · rintro ⟨_, ⟨assignment, accepted, rfl⟩, rfl⟩
        exact ⟨assignment, accepted, rfl⟩
      · rintro ⟨assignment, accepted, rfl⟩
        exact ⟨_, ⟨assignment, accepted, rfl⟩, rfl⟩

theorem answer_eq_ok_iff (opened : session.Opened) (setter : command.isSetter = true)
    {staged : EditSet} :
    (session.withEdits staged).answer? command = some (.ok ()) ↔
      (session.accepted? command).isSome = true := by
  rw [answer_eq_ok_iff_run, Option.isSome_iff_exists]
  simp only [opened.run_with_edits_eq_ok_iff setter]
  constructor
  · rintro ⟨_, assignment, accepted, _⟩
    exact ⟨assignment, accepted⟩
  · rintro ⟨assignment, accepted⟩
    exact ⟨_, assignment, accepted, rfl⟩

theorem attempt_with_edits (opened : session.Opened) (setter : command.isSetter = true)
    (staged : EditSet) :
    (session.withEdits staged).attempt command =
      session.withEdits (staged.assign (session.accepted? command)) := by
  unfold attempt
  cases found : session.accepted? command with
  | some assignment =>
    rw [(opened.run_with_edits_eq_ok_iff setter).mpr ⟨assignment, found, rfl⟩]
    rfl
  | none =>
    split
    · next done =>
      obtain ⟨_, again, _⟩ := (opened.run_with_edits_eq_ok_iff setter).mp done
      rw [found] at again
      cases again
    · rfl

/-- After calls that set strings, each target has the edit of what was accepted for it last. -/
theorem attempt_all_setters (opened : session.Opened)
    (fresh : session.withEdits EditSet.empty = session)
    (setters : ∀ command ∈ commands, command.isSetter = true) :
    ∃ staged, session.attemptAll commands = session.withEdits staged ∧
      ∀ target, staged.get? target =
        (session.lastAccepted? commands target).map Assignment.edit := by
  induction commands using List.reverseRecOn with
  | nil => exact ⟨EditSet.empty, fresh.symm, fun _ => rfl⟩
  | append_singleton commands command ih =>
    obtain ⟨earlier, setter⟩ := List.forall_mem_append.mp setters
    obtain ⟨staged, reached, held⟩ := ih earlier
    refine ⟨staged.assign (session.accepted? command), ?_, ?_⟩
    · rw [attemptAll, List.foldl_append]
      change (session.attemptAll commands).attempt command = _
      rw [reached, opened.attempt_with_edits (setter command List.mem_cons_self)]
    · -- The last call decides for its own target, and leaves the others to the calls before it.
      intro target
      rw [last_accepted_append]
      cases session.accepted? command with
      | none => exact held target
      | some assignment =>
        rw [EditSet.get_assign]
        simp only
        split
        · rfl
        · exact held target

end Opened

theorem place_of_last_accepted (found : session.lastAccepted? commands target = some assignment) :
    assignment.target = target ∧ session.room? target = some assignment.place := by
  have same : assignment.target = target := by simpa using List.find?_some found
  subst same
  have member := List.mem_reverse.mp (List.mem_of_find?_eq_some found)
  obtain ⟨command, _, accepted⟩ := List.mem_filterMap.mp member
  refine ⟨rfl, ?_⟩
  obtain ⟨data, image⟩ := session
  cases image with
  | elf image =>
    cases command with
    | elf request =>
      exact Elf.Image.room_of_assignment (Elf.Image.accepted_eq_some_iff.mp accepted).1
    | pe request => cases accepted
  | pe image =>
    cases command with
    | elf request => cases accepted
    | pe request =>
      exact Pe.Image.room_of_assignment (Pe.Image.accepted_eq_some_iff.mp accepted).1

-- A target stands for one place, so it is enough to compare the values.
theorem last_accepted_congr {other : List Command}
    (values : ∀ target, (session.lastAccepted? commands target).map Assignment.value =
      (session.lastAccepted? other target).map Assignment.value) (target : EditTarget) :
    session.lastAccepted? commands target = session.lastAccepted? other target := by
  have same := values target
  cases first : session.lastAccepted? commands target with
  | none =>
    rw [first, Option.map_none, eq_comm, Option.map_eq_none_iff] at same
    exact same.symm
  | some a =>
    rw [first, Option.map_some, eq_comm, Option.map_eq_some_iff] at same
    obtain ⟨b, second, value⟩ := same
    obtain ⟨targetA, placeA⟩ := place_of_last_accepted first
    obtain ⟨targetB, placeB⟩ := place_of_last_accepted second
    have place : a.place = b.place := Option.some.inj (placeA.symm.trans placeB)
    have target : a.target = b.target := targetA.trans targetB.symm
    rw [second]
    cases a
    cases b
    cases place
    cases target
    cases value
    rfl

/-- As long as strings are set and nothing is removed, the calls made before have no say in a call.
It ends as on the session just opened, well just when the file takes the value, and making it twice
comes to making it once. What is staged is the last accepted value of each target, so calls that
agree in these values lead to the same file. -/
theorem setters_judged_alone {data : Bytes} {session : Session}
    (addressable : data.length < offsetLimit) (opened : ofFile data = .ok session)
    {history : List Command} (setters : ∀ command ∈ history, command.isSetter = true) :
    (∀ command : Command, command.isSetter = true →
      (session.attemptAll history).answer? command = session.answer? command ∧
      (session.answer? command = some (.ok ()) ↔ (session.accepted? command).isSome = true) ∧
      ((session.attemptAll history).attempt command).attempt command =
        (session.attemptAll history).attempt command) ∧
    (∀ target, (session.attemptAll history).image.edits.get? target =
      (session.lastAccepted? history target).map Assignment.edit) ∧
    ∀ other : List Command, (∀ command ∈ other, command.isSetter = true) →
      (∀ target, (session.lastAccepted? other target).map Assignment.value =
        (session.lastAccepted? history target).map Assignment.value) →
      (session.attemptAll other).image.edits = (session.attemptAll history).image.edits ∧
        (session.attemptAll other).serialize = (session.attemptAll history).serialize := by
  obtain ⟨openedSession, fresh⟩ := opened_of_file addressable opened
  obtain ⟨staged, reached, held⟩ := openedSession.attempt_all_setters fresh setters
  refine ⟨?_, ?_, ?_⟩
  · intro command setter
    refine ⟨?_, ?_, ?_⟩
    · rw [reached, answer_with_edits setter]
    · have judged : (session.withEdits EditSet.empty).answer? command = some (.ok ()) ↔
          (session.accepted? command).isSome = true := openedSession.answer_eq_ok_iff setter
      rwa [fresh] at judged
    · rw [reached, openedSession.attempt_with_edits setter,
        openedSession.attempt_with_edits setter, EditSet.assign_again]
  · rw [reached, edits_with_edits]
    exact held
  · intro other otherSetters values
    obtain ⟨otherStaged, otherReached, otherHeld⟩ :=
      openedSession.attempt_all_setters fresh otherSetters
    have same : otherStaged = staged := by
      apply EditSet.ext_get
      intro target
      rw [otherHeld, held, last_accepted_congr values]
    rw [otherReached, reached, same]
    exact ⟨rfl, rfl⟩

section Sample

/-- The second call finds no entry with its tag, and the value of the third has no room. -/
def sampleSetters : List Command :=
  [.elf (.setInterpreter "/l"), .elf (.setPath .rpath "/b"), .elf (.setPath .runPath "/longer"),
    .elf (.setPath .runPath "/b")]

/-- The same values, set in another order, and one before them that is replaced. -/
def sampleReordered : List Command :=
  [.elf (.setPath .runPath "/x"), .elf (.setSearchPath (SearchPath.ofPaths ["/b"])),
    .elf (.setInterpreter "/l")]

theorem setters_judged_alone_samples :
    (∀ command ∈ sampleSetters, command.isSetter = true) ∧
      (sampleSession.attemptAll sampleSetters).answer? (.elf (.setPath .runPath "/longer")) =
        some (.error (.noRoom (.dynamicString 167) 8 5)) ∧
      (sampleSession.attemptAll sampleSetters).answer? (.elf (.setPath .runPath "/c")) =
        some (.ok ()) ∧
      (sampleSession.attemptAll sampleSetters).image.edits.get? .interpreter =
        some ⟨.interpreter, 148, [47, 108, 0, 0, 0, 0, 0, 0]⟩ ∧
      sampleReordered.filterMap sampleSession.accepted? ≠
        sampleSetters.filterMap sampleSession.accepted? ∧
      (sampleSession.attemptAll sampleReordered).serialize =
        (sampleSession.attemptAll sampleSetters).serialize ∧
      (∀ command ∈ sharingHistory, command.isSetter = true) ∧
      (sharingSession.attemptAll sharingHistory).answer? (.pe ⟨.delayImports, 1, "y"⟩) =
        some (.error (.violation (.edit (.dllName 500)) 500 (.sharesName ⟨498, 6⟩))) ∧
      (sharingSession.attemptAll sharingHistory).image.edits.get? (.dllName 492) =
        some ⟨.dllName 492, 492, [120, 46, 100, 108, 108, 0]⟩ := by
  have setters : ∀ command ∈ sampleSetters, command.isSetter = true := by decide
  have renames : ∀ command ∈ sharingHistory, command.isSetter = true := by decide
  obtain ⟨judged, held, agreed⟩ := setters_judged_alone sample_addressable sample_opened setters
  obtain ⟨judgedPe, heldPe, _⟩ :=
    setters_judged_alone sharing_addressable sharing_opened renames
  have accepted : sampleSession.accepted? (.elf (.setPath .runPath "/c")) =
      some ⟨.dynamicString 167, ⟨167, 5⟩, "/c"⟩ := by
    decide +kernel
  have listed : sampleSetters.filterMap sampleSession.accepted? =
      [⟨.interpreter, ⟨148, 8⟩, "/l"⟩, ⟨.dynamicString 167, ⟨167, 5⟩, "/b"⟩] := by
    decide +kernel
  have reordered : sampleReordered.filterMap sampleSession.accepted? =
      [⟨.dynamicString 167, ⟨167, 5⟩, "/x"⟩, ⟨.dynamicString 167, ⟨167, 5⟩, "/b"⟩,
        ⟨.interpreter, ⟨148, 8⟩, "/l"⟩] := by
    decide +kernel
  have values : ∀ target, (sampleSession.lastAccepted? sampleReordered target).map
      Assignment.value = (sampleSession.lastAccepted? sampleSetters target).map
        Assignment.value := by
    intro target
    unfold lastAccepted?
    rw [listed, reordered]
    cases target with
    | dynamicString offset => by_cases hit : 167 = offset <;> simp [hit]
    | interpreter | dynamicEntry | dllName => simp
  refine ⟨setters, ?_, ?_, ?_, ?_, (agreed sampleReordered (by decide) values).2, renames, ?_, ?_⟩
  · rw [(judged _ rfl).1]
    decide +kernel
  · rw [(judged _ rfl).1, (judged _ rfl).2.1, accepted]
    rfl
  · rw [held]
    decide +kernel
  · rw [listed, reordered]
    decide
  · rw [(judgedPe _ rfl).1]
    decide +kernel
  · rw [heldPe]
    decide +kernel

end Sample

end Session

end BinaryImage
