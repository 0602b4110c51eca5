import BinaryImage.Proofs.Elf.Placement
import BinaryImage.Proofs.Pe.Renaming

/-!
A session as its caller sees it. Calls edit, ask or serialize, in any order, and each of them is
answered with a value or an error. Only edits that succeed change the session, and what they change
is its image.
-/

namespace BinaryImage

inductive Answer where
  | done
  | facts (header : HeaderSummary) (platform : Platform) (sections : List SectionSummary)
      (debugSymbols : Bool)
  | bytes (bytes : Bytes)
  | string (text : String)
  | name (name : Option String)
  | names (names : List String)
  | path (path : SearchPath)
  | place (offset : Nat)
  | places (spans : Option (List Span))

inductive Elf.Query where
  | needed
  | rpath
  | runPath
  | soName
  | interpreter
  | searchPath
  | string (index : Nat)
  | slots

inductive Pe.Query where
  | importedDlls
  | delayLoadedDlls
  | needed
  | place (rva : Nat)

inductive Query where
  | facts
  | needed
  | searchPath
  | bytes (span : Span)
  | elf (query : Elf.Query)
  | pe (query : Pe.Query)

inductive Call where
  | edit (command : Session.Command)
  | ask (query : Query)
  | serialize

def Elf.Image.answer (image : Image) (data : Bytes) : Query → Except Error Answer
  | .needed => (image.needed data).map .names
  | .rpath => (image.rpath data).map .name
  | .runPath => (image.runPath data).map .name
  | .soName => (image.soName data).map .name
  | .interpreter => (image.interpreterPath data).map .name
  | .searchPath => (image.searchPath data).map .path
  | .string index => (image.dynamicString data index).map .string
  | .slots => .ok (.places (image.dynamic.map DynamicArray.slots))

def Pe.Image.answer (image : Image) (data : Bytes) : Query → Except Error Answer
  | .importedDlls => (image.importedDlls data).map .names
  | .delayLoadedDlls => (image.delayLoadedDlls data).map .names
  | .needed => (image.needed data).map .names
  | .place rva => (fileOffset image.sections rva).map .place

def Image.facts (image : Image) : Answer :=
  .facts image.header image.platform image.sections image.hasDebugSymbols

namespace Session

def reply? (session : Session) (query : Query) : Option (Except Error Answer) :=
  match session.image, query with
  | image, .facts => some (.ok image.facts)
  | image, .needed => some ((image.needed session.data).map .names)
  | image, .searchPath => some ((image.searchPath session.data).map .path)
  | _, .bytes span => some ((session.data.read span).map .bytes)
  | .elf image, .elf query => some (image.answer session.data query)
  | .pe image, .pe query => some (image.answer session.data query)
  | _, _ => none

def perform (session : Session) : Call → Session × Option (Except Error Answer)
  | .edit command =>
    (session.attempt command,
      (session.run? command).map fun outcome => outcome.map fun _ => .done)
  | .ask query => (session, session.reply? query)
  | .serialize => (session, some (session.serialize.map .bytes))

def performAll (session : Session) : List Call → Session × List (Option (Except Error Answer))
  | [] => (session, [])
  | call :: rest =>
    let (next, answer) := session.perform call
    let (last, answers) := next.performAll rest
    (last, answer :: answers)

def ofFileWith (data : Bytes) : Option Platform → Except Error Session
  | none => ofFile data
  | some expected => ofFileFor data expected

/-- The session holds a file that was opened, and edits in the places that the file has for them. -/
inductive Edited : Session → Prop
  | elf {data : Bytes} {fresh image : Elf.Image} (opened : Elf.Image.Opened data fresh)
      (staged : Elf.Image.Staged data fresh image) : Edited ⟨data, .elf image⟩
  | pe {data : Bytes} {fresh image : Pe.Image} (opened : Pe.Image.Opened data fresh)
      (staged : Pe.Image.Staged fresh image) : Edited ⟨data, .pe image⟩

variable {data : Bytes} {session : Session}

theorem edited_of_file (addressable : data.length < offsetLimit)
    (opened : ofFile data = .ok session) : session.data = data ∧ session.Edited := by
  obtain ⟨bytes, image⟩ := session
  cases image with
  | elf image =>
    obtain ⟨same, openedImage, staged⟩ := elf_of_file addressable opened rfl
    cases same
    exact ⟨rfl, .elf openedImage staged⟩
  | pe image =>
    obtain ⟨same, openedImage, staged⟩ := pe_of_file addressable opened rfl
    cases same
    exact ⟨rfl, .pe openedImage staged⟩

theorem edited_of_file_with (addressable : data.length < offsetLimit)
    {expected? : Option Platform} (opened : ofFileWith data expected? = .ok session) :
    session.data = data ∧ session.Edited := by
  cases expected? with
  | none => exact edited_of_file addressable opened
  | some expected =>
    obtain ⟨found, read, rest⟩ := bind_eq_ok_iff.mp opened
    obtain ⟨_, _, same⟩ := bind_eq_ok_iff.mp rest
    cases same
    exact edited_of_file addressable read

theorem Edited.attempt (edited : session.Edited) (command : Command) :
    (session.attempt command).Edited := by
  rcases session.attempt_cases command with
    same | ⟨image, after, request, before, _, done, same⟩ |
      ⟨image, after, request, before, _, done, same⟩
  · rwa [same]
  · rw [same]
    cases edited with
    | elf opened staged =>
      cases before
      exact .elf opened (Elf.Image.staged_of_run staged done)
    | pe => cases before
  · rw [same]
    cases edited with
    | elf => cases before
    | pe opened staged =>
      cases before
      exact .pe opened (Pe.Image.staged_of_rename staged done)

-- Questions and serializing change nothing.
theorem Edited.perform (edited : session.Edited) (call : Call) :
    (session.perform call).1.Edited ∧ (session.perform call).1.data = session.data := by
  cases call with
  | edit command => exact ⟨edited.attempt command, session.attempt_data command⟩
  | ask query => exact ⟨edited, rfl⟩
  | serialize => exact ⟨edited, rfl⟩

end Session

end BinaryImage
