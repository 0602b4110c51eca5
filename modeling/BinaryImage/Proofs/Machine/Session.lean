import BinaryImage.Proofs.Calls
import BinaryImage.Proofs.Machine.Elf.Commands
import BinaryImage.Proofs.Machine.Image
import BinaryImage.Proofs.Machine.Pe.Names

/-!
Sessions on a machine. A file of any bytes is opened, and any calls are made one after the other: no
step of any of them faults, and all answers are those of the plain session.
-/

namespace BinaryImage

namespace Machine

def read (data : Bytes) (span : Span) : Machine Error Bytes :=
  if span.fitsIn data.length then slice data span.start (span.start + span.length)
  else throw (.truncated span.clippedStop data.length)

def answerElf (image : Elf.Image) (data : Bytes) : Elf.Query → Machine Error Answer
  | .needed => do return .names (← Elf.Machine.needed image data)
  | .rpath => do return .name (← Elf.Machine.taggedString image data Elf.Tag.rpath)
  | .runPath => do return .name (← Elf.Machine.taggedString image data Elf.Tag.runPath)
  | .soName => do return .name (← Elf.Machine.taggedString image data Elf.Tag.soName)
  | .interpreter => do return .name (← Elf.Machine.interpreterPath image data)
  | .searchPath => do return .path (← Elf.Machine.searchPath image data)
  | .string index => do return .string (← Elf.Machine.dynamicString image data index)
  | .slots => do return .places (← Elf.Machine.slots image)

def answerPe (image : Pe.Image) (data : Bytes) : Pe.Query → Machine Error Answer
  | .importedDlls => do return .names (← Pe.Machine.importedDlls image data)
  | .delayLoadedDlls => do return .names (← Pe.Machine.delayLoadedDlls image data)
  | .needed => do return .names (← Pe.Machine.needed image data)
  | .place rva => do return .place (← Pe.Machine.fileOffset image.sections rva)

def needed (data : Bytes) : Image → Machine Error (List String)
  | .elf image => Elf.Machine.needed image data
  | .pe image => Pe.Machine.needed image data

def searchPath (data : Bytes) : Image → Machine Error SearchPath
  | .elf image => Elf.Machine.searchPath image data
  | .pe _ => return SearchPath.empty

def reply? (session : Session) (query : Query) : Option (Machine Error Answer) :=
  match session.image, query with
  | image, .facts => some (return image.facts)
  | image, .needed => some (do return .names (← needed session.data image))
  | image, .searchPath => some (do return .path (← searchPath session.data image))
  | _, .bytes span => some (do return .bytes (← read session.data span))
  | .elf image, .elf query => some (answerElf image session.data query)
  | .pe image, .pe query => some (answerPe image session.data query)
  | _, _ => none

def run? (session : Session) (command : Session.Command) : Option (Machine Error Session) :=
  match session.image, command with
  | .elf image, .elf request => some do
    return { session with image := .elf (← Elf.Machine.run image session.data request) }
  | .pe image, .pe request => some do
    return { session with image := .pe (← Pe.Machine.rename image request) }
  | _, _ => none

def outcome? {α : Type} : Option (Machine Error α) → Except Fault (Option (Except Error α))
  | none => return none
  | some computation => do return some (← computation.run)

def perform (session : Session) :
    Call → Except Fault (Session × Option (Except Error Answer))
  | .edit command => do
    match ← outcome? (run? session command) with
    | some (.ok edited) => return (edited, some (.ok .done))
    | some (.error cause) => return (session, some (.error cause))
    | none => return (session, none)
  | .ask query => do return (session, ← outcome? (reply? session query))
  | .serialize => do
    let written ← (serialize session.image session.data).run
    return (session, some (written.map .bytes))

def performAll (session : Session) :
    List Call → Except Fault (Session × List (Option (Except Error Answer)))
  | [] => return (session, [])
  | call :: rest => do
    let (next, answer) ← perform session call
    let (last, answers) ← performAll next rest
    return (last, answer :: answers)

def ofFile (data : Bytes) : Machine Error Session := do
  let format ← detect data
  let image ← parseValid format data
  return ⟨data, image⟩

def ofFileWith (data : Bytes) : Option Platform → Machine Error Session
  | none => ofFile data
  | some expected => do
    let session ← ofFile data
    let found := session.image.platform
    plain (require (found == expected) (.otherPlatform expected found))
    return session

def use (data : Bytes) (expected? : Option Platform) (calls : List Call) :
    Except Fault (Except Error (Session × List (Option (Except Error Answer)))) := do
  match ← (ofFileWith data expected?).run with
  | .ok session => return .ok (← performAll session calls)
  | .error cause => return .error cause

def writtenText? : Call → Option String
  | .edit (.elf command) => Elf.Machine.text? command
  | .edit (.pe request) => some request.name
  | _ => none

variable {α : Type} {data : Bytes} {session : Session}

theorem outcome_some {computation : Machine Error α} {outcome : Except Error α}
    (gives : Gives computation outcome) : outcome? (some computation) = .ok (some outcome) := by
  rw [outcome?, gives]
  rfl

theorem gives_read (data : Bytes) (span : Span) : Gives (read data span) (data.read span) := by
  unfold read Bytes.read Bytes.slice?
  by_cases fits : span.fitsIn data.length = true
  · rw [if_pos fits, if_pos fits]
    have whole : span.start + span.length - span.start = span.length := Nat.add_sub_cancel_left _ _
    have sliced :
        Gives (slice data span.start (span.start + span.length) : Machine Error Bytes) _ :=
      gives_slice (Nat.le_add_right _ _) (Span.fitsIn_iff.mp fits)
    rwa [whole] at sliced
  · rw [if_neg fits, if_neg fits]
    exact gives_throw _

section Queries

variable (allocated : data.length < allocationLimit)
include allocated

theorem gives_answer_elf {image : Elf.Image} (fit : Elf.Machine.SlotsFit image)
    (query : Elf.Query) : Gives (answerElf image data query) (image.answer data query) := by
  cases query with
  | needed => exact gives_map _ (Elf.Machine.gives_needed allocated)
  | rpath => exact gives_map _ (Elf.Machine.gives_tagged_string allocated _)
  | runPath => exact gives_map _ (Elf.Machine.gives_tagged_string allocated _)
  | soName => exact gives_map _ (Elf.Machine.gives_tagged_string allocated _)
  | interpreter => exact gives_map _ (Elf.Machine.gives_interpreter_path allocated)
  | searchPath => exact gives_map _ (Elf.Machine.gives_search_path allocated)
  | string index => exact gives_map _ (Elf.Machine.gives_dynamic_string allocated index)
  | slots => exact gives_map _ (Elf.Machine.gives_slots fit)

theorem gives_answer_pe {image : Pe.Image} (ranged : ∀ item ∈ image.sections, item.Ranged)
    (query : Pe.Query) : Gives (answerPe image data query) (image.answer data query) := by
  cases query with
  | importedDlls => exact gives_map _ (Pe.Machine.gives_imported_dlls allocated)
  | delayLoadedDlls => exact gives_map _ (Pe.Machine.gives_delay_loaded_dlls allocated)
  | needed => exact gives_map _ (Pe.Machine.gives_needed allocated)
  | place rva => exact gives_map _ (Pe.Machine.gives_file_offset ranged rva)

theorem gives_needed (image : Image) : Gives (needed data image) (image.needed data) := by
  cases image with
  | elf image => exact Elf.Machine.gives_needed allocated
  | pe image => exact Pe.Machine.gives_needed allocated

theorem gives_search_path (image : Image) :
    Gives (searchPath data image) (image.searchPath data) := by
  cases image with
  | elf image => exact Elf.Machine.gives_search_path allocated
  | pe image => exact gives_pure SearchPath.empty

end Queries

section Calls

variable (edited : session.Edited) (allocated : session.data.length < allocationLimit)
include edited allocated

theorem tables_fit_of_edited : TablesFit session.image := by
  cases edited with
  | elf opened staged => exact .elf (Elf.Machine.tables_fit_of_staged opened staged)
  | pe opened staged =>
    have inside := Pe.Machine.headers_span_le_of_parse opened.parsed
    rw [staged.same]
    exact .pe (Nat.lt_of_le_of_lt inside (Nat.lt_trans allocated (by decide)))

theorem outcome_reply (query : Query) :
    outcome? (reply? session query) = .ok (session.reply? query) := by
  cases edited with
  | elf opened staged =>
    cases query with
    | facts => rfl
    | needed => exact outcome_some (gives_map _ (gives_needed allocated _))
    | searchPath => exact outcome_some (gives_map _ (gives_search_path allocated _))
    | bytes span => exact outcome_some (gives_map _ (gives_read _ span))
    | elf query =>
      exact outcome_some (gives_answer_elf allocated
        (Elf.Machine.slots_fit_of_staged opened staged) query)
    | pe query => rfl
  | pe opened staged =>
    cases query with
    | facts => rfl
    | needed => exact outcome_some (gives_map _ (gives_needed allocated _))
    | searchPath => exact outcome_some (gives_map _ (gives_search_path allocated _))
    | bytes span => exact outcome_some (gives_map _ (gives_read _ span))
    | elf query => rfl
    | pe query =>
      have ranged := Pe.Image.ranged_of_parse opened.parsed
      refine outcome_some (gives_answer_pe allocated ?_ query)
      rw [staged.same]
      exact ranged

theorem outcome_run {command : Session.Command} (held : Holds (writtenText? (.edit command))) :
    outcome? (run? session command) = .ok (session.run? command) := by
  cases edited with
  | elf opened staged =>
    cases command with
    | elf request =>
      exact outcome_some (gives_map _ (Elf.Machine.gives_run allocated
        (Elf.Machine.slots_fit_of_staged opened staged) held))
    | pe request => rfl
  | pe opened staged =>
    cases command with
    | elf request => rfl
    | pe request => exact outcome_some (gives_map _ (Pe.Machine.gives_rename (held _ rfl)))

theorem perform_eq {call : Call} (held : Holds (writtenText? call)) :
    perform session call = .ok (session.perform call) := by
  cases call with
  | edit command =>
    have outcome := outcome_run edited allocated held
    rw [perform, outcome, Session.perform, Session.attempt]
    cases session.run? command with
    | none => rfl
    | some result => cases result <;> rfl
  | ask query =>
    rw [perform, outcome_reply edited allocated query]
    rfl
  | serialize =>
    rw [perform, gives_serialize allocated (tables_fit_of_edited edited allocated)]
    rfl

theorem perform_all_eq {calls : List Call} (held : ∀ call ∈ calls, Holds (writtenText? call)) :
    performAll session calls = .ok (session.performAll calls) := by
  induction calls generalizing session with
  | nil => rfl
  | cons call rest ih =>
    obtain ⟨first, later⟩ := List.forall_mem_cons.mp held
    obtain ⟨kept, same⟩ := edited.perform call
    rw [performAll, perform_eq edited allocated first]
    change (performAll (session.perform call).1 rest >>= fun last =>
      pure (last.1, (session.perform call).2 :: last.2)) = _
    rw [ih kept (same ▸ allocated) later]
    rfl

end Calls

theorem gives_of_file (allocated : data.length < allocationLimit) :
    Gives (ofFile data) (Session.ofFile data) := by
  apply gives_bind (gives_detect data)
  intro format _
  apply gives_bind (gives_parse_valid allocated format)
  intro image _
  exact gives_pure _

theorem gives_of_file_with (allocated : data.length < allocationLimit)
    (expected? : Option Platform) :
    Gives (ofFileWith data expected?) (Session.ofFileWith data expected?) := by
  cases expected? with
  | none => exact gives_of_file allocated
  | some expected =>
    apply gives_bind (gives_of_file allocated)
    intro session _
    apply gives_bind (gives_plain _)
    intro _ _
    exact gives_pure session

end Machine

namespace Session

/-- Whatever bytes are opened, for whatever platform, and whatever calls are made: no addition,
subtraction, multiplication or division fails, no slice is taken of what is not there, and each edit
that is staged fills its place. -/
theorem use_never_faults {data : Bytes} (allocated : data.length < allocationLimit)
    (expected? : Option Platform) {calls : List Call}
    (held : ∀ call ∈ calls, Machine.Holds (Machine.writtenText? call)) :
    Machine.use data expected? calls =
      .ok ((ofFileWith data expected?).map fun session => session.performAll calls) := by
  rw [Machine.use, Machine.gives_of_file_with allocated expected?]
  cases opened : ofFileWith data expected? with
  | error cause => rfl
  | ok session =>
    obtain ⟨rfl, edited⟩ := edited_of_file_with (Nat.lt_trans allocated (by decide)) opened
    change (Machine.performAll session calls >>= fun performed => pure (Except.ok performed)) = _
    rw [Machine.perform_all_eq edited allocated held]
    rfl

/-- Calls with indexes that no table has, and one for another format. -/
def sampleCalls : List Call :=
  [.edit (.elf (.setInterpreter "/l")), .ask (.elf .interpreter),
    .ask (.elf (.string (2 ^ 64 - 1))), .edit (.pe ⟨.imports, 0, "x.dll"⟩),
    .edit (.elf (.removeNeeded "b.so")), .ask .needed, .serialize]

def importingCalls : List Call :=
  [.edit (.pe ⟨.delayImports, 2 ^ 64 - 1, "z"⟩), .edit (.pe ⟨.imports, 0, "x.dll"⟩), .ask .needed,
    .ask (.pe (.place (2 ^ 32 - 1))), .ask (.bytes ⟨2 ^ 64 - 1, 2 ^ 64 - 1⟩), .serialize]

theorem use_never_faults_samples :
    sampleFile.length < allocationLimit ∧
      (∀ call ∈ sampleCalls, Machine.Holds (Machine.writtenText? call)) ∧
      Machine.use sampleFile none sampleCalls =
        .ok (.ok (sampleSession.performAll sampleCalls)) ∧
      importingFile.length < allocationLimit ∧
      (∀ call ∈ importingCalls, Machine.Holds (Machine.writtenText? call)) ∧
      Machine.use importingFile (some ⟨.windows, .pe, .x86⟩) importingCalls =
        .ok (.ok (importingSession.performAll importingCalls)) := by
  have sampleSmall : sampleFile.length < allocationLimit := by decide +kernel
  have sampleHeld : ∀ call ∈ sampleCalls, Machine.Holds (Machine.writtenText? call) := by
    decide +kernel
  have importingSmall : importingFile.length < allocationLimit := by decide +kernel
  have importingHeld : ∀ call ∈ importingCalls, Machine.Holds (Machine.writtenText? call) := by
    decide +kernel
  have sampleUse := use_never_faults sampleSmall none sampleHeld
  have importingUse := use_never_faults importingSmall (some ⟨.windows, .pe, .x86⟩) importingHeld
  have sampleOpened : ofFileWith sampleFile none = .ok sampleSession := sample_opened
  have importingOpened : ofFileWith importingFile (some ⟨.windows, .pe, .x86⟩) =
      .ok importingSession := by decide +kernel
  rw [sampleOpened] at sampleUse
  rw [importingOpened] at importingUse
  exact ⟨sampleSmall, sampleHeld, sampleUse, importingSmall, importingHeld, importingUse⟩

end Session

end BinaryImage
