import BinaryImage.Elf.Command
import BinaryImage.Image
import BinaryImage.Pe.Rename

/-!
A session holds a file from its opening on: its bytes and the image with its staged edits.
Edits leave the bytes alone, and serializing leaves the session as it is.
-/

namespace BinaryImage

structure Session where
  data : Bytes
  image : Image
  deriving DecidableEq

namespace Session

def ofFile (data : Bytes) : Except Error Session := do
  let format ← Format.detect data
  return ⟨data, ← Image.parseValid format data⟩

def ofFileFor (data : Bytes) (expected : Platform) : Except Error Session := do
  let session ← ofFile data
  let found := session.image.platform
  require (found == expected) (.otherPlatform expected found)
  return session

def serialize (session : Session) : Except Error Bytes := session.image.serialize session.data

inductive Command where
  | elf (command : Elf.Command)
  | pe (rename : Pe.Rename)

/-- Carry out a command; none where it is for another format. -/
def run? (session : Session) (command : Command) : Option (Except Error Session) :=
  match session.image, command with
  | .elf image, .elf request =>
    some ((image.run session.data request).map fun edited => { session with image := .elf edited })
  | .pe image, .pe request =>
    some ((image.rename request).map fun edited => { session with image := .pe edited })
  | _, _ => none

/-- The session after a call. One that fails, or that is for another format, changes nothing. -/
def attempt (session : Session) (command : Command) : Session :=
  match session.run? command with
  | some (.ok edited) => edited
  | _ => session

def attemptAll (session : Session) (commands : List Command) : Session :=
  commands.foldl attempt session

theorem of_file_eq_ok_iff {data : Bytes} {session : Session} :
    ofFile data = .ok session ↔
      ∃ format, Format.detect data = .ok format ∧ session.data = data ∧
        Image.parseValid format data = .ok session.image := by
  simp only [ofFile, bind_eq_ok_iff, pure, Except.pure, Except.ok.injEq]
  constructor
  · rintro ⟨format, found, image, parsed, rfl⟩
    exact ⟨format, found, rfl, parsed⟩
  · rintro ⟨format, found, rfl, parsed⟩
    exact ⟨format, found, session.image, parsed, rfl⟩

-- A call edits the image and nothing else.
theorem attempt_cases (session : Session) (command : Command) :
    session.attempt command = session ∨
      (∃ image edited request, session.image = .elf image ∧ command = .elf request ∧
        image.run session.data request = .ok edited ∧
        session.attempt command = ⟨session.data, .elf edited⟩) ∨
      ∃ image edited request, session.image = .pe image ∧ command = .pe request ∧
        image.rename request = .ok edited ∧
        session.attempt command = ⟨session.data, .pe edited⟩ := by
  obtain ⟨data, image⟩ := session
  cases image with
  | elf image =>
    cases command with
    | elf request =>
      cases result : image.run data request with
      | ok edited =>
        refine .inr (.inl ⟨image, edited, request, rfl, rfl, result, ?_⟩)
        simp [attempt, run?, result, Except.map]
      | error cause => simp [attempt, run?, result, Except.map]
    | pe request => exact .inl rfl
  | pe image =>
    cases command with
    | elf request => exact .inl rfl
    | pe request =>
      cases result : image.rename request with
      | ok edited =>
        refine .inr (.inr ⟨image, edited, request, rfl, rfl, result, ?_⟩)
        simp [attempt, run?, result, Except.map]
      | error cause => simp [attempt, run?, result, Except.map]

theorem attempt_data (session : Session) (command : Command) :
    (session.attempt command).data = session.data := by
  rcases session.attempt_cases command with
    same | ⟨_, _, _, _, _, _, same⟩ | ⟨_, _, _, _, _, _, same⟩
  · rw [same]
  · rw [same]
  · rw [same]

theorem attempt_format (session : Session) (command : Command) :
    (session.attempt command).image.format = session.image.format := by
  rcases session.attempt_cases command with
    same | ⟨_, _, _, before, _, _, same⟩ | ⟨_, _, _, before, _, _, same⟩
  · rw [same]
  · rw [same, before]
    rfl
  · rw [same, before]
    rfl

theorem attempt_all_data (session : Session) (commands : List Command) :
    (session.attemptAll commands).data = session.data := by
  induction commands generalizing session with
  | nil => rfl
  | cons command rest ih =>
    exact (ih (session.attempt command)).trans (session.attempt_data command)

theorem attempt_all_format (session : Session) (commands : List Command) :
    (session.attemptAll commands).image.format = session.image.format := by
  induction commands generalizing session with
  | nil => rfl
  | cons command rest ih =>
    exact (ih (session.attempt command)).trans (session.attempt_format command)

-- What each successful command keeps holds after any calls, for a call that fails changes nothing.
theorem elf_of_attempt_all {Reached : Elf.Image → Prop} {session : Session} {image : Elf.Image}
    {commands : List Command} (elf : session.image = .elf image) (start : Reached image)
    (step : ∀ before after request, .elf request ∈ commands → Reached before →
      before.run session.data request = .ok after → Reached after) :
    ∃ edited, (session.attemptAll commands).image = .elf edited ∧ Reached edited := by
  induction commands generalizing session image with
  | nil => exact ⟨image, elf, start⟩
  | cons command rest ih =>
    have later : ∀ before after request, .elf request ∈ rest → Reached before →
        before.run (session.attempt command).data request = .ok after → Reached after := by
      intro before after request member
      rw [session.attempt_data]
      exact step before after request (List.mem_cons_of_mem _ member)
    rcases session.attempt_cases command with
      same | ⟨_, edited, request, before, rfl, done, same⟩ | ⟨_, _, _, before, _⟩
    · exact ih ((congrArg Session.image same).trans elf) start later
    · cases elf.symm.trans before
      exact ih (congrArg Session.image same)
        (step image edited request List.mem_cons_self start done) later
    · rw [elf] at before
      cases before

theorem pe_of_attempt_all {Reached : Pe.Image → Prop} {session : Session} {image : Pe.Image}
    {commands : List Command} (pe : session.image = .pe image) (start : Reached image)
    (step : ∀ before after request, .pe request ∈ commands → Reached before →
      before.rename request = .ok after → Reached after) :
    ∃ edited, (session.attemptAll commands).image = .pe edited ∧ Reached edited := by
  induction commands generalizing session image with
  | nil => exact ⟨image, pe, start⟩
  | cons command rest ih =>
    have later : ∀ before after request, .pe request ∈ rest → Reached before →
        before.rename request = .ok after → Reached after := by
      intro before after request member
      exact step before after request (List.mem_cons_of_mem _ member)
    rcases session.attempt_cases command with
      same | ⟨_, _, _, before, _⟩ | ⟨_, edited, request, before, rfl, done, same⟩
    · exact ih ((congrArg Session.image same).trans pe) start later
    · rw [pe] at before
      cases before
    · cases pe.symm.trans before
      exact ih (congrArg Session.image same)
        (step image edited request List.mem_cons_self start done) later

end Session

end BinaryImage
