import BinaryImage.Elf.Defect
import BinaryImage.Layout.Rule
import BinaryImage.Pe.Defect
import BinaryImage.Platform

/-!
Every reason for which opening, editing or serializing a file fails. Offsets are file offsets
into the bytes that were read.
-/

namespace BinaryImage

/-- What an edit asked for and the file does not have. -/
inductive Sought where
  | interpreterSegment
  | dynamicSection
  | dynamicStrings
  | dynamicTag (name : String)
  | neededLibrary (name : String)
  | importDescriptor (index : Nat)
  | delayLoadDescriptor (index : Nat)
  deriving DecidableEq

def Sought.name : Sought → String
  | .interpreterSegment => "PT_INTERP segment"
  | .dynamicSection => "dynamic section"
  | .dynamicStrings => "dynamic string table"
  | .dynamicTag name => "DT_" ++ name
  | .neededLibrary name => "DT_NEEDED " ++ name
  | .importDescriptor index => s!"import descriptor #{index}"
  | .delayLoadDescriptor index => s!"delay-load descriptor #{index}"

inductive InvalidValue where
  | containsNul (target : EditTarget)
  /-- An origin variable that runs on without a slash. -/
  | afterOrigin (spelling : String) (found : Char)
  | otherLength (parsed given : Nat)
  deriving DecidableEq

def InvalidValue.message : InvalidValue → String
  | .containsNul target => target.render ++ ": value contains a NUL byte"
  | .afterOrigin spelling found =>
    "expected '/' after " ++ spelling ++ ", got '" ++ found.toString ++ "'"
  | .otherLength parsed given => s!"model was parsed from {parsed} bytes, got {given}"

inductive Error where
  | truncated (needed available : Nat)
  | unrecognized
  | malformedElf (offset : Nat) (defect : Elf.Defect)
  | malformedPe (offset : Nat) (defect : Pe.Defect)
  | violation (entity : Layout.Entity) (offset : Nat) (rule : Layout.Rule)
  | notFound (sought : Sought)
  | noRoom (target : EditTarget) (required capacity : Nat)
  | rejected (cause : Error)
  | invalid (value : InvalidValue)
  | otherPlatform (expected found : Platform)
  deriving DecidableEq

namespace Error

def message : Error → String
  | truncated needed available =>
    s!"input truncated: {needed} bytes needed, {available} available"
  | unrecognized => "unrecognized executable format"
  | malformedElf offset defect => "malformed ELF at " ++ Text.hex offset ++ ": " ++ defect.message
  | malformedPe offset defect => "malformed PE at " ++ Text.hex offset ++ ": " ++ defect.message
  | violation entity offset rule =>
    entity.name ++ " at " ++ Text.hex offset ++ " violates layout rule: " ++ rule.message
  | notFound sought => "entry not found: " ++ sought.name
  | noRoom target required capacity =>
    "insufficient space for " ++ target.render ++
      s!": {required} bytes required, {capacity} allocated"
  | rejected cause => "serialization rejected: " ++ cause.message
  | invalid value => "invalid value: " ++ value.message
  | otherPlatform expected found =>
    "platform mismatch: expected " ++ expected.render ++ ", found " ++ found.render

end Error

def require (condition : Bool) (error : Error) : Except Error Unit :=
  if condition then .ok () else .error error

def requireSome {α : Type} (value? : Option α) (error : Error) : Except Error α :=
  match value? with
  | some value => .ok value
  | none => .error error

theorem bind_eq_ok_iff {α β : Type} {first : Except Error α} {next : α → Except Error β}
    {result : β} :
    (first >>= next) = .ok result ↔ ∃ value, first = .ok value ∧ next value = .ok result := by
  cases first <;> simp [bind, Except.bind]

theorem bind_eq_error_iff {α β : Type} {first : Except Error α} {next : α → Except Error β}
    {cause : Error} :
    (first >>= next) = .error cause ↔
      first = .error cause ∨ ∃ value, first = .ok value ∧ next value = .error cause := by
  cases first <;> simp [bind, Except.bind]

theorem check_bind_eq_ok_iff {α : Type} {check : Except Error Unit} {next : Unit → Except Error α}
    {result : α} : (check >>= next) = .ok result ↔ check = .ok () ∧ next () = .ok result := by
  cases check <;> simp [bind, Except.bind]

theorem map_eq_ok_iff {α β : Type} {first : Except Error α} {change : α → β} {result : β} :
    first.map change = .ok result ↔ ∃ value, first = .ok value ∧ change value = result := by
  cases first <;> simp [Except.map]

theorem map_of_map {α β γ : Type} {first : Except Error α} {change : α → β} {last : β → γ} :
    (first.map change).map last = first.map fun value => last (change value) := by
  cases first <;> rfl

theorem map_of_bind {α β γ : Type} {first : Except Error α} {next : α → Except Error β}
    {change : β → γ} :
    (first >>= next).map change = first >>= fun value => (next value).map change := by
  cases first <;> rfl

theorem map_error_eq_ok_iff {α : Type} {first : Except Error α} {change : Error → Error}
    {result : α} : first.mapError change = .ok result ↔ first = .ok result := by
  cases first with
  | ok value => exact Iff.rfl
  | error cause =>
    constructor
    · intro done
      cases done
    · intro done
      cases done

/-- Each member passes a check that goes through a list. -/
theorem forM_eq_ok_iff {α : Type} {check : α → Except Error Unit} {items : List α} {value : Unit} :
    items.forM check = .ok value ↔ ∀ item ∈ items, check item = .ok () := by
  induction items with
  | nil => exact iff_of_true rfl (fun item member => nomatch member)
  | cons item rest ih =>
    change (check item >>= fun _ => rest.forM check) = .ok value ↔ _
    rw [bind_eq_ok_iff, List.forall_mem_cons, ← ih]
    constructor
    · rintro ⟨_, passed, later⟩
      exact ⟨passed, later⟩
    · rintro ⟨passed, later⟩
      exact ⟨(), passed, later⟩

/-- A list fails a check where one of its members does. -/
theorem error_of_forM {α : Type} {check : α → Except Error Unit} {items : List α} {cause : Error}
    (failed : items.forM check = .error cause) : ∃ item ∈ items, check item = .error cause := by
  induction items with
  | nil => cases failed
  | cons item rest ih =>
    change (check item >>= fun _ => rest.forM check) = .error cause at failed
    rcases bind_eq_error_iff.mp failed with first | ⟨_, _, later⟩
    · exact ⟨item, List.mem_cons_self, first⟩
    · obtain ⟨other, member, found⟩ := ih later
      exact ⟨other, List.mem_cons_of_mem _ member, found⟩

theorem require_eq_ok_iff {condition : Bool} {error : Error} {value : Unit} :
    require condition error = .ok value ↔ condition = true := by
  cases condition <;> simp [require]

theorem require_eq_error_iff {condition : Bool} {error cause : Error} :
    require condition error = .error cause ↔ condition = false ∧ error = cause := by
  cases condition <;> simp [require]

theorem require_some_eq_ok_iff {α : Type} {value? : Option α} {error : Error} {value : α} :
    requireSome value? error = .ok value ↔ value? = some value := by
  cases value? <;> simp [requireSome]

theorem require_some_eq_error_iff {α : Type} {value? : Option α} {error cause : Error} :
    requireSome value? error = .error cause ↔ value? = none ∧ error = cause := by
  cases value? <;> simp [requireSome]

end BinaryImage
