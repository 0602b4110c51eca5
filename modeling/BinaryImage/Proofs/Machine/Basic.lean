import BinaryImage.Bytes.Basic
import BinaryImage.Sorting

/-!
Computing on machine words. The images of this library are computed with unbounded numbers and with
lists that answer for every index. A machine has words of 64 bits and slices that stop the program
when they are asked for what is not there. The steps below are those of the machine; each of them
names the fault by which it fails. A computation made of them gives a plain result when no step
faults and the outcome, a value or an error, is that of the plain computation.
-/

namespace BinaryImage

inductive Fault where
  | overflow
  | underflow
  | divisionByZero
  | outOfRange
  | lengthMismatch
  | failedAssertion
  deriving DecidableEq

/-- Nothing that a machine of 64-bit words holds in memory is as long as this, the 63rd power of
two. -/
def allocationLimit : Nat := 0x8000000000000000

/-- A computation that a fault stops, and that may else end in an error. -/
abbrev Machine (ε α : Type) := ExceptT ε (Except Fault) α

namespace Machine

variable {ε α β : Type}

section Steps

def fault (cause : Fault) : Machine ε α := ExceptT.mk (.error cause)

def add (a b : Nat) : Machine ε Nat := if a + b < offsetLimit then pure (a + b) else fault .overflow

def sub (a b : Nat) : Machine ε Nat := if b ≤ a then pure (a - b) else fault .underflow

def mul (a b : Nat) : Machine ε Nat := if a * b < offsetLimit then pure (a * b) else fault .overflow

def div (a b : Nat) : Machine ε Nat := if b = 0 then fault .divisionByZero else pure (a / b)

def rem (a b : Nat) : Machine ε Nat := if b = 0 then fault .divisionByZero else pure (a % b)

def item (items : List α) (index : Nat) : Machine ε α :=
  match items[index]? with
  | some found => pure found
  | none => fault .outOfRange

def slice (items : List α) (start stop : Nat) : Machine ε (List α) :=
  if start ≤ stop ∧ stop ≤ items.length then pure ((items.drop start).take (stop - start))
  else fault .outOfRange

def copy (bytes : Bytes) (start stop : Nat) (patch : Bytes) : Machine ε Bytes :=
  if start ≤ stop ∧ stop ≤ bytes.length then
    if patch.length = stop - start then pure (bytes.splice start patch) else fault .lengthMismatch
  else fault .outOfRange

def windows : List α → List (List α)
  | first :: second :: rest => [first, second] :: windows (second :: rest)
  | _ => []

theorem windows_eq (items : List α) :
    windows items = (neighbours items).map fun pair => [pair.1, pair.2] := by
  induction items with
  | nil => rfl
  | cons first rest ih =>
    cases rest with
    | nil => rfl
    | cons second others =>
      rw [windows, ih]
      rfl

/-- A computation that takes no step of the machine. -/
def plain (outcome : Except ε α) : Machine ε α := ExceptT.mk (.ok outcome)

def mapError {γ : Type} (change : ε → γ) (computation : Machine ε α) : Machine γ α :=
  ExceptT.mk (computation.run.map fun outcome => outcome.mapError change)

end Steps

/-- No step faults, and the outcome is the given one. -/
def Gives (computation : Machine ε α) (outcome : Except ε α) : Prop :=
  computation.run = .ok outcome

section Steps

variable {a b start stop : Nat} {bytes patch : Bytes} {items : List α}

theorem gives_pure (value : α) : Gives (pure value : Machine ε α) (.ok value) := rfl

theorem gives_throw (error : ε) : Gives (throw error : Machine ε α) (.error error) := rfl

theorem gives_plain (outcome : Except ε α) : Gives (plain outcome) outcome := rfl

theorem gives_add (small : a + b < offsetLimit) :
    Gives (add a b : Machine ε Nat) (.ok (a + b)) := by
  rw [add, if_pos small]
  exact gives_pure _

theorem gives_sub (enough : b ≤ a) : Gives (sub a b : Machine ε Nat) (.ok (a - b)) := by
  rw [sub, if_pos enough]
  exact gives_pure _

theorem gives_mul (small : a * b < offsetLimit) :
    Gives (mul a b : Machine ε Nat) (.ok (a * b)) := by
  rw [mul, if_pos small]
  exact gives_pure _

theorem gives_div (nonzero : b ≠ 0) : Gives (div a b : Machine ε Nat) (.ok (a / b)) := by
  rw [div, if_neg nonzero]
  exact gives_pure _

theorem gives_rem (nonzero : b ≠ 0) : Gives (rem a b : Machine ε Nat) (.ok (a % b)) := by
  rw [rem, if_neg nonzero]
  exact gives_pure _

theorem gives_item {index : Nat} {found : α} (there : items[index]? = some found) :
    Gives (item items index : Machine ε α) (.ok found) := by
  rw [item, there]
  exact gives_pure _

theorem gives_slice (order : start ≤ stop) (inside : stop ≤ items.length) :
    Gives (slice items start stop : Machine ε (List α))
      (.ok ((items.drop start).take (stop - start))) := by
  rw [slice, if_pos ⟨order, inside⟩]
  exact gives_pure _

theorem gives_slice_from (inside : start ≤ items.length) :
    Gives (slice items start items.length : Machine ε (List α)) (.ok (items.drop start)) := by
  have whole : items.drop start = (items.drop start).take (items.length - start) := by
    rw [← List.length_drop, List.take_length]
  rw [whole]
  exact gives_slice inside (Nat.le_refl _)

theorem gives_slice_to (inside : stop ≤ items.length) :
    Gives (slice items 0 stop : Machine ε (List α)) (.ok (items.take stop)) :=
  gives_slice (Nat.zero_le _) inside

theorem gives_copy (length : start + patch.length = stop) (inside : stop ≤ bytes.length) :
    Gives (copy bytes start stop patch : Machine ε Bytes) (.ok (bytes.splice start patch)) := by
  rw [copy, if_pos ⟨by omega, inside⟩, if_pos (by omega)]
  exact gives_pure _

end Steps

theorem gives_ok_bind {first : Machine ε α} {value : α} {rest : α → Machine ε β}
    {outcome : Except ε β} (start : Gives first (.ok value)) (later : Gives (rest value) outcome) :
    Gives (first >>= rest) outcome := by
  have run : (first >>= rest).run = first.run >>= ExceptT.bindCont rest := rfl
  rw [Gives, run, start]
  exact later

theorem gives_error_bind {first : Machine ε α} {cause : ε} (rest : α → Machine ε β)
    (failed : Gives first (.error cause)) : Gives (first >>= rest) (.error cause) := by
  have run : (first >>= rest).run = first.run >>= ExceptT.bindCont rest := rfl
  rw [Gives, run, failed]
  rfl

theorem gives_bind {first : Machine ε α} {outcome : Except ε α} {rest : α → Machine ε β}
    {next : α → Except ε β} (start : Gives first outcome)
    (later : ∀ value, outcome = .ok value → Gives (rest value) (next value)) :
    Gives (first >>= rest) (outcome >>= next) := by
  cases outcome with
  | ok value => exact gives_ok_bind start (later value rfl)
  | error cause => exact gives_error_bind rest start

theorem gives_map (change : α → β) {computation : Machine ε α} {outcome : Except ε α}
    (done : Gives computation outcome) :
    Gives (computation >>= fun value => pure (change value)) (outcome.map change) := by
  cases outcome with
  | ok value => exact gives_ok_bind done (gives_pure _)
  | error cause => exact gives_error_bind _ done

/-- What the machine computes may be told in more detail than in the plain computation. -/
theorem gives_map_bind {γ : Type} {first : Machine ε γ} {outcome : Except ε α} {detail : α → γ}
    {rest : γ → Machine ε β} {next : α → Except ε β} (start : Gives first (outcome.map detail))
    (later : ∀ value, outcome = .ok value → Gives (rest (detail value)) (next value)) :
    Gives (first >>= rest) (outcome >>= next) := by
  cases outcome with
  | ok value => exact gives_ok_bind start (later value rfl)
  | error cause => exact gives_error_bind rest start

theorem gives_map_error {γ : Type} (change : ε → γ) {computation : Machine ε α}
    {outcome : Except ε α} (done : Gives computation outcome) :
    Gives (mapError change computation) (outcome.mapError change) := by
  have run : (mapError change computation).run =
      computation.run.map fun outcome => outcome.mapError change := rfl
  rw [Gives, run, done]
  rfl

theorem gives_mapM {convert : α → Machine ε β} {result : α → Except ε β} {items : List α}
    (each : ∀ item ∈ items, Gives (convert item) (result item)) :
    Gives (items.mapM convert) (items.mapM result) := by
  induction items with
  | nil => exact gives_pure []
  | cons item rest ih =>
    obtain ⟨head, tail⟩ := List.forall_mem_cons.mp each
    rw [List.mapM_cons, List.mapM_cons]
    apply gives_bind head
    intro value _
    apply gives_bind (ih tail)
    intro values _
    exact gives_pure (value :: values)

theorem gives_forM {check : α → Machine ε Unit} {result : α → Except ε Unit} {items : List α}
    (each : ∀ item ∈ items, Gives (check item) (result item)) :
    Gives (items.forM check) (items.forM result) := by
  induction items with
  | nil => exact gives_pure ()
  | cons item rest ih =>
    obtain ⟨head, tail⟩ := List.forall_mem_cons.mp each
    exact gives_bind head fun _ _ => ih tail

/-- Steps that all succeed while something is kept. -/
theorem gives_foldl {step : α → β → Machine ε α} {next : α → β → α} {Keeps : α → Prop}
    {items : List β} {start : α} (initial : Keeps start)
    (each : ∀ state, Keeps state → ∀ item ∈ items,
      Gives (step state item) (.ok (next state item)) ∧ Keeps (next state item)) :
    Gives (items.foldlM step start) (.ok (items.foldl next start)) := by
  induction items generalizing start with
  | nil => exact gives_pure start
  | cons item rest ih =>
    obtain ⟨here, kept⟩ := each start initial item List.mem_cons_self
    rw [List.foldlM_cons, List.foldl_cons]
    apply gives_ok_bind here
    apply ih kept
    intro state keeps later member
    exact each state keeps later (List.mem_cons_of_mem _ member)

def refusal (cause : α → ε) : Option α → Except ε Unit
  | some item => .error (cause item)
  | none => .ok ()

/-- A check of one member after the other fails at the first that is refused. -/
theorem gives_search {check : α → Machine ε Unit} {refuses : α → Bool} {cause : α → ε}
    {items : List α} (each : ∀ item ∈ items, Gives (check item)
      (if refuses item then .error (cause item) else .ok ())) :
    Gives (items.forM check) (refusal cause (items.find? refuses)) := by
  induction items with
  | nil => exact gives_pure ()
  | cons item rest ih =>
    obtain ⟨head, tail⟩ := List.forall_mem_cons.mp each
    rw [List.find?_cons]
    cases refused : refuses item with
    | true =>
      rw [refused, if_pos rfl] at head
      exact gives_error_bind (fun _ => rest.forM check) head
    | false =>
      rw [refused, if_neg Bool.false_ne_true] at head
      exact gives_ok_bind head (ih tail)

/-- A check of each two members that stand side by side. -/
theorem gives_search_windows {check : List α → Machine ε Unit} {refuses : α × α → Bool}
    {cause : α × α → ε} (items : List α) (each : ∀ earlier later, Gives (check [earlier, later])
      (if refuses (earlier, later) then .error (cause (earlier, later)) else .ok ())) :
    Gives ((windows items).forM check) (refusal cause ((neighbours items).find? refuses)) := by
  rw [windows_eq, List.forM_eq_forM, List.forM_map]
  apply gives_search
  rintro ⟨earlier, later⟩ _
  exact each earlier later

end Machine

end BinaryImage
