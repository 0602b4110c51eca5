import BinaryImage.Bytes.Reader
import BinaryImage.Proofs.Machine.Basic
import BinaryImage.Text.Utf8

/-!
Reading records on a machine. A cursor works out the place of every field in the file, which is the
start of its slice and the position in it. The records are those of the plain reader, read by the
steps of this one; what the plain reader reads from a later slice, the machine may read further on
in its own.
-/

namespace BinaryImage

abbrev MachineReader := StateT Cursor (Machine Overrun)

namespace MachineReader

def place (cursor : Cursor) : Machine Overrun Nat := Machine.add cursor.base cursor.position

/-- Some cursors work out the place of a field only where it is missing; this one always does. -/
def unsigned (order : ByteOrder) (width : Width) : MachineReader Nat := fun cursor => do
  if cursor.position + width.size ≤ cursor.data.length then
    let next := { cursor with position := cursor.position + width.size }
    let _ ← place next
    return (order.decode ((cursor.data.drop cursor.position).take width.size), next)
  else
    let offset ← place { cursor with position := cursor.data.length }
    throw ⟨width, offset⟩

def skip (count : Nat) : MachineReader Unit := fun cursor => do
  let position ← Machine.add cursor.position count
  return ((), { cursor with position })

def seek (position : Nat) : MachineReader Unit := fun cursor =>
  return ((), { cursor with position })

instance : FieldReader MachineReader := ⟨unsigned, skip, seek⟩

def runOn {α : Type} (reader : MachineReader α) (data : Bytes) (base : Nat) :
    Machine Overrun α := do
  let (value, _) ← reader ⟨data, base, 0⟩
  return value

end MachineReader

/-- Two cursors stand at the same place of the file. The slice of the one ahead starts `shift` bytes
earlier, both end together, and the end has a file offset. -/
structure Cursor.Tracks (shift : Nat) (ahead behind : Cursor) : Prop where
  data : behind.data = ahead.data.drop shift
  inside : shift ≤ ahead.data.length
  base : behind.base = ahead.base + shift
  position : ahead.position = behind.position + shift
  fits : ahead.base + ahead.data.length < offsetLimit

namespace MachineReader

open Machine Cursor

variable {α β : Type} {shift : Nat} {ahead behind : Cursor}

/-- From two cursors on, the steps read what the reader does, and the cursors stay together. -/
def Follows (shift : Nat) (steps : MachineReader α) (reader : Reader α) (ahead behind : Cursor) :
    Prop :=
  match reader behind with
  | .ok value next => ∃ after, Gives (steps ahead) (.ok (value, after)) ∧ Tracks shift after next
  | .error overrun _ => Gives (steps ahead) (.error overrun)

def Faithful (shift : Nat) (steps : MachineReader α) (reader : Reader α) : Prop :=
  ∀ ahead behind, Tracks shift ahead behind → Follows shift steps reader ahead behind

theorem follows_bind {first : MachineReader α} {rest : α → MachineReader β} {reader : Reader α}
    {next : α → Reader β} (start : Follows shift first reader ahead behind)
    (later : ∀ value, Faithful shift (rest value) (next value)) :
    Follows shift (first >>= rest) (reader >>= next) ahead behind := by
  have run : (reader >>= next) behind = EStateM.bind reader next behind := rfl
  unfold Follows at start ⊢
  rw [run, EStateM.bind]
  cases told : reader behind with
  | ok value middle =>
    rw [told] at start
    obtain ⟨after, done, tracks⟩ := start
    have goes := later value after middle tracks
    unfold Follows at goes
    simp only
    cases last : next value middle with
    | ok result final =>
      rw [last] at goes
      obtain ⟨final, gives, together⟩ := goes
      exact ⟨final, gives_ok_bind done gives, together⟩
    | error overrun final =>
      rw [last] at goes
      exact gives_ok_bind done goes
  | error overrun middle =>
    rw [told] at start
    exact gives_error_bind _ start

theorem faithful_pure (value : α) : Faithful shift (pure value) (pure value) := by
  intro ahead behind tracks
  exact ⟨ahead, gives_pure _, tracks⟩

theorem faithful_bind {first : MachineReader α} {rest : α → MachineReader β} {reader : Reader α}
    {next : α → Reader β} (start : Faithful shift first reader)
    (later : ∀ value, Faithful shift (rest value) (next value)) :
    Faithful shift (first >>= rest) (reader >>= next) := by
  intro ahead behind tracks
  exact follows_bind (start ahead behind tracks) later

/-- A field that is there moves the cursor behind it. -/
theorem gives_unsigned {data : Bytes} {base position : Nat}
    (fits : base + data.length < offsetLimit) (order : ByteOrder) {width : Width}
    (within : position + width.size ≤ data.length) :
    Gives ((FieldReader.unsigned order width : MachineReader Nat) ⟨data, base, position⟩)
      (.ok (order.decode ((data.drop position).take width.size),
        ⟨data, base, position + width.size⟩)) := by
  have steps : (FieldReader.unsigned order width : MachineReader Nat) ⟨data, base, position⟩ =
      unsigned order width ⟨data, base, position⟩ := rfl
  rw [steps, unsigned, if_pos within]
  exact gives_ok_bind (gives_add (by simp only; omega)) (gives_pure _)

theorem faithful_unsigned (order : ByteOrder) (width : Width) :
    Faithful shift (FieldReader.unsigned order width) (FieldReader.unsigned order width) := by
  rintro ahead behind ⟨data, inside, base, position, fits⟩
  have reads : (FieldReader.unsigned order width : Reader Nat) behind =
      Reader.unsigned order width behind := rfl
  have length : behind.data.length = ahead.data.length - shift := by rw [data, List.length_drop]
  unfold Follows
  rw [reads, Reader.unsigned]
  by_cases within : behind.position + width.size ≤ behind.data.length
  · rw [if_pos within]
    have same : ahead.data.drop ahead.position = behind.data.drop behind.position := by
      rw [data, List.drop_drop, position, Nat.add_comm]
    have later : ahead.position + width.size = behind.position + width.size + shift := by omega
    refine ⟨⟨ahead.data, ahead.base, ahead.position + width.size⟩, ?_, data, inside, base, later,
      fits⟩
    rw [← same]
    exact gives_unsigned fits order (by omega)
  · have steps : (FieldReader.unsigned order width : MachineReader Nat) ahead =
        unsigned order width ahead := rfl
    rw [if_neg within, steps, unsigned, if_neg (by omega)]
    have ends : behind.base + behind.data.length = ahead.base + ahead.data.length := by omega
    rw [ends]
    exact gives_ok_bind (gives_add fits) (gives_throw _)

theorem follows_skip {count : Nat} (tracks : Tracks shift ahead behind)
    (small : ahead.position + count < offsetLimit) :
    Follows shift (FieldReader.skip count) (FieldReader.skip count) ahead behind := by
  refine ⟨{ ahead with position := ahead.position + count },
    gives_ok_bind (gives_add small) (gives_pure _), tracks.data, tracks.inside, tracks.base, ?_,
    tracks.fits⟩
  have position := tracks.position
  simp only
  omega

/-- A reader that goes to a place of its own slice does not depend on where it stood. -/
theorem faithful_seek (position : Nat) :
    Faithful 0 (FieldReader.seek position) (FieldReader.seek position) := by
  intro ahead behind tracks
  exact ⟨{ ahead with position }, gives_pure _, tracks.data, tracks.inside, tracks.base, rfl,
    tracks.fits⟩

theorem faithful_times {steps : MachineReader α} {reader : Reader α}
    (each : Faithful shift steps reader) (count : Nat) :
    Faithful shift (FieldReader.times steps count) (FieldReader.times reader count) := by
  induction count with
  | zero => exact faithful_pure []
  | succ count ih =>
    apply faithful_bind each
    intro first
    apply faithful_bind ih
    intro rest
    exact faithful_pure (first :: rest)

theorem gives_of_follows {steps : MachineReader α} {reader : Reader α}
    (follows : Follows shift steps reader ahead behind) :
    Gives (steps ahead >>= fun told => pure told.1)
      (match reader behind with
        | .ok value _ => .ok value
        | .error overrun _ => .error overrun) := by
  unfold Follows at follows
  cases told : reader behind with
  | ok value next =>
    rw [told] at follows
    obtain ⟨after, done, _⟩ := follows
    exact gives_ok_bind done (gives_pure _)
  | error overrun next =>
    rw [told] at follows
    exact gives_error_bind _ follows

/-- Reading from the start of a slice. -/
theorem gives_run_on {steps : MachineReader α} {reader : Reader α} {data : Bytes} {base : Nat}
    (follows : Follows 0 steps reader ⟨data, base, 0⟩ ⟨data, base, 0⟩) :
    Gives (runOn steps data base) (reader.runOn data base) := gives_of_follows follows

/-- Reading further on in a slice is reading from the start of a later one. -/
theorem gives_run_on_behind {steps : MachineReader α} {reader : Reader α} {data : Bytes}
    {base : Nat} (fits : base + data.length < offsetLimit) (inside : shift ≤ data.length)
    (faithful : Faithful shift steps reader) :
    Gives (runOn (do FieldReader.seek shift; steps) data base)
      (reader.runOn (data.drop shift) (base + shift)) := by
  have tracks : Tracks shift ⟨data, base, shift⟩ ⟨data.drop shift, base + shift, 0⟩ :=
    ⟨rfl, inside, rfl, (Nat.zero_add _).symm, fits⟩
  exact gives_of_follows (faithful _ _ tracks)

theorem tracks_self {data : Bytes} {base : Nat} (fits : base + data.length < offsetLimit) :
    Tracks 0 ⟨data, base, 0⟩ ⟨data, base, 0⟩ := ⟨rfl, Nat.zero_le _, rfl, rfl, fits⟩

end MachineReader

namespace Machine

variable {ε : Type}

def text (bytes : Bytes) : Machine ε String := do
  let found ← slice bytes 0 ((Bytes.terminator? bytes).getD bytes.length)
  return Text.Utf8.decode found

theorem gives_text (bytes : Bytes) :
    Gives (text bytes : Machine ε String) (.ok (Text.Utf8.decode (Bytes.beforeNul bytes))) := by
  apply gives_ok_bind (gives_slice_to bytes.terminator_le)
  rw [bytes.take_terminator]
  exact gives_pure _

end Machine

end BinaryImage
