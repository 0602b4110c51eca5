import BinaryImage.Bytes.Unsigned

/-!
Sequential reading of fixed-width fields from a slice of a file. A record is read by steps that
any field reader has. In the reader of this module a field that does not fit leaves the cursor at
the end of the slice, also when a skip had gone beyond it, and the failure names that place as a
file offset.
-/

namespace BinaryImage

inductive Width where
  | byte
  | half
  | word
  | double
  deriving DecidableEq

namespace Width

def size : Width → Nat
  | byte => 1
  | half => 2
  | word => 4
  | double => 8

def name : Width → String
  | byte => "byte"
  | half => "half word"
  | word => "word"
  | double => "double word"

end Width

/-- The steps by which records are read: a field of some width, and moves over bytes that are not
looked at. -/
class FieldReader (m : Type → Type) extends Monad m where
  unsigned : ByteOrder → Width → m Nat
  skip : Nat → m Unit
  seek : Nat → m Unit

def FieldReader.times {m : Type → Type} [FieldReader m] {α : Type} (reader : m α) :
    Nat → m (List α)
  | 0 => pure []
  | count + 1 => do
    let first ← reader
    let rest ← times reader count
    return first :: rest

/-- A place in a slice of a file; `base` is the file offset of the first byte of `data`. -/
structure Cursor where
  data : Bytes
  base : Nat
  position : Nat

def Cursor.offset (cursor : Cursor) : Nat := cursor.base + cursor.position

structure Overrun where
  width : Width
  offset : Nat
  deriving DecidableEq

abbrev Reader := EStateM Overrun Cursor

namespace Reader

def unsigned (order : ByteOrder) (width : Width) : Reader Nat := fun cursor =>
  if cursor.position + width.size ≤ cursor.data.length then
    .ok (order.decode ((cursor.data.drop cursor.position).take width.size))
      { cursor with position := cursor.position + width.size }
  else
    .error ⟨width, cursor.base + cursor.data.length⟩
      { cursor with position := cursor.data.length }

def skip (count : Nat) : Reader Unit :=
  modify fun cursor => { cursor with position := cursor.position + count }

def seek (position : Nat) : Reader Unit :=
  modify fun cursor => { cursor with position := position }

instance : FieldReader Reader := ⟨unsigned, skip, seek⟩

def runOn {α : Type} (reader : Reader α) (data : Bytes) (base : Nat) : Except Overrun α :=
  match reader.run ⟨data, base, 0⟩ with
  | .ok value _ => .ok value
  | .error overrun _ => .error overrun

theorem run_on_seek_unsigned_eq_ok_iff {order : ByteOrder} {width : Width} {data : Bytes}
    {base position value : Nat} :
    (do FieldReader.seek position; FieldReader.unsigned order width : Reader Nat).runOn data base =
        .ok value ↔
      position + width.size ≤ data.length ∧
        value = order.decode ((data.drop position).take width.size) := by
  have run : (do FieldReader.seek position; FieldReader.unsigned order width : Reader Nat).run
      ⟨data, base, 0⟩ = unsigned order width ⟨data, base, position⟩ := rfl
  rw [runOn, run, unsigned]
  by_cases within : position + width.size ≤ data.length
  · simp [within, eq_comm]
  · simp [within]

theorem run_on_unsigned_eq_ok_iff {order : ByteOrder} {width : Width} {data : Bytes}
    {base value : Nat} :
    (FieldReader.unsigned order width : Reader Nat).runOn data base = .ok value ↔
      width.size ≤ data.length ∧ value = order.decode (data.take width.size) := by
  have run : (FieldReader.unsigned order width : Reader Nat).runOn data base =
      (do FieldReader.seek 0; FieldReader.unsigned order width : Reader Nat).runOn data base := rfl
  rw [run, run_on_seek_unsigned_eq_ok_iff, Nat.zero_add, List.drop_zero]

end Reader

end BinaryImage
