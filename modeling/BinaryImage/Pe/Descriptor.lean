import BinaryImage.Pe.Section

/-!
Import and delay-load descriptors. Both tables hold records of a fixed size up to one of zeros
alone; the stated size of their directory plays no part. Of what a descriptor refers to, only the
DLL name is looked up.
-/

namespace BinaryImage.Pe

structure ImportDescriptor where
  offset : Nat
  lookupTable : Nat
  timestamp : Nat
  forwarderChain : Nat
  nameRva : Nat
  addressTable : Nat
  /-- The DLL name in the file, its terminator included. -/
  name : Span
  deriving DecidableEq

structure DelayLoadDescriptor where
  offset : Nat
  attributes : Nat
  nameRva : Nat
  moduleHandle : Nat
  addressTable : Nat
  nameTable : Nat
  boundAddressTable : Nat
  unloadTable : Nat
  timestamp : Nat
  /-- The DLL name in the file, its terminator included. -/
  name : Span
  deriving DecidableEq

def resolveName (data : Bytes) (sections : List Section) (rva descriptor : Nat) :
    Except Error Span := do
  require (rva != 0) (.malformedPe descriptor .namelessDescriptor)
  let start ← fileOffset sections rva
  require (start ≤ data.length) (.malformedPe start .nameOutsideFile)
  let length ← requireSome (Bytes.terminator? (data.drop start))
    (.malformedPe start .unterminatedName)
  return ⟨start, length + 1⟩

/-- The records from `offset` on, each with its place, up to the first of zeros alone. `room` bounds
their number; a walk that uses it up has run out of the file. -/
def walk (data : Bytes) (size : Nat) : (room offset : Nat) → Except Nat (List (Nat × Bytes))
  | 0, offset => .error offset
  | room + 1, offset =>
    match data.slice? ⟨offset, size⟩ with
    | none => .error offset
    | some record =>
      if record.all (· == 0) then .ok []
      else (walk data size room (offset + size)).map ((offset, record) :: ·)

/-- The records of a descriptor table. A walk of more steps than the file has bytes has left the
file. -/
def descriptorRecords (data : Bytes) (sections : List Section) (directory : DataDirectory)
    (size : Nat) : Except Error (List (Nat × Bytes)) := do
  let start ← fileOffset sections directory.address
  match walk data size (data.length + 1) start with
  | .ok records => return records
  | .error offset => .error (.malformedPe start (.unterminatedDescriptors offset))

/-- What tells one kind of descriptors from another: the data directory that leads to the table, and
the record, which holds the address of a DLL name. The name itself is filled in. -/
structure DescriptorKind (Descriptor : Type) where
  directory : Nat
  recordSize : Nat
  read : {m : Type → Type} → [FieldReader m] → (offset : Nat) → m Descriptor
  offset : Descriptor → Nat
  nameRva : Descriptor → Nat
  name : Descriptor → Span
  named : Descriptor → Span → Descriptor
  offset_named : ∀ descriptor span, offset (named descriptor span) = offset descriptor
  name_rva_named : ∀ descriptor span, nameRva (named descriptor span) = nameRva descriptor
  name_named : ∀ descriptor span, name (named descriptor span) = span
  named_named : ∀ descriptor a b, named (named descriptor a) b = named descriptor b

namespace DescriptorKind

variable {Descriptor : Type} (kind : DescriptorKind Descriptor)

def parse (data : Bytes) (sections : List Section) (offset : Nat) (record : Bytes) :
    Except Error Descriptor := do
  let descriptor ← readRecord (kind.read offset) record offset
  return kind.named descriptor (← resolveName data sections (kind.nameRva descriptor) offset)

def parseAll (data : Bytes) (sections : List Section) (directory : DataDirectory) :
    Except Error (List Descriptor) := do
  let records ← descriptorRecords data sections directory kind.recordSize
  records.mapM fun (offset, record) => kind.parse data sections offset record

end DescriptorKind

namespace ImportDescriptor

def recordSize : Nat := 20

def read {m : Type → Type} [FieldReader m] (offset : Nat) : m ImportDescriptor := do
  let lookupTable ← word
  let timestamp ← word
  let forwarderChain ← word
  let nameRva ← word
  let addressTable ← word
  return { offset, lookupTable, timestamp, forwarderChain, nameRva, addressTable, name := ⟨0, 0⟩ }

def kind : DescriptorKind ImportDescriptor where
  directory := DataDirectory.imports
  recordSize := recordSize
  read := read
  offset := offset
  nameRva := nameRva
  name := name
  named descriptor name := { descriptor with name }
  offset_named _ _ := rfl
  name_rva_named _ _ := rfl
  name_named _ _ := rfl
  named_named _ _ _ := rfl

def parseAll (data : Bytes) (sections : List Section) (directory : DataDirectory) :
    Except Error (List ImportDescriptor) := kind.parseAll data sections directory

end ImportDescriptor

namespace DelayLoadDescriptor

def recordSize : Nat := 32

def read {m : Type → Type} [FieldReader m] (offset : Nat) : m DelayLoadDescriptor := do
  let attributes ← word
  let nameRva ← word
  let moduleHandle ← word
  let addressTable ← word
  let nameTable ← word
  let boundAddressTable ← word
  let unloadTable ← word
  let timestamp ← word
  return { offset, attributes, nameRva, moduleHandle, addressTable, nameTable, boundAddressTable,
           unloadTable, timestamp, name := ⟨0, 0⟩ }

def kind : DescriptorKind DelayLoadDescriptor where
  directory := DataDirectory.delayImports
  recordSize := recordSize
  read := read
  offset := offset
  nameRva := nameRva
  name := name
  named descriptor name := { descriptor with name }
  offset_named _ _ := rfl
  name_rva_named _ _ := rfl
  name_named _ _ := rfl
  named_named _ _ _ := rfl

def parseAll (data : Bytes) (sections : List Section) (directory : DataDirectory) :
    Except Error (List DelayLoadDescriptor) := kind.parseAll data sections directory

end DelayLoadDescriptor

end BinaryImage.Pe
