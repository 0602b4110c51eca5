import BinaryImage.Elf.StringTable

/-!
The dynamic array: tagged words, up to the first null tag or to the end of its span. Some of the
values name strings of the dynamic string table.
-/

namespace BinaryImage.Elf

namespace Tag

def null : Nat := 0
def needed : Nat := 1
def stringTable : Nat := 5
def stringTableSize : Nat := 10
def soName : Nat := 14
def rpath : Nat := 15
def runPath : Nat := 29

-- A null tag over a removed entry would hide every later one. This tag lies in the range for
-- operating systems, and loaders pass over it.
def removed : Nat := 0x6000000d

def name (tag : Nat) : String :=
  if tag = null then "NULL"
  else if tag = needed then "NEEDED"
  else if tag = stringTable then "STRTAB"
  else if tag = stringTableSize then "STRSZ"
  else if tag = soName then "SONAME"
  else if tag = rpath then "RPATH"
  else if tag = runPath then "RUNPATH"
  else if tag = removed then "REMOVED"
  else "OTHER"

/-- The value is a place in the dynamic string table. -/
def namesString (tag : Nat) : Bool :=
  tag == needed || tag == soName || tag == rpath || tag == runPath

end Tag

structure DynamicEntry where
  index : Nat
  tag : Nat
  value : Nat
  deriving DecidableEq

def DynamicEntry.removed (entry : DynamicEntry) : DynamicEntry :=
  { entry with tag := Tag.removed, value := 0 }

def DynamicEntry.namesString (entry : DynamicEntry) : Bool := Tag.namesString entry.tag

inductive StringSource where
  /-- By its address, through the loaded segment that holds it. -/
  | segment (address index : Nat)
  | linked (index : Nat)
  deriving DecidableEq

structure DynamicArray where
  span : Span
  entrySize : Nat
  /-- The entries before the first null tag. -/
  entries : List DynamicEntry
  strings : Option StringTable
  stringSource : Option StringSource
  deriving DecidableEq

namespace DynamicArray

def entryIn (encoding : Encoding) (bytes : Bytes) (index : Nat) : DynamicEntry :=
  let start := index * encoding.fileClass.dynamicEntrySize
  ⟨index, encoding.wordAt bytes start, encoding.wordAt bytes (start + encoding.wordSize)⟩

/-- Walk the whole slots of `bytes`; a broken last slot is left out. -/
def decode (encoding : Encoding) (bytes : Bytes) (span : Span) : DynamicArray :=
  let entrySize := encoding.fileClass.dynamicEntrySize
  let slots := (List.range (bytes.length / entrySize)).map (entryIn encoding bytes)
  { span, entrySize
    entries := slots.takeWhile fun entry => entry.tag != Tag.null
    strings := none
    stringSource := none }

def entrySpan (dynamic : DynamicArray) (entry : DynamicEntry) : Span :=
  ⟨dynamic.span.start + entry.index * dynamic.entrySize, dynamic.entrySize⟩

def slots (dynamic : DynamicArray) : List Span := dynamic.entries.map dynamic.entrySpan

def find? (dynamic : DynamicArray) (tag : Nat) : Option DynamicEntry :=
  dynamic.entries.find? fun entry => entry.tag == tag

def findAll (dynamic : DynamicArray) (tag : Nat) : List DynamicEntry :=
  dynamic.entries.filter fun entry => entry.tag == tag

def stringEntries (dynamic : DynamicArray) : List DynamicEntry :=
  dynamic.entries.filter DynamicEntry.namesString

def stringTableAddress? (dynamic : DynamicArray) : Option Nat :=
  (dynamic.find? Tag.stringTable).map DynamicEntry.value

def stringTableSize? (dynamic : DynamicArray) : Option Nat :=
  (dynamic.find? Tag.stringTableSize).map DynamicEntry.value

end DynamicArray

def encodeEntry (encoding : Encoding) (tag value : Nat) : Bytes :=
  encoding.encodeWord tag ++ encoding.encodeWord value

end BinaryImage.Elf
