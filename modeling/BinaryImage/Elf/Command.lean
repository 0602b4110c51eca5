import BinaryImage.Elf.Query

/-!
Edits of an ELF image. Each command measures its new value against the room that the file has for
it, and either stages its edits or fails; what it staged is all that changes.
-/

namespace BinaryImage.Elf

inductive PathTag where
  | rpath
  | runPath
  deriving DecidableEq

def PathTag.tag : PathTag → Nat
  | rpath => Tag.rpath
  | runPath => Tag.runPath

inductive Command where
  | setInterpreter (path : String)
  | setPath (tag : PathTag) (text : String)
  | setSearchPath (searchPath : SearchPath)
  | removeNeeded (name : String)

namespace Image

def stage (image : Image) (edit : Edit) : Image := { image with edits := image.edits.stage edit }

/-- Overwrite the interpreter path; its room is the whole segment. -/
def setInterpreter (image : Image) (path : String) : Except Error Image := do
  let span ← requireSome image.interpreter (.notFound .interpreterSegment)
  return image.stage (← Edit.padded .interpreter span path)

/-- A linker may let one entry point into the tail of the string of another. Such a string is left
alone, for the other entry would change with it. -/
def checkUnshared (image : Image) (data : Bytes) (span : Span) (tag : Nat) :
    Except Error Unit := do
  match image.dynamic with
  | none => return ()
  | some dynamic =>
    let (table, bytes) ← image.dynamicStrings data
    dynamic.stringEntries.forM fun other => do
      let otherSpan ← table.entrySpan bytes other.value
      require (otherSpan == span || !otherSpan.overlaps span)
        (.violation (.dynamicTag (Tag.name tag)) span.start
          (.sharesString (Tag.name other.tag) otherSpan))

/-- Replace the string of the first entry with a search path tag, inside the bytes of the string and
its terminator as the file has them. -/
def setPath (image : Image) (data : Bytes) (path : PathTag) (text : String) :
    Except Error Image := do
  let entry ← requireSome (image.dynamic.bind fun dynamic => dynamic.find? path.tag)
    (.notFound (.dynamicTag (Tag.name path.tag)))
  let (table, bytes) ← image.dynamicStrings data
  let span ← table.entrySpan bytes entry.value
  image.checkUnshared data span path.tag
  return image.stage (← Edit.padded (.dynamicString span.start) span text)

/-- Take an entry out of the array: its slot stays, with a tag that loaders pass over. -/
def removeEntry (image : Image) (dynamic : DynamicArray) (entry : DynamicEntry) : Image :=
  { image.stage ⟨.dynamicEntry entry.index, (dynamic.entrySpan entry).start,
      encodeEntry image.header.encoding Tag.removed 0⟩ with
    dynamic := image.dynamic.map fun current => { current with
      entries := current.entries.map fun item =>
        if item.index = entry.index then item.removed else item } }

def neededNamed (image : Image) (data : Bytes) (dynamic : DynamicArray) (name : String) :
    Except Error (List DynamicEntry) := do
  let named ← (dynamic.findAll Tag.needed).mapM fun entry => do
    return (entry, ← image.dynamicString data entry.value)
  return (named.filter fun (_, text) => text == name).map Prod.fst

def removeNeeded (image : Image) (data : Bytes) (name : String) : Except Error Image := do
  let dynamic ← requireSome image.dynamic (.notFound .dynamicSection)
  let entries ← image.neededNamed data dynamic name
  require (!entries.isEmpty) (.notFound (.neededLibrary name))
  return entries.foldl (fun edited entry => edited.removeEntry dynamic entry) image

def run (image : Image) (data : Bytes) : Command → Except Error Image
  | .setInterpreter path => image.setInterpreter path
  | .setPath tag text => image.setPath data tag text
  | .setSearchPath searchPath => image.setPath data .runPath searchPath.render
  | .removeNeeded name => image.removeNeeded data name

end Image

end BinaryImage.Elf
