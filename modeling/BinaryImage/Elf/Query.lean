import BinaryImage.Elf.Image
import BinaryImage.SearchPath

/-!
Questions to an ELF image. Strings are read from the bytes of the file with the staged edits
laid over them, so an answer is what the written file will say.
-/

namespace BinaryImage.Elf.Image

/-- The bytes of a span as they will be written. -/
def view (image : Image) (data : Bytes) (span : Span) (part : Part) : Except Error Bytes := do
  return image.edits.overlay (← slice data span part) span

def dynamicStrings (image : Image) (data : Bytes) : Except Error (StringTable × Bytes) := do
  let table ← requireSome (image.dynamic.bind DynamicArray.strings) (.notFound .dynamicStrings)
  return (table, ← slice data table.span .dynamicStrings)

def dynamicString (image : Image) (data : Bytes) (index : Nat) : Except Error String := do
  let (table, _) ← image.dynamicStrings data
  let bytes ← image.view data table.span .dynamicStrings
  table.get bytes index

def taggedString (image : Image) (data : Bytes) (tag : Nat) : Except Error (Option String) :=
  match image.dynamic.bind fun dynamic => dynamic.find? tag with
  | some entry => do return some (← image.dynamicString data entry.value)
  | none => .ok none

def rpath (image : Image) (data : Bytes) : Except Error (Option String) :=
  image.taggedString data Tag.rpath

def runPath (image : Image) (data : Bytes) : Except Error (Option String) :=
  image.taggedString data Tag.runPath

def soName (image : Image) (data : Bytes) : Except Error (Option String) :=
  image.taggedString data Tag.soName

def interpreterPath (image : Image) (data : Bytes) : Except Error (Option String) :=
  match image.interpreter with
  | some span => do
    let bytes ← image.view data span .interpreter
    return some (Text.Utf8.decode (Bytes.beforeNul bytes))
  | none => .ok none

def needed (image : Image) (data : Bytes) : Except Error (List String) :=
  match image.dynamic with
  | some dynamic =>
    (dynamic.findAll Tag.needed).mapM fun entry => image.dynamicString data entry.value
  | none => .ok []

def searchPath (image : Image) (data : Bytes) : Except Error SearchPath := do
  match ← image.runPath data with
  | some text => SearchPath.parse text
  | none =>
    match ← image.rpath data with
    | some text => SearchPath.parse text
    | none => return SearchPath.empty

def findSection? (image : Image) (name : String) : Option Section :=
  image.sections.find? fun item => item.name == name

def hasDebugSymbols (image : Image) : Bool :=
  image.sections.any fun item => ".debug".toList.isPrefixOf item.name.toList

def platform (image : Image) : Platform where
  operatingSystem :=
    match image.header.ident.osAbi with
    | 0 | 3 => .linux
    | _ => .unknown
  format := .elf
  isa :=
    match image.header.machine with
    | 3 => .x86
    | 40 => .arm
    | 62 => .x64
    | 183 => .aarch64
    | _ => .unknown

end BinaryImage.Elf.Image
