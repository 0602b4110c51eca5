import BinaryImage.Pe.Image

/-!
Questions to a PE image. Names are read from the bytes of the file with the staged edits laid
over them, so an answer is what the written file will say.
-/

namespace BinaryImage.Pe.Image

def nameIn (image : Image) (data : Bytes) (span : Span) : Except Error String := do
  let bytes ← requireSome (data.slice? span) (.malformedPe span.start .nameOutsideFile)
  return Text.Utf8.decode (Bytes.beforeNul (image.edits.overlay bytes span))

def importedDlls (image : Image) (data : Bytes) : Except Error (List String) :=
  image.imports.mapM fun descriptor => image.nameIn data descriptor.name

def delayLoadedDlls (image : Image) (data : Bytes) : Except Error (List String) :=
  image.delayImports.mapM fun descriptor => image.nameIn data descriptor.name

def needed (image : Image) (data : Bytes) : Except Error (List String) := do
  return (← image.importedDlls data) ++ (← image.delayLoadedDlls data)

def isDll (image : Image) : Bool := image.headers.coff.isDll

def hasDebugDirectory (image : Image) : Bool :=
  (image.headers.optional.directory? DataDirectory.debug).isSome

def hasDebugSymbols (image : Image) : Bool :=
  image.hasDebugDirectory ||
    image.sections.any fun item => ".debug".toList.isPrefixOf item.name.toList

def platform (image : Image) : Platform where
  operatingSystem := .windows
  format := .pe
  isa :=
    match image.headers.coff.machine with
    | 0x14c => .x86
    | 0x1c4 => .arm
    | 0x8664 => .x64
    | 0xaa64 => .aarch64
    | _ => .unknown

end BinaryImage.Pe.Image
