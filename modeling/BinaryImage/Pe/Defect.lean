import BinaryImage.Text.Hex

/-!
What can be wrong with the bytes of a PE image, and how each defect is told.
-/

namespace BinaryImage.Pe

inductive Defect where
  | overrun
  | badDosMagic (magic : Nat)
  | headersOutsideFile
  | badSignature (signature : Nat)
  | optionalHeaderOutsideFile (size : Nat)
  | unsupportedOptionalMagic (magic : Nat)
  | tooManyDirectories (count size : Nat)
  | sectionTableOutsideFile (count : Nat)
  | unmappedRva (rva : Nat)
  | ambiguousRva (rva : Nat) (first second : String)
  | uninitializedRva (rva : Nat) (name : String)
  | unterminatedDescriptors (offset : Nat)
  | namelessDescriptor
  | nameOutsideFile
  | unterminatedName
  deriving DecidableEq

open Text in
def Defect.message : Defect → String
  | .overrun => "structure runs past its declared size"
  | .badDosMagic magic => "bad DOS magic " ++ hexPadded 4 magic
  | .headersOutsideFile => "PE and COFF headers run past the end of the file"
  | .badSignature signature => "bad PE signature " ++ hexPadded 8 signature
  | .optionalHeaderOutsideFile size =>
    "optional header of " ++ hex size ++ " bytes exceeds the file"
  | .unsupportedOptionalMagic magic =>
    "unsupported optional header magic " ++ hexPadded 4 magic
  | .tooManyDirectories count size =>
    s!"{count} data directories do not fit in " ++ hex size ++ " bytes"
  | .sectionTableOutsideFile count => s!"section table of {count} entries exceeds the file"
  | .unmappedRva rva => "RVA " ++ hex rva ++ " is not inside any section"
  | .ambiguousRva rva first second =>
    "RVA " ++ hex rva ++ " is inside both " ++ first ++ " and " ++ second
  | .uninitializedRva rva name =>
    "RVA " ++ hex rva ++ " falls in the uninitialized part of " ++ name
  | .unterminatedDescriptors offset =>
    "descriptor table is not terminated before " ++ hex offset
  | .namelessDescriptor => "descriptor has no DLL name"
  | .nameOutsideFile => "DLL name lies outside the file"
  | .unterminatedName => "DLL name is not NUL-terminated"

end BinaryImage.Pe
