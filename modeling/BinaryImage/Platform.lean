/-!
What an executable was built for, as far as its headers tell.
-/

namespace BinaryImage

inductive Format where
  | elf
  | pe
  | unknown
  deriving DecidableEq

def Format.name : Format → String
  | .elf => "ELF"
  | .pe => "PE"
  | .unknown => "unknown"

inductive OperatingSystem where
  | linux
  | windows
  | unknown
  deriving DecidableEq

def OperatingSystem.name : OperatingSystem → String
  | .linux => "Linux"
  | .windows => "Windows"
  | .unknown => "Unknown"

inductive Isa where
  | x86
  | x64
  | aarch64
  | arm
  | unknown
  deriving DecidableEq

def Isa.name : Isa → String
  | .x86 => "X86_32"
  | .x64 => "X86_64"
  | .aarch64 => "Aarch64"
  | .arm => "Arm"
  | .unknown => "Unknown"

structure Platform where
  operatingSystem : OperatingSystem
  format : Format
  isa : Isa
  deriving DecidableEq

namespace Platform

def isPartial (platform : Platform) : Bool :=
  platform.operatingSystem == .unknown || platform.format == .unknown || platform.isa == .unknown

def hasSearchPath (platform : Platform) : Bool := platform.format == .elf

def render (platform : Platform) : String :=
  platform.operatingSystem.name ++ "/" ++ platform.format.name ++ "/" ++ platform.isa.name

end Platform

end BinaryImage
