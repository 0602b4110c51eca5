import BinaryImage.Elf.Image
import BinaryImage.Pe.Image

/-!
What both formats can say of their headers and sections, in common terms.
-/

namespace BinaryImage

structure HeaderSummary where
  format : Format
  entry : Nat
  machine : Nat
  is64 : Bool
  isExecutable : Bool
  isLoadable : Bool
  deriving DecidableEq

def Elf.FileHeader.summary (header : Elf.FileHeader) : HeaderSummary where
  format := .elf
  entry := header.entry
  machine := header.machine
  is64 := header.is64
  isExecutable := header.isExecutable
  isLoadable := header.isLoadable

def Pe.Headers.summary (headers : Pe.Headers) : HeaderSummary where
  format := .pe
  entry := headers.optional.entry
  machine := headers.coff.machine
  is64 := headers.is64
  isExecutable := headers.isExecutable
  isLoadable := headers.isLoadable

structure SectionSummary where
  name : String
  address : Nat
  size : Nat
  offset : Nat
  flags : Nat
  fileSpan : Span
  deriving DecidableEq

def Elf.Section.summary (item : Elf.Section) : SectionSummary where
  name := item.name
  address := item.address
  size := item.size
  offset := item.offset
  flags := item.flags
  fileSpan := item.fileSpan

def Pe.Section.summary (item : Pe.Section) : SectionSummary where
  name := item.name
  address := item.virtualAddress
  size := item.memorySize
  offset := item.rawOffset
  flags := item.characteristics
  fileSpan := item.rawSpan

/-- Section 0 of an ELF file is no section of its own. -/
def Elf.Image.sectionSummaries (image : Elf.Image) : List SectionSummary :=
  (image.sections.drop 1).map Elf.Section.summary

def Pe.Image.sectionSummaries (image : Pe.Image) : List SectionSummary :=
  image.sections.map Pe.Section.summary

end BinaryImage
