import BinaryImage.Layout.Region
import BinaryImage.Pe.Image

/-!
Layout rules of PE images: alignments are powers of two, the headers lie inside the file, section
addresses are aligned, raw data lies inside the file, apart from other raw data and from the
headers, and no two sections share an address.
-/

namespace BinaryImage.Pe.Image

open Layout

def headersSpan (image : Image) : Span :=
  ⟨0, image.headers.sectionTableOffset + image.sections.length * Section.recordSize⟩

def checkAlignment (image : Image) (field : AlignmentField) (value : Nat) : Except Error Unit :=
  require (isPowerOfTwo value)
    (.violation .optionalHeader image.headers.optionalOffset (.notPowerOfTwo field value))

def checkSection (image : Image) (item : Section) : Except Error Unit := do
  let alignment := image.headers.optional.sectionAlignment
  require (item.virtualAddress % alignment == 0)
    (.violation (.peSection item.name) item.rawOffset
      (.unalignedAddress item.virtualAddress alignment))
  checkInside image.fileLength ⟨.peSection item.name, item.rawSpan⟩

def rawRegions (image : Image) : List Region :=
  ⟨.peHeaders, image.headersSpan⟩ ::
    image.sections.map fun item => ⟨.peSection item.name, item.rawSpan⟩

def memoryRegions (image : Image) : List Region :=
  image.sections.map fun item => ⟨.peSection item.name, item.memorySpan⟩

def validate (image : Image) : Except Error Unit := do
  let optional := image.headers.optional
  image.checkAlignment .sections optional.sectionAlignment
  image.checkAlignment .file optional.fileAlignment
  checkInside image.fileLength ⟨.peHeaders, image.headersSpan⟩
  checkInside image.fileLength ⟨.declaredHeaders, ⟨0, optional.headersSize⟩⟩
  image.sections.forM image.checkSection
  checkDisjoint .rawData noExcuse image.rawRegions
  checkDisjoint .addresses noExcuse image.memoryRegions

end BinaryImage.Pe.Image
