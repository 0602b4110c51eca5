import BinaryImage.Pe.Image

/-!
Renaming of DLLs. A new name has the bytes of the old name and its terminator for room; no
address in a descriptor changes.
-/

namespace BinaryImage.Pe

inductive DescriptorTable where
  | imports
  | delayImports
  deriving DecidableEq

structure Rename where
  table : DescriptorTable
  index : Nat
  name : String

namespace Image

def nameSpan? (image : Image) : DescriptorTable → Nat → Option Span
  | .imports, index => image.imports[index]?.map ImportDescriptor.name
  | .delayImports, index => image.delayImports[index]?.map DelayLoadDescriptor.name

def soughtDescriptor : DescriptorTable → Nat → Sought
  | .imports, index => .importDescriptor index
  | .delayImports, index => .delayLoadDescriptor index

/-- A name that shares bytes with a different name is left alone. -/
def checkUnshared (image : Image) (span : Span) : Except Error Unit :=
  image.nameSpans.forM fun other =>
    require (other == span || !other.overlaps span)
      (.violation (.edit (.dllName span.start)) span.start (.sharesName other))

def rename (image : Image) (request : Rename) : Except Error Image := do
  let span ← requireSome (image.nameSpan? request.table request.index)
    (.notFound (soughtDescriptor request.table request.index))
  image.checkUnshared span
  let edit ← Edit.padded (.dllName span.start) span request.name
  return { image with edits := image.edits.stage edit }

end Image

end BinaryImage.Pe
