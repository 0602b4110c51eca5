import BinaryImage.Error

/-!
Reading and writing file contents by span. An access past the end is told as a truncation that
names the clipped stop of the span.
-/

namespace BinaryImage.Bytes

def read (data : Bytes) (span : Span) : Except Error Bytes :=
  requireSome (data.slice? span) (.truncated span.clippedStop data.length)

def write (data : Bytes) (start : Nat) (patch : Bytes) : Except Error Bytes :=
  requireSome (data.write? start patch)
    (.truncated (Span.clippedStop ⟨start, patch.length⟩) data.length)

end BinaryImage.Bytes
