import BinaryImage.Pe.Image
import BinaryImage.Proofs.Agreement
import BinaryImage.Proofs.UnsignedRange

/-!
The range of what is read from a PE image. A field of four bytes lies below `wordLimit` and one of
two bytes below `halfLimit`, so sums of a few of them stay far below the largest offset.
-/

namespace BinaryImage

theorem Reader.returns_unsigned (order : ByteOrder) (width : Width) :
    Returns (FieldReader.unsigned order width) fun value => value < 256 ^ width.size := by
  intro cursor value next done
  change unsigned order width cursor = _ at done
  unfold unsigned at done
  split at done
  · next within =>
    cases done
    have length : ((cursor.data.drop cursor.position).take width.size).length = width.size := by
      rw [List.length_take, List.length_drop]
      omega
    have range := order.decode_lt ((cursor.data.drop cursor.position).take width.size)
    rwa [length] at range
  · cases done

namespace Pe

def halfLimit : Nat := 0x10000

def wordLimit : Nat := 0x100000000

theorem returns_half : Reader.Returns half fun value => value < halfLimit :=
  Reader.returns_unsigned .little .half

theorem returns_word : Reader.Returns word fun value => value < wordLimit :=
  Reader.returns_unsigned .little .word

theorem DosHeader.signature_offset_lt {data : Bytes} {dos : DosHeader}
    (parsed : parse data = .ok dos) : dos.signatureOffset < wordLimit := by
  obtain ⟨long, _, _, offsetRead⟩ := parse_eq_ok_iff.mp parsed
  have length : ((data.drop signaturePointer).take 4).length = 4 := by
    rw [List.length_take, List.length_drop]
    simp only [size, signaturePointer] at long ⊢
    omega
  have range := ByteOrder.little.decode_lt ((data.drop signaturePointer).take 4)
  rwa [← offsetRead, length] at range

theorem CoffHeader.returns_read : Reader.Returns read fun header =>
    header.sectionCount < halfLimit ∧ header.optionalHeaderSize < halfLimit := by
  unfold read
  refine Reader.returns_bind fun machine => ?_
  refine Reader.returns_bind_of returns_half fun sectionCount counted => ?_
  iterate 3 refine Reader.returns_bind fun _ => ?_
  refine Reader.returns_bind_of returns_half fun optionalHeaderSize sized => ?_
  refine Reader.returns_bind fun characteristics => ?_
  exact Reader.returns_pure ⟨counted, sized⟩

theorem OptionalHeader.returns_read_fixed (kind : OptionalKind) (magic countOffset : Nat) :
    Reader.Returns (readFixed kind magic countOffset) fun header =>
      header.directoryCount < wordLimit := by
  unfold readFixed
  iterate 13 refine Reader.returns_bind fun _ => ?_
  refine Reader.returns_bind_of returns_word fun directoryCount counted => ?_
  exact Reader.returns_pure counted

namespace Section

structure Ranged (item : Section) : Prop where
  virtualSize : item.virtualSize < wordLimit
  virtualAddress : item.virtualAddress < wordLimit
  rawSize : item.rawSize < wordLimit
  rawOffset : item.rawOffset < wordLimit

theorem returns_read (name : String) : Reader.Returns (read name) Ranged := by
  unfold read
  refine Reader.returns_bind fun _ => ?_
  refine Reader.returns_bind_of returns_word fun virtualSize sizeRange => ?_
  refine Reader.returns_bind_of returns_word fun virtualAddress addressRange => ?_
  refine Reader.returns_bind_of returns_word fun rawSize rawSizeRange => ?_
  refine Reader.returns_bind_of returns_word fun rawOffset rawOffsetRange => ?_
  iterate 5 refine Reader.returns_bind fun _ => ?_
  exact Reader.returns_pure ⟨sizeRange, addressRange, rawSizeRange, rawOffsetRange⟩

theorem Ranged.memory_size {item : Section} (ranged : item.Ranged) :
    item.memorySize < wordLimit := by
  unfold memorySize
  split
  · exact ranged.rawSize
  · exact ranged.virtualSize

/-- No sum of two words reaches the limit of offsets, so raw data is not clipped, wherever it is. -/
theorem Ranged.raw_fits {item : Section} (ranged : item.Ranged) :
    item.rawSpan.start + item.rawSpan.length < offsetLimit := by
  have place := ranged.rawOffset
  have size := ranged.rawSize
  unfold wordLimit at place size
  unfold rawSpan
  split
  · simp only [offsetLimit]
    omega
  · simp only [offsetLimit]
    omega

end Section

namespace Image

/-- The fields that place the sections of an image hold words. -/
theorem ranged_of_parse_sections {data : Bytes} {headers : Headers} {sections : List Section}
    (read : parseSections data headers = .ok sections) :
    ∀ item ∈ sections, item.Ranged := by
  intro item member
  obtain ⟨bytes, _, all⟩ := bind_eq_ok_iff.mp read
  obtain ⟨index, _, one⟩ := mem_of_mapM_eq_ok all member
  exact Reader.run_on_returns (Section.returns_read _) (read_record_eq_ok_iff.mp one)

/-- The fields of an image that was read hold words. -/
theorem ranged_of_parse {data : Bytes} {image : Image} (parsed : parse data = .ok image) :
    ∀ item ∈ image.sections, item.Ranged := by
  obtain ⟨_, _, _, _, _, read, _, _, rfl⟩ := parse_eq_ok_iff.mp parsed
  exact ranged_of_parse_sections read

end Image

end Pe

end BinaryImage
