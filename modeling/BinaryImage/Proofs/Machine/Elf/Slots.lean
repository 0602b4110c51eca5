import BinaryImage.Proofs.Elf.Placement
import BinaryImage.Proofs.Machine.Basic

/-!
The slots of the dynamic array on a machine. Parsing walks them from one to the next; their places
in the file are worked out only when an entry is asked for or taken out. The entries of an image
that was opened and edited stand in slots that the file has.
-/

namespace BinaryImage.Elf.Machine

open BinaryImage.Machine

def slotSpan (dynamic : DynamicArray) (entry : DynamicEntry) : Machine Error Span := do
  let offset ← mul entry.index dynamic.entrySize
  let start ← add dynamic.span.start offset
  return ⟨start, dynamic.entrySize⟩

def slots (image : Image) : Machine Error (Option (List Span)) :=
  match image.dynamic with
  | some dynamic => do return some (← dynamic.entries.mapM (slotSpan dynamic))
  | none => return none

/-- The bytes of a slot, made in a buffer that holds one of either class. -/
def encodeSlot (encoding : Encoding) (tag value : Nat) : Machine Error Bytes := do
  let buffer : Bytes := List.replicate 16 0
  let size ← mul 2 encoding.wordSize
  let tagged ← copy buffer 0 encoding.wordSize (encoding.encodeWord tag)
  let filled ← copy tagged encoding.wordSize size (encoding.encodeWord value)
  Machine.slice filled 0 size

structure SlotsFit (image : Image) : Prop where
  size : ∀ dynamic, image.dynamic = some dynamic →
    dynamic.entrySize = image.header.encoding.fileClass.dynamicEntrySize
  start : ∀ dynamic, image.dynamic = some dynamic → ∀ entry ∈ dynamic.entries,
    dynamic.span.start + entry.index * dynamic.entrySize < offsetLimit

theorem slots_fit_of_staged {data : Bytes} {fresh image : Image} (opened : Image.Opened data fresh)
    (staged : Image.Staged data fresh image) : SlotsFit image := by
  constructor
  case size =>
    intro current found
    rw [staged.same]
    obtain ⟨dynamic, original, rfl⟩ := staged.dynamic found
    obtain ⟨_, _, _, size⟩ := opened.entries_decoded original
    exact size
  case start =>
    -- An entry that was taken out has kept its index.
    intro current found entry member
    obtain ⟨dynamic, original, rfl⟩ := staged.dynamic found
    obtain ⟨before, read, same⟩ := List.mem_map.mp member
    have index : entry.index = before.index := by
      rw [← same]
      split <;> rfl
    have slot := opened.slot_inside original read
    have array := opened.region_inside (Image.array_region_mem original)
    have addressable := opened.addressable
    rw [index]
    simp only [DynamicArray.without] at array ⊢
    omega

theorem gives_slot_span {dynamic : DynamicArray} {entry : DynamicEntry}
    (small : dynamic.span.start + entry.index * dynamic.entrySize < offsetLimit) :
    Gives (slotSpan dynamic entry) (.ok (dynamic.entrySpan entry)) := by
  apply gives_ok_bind (gives_mul (by omega))
  exact gives_ok_bind (gives_add small) (gives_pure _)

theorem gives_slots {image : Image} (fit : SlotsFit image) :
    Gives (slots image) (.ok (image.dynamic.map DynamicArray.slots)) := by
  unfold slots
  cases found : image.dynamic with
  | none => exact gives_pure none
  | some dynamic =>
    have each := gives_mapM fun entry member =>
      gives_slot_span (fit.start dynamic found entry member)
    rw [mapM_eq_ok_map fun entry _ => rfl] at each
    exact gives_ok_bind each (gives_pure _)

/-- The buffer holds both words of a slot. -/
theorem gives_encode_slot (encoding : Encoding) (tag value : Nat) :
    Gives (encodeSlot encoding tag value) (.ok (encodeEntry encoding tag value)) := by
  have large : encoding.wordSize + encoding.wordSize ≤ 16 := by
    rw [← encoding.entry_size]
    cases encoding.fileClass <;> decide
  have first := encoding.length_encode_word tag
  have second := encoding.length_encode_word value
  have tagged : Bytes.splice (List.replicate 16 0) 0 (encoding.encodeWord tag) =
      encoding.encodeWord tag ++ (List.replicate 16 0).drop encoding.wordSize := by
    rw [Bytes.splice, List.take_zero, List.nil_append, Nat.zero_add, first]
  have filled : Bytes.splice (encoding.encodeWord tag ++
      (List.replicate 16 0).drop encoding.wordSize) encoding.wordSize (encoding.encodeWord value) =
        encodeEntry encoding tag value ++
          (List.replicate 16 0).drop (encoding.wordSize + encoding.wordSize) := by
    rw [Bytes.splice, List.take_left' first, second, ← first, List.drop_length_add_append,
      List.drop_drop, first]
    rfl
  have length : (encodeEntry encoding tag value).length = 2 * encoding.wordSize := by
    rw [length_encode_entry, encoding.entry_size, Nat.two_mul]
  have whole : (encodeEntry encoding tag value ++
      (List.replicate 16 0).drop (encoding.wordSize + encoding.wordSize)).take
        (2 * encoding.wordSize) = encodeEntry encoding tag value := List.take_left' length
  apply gives_ok_bind (gives_mul (by unfold offsetLimit; omega))
  apply gives_ok_bind (gives_copy (by omega) (by rw [List.length_replicate]; omega))
  rw [tagged]
  refine gives_ok_bind (gives_copy (by omega) ?_) ?_
  · rw [List.length_append, List.length_drop, List.length_replicate]
    omega
  · rw [filled]
    refine (congrArg (Gives _) (congrArg Except.ok whole)).mp (gives_slice_to ?_)
    rw [List.length_append, length]
    exact Nat.le_add_right _ _

end BinaryImage.Elf.Machine
