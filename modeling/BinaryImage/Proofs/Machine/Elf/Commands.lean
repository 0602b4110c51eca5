import BinaryImage.Elf.Command
import BinaryImage.Proofs.Machine.Elf.Layout
import BinaryImage.Proofs.Machine.Elf.Queries
import BinaryImage.Proofs.Machine.Elf.Slots

/-!
Edits of an ELF image on a machine. New texts are measured before they are copied into their room,
and what is staged over a slot or a string is as long as its place.
-/

namespace BinaryImage.Elf.Machine

open BinaryImage.Machine

def setInterpreter (image : Image) (path : String) : Machine Error Image := do
  let span ← plain (requireSome image.interpreter (.notFound .interpreterSegment))
  let patch ← padded .interpreter span path
  let edits ← stage image.edits patch
  return { image with edits }

def checkUnshared (image : Image) (data : Bytes) (span : Span) (tag : Nat) :
    Machine Error Unit :=
  match image.dynamic with
  | none => return ()
  | some dynamic => do
    let (table, bytes) ← plain (image.dynamicStrings data)
    dynamic.stringEntries.forM fun other => do
      let otherSpan ← entrySpan table bytes other.value
      plain (require (otherSpan == span || !otherSpan.overlaps span)
        (.violation (.dynamicTag (Tag.name tag)) span.start
          (.sharesString (Tag.name other.tag) otherSpan)))

def setPath (image : Image) (data : Bytes) (path : PathTag) (text : String) :
    Machine Error Image := do
  let entry ← plain (requireSome (image.dynamic.bind fun dynamic => dynamic.find? path.tag)
    (.notFound (.dynamicTag (Tag.name path.tag))))
  let (table, bytes) ← plain (image.dynamicStrings data)
  let span ← entrySpan table bytes entry.value
  checkUnshared image data span path.tag
  let patch ← padded (.dynamicString span.start) span text
  let edits ← stage image.edits patch
  return { image with edits }

def slotsNamed (image : Image) (data : Bytes) (dynamic : DynamicArray) (name : String) :
    List DynamicEntry → Machine Error (List (DynamicEntry × Span))
  | [] => return []
  | entry :: rest => do
    let text ← dynamicString image data entry.value
    if text == name then
      let span ← slotSpan dynamic entry
      let later ← slotsNamed image data dynamic name rest
      return (entry, span) :: later
    else
      slotsNamed image data dynamic name rest

def removeSlot (encoding : Encoding) (image : Image) (slot : DynamicEntry × Span) :
    Machine Error Image := do
  let (entry, span) := slot
  let bytes ← encodeSlot encoding Tag.removed 0
  let edits ← stage image.edits ⟨.dynamicEntry entry.index, span, bytes⟩
  return { image with
    edits
    dynamic := image.dynamic.map fun current => { current with
      entries := current.entries.map fun item =>
        if item.index = entry.index then item.removed else item } }

def removeNeeded (image : Image) (data : Bytes) (name : String) : Machine Error Image := do
  let dynamic ← plain (requireSome image.dynamic (.notFound .dynamicSection))
  let slots ← slotsNamed image data dynamic name (dynamic.findAll Tag.needed)
  plain (require (!slots.isEmpty) (.notFound (.neededLibrary name)))
  slots.foldlM (removeSlot image.header.encoding) image

def run (image : Image) (data : Bytes) : Command → Machine Error Image
  | .setInterpreter path => setInterpreter image path
  | .setPath tag text => setPath image data tag text
  | .setSearchPath searchPath => setPath image data .runPath searchPath.render
  | .removeNeeded name => removeNeeded image data name

def text? : Command → Option String
  | .setInterpreter path => some path
  | .setPath _ text => some text
  | .setSearchPath searchPath => some searchPath.render
  | .removeNeeded _ => none

/-- Edits move no table. -/
theorem tables_fit_of_staged {data : Bytes} {fresh image : Image}
    (opened : Image.Opened data fresh) (staged : Image.Staged data fresh image) :
    TablesFit image := by
  have fit := tables_fit_of_parse opened.parsed
  rw [staged.same]
  exact ⟨fit.segments, fit.sections⟩

variable {image : Image} {data : Bytes}

theorem gives_set_interpreter {path : String}
    (small : (Text.Utf8.encode path).length < allocationLimit) :
    Gives (setInterpreter image path) (image.setInterpreter path) := by
  apply gives_bind (gives_plain _)
  intro span _
  apply gives_map_bind (gives_padded small)
  intro edit _
  exact gives_ok_bind (gives_stage _ edit) (gives_pure _)

section Strings

variable (allocated : data.length < allocationLimit)
include allocated

theorem fits_of_dynamic_strings {table : StringTable} {bytes : Bytes}
    (read : image.dynamicStrings data = .ok (table, bytes)) :
    table.span.start + bytes.length < offsetLimit :=
  fits_of_slice allocated
    (slice_eq_ok_iff.mpr (Image.dynamic_strings_eq_ok_iff.mp read).2 :
      Elf.slice data table.span .dynamicStrings = .ok bytes)

theorem gives_check_unshared (span : Span) (tag : Nat) :
    Gives (checkUnshared image data span tag) (image.checkUnshared data span tag) := by
  unfold checkUnshared Image.checkUnshared
  cases image.dynamic with
  | none => exact gives_pure ()
  | some dynamic =>
    apply gives_bind (gives_plain _)
    intro found read
    obtain ⟨table, bytes⟩ := found
    refine gives_forM fun other _ => ?_
    refine gives_bind ?_ fun otherSpan _ => ?_
    · exact gives_entry_span (fits_of_dynamic_strings allocated read) other.value
    · exact gives_plain _

theorem gives_set_path {path : PathTag} {text : String}
    (small : (Text.Utf8.encode text).length < allocationLimit) :
    Gives (setPath image data path text) (image.setPath data path text) := by
  apply gives_bind (gives_plain _)
  intro entry _
  apply gives_bind (gives_plain _)
  intro found read
  obtain ⟨table, bytes⟩ := found
  refine gives_bind ?_ fun span _ => ?_
  · exact gives_entry_span (fits_of_dynamic_strings allocated read) entry.value
  · apply gives_bind (gives_check_unshared allocated span path.tag)
    intro _ _
    apply gives_map_bind (gives_padded small)
    intro edit _
    exact gives_ok_bind (gives_stage _ edit) (gives_pure _)

end Strings

section Removal

def namedAmong (image : Image) (data : Bytes) (name : String) (entries : List DynamicEntry) :
    Except Error (List DynamicEntry) := do
  let named ← entries.mapM fun entry => do
    return (entry, ← image.dynamicString data entry.value)
  return (named.filter fun (_, text) => text == name).map Prod.fst

theorem named_among_cons (name : String) (entry : DynamicEntry) (rest : List DynamicEntry) :
    namedAmong image data name (entry :: rest) = do
      let text ← image.dynamicString data entry.value
      let later ← namedAmong image data name rest
      return if text == name then entry :: later else later := by
  unfold namedAmong
  rw [List.mapM_cons]
  cases image.dynamicString data entry.value with
  | error cause => rfl
  | ok text =>
    cases rest.mapM fun other : DynamicEntry => do
        return (other, ← image.dynamicString data other.value) with
    | error cause => rfl
    | ok others =>
      have filtered : ((entry, text) :: others).filter (fun (_, text) => text == name) =
          if text == name then (entry, text) :: others.filter (fun (_, text) => text == name)
          else others.filter fun (_, text) => text == name := List.filter_cons
      change Except.ok _ = Except.ok _
      rw [filtered]
      split <;> rfl

/-- The slots are those of the entries that the plain search keeps. -/
theorem gives_slots_named (allocated : data.length < allocationLimit) {dynamic : DynamicArray}
    (name : String) {entries : List DynamicEntry}
    (small : ∀ entry ∈ entries,
      dynamic.span.start + entry.index * dynamic.entrySize < offsetLimit) :
    Gives (slotsNamed image data dynamic name entries)
      ((namedAmong image data name entries).map fun named =>
        named.map fun entry => (entry, dynamic.entrySpan entry)) := by
  induction entries with
  | nil => exact gives_pure []
  | cons entry rest ih =>
    obtain ⟨here, later⟩ := List.forall_mem_cons.mp small
    rw [slotsNamed, named_among_cons, map_of_bind]
    apply gives_bind (gives_dynamic_string allocated entry.value)
    intro text _
    rw [map_of_bind]
    split
    · apply gives_ok_bind (gives_slot_span here)
      apply gives_map_bind (ih later)
      intro named _
      exact gives_pure _
    · have same : ∀ named : Except Error (List DynamicEntry),
          (named >>= fun later => (pure later : Except Error (List DynamicEntry)).map fun later =>
            later.map fun entry => (entry, dynamic.entrySpan entry)) =
              named.map fun later => later.map fun entry => (entry, dynamic.entrySpan entry) := by
        intro named
        cases named <;> rfl
      rw [same]
      exact ih later

theorem gives_remove_slot {dynamic : DynamicArray} (entry : DynamicEntry)
    (size : dynamic.entrySize = image.header.encoding.fileClass.dynamicEntrySize) :
    Gives (removeSlot image.header.encoding image (entry, dynamic.entrySpan entry))
      (.ok (image.removeEntry dynamic entry)) := by
  have patch : Edit.patch ⟨.dynamicEntry entry.index, (dynamic.entrySpan entry).start,
      encodeEntry image.header.encoding Tag.removed 0⟩ =
        ⟨.dynamicEntry entry.index, dynamic.entrySpan entry,
          encodeEntry image.header.encoding Tag.removed 0⟩ := by
    rw [Edit.patch, Edit.span, length_encode_entry, ← size]
    rfl
  apply gives_ok_bind (gives_encode_slot _ _ _)
  rw [← patch]
  exact gives_ok_bind (gives_stage _ _) (gives_pure _)

/-- Taking out one slot after the other. -/
theorem gives_remove_slots {dynamic : DynamicArray} (entries : List DynamicEntry)
    (size : dynamic.entrySize = image.header.encoding.fileClass.dynamicEntrySize) :
    Gives ((entries.map fun entry => (entry, dynamic.entrySpan entry)).foldlM
        (removeSlot image.header.encoding) image)
      (.ok (entries.foldl (fun edited entry => edited.removeEntry dynamic entry) image)) := by
  have kept : ∀ edited : Image, edited.header = image.header → ∀ entry ∈ entries,
      Gives (removeSlot image.header.encoding edited (entry, dynamic.entrySpan entry))
          (.ok (edited.removeEntry dynamic entry)) ∧
        (edited.removeEntry dynamic entry).header = image.header := by
    intro edited same entry _
    rw [← same] at size ⊢
    exact ⟨gives_remove_slot entry size, rfl⟩
  rw [List.foldlM_map]
  refine gives_foldl ?_ kept
  rfl

theorem gives_remove_needed (allocated : data.length < allocationLimit) (fit : SlotsFit image)
    (name : String) :
    Gives (removeNeeded image data name) (image.removeNeeded data name) := by
  apply gives_bind (gives_plain _)
  intro dynamic found
  replace found := require_some_eq_ok_iff.mp found
  have small : ∀ entry ∈ dynamic.findAll Tag.needed,
      dynamic.span.start + entry.index * dynamic.entrySize < offsetLimit := fun entry member =>
    fit.start dynamic found entry (List.mem_filter.mp member).1
  apply gives_map_bind (gives_slots_named allocated name small)
  intro entries _
  rw [List.isEmpty_map]
  apply gives_bind (gives_plain _)
  intro _ _
  exact gives_remove_slots entries (fit.size dynamic found)

end Removal

theorem gives_run (allocated : data.length < allocationLimit) (fit : SlotsFit image)
    {command : Command} (held : Holds (text? command)) :
    Gives (run image data command) (image.run data command) := by
  cases command with
  | setInterpreter path => exact gives_set_interpreter (held path rfl)
  | setPath tag text => exact gives_set_path allocated (held text rfl)
  | setSearchPath searchPath => exact gives_set_path allocated (held searchPath.render rfl)
  | removeNeeded name => exact gives_remove_needed allocated fit name

end BinaryImage.Elf.Machine
