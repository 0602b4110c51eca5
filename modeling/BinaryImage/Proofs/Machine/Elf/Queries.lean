import BinaryImage.Elf.Query
import BinaryImage.Proofs.Machine.Edits
import BinaryImage.Proofs.Machine.Elf.Parsing

/-!
Questions to an ELF image on a machine. A string is cut out of the bytes of its table, over which
the staged edits are laid; those bytes have their place in the file, whatever the caller asks for.
-/

namespace BinaryImage.Elf.Machine

open BinaryImage.Machine

def view (image : Image) (data : Bytes) (span : Span) (part : Part) : Machine Error Bytes := do
  let bytes ← plain (slice data span part)
  overlay image.edits bytes span

def dynamicString (image : Image) (data : Bytes) (index : Nat) : Machine Error String := do
  let (table, _) ← plain (image.dynamicStrings data)
  let bytes ← view image data table.span .dynamicStrings
  stringAt table bytes index

def taggedString (image : Image) (data : Bytes) (tag : Nat) : Machine Error (Option String) :=
  match image.dynamic.bind fun dynamic => dynamic.find? tag with
  | some entry => do return some (← dynamicString image data entry.value)
  | none => return none

def interpreterPath (image : Image) (data : Bytes) : Machine Error (Option String) :=
  match image.interpreter with
  | some span => do
    let bytes ← view image data span .interpreter
    return some (← text bytes)
  | none => return none

def needed (image : Image) (data : Bytes) : Machine Error (List String) :=
  match image.dynamic with
  | some dynamic =>
    (dynamic.findAll Tag.needed).mapM fun entry => dynamicString image data entry.value
  | none => return []

def searchPath (image : Image) (data : Bytes) : Machine Error SearchPath := do
  match ← taggedString image data Tag.runPath with
  | some text => plain (SearchPath.parse text)
  | none =>
    match ← taggedString image data Tag.rpath with
    | some text => plain (SearchPath.parse text)
    | none => return SearchPath.empty

variable {image : Image} {data : Bytes} (allocated : data.length < allocationLimit)
include allocated

theorem gives_view (span : Span) (part : Part) :
    Gives (view image data span part) (image.view data span part) := by
  apply gives_bind (gives_plain _)
  intro bytes sliced
  exact gives_overlay _ (fits_of_slice allocated sliced)

/-- What a view shows has the place of its span. -/
theorem fits_of_view {span : Span} {part : Part} {bytes : Bytes}
    (viewed : image.view data span part = .ok bytes) : span.start + bytes.length < offsetLimit := by
  obtain ⟨original, sliced, same⟩ := bind_eq_ok_iff.mp viewed
  rw [← Except.ok.inj same, EditSet.length_overlay]
  exact fits_of_slice allocated sliced

theorem gives_dynamic_string (index : Nat) :
    Gives (dynamicString image data index) (image.dynamicString data index) := by
  apply gives_bind (gives_plain _)
  intro found _
  obtain ⟨table, original⟩ := found
  apply gives_bind (gives_view allocated table.span _)
  intro bytes viewed
  exact gives_string_at (fits_of_view allocated viewed) index

theorem gives_tagged_string (tag : Nat) :
    Gives (taggedString image data tag) (image.taggedString data tag) := by
  unfold taggedString Image.taggedString
  cases image.dynamic.bind fun dynamic => dynamic.find? tag with
  | none => exact gives_pure none
  | some entry =>
    apply gives_bind (gives_dynamic_string allocated entry.value)
    intro text _
    exact gives_pure (some text)

theorem gives_interpreter_path :
    Gives (interpreterPath image data) (image.interpreterPath data) := by
  unfold interpreterPath Image.interpreterPath
  cases image.interpreter with
  | none => exact gives_pure none
  | some span =>
    apply gives_bind (gives_view allocated span _)
    intro bytes _
    exact gives_ok_bind (gives_text bytes) (gives_pure _)

theorem gives_needed : Gives (needed image data) (image.needed data) := by
  unfold needed Image.needed
  cases image.dynamic with
  | none => exact gives_pure []
  | some dynamic => exact gives_mapM fun entry _ => gives_dynamic_string allocated entry.value

theorem gives_search_path : Gives (searchPath image data) (image.searchPath data) := by
  apply gives_bind (gives_tagged_string allocated Tag.runPath)
  intro newer _
  cases newer with
  | some text => exact gives_plain _
  | none =>
    apply gives_bind (gives_tagged_string allocated Tag.rpath)
    intro older _
    cases older with
    | some text => exact gives_plain _
    | none => exact gives_pure SearchPath.empty

end BinaryImage.Elf.Machine
