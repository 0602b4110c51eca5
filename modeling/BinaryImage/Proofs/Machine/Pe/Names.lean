import BinaryImage.Pe.Query
import BinaryImage.Pe.Rename
import BinaryImage.Proofs.Machine.Edits
import BinaryImage.Proofs.Machine.Reading

/-!
Reading and replacing DLL names on a machine. A name is read from a slice of the file, over which
the staged edits are laid.
-/

namespace BinaryImage.Pe.Machine

open BinaryImage.Machine

def nameIn (image : Image) (data : Bytes) (span : Span) : Machine Error String := do
  let original ← plain (requireSome (data.slice? span) (.malformedPe span.start .nameOutsideFile))
  let bytes ← overlay image.edits original span
  text bytes

def importedDlls (image : Image) (data : Bytes) : Machine Error (List String) :=
  image.imports.mapM fun descriptor => nameIn image data descriptor.name

def delayLoadedDlls (image : Image) (data : Bytes) : Machine Error (List String) :=
  image.delayImports.mapM fun descriptor => nameIn image data descriptor.name

def needed (image : Image) (data : Bytes) : Machine Error (List String) := do
  let imported ← importedDlls image data
  let delayed ← delayLoadedDlls image data
  return imported ++ delayed

def rename (image : Image) (request : Rename) : Machine Error Image := do
  let span ← plain (requireSome (image.nameSpan? request.table request.index)
    (.notFound (Image.soughtDescriptor request.table request.index)))
  plain (image.checkUnshared span)
  let patch ← padded (.dllName span.start) span request.name
  let edits ← stage image.edits patch
  return { image with edits }

variable {image : Image} {data : Bytes} (allocated : data.length < allocationLimit)

section Queries

include allocated

theorem gives_name_in (span : Span) : Gives (nameIn image data span) (image.nameIn data span) := by
  unfold nameIn Image.nameIn
  apply gives_bind (gives_plain _)
  intro original sliced
  have found := require_some_eq_ok_iff.mp sliced
  have inside := (Bytes.slice_eq_some_iff.mp found).1
  have length := Bytes.length_slice found
  unfold allocationLimit at allocated
  apply gives_ok_bind (gives_overlay _ (by unfold offsetLimit; omega))
  exact gives_text _

theorem gives_imported_dlls : Gives (importedDlls image data) (image.importedDlls data) :=
  gives_mapM fun descriptor _ => gives_name_in allocated descriptor.name

theorem gives_delay_loaded_dlls :
    Gives (delayLoadedDlls image data) (image.delayLoadedDlls data) :=
  gives_mapM fun descriptor _ => gives_name_in allocated descriptor.name

theorem gives_needed : Gives (needed image data) (image.needed data) := by
  apply gives_bind (gives_imported_dlls allocated)
  intro imported _
  apply gives_bind (gives_delay_loaded_dlls allocated)
  intro delayed _
  exact gives_pure _

end Queries

theorem gives_rename {request : Rename}
    (small : (Text.Utf8.encode request.name).length < allocationLimit) :
    Gives (rename image request) (image.rename request) := by
  unfold rename Image.rename
  apply gives_bind (gives_plain _)
  intro span _
  apply gives_bind (gives_plain _)
  intro _ _
  apply gives_map_bind (gives_padded small)
  intro edit _
  apply gives_ok_bind (gives_stage _ edit)
  exact gives_pure _

end BinaryImage.Pe.Machine
