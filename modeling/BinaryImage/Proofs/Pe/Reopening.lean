import BinaryImage.Proofs.Pe.DescriptorTables

/-!
Sessions whose names lie apart from the descriptor tables. Whatever is renamed, the outcome can be
written, and in the written file the same descriptors are read, with the names that were set. Only
where a name ends may be told differently, for a shorter name is followed by more NUL bytes.
-/

namespace BinaryImage.Pe

theorem DescriptorKind.starts_of_unsized {Descriptor : Type} {kind : DescriptorKind Descriptor}
    {before after : List Descriptor}
    (same : after.map kind.unsized = before.map kind.unsized) :
    (after.map kind.name).map Span.start = (before.map kind.name).map Span.start := by
  have through : ∀ descriptors : List Descriptor, (descriptors.map kind.name).map Span.start =
      (descriptors.map kind.unsized).map fun descriptor => (kind.name descriptor).start := by
    intro descriptors
    simp only [List.map_map, Function.comp_def, unsized, kind.name_named]
  rw [through, same, ← through]

namespace Image

def NamesClear (image : Image) : Prop :=
  ∀ name ∈ image.nameSpans, ∀ table ∈ image.descriptorTables, name.overlaps table = false

instance (image : Image) : Decidable image.NamesClear :=
  inferInstanceAs (Decidable (∀ name ∈ image.nameSpans, ∀ table ∈ image.descriptorTables,
    name.overlaps table = false))

/-- The image has the headers, sections and descriptors of another; a name starts where it did. -/
structure SameLayout (image other : Image) : Prop where
  headers : image.headers = other.headers
  sections : image.sections = other.sections
  imports : image.imports.map ImportDescriptor.unsized = other.imports.map ImportDescriptor.unsized
  delayImports : image.delayImports.map DelayLoadDescriptor.unsized =
    other.delayImports.map DelayLoadDescriptor.unsized

variable {data out : Bytes} {fresh image reread : Image}

theorem Staged.same_layout (staged : Staged fresh image) (layout : SameLayout reread fresh) :
    SameLayout reread image := by
  rw [staged.same]
  exact ⟨layout.headers, layout.sections, layout.imports, layout.delayImports⟩

theorem SameLayout.starts (layout : SameLayout reread image) (table : DescriptorTable) :
    (reread.spansOf table).map Span.start = (image.spansOf table).map Span.start := by
  cases table with
  | imports => exact DescriptorKind.starts_of_unsized layout.imports
  | delayImports => exact DescriptorKind.starts_of_unsized layout.delayImports

-- The layout rules do not look at descriptors or edits.
theorem validate_congr {a b : Image} (headers : a.headers = b.headers)
    (sections : a.sections = b.sections) (length : a.fileLength = b.fileLength) :
    a.validate = b.validate := by
  cases a
  cases b
  cases headers
  cases sections
  cases length
  rfl

theorem Staged.spares (staged : Staged fresh image) (clear : fresh.NamesClear)
    {table : Span} (isTable : table ∈ fresh.descriptorTables) : image.edits.Spares table := by
  intro edit member
  rw [Span.overlaps_comm]
  exact clear edit.span (staged.placed edit member).place table isTable

namespace Opened

/-- A file written with its descriptor tables spared is opened again, with the same descriptors. -/
theorem reopened_of_spared (opened : Opened data fresh) (staged : Staged fresh image)
    (wrote : image.edits.write data = .ok out)
    (spared : ∀ table ∈ fresh.descriptorTables, image.edits.Spares table) :
    ∃ reread, Opened out reread ∧ SameLayout reread fresh := by
  have length := EditSet.length_write wrote
  obtain ⟨headersRead, sectionsRead⟩ := opened.headers_parsed_again staged wrote
  obtain ⟨imports, importsRead, sameImports⟩ := opened.imports_reread staged wrote
    fun table isTable => spared table (import_table_mem isTable)
  obtain ⟨delayImports, delayImportsRead, sameDelayImports⟩ :=
    opened.delay_imports_reread staged wrote
      fun table isTable => spared table (delay_import_table_mem isTable)
  let reread : Image :=
    ⟨fresh.headers, fresh.sections, imports, delayImports, out.length, EditSet.empty⟩
  have parsed : parse out = .ok reread := parse_eq_ok_iff.mpr
    ⟨_, _, _, _, headersRead, sectionsRead, importsRead, delayImportsRead, rfl⟩
  have sameLength : reread.fileLength = fresh.fileLength :=
    length.trans (fresh_of_parse opened.parsed).2.symm
  have sameRules : reread.validate = fresh.validate := validate_congr rfl rfl sameLength
  have valid : reread.validate = .ok () := sameRules.trans opened.valid
  exact ⟨reread, ⟨length ▸ opened.addressable, parsed, valid⟩, rfl, rfl, sameImports,
    sameDelayImports⟩

/-- Renamed or not, a name is read from the written file as through the edits. -/
theorem name_text_reread (opened : Opened data fresh) (staged : Staged fresh image)
    (wrote : image.edits.write data = .ok out) (openedOut : Opened out reread) {span : Span}
    (isName : span ∈ fresh.nameSpans) : reread.nameText out span = image.nameText data span := by
  obtain ⟨record, written, nul, read⟩ := opened.name_written staged wrote isName
  have unedited : reread.edits = EditSet.empty := (fresh_of_parse openedOut.parsed).1
  have found : reread.nameBytes out span.start = Bytes.beforeNul record := by
    rw [nameBytes, unedited]
    exact Bytes.beforeNul_of_slice written nul
  rw [nameText, nameText, found, read]

theorem names_reread (opened : Opened data fresh) (staged : Staged fresh image)
    (wrote : image.edits.write data = .ok out) (openedOut : Opened out reread)
    (layout : SameLayout reread fresh) (table : DescriptorTable) :
    ∃ names, image.namesOf data table = .ok names ∧ reread.namesOf out table = .ok names := by
  have unedited := staged_of_fresh (fresh_of_parse openedOut.parsed).1
  -- Of a name, only where it starts is asked.
  have through : ∀ spans : List Span, spans.map (reread.nameText out) =
      (spans.map Span.start).map fun start => reread.nameText out ⟨start, 0⟩ := by
    intro spans
    rw [List.map_map]
    rfl
  refine ⟨_, opened.names_read staged table, ?_⟩
  rw [openedOut.names_read unedited, through, layout.starts, ← through, staged.spans_of]
  apply congrArg Except.ok
  apply List.map_congr_left
  intro span member
  exact opened.name_text_reread staged wrote openedOut (spans_of_subset table member)

theorem serialize_of_reopened (opened : Opened data fresh) (staged : Staged fresh image)
    (wrote : image.edits.write data = .ok out) (openedOut : Opened out reread) :
    (BinaryImage.Image.pe image).serialize data = .ok out := by
  have length : data.length = image.fileLength := by
    rw [staged.same]
    exact (fresh_of_parse opened.parsed).2.symm
  have valid : image.validate = .ok () := by
    rw [staged.same]
    exact opened.valid
  have disjoint : image.edits.checkDisjoint = .ok () :=
    (EditSet.check_disjoint_eq_ok_iff_apart opened.addressable
      (EditSet.write_eq_ok_iff.mp wrote).1).mpr (opened.edits_apart staged)
  refine BinaryImage.Image.serialize_eq_ok_iff.mpr
    ⟨length, valid, disjoint, wrote, fun _ => ⟨.pe reread, ?_⟩⟩
  exact BinaryImage.Image.parse_valid_eq_ok_iff.mpr
    ⟨map_eq_ok_iff.mpr ⟨_, openedOut.parsed, rfl⟩, openedOut.valid⟩

end Opened

end Image

end BinaryImage.Pe

namespace BinaryImage.Session

open Pe.Image

/-- Where no name shares bytes with a descriptor table, renames never lead to an image that cannot
be written, and the written file is read as that image. -/
theorem reopen_as_renamed {data : Bytes} {session : Session} {image : Pe.Image}
    (addressable : data.length < offsetLimit) (opened : ofFile data = .ok session)
    (pe : session.image = .pe image) (clear : image.NamesClear) (commands : List Command) :
    ∃ edited out reread imported delayLoaded,
      (session.attemptAll commands).image = .pe edited ∧
      (session.attemptAll commands).serialize = .ok out ∧
      Pe.Image.parse out = .ok reread ∧ SameLayout reread edited ∧
      edited.importedDlls data = .ok imported ∧ reread.importedDlls out = .ok imported ∧
      edited.delayLoadedDlls data = .ok delayLoaded ∧
      reread.delayLoadedDlls out = .ok delayLoaded := by
  obtain ⟨rfl, openedImage, fresh⟩ := pe_of_file addressable opened pe
  obtain ⟨edited, peEdited, staged⟩ := renamed_of_attempt_all pe fresh commands
  obtain ⟨out, wrote⟩ := openedImage.can_write staged
  obtain ⟨reread, openedOut, layout⟩ := openedImage.reopened_of_spared staged wrote
    fun _ isTable => staged.spares clear isTable
  have names := openedImage.names_reread staged wrote openedOut layout
  obtain ⟨imported, importedBefore, importedAfter⟩ := names .imports
  obtain ⟨delayLoaded, delayLoadedBefore, delayLoadedAfter⟩ := names .delayImports
  refine ⟨edited, out, reread, imported, delayLoaded, peEdited, ?_, openedOut.parsed,
    staged.same_layout layout, importedBefore, importedAfter, delayLoadedBefore, delayLoadedAfter⟩
  rw [serialize, peEdited, session.attempt_all_data]
  exact openedImage.serialize_of_reopened staged wrote openedOut

theorem reopen_as_renamed_sharing :
    sharingImage.NamesClear ∧
      (sharingSession.attemptAll sharingHistory).image.needed sharingFile =
        .ok ["x.dll", "b.dll", "x.dll", "dll"] ∧
      ∃ edited out reread imported delayLoaded,
        (sharingSession.attemptAll sharingHistory).image = .pe edited ∧
        (sharingSession.attemptAll sharingHistory).serialize = .ok out ∧
        Pe.Image.parse out = .ok reread ∧ SameLayout reread edited ∧
        edited.importedDlls sharingFile = .ok imported ∧ reread.importedDlls out = .ok imported ∧
        edited.delayLoadedDlls sharingFile = .ok delayLoaded ∧
        reread.delayLoadedDlls out = .ok delayLoaded := by
  have clear : sharingImage.NamesClear := by decide +kernel
  exact ⟨clear, by decide +kernel,
    reopen_as_renamed sharing_addressable sharing_opened sharing_pe clear sharingHistory⟩

end BinaryImage.Session
