import BinaryImage.Proofs.Pe.Renaming
import BinaryImage.Proofs.Utf8

/-!
What names read after renames. Of a name, either all bytes are replaced or none, so it reads the
edit of its place, or else what the file has. A rename stages the edit of one place, and reads back
as the new name there; nothing changes for the names of other places.
-/

namespace BinaryImage.Pe.Image

variable {data out : Bytes} {fresh image edited : Image} {span : Span}

/-- The bytes of the name at a place of the file, as they will be written. -/
def nameBytes (image : Image) (data : Bytes) (start : Nat) : Bytes :=
  match image.edits.get? (.dllName start) with
  | some edit => Bytes.beforeNul edit.bytes
  | none => Bytes.beforeNul (data.drop start)

def nameText (image : Image) (data : Bytes) (span : Span) : String :=
  Text.Utf8.decode (image.nameBytes data span.start)

def namesOf (image : Image) (data : Bytes) : DescriptorTable → Except Error (List String)
  | .imports => image.importedDlls data
  | .delayImports => image.delayLoadedDlls data

theorem names_of_eq_mapM (table : DescriptorTable) :
    image.namesOf data table = (image.spansOf table).mapM (image.nameIn data) := by
  cases table <;> (rw [spansOf, List.mapM_map]; rfl)

namespace Opened

/-- Names that start at one place are one name. -/
theorem name_unique (opened : Opened data fresh) {a b : Span} (isNameA : a ∈ fresh.nameSpans)
    (isNameB : b ∈ fresh.nameSpans) (start : a.start = b.start) : a = b := by
  obtain ⟨_, _, namedA⟩ := resolves_of_parse opened.parsed a isNameA
  obtain ⟨_, _, namedB⟩ := resolves_of_parse opened.parsed b isNameB
  obtain ⟨_, startA, _, _, lengthA, endsA, rfl⟩ := resolve_name_eq_ok_iff.mp namedA
  obtain ⟨_, startB, _, _, lengthB, endsB, rfl⟩ := resolve_name_eq_ok_iff.mp namedB
  cases start
  cases endsA.symm.trans endsB
  rfl

theorem name_in_file (opened : Opened data fresh) (isName : span ∈ fresh.nameSpans) :
    ∃ record, data.slice? span = some record ∧ 0 ∈ record := by
  obtain ⟨_, _, named⟩ := resolves_of_parse opened.parsed span isName
  obtain ⟨_, start, _, _, length, ends, rfl⟩ := resolve_name_eq_ok_iff.mp named
  have inside := inside_of_resolves (resolves_of_parse opened.parsed _ isName)
  refine ⟨_, Bytes.slice_of_fits inside, ?_⟩
  apply List.mem_of_getElem? (i := length)
  rw [List.getElem?_take_of_lt (Nat.lt_succ_self length)]
  exact Bytes.nul_of_terminator ends

theorem can_write (opened : Opened data fresh) (staged : Staged fresh image) :
    ∃ out, image.edits.write data = .ok out := by
  refine ⟨_, EditSet.write_eq_ok_iff.mpr ⟨?_, rfl⟩⟩
  intro edit member
  exact Span.fitsIn_iff.mpr (opened.edit_inside (staged.placed edit member))

/-- What is written for a name ends with a NUL, also where the name is left alone. -/
theorem name_written (opened : Opened data fresh) (staged : Staged fresh image)
    (wrote : image.edits.write data = .ok out) (isName : span ∈ fresh.nameSpans) :
    ∃ record, out.slice? span = some record ∧ 0 ∈ record ∧
      Bytes.beforeNul record = image.nameBytes data span.start := by
  unfold nameBytes
  cases filled : image.edits.get? (.dllName span.start) with
  | some edit =>
    have member : edit ∈ image.edits.edits := List.mem_of_find?_eq_some filled
    have target : edit.target = .dllName span.start := by simpa using List.find?_some filled
    have placed := staged.placed edit member
    have start : edit.start = span.start :=
      EditTarget.dllName.inj (placed.target.symm.trans target)
    have same : edit.span = span := opened.name_unique placed.place isName start
    have apart := opened.edits_apart staged
    exact ⟨edit.bytes, same ▸ EditSet.slice_write_of_mem wrote apart member,
      List.mem_of_getLast? placed.terminated, rfl⟩
  | none =>
    have spared : image.edits.Spares span := by
      intro edit member
      have placed := staged.placed edit member
      rcases placed.unshared span isName with same | free
      · -- An edit of this very name would have been found.
        have missing := List.find?_eq_none.mp filled edit member
        rw [placed.target, same] at missing
        simp [Edit.span] at missing
      · exact free
    obtain ⟨record, sliced, nul⟩ := opened.name_in_file isName
    have length := (EditSet.length_write wrote).symm
    rw [Bytes.beforeNul_of_slice sliced nul]
    rw [(EditSet.agree_of_spared opened.addressable wrote spared).slice length] at sliced
    exact ⟨record, sliced, nul, rfl⟩

theorem name_read (opened : Opened data fresh) (staged : Staged fresh image)
    (isName : span ∈ fresh.nameSpans) :
    image.nameIn data span = .ok (image.nameText data span) := by
  obtain ⟨out, wrote⟩ := opened.can_write staged
  obtain ⟨record, written, _, read⟩ := opened.name_written staged wrote isName
  obtain ⟨bytes, sliced, _⟩ := opened.name_in_file isName
  have seen := EditSet.slice_write_eq_overlay opened.addressable wrote sliced
  cases written.symm.trans seen
  simp only [nameIn, sliced, requireSome, nameText, ← read, bind, Except.bind, pure, Except.pure]

theorem names_read (opened : Opened data fresh) (staged : Staged fresh image)
    (table : DescriptorTable) :
    image.namesOf data table = .ok ((image.spansOf table).map (image.nameText data)) := by
  rw [names_of_eq_mapM]
  apply mapM_eq_ok_map
  intro span member
  rw [staged.spans_of] at member
  exact opened.name_read staged (spans_of_subset table member)

/-- A name reads back as it was set, since it holds no NUL and is followed by one. -/
theorem name_text_of_rename (opened : Opened data fresh) (staged : Staged fresh image)
    {request : Rename} {renamed : Span} {edit : Edit}
    (found : image.nameSpan? request.table request.index = some renamed)
    (padded : Edit.padded (.dllName renamed.start) renamed request.name = .ok edit)
    (isName : span ∈ fresh.nameSpans) :
    nameText { image with edits := image.edits.stage edit } data span =
      if span = renamed then request.name else image.nameText data span := by
  obtain ⟨clean, room, rfl⟩ := Edit.padded_eq_ok_iff.mp padded
  unfold nameText nameBytes
  simp only [EditSet.get_stage, EditTarget.dllName.injEq]
  by_cases same : span = renamed
  · rw [if_pos same, if_pos (congrArg Span.start same).symm]
    simp only
    rw [Bytes.beforeNul_padded clean (by omega), Text.Utf8.decode_encode]
  · have isNameRenamed := name_span_mem found
    rw [staged.same] at isNameRenamed
    have apart : renamed.start ≠ span.start := fun start =>
      same (opened.name_unique isName isNameRenamed start.symm)
    rw [if_neg same, if_neg apart]

end Opened

end BinaryImage.Pe.Image

namespace BinaryImage.Session

open Pe.Image

def replaceNames (renamed : Span) (name : String) (spans : List Span) (names : List String) :
    List String :=
  List.zipWith (fun span text => if span = renamed then name else text) spans names

theorem replace_names_map {before after : Span → String} {renamed : Span} {name : String}
    {spans : List Span}
    (each : ∀ span ∈ spans, after span = if span = renamed then name else before span) :
    replaceNames renamed name spans (spans.map before) = spans.map after := by
  rw [replaceNames, List.zipWith_map_right, List.zipWith_self]
  apply List.map_congr_left
  intro span member
  exact (each span member).symm

/-- Wherever a descriptor names the renamed bytes, it reads the new name, to the letter. All other
descriptors read what they read before. -/
theorem rename_reads_back {data : Bytes} {session edited : Session} {image : Pe.Image}
    {request : Pe.Rename} (addressable : data.length < offsetLimit)
    (opened : ofFile data = .ok session) (pe : session.image = .pe image) (history : List Command)
    (done : (session.attemptAll history).run? (.pe request) = some (.ok edited)) :
    ∃ before after renamed imported delayLoaded,
      (session.attemptAll history).image = .pe before ∧ edited.image = .pe after ∧
      after = { before with edits := after.edits } ∧
      before.nameSpan? request.table request.index = some renamed ∧
      before.importedDlls data = .ok imported ∧ imported.length = before.imports.length ∧
      before.delayLoadedDlls data = .ok delayLoaded ∧
      delayLoaded.length = before.delayImports.length ∧
      after.importedDlls data = .ok (replaceNames renamed request.name
        (after.imports.map Pe.ImportDescriptor.name) imported) ∧
      after.delayLoadedDlls data = .ok (replaceNames renamed request.name
        (after.delayImports.map Pe.DelayLoadDescriptor.name) delayLoaded) := by
  obtain ⟨rfl, openedImage, fresh⟩ := pe_of_file addressable opened pe
  obtain ⟨before, peBefore, staged⟩ := renamed_of_attempt_all pe fresh history
  simp only [run?, peBefore, Option.some.injEq, map_eq_ok_iff] at done
  obtain ⟨after, ran, rfl⟩ := done
  have stagedAfter := staged_of_rename staged ran
  obtain ⟨renamed, edit, found, _, padded, rfl⟩ := rename_eq_ok_iff.mp ran
  let after : Pe.Image := { before with edits := before.edits.stage edit }
  have answers : ∀ table, after.namesOf session.data table =
      .ok (replaceNames renamed request.name (after.spansOf table)
        ((before.spansOf table).map (before.nameText session.data))) := by
    intro table
    have same : before.spansOf table = after.spansOf table := by cases table <;> rfl
    rw [openedImage.names_read stagedAfter, same, replace_names_map]
    intro span member
    apply openedImage.name_text_of_rename staged found padded
    rw [stagedAfter.spans_of] at member
    exact spans_of_subset table member
  exact ⟨before, after, renamed, _, _, peBefore, rfl, rfl, found,
    openedImage.names_read staged .imports, by simp [spansOf],
    openedImage.names_read staged .delayImports, by simp [spansOf], answers .imports,
    answers .delayImports⟩

section Sample

/-- A 32-bit file that imports two DLLs and delay-loads two. The first of these is also the first
that is imported, and the name of the other is the tail of the second. -/
def sharingFile : Bytes :=
  Text.Utf8.encode "MZ" ++ List.replicate 58 0 ++ littleWords [64] ++
  Text.Utf8.encode "PE\x00\x00" ++
  littleHalves [0x14c, 1] ++ littleWords [0, 0, 0] ++ littleHalves [208, 2] ++
  -- optional header, with two of its data directories in use
  littleHalves [0x10b] ++ List.replicate 14 0 ++ littleWords [0x1000] ++ List.replicate 8 0 ++
  littleWords [0x400000, 0x1000, 0x200] ++ List.replicate 16 0 ++
  littleWords [0x2000, 336, 0] ++ littleHalves [3, 0] ++ List.replicate 20 0 ++
  littleWords [14, 0, 0, 0x1000, 60] ++ List.replicate 88 0 ++ littleWords [0x103c, 96] ++
  -- section table
  Text.Utf8.encode ".idata\x00\x00" ++ littleWords [168, 0x1000, 168, 336, 0, 0] ++
  littleHalves [0, 0] ++ littleWords [0x40000040] ++
  -- imports, delay-loaded DLLs, names
  littleWords [0, 0, 0, 0x109c, 0] ++ littleWords [0, 0, 0, 0x10a2, 0] ++ List.replicate 20 0 ++
  littleWords [1, 0x109c, 0, 0, 0, 0, 0, 0] ++ littleWords [1, 0x10a4, 0, 0, 0, 0, 0, 0] ++
  List.replicate 32 0 ++
  Text.Utf8.encode "a.dll\x00b.dll\x00"

def sharingSession : Session := (ofFile sharingFile).toOption.get (by decide +kernel)

def sharingImage : Pe.Image := (Pe.Image.parse sharingFile).toOption.get (by decide +kernel)

/-- The first name has no room, the second shares bytes with another. -/
def sharingHistory : List Command :=
  [.pe ⟨.imports, 0, "longer"⟩, .pe ⟨.imports, 1, "y"⟩, .pe ⟨.imports, 0, "x.dll"⟩]

def sharingReset : Session :=
  (sharingSession.attemptAll sharingHistory).attempt (.pe ⟨.delayImports, 0, "é"⟩)

theorem sharing_addressable : sharingFile.length < offsetLimit := by decide +kernel

theorem sharing_opened : ofFile sharingFile = .ok sharingSession := by decide +kernel

theorem sharing_pe : sharingSession.image = .pe sharingImage := by decide +kernel

theorem rename_reads_back_sharing :
    (sharingSession.attemptAll sharingHistory).image.needed sharingFile =
        .ok ["x.dll", "b.dll", "x.dll", "dll"] ∧
      sharingReset.image.needed sharingFile = .ok ["é", "b.dll", "é", "dll"] ∧
      ∃ before after renamed imported delayLoaded,
        (sharingSession.attemptAll sharingHistory).image = .pe before ∧
        sharingReset.image = .pe after ∧ after = { before with edits := after.edits } ∧
        before.nameSpan? .delayImports 0 = some renamed ∧
        before.importedDlls sharingFile = .ok imported ∧
        imported.length = before.imports.length ∧
        before.delayLoadedDlls sharingFile = .ok delayLoaded ∧
        delayLoaded.length = before.delayImports.length ∧
        after.importedDlls sharingFile = .ok (replaceNames renamed "é"
          (after.imports.map Pe.ImportDescriptor.name) imported) ∧
        after.delayLoadedDlls sharingFile = .ok (replaceNames renamed "é"
          (after.delayImports.map Pe.DelayLoadDescriptor.name) delayLoaded) := by
  have done : (sharingSession.attemptAll sharingHistory).run? (.pe ⟨.delayImports, 0, "é"⟩) =
      some (.ok sharingReset) := by
    decide +kernel
  exact ⟨by decide +kernel, by decide +kernel,
    rename_reads_back sharing_addressable sharing_opened sharing_pe sharingHistory done⟩

end Sample

end BinaryImage.Session
