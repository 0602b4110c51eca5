import BinaryImage.Proofs.Elf.SearchPaths
import BinaryImage.Proofs.FieldPlaces
import BinaryImage.Proofs.Pe.HeaderFrame
import BinaryImage.Proofs.Setters

/-!
Strings that are set to what they read. A string reads as the text that its bytes decode to, and the
bytes of this text are written back. A replacement takes as many bytes as it stands for only where a
sequence of four is torn off before its last byte, and where it takes more the value has no room. So
what is written is what was there, but for torn sequences.
-/

namespace BinaryImage

open Text.Utf8

/-- The value is the string that stands in its place, as it reads. -/
def Assignment.Rereads (data : Bytes) (assignment : Assignment) : Prop :=
  ∃ start, 0 ∈ data.drop start ∧ assignment.place = data.stringSpan start ∧
    assignment.value = decode (Bytes.beforeNul (data.drop start))

/-- The edit is over a string of the file with its terminator, and holds the encoding of what the
string reads. It differs from the string in torn sequences alone. -/
structure Edit.Rewrites (edit : Edit) (data stored : Bytes) (value : String) : Prop where
  place : data.slice? edit.span = some (stored ++ [0])
  ends : 0 ∉ stored
  reads : value = decode stored
  bytes : edit.bytes = encode value ++ [0]
  recoded : Recoded stored (encode value)

namespace Edit.Rewrites

variable {edit : Edit} {data stored : Bytes} {value : String}

/-- The edit changes nothing where the string is the encoding of a text. -/
theorem unchanged_iff (rewrites : edit.Rewrites data stored value) :
    edit.bytes = stored ++ [0] ↔ ∃ text, stored = encode text := by
  rw [rewrites.bytes, List.append_left_inj, rewrites.reads, encode_decode_eq_iff]

theorem encoded_of_clean (rewrites : edit.Rewrites data stored value)
    (clean : replacement ∉ value.toList) : ∃ text, stored = encode text :=
  ⟨value, (decode_eq_iff clean).mp rewrites.reads.symm⟩

end Edit.Rewrites

theorem Bytes.slice_string_span {data : Bytes} {start : Nat} (nul : 0 ∈ data.drop start) :
    data.slice? (data.stringSpan start) = some (beforeNul (data.drop start) ++ [0]) := by
  have whole : data.slice? ⟨0, data.length⟩ = some data := by
    rw [slice_of_fits (by simp), List.drop_zero, List.take_length]
  obtain ⟨_, _, sliced⟩ :=
    string_at_of_terminator whole (terminator_eq_some_iff.mpr ⟨nul, rfl⟩)
  rwa [Nat.zero_add] at sliced

-- The room is what the string leaves, so the encoding is not longer, and it is never shorter.
theorem Assignment.rewrites {data : Bytes} {assignment : Assignment}
    (rereads : assignment.Rereads data) (fits : assignment.Fits) :
    assignment.edit.span = assignment.place ∧
      ∃ stored, assignment.edit.Rewrites data stored assignment.value := by
  obtain ⟨start, nul, place, reads⟩ := rereads
  have sliced := Bytes.slice_string_span nul
  generalize kept : Bytes.beforeNul (data.drop start) = stored at reads sliced
  have ends : 0 ∉ stored := kept ▸ Bytes.nul_not_mem_beforeNul _
  have room : assignment.place.length = stored.length + 1 := by
    rw [place, Bytes.stringSpan, kept]
  have short : (encode assignment.value).length ≤ stored.length := by
    have enough := fits.2
    omega
  have recoded : Recoded stored (encode assignment.value) := by
    rw [reads] at short ⊢
    exact recoded_of_fits short
  have length := recoded.length_eq
  have bytes : assignment.edit.bytes = encode assignment.value ++ [0] := by
    have left : assignment.place.length - (encode assignment.value).length = 1 := by omega
    simp only [Assignment.edit, left, List.replicate_one]
  have span : assignment.edit.span = assignment.place := by
    rw [Edit.span, bytes, List.length_append, length, List.length_singleton, ← room]
    rfl
  refine ⟨span, stored, ?_, ends, reads, bytes, recoded⟩
  rwa [span, place]

theorem Bytes.splice_of_slice {data patch : Bytes} {start : Nat}
    (sliced : data.slice? ⟨start, patch.length⟩ = some patch) : data.splice start patch = data := by
  obtain ⟨_, same⟩ := slice_eq_some_iff.mp sliced
  calc
    data.splice start patch =
        data.take start ++ ((data.drop start).take patch.length ++
          (data.drop start).drop patch.length) := by
      rw [← same, List.drop_drop, ← List.append_assoc]
      rfl
    _ = data := by rw [List.take_append_drop, List.take_append_drop]

/-- One edit leaves the file as it is when it holds what the file has in its place. -/
theorem EditSet.write_stage_empty_iff {data : Bytes} {edit : Edit} :
    (EditSet.empty.stage edit).write data = .ok data ↔ data.slice? edit.span = some edit.bytes := by
  constructor
  · intro wrote
    exact slice_write_of_mem wrote (List.pairwise_singleton _ _) (List.mem_singleton_self edit)
  · intro sliced
    have inside : edit.start + edit.bytes.length ≤ data.length :=
      (Bytes.slice_eq_some_iff.mp sliced).1
    have done : data.write edit.start edit.bytes = .ok data := by
      rw [Bytes.write, require_some_eq_ok_iff, Bytes.write_eq_some_iff]
      exact ⟨inside, (Bytes.splice_of_slice sliced).symm⟩
    change (data.write edit.start edit.bytes >>= pure) = .ok data
    rw [done]
    rfl

namespace Session

/-- The command sets a string to the value that the session answers for it. -/
inductive WritesBack (session : Session) (value : String) : Command → Prop
  | runPath {image : Elf.Image} (elf : session.image = .elf image)
    (read : image.runPath session.data = .ok (some value)) :
    WritesBack session value (.elf (.setPath .runPath value))
  | rpath {image : Elf.Image} (elf : session.image = .elf image)
    (read : image.rpath session.data = .ok (some value)) :
    WritesBack session value (.elf (.setPath .rpath value))
  | imported {image : Pe.Image} {names : List String} {index : Nat}
    (pe : session.image = .pe image) (read : image.importedDlls session.data = .ok names)
    (listed : names[index]? = some value) :
    WritesBack session value (.pe ⟨.imports, index, value⟩)
  | delayLoaded {image : Pe.Image} {names : List String} {index : Nat}
    (pe : session.image = .pe image) (read : image.delayLoadedDlls session.data = .ok names)
    (listed : names[index]? = some value) :
    WritesBack session value (.pe ⟨.delayImports, index, value⟩)

/-- The string that a setter replaces: the one that the first entry with the tag of a path names, or
the name of a descriptor. -/
inductive Replaces (session : Session) : Command → Span → Prop
  | path {image : Elf.Image} {dynamic : Elf.DynamicArray} {entry : Elf.DynamicEntry}
    {path : Elf.PathTag} {text : String} {span : Span} (elf : session.image = .elf image)
    (array : image.dynamic = some dynamic) (first : dynamic.find? path.tag = some entry)
    (named : dynamic.Names session.data entry span) :
    Replaces session (.elf (.setPath path text)) span
  | name {image : Pe.Image} {request : Pe.Rename} {span : Span} (pe : session.image = .pe image)
    (found : image.nameSpan? request.table request.index = some span) :
    Replaces session (.pe request) span

theorem WritesBack.setter {session : Session} {value : String} {command : Command}
    (back : session.WritesBack value command) : command.isSetter = true := by
  cases back <;> rfl

end Session

namespace Elf.Image

/-- A search path that is set to what it reads. -/
theorem rereads_of_path {data : Bytes} {image : Image} (path : PathTag) {value : String}
    {assignment : Assignment} (opened : Opened data image)
    (read : image.taggedString data path.tag = .ok (some value))
    (accepted : image.accepted? data (.setPath path value) = some assignment) :
    assignment.value = value ∧ assignment.Rereads data := by
  obtain ⟨dynamic, entry, place, found, first, located, rfl⟩ :=
    path_assignment_eq_some_iff.mp (accepted_eq_some_iff.mp accepted).1
  have names := DynamicArray.mem_string_entries_of_find first path.names_string
  have named := (opened.names_iff_string_place found names).mpr located
  obtain ⟨_, _, _, _, _, _, _, record, sliced, nul⟩ := named.in_table
  obtain ⟨table, _, rfl⟩ := Option.map_eq_some_iff.mp located
  have wrote : image.edits.write data = .ok data := by
    rw [unedited_of_parse opened.parsed]
    rfl
  have answer := dynamic_string_of_written opened.addressable wrote found named sliced nul
  simp only [taggedString, found, Option.bind_some, first, answer, bind, Except.bind, pure,
    Except.pure, Except.ok.injEq, Option.some.injEq] at read
  refine ⟨rfl, table.span.start + entry.value, ?_, rfl, ?_⟩
  · obtain ⟨_, rfl⟩ := Bytes.slice_eq_some_iff.mp sliced
    exact List.mem_of_mem_take nul
  · rw [← read, ← Bytes.beforeNul_of_slice sliced nul]
    rfl

end Elf.Image

namespace Pe.Image

/-- A name that is set to what it reads. -/
theorem rereads_of_name {data : Bytes} {image : Image} (table : DescriptorTable) {index : Nat}
    {names : List String} {value : String} {assignment : Assignment} (opened : Opened data image)
    (read : image.namesOf data table = .ok names) (listed : names[index]? = some value)
    (accepted : image.accepted? data ⟨table, index, value⟩ = some assignment) :
    assignment.value = value ∧ assignment.Rereads data := by
  have unedited := (fresh_of_parse opened.parsed).1
  cases (opened.names_read (staged_of_fresh unedited) table).symm.trans read
  rw [List.getElem?_map, ← name_span_eq, Option.map_eq_some_iff] at listed
  obtain ⟨span, found, rfl⟩ := listed
  obtain ⟨assigned, _⟩ := accepted_eq_some_iff.mp accepted
  obtain ⟨_, again, rfl⟩ := Option.map_eq_some_iff.mp assigned
  cases found.symm.trans again
  obtain ⟨record, sliced, nul⟩ := opened.name_in_file (name_span_mem found)
  obtain ⟨_, rfl⟩ := Bytes.slice_eq_some_iff.mp sliced
  refine ⟨rfl, span.start, List.mem_of_mem_take nul, rfl, ?_⟩
  rw [nameText, nameBytes, unedited]
  rfl

end Pe.Image

namespace Session

variable {session : Session} {command : Command} {value : String} {assignment : Assignment}

theorem fits_of_accepted (accepted : session.accepted? command = some assignment) :
    assignment.Fits := by
  obtain ⟨data, image⟩ := session
  cases image with
  | elf image =>
    cases command with
    | elf request => exact (Elf.Image.accepted_eq_some_iff.mp accepted).2.2
    | pe request => cases accepted
  | pe image =>
    cases command with
    | elf request => cases accepted
    | pe request => exact (Pe.Image.accepted_eq_some_iff.mp accepted).2.2

theorem Opened.rereads (opened : session.Opened) (back : session.WritesBack value command)
    (accepted : session.accepted? command = some assignment) :
    assignment.value = value ∧ assignment.Rereads session.data := by
  cases opened with
  | @elf data image opened =>
    cases back with
    | runPath elf read =>
      cases elf
      exact Elf.Image.rereads_of_path .runPath opened read accepted
    | rpath elf read =>
      cases elf
      exact Elf.Image.rereads_of_path .rpath opened read accepted
    | imported pe => cases pe
    | delayLoaded pe => cases pe
  | @pe data image opened =>
    cases back with
    | runPath elf => cases elf
    | rpath elf => cases elf
    | imported pe read listed =>
      cases pe
      exact Pe.Image.rereads_of_name .imports opened read listed accepted
    | delayLoaded pe read listed =>
      cases pe
      exact Pe.Image.rereads_of_name .delayImports opened read listed accepted

/-- A value is meant for the string that is replaced. -/
theorem Opened.replaces (opened : session.Opened) (back : session.WritesBack value command)
    (accepted : session.accepted? command = some assignment) :
    session.Replaces command assignment.place := by
  cases opened with
  | @elf data image opened =>
    have path : ∀ path, image.accepted? data (.setPath path value) = some assignment →
        Replaces ⟨data, .elf image⟩ (.elf (.setPath path value)) assignment.place := by
      intro path accepted
      obtain ⟨dynamic, entry, place, found, first, located, rfl⟩ :=
        Elf.Image.path_assignment_eq_some_iff.mp (Elf.Image.accepted_eq_some_iff.mp accepted).1
      have names := Elf.DynamicArray.mem_string_entries_of_find first path.names_string
      exact .path rfl found first ((opened.names_iff_string_place found names).mpr located)
    cases back with
    | runPath elf => exact path .runPath accepted
    | rpath elf => exact path .rpath accepted
    | imported pe => cases pe
    | delayLoaded pe => cases pe
  | @pe data image opened =>
    have name : ∀ request, image.accepted? data request = some assignment →
        Replaces ⟨data, .pe image⟩ (.pe request) assignment.place := by
      intro request accepted
      obtain ⟨span, found, rfl⟩ :=
        Option.map_eq_some_iff.mp (Pe.Image.accepted_eq_some_iff.mp accepted).1
      rw [opened.string_span_of_name (Pe.Image.name_span_mem found)]
      exact .name rfl found
    cases back with
    | runPath elf => cases elf
    | rpath elf => cases elf
    | imported => exact name _ accepted
    | delayLoaded => exact name _ accepted

/-- A file comes back from one edit when the edit holds what the file has in its place. -/
theorem serialize_stage_eq_ok_iff {data : Bytes} {edit : Edit}
    (addressable : data.length < offsetLimit) (opened : ofFile data = .ok session)
    (inside : edit.span.start + edit.span.length ≤ data.length) :
    (session.withEdits (EditSet.empty.stage edit)).serialize = .ok data ↔
      data.slice? edit.span = some edit.bytes := by
  rw [← EditSet.write_stage_empty_iff]
  obtain ⟨format, _, rfl, read⟩ := of_file_eq_ok_iff.mp opened
  obtain ⟨parsed, _⟩ := Image.parse_valid_eq_ok_iff.mp read
  obtain ⟨length, valid, _⟩ := Image.serialize_eq_ok_iff.mp (serialize_of_file opened)
  have fits : ∀ item ∈ (EditSet.empty.stage edit).edits,
      item.span.fitsIn session.data.length = true := by
    intro item member
    obtain rfl := List.mem_singleton.mp member
    exact Span.fitsIn_iff.mpr inside
  have disjoint : (EditSet.empty.stage edit).checkDisjoint = .ok () :=
    (EditSet.check_disjoint_eq_ok_iff_apart addressable fits).mpr (List.pairwise_singleton _ _)
  have sameFormat : (session.image.withEdits (EditSet.empty.stage edit)).format = format := by
    rw [← Image.format_of_parse parsed]
    cases session.image <;> rfl
  have sameLength : session.data.length =
      (session.image.withEdits (EditSet.empty.stage edit)).fileLength := by
    rw [length]
    cases session.image <;> rfl
  have stillValid : (session.image.withEdits (EditSet.empty.stage edit)).validate = .ok () := by
    rw [← valid]
    cases session.image <;> rfl
  change (session.image.withEdits (EditSet.empty.stage edit)).serialize session.data = _ ↔ _
  rw [Image.serialize_eq_ok_iff, sameFormat]
  have staged := edits_with_edits session (EditSet.empty.stage edit)
  change (session.image.withEdits (EditSet.empty.stage edit)).edits = _ at staged
  rw [staged]
  constructor
  · rintro ⟨_, _, _, wrote, _⟩
    exact wrote
  · intro wrote
    exact ⟨sameLength, stillValid, disjoint, wrote, fun _ => ⟨session.image, read⟩⟩

/-- Setting a string to what it reads leaves the file as it is when the string is the encoding of a
text, as it is whenever it reads without replacements. Otherwise the edit overwrites torn sequences
of it, and nothing else. -/
theorem writing_back {data : Bytes} {edited : Session} (addressable : data.length < offsetLimit)
    (opened : ofFile data = .ok session) (back : session.WritesBack value command)
    (done : session.run? command = some (.ok edited)) :
    ∃ edit stored, edited.image.edits.edits = [edit] ∧ session.Replaces command edit.span ∧
      edit.Rewrites data stored value ∧
      (edit.bytes = stored ++ [0] ↔ ∃ text, stored = encode text) ∧
      (edited.serialize = .ok data ↔ ∃ text, stored = encode text) ∧
      (replacement ∉ value.toList → ∃ text, stored = encode text) := by
  obtain ⟨openedSession, fresh⟩ := opened_of_file addressable opened
  rw [← fresh, openedSession.run_with_edits_eq_ok_iff back.setter] at done
  obtain ⟨assignment, accepted, rfl⟩ := done
  have replaces := openedSession.replaces back accepted
  obtain ⟨rfl, rereads⟩ := openedSession.rereads back accepted
  have sameData : session.data = data := (of_file_eq_ok_iff.mp opened).choose_spec.2.1
  rw [sameData] at rereads
  obtain ⟨span, stored, rewrites⟩ := Assignment.rewrites rereads (fits_of_accepted accepted)
  have inside := (Bytes.slice_eq_some_iff.mp rewrites.place).1
  refine ⟨assignment.edit, stored, ?_, span ▸ replaces, rewrites, rewrites.unchanged_iff, ?_,
    rewrites.encoded_of_clean⟩
  · rw [edits_with_edits]
    rfl
  · rw [serialize_stage_eq_ok_iff addressable opened inside, rewrites.place, Option.some.injEq,
      eq_comm]
    exact rewrites.unchanged_iff

section Sample

/-- The sample with a run path that ends in three bytes of a sequence of four. -/
def tornFile : Bytes := sampleFile.splice 168 [0xf0, 0x9f, 0x92]

def tornSession : Session := (ofFile tornFile).toOption.get (by decide +kernel)

def tornImage : Elf.Image := (Elf.Image.parse tornFile).toOption.get (by decide +kernel)

def tornEdited : Session := tornSession.attempt (.elf (.setPath .runPath "/\ufffd"))

-- The replacement takes as many bytes as it stands for, so it is accepted, and the file changes.
theorem torn_path_overwritten :
    ofFile tornFile = .ok tornSession ∧
      tornSession.image = .elf tornImage ∧
      tornImage.runPath tornFile = .ok (some "/\ufffd") ∧
      tornSession.run? (.elf (.setPath .runPath "/\ufffd")) = some (.ok tornEdited) ∧
      tornEdited.image.edits.edits =
        [⟨.dynamicString 167, 167, [0x2f, 0xef, 0xbf, 0xbd, 0]⟩] ∧
      tornFile.slice? ⟨167, 5⟩ = some [0x2f, 0xf0, 0x9f, 0x92, 0] ∧
      tornEdited.serialize = .ok (tornFile.splice 168 [0xef, 0xbf, 0xbd]) ∧
      tornEdited.serialize ≠ .ok tornFile := by
  decide +kernel

theorem writing_back_samples :
    (∃ edited, sampleSession.run? (.elf (.setPath .runPath "/lib")) = some (.ok edited) ∧
        edited.serialize = .ok sampleFile) ∧
      (∃ edited, importingSession.run? (.pe ⟨.imports, 1, "b.dll"⟩) = some (.ok edited) ∧
        edited.serialize = .ok importingFile) ∧
      ∃ stored, stored.length = 4 ∧ (¬ ∃ text, stored = encode text) ∧
        Recoded stored [0x2f, 0xef, 0xbf, 0xbd] := by
  have path : sampleSession.run? (.elf (.setPath .runPath "/lib")) =
      some (.ok (sampleSession.attempt (.elf (.setPath .runPath "/lib")))) := by
    decide +kernel
  have name : importingSession.run? (.pe ⟨.imports, 1, "b.dll"⟩) =
      some (.ok (importingSession.attempt (.pe ⟨.imports, 1, "b.dll"⟩))) := by
    decide +kernel
  have torn : tornSession.run? (.elf (.setPath .runPath "/\ufffd")) = some (.ok tornEdited) := by
    decide +kernel
  have pe : importingSession.image = .pe importingImage := by decide +kernel
  have names : importingImage.importedDlls importingSession.data = .ok ["a.dll", "b.dll"] := by
    decide +kernel
  have tornElf : tornSession.image = .elf tornImage := by decide +kernel
  have tornOpened : ofFile tornFile = .ok tornSession := by decide +kernel
  have tornAddressable : tornFile.length < offsetLimit := by decide +kernel
  have pathRead : sampleSession.WritesBack "/lib" (.elf (.setPath .runPath "/lib")) :=
    .runPath sample_elf (by decide +kernel)
  have nameRead : importingSession.WritesBack "b.dll" (.pe ⟨.imports, 1, "b.dll"⟩) :=
    .imported pe names rfl
  have tornRead : tornSession.WritesBack "/\ufffd" (.elf (.setPath .runPath "/\ufffd")) :=
    .runPath tornElf (by decide +kernel)
  obtain ⟨_, _, _, _, _, _, pathKept, pathText⟩ :=
    writing_back sample_addressable sample_opened pathRead path
  obtain ⟨_, _, _, _, _, _, nameKept, nameText⟩ :=
    writing_back importing_addressable importing_opened nameRead name
  obtain ⟨_, stored, _, _, rewrites, _, tornKept, _⟩ :=
    writing_back tornAddressable tornOpened tornRead torn
  refine ⟨⟨_, path, pathKept.mpr (pathText (by decide))⟩,
    ⟨_, name, nameKept.mpr (nameText (by decide))⟩, stored, ?_, ?_, ?_⟩
  · exact rewrites.recoded.length_eq.symm
  · rw [← tornKept]
    decide +kernel
  · exact rewrites.recoded

end Sample

end Session

end BinaryImage
