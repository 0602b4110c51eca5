import BinaryImage.Proofs.Elf.SearchPaths
import BinaryImage.Proofs.Elf.StringTails

/-!
Strings of a parsed file are always answered. Strings are looked up in the table as the staged edits
leave it, while parsing has looked them up in the table of the file. An edit ends with a NUL where
the string that it replaces ended, and has room for no other one, so each NUL of the table is still
there. Nothing here asks for a file that holds to the layout rules.
-/

namespace BinaryImage

/-- Painting keeps a NUL, unless the edit has another byte for its place. -/
theorem Edit.nul_of_paint {edit : Edit} {base index : Nat} {bytes : Bytes}
    (nul : bytes[index]? = some 0)
    (own : edit.span.Covers (base + index) → edit.byteAt? (base + index) = some 0) :
    (edit.paint base bytes)[index]? = some 0 := by
  simp only [paint]
  split
  · next filled =>
    have length := edit.length_clipped filled
    have stops : edit.span.clippedStop ≤ edit.start + edit.bytes.length := by
      rw [edit.span.clippedStop_eq_min]
      exact Nat.min_le_left _ _
    rw [Bytes.getElem_splice, length]
    · split
      · next inside =>
        have covered : edit.span.Covers (base + index) := by
          simp only [Span.Covers, span]
          omega
        have place : max edit.start base - edit.start +
            (index - (max edit.start base - base)) = base + index - edit.start := by
          omega
        rw [List.getElem?_take_of_lt (by omega), List.getElem?_drop, place,
          ← byteAt_of_covers covered]
        exact own covered
      · exact nul
    · omega
  · exact nul

-- Edits may be painted over one another, and no order of them matters for this.
theorem EditSet.nul_of_overlay {staged : EditSet} {span : Span} {bytes : Bytes} {index : Nat}
    (nul : bytes[index]? = some 0)
    (own : ∀ edit ∈ staged.edits, edit.span.Covers (span.start + index) →
      edit.byteAt? (span.start + index) = some 0) :
    (staged.overlay bytes span)[index]? = some 0 := by
  have touching : ∀ edit ∈ staged.touching span, edit.span.Covers (span.start + index) →
      edit.byteAt? (span.start + index) = some 0 :=
    fun edit member => own edit (List.mem_filter.mp member).1
  unfold overlay
  generalize staged.touching span = edits at touching
  induction edits generalizing bytes with
  | nil => exact nul
  | cons edit rest ih =>
    obtain ⟨first, later⟩ := List.forall_mem_cons.mp touching
    exact ih (Edit.nul_of_paint nul first) later

namespace Elf

namespace Image

variable {data : Bytes} {fresh image : Image} {dynamic : DynamicArray} {table : StringTable}
  {bytes : Bytes}

def stringText (image : Image) (table : StringTable) (bytes : Bytes) (index : Nat) : String :=
  Text.Utf8.decode (Bytes.beforeNul ((image.edits.overlay bytes table.span).drop index))

def Shares (dynamic : DynamicArray) (table : StringTable) (bytes : Bytes) (span : Span) (tag : Nat)
    (cause : Error) : Prop :=
  ∃ other ∈ dynamic.stringEntries, ∃ place, table.entrySpan bytes other.value = .ok place ∧
    place ≠ span ∧ place.overlaps span = true ∧
    cause = .violation (.dynamicTag (Tag.name tag)) span.start
      (.sharesString (Tag.name other.tag) place)

/-- Why a search path is not set: there is no entry for it, its string is shared, or the value does
not do for the place. -/
inductive PathRefused (image : Image) (data : Bytes) (path : PathTag) : Error → Prop where
  | absent : PathRefused image data path (.notFound (.dynamicTag (Tag.name path.tag)))
  | shared {dynamic : DynamicArray} {table : StringTable} {bytes : Bytes} {span : Span}
      {cause : Error} (found : image.dynamic = some dynamic)
      (read : image.dynamicStrings data = .ok (table, bytes))
      (shares : Shares dynamic table bytes span path.tag cause) : PathRefused image data path cause
  | containsNul (target : EditTarget) : PathRefused image data path (.invalid (.containsNul target))
  | noRoom (target : EditTarget) (required capacity : Nat) :
      PathRefused image data path (.noRoom target required capacity)

/-- The strings are found in the table when the file is parsed, so all there is to find is a shared
one. -/
theorem shares_of_check_unshared {span : Span} {tag : Nat} {cause : Error}
    (found : image.dynamic = some dynamic) (read : image.dynamicStrings data = .ok (table, bytes))
    (named : ∀ other ∈ dynamic.stringEntries, ∃ place,
      table.entrySpan bytes other.value = .ok place)
    (failed : image.checkUnshared data span tag = .error cause) :
    Shares dynamic table bytes span tag cause := by
  simp only [checkUnshared, found, read, bind, Except.bind] at failed
  obtain ⟨other, member, one⟩ := error_of_forM failed
  obtain ⟨place, located⟩ := named other member
  rw [located] at one
  obtain ⟨shared, rfl⟩ := require_eq_error_iff.mp one
  simp only [Bool.or_eq_false_iff, beq_eq_false_iff_ne, Bool.not_eq_false'] at shared
  exact ⟨other, member, place, located, shared.1, shared.2, rfl⟩

theorem padded_refused {path : PathTag} {target : EditTarget} {span : Span} {text : String}
    {cause : Error} (failed : Edit.padded target span text = .error cause) :
    PathRefused image data path cause := by
  simp only [Edit.padded, bind_eq_error_iff, require_eq_error_iff] at failed
  rcases failed with ⟨_, rfl⟩ | ⟨_, _, ⟨_, rfl⟩ | ⟨_, _, done⟩⟩
  · exact .containsNul target
  · exact .noRoom target _ _
  · cases done

/-- A search path that is not set is refused for one of the reasons. -/
theorem refused_of_set_path {path : PathTag} {text : String} {cause : Error}
    (named : ∀ dynamic, image.dynamic = some dynamic → ∀ entry ∈ dynamic.stringEntries,
      ∃ span, dynamic.Names data entry span)
    (failed : image.setPath data path text = .error cause) : PathRefused image data path cause := by
  simp only [setPath, bind_eq_error_iff, require_some_eq_error_iff,
    require_some_eq_ok_iff] at failed
  rcases failed with ⟨_, rfl⟩ | ⟨entry, first, failed⟩
  · exact .absent
  · obtain ⟨dynamic, found, atTag⟩ := Option.bind_eq_some_iff.mp first
    have isString := DynamicArray.mem_string_entries_of_find atTag path.names_string
    obtain ⟨span, table, bytes, strings, sliced, located⟩ := named dynamic found entry isString
    have read := dynamic_strings_eq_ok_iff.mpr ⟨⟨dynamic, found, strings⟩, sliced⟩
    simp only [read, located, reduceCtorEq, false_or, Except.ok.injEq, exists_eq_left'] at failed
    rcases failed with checked | ⟨_, _, padded | ⟨_, _, done⟩⟩
    · refine .shared found read (shares_of_check_unshared found read ?_ checked)
      intro other inside
      obtain ⟨place, there⟩ := named dynamic found other inside
      exact ⟨place, (DynamicArray.names_iff strings sliced).mp there⟩
    · exact padded_refused padded
    · cases done

namespace StringsStaged

variable (strings : StringsStaged data fresh image) (found : fresh.dynamic = some dynamic)
include strings found

/-- Where the table of the file has a NUL, there is one in what will be written. -/
theorem nul_kept (isTable : dynamic.strings = some table)
    (sliced : data.slice? table.span = some bytes) {index : Nat} (nul : bytes[index]? = some 0) :
    (image.edits.overlay bytes table.span)[index]? = some 0 := by
  apply EditSet.nul_of_overlay nul
  intro edit member covered
  have part := strings.only edit member
  cases strings.staged.placed edit member with
  | interpreter target =>
    rw [target] at part
    cases part
  | removal => cases part
  | @path _ _ entry _ _ _ foundAgain _ _ place terminated =>
    cases found.symm.trans foundAgain
    obtain ⟨_, length, ends, span⟩ := StringTable.entry_span_eq_ok_iff.mp
      ((DynamicArray.names_iff isTable sliced).mp place)
    obtain ⟨_, live⟩ := Bytes.terminator_drop_eq_some_iff.mp ends
    have starts : edit.start = table.span.start + entry.value := congrArg Span.start span
    have count : edit.bytes.length = length + 1 := congrArg Span.length span
    rw [Edit.byteAt_of_covers covered]
    obtain ⟨above, below⟩ := covered
    simp only [Edit.span] at above below
    -- The string has one NUL, so its place is the last one of the edit.
    have last : index = entry.value + length := by
      by_contra other
      have before := live (index - entry.value) (by omega)
      rw [Nat.add_sub_cancel' (by omega)] at before
      exact before nul
    have place : table.span.start + index - edit.start = edit.bytes.length - 1 := by omega
    rw [place, ← List.getLast?_eq_getElem?, terminated]

/-- Each entry reads a string, whatever has been staged. -/
theorem string_answered (isTable : dynamic.strings = some table)
    (sliced : data.slice? table.span = some bytes) {index : Nat} {span : Span}
    (located : table.entrySpan bytes index = .ok span) :
    image.dynamicString data index = .ok (image.stringText table bytes index) := by
  obtain ⟨place, behind, nul⟩ := StringTable.names_string_iff.mp ⟨span, located⟩
  have kept := strings.nul_kept found isTable sliced nul
  have again : ∃ other, table.entrySpan (image.edits.overlay bytes table.span) index = .ok other :=
    StringTable.names_string_iff.mpr ⟨place, behind, kept⟩
  obtain ⟨other, again⟩ := again
  have present : image.dynamic.bind DynamicArray.strings = some table := by
    rw [strings.dynamic, found]
    exact isTable
  simp only [dynamic_string_eq_view, present, requireSome, view, slice, sliced, StringTable.get,
    again, bind, Except.bind, pure, Except.pure, stringText]

end StringsStaged

structure AnswersStrings (image : Image) (data : Bytes) : Prop where
  needed : ∃ names, image.needed data = .ok names
  rpath : ∃ text, image.rpath data = .ok text
  runPath : ∃ text, image.runPath data = .ok text
  soName : ∃ text, image.soName data = .ok text
  interpreterPath : ∃ path, image.interpreterPath data = .ok path

section Parsed

variable (parsed : parse data = .ok fresh) (strings : StringsStaged data fresh image)
include parsed strings

theorem entry_answered (found : fresh.dynamic = some dynamic) {entry : DynamicEntry}
    (member : entry ∈ dynamic.stringEntries) :
    ∃ text, image.dynamicString data entry.value = .ok text := by
  obtain ⟨_, table, bytes, isTable, sliced, located⟩ := strings_named_of_parse parsed found _ member
  exact ⟨_, strings.string_answered found isTable sliced located⟩

theorem tag_answered {tag : Nat} (names : Tag.namesString tag = true) :
    ∃ text, image.taggedString data tag = .ok text := by
  cases first : image.dynamic.bind fun dynamic => dynamic.find? tag with
  | none => exact ⟨none, by simp only [taggedString, first]⟩
  | some entry =>
    obtain ⟨dynamic, found, atTag⟩ := Option.bind_eq_some_iff.mp first
    rw [strings.dynamic] at found
    obtain ⟨text, read⟩ := entry_answered parsed strings found
      (DynamicArray.mem_string_entries_of_find atTag names)
    refine ⟨some text, ?_⟩
    simp only [taggedString, first, read, bind, Except.bind, pure, Except.pure]

theorem needed_answered : ∃ names, image.needed data = .ok names := by
  cases found : image.dynamic with
  | none => exact ⟨[], by simp only [needed, found]⟩
  | some dynamic =>
    simp only [needed, found]
    rw [strings.dynamic] at found
    have each : ∀ entry, ∃ text, entry ∈ dynamic.findAll Tag.needed →
        image.dynamicString data entry.value = .ok text := by
      intro entry
      by_cases member : entry ∈ dynamic.findAll Tag.needed
      · obtain ⟨text, read⟩ :=
          entry_answered parsed strings found (DynamicArray.mem_string_entries member rfl)
        exact ⟨text, fun _ => read⟩
      · exact ⟨"", fun inside => absurd inside member⟩
    choose text reads using each
    exact ⟨_, mapM_eq_ok_map reads⟩

theorem interpreter_answered : ∃ path, image.interpreterPath data = .ok path := by
  have same : image.interpreter = fresh.interpreter := by
    conv_lhs => rw [strings.staged.same]
    rfl
  cases found : image.interpreter with
  | none => exact ⟨none, by simp only [interpreterPath, found]⟩
  | some span =>
    have read := find_interpreter_of_parse parsed
    rw [← same, found] at read
    obtain ⟨_, _, _, bytes, sliced, _⟩ := find_interpreter_eq_ok_some_iff.mp read
    refine ⟨some (Text.Utf8.decode (Bytes.beforeNul (image.edits.overlay bytes span))), ?_⟩
    simp only [interpreterPath, found, view, slice, sliced, requireSome, bind, Except.bind, pure,
      Except.pure]

theorem answers_strings : image.AnswersStrings data where
  needed := needed_answered parsed strings
  rpath := tag_answered parsed strings rfl
  runPath := tag_answered parsed strings rfl
  soName := tag_answered parsed strings rfl
  interpreterPath := interpreter_answered parsed strings

end Parsed

end Image

end Elf

namespace Session

open Elf Elf.Image

/-- Once a file has been parsed, its strings are answered, whatever search paths have been set, and
no look-up of a string stands in the way of setting another one. -/
theorem strings_always_answered {data : Bytes} {image : Elf.Image}
    (parsed : Elf.Image.parse data = .ok image) {history : List Elf.Command}
    (paths : ∀ request ∈ history, request.pathTag?.isSome = true) :
    ∃ edited, ((Session.mk data (.elf image)).attemptAll (history.map .elf)).image = .elf edited ∧
      edited.AnswersStrings data ∧
      (∀ path text cause, edited.setPath data path text = .error cause →
        PathRefused edited data path cause) ∧
      ∀ dynamic table bytes, edited.dynamic = some dynamic →
        edited.dynamicStrings data = .ok (table, bytes) → ∀ span tag cause,
          edited.checkUnshared data span tag = .error cause →
            Shares dynamic table bytes span tag cause := by
  have fresh : (Session.mk data (.elf image)).image = .elf image := rfl
  obtain ⟨edited, elf, strings⟩ :=
    strings_staged_of_attempt_all fresh (unedited_of_parse parsed) paths
  have named : ∀ dynamic, edited.dynamic = some dynamic → ∀ entry ∈ dynamic.stringEntries,
      ∃ span, dynamic.Names data entry span := by
    intro dynamic found
    exact strings_named_of_parse parsed (strings.dynamic.symm.trans found)
  refine ⟨edited, elf, answers_strings parsed strings, ?_, ?_⟩
  · intro path text cause failed
    exact refused_of_set_path named failed
  · intro dynamic table bytes found read span tag cause failed
    apply shares_of_check_unshared found read _ failed
    obtain ⟨⟨_, again, isTable⟩, sliced⟩ := dynamic_strings_eq_ok_iff.mp read
    cases found.symm.trans again
    intro other member
    obtain ⟨place, there⟩ := named dynamic found other member
    exact ⟨place, (DynamicArray.names_iff isTable sliced).mp there⟩

section Sample

/-- The sample with a segment that is aligned to three bytes, which breaks a layout rule. The second
needed library is named by the string of the run path. -/
def unalignedFile : Bytes := (sampleFile.splice 80 (words [3])).splice 184 (words [11])

def unalignedImage : Elf.Image :=
  (Elf.Image.parse unalignedFile).toOption.get (by decide +kernel)

def unalignedHistory : List Elf.Command :=
  [.setPath .runPath "/b", .setPath .rpath "/b", .setPath .runPath ""]

theorem strings_always_answered_unaligned :
    Elf.Image.parse unalignedFile = .ok unalignedImage ∧ unalignedImage.validate ≠ .ok () ∧
      unalignedImage.needed unalignedFile = .ok ["a.so", "/lib"] ∧
      ∃ edited,
        ((Session.mk unalignedFile (.elf unalignedImage)).attemptAll
          (unalignedHistory.map .elf)).image = .elf edited ∧
        edited.edits.size = 1 ∧ edited.AnswersStrings unalignedFile := by
  have parsed : Elf.Image.parse unalignedFile = .ok unalignedImage := by decide +kernel
  have size : ((Session.mk unalignedFile (.elf unalignedImage)).attemptAll
      (unalignedHistory.map .elf)).image.edits.size = 1 := by
    decide +kernel
  have paths : ∀ request ∈ unalignedHistory, request.pathTag?.isSome = true := by decide
  obtain ⟨edited, elf, answers, _⟩ := strings_always_answered parsed paths
  rw [elf] at size
  exact ⟨parsed, by decide +kernel, by decide +kernel, edited, elf, size, answers⟩

end Sample

end Session

end BinaryImage
