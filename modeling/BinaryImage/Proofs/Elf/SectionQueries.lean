import BinaryImage.Proofs.Assignment
import BinaryImage.Proofs.Elf.Reopening
import BinaryImage.Proofs.FieldPlaces
import BinaryImage.Proofs.UnderstoodSpans

/-!
What is told of sections while edits are staged. Strings of the dynamic array are read through the
edits, but section names are looked up once, when a file is parsed. The layout rules let the table
of the names share bytes with another section, and then a staged search path may lie over a name. So
the answers are those of the written file as long as the edits spare the section headers and the
names; else they are out of date.
-/

namespace BinaryImage

namespace Elf

theorem StringTable.get_of_agree {a b before after : Bytes} {table : StringTable} {index : Nat}
    {name : String} (length : a.length = b.length)
    (slicedBefore : a.slice? table.span = some before)
    (slicedAfter : b.slice? table.span = some after)
    (agree : Bytes.Agree a b (a.stringSpan (table.span.start + index)))
    (got : table.get before index = .ok name) : table.get after index = .ok name := by
  obtain ⟨_, _, ends, rfl⟩ := get_eq_ok_iff.mp got
  obtain ⟨clean, fits, placed⟩ := Bytes.string_at_of_terminator slicedBefore ends
  generalize Bytes.beforeNul (before.drop index) = text at clean fits placed ⊢
  have nul : (0 : UInt8) ∈ text ++ [0] := by simp
  have alone : Bytes.beforeNul (text ++ [0]) = text :=
    Bytes.beforeNul_padded clean Nat.one_ne_zero
  have front := Bytes.beforeNul_of_slice placed nul
  rw [alone] at front
  simp only [Bytes.stringSpan, front] at agree
  have part := Bytes.slice_slice slicedAfter ⟨index, text.length + 1⟩ fits
  rw [← agree.slice length, placed] at part
  rw [table.get_of_slice part nul, alone]

namespace Image

def sectionNameSpan? (data : Bytes) (image : Image) (item : SectionHeader) : Option Span :=
  image.nameTableSpan?.map fun table => data.stringSpan (table.start + item.nameOffset)

variable {a b : Bytes} {image reread : Image}

/-- The section is the same but for its name, and the same altogether if the bytes of its name are
kept. -/
def SameBesideName (kept : Span → Prop) (data : Bytes) (image : Image) (item other : Section) :
    Prop :=
  other.toSectionHeader = item.toSectionHeader ∧
    ((∀ span ∈ image.sectionNameSpan? data item.toSectionHeader, kept span) → other = item)

theorem sections_renamed {headers : List SectionHeader} {others : List Section}
    (length : a.length = b.length)
    (named : nameSections a image.header headers image.nameTable = .ok image.sections)
    (renamed : nameSections b image.header headers image.nameTable = .ok others) :
    List.Forall₂ (SameBesideName (Bytes.Agree a b) a image) image.sections others := by
  cases isTable : image.nameTable with
  | none =>
    rw [isTable] at named renamed
    cases named.symm.trans renamed
    exact List.forall₂_same.mpr fun _ _ => ⟨rfl, fun _ => rfl⟩
  | some index =>
    have headersOf := headers_of_name_sections named
    rw [isTable] at named renamed
    simp only [nameSections, bind_eq_ok_iff, require_some_eq_ok_iff, slice_eq_ok_iff]
      at named renamed
    obtain ⟨holder, found, before, slicedBefore, all⟩ := named
    obtain ⟨_, foundAgain, after, slicedAfter, allAgain⟩ := renamed
    cases found.symm.trans foundAgain
    rw [← headersOf, List.getElem?_map, Option.map_eq_some_iff] at found
    obtain ⟨item, foundItem, rfl⟩ := found
    have place : image.nameTableSpan? = some item.fileSpan := by
      simp [nameTableSpan?, isTable, foundItem]
    refine mapM_compared all allAgain ?_
    intro bare result other done again
    simp only [bind_eq_ok_iff, pure, Except.pure, Except.ok.injEq] at done again
    obtain ⟨name, got, rfl⟩ := done
    obtain ⟨newName, gotAgain, rfl⟩ := again
    refine ⟨rfl, ?_⟩
    intro spared
    have kept := StringTable.get_of_agree length slicedBefore slicedAfter
      (spared _ (by rw [sectionNameSpan?, place]; rfl)) got
    cases kept.symm.trans gotAgain
    rfl

-- The headers are the same, so both lists of sections come from naming one list of headers.
theorem sections_reread (length : a.length = b.length) (parsed : parse a = .ok image)
    (again : parse b = .ok reread) (agree : ∀ span ∈ image.headerSpans, Bytes.Agree a b span) :
    List.Forall₂ (SameBesideName (Bytes.Agree a b) a image) image.sections reread.sections := by
  obtain ⟨_, headers, headerRead, firstRead, headersRead, _, tableIndex, named, _⟩ :=
    parse_eq_ok_iff.mp parsed
  obtain ⟨headerAgain, firstAgain, headersAgain⟩ := headers_of_agree length agree headerRead
    firstRead headersRead (headers_of_name_sections named)
  obtain ⟨_, _, headerReread, firstReread, headersReread, _, tableReread, renamed, _⟩ :=
    parse_eq_ok_iff.mp again
  have sameHeader : reread.header = image.header :=
    Except.ok.inj (headerReread.symm.trans headerAgain)
  rw [sameHeader] at firstReread headersReread tableReread renamed
  cases firstAgain.symm.trans firstReread
  cases headersAgain.symm.trans headersReread
  rw [← tableReread, tableIndex] at renamed
  exact sections_renamed length named renamed

/-- In a file written with its section headers spared, the sections are those of the image, but for
names with edited bytes. -/
theorem Opened.sections_settled {data out : Bytes} {fresh edited : Image}
    (opened : Opened data fresh) (staged : Staged data fresh edited)
    (wrote : edited.edits.write data = .ok out) (openedOut : Opened out reread)
    (spared : ∀ span ∈ fresh.headerSpans, edited.edits.Spares span) :
    List.Forall₂ (SameBesideName edited.edits.Spares data fresh) edited.sections
      reread.sections := by
  have agree : ∀ span, edited.edits.Spares span → Bytes.Agree data out span :=
    fun _ => EditSet.agree_of_spared opened.addressable wrote
  have compared := sections_reread (EditSet.length_write wrote).symm opened.parsed openedOut.parsed
    fun span isHeader => agree span (spared span isHeader)
  have kept : edited.sections = fresh.sections := by
    rw [staged.same]
    rfl
  rw [kept]
  apply compared.imp
  rintro item other ⟨header, same⟩
  exact ⟨header, fun free => same fun span isName => agree span (free span isName)⟩

theorem sections_eq_of_kept {kept : Span → Prop} {data : Bytes} {sections others : List Section}
    (related : List.Forall₂ (SameBesideName kept data image) sections others)
    (names : ∀ item ∈ sections, ∀ span ∈ image.sectionNameSpan? data item.toSectionHeader,
      kept span) : others = sections := by
  have all := (List.forall₂_and_left _ _).mpr ⟨names, related⟩
  rw [← List.forall₂_eq_eq_eq]
  apply List.Forall₂.flip
  apply all.imp
  rintro item other ⟨spared, _, same⟩
  exact same spared

end Image

end Elf

namespace Session

open Elf.Image

/-- Where the edits spare the section headers, a section is told as the written file tells it, but
for a name with edited bytes. Where they spare the names too, the answers are the same. -/
theorem section_queries_settled {data out : Bytes} {session : Session} {image : Elf.Image}
    {commands : List Command} (addressable : data.length < offsetLimit)
    (opened : ofFile data = .ok session) (elf : session.image = .elf image)
    (written : (session.attemptAll commands).serialize = .ok out)
    (spared : ∀ span ∈ image.headerSpans, (session.attemptAll commands).image.edits.Spares span) :
    ∃ edited reopened reread, (session.attemptAll commands).image = .elf edited ∧
      ofFile out = .ok reopened ∧ reopened.image = .elf reread ∧
      List.Forall₂ (SameBesideName edited.edits.Spares data image) edited.sections
        reread.sections ∧
      ((∀ item ∈ image.sections, ∀ span ∈ image.sectionNameSpan? data item.toSectionHeader,
          edited.edits.Spares span) →
        reopened.image.sections = (session.attemptAll commands).image.sections ∧
          reopened.image.hasDebugSymbols =
            (session.attemptAll commands).image.hasDebugSymbols) := by
  obtain ⟨reopened, reread, openedAgain, again, openedOut⟩ :=
    elf_of_serialize addressable opened elf written
  obtain ⟨rfl, openedImage, fresh⟩ := elf_of_file addressable opened elf
  obtain ⟨edited, elfEdited, staged⟩ := staged_of_attempt_all elf fresh commands
  obtain ⟨_, _, _, wrote, _⟩ := Image.serialize_eq_ok_iff.mp written
  rw [session.attempt_all_data, elfEdited] at wrote
  rw [elfEdited] at spared ⊢
  have related := openedImage.sections_settled staged wrote openedOut spared
  refine ⟨edited, reopened, reread, rfl, openedAgain, again, related, ?_⟩
  intro free
  have equal : reread.sections = edited.sections := by
    apply sections_eq_of_kept related
    rw [staged.same]
    exact free
  simp only [again, Image.sections, Image.hasDebugSymbols, Elf.Image.sectionSummaries,
    Elf.Image.hasDebugSymbols, equal, and_self]

section Sample

/-- The sample with its section names in the dynamic string table, beside the run path. -/
def namedSectionsFile : Bytes :=
  ((((sampleFile.splice 50 (halves [2])).splice 156
    (Text.Utf8.encode "\x00a.so\x00.debug\x00/b\x00")).splice 172
      (words [1, 1, 1, 1, 29, 13])).splice 261 (words [6])).splice 301 (words [1])

def namedSectionsSession : Session := (ofFile namedSectionsFile).toOption.get (by decide +kernel)

def namedSectionsImage : Elf.Image :=
  (Elf.Image.parse namedSectionsFile).toOption.get (by decide +kernel)

def namedSectionsEdited : Session :=
  namedSectionsSession.attemptAll [.elf (.setPath .runPath "/c"), .elf (.removeNeeded "a.so")]

def namedSectionsWritten : Bytes :=
  namedSectionsEdited.serialize.toOption.get (by decide +kernel)

theorem section_queries_settled_sample :
    ∃ reopened, ofFile namedSectionsWritten = .ok reopened ∧
      namedSectionsWritten ≠ namedSectionsFile ∧
      (∀ span ∈ namedSectionsImage.headerSpans, namedSectionsEdited.image.edits.Spares span) ∧
      namedSectionsEdited.image.sections.map SectionSummary.name = [".debug", "a.so", "", ""] ∧
      reopened.image.sections = namedSectionsEdited.image.sections ∧
      namedSectionsEdited.image.hasDebugSymbols = true ∧
      reopened.image.hasDebugSymbols = namedSectionsEdited.image.hasDebugSymbols := by
  have addressable : namedSectionsFile.length < offsetLimit := by decide +kernel
  have opened : ofFile namedSectionsFile = .ok namedSectionsSession := by decide +kernel
  have elf : namedSectionsSession.image = .elf namedSectionsImage := by decide +kernel
  have written : namedSectionsEdited.serialize = .ok namedSectionsWritten := by decide +kernel
  have spared : ∀ span ∈ namedSectionsImage.headerSpans,
      namedSectionsEdited.image.edits.Spares span := by
    decide +kernel
  have free : ∀ item ∈ namedSectionsImage.sections,
      ∀ span ∈ namedSectionsImage.sectionNameSpan? namedSectionsFile item.toSectionHeader,
        namedSectionsEdited.image.edits.Spares span := by
    decide +kernel
  obtain ⟨edited, reopened, _, elfEdited, openedAgain, _, _, settled⟩ :=
    section_queries_settled addressable opened elf written spared
  have same : namedSectionsEdited.image = .elf edited := elfEdited
  rw [same] at free
  obtain ⟨sections, symbols⟩ := settled free
  exact ⟨reopened, openedAgain, by decide +kernel, spared, by decide +kernel, sections,
    by decide +kernel, symbols⟩

/-- The sample with its section names in the dynamic string table. The first section that is in use
takes its name from the run path. -/
def sharedNamesFile : Bytes :=
  (((sampleFile.splice 50 (halves [2])).splice 156
    (Text.Utf8.encode "\x00a.so\x00.debug/x\x00\x00")).splice 172
      (words [1, 1, 1, 1, 29, 6])).splice 261 (words [6])

def sharedNamesSession : Session := (ofFile sharedNamesFile).toOption.get (by decide +kernel)

def sharedNamesEdited : Session :=
  sharedNamesSession.attemptAll [.elf (.setPath .runPath "/b")]

def sharedNamesReopened : Session :=
  (sharedNamesEdited.serialize >>= ofFile).toOption.get (by decide +kernel)

-- The search path is read through the edit, the name is not.
theorem section_name_outdated :
    ofFile sharedNamesFile = .ok sharedNamesSession ∧
      (sharedNamesEdited.serialize >>= ofFile) = .ok sharedNamesReopened ∧
      sharedNamesEdited.image.searchPath sharedNamesFile =
        sharedNamesReopened.image.searchPath sharedNamesReopened.data ∧
      sharedNamesEdited.image.sections.map SectionSummary.name = [".debug/x", "", "", ""] ∧
      sharedNamesReopened.image.sections.map SectionSummary.name = ["/b", "", "", ""] ∧
      sharedNamesEdited.image.hasDebugSymbols = true ∧
      sharedNamesReopened.image.hasDebugSymbols = false := by
  decide +kernel

end Sample

end Session

end BinaryImage
