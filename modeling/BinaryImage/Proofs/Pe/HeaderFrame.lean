import BinaryImage.Pe.Layout
import BinaryImage.Proofs.Pe.FieldRanges
import BinaryImage.Proofs.Pe.Renaming
import BinaryImage.Proofs.RoundTrip

/-!
Headers out of the reach of renames. A name is found in the raw data of a section, which the layout
rules keep behind the headers, and the headers and sections are read from nothing else than the
bytes in front. So they are read again as they were, whatever is renamed.
-/

namespace BinaryImage.Pe

variable {a b : Bytes}

theorem DosHeader.parse_of_agree {dos : DosHeader} (length : a.length = b.length)
    (agree : Bytes.Agree a b ⟨0, size⟩) (parsed : parse a = .ok dos) : parse b = .ok dos := by
  obtain ⟨long, expected, magicRead, offsetRead⟩ := parse_eq_ok_iff.mp parsed
  have magicAgree : Bytes.Agree a b ⟨0, 2⟩ := agree.mono (Nat.le_refl _) (by decide)
  have pointerAgree : Bytes.Agree a b ⟨signaturePointer, 4⟩ :=
    agree.mono (Nat.zero_le _) (by decide)
  rw [magicAgree.take] at magicRead
  rw [pointerAgree.drop_take] at offsetRead
  exact parse_eq_ok_iff.mpr ⟨length ▸ long, expected, magicRead, offsetRead⟩

-- The stated size leaves room for all fields in front of the data directories.
theorem OptionalHeader.directories_inside {data : Bytes} {base : Nat} {header : OptionalHeader}
    (parsed : parse data base = .ok header) :
    OptionalKind.directoriesOffset .pe32 ≤ data.length := by
  simp only [parse, bind_eq_ok_iff, require_eq_ok_iff, exists_const, decide_eq_true_eq] at parsed
  rcases parsed with ⟨_, _, kind, _, fixed, _, within, _⟩
  have least : OptionalKind.directoriesOffset .pe32 ≤ kind.directoriesOffset := by
    cases kind <;> decide
  omega

namespace Headers

-- The signature may stand inside the DOS header. The fields behind it still reach further.
theorem dos_header_inside {data : Bytes} {headers : Headers} (parsed : parse data = .ok headers) :
    DosHeader.size ≤ headers.sectionTableOffset := by
  obtain ⟨_, optional, table, within, _, _, optionalRead⟩ := parse_eq_ok_iff.mp parsed
  have room := OptionalHeader.directories_inside optionalRead
  rw [List.length_take] at room
  simp only [OptionalKind.directoriesOffset, DosHeader.size] at room ⊢
  omega

theorem parse_of_agree {headers : Headers} (length : a.length = b.length)
    (agree : Bytes.Agree a b ⟨0, headers.sectionTableOffset⟩) (parsed : parse a = .ok headers) :
    parse b = .ok headers := by
  have dosInside := dos_header_inside parsed
  obtain ⟨dosRead, optional, table, within, signatureRead, coffRead, optionalRead⟩ :=
    parse_eq_ok_iff.mp parsed
  have part : ∀ start count, start + count ≤ headers.sectionTableOffset →
      (a.drop start).take count = (b.drop start).take count := by
    intro start count stop
    exact Bytes.Agree.drop_take (agree.mono (Nat.zero_le _) (by simpa using stop))
  have dosAgree : Bytes.Agree a b ⟨0, DosHeader.size⟩ :=
    agree.mono (Nat.le_refl _) (by simpa using dosInside)
  rw [part _ _ (by omega)] at signatureRead coffRead optionalRead
  exact parse_eq_ok_iff.mpr ⟨DosHeader.parse_of_agree length dosAgree dosRead, optional, table,
    length ▸ within, signatureRead, coffRead, optionalRead⟩

end Headers

namespace Image

theorem parse_sections_congr {headers : Headers} (length : a.length = b.length)
    (agree : Bytes.Agree a b (sectionTable headers)) :
    parseSections a headers = parseSections b headers := by
  simp only [parseSections, agree.slice length]

theorem length_of_parse_sections {data : Bytes} {headers : Headers} {sections : List Section}
    (read : parseSections data headers = .ok sections) :
    sections.length = headers.coff.sectionCount := by
  simp only [parseSections, bind_eq_ok_iff, mapM_eq_ok_iff] at read
  rcases read with ⟨_, _, all⟩
  rw [← all.length_eq, List.length_range]

def headersStop (headers : Headers) : Nat :=
  headers.sectionTableOffset + Section.recordSize * headers.coff.sectionCount

theorem headers_parsed_of_agree {headers : Headers} {sections : List Section}
    (length : a.length = b.length) (agree : Bytes.Agree a b ⟨0, headersStop headers⟩)
    (headersRead : Headers.parse a = .ok headers)
    (sectionsRead : parseSections a headers = .ok sections) :
    Headers.parse b = .ok headers ∧ parseSections b headers = .ok sections := by
  have headersAgree : Bytes.Agree a b ⟨0, headers.sectionTableOffset⟩ := by
    apply agree.mono
    · exact Nat.le_refl _
    · simp only [headersStop]
      omega
  have tableAgree : Bytes.Agree a b (sectionTable headers) := by
    apply agree.mono
    · exact Nat.zero_le _
    · simp only [headersStop, sectionTable, Nat.mul_comm]
      omega
  refine ⟨Headers.parse_of_agree length headersAgree headersRead, ?_⟩
  rw [← parse_sections_congr length tableAgree]
  exact sectionsRead

variable {data : Bytes} {fresh image : Image}

theorem validate_eq_ok_iff :
    image.validate = .ok () ↔
      image.checkAlignment .sections image.headers.optional.sectionAlignment = .ok () ∧
        image.checkAlignment .file image.headers.optional.fileAlignment = .ok () ∧
        image.headersSpan.fitsIn image.fileLength = true ∧
        Span.fitsIn ⟨0, image.headers.optional.headersSize⟩ image.fileLength = true ∧
        (∀ item ∈ image.sections, image.checkSection item = .ok ()) ∧
        Layout.checkDisjoint .rawData Layout.noExcuse image.rawRegions = .ok () ∧
        Layout.checkDisjoint .addresses Layout.noExcuse image.memoryRegions = .ok () := by
  simp only [validate, check_bind_eq_ok_iff, forM_eq_ok_iff, Layout.checkInside, require_eq_ok_iff]

-- The headers start at the start of the file, so what does not overlap them lies behind.
theorem headers_before_raw_data (parsed : parse data = .ok image) (valid : image.validate = .ok ())
    {item : Section} (member : item ∈ image.sections) {place : Nat}
    (inRaw : item.rawSpan.Covers place) : image.headersSpan.length ≤ place := by
  obtain ⟨_, _, _, _, _, disjoint, _⟩ := validate_eq_ok_iff.mp valid
  by_contra before
  have inHeaders : image.headersSpan.Covers place :=
    ⟨Nat.zero_le _, by simpa [headersSpan] using before⟩
  have excuse := Layout.excused_of_check_disjoint (fun _ _ => rfl) disjoint List.mem_cons_self
    (List.mem_cons_of_mem _ (List.mem_map_of_mem member)) (by simp)
    (Span.overlaps_of_covers (ranged_of_parse parsed item member).raw_fits inHeaders inRaw)
  cases excuse

namespace Opened

theorem headers_span (opened : Opened data fresh) :
    fresh.headersSpan = ⟨0, headersStop fresh.headers⟩ := by
  obtain ⟨headers, sections, _, _, _, sectionsRead, _, _, rfl⟩ := parse_eq_ok_iff.mp opened.parsed
  simp only [headersSpan, headersStop, length_of_parse_sections sectionsRead, Nat.mul_comm]

theorem raw_data_behind (opened : Opened data fresh) {item : Section}
    (member : item ∈ fresh.sections) (placed : item.rawOffset ≠ 0) (filled : 0 < item.rawSize) :
    headersStop fresh.headers ≤ item.rawOffset := by
  have inRaw : item.rawSpan.Covers item.rawOffset := by
    rw [Section.rawSpan, if_neg placed]
    exact ⟨Nat.le_refl _, Nat.lt_add_of_pos_right filled⟩
  have behind := headers_before_raw_data opened.parsed opened.valid member inRaw
  rwa [opened.headers_span] at behind

-- The name may run on past its section, but it starts in raw data.
theorem name_behind (opened : Opened data fresh) {span : Span} (isName : span ∈ fresh.nameSpans) :
    headersStop fresh.headers ≤ span.start := by
  obtain ⟨rva, descriptor, named⟩ := resolves_of_parse opened.parsed span isName
  obtain ⟨_, start, located, _, _, _, rfl⟩ := resolve_name_eq_ok_iff.mp named
  obtain ⟨item, only, offset⟩ := file_offset_eq_ok_iff.mp located
  obtain ⟨reached, placed, rfl⟩ := Section.file_offset_eq_ok_iff.mp offset
  have member : item ∈ fresh.sections := by
    apply List.mem_of_mem_filter
    rw [only]
    exact List.mem_singleton_self item
  have behind := opened.raw_data_behind member placed (Nat.zero_lt_of_lt reached)
  exact Nat.le_trans behind (Nat.le_add_right _ _)

theorem agree_headers (opened : Opened data fresh) (staged : Staged fresh image) {out : Bytes}
    (wrote : image.edits.write data = .ok out) :
    Bytes.Agree data out ⟨0, headersStop fresh.headers⟩ := by
  apply EditSet.agree_of_uncovered wrote
  intro edit member offset inHeaders inEdit
  have behind := opened.name_behind (staged.placed edit member).place
  have below := inHeaders.2
  have reached := inEdit.1
  simp only at below
  omega

/-- Headers and sections are parsed from the written file as they were. -/
theorem headers_parsed_again (opened : Opened data fresh) (staged : Staged fresh image)
    {out : Bytes} (wrote : image.edits.write data = .ok out) :
    Headers.parse out = .ok fresh.headers ∧
      parseSections out fresh.headers = .ok fresh.sections := by
  obtain ⟨_, _, _, _, headersRead, sectionsRead, _, _, rfl⟩ := parse_eq_ok_iff.mp opened.parsed
  exact headers_parsed_of_agree (EditSet.length_write wrote).symm
    (opened.agree_headers staged wrote) headersRead sectionsRead

/-- What is parsed from the written file starts with the same headers and sections. -/
theorem headers_reread (opened : Opened data fresh) (staged : Staged fresh image) {out : Bytes}
    (wrote : image.edits.write data = .ok out) {reread : Image} (parsed : parse out = .ok reread) :
    reread.headers = fresh.headers ∧ reread.sections = fresh.sections := by
  obtain ⟨headersAgain, sectionsAgain⟩ := opened.headers_parsed_again staged wrote
  obtain ⟨headers, sections, _, _, headersReread, sectionsReread, _, _, rfl⟩ :=
    parse_eq_ok_iff.mp parsed
  cases headersAgain.symm.trans headersReread
  cases sectionsAgain.symm.trans sectionsReread
  exact ⟨rfl, rfl⟩

end Opened

end Image

end BinaryImage.Pe

namespace BinaryImage.Session

open Pe.Image

-- A name may start in one section and end in another, and the signature may lie in the DOS header;
-- no rename reaches what the headers and sections are read from.
theorem renames_behind_headers {data : Bytes} {session : Session} {image : Pe.Image}
    (addressable : data.length < offsetLimit) (opened : ofFile data = .ok session)
    (pe : session.image = .pe image) (commands : List Command) :
    (∀ edit ∈ (session.attemptAll commands).image.edits.edits,
      headersStop image.headers ≤ edit.start) ∧
      ∀ out, (session.attemptAll commands).serialize = .ok out →
        ∃ reread, Pe.Image.parse out = .ok reread ∧ reread.headers = image.headers ∧
          reread.sections = image.sections := by
  obtain ⟨rfl, openedImage, fresh⟩ := pe_of_file addressable opened pe
  obtain ⟨edited, peEdited, staged⟩ := renamed_of_attempt_all pe fresh commands
  constructor
  · rw [peEdited]
    intro edit member
    exact openedImage.name_behind (staged.placed edit member).place
  · intro out written
    obtain ⟨reopened, openedAgain, format⟩ := reopen_of_serialize opened
      (session.attempt_all_data commands) (session.attempt_all_format commands) written
    obtain ⟨_, _, _, wrote, _⟩ := Image.serialize_eq_ok_iff.mp written
    rw [peEdited, session.attempt_all_data] at wrote
    cases again : reopened.image with
    | elf reread =>
      rw [again, pe] at format
      cases format
    | pe reread =>
      have outAddressable : out.length < offsetLimit := EditSet.length_write wrote ▸ addressable
      obtain ⟨_, openedOut, _⟩ := pe_of_file outAddressable openedAgain again
      exact ⟨reread, openedOut.parsed, openedImage.headers_reread staged wrote openedOut.parsed⟩

section Sample

def importingImage : Pe.Image := (Pe.Image.parse importingFile).toOption.get (by decide +kernel)

def importingRenamed : Bytes :=
  (importingSession.attemptAll importingCommands).serialize.toOption.get (by decide +kernel)

theorem renames_behind_headers_importing :
    headersStop importingImage.headers = 240 ∧
      (importingSession.attemptAll importingCommands).image.needed importingFile =
        .ok ["x.dll", "y"] ∧
      (∀ edit ∈ (importingSession.attemptAll importingCommands).image.edits.edits,
        headersStop importingImage.headers ≤ edit.start) ∧
      importingRenamed ≠ importingFile ∧
      ∃ reread, Pe.Image.parse importingRenamed = .ok reread ∧
        reread.headers = importingImage.headers ∧ reread.sections = importingImage.sections := by
  have pe : importingSession.image = .pe importingImage := by decide +kernel
  have written : (importingSession.attemptAll importingCommands).serialize =
      .ok importingRenamed := by
    decide +kernel
  obtain ⟨behind, kept⟩ :=
    renames_behind_headers importing_addressable importing_opened pe importingCommands
  exact ⟨by decide +kernel, by decide +kernel, behind, by decide +kernel,
    kept importingRenamed written⟩

end Sample

end BinaryImage.Session
