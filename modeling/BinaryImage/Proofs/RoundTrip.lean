import BinaryImage.Proofs.EditWriting
import BinaryImage.Session

/-!
Opening and serializing. Detection looks at fewer bytes than the parsers, so it agrees with a
parser that has accepted a file; a written file can therefore be opened again, and a file without
edits is written as it was read. An image can be serialized over bytes that are not its own: then
these are read again if an edit is staged, and copied unread if none is.
-/

namespace BinaryImage

namespace Format

theorem detect_of_elf {data : Bytes} {image : Elf.Image} (long : signatureLength ≤ data.length)
    (parsed : Elf.Image.parse data = .ok image) : detect data = .ok .elf := by
  obtain ⟨_, _, headerRead, _⟩ := Elf.Image.parse_eq_ok_iff.mp parsed
  unfold Elf.FileHeader.parse at headerRead
  obtain ⟨ident, identRead, _⟩ := bind_eq_ok_iff.mp headerRead
  have magic := Elf.Ident.magic_of_parse identRead
  simp [detect, bind_eq_ok_iff, require_eq_ok_iff, long, magic, pure, Except.pure]

-- The first two bytes tell the formats apart.
theorem not_elf_of_dos {data : Bytes}
    (dos : littleAt data 0 2 = Pe.DosHeader.expectedMagic) : data.take 4 ≠ Elf.Ident.magic := by
  intro magic
  have front : data.take 2 = Elf.Ident.magic.take 2 := by
    rw [← magic, List.take_take]
    rfl
  rw [littleAt, List.drop_zero, front] at dos
  revert dos
  decide

theorem detect_of_pe {data : Bytes} {image : Pe.Image} (long : signatureLength ≤ data.length)
    (parsed : Pe.Image.parse data = .ok image) : detect data = .ok .pe := by
  obtain ⟨headers, _, _, _, headersRead, _⟩ := Pe.Image.parse_eq_ok_iff.mp parsed
  obtain ⟨dosRead, within, signature⟩ := Pe.Headers.signature_of_parse headersRead
  obtain ⟨_, expected, magicRead, offsetRead⟩ := Pe.DosHeader.parse_eq_ok_iff.mp dosRead
  have dos : littleAt data 0 2 = Pe.DosHeader.expectedMagic := magicRead.symm.trans expected
  have pointer : littleAt data Pe.DosHeader.signaturePointer 4 = headers.dos.signatureOffset :=
    offsetRead.symm
  have found : littleAt data headers.dos.signatureOffset Pe.Headers.signatureSize =
      Pe.Headers.expectedSignature := signature
  have other := not_elf_of_dos dos
  simp [detect, behindDosHeader, bind_eq_ok_iff, require_eq_ok_iff, long, other, dos, pointer,
    within, found, pure, Except.pure]

theorem detect_of_parse {format : Format} {data : Bytes} {image : Image}
    (long : signatureLength ≤ data.length) (parsed : Image.parse format data = .ok image) :
    detect data = .ok format := by
  cases format with
  | elf =>
    obtain ⟨elf, elfParsed, _⟩ := map_eq_ok_iff.mp parsed
    exact detect_of_elf long elfParsed
  | pe =>
    obtain ⟨pe, peParsed, _⟩ := map_eq_ok_iff.mp parsed
    exact detect_of_pe long peParsed
  | unknown => cases parsed

theorem long_of_detect {format : Format} {data : Bytes} (found : detect data = .ok format) :
    signatureLength ≤ data.length := by
  simp only [detect, bind_eq_ok_iff, require_eq_ok_iff, exists_const, decide_eq_true_eq] at found
  exact found.1

end Format

namespace Image

theorem format_of_parse {format : Format} {data : Bytes} {image : Image}
    (parsed : parse format data = .ok image) : image.format = format := by
  cases format with
  | elf =>
    obtain ⟨_, _, rfl⟩ := map_eq_ok_iff.mp parsed
    rfl
  | pe =>
    obtain ⟨_, _, rfl⟩ := map_eq_ok_iff.mp parsed
    rfl
  | unknown => cases parsed

theorem fresh_of_parse {format : Format} {data : Bytes} {image : Image}
    (parsed : parse format data = .ok image) :
    image.edits = EditSet.empty ∧ image.fileLength = data.length := by
  cases format with
  | elf =>
    obtain ⟨elf, elfParsed, rfl⟩ := map_eq_ok_iff.mp parsed
    exact ⟨Elf.Image.unedited_of_parse elfParsed, Elf.Image.file_length_of_parse elfParsed⟩
  | pe =>
    obtain ⟨pe, peParsed, rfl⟩ := map_eq_ok_iff.mp parsed
    exact Pe.Image.fresh_of_parse peParsed
  | unknown => cases parsed

-- Nothing is read again here: without edits the bytes need not be those of the image.
theorem unchanged_of_unedited {image : Image} {data out : Bytes}
    (written : image.serialize data = .ok out) (unedited : image.edits.isEmpty = true) :
    out = data := by
  obtain ⟨_, _, _, wrote, _⟩ := serialize_eq_ok_iff.mp written
  have none : image.edits.edits = [] := List.isEmpty_iff.mp unedited
  rw [EditSet.write, none] at wrote
  cases wrote
  rfl

theorem serialize_of_parse {format : Format} {data : Bytes} {image : Image}
    (parsed : parseValid format data = .ok image) : image.serialize data = .ok data := by
  obtain ⟨read, valid⟩ := parse_valid_eq_ok_iff.mp parsed
  obtain ⟨none, length⟩ := fresh_of_parse read
  refine serialize_eq_ok_iff.mpr ⟨length.symm, valid, ?_, ?_, ?_⟩
  · rw [none]
    rfl
  · rw [none]
    rfl
  · intro edited
    rw [none] at edited
    cases edited

end Image

namespace Session

theorem serialize_of_file {data : Bytes} {session : Session}
    (opened : ofFile data = .ok session) : session.serialize = .ok data := by
  obtain ⟨format, _, rfl, parsed⟩ := of_file_eq_ok_iff.mp opened
  exact Image.serialize_of_parse parsed

-- What any edits leave to be written can be opened again, as a file of the same format.
theorem reopen_of_serialize {data out : Bytes} {session edited : Session}
    (opened : ofFile data = .ok session) (sameData : edited.data = session.data)
    (sameFormat : edited.image.format = session.image.format)
    (written : edited.serialize = .ok out) :
    ∃ reopened, ofFile out = .ok reopened ∧ reopened.image.format = session.image.format := by
  obtain ⟨format, detected, rfl, parsed⟩ := of_file_eq_ok_iff.mp opened
  obtain ⟨read, _⟩ := Image.parse_valid_eq_ok_iff.mp parsed
  obtain ⟨_, _, _, wrote, reread⟩ := Image.serialize_eq_ok_iff.mp written
  cases empty : edited.image.edits.isEmpty with
  | true =>
    obtain rfl := Image.unchanged_of_unedited written empty
    exact ⟨session, sameData ▸ opened, rfl⟩
  | false =>
    obtain ⟨image, parsedAgain⟩ := reread empty
    rw [sameFormat, Image.format_of_parse read] at parsedAgain
    obtain ⟨readAgain, _⟩ := Image.parse_valid_eq_ok_iff.mp parsedAgain
    have long : Format.signatureLength ≤ out.length := by
      obtain ⟨_, rfl⟩ := EditSet.write_eq_ok_iff.mp wrote
      rw [List.length_mapIdx, sameData]
      exact Format.long_of_detect detected
    have detectedAgain := Format.detect_of_parse long readAgain
    refine ⟨⟨out, image⟩, of_file_eq_ok_iff.mpr ⟨format, detectedAgain, rfl, parsedAgain⟩, ?_⟩
    exact (Image.format_of_parse readAgain).trans (Image.format_of_parse read).symm

theorem serialize_round_trip {data : Bytes} {session : Session}
    (opened : ofFile data = .ok session) :
    session.serialize = .ok data ∧
      ∀ commands out, (session.attemptAll commands).serialize = .ok out →
        ∃ reopened, ofFile out = .ok reopened ∧
          reopened.image.format = session.image.format ∧ reopened.serialize = .ok out := by
  refine ⟨serialize_of_file opened, ?_⟩
  intro commands out written
  obtain ⟨reopened, openedAgain, format⟩ := reopen_of_serialize opened
    (session.attempt_all_data commands) (session.attempt_all_format commands) written
  exact ⟨reopened, openedAgain, format, serialize_of_file openedAgain⟩

section Sample

def halves (values : List Nat) : Bytes := values.flatMap (ByteOrder.big.encode 2)

def words (values : List Nat) : Bytes := values.flatMap (ByteOrder.big.encode 4)

/-- A 32-bit big-endian file with an interpreter, two needed libraries and a run path. -/
def sampleFile : Bytes :=
  -- file header
  Elf.Ident.magic ++ [1, 2, 1] ++ List.replicate 9 0 ++
  halves [2, 20] ++ words [1, 0x1000, 52, 221, 0] ++ halves [52, 32, 3, 40, 5, 4] ++
  -- segments: all that is loaded, the interpreter, the dynamic array
  words [1, 0, 0x1000, 0x1000, 421, 421, 4, 0x1000] ++
  words [3, 148, 0x1094, 0x1094, 8, 8, 4, 1] ++
  words [2, 172, 0x10ac, 0x10ac, 48, 48, 6, 4] ++
  Text.Utf8.encode "/ld.so\x00\x00" ++
  Text.Utf8.encode "\x00a.so\x00b.so\x00/lib\x00" ++
  words [1, 1, 1, 6, 29, 11, 5, 0x109c, 10, 16, 0, 0] ++
  [0] ++
  -- sections: unused, interpreter, strings, dynamic array, names
  words [0, 0, 0, 0, 0, 0, 0, 0, 0, 0] ++
  words [0, 1, 2, 0x1094, 148, 8, 0, 0, 1, 0] ++
  words [0, 3, 2, 0x109c, 156, 16, 0, 0, 1, 0] ++
  words [0, 6, 3, 0x10ac, 172, 48, 2, 0, 4, 8] ++
  words [0, 3, 0, 0, 220, 1, 0, 0, 1, 0]

def sampleSession : Session := (ofFile sampleFile).toOption.get (by decide +kernel)

/-- The third call fails, for the file has no older search path. -/
def sampleCommands : List Command :=
  [.elf (.setInterpreter "/l"), .elf (.setPath .runPath "/b"), .elf (.setPath .rpath "/b"),
    .elf (.removeNeeded "b.so")]

def sampleEdited : Bytes :=
  (sampleSession.attemptAll sampleCommands).serialize.toOption.get (by decide +kernel)

theorem sample_addressable : sampleFile.length < offsetLimit := by decide +kernel

theorem sample_opened : ofFile sampleFile = .ok sampleSession := by decide +kernel

theorem sample_written :
    (sampleSession.attemptAll sampleCommands).serialize = .ok sampleEdited := by
  decide +kernel

end Sample

theorem serialize_round_trip_sample :
    ofFile sampleFile = .ok sampleSession ∧ sampleSession.serialize = .ok sampleFile ∧
      (sampleSession.attemptAll sampleCommands).serialize = .ok sampleEdited ∧
      sampleEdited ≠ sampleFile ∧
      ∃ reopened, ofFile sampleEdited = .ok reopened ∧
        reopened.image.format = sampleSession.image.format ∧
        reopened.serialize = .ok sampleEdited := by
  have opened : ofFile sampleFile = .ok sampleSession := by decide +kernel
  have written : (sampleSession.attemptAll sampleCommands).serialize = .ok sampleEdited := by
    decide +kernel
  obtain ⟨unedited, reopens⟩ := serialize_round_trip opened
  exact ⟨opened, unedited, written, by decide +kernel, reopens sampleCommands sampleEdited written⟩

end Session

namespace Image

/-- What leaves the serializer can be read, for an image of these bytes or of any others, as long as
an edit is staged. Without one it is not read again: the bytes are handed back as they came, and can
be read if they could be before, as the bytes that an image was parsed from can. -/
theorem readable_of_serialize {image : Image} {data out : Bytes}
    (written : image.serialize data = .ok out) :
    (image.edits.isEmpty = true → out = data) ∧
      ((∃ reread, parseValid image.format out = .ok reread) ↔
        image.edits.isEmpty = false ∨ ∃ own, parseValid image.format data = .ok own) ∧
      (parse image.format data = .ok image → parseValid image.format out = .ok image) := by
  obtain ⟨_, valid, _, _, reread⟩ := serialize_eq_ok_iff.mp written
  refine ⟨unchanged_of_unedited written, ?_, ?_⟩
  · cases empty : image.edits.isEmpty with
    | true =>
      obtain rfl := unchanged_of_unedited written empty
      simp
    | false => simp [reread empty]
  · intro parsed
    have unedited : image.edits.isEmpty = true := by
      rw [(fresh_of_parse parsed).1]
      rfl
    obtain rfl := unchanged_of_unedited written unedited
    exact parse_valid_eq_ok_iff.mpr ⟨parsed, valid⟩

section Sample

def otherEntryFile : Bytes := Session.sampleFile.splice 24 [0, 0, 0x10, 4]

def emptyFile : Bytes := List.replicate 421 0

def editedSample : Image := (Session.sampleSession.attemptAll Session.sampleCommands).image

def editedOtherEntry : Bytes :=
  (editedSample.serialize otherEntryFile).toOption.get (by decide +kernel)

end Sample

theorem readable_of_serialize_sample :
    editedSample.serialize otherEntryFile = .ok editedOtherEntry ∧
      (∃ reread, parseValid editedSample.format editedOtherEntry = .ok reread) ∧
      Session.sampleSession.image.serialize Session.sampleFile = .ok Session.sampleFile ∧
      parseValid Session.sampleSession.image.format Session.sampleFile =
        .ok Session.sampleSession.image := by
  have foreign : editedSample.serialize otherEntryFile = .ok editedOtherEntry := by decide +kernel
  have own : Session.sampleSession.image.serialize Session.sampleFile =
      .ok Session.sampleFile := by decide +kernel
  have staged : editedSample.edits.isEmpty = false := by decide +kernel
  have parsed : parse Session.sampleSession.image.format Session.sampleFile =
      .ok Session.sampleSession.image := by decide +kernel
  exact ⟨foreign, (readable_of_serialize foreign).2.1.mpr (.inl staged), own,
    (readable_of_serialize own).2.2 parsed⟩

-- The image is that of the sample file, and of the other file no more than the length is checked.
theorem unreadable_copy_written :
    parse .elf Session.sampleFile = .ok Session.sampleSession.image ∧
      Session.sampleSession.image.validate = .ok () ∧
      emptyFile.length = Session.sampleFile.length ∧
      Session.sampleSession.image.serialize emptyFile = .ok emptyFile ∧
      Elf.Image.parse emptyFile = .error (.malformedElf 0 .badMagic) := by
  decide +kernel

end Image

end BinaryImage
