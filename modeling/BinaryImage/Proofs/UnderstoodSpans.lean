import BinaryImage.Proofs.Elf.DynamicEntries
import BinaryImage.Proofs.Elf.Tables
import BinaryImage.Proofs.Pe.DescriptorTables

/-!
What parsing looks at. An image names the spans of its file that it was read from: headers, tables,
and the strings that they lead to. Where these spans lie is told by the file itself, so each reader
is followed in turn: what it reads places what is read next. Files of one length that agree on the
spans of an image are both read as this image.
-/

namespace BinaryImage

namespace Elf.Image

def segmentTableSpan (image : Image) : Span :=
  ⟨image.header.programHeaderOffset,
    image.segments.length * image.header.fileClass.programHeaderSize⟩

def arraySpan? (image : Image) : Option Span := image.dynamic.map DynamicArray.span

def stringsSpan? (image : Image) : Option Span := do
  let dynamic ← image.dynamic
  let table ← dynamic.strings
  return table.span

def understood (image : Image) : List Span :=
  image.headerSpans ++ [image.segmentTableSpan] ++ image.nameTableSpan?.toList ++
    image.interpreter.toList ++ image.arraySpan?.toList ++ image.stringsSpan?.toList

variable {a b : Bytes} {image : Image}

theorem parse_of_understood (length : a.length = b.length) (parsed : parse a = .ok image)
    (agree : ∀ span ∈ image.understood, Bytes.Agree a b span) : parse b = .ok image := by
  obtain ⟨first?, headers, headerRead, firstRead, headersRead, segmentsRead, tableIndex, named,
    loads, interpreterFound, dynamicFound, fileLength, unedited⟩ := parse_eq_ok_iff.mp parsed
  obtain ⟨headerAgain, firstAgain, headersAgain⟩ := headers_of_agree length
    (fun span inside => agree span (by simp [understood, inside])) headerRead firstRead headersRead
    (headers_of_name_sections named)
  have segmentsAgree := agree image.segmentTableSpan (by simp [understood])
  have namesAgree : ∀ span ∈ image.nameTableSpan?, Bytes.Agree a b span := by
    intro span found
    exact agree span (by simp [understood, Option.mem_def.mp found])
  have interpreterAgree : ∀ span ∈ image.interpreter, Bytes.Agree a b span := by
    intro span found
    exact agree span (by simp [understood, Option.mem_def.mp found])
  have arrayAgree : ∀ dynamic ∈ image.dynamic, Bytes.Agree a b dynamic.span := by
    intro dynamic found
    exact agree _ (by simp [understood, arraySpan?, Option.mem_def.mp found])
  have stringsAgree : ∀ dynamic ∈ image.dynamic, ∀ table ∈ dynamic.strings,
      Bytes.Agree a b table.span := by
    intro dynamic found table strings
    exact agree _
      (by simp [understood, stringsSpan?, Option.mem_def.mp found, Option.mem_def.mp strings])
  exact parse_eq_ok_iff.mpr ⟨first?, headers, headerAgain, firstAgain, headersAgain,
    program_headers_of_agree length segmentsAgree segmentsRead, tableIndex,
    name_sections_of_agree length namesAgree named, loads,
    find_interpreter_of_agree length interpreterAgree interpreterFound,
    find_dynamic_of_agree length arrayAgree stringsAgree dynamicFound,
    fileLength.trans length, unedited⟩

end Elf.Image

namespace Pe

variable {a b : Bytes}

theorem DescriptorKind.parse_of_agree {Descriptor : Type} {kind : DescriptorKind Descriptor}
    {sections : List Section} {offset : Nat} {record : Bytes} {descriptor : Descriptor}
    (length : a.length = b.length) (agree : Bytes.Agree a b (kind.name descriptor))
    (parsed : kind.parse a sections offset record = .ok descriptor) :
    kind.parse b sections offset record = .ok descriptor := by
  obtain ⟨bare, read, name, named, rfl⟩ := parse_eq_ok_iff.mp parsed
  rw [kind.name_named] at agree
  exact parse_eq_ok_iff.mpr ⟨bare, read, name, resolve_name_of_agree length agree named, rfl⟩

namespace Image

def understood (image : Image) : List Span :=
  [⟨0, headersStop image.headers⟩] ++ image.descriptorTables ++ image.nameSpans

variable {image : Image}

section Understood

variable (length : a.length = b.length) (agree : ∀ span ∈ image.understood, Bytes.Agree a b span)
include length agree

theorem table_of_understood {Descriptor : Type} {kind : DescriptorKind Descriptor}
    {descriptors : List Descriptor}
    (isTable : ∀ table ∈ image.tableSpan? kind descriptors.length, table ∈ image.descriptorTables)
    (isName : ∀ descriptor ∈ descriptors, kind.name descriptor ∈ image.nameSpans)
    (read : parseTable kind a image.headers image.sections = .ok descriptors) :
    parseTable kind b image.headers image.sections = .ok descriptors := by
  have tablesAgree : ∀ table ∈ image.tableSpan? kind descriptors.length,
      Bytes.Agree a b table := by
    intro table place
    exact agree table (List.mem_append_left _ (List.mem_append_right _ (isTable table place)))
  obtain ⟨others, again, same⟩ := table_of_agree id length tablesAgree
    (fun descriptor member offset record parsed =>
      ⟨descriptor, DescriptorKind.parse_of_agree length
        (agree _ (List.mem_append_right _ (isName descriptor member))) parsed, rfl⟩) read
  rw [List.map_id, List.map_id] at same
  rw [again, same]

theorem parse_of_understood (parsed : parse a = .ok image) : parse b = .ok image := by
  have importsAgain := table_of_understood length agree (fun _ => import_table_mem)
    (fun _ => import_name_mem) (imports_of_parse parsed)
  have delayImportsAgain := table_of_understood length agree (fun _ => delay_import_table_mem)
    (fun _ => delay_import_name_mem) (delay_imports_of_parse parsed)
  obtain ⟨headers, sections, imports, delayImports, headersRead, sectionsRead, _, _, rfl⟩ :=
    parse_eq_ok_iff.mp parsed
  obtain ⟨headersAgain, sectionsAgain⟩ :=
    headers_parsed_of_agree length (agree _ (by simp [understood])) headersRead sectionsRead
  rw [length]
  exact parse_eq_ok_iff.mpr ⟨headers, sections, imports, delayImports, headersAgain, sectionsAgain,
    importsAgain, delayImportsAgain, rfl⟩

end Understood

end Image

end Pe

namespace Image

def understood : Image → List Span
  | elf image => image.understood
  | pe image => image.understood

/-- What is parsed is told by the length of a file and by the spans that the outcome names. Nothing
else of the file is looked at. -/
theorem parse_of_agreement {format : Format} {a b : Bytes} {image : Image}
    (parsed : parse format a = .ok image) (length : a.length = b.length)
    (agree : ∀ span ∈ image.understood, Bytes.Agree a b span) : parse format b = .ok image := by
  cases format with
  | elf =>
    obtain ⟨elf, elfParsed, rfl⟩ := map_eq_ok_iff.mp parsed
    exact map_eq_ok_iff.mpr ⟨elf, Elf.Image.parse_of_understood length elfParsed agree, rfl⟩
  | pe =>
    obtain ⟨pe, peParsed, rfl⟩ := map_eq_ok_iff.mp parsed
    exact map_eq_ok_iff.mpr ⟨pe, Pe.Image.parse_of_understood length agree peParsed, rfl⟩
  | unknown => cases parsed

section Sample

open Session

def tailedElf : Image := (parse .elf (sampleFile ++ [7])).toOption.get (by decide +kernel)

def tailedPe : Image := (parse .pe (importingFile ++ [7])).toOption.get (by decide +kernel)

-- In both files all spans that are read end in front of the last byte.
theorem parse_of_agreement_tails :
    tailedElf.understood = [⟨0, 52⟩, ⟨221, 200⟩, ⟨221, 40⟩, ⟨52, 96⟩, ⟨220, 1⟩, ⟨148, 8⟩,
        ⟨172, 48⟩, ⟨156, 16⟩] ∧
      parse .elf (sampleFile ++ [7]) = .ok tailedElf ∧
      parse .elf (sampleFile ++ [9]) = .ok tailedElf ∧
      parse .pe (importingFile ++ [7]) = .ok tailedPe ∧
      parse .pe (importingFile ++ [9]) = .ok tailedPe := by
  have elf : parse .elf (sampleFile ++ [7]) = .ok tailedElf := by decide +kernel
  have elfInside : ∀ span ∈ tailedElf.understood,
      span.start + span.length ≤ sampleFile.length := by
    decide +kernel
  have pe : parse .pe (importingFile ++ [7]) = .ok tailedPe := by decide +kernel
  have peInside : ∀ span ∈ tailedPe.understood,
      span.start + span.length ≤ importingFile.length := by
    decide +kernel
  refine ⟨by decide +kernel, elf, ?_, pe, ?_⟩
  · exact parse_of_agreement elf (by simp)
      fun span inside => Bytes.agree_append _ _ _ (elfInside span inside)
  · exact parse_of_agreement pe (by simp)
      fun span inside => Bytes.agree_append _ _ _ (peInside span inside)

end Sample

end Image

end BinaryImage
