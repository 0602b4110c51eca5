import BinaryImage.Proofs.Elf.Placement
import BinaryImage.Proofs.Elf.StringTails

/-!
Strings of the dynamic string table under edits. A string that is still named is either replaced as
a whole, by the edit of its place, or left as the file has it. What is read at its index is what
its own bytes say, whatever stands behind them.
-/

namespace BinaryImage

namespace EditSet

/-- The bytes of a dynamic string as they will be written: those of the edit of its place, or else
those of the file. -/
def stringBytes? (staged : EditSet) (data : Bytes) (place : Span) : Option Bytes :=
  match staged.get? (.dynamicString place.start) with
  | some edit => some edit.bytes
  | none => data.slice? place

end EditSet

namespace Elf

namespace StringTable

variable (table : StringTable) {bytes record : Bytes} {index length : Nat}

theorem entry_span_of_slice (sliced : bytes.slice? ⟨index, length⟩ = some record)
    (nul : 0 ∈ record) : ∃ place, table.entrySpan bytes index = .ok place := by
  obtain ⟨_, rfl⟩ := Bytes.slice_eq_some_iff.mp sliced
  obtain ⟨place, found⟩ := List.mem_iff_getElem?.mp (List.mem_of_mem_take nul)
  rw [List.getElem?_drop] at found
  exact names_string_iff.mpr ⟨index + place, Nat.le_add_right _ _, found⟩

-- A terminated part of the table decides what is read at its start.
theorem get_of_slice (sliced : bytes.slice? ⟨index, length⟩ = some record) (nul : 0 ∈ record) :
    table.get bytes index = .ok (Text.Utf8.decode (Bytes.beforeNul record)) := by
  obtain ⟨place, found⟩ := table.entry_span_of_slice sliced nul
  have front := Bytes.beforeNul_of_slice sliced nul
  simp only at front
  simp only [get, found, front, bind, Except.bind, pure, Except.pure]

end StringTable

/-- Strings that start at one place are one string. -/
theorem DynamicArray.Names.unique {dynamic : DynamicArray} {data : Bytes} {a b : DynamicEntry}
    {spanA spanB : Span} (namedA : dynamic.Names data a spanA) (namedB : dynamic.Names data b spanB)
    (start : spanA.start = spanB.start) : spanA = spanB := by
  rcases namedA with ⟨table, bytes, strings, sliced, foundA⟩
  have foundB := (names_iff strings sliced).mp namedB
  obtain ⟨_, lengthA, _, placeA⟩ := StringTable.entry_span_eq_ok_iff.mp foundA
  obtain ⟨_, lengthB, _, placeB⟩ := StringTable.entry_span_eq_ok_iff.mp foundB
  have values : a.value = b.value := by
    rw [placeA, placeB] at start
    exact Nat.add_left_cancel start
  rw [values] at foundA
  exact Except.ok.inj (foundA.symm.trans foundB)

namespace Image

variable {data out : Bytes} {fresh : Image} {staged : EditSet} {dynamic : DynamicArray}

-- Of a string that is still named, either all is replaced or nothing.
theorem Opened.string_held (opened : Opened data fresh)
    (placed : ∀ edit ∈ staged.edits, Placed data fresh staged edit)
    (apart : staged.edits.Pairwise Edit.Apart) (wrote : staged.write data = .ok out)
    (found : fresh.dynamic = some dynamic) {entry : DynamicEntry}
    (member : entry ∈ dynamic.stringEntries) (present : staged.removes entry.index = false)
    {place : Span} (named : dynamic.Names data entry place)
    (reached : ∀ edit ∈ staged.edits, ∀ offset, place.Covers offset → edit.span.Covers offset →
      edit.target.part? = some .dynamicStrings) :
    ∃ record, staged.stringBytes? data place = some record ∧ out.slice? place = some record ∧
      0 ∈ record := by
  unfold EditSet.stringBytes?
  cases filled : staged.get? (.dynamicString place.start) with
  | some edit =>
    have inside : edit ∈ staged.edits := List.mem_of_find?_eq_some filled
    have target : edit.target = .dynamicString place.start := by
      simpa using List.find?_some filled
    obtain ⟨own, _, _, _, foundAgain, _, _, ownNamed, terminated, _⟩ :=
      (placed edit inside).of_strings (by rw [target]; rfl)
    cases found.symm.trans foundAgain
    have same : edit.span = place :=
      ownNamed.unique named (EditTarget.dynamicString.inj (own.symm.trans target))
    exact ⟨edit.bytes, rfl, same ▸ EditSet.slice_write_of_mem wrote apart inside, terminated⟩
  | none =>
    have agree : Bytes.Agree data out place := by
      apply EditSet.agree_of_uncovered wrote
      intro edit inside offset inPlace covered
      obtain ⟨target, _, _, _, foundAgain, _, _, _, _, unshared⟩ :=
        (placed edit inside).of_strings (reached edit inside offset inPlace covered)
      cases found.symm.trans foundAgain
      rcases unshared entry member present place named with same | free
      · have missing := List.find?_eq_none.mp filled edit inside
        rw [target, same] at missing
        simp [Edit.span] at missing
      · have small := opened.below_limit (opened.edit_inside placed inside)
        exact Span.not_covers_of_apart small free inPlace covered
    rcases named.in_table with ⟨_, _, _, _, _, _, _, record, sliced, nul⟩
    have length := (EditSet.length_write wrote).symm
    exact ⟨record, sliced, agree.slice length ▸ sliced, nul⟩

end Image

end Elf

end BinaryImage
