import BinaryImage.Image
import BinaryImage.Proofs.Agreement
import BinaryImage.Proofs.Overlap
import Mathlib.Control.Monad.Basic

/-!
What staged edits do to a file, byte by byte. Writing them one after the other and looking through
them at a slice of the file come to the same bytes, whether or not the edits overlap. Where they
do not, each byte comes from the one edit that covers it, in whatever order the edits are written.
-/

namespace BinaryImage

namespace Edit

/-- The byte at a place once edits are laid over it, the last of them on top. -/
def settle (edits : List Edit) (offset : Nat) (byte : UInt8) : UInt8 :=
  edits.foldl (fun below edit => (edit.byteAt? offset).getD below) byte

theorem settle_cons (edit : Edit) (rest : List Edit) (offset : Nat) (byte : UInt8) :
    settle (edit :: rest) offset byte =
      settle rest offset ((edit.byteAt? offset).getD byte) := rfl

theorem settle_of_uncovered {edits : List Edit} {offset : Nat}
    (free : ∀ edit ∈ edits, ¬ edit.span.Covers offset) (byte : UInt8) :
    settle edits offset byte = byte := by
  induction edits with
  | nil => rfl
  | cons edit rest ih =>
    have unread := (edit.byteAt_eq_none_iff offset).mpr (free edit (by simp))
    rw [settle_cons, unread, Option.getD_none]
    exact ih fun item member => free item (List.mem_cons_of_mem _ member)

def Apart (a b : Edit) : Prop := ∀ offset, ¬ (a.span.Covers offset ∧ b.span.Covers offset)

-- Apart edits do not hide one another, so the one that covers a place decides.
theorem settle_of_covers {edits : List Edit} (apart : edits.Pairwise Apart) {edit : Edit}
    (member : edit ∈ edits) {offset : Nat} (inside : edit.span.Covers offset) (byte : UInt8) :
    edit.bytes[offset - edit.start]? = some (settle edits offset byte) := by
  induction edits generalizing byte with
  | nil => cases member
  | cons first rest ih =>
    obtain ⟨firstApart, restApart⟩ := List.pairwise_cons.mp apart
    rw [settle_cons]
    rcases List.mem_cons.mp member with rfl | later
    · have free : ∀ item ∈ rest, ¬ item.span.Covers offset := by
        intro item inRest covered
        exact firstApart item inRest offset ⟨inside, covered⟩
      have known : offset - edit.start < edit.bytes.length := by
        have reached : edit.start ≤ offset := inside.1
        have below : offset < edit.start + edit.bytes.length := inside.2
        omega
      rw [settle_of_uncovered free, byteAt_of_covers inside, List.getElem?_eq_getElem known,
        Option.getD_some]
    · exact ih restApart later _

theorem apart_comm {a b : Edit} (apart : Apart a b) : Apart b a := by
  intro offset both
  exact apart offset ⟨both.2, both.1⟩

-- The order of apart edits does not matter.
theorem settle_perm {edits reordered : List Edit} (apart : edits.Pairwise Apart)
    (order : reordered.Perm edits) (offset : Nat) (byte : UInt8) :
    settle reordered offset byte = settle edits offset byte := by
  have stillApart : reordered.Pairwise Apart := (order.pairwise_iff apart_comm).mpr apart
  by_cases covered : ∃ edit ∈ edits, edit.span.Covers offset
  · rcases covered with ⟨edit, member, inside⟩
    have before := settle_of_covers apart member inside byte
    have after := settle_of_covers stillApart (order.mem_iff.mpr member) inside byte
    rw [before] at after
    exact (Option.some.inj after).symm
  · have free : ∀ edit ∈ edits, ¬ edit.span.Covers offset := by
      intro edit member inside
      exact covered ⟨edit, member, inside⟩
    rw [settle_of_uncovered free, settle_of_uncovered]
    intro edit member
    exact free edit (order.mem_iff.mp member)

theorem overlaps_eq_false_iff_apart {a b : Edit} {size : Nat} (small : size < offsetLimit)
    (insideA : a.span.fitsIn size = true) (insideB : b.span.fitsIn size = true) :
    a.span.overlaps b.span = false ↔ Apart a b := by
  have stopA := Span.fitsIn_iff.mp insideA
  have stopB := Span.fitsIn_iff.mp insideB
  rw [← Bool.not_eq_true, Span.overlaps_iff_covers (by omega) (by omega)]
  exact not_exists

theorem write_eq_ok_iff {edit : Edit} {data written : Bytes} :
    data.write edit.start edit.bytes = .ok written ↔
      edit.span.fitsIn data.length = true ∧
        written = data.mapIdx fun offset byte => (edit.byteAt? offset).getD byte := by
  unfold Bytes.write
  rw [require_some_eq_ok_iff, Bytes.write_eq_some_iff, Span.fitsIn_iff]
  apply and_congr_right
  intro fits
  have same : data.splice edit.start edit.bytes =
      data.mapIdx fun offset byte => (edit.byteAt? offset).getD byte := by
    apply List.ext_getElem?
    intro offset
    rw [Bytes.getElem_splice data edit.bytes fits, List.getElem?_mapIdx]
    by_cases inside : edit.span.Covers offset
    · have covered : edit.start ≤ offset ∧ offset < edit.start + edit.bytes.length := inside
      rw [if_pos covered, byteAt_of_covers inside, List.getElem?_eq_getElem (by omega),
        List.getElem?_eq_getElem (by omega), Option.map_some, Option.getD_some]
    · have away : ¬ (edit.start ≤ offset ∧ offset < edit.start + edit.bytes.length) := inside
      rw [if_neg away, (edit.byteAt_eq_none_iff offset).mpr inside]
      simp
  rw [same]

-- Writing succeeds when every edit lies inside the file, and then settles every byte.
theorem write_all_eq_ok_iff {edits : List Edit} {data written : Bytes} :
    writeAll edits data = .ok written ↔
      (∀ edit ∈ edits, edit.span.fitsIn data.length = true) ∧
        written = data.mapIdx (settle edits) := by
  induction edits generalizing data with
  | nil =>
    have unchanged : data.mapIdx (settle []) = data := by
      apply List.ext_getElem?
      intro offset
      cases read : data[offset]? <;> simp [settle, read]
    rw [unchanged]
    constructor
    · intro done
      cases done
      exact ⟨by simp, rfl⟩
    · rintro ⟨_, rfl⟩
      rfl
  | cons edit rest ih =>
    have step : writeAll (edit :: rest) data =
        (data.write edit.start edit.bytes >>= fun middle => writeAll rest middle) := rfl
    rw [step, bind_eq_ok_iff, List.forall_mem_cons]
    simp only [write_eq_ok_iff, ih]
    constructor
    · rintro ⟨_, ⟨fits, rfl⟩, others, rfl⟩
      rw [List.length_mapIdx] at others
      refine ⟨⟨fits, others⟩, ?_⟩
      rw [List.mapIdx_mapIdx]
      rfl
    · rintro ⟨⟨fits, others⟩, rfl⟩
      refine ⟨_, ⟨fits, rfl⟩, ?_, ?_⟩
      · rw [List.length_mapIdx]
        exact others
      · rw [List.mapIdx_mapIdx]
        rfl

end Edit

namespace EditSet

theorem write_eq_ok_iff {staged : EditSet} {data written : Bytes} :
    staged.write data = .ok written ↔
      (∀ edit ∈ staged.edits, edit.span.fitsIn data.length = true) ∧
        written = data.mapIdx (Edit.settle staged.edits) :=
  Edit.write_all_eq_ok_iff

-- Looking through the edits settles the bytes too. An edit that does not touch the span has
-- nothing to say about them, so leaving it out makes no difference.
theorem overlay_eq_mapIdx (staged : EditSet) {bytes : Bytes} {span : Span}
    (exact : bytes.length = span.length) (small : span.start + span.length < offsetLimit) :
    staged.overlay bytes span =
      bytes.mapIdx fun index byte => Edit.settle staged.edits (span.start + index) byte := by
  unfold overlay touching
  induction staged.edits generalizing bytes with
  | nil =>
    apply List.ext_getElem?
    intro index
    cases read : bytes[index]? <;> simp [Edit.settle, read]
  | cons edit rest ih =>
    have painted : (edit.paint span.start bytes).length = span.length := by
      rw [Edit.length_paint, exact]
    apply List.ext_getElem?
    intro index
    rw [List.getElem?_mapIdx]
    simp only [Edit.settle_cons]
    by_cases touches : edit.span.overlaps span = true
    · rw [List.filter_cons, if_pos touches, List.foldl_cons, ih painted, List.getElem?_mapIdx,
        Edit.getElem_paint edit (by omega), Option.map_map]
      rfl
    · rw [List.filter_cons, if_neg touches, ih exact, List.getElem?_mapIdx]
      cases read : bytes[index]? with
      | none => rfl
      | some byte =>
        have place : index < bytes.length := (List.getElem?_eq_some_iff.mp read).1
        have unread : edit.byteAt? (span.start + index) = none := by
          apply (edit.byteAt_eq_none_iff _).mpr
          intro covered
          apply touches
          apply Span.overlaps_of_covers small covered
          exact ⟨by omega, by omega⟩
        rw [unread]
        rfl

-- What is seen through the edits is what is written.
theorem slice_write_eq_overlay {staged : EditSet} {data written bytes : Bytes} {span : Span}
    (addressable : data.length < offsetLimit) (done : staged.write data = .ok written)
    (sliced : data.slice? span = some bytes) :
    written.slice? span = some (staged.overlay bytes span) := by
  obtain ⟨_, rfl⟩ := write_eq_ok_iff.mp done
  have exact := Bytes.length_slice sliced
  obtain ⟨bounded, rfl⟩ := Bytes.slice_eq_some_iff.mp sliced
  apply Bytes.slice_eq_some_iff.mpr
  rw [List.length_mapIdx]
  refine ⟨bounded, ?_⟩
  rw [overlay_eq_mapIdx staged exact (by omega)]
  apply List.ext_getElem?
  intro index
  rw [List.getElem?_mapIdx, List.getElem?_take, List.getElem?_take, List.getElem?_drop,
    List.getElem?_drop, List.getElem?_mapIdx]
  split <;> rfl

theorem overlay_eq_slice_write (staged : EditSet) {data : Bytes} {span : Span}
    (addressable : data.length < offsetLimit)
    (inside : ∀ edit ∈ staged.edits, edit.span.fitsIn data.length = true)
    (fits : span.fitsIn data.length = true) :
    ∃ bytes written, data.slice? span = some bytes ∧ staged.write data = .ok written ∧
      written.slice? span = some (staged.overlay bytes span) := by
  have sliced := Bytes.slice_of_fits (Span.fitsIn_iff.mp fits)
  have wrote : staged.write data = .ok (data.mapIdx (Edit.settle staged.edits)) :=
    write_eq_ok_iff.mpr ⟨inside, rfl⟩
  exact ⟨_, _, sliced, wrote, slice_write_eq_overlay addressable wrote sliced⟩

def crossing : EditSet :=
  (EditSet.empty.stage ⟨.dynamicString 1, 1, [10, 11, 12]⟩).stage
    ⟨.dynamicString 3, 3, [20, 21, 22]⟩

theorem overlay_eq_slice_write_crossing :
    (∀ edit ∈ crossing.edits, edit.span.fitsIn 8 = true) ∧ Span.fitsIn ⟨2, 3⟩ 8 = true ∧
      crossing.overlay [0, 0, 0] ⟨2, 3⟩ = [11, 20, 21] ∧
      ∃ bytes written, Bytes.slice? (List.replicate 8 0) ⟨2, 3⟩ = some bytes ∧
        crossing.write (List.replicate 8 0) = .ok written ∧
          written.slice? ⟨2, 3⟩ = some (crossing.overlay bytes ⟨2, 3⟩) := by
  have inside : ∀ edit ∈ crossing.edits, edit.span.fitsIn 8 = true := by decide
  have fits : Span.fitsIn ⟨2, 3⟩ 8 = true := by decide
  exact ⟨inside, fits, by decide, overlay_eq_slice_write crossing (by decide) inside fits⟩

theorem length_write {staged : EditSet} {data written : Bytes}
    (done : staged.write data = .ok written) : written.length = data.length := by
  obtain ⟨_, rfl⟩ := write_eq_ok_iff.mp done
  exact List.length_mapIdx

theorem getElem_write_of_uncovered {staged : EditSet} {data written : Bytes}
    (done : staged.write data = .ok written) {offset : Nat}
    (free : ∀ edit ∈ staged.edits, ¬ edit.span.Covers offset) :
    written[offset]? = data[offset]? := by
  obtain ⟨_, rfl⟩ := write_eq_ok_iff.mp done
  rw [List.getElem?_mapIdx]
  cases data[offset]? with
  | none => rfl
  | some byte => rw [Option.map_some, Edit.settle_of_uncovered free]

theorem agree_of_uncovered {staged : EditSet} {data written : Bytes}
    (done : staged.write data = .ok written) {span : Span}
    (free : ∀ edit ∈ staged.edits, ∀ offset, span.Covers offset → ¬ edit.span.Covers offset) :
    Bytes.Agree data written span := by
  intro offset inside
  exact (getElem_write_of_uncovered done fun edit member => free edit member offset inside).symm

def Spares (staged : EditSet) (span : Span) : Prop :=
  ∀ edit ∈ staged.edits, span.overlaps edit.span = false

instance (staged : EditSet) (span : Span) : Decidable (staged.Spares span) :=
  inferInstanceAs (Decidable (∀ edit ∈ staged.edits, span.overlaps edit.span = false))

theorem agree_of_spared {staged : EditSet} {data written : Bytes} {span : Span}
    (addressable : data.length < offsetLimit) (done : staged.write data = .ok written)
    (spared : staged.Spares span) : Bytes.Agree data written span := by
  apply agree_of_uncovered done
  intro edit member offset inside
  have fits := Span.fitsIn_iff.mp ((write_eq_ok_iff.mp done).1 edit member)
  have small := Nat.lt_of_le_of_lt fits addressable
  exact Span.not_covers_of_apart small (spared edit member) inside

theorem getElem_write_of_covers {staged : EditSet} {data written : Bytes}
    (done : staged.write data = .ok written) (apart : staged.edits.Pairwise Edit.Apart)
    {edit : Edit} (member : edit ∈ staged.edits) {offset : Nat}
    (inside : edit.span.Covers offset) :
    written[offset]? = edit.bytes[offset - edit.start]? := by
  obtain ⟨within, rfl⟩ := write_eq_ok_iff.mp done
  have fits := Span.fitsIn_iff.mp (within edit member)
  have below : offset < edit.start + edit.bytes.length := inside.2
  have known : offset < data.length := Nat.lt_of_lt_of_le below fits
  rw [List.getElem?_mapIdx, List.getElem?_eq_getElem known, Option.map_some]
  exact (Edit.settle_of_covers apart member inside _).symm

theorem slice_write_of_mem {staged : EditSet} {data written : Bytes}
    (done : staged.write data = .ok written) (apart : staged.edits.Pairwise Edit.Apart)
    {edit : Edit} (member : edit ∈ staged.edits) :
    written.slice? edit.span = some edit.bytes := by
  have fits := Span.fitsIn_iff.mp ((write_eq_ok_iff.mp done).1 edit member)
  apply Bytes.slice_eq_some_iff.mpr
  rw [length_write done]
  refine ⟨fits, ?_⟩
  apply List.ext_getElem?
  intro index
  by_cases inside : index < edit.bytes.length
  · have covered : edit.span.Covers (edit.start + index) :=
      ⟨Nat.le_add_right _ _, Nat.add_lt_add_left inside _⟩
    have place : edit.start + index - edit.start = index := Nat.add_sub_cancel_left _ _
    have read := getElem_write_of_covers done apart member covered
    rw [place] at read
    rw [List.getElem?_take_of_lt (show index < edit.span.length from inside), List.getElem?_drop]
    exact read.symm
  · have beyond : edit.span.length ≤ index := Nat.le_of_not_lt inside
    rw [List.getElem?_eq_none beyond, List.getElem?_take, if_neg (Nat.not_lt.mpr beyond)]

-- Where all edits lie inside the file, the check of neighbours leaves no two that share a place.
theorem check_disjoint_eq_ok_iff_apart {staged : EditSet} {size : Nat}
    (small : size < offsetLimit)
    (inside : ∀ edit ∈ staged.edits, edit.span.fitsIn size = true) :
    staged.checkDisjoint = .ok () ↔ staged.edits.Pairwise Edit.Apart := by
  rw [check_disjoint_eq_ok_iff]
  constructor
  · intro clear
    apply clear.imp_of_mem
    intro a b memberA memberB apart
    exact (Edit.overlaps_eq_false_iff_apart small (inside a memberA) (inside b memberB)).mp apart
  · intro clear
    apply clear.imp_of_mem
    intro a b memberA memberB apart
    exact (Edit.overlaps_eq_false_iff_apart small (inside a memberA) (inside b memberB)).mpr apart

end EditSet

namespace Image

-- Serializing lays each staged edit over its own bytes and leaves all others alone, and the edits
-- could have been written in any order. Offsets into a file are 64-bit quantities; behind that
-- limit, where spans are clipped, edits could meet unnoticed.
theorem serialize_places_edits (image : Image) {data out : Bytes}
    (addressable : data.length < offsetLimit) (done : image.serialize data = .ok out) :
    out.length = data.length ∧
      (∀ edit ∈ image.edits.edits, edit.span.fitsIn data.length = true) ∧
      image.edits.edits.Pairwise Edit.Apart ∧
      (∀ offset,
        (∀ edit ∈ image.edits.edits, edit.span.Covers offset →
          out[offset]? = edit.bytes[offset - edit.start]?) ∧
        ((∀ edit ∈ image.edits.edits, ¬ edit.span.Covers offset) →
          out[offset]? = data[offset]?)) ∧
      ∀ reordered, reordered.Perm image.edits.edits →
        Edit.writeAll reordered data = .ok out := by
  obtain ⟨_, _, disjoint, wrote, _⟩ := serialize_eq_ok_iff.mp done
  obtain ⟨inside, placed⟩ := EditSet.write_eq_ok_iff.mp wrote
  have apart := (EditSet.check_disjoint_eq_ok_iff_apart addressable inside).mp disjoint
  refine ⟨EditSet.length_write wrote, inside, apart, ?_, ?_⟩
  · intro offset
    constructor
    · intro edit member covered
      exact EditSet.getElem_write_of_covers wrote apart member covered
    · intro free
      exact EditSet.getElem_write_of_uncovered wrote free
  · intro reordered order
    apply Edit.write_all_eq_ok_iff.mpr
    constructor
    · intro edit member
      exact inside edit (order.mem_iff.mp member)
    · have same : Edit.settle reordered = Edit.settle image.edits.edits := by
        funext offset byte
        exact Edit.settle_perm apart order offset byte
      rw [same, placed]

/-- The header of a 64-bit file without tables, and four bytes behind it. -/
def bareFile : Bytes :=
  Elf.Ident.magic ++ [2, 1, 1] ++ List.replicate 45 0 ++ [64] ++ List.replicate 15 0

def bareEdited : Elf.Image :=
  { (Elf.Image.parse bareFile).toOption.get (by decide +kernel) with
    edits := (EditSet.empty.stage ⟨.dynamicString 66, 66, [8]⟩).stage
      ⟨.dynamicString 64, 64, [6, 7]⟩ }

theorem serialize_places_edits_bare :
    (elf bareEdited).serialize bareFile = .ok (bareFile.splice 64 [6, 7, 8]) ∧
      (bareFile.splice 64 [6, 7, 8]).length = bareFile.length ∧
      Edit.writeAll bareEdited.edits.edits.reverse bareFile =
        .ok (bareFile.splice 64 [6, 7, 8]) := by
  have addressable : bareFile.length < offsetLimit := by decide
  have done : (elf bareEdited).serialize bareFile = .ok (bareFile.splice 64 [6, 7, 8]) := by
    decide +kernel
  obtain ⟨length, _, _, _, anyOrder⟩ := serialize_places_edits (elf bareEdited) addressable done
  exact ⟨done, length, anyOrder _ (List.reverse_perm _)⟩

end Image

end BinaryImage
