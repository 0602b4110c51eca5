import BinaryImage.Proofs.Elf.LayoutRules

/-!
Which segment holds an address. Loaded segments are kept apart by their memory, but spans of
addresses are compared below the last address only, so that one may be loaded more than once.
Addresses are mapped to places of the file by the bytes that a segment has there, of which there
may be more than it has memory.
-/

namespace BinaryImage

/-- Where all members that give an answer agree, searching finds the answer of any of them. -/
theorem find_some_eq_some_iff {α β : Type} {answer : α → Option β} {items : List α}
    (agree : ∀ a ∈ items, ∀ b ∈ items, ∀ s t, answer a = some s → answer b = some t → s = t)
    {found : β} :
    items.findSome? answer = some found ↔ ∃ item ∈ items, answer item = some found := by
  constructor
  · exact List.exists_of_findSome?_eq_some
  · rintro ⟨item, member, answered⟩
    have some : (items.findSome? answer).isSome = true :=
      List.findSome?_isSome_iff.mpr ⟨item, member, by rw [answered]; rfl⟩
    obtain ⟨other, first⟩ := Option.isSome_iff_exists.mp some
    obtain ⟨earlier, inFront, answeredFirst⟩ := List.exists_of_findSome?_eq_some first
    rw [first, agree earlier inFront item member _ _ answeredFirst answered]

namespace Elf

namespace Segment

def Loads (segment : Segment) (address : Nat) : Prop :=
  segment.isLoad = true ∧ segment.memorySpan.Covers address

instance (segment : Segment) (address : Nat) : Decidable (segment.Loads address) :=
  inferInstanceAs (Decidable (segment.isLoad = true ∧ segment.address ≤ address ∧
    address < segment.address + segment.memorySize))

theorem file_offset_eq_some_iff {segment : Segment} {address length start : Nat} :
    segment.fileOffset? address length = some start ↔
      segment.isLoad = true ∧ segment.address ≤ address ∧
        address + length ≤ segment.address + segment.fileSize ∧ start < offsetLimit ∧
        start + segment.address = segment.offset + address := by
  simp only [fileOffset?, Option.ite_none_right_eq_some, Option.some.injEq, Bool.and_eq_true,
    decide_eq_true_eq, and_assoc]
  constructor
  · rintro ⟨load, above, inside, below, rfl⟩
    exact ⟨load, above, by omega, below, by omega⟩
  · rintro ⟨load, above, inside, below, place⟩
    exact ⟨load, above, by omega, by omega, by omega⟩

/-- Where the memory has room for all bytes of the file, what is mapped is loaded. -/
theorem loads_of_file_offset {segment : Segment} {address length start : Nat}
    (roomy : segment.fileSize ≤ segment.memorySize) (filled : 0 < length)
    (mapped : segment.fileOffset? address length = some start) : segment.Loads address := by
  obtain ⟨load, above, inside, _⟩ := file_offset_eq_some_iff.mp mapped
  refine ⟨load, above, ?_⟩
  simp only [memorySpan]
  omega

theorem Lawful.mapped_inside {segment : Segment} {fileLength : Nat}
    (lawful : segment.Lawful fileLength) {address length start : Nat}
    (mapped : segment.fileOffset? address length = some start) : start + length ≤ fileLength := by
  obtain ⟨_, above, inside, _, place⟩ := file_offset_eq_some_iff.mp mapped
  have fits := Span.fitsIn_iff.mp lawful.inside
  simp only [fileSpan] at fits
  omega

end Segment

namespace Image

/-- Comparing neighbours in the order of addresses finds every overlap between two segments. -/
theorem check_loads_eq_ok_iff {segments : List Segment} :
    checkLoads segments = .ok () ↔
      ∀ (i j : Nat) (a b : Segment), segments[i]? = some a → segments[j]? = some b → i ≠ j →
        a.isLoad = true → b.isLoad = true → a.memorySpan.overlaps b.memorySpan = false := by
  have filled : ∀ segment ∈ loadsByAddress segments, segment.memorySpan.isEmpty = false := by
    intro segment member
    have kept := (List.mem_filter.mp ((sort_on_perm _ _).mem_iff.mp member)).2
    rw [Span.isEmpty_eq_false_iff]
    exact of_decide_eq_true (Bool.and_eq_true_iff.mp kept).2
  have symmetric : ∀ {a b : Segment}, a.memorySpan.overlaps b.memorySpan = false →
      b.memorySpan.overlaps a.memorySpan = false := by
    intro a b apart
    rwa [Span.overlaps_comm]
  have sorted : SortedOn (fun segment => segment.memorySpan.start) (loadsByAddress segments) :=
    sort_on_sorted Segment.address _
  have loads : loadsByAddress segments =
      sortOn Segment.address ((segments.filter Segment.isLoad).filter fun segment =>
        0 < segment.memorySize) := by
    rw [loadsByAddress, List.filter_filter]
    simp only [Bool.and_comm]
  calc checkLoads segments = .ok ()
      ↔ ∀ pair ∈ neighbours (loadsByAddress segments),
          pair.1.memorySpan.overlaps pair.2.memorySpan = false := by
        rw [checkLoads]
        split
        · next found =>
          have shared := List.find?_some found
          have member := List.mem_of_find?_eq_some found
          simp only [reduceCtorEq, false_iff, not_forall, Bool.not_eq_false]
          exact ⟨_, member, shared⟩
        · next found => simpa using found
    _ ↔ (loadsByAddress segments).Pairwise fun a b =>
          a.memorySpan.overlaps b.memorySpan = false :=
        neighbours_apart_iff Segment.memorySpan sorted filled
    _ ↔ (segments.filter Segment.isLoad).Pairwise fun a b =>
          a.memorySpan.overlaps b.memorySpan = false := by
        rw [loads]
        apply pairwise_sorted_filter_iff _ _ symmetric
        intro a b empty
        apply Span.overlaps_of_isEmpty
        simpa [Span.isEmpty_eq_false_iff, Segment.memorySpan] using empty
    _ ↔ _ := by
        rw [List.pairwise_filter, pairwise_iff_places fun {a b} apart loadB loadA =>
          symmetric (apart loadA loadB)]

variable {data : Bytes} {image : Image} {address length start : Nat}

theorem check_loads_of_parse (parsed : parse data = .ok image) :
    checkLoads image.segments = .ok () := by
  rcases parse_eq_ok_iff.mp parsed with ⟨_, _, _, _, _, _, _, _, loads, _⟩
  exact loads

/-- Below the last address, no place lies in the memory of two segments. -/
theorem memory_apart_below (parsed : parse data = .ok image) {i j : Nat} {a b : Segment}
    (foundA : image.segments[i]? = some a) (foundB : image.segments[j]? = some b)
    (different : i ≠ j) (loadA : a.isLoad = true) (loadB : b.isLoad = true) (place : Nat)
    (below : place < offsetLimit - 1) :
    ¬ (a.memorySpan.Covers place ∧ b.memorySpan.Covers place) := by
  intro shared
  have apart := check_loads_eq_ok_iff.mp (check_loads_of_parse parsed) i j a b foundA foundB
    different loadA loadB
  rw [Span.overlaps_iff_covers_below.mpr ⟨place, below, shared⟩] at apart
  contradiction

/-- No two segments load an address, unless it is the last and one of them starts there. -/
theorem loaded_once (parsed : parse data = .ok image) (bounded : address < offsetLimit)
    {i j : Nat} {a b : Segment} (foundA : image.segments[i]? = some a)
    (foundB : image.segments[j]? = some b) (inA : a.Loads address) (inB : b.Loads address) :
    i = j ∨ address = offsetLimit - 1 ∧ (a.address = address ∨ b.address = address) := by
  by_cases same : i = j
  · exact .inl same
  · right
    have clear := memory_apart_below parsed foundA foundB same inA.1 inB.1
    have last : address = offsetLimit - 1 := by
      by_contra other
      exact clear address (by omega) ⟨inA.2, inB.2⟩
    refine ⟨last, ?_⟩
    -- Both hold the later one of their starts, too, which is therefore the last address as well.
    have later := clear (max a.address b.address)
    obtain ⟨_, startA, stopA⟩ := inA
    obtain ⟨_, startB, stopB⟩ := inB
    simp only [Segment.memorySpan, Span.Covers] at startA stopA startB stopB later
    omega

section Sample

def doubles (values : List Nat) : Bytes := values.flatMap (ByteOrder.big.encode 8)

/-- A 64-bit file with two segments: the first one is loaded up to the end of all addresses, the
second one at the last address. -/
def twiceLoadedFile : Bytes :=
  Ident.magic ++ [2, 2, 1] ++ List.replicate 9 0 ++
  Session.halves [2, 62] ++ Session.words [1] ++ doubles [0, 64, 0] ++ Session.words [0] ++
  Session.halves [64, 56, 2, 64, 0, 0] ++
  Session.words [1, 4] ++ doubles [0, 0xfffffffffffff000, 0, 0, 0x1000, 0] ++
  Session.words [1, 4] ++ doubles [0, 0xffffffffffffffff, 0, 0, 1, 0]

def twiceLoadedImage : Image := (parse twiceLoadedFile).toOption.get (by decide +kernel)

def lowerSegment : Segment := twiceLoadedImage.segments[0]?.get (by decide +kernel)

def upperSegment : Segment := twiceLoadedImage.segments[1]?.get (by decide +kernel)

end Sample

theorem loaded_once_sample :
    parse twiceLoadedFile = .ok twiceLoadedImage ∧
      lowerSegment.Loads (offsetLimit - 1) ∧ upperSegment.Loads (offsetLimit - 1) ∧
      (lowerSegment.address = offsetLimit - 1 ∨ upperSegment.address = offsetLimit - 1) := by
  have parsed : parse twiceLoadedFile = .ok twiceLoadedImage := by decide +kernel
  have lower : twiceLoadedImage.segments[0]? = some lowerSegment := by decide +kernel
  have upper : twiceLoadedImage.segments[1]? = some upperSegment := by decide +kernel
  have inLower : lowerSegment.Loads (offsetLimit - 1) := by decide +kernel
  have inUpper : upperSegment.Loads (offsetLimit - 1) := by decide +kernel
  refine ⟨parsed, inLower, inUpper, ?_⟩
  rcases loaded_once parsed (by decide) lower upper inLower inUpper with same | ⟨_, starts⟩
  · cases same
  · exact starts

-- The comparison of spans leaves the last address out, so the file is accepted.
theorem last_address_loaded_twice :
    parse twiceLoadedFile = .ok twiceLoadedImage ∧
      twiceLoadedImage.segments = [lowerSegment, upperSegment] ∧
      lowerSegment.Loads (offsetLimit - 1) ∧ upperSegment.Loads (offsetLimit - 1) := by
  decide +kernel

/-- Below the last address, the bytes are loaded from each segment that maps them. -/
def MapsLoaded (segments : List Segment) (address length : Nat) : Prop :=
  address < offsetLimit - 1 ∧ ∀ segment ∈ segments, ∀ start,
    segment.fileOffset? address length = some start → segment.Loads address

/-- Where no segment has more bytes in the file than in memory, each loads what it maps. -/
theorem maps_loaded_of_roomy {segments : List Segment}
    (roomy : ∀ segment ∈ segments, segment.fileSize ≤ segment.memorySize)
    (below : address < offsetLimit - 1) (filled : 0 < length) :
    MapsLoaded segments address length :=
  ⟨below, fun segment member _ mapped =>
    Segment.loads_of_file_offset (roomy segment member) filled mapped⟩

/-- The place of the mapped strings is where the first segment maps their address. -/
theorem mapped_strings_place (segments : List Segment) (linked? : Option (Nat × Section))
    (dynamic : DynamicArray) :
    (mappedStrings? segments linked? dynamic).map Prod.fst = (do
      let address ← dynamic.stringTableAddress?
      let size ← dynamic.stringTableSize? <|> linked?.map fun linked => linked.2.size
      (segments.findSome? fun segment => segment.fileOffset? address size).map fun start =>
        (⟨start, size⟩ : Span)) := by
  unfold mappedStrings?
  cases dynamic.stringTableAddress? with
  | none => rfl
  | some address =>
    cases dynamic.stringTableSize? <|> linked?.map fun linked => linked.2.size with
    | none => rfl
    | some size =>
      simp only [Option.bind_eq_bind, Option.bind_some]
      have first : segments.findSome? (fun segment => segment.fileOffset? address size) =
          segments.zipIdx.findSome? fun item => item.1.fileOffset? address size := by
        conv => lhs; rw [← List.zipIdx_map_fst 0 segments, List.findSome?_map]
        rfl
      rw [first, List.map_findSome?, List.map_findSome?]
      congr 1
      funext item
      simp only [Function.comp_apply]
      cases item.1.fileOffset? address size <;> rfl

namespace Opened

variable (opened : Opened data image)
include opened

theorem mapped_inside {segment : Segment} (member : segment ∈ image.segments)
    (mapped : segment.fileOffset? address length = some start) :
    start + length ≤ data.length := by
  obtain ⟨_, _, segments, _⟩ := validate_eq_ok_iff.mp opened.valid
  have lawful := (check_segments_eq_ok_iff.mp segments).1 segment member
  rw [file_length_of_parse opened.parsed] at lawful
  exact lawful.mapped_inside mapped

theorem place_unique (clear : MapsLoaded image.segments address length) {a b : Segment}
    (memberA : a ∈ image.segments) (memberB : b ∈ image.segments) {s t : Nat}
    (mappedA : a.fileOffset? address length = some s)
    (mappedB : b.fileOffset? address length = some t) : s = t := by
  obtain ⟨i, foundA⟩ := List.mem_iff_getElem?.mp memberA
  obtain ⟨j, foundB⟩ := List.mem_iff_getElem?.mp memberB
  have inA := clear.2 a memberA s mappedA
  have inB := clear.2 b memberB t mappedB
  have same : i = j := by
    by_contra different
    exact memory_apart_below opened.parsed foundA foundB different inA.1 inB.1 address clear.1
      ⟨inA.2, inB.2⟩
  subst same
  cases foundA.symm.trans foundB
  exact Option.some.inj (mappedA.symm.trans mappedB)

theorem first_place_perm {order : List Segment} (perm : order.Perm image.segments)
    (clear : MapsLoaded image.segments address length) :
    (order.findSome? fun segment => segment.fileOffset? address length) =
      image.segments.findSome? fun segment => segment.fileOffset? address length := by
  have agree : ∀ a ∈ image.segments, ∀ b ∈ image.segments, ∀ s t,
      a.fileOffset? address length = some s → b.fileOffset? address length = some t → s = t :=
    fun a memberA b memberB s t => opened.place_unique clear memberA memberB
  have agreeOrder : ∀ a ∈ order, ∀ b ∈ order, ∀ s t,
      a.fileOffset? address length = some s → b.fileOffset? address length = some t → s = t :=
    fun a memberA b memberB => agree a (perm.mem_iff.mp memberA) b (perm.mem_iff.mp memberB)
  ext place
  rw [find_some_eq_some_iff agree, find_some_eq_some_iff agreeOrder]
  simp only [perm.mem_iff]

/-- Where the mapped strings are loaded, their place does not depend on the order of segments. -/
theorem strings_place_perm {order : List Segment} (perm : order.Perm image.segments)
    (linked? : Option (Nat × Section)) (dynamic : DynamicArray)
    (clear : ∀ address ∈ dynamic.stringTableAddress?, ∀ length ∈ (dynamic.stringTableSize? <|>
      linked?.map fun linked => linked.2.size), MapsLoaded image.segments address length) :
    (locateStrings? order linked? dynamic).map Prod.fst =
      (locateStrings? image.segments linked? dynamic).map Prod.fst := by
  have mapped : (mappedStrings? order linked? dynamic).map Prod.fst =
      (mappedStrings? image.segments linked? dynamic).map Prod.fst := by
    rw [mapped_strings_place, mapped_strings_place]
    refine Option.bind_congr fun address addressed => Option.bind_congr fun length sized => ?_
    rw [opened.first_place_perm perm (clear address addressed length sized)]
  simp only [locateStrings?, Option.orElse_eq_orElse, Option.orElse_eq_or, Option.map_or, mapped]

end Opened

end Image

end Elf

namespace Session

open Elf Elf.Image

/-- Two segments map an address only where it is the last one, or where one of them reaches it in
the file and not in memory. For other addresses the order of the segments does not matter. -/
theorem addresses_mapped_once {data : Bytes} {session : Session} {image : Elf.Image}
    (addressable : data.length < offsetLimit) (opened : ofFile data = .ok session)
    (elf : session.image = .elf image) :
    (∀ (address length i j : Nat) (a b : Segment) (s t : Nat),
      image.segments[i]? = some a → image.segments[j]? = some b →
      a.fileOffset? address length = some s → b.fileOffset? address length = some t →
        i = j ∨ offsetLimit - 1 ≤ address ∨
          a.address + a.memorySize ≤ address ∨ b.address + b.memorySize ≤ address) ∧
    (∀ (order : List Segment) (linked? : Option (Nat × Section)) (dynamic : DynamicArray),
      order.Perm image.segments →
      (∀ address ∈ dynamic.stringTableAddress?, ∀ length ∈ (dynamic.stringTableSize? <|>
        linked?.map fun linked => linked.2.size), MapsLoaded image.segments address length) →
      (locateStrings? order linked? dynamic).map Prod.fst =
        (locateStrings? image.segments linked? dynamic).map Prod.fst) ∧
    ∀ segment ∈ image.segments, ∀ address length start,
      segment.fileOffset? address length = some start → start + length ≤ data.length := by
  obtain ⟨_, openedImage, _⟩ := elf_of_file addressable opened elf
  refine ⟨?_, ?_, ?_⟩
  · intro address length i j a b s t foundA foundB mappedA mappedB
    obtain ⟨loadA, aboveA, _⟩ := Segment.file_offset_eq_some_iff.mp mappedA
    obtain ⟨loadB, aboveB, _⟩ := Segment.file_offset_eq_some_iff.mp mappedB
    by_contra! apart
    obtain ⟨different, below, inA, inB⟩ := apart
    exact memory_apart_below openedImage.parsed foundA foundB different loadA loadB address below
      ⟨⟨aboveA, inA⟩, ⟨aboveB, inB⟩⟩
  · intro order linked? dynamic perm clear
    exact openedImage.strings_place_perm perm linked? dynamic clear
  · intro segment member address length start mapped
    exact openedImage.mapped_inside member mapped

section Sample

/-- The sample with a shorter segment in front: it takes the address of the strings for others, of
which it has 16 bytes in the file and none in memory. -/
def shadowedFile : Bytes :=
  (sampleFile.splice 52 (words [1, 161, 0x109c, 0x109c, 16, 0, 4, 1])).splice 84
    (words [1, 0, 0x1000, 0x1000, 421, 421, 4, 0x1000])

def shadowedSession : Session := (ofFile shadowedFile).toOption.get (by decide +kernel)

def shadowedImage : Elf.Image := (parse shadowedFile).toOption.get (by decide +kernel)

end Sample

theorem addresses_mapped_once_sample :
    ofFile sampleFile = .ok sampleSession ∧ sampleSession.image = .elf sampleImage ∧
      sampleArray.stringTableAddress? = some 0x109c ∧ sampleArray.stringTableSize? = some 16 ∧
      (locateStrings? sampleImage.segments none sampleArray).map Prod.fst = some ⟨156, 16⟩ ∧
      (∀ order, order.Perm sampleImage.segments →
        (locateStrings? order none sampleArray).map Prod.fst = some ⟨156, 16⟩) := by
  have opened : ofFile sampleFile = .ok sampleSession := by decide +kernel
  have elf : sampleSession.image = .elf sampleImage := by decide +kernel
  have address : sampleArray.stringTableAddress? = some 0x109c := by decide +kernel
  have size : sampleArray.stringTableSize? = some 16 := by decide +kernel
  have located : (locateStrings? sampleImage.segments none sampleArray).map Prod.fst =
      some ⟨156, 16⟩ := by decide +kernel
  have roomy : ∀ segment ∈ sampleImage.segments, segment.fileSize ≤ segment.memorySize := by
    decide +kernel
  refine ⟨opened, elf, address, size, located, ?_⟩
  intro order perm
  obtain ⟨_, placed, _⟩ := addresses_mapped_once sample_addressable opened elf
  refine (placed order none sampleArray perm ?_).trans located
  rw [address, size]
  rintro _ ⟨⟩ _ ⟨⟩
  exact maps_loaded_of_roomy roomy (by decide +kernel) (by decide)

-- The strings are taken from whichever of the two segments comes first.
theorem strings_moved_by_order :
    ofFile shadowedFile = .ok shadowedSession ∧ shadowedSession.image = .elf shadowedImage ∧
      shadowedImage.segments.map (fun segment => segment.fileOffset? 0x109c 16) =
        [some 161, some 156, none] ∧
      (locateStrings? shadowedImage.segments none sampleArray).map Prod.fst = some ⟨161, 16⟩ ∧
      (locateStrings? shadowedImage.segments.reverse none sampleArray).map Prod.fst =
        some ⟨156, 16⟩ ∧
      shadowedImage.needed shadowedFile = .ok ["b.so", "/lib"] ∧
      sampleImage.needed sampleFile = .ok ["a.so", "b.so"] := by
  decide +kernel

end Session

end BinaryImage
