import BinaryImage.Proofs.Assignment
import BinaryImage.Proofs.Elf.LoadedAddresses

/-!
Three checks for overlaps decide what a comparison of all pairs decides. Regions are swept in a
stable order of their starts, with excuses that may depend on which of two comes first; staged edits
and loaded segments are compared with their neighbours alone. What two regions mean to each other is
told here by their places in the list, before any sorting.
-/

namespace BinaryImage

/-- Of two items with their places in a list, the first one has the smaller key, or else the same
key and the smaller place. -/
def Leads {α : Type} (key : α → Nat) (a b : α × Nat) : Prop :=
  key a.1 < key b.1 ∨ key a.1 = key b.1 ∧ a.2 < b.2

section StableOrder

variable {α β : Type}

theorem Leads.key_le {key : α → Nat} {a b : α × Nat} (leads : Leads key a b) :
    key a.1 ≤ key b.1 := by
  unfold Leads at leads
  omega

theorem Leads.asymm {key : α → Nat} {a b : α × Nat} (leads : Leads key a b) :
    ¬ Leads key b a := by
  unfold Leads at leads ⊢
  omega

/-- Items in the order of their places are sorted into the order of keys and places. -/
theorem sort_on_leads {key : α → Nat} {items : List (α × Nat)}
    (ascending : items.Pairwise fun a b => a.2 < b.2) :
    (sortOn (fun item => key item.1) items).Pairwise (Leads key) := by
  let keyOf := fun item : α × Nat => key item.1
  apply List.pairwise_iff_forall_sublist.mpr
  intro a b inOrder
  have behind : key a.1 ≤ key b.1 :=
    List.pairwise_iff_forall_sublist.mp (sort_on_sorted keyOf items) inOrder
  rcases Nat.lt_or_eq_of_le behind with before | level
  · exact .inl before
  · -- Sorting leaves items of one key in their order, which is that of their places.
    have alike := inOrder.filter fun item => keyOf item == key a.1
    rw [filter_sort_on] at alike
    simp only [keyOf, List.filter_cons, level, beq_self_eq_true, if_true, List.filter_nil] at alike
    exact .inr ⟨level, List.pairwise_iff_forall_sublist.mp ascending
      (alike.trans List.filter_sublist)⟩

/-- In a list that keeps to an order, a pair that keeps to it stands in this order. -/
theorem related_of_ordered {order relation : α → α → Prop}
    (asymm : ∀ {a b}, order a b → ¬ order b a) {items : List α} (ordered : items.Pairwise order)
    (related : items.Pairwise relation) {a b : α} (memberA : a ∈ items) (memberB : b ∈ items)
    (before : order a b) : relation a b := by
  induction items with
  | nil => cases memberA
  | cons first rest ih =>
    obtain ⟨leads, ordered⟩ := List.pairwise_cons.mp ordered
    obtain ⟨head, related⟩ := List.pairwise_cons.mp related
    rcases List.mem_cons.mp memberA with rfl | laterA
    · rcases List.mem_cons.mp memberB with rfl | laterB
      · exact absurd before (asymm before)
      · exact head b laterB
    · rcases List.mem_cons.mp memberB with rfl | laterB
      · exact absurd before (asymm (leads a laterA))
      · exact ih ordered related laterA laterB

/-- Whatever holds in order between the kept items of a list, once these are sorted, can be told by
their keys and their places. -/
theorem pairwise_sorted_kept_iff (key : α → Nat) (keep : α → Bool) {relation : α → α → Prop}
    (items : List α) :
    (sortOn key (items.filter keep)).Pairwise relation ↔
      ∀ (i j : Nat) (a b : α), items[i]? = some a → items[j]? = some b → keep a = true →
        keep b = true → Leads key (a, i) (b, j) → relation a b := by
  let numbered := sortOn (fun item : α × Nat => key item.1)
    (items.zipIdx.filter fun item => keep item.1)
  have forgotten : sortOn key (items.filter keep) = numbered.map Prod.fst := by
    rw [sort_on_map]
    conv_lhs => rw [← List.zipIdx_map_fst 0 items, List.filter_map]
    rfl
  have ascending : items.zipIdx.Pairwise fun a b => a.2 < b.2 := by
    apply List.pairwise_map.mp
    rw [List.zipIdx_map_snd]
    exact List.pairwise_lt_range'
  have ordered : numbered.Pairwise (Leads key) := sort_on_leads (ascending.filter _)
  have member_iff : ∀ item,
      item ∈ numbered ↔ items[item.2]? = some item.1 ∧ keep item.1 = true := by
    intro item
    rw [(sort_on_perm _ _).mem_iff, List.mem_filter, List.mem_zipIdx_iff_getElem?]
  rw [forgotten, List.pairwise_map]
  constructor
  · intro related i j a b foundA foundB keptA keptB leads
    exact related_of_ordered Leads.asymm ordered related ((member_iff (a, i)).mpr ⟨foundA, keptA⟩)
      ((member_iff (b, j)).mpr ⟨foundB, keptB⟩) leads
  · intro related
    refine ordered.imp_of_mem fun {a b} memberA memberB leads => ?_
    obtain ⟨foundA, keptA⟩ := (member_iff a).mp memberA
    obtain ⟨foundB, keptB⟩ := (member_iff b).mp memberB
    exact related a.2 b.2 a.1 b.1 foundA foundB keptA keptB leads

end StableOrder

namespace Layout

/-- The first region stands in front of the second in a stable order of the starts in a list. -/
def InFront (regions : List Region) (a b : Region) : Prop :=
  ∃ i j, regions[i]? = some a ∧ regions[j]? = some b ∧
    Leads (fun region => region.span.start) (a, i) (b, j)

/-- Two regions of a list, in a stable order of their starts, overlap without an excuse. -/
structure Conflict (excused : Region → Region → Bool) (regions : List Region) (a b : Region) :
    Prop where
  inFront : InFront regions a b
  shared : a.span.overlaps b.span = true
  unexcused : excused a b = false

variable {space : Space} {excused : Region → Region → Bool} {regions : List Region} {a b : Region}

theorem check_disjoint_eq_ok_iff_no_conflict :
    checkDisjoint space excused regions = .ok () ↔ ∀ a b, ¬ Conflict excused regions a b := by
  rw [check_disjoint_eq_ok_iff_sorted, pairwise_sorted_kept_iff]
  constructor
  · rintro clear a b ⟨⟨i, j, foundA, foundB, leads⟩, shared, unexcused⟩
    have filled : a.span.isEmpty = false ∧ b.span.isEmpty = false := by
      by_contra empty
      rw [Span.overlaps_of_isEmpty empty] at shared
      contradiction
    have excuse := clear i j a b foundA foundB (by rw [filled.1]; rfl) (by rw [filled.2]; rfl)
      leads shared
    rw [unexcused] at excuse
    contradiction
  · intro clear i j a b foundA foundB _ _ leads shared
    by_contra unexcused
    exact clear a b ⟨⟨i, j, foundA, foundB, leads⟩, shared, Bool.eq_false_iff.mpr unexcused⟩

/-- The sweep comes up with two regions that stand in its list in this order. -/
theorem sublist_of_first_conflict (found : firstConflict? excused regions = some (a, b)) :
    [a, b].Sublist regions ∧ b.span.start < a.span.clippedStop ∧ excused a b = false := by
  induction regions with
  | nil => cases found
  | cons region rest ih =>
    rw [firstConflict?] at found
    cases first : (rest.takeWhile fun later =>
        later.span.start < region.span.clippedStop).find? fun later => !excused region later with
    | some later =>
      rw [first] at found
      cases found
      have reached := List.mem_of_find?_eq_some first
      have member := (List.takeWhile_sublist _).mem reached
      refine ⟨(List.singleton_sublist.mpr member).cons_cons a, ?_, ?_⟩
      · simpa using List.mem_takeWhile_imp reached
      · simpa using List.find?_some first
    | none =>
      rw [first] at found
      obtain ⟨behind, conflict⟩ := ih found
      exact ⟨behind.cons region, conflict⟩

theorem InFront.start_le (inFront : InFront regions a b) : a.span.start ≤ b.span.start := by
  obtain ⟨_, _, _, _, leads⟩ := inFront
  exact leads.key_le

/-- What the sweep goes through keeps to the stable order, and leaves out what is empty. -/
theorem swept_in_front (regions : List Region) :
    (sortOn (fun region : Region => region.span.start)
      (regions.filter fun region => !region.span.isEmpty)).Pairwise fun a b =>
        InFront regions a b ∧ a.span.isEmpty = false ∧ b.span.isEmpty = false := by
  rw [pairwise_sorted_kept_iff]
  intro i j a b foundA foundB filledA filledB leads
  exact ⟨⟨i, j, foundA, foundB, leads⟩, by simpa using filledA, by simpa using filledB⟩

/-- A check that fails names the later region of a pair that has no excuse. -/
theorem conflict_of_check_disjoint {error : Error}
    (failed : checkDisjoint space excused regions = .error error) :
    ∃ a b, Conflict excused regions a b ∧
      error = .violation b.entity b.span.start (.overlaps space b.span a.entity a.span) := by
  simp only [checkDisjoint] at failed
  split at failed
  · next a b found =>
    obtain ⟨inOrder, reached, unexcused⟩ := sublist_of_first_conflict found
    obtain ⟨inFront, filledA, filledB⟩ :=
      List.pairwise_iff_forall_sublist.mp (swept_in_front regions) inOrder
    have shared := (Span.overlaps_iff_start_lt filledA filledB inFront.start_le).mpr reached
    exact ⟨a, b, ⟨inFront, shared, unexcused⟩, (Except.error.inj failed).symm⟩
  · cases failed

end Layout

theorem EditSet.check_disjoint_eq_ok_iff_targets (staged : EditSet) :
    staged.checkDisjoint = .ok () ↔
      ∀ s t a b, staged.get? s = some a → staged.get? t = some b → s ≠ t →
        a.span.overlaps b.span = false := by
  rw [check_disjoint_eq_ok_iff]
  constructor
  · intro apart s t a b foundA foundB different
    have swap : Std.Symm fun a b : Edit => a.span.overlaps b.span = false := by
      constructor
      intro a b clear
      rwa [Span.overlaps_comm]
    have targetA : a.target = s := by simpa using List.find?_some foundA
    have targetB : b.target = t := by simpa using List.find?_some foundB
    apply apart.forall (List.mem_of_find?_eq_some foundA) (List.mem_of_find?_eq_some foundB)
    rintro rfl
    exact different (targetA.symm.trans targetB)
  · intro clear
    refine staged.targets_distinct.imp_of_mem fun {a b} memberA memberB different => ?_
    exact clear a.target b.target a b (mem_edits_iff.mp memberA) (mem_edits_iff.mp memberB)
      different

namespace Elf.Image

open Layout

def loadRegions (image : Image) : List Region :=
  (image.segments.zipIdx.filter fun item => item.1.isLoad).map fun item =>
    ⟨segmentEntity item.1 item.2, item.1.memorySpan⟩

variable {data : Bytes} {image : Image}

theorem load_regions_disjoint_of_parse (parsed : parse data = .ok image) :
    checkDisjoint .addresses noExcuse image.loadRegions = .ok () :=
  loads_disjoint_iff.mpr (check_loads_eq_ok_iff.mp (check_loads_of_parse parsed))

/-- The segments of a parsed file are held to nothing but what is asked of each by itself. -/
theorem check_segments_of_parse (parsed : parse data = .ok image) :
    image.checkSegments =
      image.segments.zipIdx.forM fun item => checkSegment image.fileLength item.1 item.2 := by
  have disjoint := load_regions_disjoint_of_parse parsed
  change (image.segments.zipIdx.forM _ >>= fun _ =>
    checkDisjoint .addresses noExcuse image.loadRegions) = _
  rw [disjoint]
  cases image.segments.zipIdx.forM fun item => checkSegment image.fileLength item.1 item.2 <;> rfl

end Elf.Image

section Checks

open Layout Elf Elf.Image

/-- Each of the three checks agrees with a comparison of all pairs, and that of the regions names
the later one of a pair. The loaded segments of a parsed file pass theirs again among the layout
rules. -/
theorem overlap_checks_exact :
    (∀ (space : Space) (excused : Region → Region → Bool) (regions : List Region),
      (checkDisjoint space excused regions = .ok () ↔ ∀ a b, ¬ Conflict excused regions a b) ∧
      ∀ error, checkDisjoint space excused regions = .error error →
        ∃ a b, Conflict excused regions a b ∧
          error = .violation b.entity b.span.start (.overlaps space b.span a.entity a.span)) ∧
    (∀ staged : EditSet, staged.checkDisjoint = .ok () ↔
      ∀ s t a b, staged.get? s = some a → staged.get? t = some b → s ≠ t →
        a.span.overlaps b.span = false) ∧
    (∀ segments : List Segment, checkLoads segments = .ok () ↔
      ∀ (i j : Nat) (a b : Segment), segments[i]? = some a → segments[j]? = some b → i ≠ j →
        a.isLoad = true → b.isLoad = true → a.memorySpan.overlaps b.memorySpan = false) ∧
    ∀ (data : Bytes) (image : Elf.Image), Elf.Image.parse data = .ok image →
      checkDisjoint .addresses noExcuse image.loadRegions = .ok () ∧
      image.checkSegments =
        image.segments.zipIdx.forM fun item => checkSegment image.fileLength item.1 item.2 := by
  refine ⟨?_, EditSet.check_disjoint_eq_ok_iff_targets, fun segments => check_loads_eq_ok_iff, ?_⟩
  · intro space excused regions
    exact ⟨check_disjoint_eq_ok_iff_no_conflict, fun error => conflict_of_check_disjoint⟩
  · intro data image parsed
    exact ⟨load_regions_disjoint_of_parse parsed, check_segments_of_parse parsed⟩

/-- Around two sections that start at one place lies a third one, which is listed last. -/
def nestedRegions : List Region :=
  [⟨.peSection "late", ⟨0x80, 0x10⟩⟩, ⟨.peSection "even later", ⟨0x80, 0x20⟩⟩,
    ⟨.peSection "around", ⟨0, 0x100⟩⟩]

def excuseAround (a _ : Region) : Bool := a.entity == .peSection "around"

theorem overlap_checks_exact_nested :
    checkDisjoint .rawData excuseAround nestedRegions =
        .error (.violation (.peSection "even later") 0x80
          (.overlaps .rawData ⟨0x80, 0x20⟩ (.peSection "late") ⟨0x80, 0x10⟩)) ∧
      (∃ a b, Conflict excuseAround nestedRegions a b ∧ b.entity = .peSection "even later") ∧
      Elf.Image.parse twiceLoadedFile = .ok twiceLoadedImage ∧
      checkDisjoint .addresses noExcuse twiceLoadedImage.loadRegions = .ok () ∧
      twiceLoadedImage.checkSegments = twiceLoadedImage.segments.zipIdx.forM fun item =>
        checkSegment twiceLoadedImage.fileLength item.1 item.2 := by
  have failed : checkDisjoint .rawData excuseAround nestedRegions =
      .error (.violation (.peSection "even later") 0x80
        (.overlaps .rawData ⟨0x80, 0x20⟩ (.peSection "late") ⟨0x80, 0x10⟩)) := by
    decide +kernel
  have parsed : Elf.Image.parse twiceLoadedFile = .ok twiceLoadedImage := by decide +kernel
  obtain ⟨swept, _, _, loads⟩ := overlap_checks_exact
  obtain ⟨a, b, conflict, named⟩ := (swept _ _ _).2 _ failed
  obtain ⟨entity, _⟩ := Error.violation.inj named
  exact ⟨failed, ⟨a, b, conflict, entity.symm⟩, parsed, loads _ _ parsed⟩

end Checks

end BinaryImage
