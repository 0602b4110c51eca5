import BinaryImage.Edit.Staged
import BinaryImage.Layout.Region
import BinaryImage.Proofs.Sorting
import Mathlib.Data.List.Pairwise

/-!
Two ways to look for overlapping spans agree with comparing all pairs: a sorted list need only be
compared neighbour by neighbour where every overlap counts, and otherwise by a sweep that goes on
from each span until one starts behind its stop.
-/

namespace BinaryImage

namespace Span

/-- Where the order is known, one comparison tells whether two spans overlap. -/
theorem overlaps_iff_start_lt {a b : Span} (filledA : a.isEmpty = false)
    (filledB : b.isEmpty = false) (sorted : a.start ≤ b.start) :
    a.overlaps b = true ↔ b.start < a.clippedStop := by
  constructor
  · intro shared
    exact ((a.overlaps_iff b).mp shared).2.2.2
  · intro reached
    have roomA := a.isEmpty_eq_false_iff.mp filledA
    have roomB := b.isEmpty_eq_false_iff.mp filledB
    refine (a.overlaps_iff b).mpr ⟨roomA, roomB, ?_, reached⟩
    rw [a.clippedStop_eq_min] at reached
    rw [b.clippedStop_eq_min]
    omega

theorem overlaps_of_isEmpty {a b : Span} (empty : ¬ (a.isEmpty = false ∧ b.isEmpty = false)) :
    a.overlaps b = false := by
  apply Bool.eq_false_iff.mpr
  intro shared
  obtain ⟨filledA, filledB, _⟩ := (a.overlaps_iff b).mp shared
  exact empty ⟨a.isEmpty_eq_false_iff.mpr filledA, b.isEmpty_eq_false_iff.mpr filledB⟩

-- Between two spans that overlap there is no room for one that overlaps neither.
theorem overlaps_of_between {a b c : Span} (filledA : a.isEmpty = false)
    (filledB : b.isEmpty = false) (filledC : c.isEmpty = false) (first : a.start ≤ b.start)
    (second : b.start ≤ c.start) (outer : a.overlaps c = true) : a.overlaps b = true := by
  have reached := (overlaps_iff_start_lt filledA filledC (Nat.le_trans first second)).mp outer
  exact (overlaps_iff_start_lt filledA filledB first).mpr (Nat.lt_of_le_of_lt second reached)

-- Ends are clipped to the largest offset, so spans that share this place alone do not overlap.
theorem overlaps_iff_covers_below {a b : Span} :
    a.overlaps b = true ↔ ∃ offset < offsetLimit - 1, a.Covers offset ∧ b.Covers offset := by
  rw [overlaps_iff, a.clippedStop_eq_min, b.clippedStop_eq_min]
  unfold Covers
  constructor
  · intro shared
    refine ⟨max a.start b.start, ?_, ?_, ?_⟩
    all_goals omega
  · rintro ⟨offset, below, inA, inB⟩
    omega

end Span

section Neighbours

variable {α : Type} (spanOf : α → Span)

/-- In a sorted list, neighbours that do not overlap leave no two members that do. -/
theorem neighbours_apart_iff {items : List α}
    (sorted : SortedOn (fun item => (spanOf item).start) items)
    (filled : ∀ item ∈ items, (spanOf item).isEmpty = false) :
    (∀ pair ∈ neighbours items, (spanOf pair.1).overlaps (spanOf pair.2) = false) ↔
      items.Pairwise fun a b => (spanOf a).overlaps (spanOf b) = false := by
  induction items with
  | nil => simp [neighbours]
  | cons first rest ih =>
    cases rest with
    | nil => simp [neighbours]
    | cons second others =>
      obtain ⟨least, tailSorted⟩ := List.pairwise_cons.mp sorted
      have tail := ih tailSorted fun item member => filled item (List.mem_cons_of_mem _ member)
      have paired : neighbours (first :: second :: others) =
          (first, second) :: neighbours (second :: others) := rfl
      rw [paired, List.forall_mem_cons, List.pairwise_cons, tail]
      apply and_congr_left
      intro apart
      constructor
      · intro clear item member
        rcases List.mem_cons.mp member with rfl | later
        · exact clear
        · -- An item further on that overlapped the first would make the second overlap it too.
          apply Bool.eq_false_iff.mpr
          intro shared
          have middle := Span.overlaps_of_between (filled first (by simp))
            (filled second (by simp)) (filled item (by simp [later])) (least second (by simp))
            ((List.pairwise_cons.mp tailSorted).1 item later) shared
          simp only at clear
          rw [clear] at middle
          contradiction
      · intro clear
        exact clear second (by simp)

end Neighbours

/-- A symmetric relation holds between the members of a list when it holds between any two
places. -/
theorem pairwise_iff_places {α : Type} {relation : α → α → Prop}
    (symmetric : ∀ {a b}, relation a b → relation b a) (items : List α) :
    items.Pairwise relation ↔
      ∀ (i j : Nat) (a b : α), items[i]? = some a → items[j]? = some b → i ≠ j → relation a b := by
  rw [List.pairwise_iff_getElem]
  constructor
  · intro ascending i j a b foundA foundB different
    obtain ⟨boundA, rfl⟩ := List.getElem?_eq_some_iff.mp foundA
    obtain ⟨boundB, rfl⟩ := List.getElem?_eq_some_iff.mp foundB
    rcases Nat.lt_or_gt_of_ne different with before | behind
    · exact ascending i j boundA boundB before
    · exact symmetric (ascending j i boundB boundA behind)
  · intro places i j boundA boundB before
    exact places i j _ _ (List.getElem?_eq_getElem boundA) (List.getElem?_eq_getElem boundB)
      (Nat.ne_of_lt before)

/-- The same for the members that are kept, which hold their place. -/
theorem pairwise_kept_iff_places {α : Type} (keep : α → Bool) {relation : α × Nat → α × Nat → Prop}
    (symmetric : ∀ {a b}, relation a b → relation b a) (items : List α) :
    (items.zipIdx.filter fun item => keep item.1).Pairwise relation ↔
      ∀ (i j : Nat) (a b : α), items[i]? = some a → items[j]? = some b → i ≠ j →
        keep a = true → keep b = true → relation (a, i) (b, j) := by
  rw [List.pairwise_filter, pairwise_iff_places
    (fun {a b} both keptB keptA => symmetric (both keptA keptB))]
  constructor
  · intro places i j a b foundA foundB
    apply places i j (a, i) (b, j)
    · rw [List.getElem?_zipIdx, foundA, Option.map_some, Nat.zero_add]
    · rw [List.getElem?_zipIdx, foundB, Option.map_some, Nat.zero_add]
  · intro places i j a b foundA foundB
    rw [List.getElem?_zipIdx, Nat.zero_add, Option.map_eq_some_iff] at foundA foundB
    obtain ⟨itemA, foundA, rfl⟩ := foundA
    obtain ⟨itemB, foundB, rfl⟩ := foundB
    exact places i j itemA itemB foundA foundB

-- Sorting, and leaving out what cannot matter, changes nothing for a symmetric relation.
theorem pairwise_sorted_filter_iff {α : Type} (key : α → Nat) (keep : α → Bool)
    {relation : α → α → Prop} (symmetric : ∀ {a b}, relation a b → relation b a)
    (vacuous : ∀ a b, ¬ (keep a = true ∧ keep b = true) → relation a b) (items : List α) :
    (sortOn key (items.filter keep)).Pairwise relation ↔ items.Pairwise relation := by
  rw [(sort_on_perm key (items.filter keep)).pairwise_iff symmetric, List.pairwise_filter]
  constructor
  · intro kept
    refine kept.imp fun {a b} both => ?_
    by_cases filled : keep a = true ∧ keep b = true
    · exact both filled.1 filled.2
    · exact vacuous a b filled
  · intro all
    exact all.imp fun both _ _ => both

namespace EditSet

theorem clash_eq_none_iff (staged : EditSet) :
    staged.clash? = none ↔
      staged.edits.Pairwise fun a b => a.span.overlaps b.span = false := by
  let filled := staged.edits.filter fun edit => !edit.span.isEmpty
  have nonempty : ∀ edit ∈ sortOn Edit.start filled, edit.span.isEmpty = false := by
    intro edit member
    have inFilled := (sort_on_perm Edit.start filled).mem_iff.mp member
    simpa using (List.mem_filter.mp inFilled).2
  calc staged.clash? = none
      ↔ ∀ pair ∈ neighbours (sortOn Edit.start filled),
          pair.1.span.overlaps pair.2.span = false := by
        simp only [clash?, List.find?_eq_none, Bool.not_eq_true]
        rfl
    _ ↔ (sortOn Edit.start filled).Pairwise fun a b => a.span.overlaps b.span = false :=
        neighbours_apart_iff Edit.span (sort_on_sorted Edit.start filled) nonempty
    _ ↔ staged.edits.Pairwise fun a b => a.span.overlaps b.span = false := by
        apply pairwise_sorted_filter_iff
        · intro a b apart
          rw [Span.overlaps_comm]
          exact apart
        · intro a b empty
          apply Span.overlaps_of_isEmpty
          simpa using empty

theorem check_disjoint_eq_ok_iff (staged : EditSet) :
    staged.checkDisjoint = .ok () ↔
      staged.edits.Pairwise fun a b => a.span.overlaps b.span = false := by
  rw [← clash_eq_none_iff]
  unfold checkDisjoint
  cases staged.clash? <;> simp

end EditSet

namespace Layout

/-- In a sorted list, what starts before a bound stands in front. -/
theorem mem_takeWhile_iff {α : Type} (key : α → Nat) (bound : Nat) {items : List α}
    (sorted : SortedOn key items) (item : α) :
    item ∈ items.takeWhile (fun other => key other < bound) ↔
      item ∈ items ∧ key item < bound := by
  induction items with
  | nil => simp
  | cons first rest ih =>
    obtain ⟨least, tail⟩ := List.pairwise_cons.mp sorted
    by_cases before : key first < bound
    · rw [List.takeWhile_cons_of_pos (by simpa using before), List.mem_cons, ih tail,
        List.mem_cons]
      constructor
      · rintro (rfl | ⟨later, below⟩)
        · exact ⟨.inl rfl, before⟩
        · exact ⟨.inr later, below⟩
      · rintro ⟨rfl | later, below⟩
        · exact .inl rfl
        · exact .inr ⟨later, below⟩
    · rw [List.takeWhile_cons_of_neg (by simpa using before)]
      constructor
      · intro member
        cases member
      · rintro ⟨member, below⟩
        rcases List.mem_cons.mp member with rfl | later
        · contradiction
        · have order := least item later
          omega

/-- The sweep misses no overlap that is not excused. -/
theorem first_conflict_eq_none_iff (excused : Region → Region → Bool) {regions : List Region}
    (sorted : SortedOn (fun region => region.span.start) regions)
    (filled : ∀ region ∈ regions, region.span.isEmpty = false) :
    firstConflict? excused regions = none ↔
      regions.Pairwise fun a b => a.span.overlaps b.span = true → excused a b = true := by
  induction regions with
  | nil => simp [firstConflict?]
  | cons region rest ih =>
    obtain ⟨least, tail⟩ := List.pairwise_cons.mp sorted
    have rest_iff := ih tail fun item member => filled item (List.mem_cons_of_mem _ member)
    have reached : ∀ later, later ∈ rest.takeWhile (fun other =>
        other.span.start < region.span.clippedStop) ↔
          later ∈ rest ∧ region.span.overlaps later.span = true := by
      intro later
      rw [mem_takeWhile_iff (fun other : Region => other.span.start) _ tail]
      apply and_congr_right
      intro member
      exact (Span.overlaps_iff_start_lt (filled region (by simp))
        (filled later (by simp [member])) (least later member)).symm
    rw [List.pairwise_cons, ← rest_iff, firstConflict?]
    cases found : (rest.takeWhile fun other =>
        other.span.start < region.span.clippedStop).find? fun later => !excused region later with
    | some later =>
      have member := (reached later).mp (List.mem_of_find?_eq_some found)
      have strict := List.find?_some found
      simp only [Bool.not_eq_true'] at strict
      simp only [reduceCtorEq, false_iff, not_and]
      intro clear
      have excuse := clear later member.1 member.2
      rw [strict] at excuse
      contradiction
    | none =>
      simp only [iff_and_self]
      intro _ later member shared
      have excuse := List.find?_eq_none.mp found later ((reached later).mpr ⟨member, shared⟩)
      simpa using excuse

theorem check_disjoint_eq_ok_iff_sorted (space : Space) (excused : Region → Region → Bool)
    (regions : List Region) :
    checkDisjoint space excused regions = .ok () ↔
      (sortOn (fun region : Region => region.span.start)
        (regions.filter fun region => !region.span.isEmpty)).Pairwise
          fun a b => a.span.overlaps b.span = true → excused a b = true := by
  have nonempty : ∀ region ∈ sortOn (fun region : Region => region.span.start)
      (regions.filter fun region => !region.span.isEmpty), region.span.isEmpty = false := by
    intro region member
    have inFilled := (sort_on_perm _ _).mem_iff.mp member
    simpa using (List.mem_filter.mp inFilled).2
  rw [← first_conflict_eq_none_iff excused (sort_on_sorted _ _) nonempty]
  simp only [checkDisjoint]
  split
  · next found => simp [found]
  · next found => simp [found]

/-- Where excuses do not depend on the order, a check passes when every overlap is excused. -/
theorem check_disjoint_eq_ok_iff_pairwise (space : Space) {excused : Region → Region → Bool}
    (symmetric : ∀ a b, excused a b = excused b a) (regions : List Region) :
    checkDisjoint space excused regions = .ok () ↔
      regions.Pairwise fun a b => a.span.overlaps b.span = true → excused a b = true := by
  rw [check_disjoint_eq_ok_iff_sorted]
  apply pairwise_sorted_filter_iff
  · intro a b excuse shared
    rw [Span.overlaps_comm] at shared
    rw [symmetric]
    exact excuse shared
  · intro a b empty shared
    have apart : a.span.overlaps b.span = false :=
      Span.overlaps_of_isEmpty (by simpa using empty)
    rw [apart] at shared
    contradiction

/-- Without excuses, a check passes when no two spans overlap. -/
theorem check_disjoint_eq_ok_iff_apart (space : Space) (regions : List Region) :
    checkDisjoint space noExcuse regions = .ok () ↔
      regions.Pairwise fun a b => a.span.overlaps b.span = false := by
  rw [check_disjoint_eq_ok_iff_pairwise space fun a b => rfl]
  simp only [noExcuse, Bool.false_eq_true, imp_false, Bool.not_eq_true]

theorem excused_of_check_disjoint {space : Space} {excused : Region → Region → Bool}
    (symmetric : ∀ a b, excused a b = excused b a) {regions : List Region}
    (passed : checkDisjoint space excused regions = .ok ()) {a b : Region} (memberA : a ∈ regions)
    (memberB : b ∈ regions) (different : a ≠ b) (shared : a.span.overlaps b.span = true) :
    excused a b = true := by
  have clear := (check_disjoint_eq_ok_iff_pairwise space symmetric regions).mp passed
  have swap : Std.Symm fun a b : Region => a.span.overlaps b.span = true → excused a b = true := by
    constructor
    intro a b excuse meet
    rw [symmetric]
    rw [Span.overlaps_comm] at meet
    exact excuse meet
  exact clear.forall memberA memberB different shared

end Layout

end BinaryImage
