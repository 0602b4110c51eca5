import BinaryImage.Bytes.Access
import BinaryImage.Bytes.Reader
import Mathlib.Data.List.Forall2

/-!
Files that agree on a span look alike to whatever reads that span alone.
-/

namespace BinaryImage

namespace Span

theorem covers_of_fits {inner outer : Span} (start : outer.start ≤ inner.start)
    (stop : inner.start + inner.length ≤ outer.start + outer.length) {offset : Nat}
    (inside : inner.Covers offset) : outer.Covers offset := by
  unfold Covers at *
  omega

end Span

namespace Bytes

def Agree (a b : Bytes) (span : Span) : Prop :=
  ∀ offset, span.Covers offset → a[offset]? = b[offset]?

variable {a b : Bytes}

theorem Agree.mono {inner outer : Span} (agree : Agree a b outer)
    (start : outer.start ≤ inner.start)
    (stop : inner.start + inner.length ≤ outer.start + outer.length) : Agree a b inner := by
  intro offset inside
  exact agree offset (Span.covers_of_fits start stop inside)

theorem Agree.drop_take {start count : Nat} (agree : Agree a b ⟨start, count⟩) :
    (a.drop start).take count = (b.drop start).take count := by
  apply List.ext_getElem?
  intro index
  rw [List.getElem?_take, List.getElem?_take, List.getElem?_drop, List.getElem?_drop]
  by_cases inside : index < count
  · rw [if_pos inside, if_pos inside]
    exact agree _ ⟨Nat.le_add_right _ _, Nat.add_lt_add_left inside _⟩
  · rw [if_neg inside, if_neg inside]

theorem Agree.slice {span : Span} (agree : Agree a b span) (length : a.length = b.length) :
    a.slice? span = b.slice? span := by
  unfold slice?
  rw [length, agree.drop_take]

theorem Agree.take {count : Nat} (agree : Agree a b ⟨0, count⟩) : a.take count = b.take count :=
  agree.drop_take

-- A string is told by its own bytes: the search for its end stops at the first NUL.
theorem Agree.terminator {start count : Nat} (agree : Agree a b ⟨start, count + 1⟩)
    (ends : terminator? (a.drop start) = some count) : terminator? (b.drop start) = some count := by
  have front : terminator? ((a.drop start).take (count + 1)) = some count := by
    rw [terminator?] at ends ⊢
    rw [List.findIdx?_take, ends]
    simp
  rw [agree.drop_take, terminator?, List.findIdx?_take, Option.bind_eq_some_iff] at front
  obtain ⟨found, again, kept⟩ := front
  obtain ⟨rfl, _⟩ := Option.guard_eq_some_iff.mp kept
  exact again

-- Whatever stands behind them, files with one front agree on it.
theorem agree_append (front behind after : Bytes) {span : Span}
    (inside : span.start + span.length ≤ front.length) :
    Agree (front ++ behind) (front ++ after) span := by
  rintro offset ⟨_, below⟩
  rw [List.getElem?_append_left (by omega), List.getElem?_append_left (by omega)]

-- A part of a slice is a slice of the file.
theorem slice_slice {data bytes : Bytes} {outer : Span} (found : data.slice? outer = some bytes)
    (inner : Span) (stop : inner.start + inner.length ≤ outer.length) :
    bytes.slice? inner = data.slice? ⟨outer.start + inner.start, inner.length⟩ := by
  have length := length_slice found
  obtain ⟨fits, rfl⟩ := slice_eq_some_iff.mp found
  have inside : inner.fitsIn ((data.drop outer.start).take outer.length).length = true := by
    rw [Span.fitsIn_iff]
    omega
  have whole : Span.fitsIn ⟨outer.start + inner.start, inner.length⟩ data.length = true := by
    rw [Span.fitsIn_iff]
    simp only
    omega
  rw [slice?, slice?, if_pos inside, if_pos whole]
  simp only [List.drop_take, List.take_take, List.drop_drop]
  rw [Nat.min_eq_left (by omega)]

end Bytes

namespace Reader

def Returns {α : Type} (reader : Reader α) (property : α → Prop) : Prop :=
  ∀ cursor value next, reader cursor = .ok value next → property value

variable {α β : Type} {property : α → Prop}

theorem returns_pure {value : α} (holds : property value) :
    Returns (pure value) property := by
  intro cursor result next done
  cases done
  exact holds

/-- What is read later may depend on what is known of the first field. -/
theorem returns_bind_of {first : Reader β} {rest : β → Reader α} {known : β → Prop}
    (start : Returns first known) (later : ∀ value, known value → Returns (rest value) property) :
    Returns (first >>= rest) property := by
  intro cursor result next done
  change EStateM.bind first rest cursor = _ at done
  unfold EStateM.bind at done
  split at done
  · next value middle read => exact later value (start _ _ _ read) middle result next done
  · cases done

theorem returns_bind {first : Reader β} {rest : β → Reader α}
    (later : ∀ value, Returns (rest value) property) :
    Returns (first >>= rest) property := by
  have start : Returns first fun _ => True := fun _ _ _ _ => trivial
  exact returns_bind_of start fun value _ => later value

theorem returns_times (reader : Reader α) (count : Nat) :
    Returns (FieldReader.times reader count) fun values => values.length = count := by
  induction count with
  | zero => exact returns_pure rfl
  | succ count ih =>
    apply returns_bind
    intro first cursor values next done
    change EStateM.bind (FieldReader.times reader count) _ cursor = _ at done
    unfold EStateM.bind at done
    split at done
    · next rest middle restRead =>
      cases done
      rw [List.length_cons, ih _ _ _ restRead]
    · cases done

theorem run_on_returns {reader : Reader α} {data : Bytes} {base : Nat} {value : α}
    (returns : Returns reader property) (read : reader.runOn data base = .ok value) :
    property value := by
  unfold runOn at read
  split at read
  · next result next done =>
    cases read
    exact returns _ _ _ done
  · cases read

end Reader

theorem mapM_eq_ok_iff {α β : Type} {convert : α → Except Error β} {items : List α}
    {results : List β} :
    items.mapM convert = .ok results ↔
      List.Forall₂ (fun item result => convert item = .ok result) items results := by
  induction items generalizing results with
  | nil => simp [pure, Except.pure, eq_comm]
  | cons item rest ih =>
    simp only [List.mapM_cons, bind_eq_ok_iff, pure, Except.pure, Except.ok.injEq, ih,
      List.forall₂_cons_left_iff]
    constructor
    · rintro ⟨result, converted, others, all, rfl⟩
      exact ⟨result, others, converted, all, rfl⟩
    · rintro ⟨result, others, converted, all, rfl⟩
      exact ⟨result, converted, others, all, rfl⟩

theorem mapM_congr {α β : Type} {first second : α → Except Error β} {items : List α}
    (same : ∀ item ∈ items, first item = second item) : items.mapM first = items.mapM second := by
  induction items with
  | nil => rfl
  | cons item rest ih =>
    obtain ⟨head, tail⟩ := List.forall_mem_cons.mp same
    rw [List.mapM_cons, List.mapM_cons, head, ih tail]

theorem mapM_eq_ok_map {α β : Type} {convert : α → Except Error β} {result : α → β}
    {items : List α} (each : ∀ item ∈ items, convert item = .ok (result item)) :
    items.mapM convert = .ok (items.map result) := by
  rw [mapM_eq_ok_iff, List.forall₂_map_right_iff, List.forall₂_same]
  exact each

-- Results are compared by a part of them, for the rest may differ.
theorem mapM_related {α β γ : Type} {first second : α → Except Error β} (part : β → γ)
    {items : List α} {results : List β} (done : items.mapM first = .ok results)
    (each : ∀ item ∈ items, ∀ result ∈ results, first item = .ok result →
      ∃ other, second item = .ok other ∧ part other = part result) :
    ∃ others, items.mapM second = .ok others ∧ others.map part = results.map part := by
  have all := mapM_eq_ok_iff.mp done
  clear done
  induction all with
  | nil => exact ⟨[], rfl, rfl⟩
  | cons converted _ ih =>
    obtain ⟨other, again, same⟩ := each _ List.mem_cons_self _ List.mem_cons_self converted
    obtain ⟨others, rest, tail⟩ := ih fun item member result inside =>
      each item (List.mem_cons_of_mem _ member) result (List.mem_cons_of_mem _ inside)
    refine ⟨other :: others, mapM_eq_ok_iff.mpr (.cons again (mapM_eq_ok_iff.mp rest)), ?_⟩
    rw [List.map_cons, List.map_cons, same, tail]

theorem mapM_compared {α β : Type} {first second : α → Except Error β} {items : List α}
    {results others : List β} {related : β → β → Prop} (done : items.mapM first = .ok results)
    (again : items.mapM second = .ok others)
    (each : ∀ item result other, first item = .ok result → second item = .ok other →
      related result other) : List.Forall₂ related results others := by
  have allDone := mapM_eq_ok_iff.mp done
  have allAgain := mapM_eq_ok_iff.mp again
  clear done again
  induction allDone generalizing others with
  | nil =>
    cases allAgain
    exact .nil
  | cons one _ ih =>
    cases allAgain with
    | cons two rest => exact .cons (each _ _ _ one two) (ih rest)

theorem mem_of_mapM_eq_ok {α β : Type} {convert : α → Except Error β} {items : List α}
    {results : List β} (done : items.mapM convert = .ok results) {result : β}
    (member : result ∈ results) : ∃ item ∈ items, convert item = .ok result := by
  have all := mapM_eq_ok_iff.mp done
  clear done
  induction all with
  | nil => cases member
  | cons converted _ ih =>
    rcases List.mem_cons.mp member with rfl | later
    · exact ⟨_, List.mem_cons_self, converted⟩
    · rcases ih later with ⟨item, inside, one⟩
      exact ⟨item, List.mem_cons_of_mem _ inside, one⟩

end BinaryImage
