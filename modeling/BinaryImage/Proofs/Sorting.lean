import BinaryImage.Sorting
import Mathlib.Data.List.Sort

/-!
Sorting by a key is the insertion sort of the library, under the order of the keys.
-/

namespace BinaryImage

section SortOn

variable {α β : Type} (key : α → Nat)

def SortedOn (items : List α) : Prop := items.Pairwise fun a b => key a ≤ key b

theorem insert_on_eq_ordered_insert (item : α) (items : List α) :
    insertOn key item items = items.orderedInsert (fun a b => key a ≤ key b) item := by
  induction items with
  | nil => rfl
  | cons first rest ih => rw [insertOn, List.orderedInsert_cons, ih]

theorem sort_on_eq_insertion_sort (items : List α) :
    sortOn key items = items.insertionSort fun a b => key a ≤ key b := by
  induction items with
  | nil => rfl
  | cons item rest ih => rw [sortOn, ih, insert_on_eq_ordered_insert, List.insertionSort_cons]

instance key_order_total : Std.Total fun a b : α => key a ≤ key b := ⟨fun _ _ => Nat.le_total _ _⟩

instance key_order_trans : IsTrans α fun a b => key a ≤ key b := ⟨fun _ _ _ => Nat.le_trans⟩

theorem sort_on_perm (items : List α) : (sortOn key items).Perm items := by
  rw [sort_on_eq_insertion_sort]
  exact List.perm_insertionSort _ items

theorem sort_on_sorted (items : List α) : SortedOn key (sortOn key items) := by
  rw [sort_on_eq_insertion_sort]
  exact List.pairwise_insertionSort _ items

theorem sort_on_map (change : β → α) (items : List β) :
    (sortOn (fun item => key (change item)) items).map change = sortOn key (items.map change) := by
  rw [sort_on_eq_insertion_sort, sort_on_eq_insertion_sort]
  exact List.map_insertionSort _ _ change items fun _ _ _ _ => Iff.rfl

/-- Sorting is stable: what has one key stands in the order in which it stood. -/
theorem filter_sort_on (value : Nat) (items : List α) :
    (sortOn key items).filter (fun item => key item == value) =
      items.filter fun item => key item == value := by
  let alike := fun item => key item == value
  have level : (items.filter alike).Pairwise fun a b => key a ≤ key b := by
    apply List.pairwise_of_forall_mem_list
    intro a memberA b memberB
    have keyA : key a = value := beq_iff_eq.mp (List.mem_filter.mp memberA).2
    have keyB : key b = value := beq_iff_eq.mp (List.mem_filter.mp memberB).2
    rw [keyA, keyB]
  have kept : (items.filter alike).Sublist (sortOn key items) := by
    rw [sort_on_eq_insertion_sort]
    exact List.sublist_insertionSort level List.filter_sublist
  have inside := kept.filter alike
  rw [List.filter_filter] at inside
  simp only [Bool.and_self] at inside
  have length := ((sort_on_perm key items).filter alike).length_eq
  exact (inside.eq_of_length length.symm).symm

example : sortOn Prod.fst [(7, true), (3, true), (7, false), (3, false)] =
    [(3, true), (3, false), (7, true), (7, false)] := by
  decide

end SortOn

end BinaryImage
