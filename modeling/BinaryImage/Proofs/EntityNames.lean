import BinaryImage.Layout.Rule

/-!
The layout rules tell structures apart by the names that messages give them. The name of a section
holds its index in front of a blank, so that no text after it can pass for a digit, and no section
is called like a table.
-/

namespace BinaryImage.Layout.Entity

theorem name_elf_section (index : Nat) (name : String) :
    (elfSection index name).name.toList =
      "section #".toList ++ (Nat.toDigits 10 index ++ ' ' :: '(' :: (name.toList ++ [')'])) := by
  have digits : (toString index).toList = Nat.toDigits 10 index := by
    rw [Nat.toString_eq_ofList_toDigits, String.toList_ofList]
  calc (elfSection index name).name.toList
      = ("section #" ++ toString index ++ " (" ++ name ++ ")").toList := rfl
    _ = "section #".toList ++
          ((toString index).toList ++ ' ' :: '(' :: (name.toList ++ [')'])) := by
        simp
    _ = _ := by rw [digits]

theorem takeWhile_digits (index : Nat) (rest : List Char) :
    (Nat.toDigits 10 index ++ ' ' :: rest).takeWhile Char.isDigit = Nat.toDigits 10 index := by
  have all : ∀ c ∈ Nat.toDigits 10 index, c.isDigit = true :=
    fun c member => Nat.isDigit_of_mem_toDigits (by decide) (by decide) member
  rw [List.takeWhile_append_of_pos all, List.takeWhile_cons_of_neg (by decide), List.append_nil]

/-- Sections that bear one name have one index. -/
theorem index_of_section_name {i j : Nat} {a b : String}
    (same : (elfSection i a).name = (elfSection j b).name) : i = j := by
  have texts := congrArg String.toList same
  rw [name_elf_section, name_elf_section] at texts
  have digits := congrArg (List.takeWhile Char.isDigit) (List.append_cancel_left texts)
  rw [takeWhile_digits, takeWhile_digits] at digits
  calc i = Nat.ofDigitChars 10 (Nat.toDigits 10 i) 0 := Nat.ofDigitChars_ten_toDigits.symm
    _ = Nat.ofDigitChars 10 (Nat.toDigits 10 j) 0 := by rw [digits]
    _ = j := Nat.ofDigitChars_ten_toDigits

/-- The ninth character of a section's name tells it from all texts that do not hold it there. -/
theorem section_name_ne {index : Nat} {name text : String} (other : text.toList[8]? ≠ some '#') :
    (elfSection index name).name ≠ text := by
  rintro rfl
  apply other
  rw [name_elf_section, List.getElem?_append_left (by decide)]
  decide

end BinaryImage.Layout.Entity
