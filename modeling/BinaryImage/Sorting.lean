/-!
Stable sorting by a numeric key, and the neighbours of a sorted list.
-/

namespace BinaryImage

variable {α : Type}

def insertOn (key : α → Nat) (item : α) : List α → List α
  | [] => [item]
  | first :: rest =>
    if key item ≤ key first then item :: first :: rest else first :: insertOn key item rest

/-- Ascending by `key`; elements of equal keys keep their order. -/
def sortOn (key : α → Nat) : List α → List α
  | [] => []
  | item :: rest => insertOn key item (sortOn key rest)

def neighbours (items : List α) : List (α × α) := items.zip items.tail

end BinaryImage
