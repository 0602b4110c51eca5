import BinaryImage.Text.Hex

/-!
What a staged edit replaces. Targets are ordered by kind, then by their place: the interpreter,
dynamic strings, dynamic entries, DLL names.
-/

namespace BinaryImage

inductive EditTarget where
  | interpreter
  | dynamicString (offset : Nat)
  | dynamicEntry (index : Nat)
  | dllName (offset : Nat)
  deriving DecidableEq

namespace EditTarget

def kind : EditTarget → Nat
  | interpreter => 0
  | dynamicString _ => 1
  | dynamicEntry _ => 2
  | dllName _ => 3

def place : EditTarget → Nat
  | interpreter => 0
  | dynamicString offset => offset
  | dynamicEntry index => index
  | dllName offset => offset

def Before (a b : EditTarget) : Prop := a.kind < b.kind ∨ a.kind = b.kind ∧ a.place < b.place

instance (a b : EditTarget) : Decidable (Before a b) :=
  inferInstanceAs (Decidable (a.kind < b.kind ∨ a.kind = b.kind ∧ a.place < b.place))

theorem eq_of_kind_of_place {a b : EditTarget} (kind : a.kind = b.kind)
    (place : a.place = b.place) : a = b := by
  cases a <;> cases b <;> simp_all [EditTarget.kind, EditTarget.place]

theorem before_trans {a b c : EditTarget} (first : Before a b) (second : Before b c) :
    Before a c := by
  unfold Before at *
  omega

theorem ne_of_before {a b : EditTarget} (before : Before a b) : a ≠ b := by
  rintro rfl
  unfold Before at before
  omega

theorem before_of_ne {a b : EditTarget} (different : a ≠ b) (behind : ¬ Before a b) :
    Before b a := by
  have apart : ¬ (a.kind = b.kind ∧ a.place = b.place) :=
    fun same => different (eq_of_kind_of_place same.1 same.2)
  unfold Before at *
  omega

def render : EditTarget → String
  | interpreter => "interpreter"
  | dynamicString offset => "dynamic string at " ++ Text.hex offset
  | dynamicEntry index => "dynamic entry #" ++ toString index
  | dllName offset => "DLL name at " ++ Text.hex offset

end EditTarget

end BinaryImage
