import ConicForm.Text.Sequence

/-! The shape of an array: its extents, outermost first. One number alone has no extents. -/
namespace ConicForm

abbrev Shape := List Nat

namespace Shape

def count : Shape → Nat
  | [] => 1
  | outer :: inner => outer * count inner

def written (shape : Shape) : String := Text.tuple (shape.map toString)

def mostExtents : Nat := 64

/-- Rows and columns of the matrix that an array stands for: with fewer than two extents it is one
row, and with more it is none. -/
def matrix? : Shape → Option (Nat × Nat)
  | [] => some (1, 1)
  | [cols] => some (1, cols)
  | [rows, cols] => some (rows, cols)
  | _ => none

/-- Numbers of two lengths go together one by one, or one number goes with all others. -/
def GoTogether (first second : Nat) : Prop := first = second ∨ first = 1 ∨ second = 1

instance (first second : Nat) : Decidable (GoTogether first second) :=
  inferInstanceAs (Decidable (_ ∨ _))

/-- An array can be written over a list of `length` numbers: its last extent is their number, or one
that goes with all of them, and any others are one. -/
def Fills (shape : Shape) (length : Nat) : Prop :=
  match shape.reverse with
  | [] => True
  | last :: outer => (last = length ∨ last = 1) ∧ ∀ extent ∈ outer, extent = 1

instance (shape : Shape) (length : Nat) : Decidable (shape.Fills length) := by
  unfold Fills
  split <;> infer_instance

end Shape
end ConicForm
