import ConicForm.DataFault

/-! What fits where: an integer into a machine word, items into a list, numbers into an array, and
an integer into a message. -/
namespace ConicForm

def Capacity.word : Int := 1 <<< 63

/-- What everything runs on. No list and no array is given more bytes than memory has, and their
number fits a word. Nothing else is known of it. -/
class Machine where
  memory : Nat
  memory_lt_word : (memory : Int) < Capacity.word

/-- A machine to run on where none is given. -/
instance Machine.usual : Machine := ⟨1 <<< 36, by decide⟩

namespace Capacity

def IsWord (n : Int) : Prop := -word ≤ n ∧ n < word

instance (n : Int) : Decidable (IsWord n) := inferInstanceAs (Decidable (_ ∧ _))

def listLength [Machine] (n : Int) : Except DataFault Nat :=
  if word ≤ n then .error .tooLarge
  else if Machine.memory < 8 * n then .error .outOfMemory
  else .ok n.toNat

def arrayLength [Machine] (bytes n : Int) : Except DataFault Nat :=
  if word ≤ bytes * n then .error .malformed
  else if Machine.memory < bytes * n then .error .outOfMemory
  else .ok n.toNat

/-- The extents of an array with numbers of some bytes each. None is negative, and their product is
a size even if extents of zero are left out. -/
def arrayExtents [Machine] (bytes : Int) (extents : List Int) : Except DataFault (List Nat) :=
  let size (extents : List Int) : Int := extents.foldl (· * ·) bytes
  if extents.any (· < 0) || word ≤ size (extents.filter (· ≠ 0)) then .error .malformed
  else if Machine.memory < size extents then .error .outOfMemory
  else .ok (extents.map Int.toNat)

/-- The most digits of an integer that is read from a text or written into one. -/
def digits : Nat := 4300

-- The power below is not to be multiplied out.
attribute [irreducible] digits

def Writable (n : Int) : Prop := n.natAbs < Nat.pow 10 digits

instance (n : Int) : Decidable (Writable n) := inferInstanceAs (Decidable (_ < _))

/-- No integer has more digits than bits. -/
theorem writable_of_bits {n : Int} {bits : Nat} (few : bits ≤ digits)
    (short : n.natAbs < 1 <<< bits) : Writable n := by
  have wider : 2 ^ bits ≤ 10 ^ bits := Nat.pow_le_pow_left (by decide) bits
  have longer : 10 ^ bits ≤ 10 ^ digits := Nat.pow_le_pow_right (by decide) few
  rw [Nat.one_shiftLeft] at short
  exact Nat.lt_of_lt_of_le short (Nat.le_trans wider longer)

theorem writable_of_isWord {n : Int} (inside : IsWord n) : Writable n := by
  have few : 64 ≤ digits := by
    unfold digits
    decide
  have size : word = 1 <<< 63 := rfl
  have twice : 1 <<< 64 = 2 * 1 <<< 63 := by decide
  refine writable_of_bits few ?_
  unfold IsWord at inside
  omega

attribute [irreducible] Writable

end Capacity
end ConicForm
