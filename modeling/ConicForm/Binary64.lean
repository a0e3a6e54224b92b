import ConicForm.Grid

/-! Binary64 numbers with the rational they stand for. A finite number is a sign and a
magnitude on the grid, so the sign of a zero is kept and every other number is its value; there
is one NaN. Arithmetic is exact rational arithmetic followed by one rounding. -/
namespace ConicForm

inductive Binary64 where
  | nan
  | infinity (negative : Bool)
  | finite (negative : Bool) (magnitude : Rat) (onGrid : Grid.OnGrid magnitude)
deriving DecidableEq

namespace Binary64

def zero : Binary64 := .finite false 0 Grid.onGrid_zero

def one : Binary64 := .finite false 1 Grid.onGrid_one

/-- Rounds a nonnegative rational and gives it a sign. A rational on the grid is kept, one that
rounds to the limit or beyond becomes infinite, and one that rounds to zero keeps its sign. -/
def ofMagnitude (negative : Bool) (q : Rat) : Binary64 :=
  if exact : Grid.OnGrid q then .finite negative q exact
  else if rounded : Grid.OnGrid (Grid.nearest q) then .finite negative (Grid.nearest q) rounded
  else .infinity negative

def ofRat (q : Rat) : Binary64 :=
  if q < 0 then ofMagnitude true (-q) else ofMagnitude false q

/-- Nearest number to an integer; none if it would be infinite. -/
def ofInt? (n : Int) : Option Binary64 :=
  match ofRat (n : Rat) with
  | .infinity _ => none
  | x => some x

def value? : Binary64 → Option Rat
  | .finite negative q _ => some (if negative then -q else q)
  | _ => none

def isFinite : Binary64 → Bool
  | .finite _ _ _ => true
  | _ => false

def isZero : Binary64 → Bool
  | .finite _ q _ => q == 0
  | _ => false

def truncate? : Binary64 → Option Int
  | .finite negative q _ => some (if negative then -q.floor else q.floor)
  | _ => none

def integer? : Binary64 → Option Int
  | .finite negative q _ =>
    if q.den = 1 then some (if negative then -q.num else q.num) else none
  | _ => none

def neg : Binary64 → Binary64
  | .nan => .nan
  | .infinity negative => .infinity (!negative)
  | .finite negative q onGrid => .finite (!negative) q onGrid

instance : Neg Binary64 := ⟨neg⟩

/-- Product. The signs combine also where the product is zero; zero times infinity is NaN. -/
def mul : Binary64 → Binary64 → Binary64
  | .finite s a _, .finite t b _ => ofMagnitude (s ^^ t) (a * b)
  | .infinity s, .infinity t => .infinity (s ^^ t)
  | .infinity s, .finite t b _ => if b == 0 then .nan else .infinity (s ^^ t)
  | .finite s a _, .infinity t => if a == 0 then .nan else .infinity (s ^^ t)
  | .nan, _ => .nan
  | _, .nan => .nan

instance : Mul Binary64 := ⟨mul⟩

/-- Sum. Opposite numbers sum to the positive zero, two negative zeros to the negative one;
infinities of opposite signs have no sum. -/
def add : Binary64 → Binary64 → Binary64
  | .finite s a _, .finite t b _ =>
    if s = t then ofMagnitude s (a + b)
    else if a = b then zero
    else if b < a then ofMagnitude s (a - b)
    else ofMagnitude t (b - a)
  | .infinity s, .infinity t => if s = t then .infinity s else .nan
  | .infinity s, .finite _ _ _ => .infinity s
  | .finite _ _ _, .infinity t => .infinity t
  | .nan, _ => .nan
  | _, .nan => .nan

instance : Add Binary64 := ⟨add⟩

/-- Numerical equality: NaN equals nothing and the zeros equal each other. -/
def equals : Binary64 → Binary64 → Bool
  | .finite s a _, .finite t b _ => a == b && (a == 0 || s == t)
  | .infinity s, .infinity t => s == t
  | _, _ => false

theorem ofMagnitude_of_onGrid (negative : Bool) {q : Rat} (onGrid : Grid.OnGrid q) :
    ofMagnitude negative q = .finite negative q onGrid := by
  simp [ofMagnitude, onGrid]

theorem one_mul (x : Binary64) : one * x = x := by
  show mul one x = x
  cases x with
  | nan => rfl
  | infinity negative => cases negative <;> rfl
  | finite negative q onGrid =>
    simp only [mul, one, Rat.one_mul, Bool.false_bne, ofMagnitude_of_onGrid, onGrid]

theorem neg_one_mul (x : Binary64) : -one * x = -x := by
  show mul (neg one) x = neg x
  cases x with
  | nan => rfl
  | infinity negative => cases negative <;> rfl
  | finite negative q onGrid =>
    simp only [mul, neg, one, Rat.one_mul, Bool.true_bne, Bool.not_false, ofMagnitude_of_onGrid,
      onGrid]

theorem neg_neg (x : Binary64) : - -x = x := by
  show neg (neg x) = x
  cases x <;> simp [neg]

theorem value?_neg (x : Binary64) : (-x).value? = x.value?.map (fun q => -q) := by
  show (neg x).value? = _
  cases x with
  | nan => rfl
  | infinity negative => rfl
  | finite negative q onGrid =>
    cases negative <;>
      simp only [neg, value?, Rat.neg_neg, Option.map_some, Bool.not_true, Bool.not_false, if_true,
        Bool.false_eq_true, if_false]

end Binary64
end ConicForm
