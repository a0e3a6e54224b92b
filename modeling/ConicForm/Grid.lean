/-! The magnitudes a binary64 number can have, as a grid in the nonnegative rationals, and
rounding to that grid. A magnitude has 53 significant bits, no bit below `2^-1074`, and stays
below `2^1024`; a value half way between two magnitudes goes to the even one. -/
namespace ConicForm.Grid

def pow2 : Int → Rat
  | .ofNat n => ((1 <<< n : Nat) : Rat)
  | .negSucc n => mkRat 1 (1 <<< (n + 1))

/-- The largest `e` with `2^e ≤ q`, for positive `q`. The bit lengths of numerator and
denominator give it or the exponent just above. -/
def floorLog2 (q : Rat) : Int :=
  let e : Int := (q.num.natAbs.log2 : Int) - (q.den.log2 : Int)
  if pow2 e ≤ q then e else e - 1

/-- Distance between neighbouring magnitudes around `q`. -/
def spacing (q : Rat) : Rat :=
  let e := floorLog2 q - 52
  pow2 (if e < -1074 then -1074 else e)

def limit : Rat := pow2 1024

/-- `q` is the magnitude of a finite binary64 number. -/
def OnGrid (q : Rat) : Prop :=
  0 ≤ q ∧ q < limit ∧ (q / spacing q).den = 1

instance (q : Rat) : Decidable (OnGrid q) :=
  inferInstanceAs (Decidable (0 ≤ q ∧ q < limit ∧ (q / spacing q).den = 1))

def roundHalfEven (q : Rat) : Int :=
  let below := q.floor
  let rest := q - (below : Rat)
  if rest < mkRat 1 2 then below
  else if mkRat 1 2 < rest then below + 1
  else if below % 2 = 0 then below else below + 1

/-- Rounds to the grid of `q`'s own spacing. The result may reach `limit`. -/
def nearest (q : Rat) : Rat :=
  (roundHalfEven (q / spacing q) : Rat) * spacing q

theorem onGrid_zero : OnGrid 0 := by decide +kernel

theorem onGrid_one : OnGrid 1 := by decide +kernel

end ConicForm.Grid
