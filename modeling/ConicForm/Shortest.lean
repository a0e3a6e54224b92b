import ConicForm.Literal

/-! The shortest decimal that reads back as a number, and its written form: positional from
`0.0001` up to below `10^16`, with an exponent elsewhere. -/
namespace ConicForm.Shortest

open ConicForm.Literal

/-- The largest `e` with `10^e ≤ q`, for positive `q`. -/
def floorLog10 (q : Rat) : Int :=
  let e : Int := (digitCount q.num.natAbs : Int) - (digitCount q.den : Int)
  if pow10 e ≤ q then e else e - 1

def readsBack (q : Rat) (significand : Nat) (exponent : Int) : Bool :=
  (Binary64.ofMagnitude false ((significand : Rat) * pow10 exponent)).value? == some q

/-- Of the two decimals with `count` digits around `q`, the one that reads back; if both do, the
nearer, and half way between them the even one. -/
def around (q : Rat) (count : Nat) : Option (Nat × Int) :=
  let exponent := floorLog10 q + 1 - (count : Int)
  let scaled := q / pow10 exponent
  let below := scaled.floor.toNat
  let above := below + 1
  match readsBack q below exponent, readsBack q above exponent with
  | true, true => some ((Grid.roundHalfEven scaled).toNat, exponent)
  | true, false => some (below, exponent)
  | false, true => some (above, exponent)
  | false, false => none

/-- Drops final zeros; `fuel` bounds their number. -/
def dropZeros : Nat → Nat → Int → Nat × Int
  | 0, significand, exponent => (significand, exponent)
  | fuel + 1, significand, exponent =>
    if significand ≠ 0 && significand % 10 == 0 then
      dropZeros fuel (significand / 10) (exponent + 1)
    else (significand, exponent)

/-- The fewest digits that read back. Seventeen always do. -/
def decimal (q : Rat) : Nat × Int :=
  let found := (List.range 17).findSome? fun k => around q (k + 1)
  let (significand, exponent) := found.getD (0, 0)
  dropZeros 17 significand exponent

/-- Places digits around the point; `point` is the number of digits in front of it. -/
def positional (ds : List Char) (point : Int) : List Char :=
  if point ≤ 0 then '0' :: '.' :: List.replicate (-point).toNat '0' ++ ds
  else
    let whole := point.toNat
    if ds.length ≤ whole then ds ++ List.replicate (whole - ds.length) '0' ++ ['.', '0']
    else ds.take whole ++ '.' :: ds.drop whole

/-- One digit, a point if digits follow, and an exponent of at least two digits with its sign. -/
def scientific (ds : List Char) (exponent : Int) : List Char :=
  let mantissa := ds.take 1 ++ (if ds.length ≤ 1 then [] else '.' :: ds.drop 1)
  let power := Nat.toDigits 10 exponent.natAbs
  mantissa ++ 'e' :: (if exponent < 0 then '-' else '+') ::
    List.replicate (2 - power.length) '0' ++ power

def magnitude (q : Rat) : List Char :=
  if q == 0 then ['0', '.', '0']
  else
    let (significand, exponent) := decimal q
    let ds := Nat.toDigits 10 significand
    let point := exponent + (ds.length : Int)
    if -4 < point && point ≤ 16 then positional ds point else scientific ds (point - 1)

end ConicForm.Shortest

namespace ConicForm

def Binary64.written : Binary64 → String
  | .nan => "nan"
  | .infinity negative => if negative then "-inf" else "inf"
  | .finite negative q _ =>
    String.ofList ((if negative then ['-'] else []) ++ Shortest.magnitude q)

end ConicForm
