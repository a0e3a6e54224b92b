import ConicForm.Binary64
import ConicForm.Capacity
import ConicForm.Text.Blank
import ConicForm.Text.Digit

/-! Reading numbers from texts. Digits of every script count, one underscore may stand between
two digits, and blanks may surround the whole. -/
namespace ConicForm.Literal

open ConicForm.Text

def pow10 : Int → Rat
  | .ofNat n => ((Nat.pow 10 n : Nat) : Rat)
  | .negSucc n => mkRat 1 (Nat.pow 10 (n + 1))

def digitCount (n : Nat) : Nat := (Nat.toDigits 10 n).length

/-- The number nearest to `significand * 10^exponent`. Beyond the first power of ten that is too
large, and below the last one that is not rounded to zero, the power itself is not formed. -/
def ofDecimal (negative : Bool) (significand : Nat) (exponent : Int) : Binary64 :=
  let top := exponent + (digitCount significand : Int)
  if significand = 0 || top ≤ -324 then .finite negative 0 Grid.onGrid_zero
  else if 309 < top then .infinity negative
  else .ofMagnitude negative ((significand : Rat) * pow10 exponent)

/-- What follows a digit: further digits, each perhaps after an underscore. -/
def moreDigits : List Char → List Nat × List Char
  | '_' :: c :: rest =>
    match digit? c with
    | some d => (d :: (moreDigits rest).1, (moreDigits rest).2)
    | none => ([], '_' :: c :: rest)
  | c :: rest =>
    match digit? c with
    | some d => (d :: (moreDigits rest).1, (moreDigits rest).2)
    | none => ([], c :: rest)
  | [] => ([], [])

def digits : List Char → List Nat × List Char
  | [] => ([], [])
  | c :: rest =>
    match digit? c with
    | some d => (d :: (moreDigits rest).1, (moreDigits rest).2)
    | none => ([], c :: rest)

def sign : List Char → Bool × List Char
  | '-' :: rest => (true, rest)
  | '+' :: rest => (false, rest)
  | text => (false, text)

def fraction : List Char → List Nat × List Char
  | '.' :: rest => digits rest
  | text => ([], text)

/-- An exponent and nothing after it. -/
def exponent? : List Char → Option Int
  | [] => some 0
  | c :: rest =>
    if c = 'e' || c = 'E' then
      let (negative, rest) := sign rest
      match digits rest with
      | ([], _) => none
      | (ds, []) => some (if negative then -(numeral ds : Int) else (numeral ds : Int))
      | _ => none
    else none

def lowerAscii (text : List Char) : List Char := text.map Char.toLower

def named? (negative : Bool) (text : List Char) : Option Binary64 :=
  let name := String.ofList (lowerAscii text)
  if name == "inf" || name == "infinity" then some (.infinity negative)
  else if name == "nan" then some .nan
  else none

/-- Reads a decimal number: digits with at most one point among or around them, at least one
digit, and perhaps an exponent. -/
def decimal? (negative : Bool) (text : List Char) : Option Binary64 :=
  let (whole, rest) := digits text
  let (part, rest) := fraction rest
  if whole.isEmpty && part.isEmpty then none
  else (exponent? rest).map fun e => ofDecimal negative (numeral (whole ++ part)) (e - part.length)

def number? (text : String) : Option Binary64 :=
  let (negative, body) := sign (trim isNumeralBlank text.toList)
  (named? negative body).orElse fun _ => decimal? negative body

def integer? (text : String) : Option Int :=
  let (negative, body) := sign (trim isNumeralBlank text.toList)
  match digits body with
  | ([], _) => none
  | (ds, []) =>
    if Capacity.digits < ds.length then none
    else some (if negative then -(numeral ds : Int) else (numeral ds : Int))
  | _ => none

end ConicForm.Literal
