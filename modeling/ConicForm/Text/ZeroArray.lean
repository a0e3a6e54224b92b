import ConicForm.Shape

/-! How a message shows an array of zeros. Every number is written `0.`, each extent has its own
brackets, and a long line goes on below its first number. Of an array with many entries only the
ends of its long extents are shown. On its own an array is named and its numbers have commas between
them; in a sentence there are the bare numbers. -/
namespace ConicForm.Text

def blanks (count : Nat) : String := String.ofList (List.replicate count ' ')

/-- How numbers and lines are set apart. On a line that starts in column `i` a number may start in a
column `c` if `i + c` is at most `room`. -/
structure ArrayStyle where
  comma : String
  indent : Nat
  room : Nat

namespace ArrayStyle

def named : ArrayStyle := ⟨",", 7, 78⟩

def bare : ArrayStyle := ⟨"", 1, 73⟩

def perLine (style : ArrayStyle) (indent : Nat) : Nat :=
  (style.room - 2 * indent) / (style.comma.length + 3) + 1

end ArrayStyle

def mostShown : Nat := 1000

def ends : Nat := 3

/-- The equal parts of an extent, or those at its ends with dots between them. -/
def extentParts (abridged : Bool) (count : Nat) (part : String) : List String :=
  if abridged && 2 * ends < count then
    List.replicate ends part ++ "..." :: List.replicate ends part
  else List.replicate count part

def zeroLine (style : ArrayStyle) (abridged : Bool) (indent count : Nat) : String :=
  let gap (i : Nat) : String :=
    if i = 0 then ""
    else style.comma ++ if i % style.perLine indent = 0 then "\n" ++ blanks indent else " "
  let numbers := extentParts abridged count "0."
  "[" ++ String.join (numbers.zipIdx.map fun number => gap number.2 ++ number.1) ++ "]"

/-- The array after `indent` characters. Parts with more extents stand further apart. -/
def zeroLines (style : ArrayStyle) (abridged : Bool) (indent : Nat) : Shape → String
  | [] => "0."
  | [count] => zeroLine style abridged indent count
  | count :: inner =>
    let gap := style.comma ++ String.ofList (List.replicate inner.length '\n') ++ blanks indent
    let part := zeroLines style abridged (indent + 1) inner
    "[" ++ gap.intercalate (extentParts abridged count part) ++ "]"

/-- An array of zeros on its own. One without entries shows its shape, unless it has one extent
only, and so does one that is not shown in full. -/
def zeroArray (shape : Shape) : String :=
  let lines (abridged : Bool) := zeroLines .named abridged ArrayStyle.named.indent shape
  if shape.count = 0 then
    match shape with
    | [_] => "array([], dtype=float64)"
    | _ => "array([], shape=" ++ shape.written ++ ", dtype=float64)"
  else if shape.count ≤ mostShown then "array(" ++ lines false ++ ")"
  else "array(" ++ lines true ++ ", shape=" ++ shape.written ++ ")"

/-- An array of zeros in a sentence. One number without extents is written like any number. -/
def bareZeroArray (shape : Shape) : String :=
  match shape with
  | [] => "0.0"
  | shape =>
    if shape.count = 0 then "[]"
    else zeroLines .bare (mostShown < shape.count) ArrayStyle.bare.indent shape

end ConicForm.Text
