import ConicForm.Text.CodePoint
import ConicForm.Text.Printable

/-! A text between quotes, as messages show it. The quotes are single, unless the text holds
single quotes and no double one. The chosen quote and the backslash are escaped, so are line
ends and tabs, and what is unprintable is written by its code point. -/
namespace ConicForm.Text

def hex (width n : Nat) : List Char :=
  let digits := Nat.toDigits 16 n
  List.replicate (width - digits.length) '0' ++ digits

def numbered (n : Nat) : List Char :=
  if n < 0x100 then '\\' :: 'x' :: hex 2 n
  else if n < 0x10000 then '\\' :: 'u' :: hex 4 n
  else '\\' :: 'U' :: hex 8 n

/-- One code point inside quotes. Half of a surrogate pair is unprintable. -/
def escape (quote : Char) : CodePoint → List Char
  | .char c =>
    if c = quote || c = '\\' then ['\\', c]
    else if c = '\n' then ['\\', 'n']
    else if c = '\r' then ['\\', 'r']
    else if c = '\t' then ['\\', 't']
    else if isPrintable c then [c]
    else numbered c.toNat
  | point => numbered point.value

def quoteFor (text : List CodePoint) : Char :=
  if text.contains (.char '\'') && !text.contains (.char '"') then '"' else '\''

def quoted (text : String) : String :=
  let points := codePoints text
  let quote := quoteFor points
  String.ofList (quote :: points.flatMap (escape quote) ++ [quote])

end ConicForm.Text
