import ConicForm.Text.Blank

/-! How a text names something: blanks around it and then colons in front of it are dropped, and
letters count in either case. -/
namespace ConicForm.Text

/-- What is left of a text once blanks around it and then leading colons are gone. -/
def bare (text : String) : List Char :=
  (trim isBlank text.toList).dropWhile (· == ':')

/-- The name in a text, in lower case. Only ASCII letters have a case here: `k` alone is the lower
case of a character beyond ASCII, and it is in no name. -/
def name (text : String) : List Char :=
  (bare text).map Char.toLower

end ConicForm.Text
