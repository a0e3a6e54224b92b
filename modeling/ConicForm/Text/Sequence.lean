/-! Items one after the other, with commas and brackets, as messages show them. -/
namespace ConicForm.Text

def commaSeparated (items : List String) : String := ", ".intercalate items

def bracketed (items : List String) : String := "[" ++ commaSeparated items ++ "]"

/-- Items between round brackets; one item alone is followed by a comma. -/
def tuple : List String → String
  | [item] => "(" ++ item ++ ",)"
  | items => "(" ++ commaSeparated items ++ ")"

end ConicForm.Text
