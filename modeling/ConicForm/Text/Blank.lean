/-! Blanks and the removal of blanks around a text. -/
namespace ConicForm.Text

/-- The four information separators, which are blank in a name but not around a numeral. -/
def isSeparator (c : Char) : Bool :=
  0x1C ≤ c.toNat && c.toNat ≤ 0x1F

/-- White space as Unicode has it, together with the information separators. -/
def isBlank (c : Char) : Bool :=
  let n := c.toNat
  isSeparator c || (0x09 ≤ n && n ≤ 0x0D) || n == 0x20 || n == 0x85 || n == 0xA0 || n == 0x1680 ||
    (0x2000 ≤ n && n ≤ 0x200A) || n == 0x2028 || n == 0x2029 || n == 0x202F || n == 0x205F ||
    n == 0x3000

def isNumeralBlank (c : Char) : Bool :=
  isBlank c && !isSeparator c

/-- Drops the leading and the trailing characters of a class. -/
def trim (drop : Char → Bool) (text : List Char) : List Char :=
  ((text.dropWhile drop).reverse.dropWhile drop).reverse

theorem isBlank_of_isWhitespace {c : Char} (h : c.isWhitespace) : isBlank c := by
  simp only [Char.isWhitespace, Bool.or_eq_true, decide_eq_true_eq] at h
  rcases h with ((rfl | rfl) | rfl) | rfl <;> decide

end ConicForm.Text
