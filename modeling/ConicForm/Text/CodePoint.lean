/-! The code points of a text. A text may hold half of a surrogate pair, which is no character. It
is held as the last of all characters, which marks it, and a character that stands for the half.
Where the mark is meant itself, it stands twice. -/
namespace ConicForm.Text

inductive CodePoint where
  | char (c : Char)
  | half (offset : Fin 0x800)
deriving DecidableEq

namespace CodePoint

def value : CodePoint → Nat
  | char c => c.toNat
  | half offset => 0xD800 + offset.val

def ofNat (n : Nat) : CodePoint :=
  if h : 0xD800 ≤ n ∧ n < 0xE000 then half ⟨n - 0xD800, by omega⟩ else char (Char.ofNat n)

def mark : Char := Char.ofNat 0x10FFFF

/-- The first of the characters that stand for halves. -/
def standIn : Nat := 0x10D800

def held : CodePoint → List Char
  | char c => if c = mark then [mark, mark] else [c]
  | half offset => [mark, Char.ofNat (standIn + offset.val)]

/-- The code point that a character behind a mark stands for. -/
def marked (c : Char) : CodePoint :=
  if h : standIn ≤ c.toNat ∧ c.toNat < standIn + 0x800 then half ⟨c.toNat - standIn, by omega⟩
  else char c

def ofHeld : List Char → List CodePoint
  | [] => []
  | [c] => [char c]
  | c :: d :: rest => if c = mark then marked d :: ofHeld rest else char c :: ofHeld (d :: rest)

theorem toNat_standIn (offset : Fin 0x800) :
    (Char.ofNat (standIn + offset.val)).toNat = standIn + offset.val := by
  have valid : (standIn + offset.val).isValidChar := by
    have := offset.isLt
    unfold standIn Nat.isValidChar
    omega
  rw [Char.ofNat, dif_pos valid]
  rfl

theorem marked_standIn (offset : Fin 0x800) :
    marked (Char.ofNat (standIn + offset.val)) = half offset := by
  simp [marked, toNat_standIn]

theorem marked_mark : marked mark = char mark := by decide

/-- Every sequence of code points can be held, and is read back. -/
theorem ofHeld_flatMap_held (points : List CodePoint) : ofHeld (points.flatMap held) = points := by
  induction points with
  | nil => rfl
  | cons point points ih =>
    cases point with
    | char c =>
      simp only [List.flatMap_cons, held]
      split
      next same => simp [ofHeld, same, marked_mark, ih]
      next other =>
        cases rest : points.flatMap held with
        | nil => rw [rest] at ih; simp [ofHeld, ← ih]
        | cons d rest' => rw [rest] at ih; simp [ofHeld, other, ih]
    | half offset => simp [List.flatMap_cons, held, ofHeld, marked_standIn, ih]

end CodePoint

def codePoints (text : String) : List CodePoint := CodePoint.ofHeld text.toList

def ofCodePoints (points : List CodePoint) : String := String.ofList (points.flatMap CodePoint.held)

theorem codePoints_ofCodePoints (points : List CodePoint) :
    codePoints (ofCodePoints points) = points := by
  simp [codePoints, ofCodePoints, CodePoint.ofHeld_flatMap_held]

end ConicForm.Text
