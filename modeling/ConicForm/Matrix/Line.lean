import ConicForm.Binary64

/-! One row or one column of a sparse matrix: the stored entries, each with its position along the
line. A position may be stored more than once, and a stored value may be zero. Positions are
integers, as nothing here asks how long the line is. -/
namespace ConicForm

abbrev Line := List (Int × Binary64)

namespace Line

/-- Puts an entry into an ascending line. At a position that is there already the new value is
added to the old one. -/
def place (position : Int) (value : Binary64) : Line → Line
  | [] => [(position, value)]
  | (p, v) :: rest =>
    if position < p then (position, value) :: (p, v) :: rest
    else if position = p then (p, v + value) :: rest
    else (p, v) :: place position value rest

/-- The line with ascending positions, where entries that share a position are summed in the order
they are stored in. A sum of zero stays stored. -/
def combine (line : Line) : Line :=
  line.foldl (fun ascending entry => place entry.1 entry.2 ascending) []

def scale (factor : Binary64) (line : Line) : Line :=
  line.map fun entry => (entry.1, factor * entry.2)

def reposition (place : Int → Int) (line : Line) : Line :=
  line.map fun entry => (place entry.1, entry.2)

/-- The entries of a dense line. Zeros of either sign are not stored. -/
def ofDense (values : List Binary64) : Line :=
  (values.zipIdx.filter fun entry => !entry.1.isZero).map fun entry => ((entry.2 : Int), entry.1)

/-- Where each line of a matrix starts among all stored entries, and after the last one their
number. -/
def pointersFrom (start : Nat) : List Line → List Nat
  | [] => [start]
  | line :: lines => start :: pointersFrom (start + line.length) lines

def pointers (lines : List Line) : List Nat := pointersFrom 0 lines

theorem length_pointersFrom (start : Nat) (lines : List Line) :
    (pointersFrom start lines).length = lines.length + 1 := by
  induction lines generalizing start with
  | nil => rfl
  | cons line lines ih => simp [pointersFrom, ih]

theorem mem_place {position : Int} {value : Binary64} {line : Line} {entry : Int × Binary64}
    (member : entry ∈ place position value line) : entry.1 = position ∨ entry ∈ line := by
  induction line with
  | nil => simp [place] at member; simp [member]
  | cons head rest ih =>
    simp only [place] at member
    split at member
    · rcases List.mem_cons.1 member with h | h
      · simp [h]
      · exact Or.inr h
    · split at member
      next same =>
        rcases List.mem_cons.1 member with h | h
        · simp [h, same]
        · exact Or.inr (List.mem_cons_of_mem _ h)
      next =>
        rcases List.mem_cons.1 member with h | h
        · simp [h]
        · rcases ih h with h | h
          · exact Or.inl h
          · exact Or.inr (List.mem_cons_of_mem _ h)

/-- Positions ascend strictly, so none is stored twice. -/
def Ascending (line : Line) : Prop := line.Pairwise fun a b => a.1 < b.1

theorem ascending_place (position : Int) (value : Binary64) {line : Line}
    (ascending : Ascending line) : Ascending (place position value line) := by
  induction line with
  | nil => simp [place, Ascending]
  | cons head rest ih =>
    have tail : Ascending rest := ascending.tail
    have above := (List.pairwise_cons.1 ascending).1
    simp only [place]
    split
    next before =>
      refine List.pairwise_cons.2 ⟨fun entry member => ?_, ascending⟩
      rcases List.mem_cons.1 member with rfl | member
      · exact before
      · exact Int.lt_trans before (above entry member)
    next notBefore =>
      split
      next same => exact List.pairwise_cons.2 ⟨fun entry member => above entry member, tail⟩
      next other =>
        refine List.pairwise_cons.2 ⟨fun entry member => ?_, ih tail⟩
        rcases mem_place member with h | h
        · show head.1 < entry.1
          omega
        · exact above entry h

theorem ascending_combine (line : Line) : Ascending (combine line) := by
  have general : ∀ (entries : Line) (start : Line), Ascending start →
      Ascending (entries.foldl (fun ascending entry => place entry.1 entry.2 ascending) start) := by
    intro entries
    induction entries with
    | nil => exact fun _ ascending => ascending
    | cons entry entries ih => exact fun start ascending => ih _ (ascending_place _ _ ascending)
  exact general line [] List.Pairwise.nil

end Line
end ConicForm
