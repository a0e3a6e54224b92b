import ConicForm.StandardForm

/-! A constraint row with its right-hand side: what the rows of a form are made of. -/
namespace ConicForm

structure ConstraintRow where
  line : Line
  bound : Binary64
deriving DecidableEq

namespace ConstraintRow

def unit (col : Int) (coefficient bound : Binary64) : ConstraintRow := ⟨[(col, coefficient)], bound⟩

def scale (factor : Binary64) (row : ConstraintRow) : ConstraintRow :=
  ⟨row.line.scale factor, factor * row.bound⟩

def matrix (cols : Nat) (rows : List ConstraintRow) : ColumnMatrix :=
  ColumnMatrix.ofRows ⟨cols, rows.map line⟩

def bounds (rows : List ConstraintRow) : NumberArray := NumberArray.ofVector (rows.map bound)

theorem rows_matrix (cols : Nat) (rows : List ConstraintRow) :
    (matrix cols rows).rows = rows.length := by
  simp [matrix, ColumnMatrix.ofRows, ColumnMatrix.ofEntries, RowMatrix.rows]

theorem cols_matrix (cols : Nat) (rows : List ConstraintRow) :
    (matrix cols rows).cols = cols :=
  ColumnMatrix.cols_ofEntries _ _ _

end ConstraintRow

/-- The form with the given rows: `npos` inequality rows for the orthant, then one block of them for
each size. -/
def StandardForm.ofRows (npos : Nat) (sizes : List Nat)
    (inequalities equalities : List ConstraintRow) (objective : List Binary64) (sense : Sense)
    (order : VariableOrder) : Except Fault StandardForm :=
  let cols := objective.length
  StandardForm.make
    { n := .integer cols, m := .integer inequalities.length, p := .integer equalities.length
      npos := .integer npos, ncones := .integer sizes.length
      sizes := sizes.map fun size : Nat => (size : Int) }
    (ConstraintRow.matrix cols inequalities) (ConstraintRow.bounds inequalities)
    (ConstraintRow.matrix cols equalities) (ConstraintRow.bounds equalities)
    (NumberArray.ofVector objective) sense order

/-- The objective that is minimized: the caller's own, or its negative. -/
def Sense.toMinimize (sense : Sense) (objective : List Binary64) : List Binary64 :=
  match sense with
  | .minimize => objective
  | .maximize => objective.map (- ·)

end ConicForm
