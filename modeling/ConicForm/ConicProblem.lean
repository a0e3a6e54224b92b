import ConicForm.ConeList
import ConicForm.ConstraintRow

/-! Conic problems: `b - A x` is put in cones row by row, and so is `x` variable by variable. Rows
without a cone are equalities. Every variable has exactly one cone. The form has the variables
grouped by cone, and one inequality for each variable that is neither free nor zero. -/
namespace ConicForm

structure ConicProblem where
  objective : List Binary64
  matrix : RowMatrix
  bounds : List Binary64
  rowCones : List ConeEntry
  variableCones : List ConeEntry
  sense : Sense

namespace ConicProblem

def movedRow (problem : ConicProblem) (place : Int → Int) (factor : Binary64) (index : Int) :
    ConstraintRow :=
  ConstraintRow.scale factor
    ⟨Line.reposition place (problem.matrix.row index.toNat),
      problem.bounds[index.toNat]?.getD .zero⟩

def rowsUnder (entries : List ConeEntry) (factor? : Cone → Option Binary64)
    (row : Binary64 → Int → ConstraintRow) : List ConstraintRow :=
  entries.flatMap fun entry =>
    match factor? entry.1 with
    | some factor => entry.2.map (row factor)
    | none => []

/-- A variable in the orthant has a coefficient of the opposite sign, so that `0 - G x` is it or its
negative. -/
def orthantCoefficient? : Cone → Option Binary64
  | .nonneg => some (-.one)
  | .nonpos => some .one
  | _ => none

/-- A constraint row in the orthant is taken as it is, or negated. -/
def orthantFactor? : Cone → Option Binary64
  | .nonneg => some .one
  | .nonpos => some (-.one)
  | _ => none

def onlyFor (kind : Cone) (factor : Binary64) (k : Cone) : Option Binary64 :=
  if k = kind then some factor else none

def unitRow (place : Int → Int) (coefficient : Binary64) (index : Int) : ConstraintRow :=
  ConstraintRow.unit (place index) coefficient .zero

/-- The orthant: variables first, then constraint rows. -/
def orthantRows (problem : ConicProblem) (place : Int → Int) : List ConstraintRow :=
  rowsUnder problem.variableCones orthantCoefficient? (unitRow place) ++
    rowsUnder problem.rowCones orthantFactor? (problem.movedRow place)

/-- The second-order cones: variables first, then constraint rows. -/
def secondOrderRows (problem : ConicProblem) (place : Int → Int) : List ConstraintRow :=
  rowsUnder problem.variableCones (onlyFor .secondOrder (-.one)) (unitRow place) ++
    rowsUnder problem.rowCones (onlyFor .secondOrder .one) (problem.movedRow place)

def sizes (problem : ConicProblem) : List Nat :=
  ((problem.variableCones ++ problem.rowCones).filter fun entry => entry.1 == .secondOrder).map
    fun entry => entry.2.length

def movedIndices (problem : ConicProblem) : List Nat :=
  VariableOrder.segment [.nonneg, .nonpos, .secondOrder] problem.rowCones

def keptIndices (problem : ConicProblem) : List Nat :=
  let moved := problem.movedIndices
  (List.range problem.bounds.length).filter fun i => !moved.contains i

/-- The kept rows, then a row for each variable that is pinned at zero. -/
def equalityRows (problem : ConicProblem) (place : Int → Int) : List ConstraintRow :=
  problem.keptIndices.map (fun i : Nat => problem.movedRow place .one (i : Int)) ++
    rowsUnder problem.variableCones (onlyFor .zero .one) (unitRow place)

def movedObjective (problem : ConicProblem) (reverse : List Nat) : List Binary64 :=
  reverse.map fun i => problem.objective[i]?.getD .zero

/-- The standard form. Constraint rows are checked before variables are arranged, and the entries of
the matrix after that. -/
def standardForm (problem : ConicProblem) : Except Fault StandardForm := do
  -- Memory holds a number for each row and each variable, so it can hold a mark for each as well.
  let _ ← VariableOrder.assign .rows problem.bounds.length []
    (problem.rowCones.flatMap fun entry => entry.2)
  let reverse ← VariableOrder.arrange problem.variableCones problem.objective.length
  problem.matrix.checkInside.mapError .data
  let place := fun i : Int => (reverse.idxOf i.toNat : Int)
  let orthant := problem.orthantRows place
  StandardForm.ofRows orthant.length problem.sizes (orthant ++ problem.secondOrderRows place)
    (problem.equalityRows place) (problem.sense.toMinimize (problem.movedObjective reverse))
    problem.sense (VariableOrder.ofReverse reverse)

structure Input where
  objective : Datum
  matrix : Datum
  bounds : Datum
  rowCones : Datum
  variableCones : Datum
  sense : Datum

/-- Reads a problem: its sense and its cones, then the vectors, then the matrix for their
lengths. -/
def read [Machine] (input : Input) : Except Fault ConicProblem := do
  let sense ← Sense.ofDatum input.sense
  let (rowCones, variableCones) ← ConeList.readBoth input.rowCones input.variableCones
  let objective ← input.objective.toEntries
  let bounds ← input.bounds.toEntries
  let matrix ← input.matrix.toRows (.integer bounds.length) (.integer objective.length)
  return { objective, matrix, bounds, rowCones, variableCones, sense }

def load [Machine] (input : Input) : Except Fault StandardForm := (read input).bind standardForm

end ConicProblem
end ConicForm
