import ConicForm.Datum.Width
import ConicForm.Matrix.Columns

/-! Values read where numbers are expected: as a vector, as constraint rows, as a matrix by columns,
or as a block of rows. -/
namespace ConicForm.Datum

def toEntries (d : Datum) : Except Fault (List Binary64) :=
  (NumberArray.ofDatum d).map NumberArray.entries

/-- A vector under its name: an array with at most one extent. -/
def toVector (name : String) (d : Datum) : Except Fault (List Binary64) :=
  (NumberArray.ofDatum d).bind fun array =>
    if 1 < array.dimensions then .error (.length (.notVector name array.shape))
    else .ok array.entries

/-- An array without entries, which constraints without rows may be given as. -/
def isEmpty : Datum → Except Fault Bool
  | .absent => .ok true
  | .sparse _ => .ok false
  | d =>
    match d.shape? with
    | none => .error (.data .malformed)
    | some shape => .ok (shape.count == 0)

def expectShape (rows cols : Datum) (given : Nat × Nat) : Except Fault Unit :=
  let mismatch (cols : Datum) : Except Fault Unit :=
    .error (.length (.matrixShape [given.1, given.2] rows.compared cols))
  (rows.compare given.1).bind fun sameRows =>
    if sameRows then
      (cols.compare given.2).bind fun sameCols =>
        if sameCols then .ok () else mismatch cols.compared
    else mismatch cols

def denseRows (rows cols : Datum) (array : NumberArray) : Except Fault RowMatrix :=
  match array.shape.matrix? with
  | none => .error (.data .malformed)
  | some given =>
    (expectShape rows cols given).map fun _ => RowMatrix.ofDense given.1 given.2 array.entries

/-- The matrix of no constraints on `cols` variables, which an array without entries stands for. -/
def emptyRows (rows cols : Datum) : Except Fault RowMatrix :=
  (rows.compare 0).bind fun none =>
    if none then .ok ⟨(cols.exactInteger?.getD 0).toNat, []⟩
    else .error (.length (.matrixEmpty rows.compared cols))

/-- The matrix of `rows` constraints on `cols` variables. An array without entries will do, of
whatever shape, when there are no constraints. Here both are taken for lengths of what there is. -/
def toRows [Machine] (d rows cols : Datum) : Except Fault RowMatrix :=
  d.isEmpty.bind fun empty =>
    if empty then emptyRows rows cols
    else
      match d with
      | .sparse matrix =>
        (matrix.checkByRow.mapError .data).bind fun _ =>
          (expectShape rows cols (matrix.rows, matrix.cols)).map fun _ => RowMatrix.ofStored matrix
      | d => (NumberArray.ofDatum d).bind (denseRows rows cols)

/-- The same for numbers of rows and columns as a caller declares them. -/
def toCountedRows [Machine] (d rows cols : Datum) : Except Fault RowMatrix :=
  ((d.toRows rows cols).mapError Fault.raised).bind fun matrix =>
    d.isEmpty.bind fun empty =>
      if empty then cols.toWidth.map fun _ => matrix else .ok matrix

/-- A matrix of whatever shape, whose entries are taken as they stand: no text is read, nothing may
be absent. The cause is given for an array that stands for no matrix. -/
def toStored (manyExtents : DataFault) : Datum → Except Fault StoredMatrix
  | .sparse matrix => .ok matrix
  | d =>
    match d.shape? with
    | none => .error (.data .malformed)
    | some shape =>
      match shape.matrix? with
      | none => .error (.data manyExtents)
      | some (rows, cols) =>
        (d.entries.mapM toPlainNumber).map fun entries =>
          ⟨.triplets, rows, cols, (RowMatrix.ofDense rows cols entries).entries⟩

def toBlock (d : Datum) : Except Fault StoredMatrix :=
  (d.toStored .wrongType).bind fun matrix => (matrix.checkInside.mapError .data).map fun _ => matrix

/-- A matrix by columns, gathered from whatever order its entries are in. -/
def toColumns [Machine] (d : Datum) : Except Fault ColumnMatrix :=
  (d.toStored .malformed).bind fun matrix =>
    (matrix.checkByColumn.mapError .data).map fun _ =>
      ColumnMatrix.gather matrix.rows matrix.cols matrix.entries

theorem expectShape_integer (rows cols : Int) (given : Nat × Nat) :
    expectShape (.integer rows) (.integer cols) given =
      if rows = given.1 ∧ cols = given.2 then .ok ()
      else .error (.length (.matrixShape [given.1, given.2] (.integer rows) (.integer cols))) := by
  simp only [expectShape, compare_integer, compared_integer, Except.bind]
  by_cases sameRows : rows = (given.1 : Int) <;> by_cases sameCols : cols = (given.2 : Int) <;>
    simp [sameRows, sameCols]

theorem expectShape_eq_ok {rows cols : Int} {given : Nat × Nat}
    (expected : expectShape (.integer rows) (.integer cols) given = .ok ()) :
    (given.1 : Int) = rows ∧ (given.2 : Int) = cols := by
  rw [expectShape_integer] at expected
  split at expected
  next fits => exact ⟨fits.1.symm, fits.2.symm⟩
  next => cases expected

end ConicForm.Datum
