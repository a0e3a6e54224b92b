import ConicForm.Binary64
import ConicForm.Capacity
import ConicForm.Shape

/-! A sparse matrix in one of the three layouts that a caller may hand over: triplets in any order,
or entries gathered by row or by column. Positions may repeat, and zeros may be stored. Triplets lie
inside the matrix. Of gathered entries it is not looked at before it matters whether each of them
belongs to a line, and where it stands along it. -/
namespace ConicForm

structure Entry where
  row : Int
  col : Int
  value : Binary64
deriving DecidableEq

def Entry.IsInside (rows cols : Nat) (entry : Entry) : Prop :=
  (0 ≤ entry.row ∧ entry.row < (rows : Int)) ∧ 0 ≤ entry.col ∧ entry.col < (cols : Int)

instance (rows cols : Nat) (entry : Entry) : Decidable (entry.IsInside rows cols) :=
  inferInstanceAs (Decidable ((_ ∧ _) ∧ _ ∧ _))

inductive Layout where
  | triplets
  | byRow
  | byColumn
deriving DecidableEq

namespace Layout

def label : Layout → String
  | triplets => "COOrdinate"
  | byRow => "Compressed Sparse Row"
  | byColumn => "Compressed Sparse Column"

end Layout

/-- Entries stand in the order in which they are stored. -/
structure StoredMatrix where
  layout : Layout
  rows : Nat
  cols : Nat
  entries : List Entry
deriving DecidableEq

namespace StoredMatrix

def shape (matrix : StoredMatrix) : Shape := [matrix.rows, matrix.cols]

def isInside (matrix : StoredMatrix) : Bool :=
  matrix.entries.all fun entry => entry.IsInside matrix.rows matrix.cols

/-- The matrix has one position, and so stands for one number. -/
def isSingle (matrix : StoredMatrix) : Bool := matrix.rows == 1 && matrix.cols == 1

/-- The sum of all entries. Of a matrix with one position it is the number there. -/
def total (matrix : StoredMatrix) : Binary64 :=
  match matrix.entries with
  | [] => .zero
  | first :: rest => rest.foldl (fun sum entry => sum + entry.value) first.value

/-- The matrix after its number has been asked for: entries that share the one position have been
summed, except among triplets. -/
def summed (matrix : StoredMatrix) : StoredMatrix :=
  match matrix.layout, matrix.entries with
  | .triplets, _ => matrix
  | _, [] => matrix
  | _, first :: _ => { matrix with entries := [⟨first.row, first.col, matrix.total⟩] }

def rowMatrices (matrix : StoredMatrix) : List StoredMatrix :=
  (List.range matrix.rows).map fun i : Nat =>
    ⟨.byRow, 1, matrix.cols,
      (matrix.entries.filter fun entry => entry.row = (i : Int)).map fun entry =>
        { entry with row := 0 }⟩

/-- Some lines have room for the pointers to where each of them starts. A pointer takes eight bytes,
or four if entries that are gathered already have no position to stand at. -/
def checkPointers [Machine] (matrix : StoredMatrix) (lines : Nat) : Except DataFault Unit :=
  let bytes := if matrix.layout ≠ .triplets ∧ matrix.shape.count = 0 then 4 else 8
  (Capacity.arrayLength bytes ((lines : Int) + 1)).map fun _ => ()

def checkInside (matrix : StoredMatrix) : Except DataFault Unit :=
  if matrix.isInside then .ok () else .error .malformed

def checkLines (count : Nat) (numbers : List Int) : Except DataFault Unit :=
  if numbers.all fun n => decide (0 ≤ n ∧ n < (count : Int)) then .ok () else .error .malformed

/-- The entries can be gathered by row, as they already may be. -/
def checkByRow [Machine] (matrix : StoredMatrix) : Except DataFault Unit :=
  if matrix.layout = .byRow then checkLines matrix.rows (matrix.entries.map Entry.row)
  else (matrix.checkPointers matrix.rows).bind fun _ => matrix.checkInside

/-- The entries can be gathered by column, as they already may be. -/
def checkByColumn [Machine] (matrix : StoredMatrix) : Except DataFault Unit :=
  if matrix.layout = .byColumn then checkLines matrix.cols (matrix.entries.map Entry.col)
  else (matrix.checkPointers matrix.cols).bind fun _ => matrix.checkInside

def extent (n : Int) : Except DataFault Nat :=
  if 0 ≤ n then .ok n.toNat else .error .malformed

/-- Three lists of one length, with every position inside the matrix. -/
def ofTriplets (rows cols : Int) (row col : List Int) (values : List Binary64) :
    Except DataFault StoredMatrix :=
  (extent rows).bind fun r => (extent cols).bind fun c =>
    if Capacity.word ≤ rows ∨ Capacity.word ≤ cols then .error .tooLarge
    else if row.length = values.length ∧ col.length = values.length then
      let matrix : StoredMatrix :=
        ⟨.triplets, r, c, ((row.zip col).zip values).map fun e => ⟨e.1.1, e.1.2, e.2⟩⟩
      matrix.checkInside.map fun _ => matrix
    else .error .malformed

/-- The number of the line that each stored entry belongs to; none unless the pointers start at
zero and never decrease. -/
def lineNumbers? (line start : Nat) : List Int → Option (List Int)
  | [] => some []
  | stop :: stops =>
    if (start : Int) ≤ stop then
      (lineNumbers? (line + 1) stop.toNat stops).map fun later =>
        List.replicate (stop.toNat - start) (line : Int) ++ later
    else none

/-- The same for any pointers: where they go back, no entry that is stored belongs to a line. -/
def lineNumbers (stops : List Int) : Except DataFault (List Int) :=
  match lineNumbers? 0 0 stops with
  | some numbers => .ok numbers
  | none =>
    if 0 < stops.getLastD 0 then .ok (List.replicate (stops.getLastD 0).toNat (-1))
    else .error .malformed

/-- Lines one after the other: `pointers` has where each starts and where the last one ends. What is
stored after that end does not belong to the matrix. -/
def ofCompressed (byRow : Bool) (rows cols : Int) (pointers indices : List Int)
    (values : List Binary64) : Except DataFault StoredMatrix :=
  if rows ≠ 0 ∧ cols ≠ 0 ∧ (Capacity.word ≤ rows ∨ Capacity.word ≤ cols) then .error .tooLarge
  else
    (extent rows).bind fun r => (extent cols).bind fun c =>
      let entry (e : (Int × Int) × Binary64) : Entry :=
        if byRow then ⟨e.1.1, e.1.2, e.2⟩ else ⟨e.1.2, e.1.1, e.2⟩
      match pointers with
      | 0 :: stops =>
        if stops.length = (if byRow then r else c) ∧ indices.length = values.length ∧
            stops.getLastD 0 ≤ (values.length : Int) then
          (lineNumbers stops).map fun numbers =>
            ⟨if byRow then .byRow else .byColumn, r, c,
              ((numbers.zip indices).zip values).map entry⟩
        else .error .malformed
      | _ => .error .malformed

end StoredMatrix
end ConicForm
