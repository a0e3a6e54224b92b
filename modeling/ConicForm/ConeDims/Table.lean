import ConicForm.Datum.Array

/-! Blocks of rows that are counted with an array or a matrix. Such a count does not repeat a block
but multiplies the numbers of its kind and its size, and what comes of that is added to all blocks
there are. From then on the blocks are a table of numbers with one row each. Nothing can be laid out
from a table, but blocks of size zero are left out of it as well. -/
namespace ConicForm

abbrev ConeBlock := Cone × Datum

structure Band where
  height : Nat
  row : List Binary64
deriving DecidableEq

namespace Band

/-- Every exponential cone has three rows. -/
def expSize : Nat := 3

def ofNat (n : Nat) : Binary64 := Binary64.ofRat (n : Rat)

def ofCopies (kind : Cone) (count : Nat) : Band := ⟨count, [ofNat kind.number, ofNat expSize]⟩

/-- One block times an array of zeros, which must have one column or two. -/
def ofZeros (shape : Shape) : Except DataFault Band :=
  match shape.matrix? with
  | some (rows, cols) =>
    if cols = 1 ∨ cols = 2 then .ok ⟨rows, [.zero, .zero]⟩ else .error .malformed
  | none => .error .malformed

/-- One block times a matrix with two rows. Of more than two columns three are enough to show that
the product goes with no table. -/
def ofSparse (kind : Cone) (matrix : StoredMatrix) : Except DataFault Band :=
  let factor (row : Int) := if row = 0 then ofNat kind.number else ofNat expSize
  let product (col : Nat) : Binary64 :=
    (matrix.entries.filter fun entry => entry.col = (col : Int)).foldl
      (fun sum entry => sum + entry.value * factor entry.row) .zero
  if matrix.rows = 2 then .ok ⟨1, (List.range (min matrix.cols 3)).map product⟩
  else .error .malformed

end Band

abbrev TableRow := Binary64 × Datum

namespace BlockTable

def isArray : Datum → Bool
  | .list _ | .zeros _ => true
  | _ => false

/-- Blocks can be taken as a table of numbers unless a size has several parts, or is a text beside
machine numbers. -/
def checkSizes (sizes : List Datum) : Except DataFault Unit :=
  if sizes.any isArray then .error .malformed
  else if sizes.any Datum.isText && !sizes.any Datum.isLoose then .error .notNumeric
  else .ok ()

/-- Adds a number to a size. Nothing but zero can be added to a matrix. -/
def addTo (size : Datum) (term : Binary64) : Except DataFault Datum :=
  match size with
  | .real value => .ok (.real (value + term))
  | .sparse _ => if term.isZero then .ok size else .error .notImplemented
  | d =>
    match d.exactInteger? with
    | none => .error .wrongType
    | some n =>
      match Binary64.ofInt? n with
      | none => .error .tooLarge
      | some value => .ok (.real (value + term))

def addRow (kindTerm sizeTerm : Binary64) (row : TableRow) : Except DataFault TableRow :=
  (addTo row.2 sizeTerm).map fun size => (row.1 + kindTerm, size)

/-- Adds a band to a table. It has as many rows as the table or one for all of them, and two columns
or one for both. -/
def add (rows : List TableRow) (band : Band) : Except DataFault (List TableRow) :=
  if band.height = rows.length ∨ band.height = 1 then
    match band.row with
    | [term] => rows.mapM (addRow term term)
    | [kindTerm, sizeTerm] => rows.mapM (addRow kindTerm sizeTerm)
    | _ => .error .malformed
  else .error .malformed

/-- The table of some blocks, with a band added. -/
def ofBlocks (blocks : List ConeBlock) (band : Band) : Except DataFault (List TableRow) :=
  (checkSizes (blocks.map Prod.snd)).bind fun _ =>
    add (blocks.map fun block => (Band.ofNat block.1.number, block.2)) band

/-- A row is left out if its size is zero and its kind has the number of the zero cone or of the
orthant. No other row can be laid out. -/
def checkOmitted (row : TableRow) : Except Fault Unit :=
  (row.2.compare 0).bind fun empty =>
    if empty && (row.1.equals .zero || row.1.equals .one) then .ok ()
    else .error (.data .wrongType)

end BlockTable

inductive Blocks where
  | listed (blocks : List ConeBlock)
  | table (rows : List TableRow)

namespace Blocks

/-- Adds exponential cones of a kind by their count. There are none for a negative one. -/
def extend [Machine] (blocks : Blocks) (kind : Cone) (count : Datum) : Except Fault Blocks :=
  let addBand (band : Band) : Except Fault Blocks :=
    match blocks with
    | .listed blocks => ((BlockTable.ofBlocks blocks band).mapError .data).map .table
    | .table rows => ((BlockTable.add rows band).mapError .data).map .table
  match count with
  | .zeros shape => ((Band.ofZeros shape).mapError .data).bind addBand
  | .sparse matrix => ((Band.ofSparse kind matrix).mapError .data).bind addBand
  | d => d.toExactInteger.bind fun n =>
    if n < -Capacity.word then .error (.data .tooLarge)
    else
      ((Capacity.listLength n).mapError .data).bind fun copies =>
        match blocks with
        | .listed blocks =>
          .ok (.listed (blocks ++ List.replicate copies (kind, .integer Band.expSize)))
        | .table _ => addBand (Band.ofCopies kind copies)

end Blocks
end ConicForm
