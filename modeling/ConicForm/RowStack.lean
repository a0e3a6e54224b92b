import ConicForm.Datum.Matrix

/-! Rows appended one after the other, each with its right-hand side, and turned into a matrix by
columns when asked. Neither the columns nor their number are checked before that. Blocks come with
factors for their rows: the entries of a block are appended before its right-hand sides are scaled,
and stay if that fails. -/
namespace ConicForm

/-- A stack stays usable as long as positions and coefficients are appended as lists of numbers. It
stays even as long as a position always comes with its coefficient, and right-hand sides are arrays
that share a shape. Otherwise no matrix can be made of its rows any more, but they are still
counted. -/
structure RowStack where
  width : Datum
  count : Nat
  entries : List Entry
  bounds : List Binary64
  boundShape : Option Shape
  usable : Bool
  even : Bool

/-- The factors of a block: one for all of its rows, a list to go with them, or an array of more
extents, of which the first and the last matter. -/
inductive Scale where
  | uniform (factor : Binary64)
  | perRow (factors : List Binary64)
  | layered (first last : Nat)

namespace Scale

def ofArray (array : NumberArray) : Scale :=
  match array.shape, array.entries with
  | [], factors => .uniform (factors.headD .zero)
  | [_], factors => .perRow factors
  | first :: inner, _ => .layered first (inner.getLastD 1)

/-- Scales right-hand sides. Lists of one length go together entry by entry, and a list of one
entry goes with any other; other lists do not go together. -/
def bounds? (scale : Scale) (bounds : List Binary64) : Option (List Binary64) :=
  match scale with
  | .uniform factor => some (bounds.map (factor * ·))
  | .perRow factors =>
    if factors.length = bounds.length then some (List.zipWith (· * ·) factors bounds)
    else
      match factors, bounds with
      | [factor], _ => some (bounds.map (factor * ·))
      | _, [bound] => some (factors.map (· * bound))
      | _, _ => none
  | .layered _ last => if Shape.GoTogether last bounds.length then some bounds else none

def factor? : Scale → Nat → Option Binary64
  | .uniform factor, _ => some factor
  | .perRow factors, row => factors[row]?
  | .layered first _, row => if row < first then some .one else none

end Scale

namespace RowStack

def empty (width : Datum) : RowStack := ⟨width, 0, [], [], none, true, true⟩

/-- Right-hand sides of a shape behind those that are there. -/
def pushBounds (stack : RowStack) (count : Nat) (shape : Shape) (bounds : List Binary64) :
    RowStack :=
  { stack with
    count := stack.count + count
    bounds := stack.bounds ++ bounds
    boundShape := some shape
    even := stack.even && stack.boundShape.all (· == shape) }

def pushUnit (stack : RowStack) (col : Int) (coefficient bound : Binary64) : RowStack :=
  let entered : RowStack :=
    { stack with entries := stack.entries ++ [⟨stack.count, col, coefficient⟩] }
  entered.pushBounds 1 [] [bound]

def readWords (d : Datum) : Except Fault (List Int) :=
  d.arrayEntries.bind fun entries => entries.mapM Datum.toWord

/-- Appends a row as a caller gives it. Its values are read and kept in turn: after a failure
those before it stay behind, as an entry without a row of its own if only the right-hand side has
failed. An array in the place of a number is kept, too. -/
def pushUnitData (stack : RowStack) (col coefficient bound : Datum) :
    RowStack × Except Fault Unit :=
  let uneven : RowStack := { stack with even := false }
  match readWords (.list [col]), NumberArray.ofDatum (.list [coefficient]) with
  | .error fault, _ => (uneven, .error fault)
  | _, .error fault => (uneven, .error fault)
  | .ok cols, .ok coefficients =>
    let entered : RowStack :=
      match cols, coefficients.entries, col.shape?, coefficients.shape with
      | [col], [value], some [], [_] =>
        { stack with entries := stack.entries ++ [⟨stack.count, col, value⟩] }
      | _, _, _, _ => { stack with usable := false }
    match NumberArray.ofDatum (.list [bound]) with
    | .error fault => (entered, .error fault)
    | .ok bounds => (entered.pushBounds 1 (bounds.shape.drop 1) bounds.entries, .ok ())

/-- The entries of a block below the rows so far, each multiplied by its row's factor; none if an
entry's row has no factor. -/
def scaledEntries? (stack : RowStack) (block : StoredMatrix) (scale : Scale) :
    Option (List Entry) :=
  block.entries.mapM fun entry => (scale.factor? entry.row.toNat).map fun factor =>
    ⟨(stack.count : Int) + entry.row, entry.col, factor * entry.value⟩

/-- The block has one row for each right-hand side, and the stack's columns. -/
def checkFit (stack : RowStack) (block : StoredMatrix) (bounds : List Binary64) :
    Except Fault Unit :=
  let mismatch (width : Datum) : Except Fault Unit :=
    .error (Fault.length (.rowBlock block.shape bounds.length width)).raised
  if block.rows = bounds.length then
    (stack.width.compare block.cols).bind fun same =>
      if same then .ok () else mismatch stack.width.compared
  else mismatch stack.width

/-- The stack with the entries of a block. Factors in an array of several extents are no list, and
without entries to scale they do no harm as long as they cannot be applied to them. -/
def enter (stack : RowStack) (scale : Scale) (scaled : List Entry) :
    RowStack × Except Fault Unit :=
  match scale with
  | .layered _ last =>
    if Shape.GoTogether last scaled.length then ({ stack with usable := false }, .ok ())
    else ({ stack with even := stack.even && scaled.isEmpty }, .error (.data .malformed))
  | _ => ({ stack with entries := stack.entries ++ scaled }, .ok ())

/-- Appends the rows of a block. A block of another shape, or with an entry whose row has no
factor, changes nothing. -/
def pushBlock (stack : RowStack) (block : StoredMatrix) (bounds : List Binary64) (scale : Scale) :
    RowStack × Except Fault Unit :=
  match stack.checkFit block bounds, stack.scaledEntries? block scale with
  | .error fault, _ => (stack, .error fault)
  | .ok (), none => (stack, .error (.data .positionOutside))
  | .ok (), some scaled =>
    match stack.enter scale scaled with
    | (extended, .error fault) => (extended, .error fault)
    | (extended, .ok ()) =>
      match scale.bounds? bounds with
      | none => (extended, .error (.data .malformed))
      | some scaledBounds => (extended.pushBounds bounds.length [] scaledBounds, .ok ())

/-- Appends a block as a caller gives it. Its parts are read in turn before the stack changes; the
factors only after the shape is known to fit. -/
def pushData (stack : RowStack) (block bounds scale : Datum) : RowStack × Except Fault Unit :=
  let parts := block.toBlock.bind fun block => bounds.toEntries.bind fun bounds =>
    (stack.checkFit block bounds).bind fun _ => (NumberArray.ofDatum scale).map fun factors =>
      (block, bounds, Scale.ofArray factors)
  match parts with
  | .error fault => (stack, .error fault)
  | .ok (block, bounds, scale) => stack.pushBlock block bounds scale

/-- What has been appended goes together, and entries stand in the rows that are counted and in the
columns of the stack. -/
def checkEntries (stack : RowStack) (cols : Nat) : Except Fault Unit :=
  if stack.even && stack.entries.all fun entry => entry.IsInside stack.count cols then .ok ()
  else .error (.data .malformed)

/-- The appended rows as a matrix by columns, and their right-hand sides. Without rows both are
empty, whatever a failure has left, and the number of columns is that of an empty matrix; with rows
it has to be an integer. The matrix has one more pointer than columns. -/
def toSystem [Machine] (stack : RowStack) : Except Fault (ColumnMatrix × List Binary64) := do
  let pointers (cols : Nat) := (Capacity.arrayLength 8 ((cols : Int) + 1)).mapError Fault.data
  if stack.count = 0 then
    let cols ← stack.width.toWidth
    let _ ← pointers cols
    return (ColumnMatrix.gather 0 cols [], [])
  else if stack.usable then
    let cols ← stack.width.toColumnCount
    stack.checkEntries cols
    let _ ← pointers cols
    return (ColumnMatrix.gather stack.count cols stack.entries, stack.bounds)
  else .error (.data .malformed)

end RowStack
end ConicForm
