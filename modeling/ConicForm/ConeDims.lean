import ConicForm.ConeDims.Table
import ConicForm.ConeList

/-! Cones given by their sizes alone. Blocks of rows follow one another in a fixed order of kinds,
and together they must cover all rows. A negative size has no rows and moves the next block
back. -/
namespace ConicForm

/-- What a caller gives for each kind: rows for zero and the orthant, the sizes of second-order
cones and of symmetric matrices, and the numbers of exponential cones. The sizes for symmetric
matrices are those of their triangles already. -/
structure ConeDims where
  zero : Datum
  nonneg : Datum
  secondOrder : List Datum
  semidefinite : List Datum
  expPrimal : Datum
  expDual : Datum

namespace ConeDims

def triangle (order : Int) : Int := order * (order + 1) / 2

/-- The same for a real number, rounded after each step and in the end to the integer below. -/
def realTriangle (order : Binary64) : Binary64 :=
  match (order * (order + .one)).value? with
  | some q => Binary64.ofRat (((q / 2).floor : Int) : Rat)
  | none => .nan

/-- The size of a block for a symmetric matrix of an order. An array of zeros keeps its shape. -/
def readTriangle (d : Datum) : Except Fault Datum :=
  match d with
  | .real order => .ok (.real (realTriangle order))
  | .zeros _ => .ok d
  | .sparse _ => .error (.data .notImplemented)
  | d => d.toExactInteger.map fun order => .integer (triangle order)

/-- Blocks of the zero cone and of the orthant are left out if their size is zero. -/
def isOmitted (block : ConeBlock) : Bool :=
  (block.1 == .zero || block.1 == .nonneg) && block.2.isTestable && block.2.equalsInt 0

def blocks [Machine] (dims : ConeDims) : Except Fault Blocks :=
  let listed : List ConeBlock :=
    (.zero, dims.zero) :: (.nonneg, dims.nonneg) ::
      dims.secondOrder.map (fun size => (Cone.secondOrder, size)) ++
        dims.semidefinite.map (fun size => (Cone.semidefinite, size))
  ((Blocks.listed listed).extend .expPrimal dims.expPrimal).bind fun blocks =>
    blocks.extend .expDual dims.expDual

/-- The number of rows of a block that starts at a row, which has to be an integer. Anything else
fails as soon as it is added to the row number: a row number may be too large to be added to a real
number, and only zero can be added to a matrix. -/
def rowCount [Machine] (start : Int) (size : Datum) : Except Fault Int :=
  let added : Fault :=
    .data (if (Binary64.ofInt? start).isSome then .wrongType else .tooLarge)
  if size.isTestable then
    match size with
    | .real _ | .zeros _ => .error added
    | .sparse _ => .error (.data (if start = 0 then .wrongType else .notImplemented))
    | size => size.toExactInteger.bind fun count =>
      ((Capacity.listLength count).mapError .data).map fun _ => count
  else .error (.data .malformed)

def consecutive (start size : Int) : List Int :=
  (List.range size.toNat).map fun k : Nat => start + (k : Int)

structure ConeSpan where
  kind : Cone
  start : Int
  count : Int

def ConeSpan.entry (span : ConeSpan) : ConeEntry :=
  (span.kind, consecutive span.start span.count)

/-- Blocks laid out from row `start` on, and the row after the last of them. -/
def layout [Machine] (start : Int) : List ConeBlock → Except Fault (List ConeSpan × Int)
  | [] => .ok ([], start)
  | (kind, size) :: rest =>
    if isOmitted (kind, size) then layout start rest
    else
      (rowCount start size).bind fun count =>
        (layout (start + count) rest).map fun later => (⟨kind, start, count⟩ :: later.1, later.2)

/-- All blocks laid out. Of a table every row has to be left out. -/
def place [Machine] (blocks : Blocks) : Except Fault (List ConeSpan × Int) :=
  match blocks with
  | .listed blocks => layout 0 blocks
  | .table rows => (rows.mapM BlockTable.checkOmitted).map fun _ => ([], 0)

/-- Blocks that cover a number of rows must have been declared to cover it. -/
def checkCovered (covered : Int) (rows : Datum) : Except Fault Unit :=
  (rows.compare covered).bind fun same =>
    if same then .ok ()
    else .error (Fault.length (.coneDimensions covered rows.compared)).raised

def toCones [Machine] (dims : ConeDims) (rows : Datum) : Except Fault (List ConeEntry) :=
  (dims.blocks.bind place).bind fun placed =>
    (checkCovered placed.2 rows).map fun _ => placed.1.map ConeSpan.entry

/-- How the sizes are named: in short or long, a short name first, or as attributes. -/
inductive Naming where
  | keys
  | attributes

/-- The value under the first of some names. -/
def field (fields : List (String × Datum)) (missing : Datum) : List String → Datum
  | [] => missing
  | name :: names =>
    match fields.lookup name with
    | some value => value
    | none => field fields missing names

def zeroNames : Naming → List String
  | .keys => ["f", "zero"]
  | .attributes => ["zero"]

def nonnegNames : Naming → List String
  | .keys => ["l", "nonneg"]
  | .attributes => ["nonneg"]

def secondOrderNames : Naming → List String
  | .keys => ["q", "soc"]
  | .attributes => ["soc"]

def semidefiniteNames : Naming → List String
  | .keys => ["s", "psd"]
  | .attributes => ["psd"]

def expPrimalNames : Naming → List String
  | .keys => ["ep", "exp"]
  | .attributes => ["exp"]

def expDualNames : Naming → List String
  | .keys => ["ed"]
  | .attributes => []

def powerNames : Naming → List String
  | .keys => ["p"]
  | .attributes => ["p3d"]

/-- Reads sizes from named values. Lists are looked at first, and a power cone is refused before any
size is. Orders of symmetric matrices are read next; everything else is looked at when blocks are
made of it. -/
def read [Machine] (naming : Naming) (fields : List (String × Datum)) : Except Fault ConeDims := do
  let number := field fields (.integer 0)
  let list := fun names => (field fields (.list []) names).elements
  let secondOrder ← list (secondOrderNames naming)
  let semidefinite ← list (semidefiniteNames naming)
  let power ← list (powerNames naming)
  if power.isEmpty then
    return {
      zero := number (zeroNames naming)
      nonneg := number (nonnegNames naming)
      secondOrder
      semidefinite := ← semidefinite.mapM readTriangle
      expPrimal := number (expPrimalNames naming)
      expDual := number (expDualNames naming) }
  else .error (.cone .power)

end ConeDims
end ConicForm
