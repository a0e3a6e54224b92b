import ConicForm.Datum

/-! Everything that can be wrong with a problem, a form, or a value, by cause. A cause about the
formulation has a message; a value that cannot be read at all, or a failure from outside, has
none. -/
namespace ConicForm

/-- Two sizes that should agree and do not. A size that is declared is kept as it was given. -/
inductive LengthFault where
  | orderDirections (forward reverse : Nat)
  | solution (given expected : Nat)
  | coneRows (rows npos : Datum) (sizes : List Int)
  | coneCount (declared : Datum) (given : Nat)
  | inequalityBlock (matrix bounds : Shape) (rows cols : Datum)
  | equalityBlock (matrix bounds : Shape) (rows cols : Datum)
  | objectiveShape (shape : Shape) (cols : Datum)
  | notVector (name : String) (shape : Shape)
  | columnBounds
  | rowBounds
  | objectiveLength (given expected : Nat)
  | matrixEmpty (rows cols : Datum)
  | matrixShape (shape : Shape) (rows cols : Datum)
  | rowBlock (shape : Shape) (bounds : Nat) (cols : Datum)
  | coneDimensions (covered : Int) (declared : Datum)

inductive ConstraintFault where
  | freeRows (rows : List Datum)
  | rangedRows (rows : List Nat)
  | unboundedRows (rows : List Nat)

inductive ConeFault where
  | undesignated (designation : Datum)
  | unsupported (kind : Cone)
  | power

inductive Indexed where
  | vars
  | rows
deriving DecidableEq

inductive IndexFault where
  | notInteger (index : Datum)
  | emptySecondOrder
  | outside (owner : Indexed) (index count : Datum)
  | repeated (owner : Indexed) (index : Int)
  | unassigned (missing : List Nat)

inductive Fault where
  | length (cause : LengthFault)
  | constraint (cause : ConstraintFault)
  | cone (cause : ConeFault)
  | index (cause : IndexFault)
  | sense (designation : Datum)
  | nothingLoaded
  | notSolved
  | data (cause : DataFault)

/-- What is written of two sizes besides the lengths of what there is. -/
def LengthFault.declared : LengthFault → List Datum
  | .coneRows rows npos sizes => rows :: npos :: sizes.map .integer
  | .coneCount declared _ => [declared]
  | .inequalityBlock _ _ rows cols => [rows, cols]
  | .equalityBlock _ _ rows cols => [rows, cols]
  | .objectiveShape _ cols => [cols]
  | .matrixEmpty rows cols => [rows, cols]
  | .matrixShape _ rows cols => [rows, cols]
  | .rowBlock _ _ cols => [cols]
  | .coneDimensions covered declared => [.integer covered, declared]
  | _ => []

/-- Everything that was given and is written into the message can be written. Sizes are written
within a sentence. -/
def Fault.isWritable : Fault → Bool
  | .length cause => cause.declared.all fun d => d.isListable && d.isWritable
  | .constraint (.freeRows rows) => rows.all Datum.isWritable
  | .cone (.undesignated designation) => designation.isWritable
  | .index (.notInteger d) | .index (.outside _ d _) => d.isWritable
  | .sense designation => designation.isWritable
  | _ => true

/-- What is raised for a fault. If its message cannot be written, that is what is wrong instead. -/
def Fault.raised (fault : Fault) : Fault :=
  if fault.isWritable then fault else .data .malformed

theorem Fault.raised_eq {fault : Fault} (writable : fault.isWritable) : fault.raised = fault :=
  if_pos writable

theorem Fault.raised_eq_malformed {fault : Fault} (unwritable : ¬fault.isWritable) :
    fault.raised = .data .malformed :=
  if_neg unwritable

def writtenNats (values : List Nat) : String := Text.bracketed (values.map toString)

def writtenSizes (sizes : List Int) : String := Text.tuple (sizes.map toString)

def LengthFault.message : LengthFault → String
  | .orderDirections forward reverse =>
    s!"Forward map has {forward} entries, reverse map has {reverse}"
  | .solution given expected => s!"Solution has {given} entries, expected {expected}"
  | .coneRows rows npos sizes =>
    let rows := rows.plainText
    let npos := npos.plainText
    let written := writtenSizes sizes
    s!"{rows} inequality rows but npos={npos}, conedims={written}"
  | .coneCount declared given =>
    let declared := declared.plainText
    s!"ncones={declared} but {given} cone sizes given"
  | .inequalityBlock matrix bounds rows cols =>
    let matrix := matrix.written
    let bounds := bounds.written
    let rows := rows.plainText
    let cols := cols.plainText
    s!"G is {matrix} and h is {bounds}, expected ({rows}, {cols})"
  | .equalityBlock matrix bounds rows cols =>
    let matrix := matrix.written
    let bounds := bounds.written
    let rows := rows.plainText
    let cols := cols.plainText
    s!"A is {matrix} and b is {bounds}, expected ({rows}, {cols})"
  | .objectiveShape shape cols =>
    let shape := shape.written
    let cols := cols.plainText
    s!"Objective has shape {shape}, expected ({cols},)"
  | .notVector name shape =>
    let shape := shape.written
    s!"{name} must be a vector, got shape {shape}"
  | .columnBounds => "Unequal lengths for column bounds"
  | .rowBounds => "Unequal lengths for row bounds"
  | .objectiveLength given expected => s!"Objective has {given} entries, expected {expected}"
  | .matrixEmpty rows cols =>
    let rows := rows.plainText
    let cols := cols.plainText
    s!"Constraint matrix is empty, expected ({rows}, {cols})"
  | .matrixShape shape rows cols =>
    let shape := shape.written
    let rows := rows.plainText
    let cols := cols.plainText
    s!"Constraint matrix has shape {shape}, expected ({rows}, {cols})"
  | .rowBlock shape bounds cols =>
    let shape := shape.written
    let cols := cols.plainText
    s!"Row block has shape {shape}, expected ({bounds}, {cols})"
  | .coneDimensions covered declared =>
    let declared := declared.plainText
    s!"Cone dimensions cover {covered} rows, but m={declared}"

def ConstraintFault.message : ConstraintFault → String
  | .freeRows rows =>
    let rows := Text.bracketed (rows.map Datum.written)
    s!"Free cone constraints not handled (rows {rows})"
  | .rangedRows rows =>
    let rows := writtenNats rows
    s!"Ranged constraints unsupported (rows {rows})"
  | .unboundedRows rows =>
    let rows := writtenNats rows
    s!"Rows {rows} have no finite bound"

def Datum.coneName (d : Datum) : String := d.memberLabel?.getD d.written

def ConeFault.message : ConeFault → String
  | .undesignated designation =>
    let name := designation.coneName
    s!"Cone type {name} not supported"
  | .unsupported kind =>
    let name := kind.label
    s!"Cone type {name} not supported"
  | .power => "Power cones not supported"

def ConeFault.designation : ConeFault → Datum
  | .undesignated designation => designation
  | .unsupported kind => .cone kind
  | .power => .text "PowerCone"

def IndexFault.message : IndexFault → String
  | .notInteger index =>
    let index := index.written
    s!"Index {index} is not an integer"
  | .emptySecondOrder => "Second-order cone with an empty index set"
  | .outside .vars index count =>
    let index := index.plainText
    let count := count.plainText
    s!"Variable index {index} out of range for {count} variables"
  | .outside .rows index count =>
    let index := index.plainText
    let count := count.plainText
    s!"Constraint row {index} out of range for {count} rows"
  | .repeated .vars index => s!"Variable index {index} assigned to more than one cone"
  | .repeated .rows index => s!"Constraint row {index} assigned to more than one cone"
  | .unassigned missing =>
    let missing := writtenNats missing
    s!"Variables {missing} are not assigned to any cone"

def Fault.message? : Fault → Option String
  | .length cause => some cause.message
  | .constraint cause => some cause.message
  | .cone cause => some cause.message
  | .index cause => some cause.message
  | .sense designation =>
    let designation := designation.written
    some s!"Unknown objective sense: {designation}"
  | .nothingLoaded => some "No problem loaded"
  | .notSolved => some "Problem has not been solved"
  | .data _ => none

end ConicForm
