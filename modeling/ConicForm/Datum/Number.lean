import ConicForm.Fault

/-! Values read as numbers, from strict to lenient: a count must be given as an integer, an index
must be an integer or equal to one, a size is cut to an integer, and an entry of an array is
rounded. A position in an order is a size that fits a machine word. An array is no number unless it
has no extents, and a matrix is none, but one that stands for a single number can be compared with
an integer. -/
namespace ConicForm.Datum

/-- The integer that a value is, without reading texts or cutting fractions. -/
def exactInteger? : Datum → Option Int
  | .truth value => some (if value then 1 else 0)
  | .integer value => some value
  | .cone kind => some kind.number
  | .sense way => some way.sign
  | _ => none

/-- The number that a real, an array without extents, or a text is. -/
def approximate? : Datum → Option Binary64
  | .real value => some value
  | .zeros [] => some .zero
  | .text value => Literal.number? value
  | _ => none

/-- Reads an index. Real numbers and texts count if they are equal to an integer. -/
def toIndex (d : Datum) : Except Fault Int :=
  match d.exactInteger?.orElse fun _ => d.approximate?.bind Binary64.integer? with
  | some n => .ok n
  | none => .error (Fault.index (.notInteger d)).raised

def truncate (value : Binary64) : Except Fault Int :=
  match value with
  | .nan => .error (.data .malformed)
  | .infinity _ => .error (.data .tooLarge)
  | x => .ok (x.truncate?.getD 0)

def toExactInteger (d : Datum) : Except Fault Int :=
  match d.exactInteger? with
  | some n => .ok n
  | none => .error (.data .wrongType)

/-- Reads a size. A fraction is cut off, and a text has to be an integer. -/
def toInteger (d : Datum) : Except Fault Int :=
  match d with
  | .real value => truncate value
  | .zeros [] => .ok 0
  | .text value =>
    match Literal.integer? value with
    | some n => .ok n
    | none => .error (.data .malformed)
  | d => d.toExactInteger

/-- Reads a position in an order: a size that fits a machine word. -/
def toWord (d : Datum) : Except Fault Int :=
  d.toInteger.bind fun n => if Capacity.IsWord n then .ok n else .error (.data .tooLarge)

/-- Reads an entry of an array. What is absent is NaN. -/
def toBinary64 (d : Datum) : Except Fault Binary64 :=
  match d with
  | .absent => .ok .nan
  | .real value => .ok value
  | .sparse _ => .error (.data .malformed)
  | .text value =>
    match Literal.number? value with
    | some x => .ok x
    | none => .error (.data .malformed)
  | d =>
    match d.exactInteger? with
    | none => .error (.data .wrongType)
    | some n =>
      match Binary64.ofInt? n with
      | some x => .ok x
      | none => .error (.data .tooLarge)

/-- Reads an entry of a matrix that is taken as it stands, which has to be a number already. An
integer has to fit a machine word, with or without a sign. -/
def toPlainNumber (d : Datum) : Except Fault Binary64 :=
  match d with
  | .real value => .ok value
  | d =>
    match d.exactInteger? with
    | none => .error (.data .malformed)
    | some n =>
      if -Capacity.word ≤ n ∧ n < 2 * Capacity.word then d.toBinary64
      else .error (.data .malformed)

/-- Reads the length of an array whose numbers take some bytes each. A truth value is none. -/
def toLength [Machine] (bytes : Int) (d : Datum) : Except Fault Nat :=
  match d with
  | .truth _ => .error (.data .wrongType)
  | d => d.toExactInteger.bind fun n =>
    if n < 0 then .error (.data .malformed)
    else (Capacity.arrayLength bytes n).mapError .data

/-- Numerical equality with an integer. Texts equal no integer. The number of a matrix is compared
with the rounded integer. -/
def equalsInt (d : Datum) (n : Int) : Bool :=
  match d with
  | .real value => value.integer? == some n
  | .zeros shape => shape.count = 1 && n = 0
  | .sparse matrix => matrix.isSingle && (Binary64.ofInt? n).any matrix.total.equals
  | d => d.exactInteger? == some n

/-- The value can be tested as a whole. Of arrays and matrices, only those that stand for one number
can. -/
def isTestable : Datum → Bool
  | .zeros shape => shape.count = 1
  | .sparse matrix => matrix.isSingle
  | _ => true

/-- An integer that can be compared with the numbers of an array or a matrix at all: it has to be
finite once rounded, or to fit a machine word with or without a sign. -/
def checkComparable (d : Datum) (n : Int) : Except DataFault Unit :=
  match d with
  | .zeros _ => if (Binary64.ofInt? n).isSome then .ok () else .error .tooLarge
  | .sparse _ =>
    if -Capacity.word ≤ n ∧ n < 2 * Capacity.word then .ok () else .error .wrongType
  | _ => .ok ()

def compare (d : Datum) (n : Int) : Except Fault Bool :=
  ((d.checkComparable n).mapError .data).bind fun _ =>
    if d.isTestable then .ok (d.equalsInt n) else .error (.data .malformed)

/-- The value after it has been compared with a number: the entries of a matrix that stands for one
have been summed, unless they have strayed. -/
def compared : Datum → Datum
  | .sparse matrix =>
    .sparse (if matrix.isSingle && matrix.isInside then matrix.summed else matrix)
  | d => d

theorem toInteger_integer (n : Int) : (Datum.integer n).toInteger = .ok n := rfl

theorem compared_integer (n : Int) : (Datum.integer n).compared = .integer n := rfl

theorem compare_integer (m n : Int) : (Datum.integer m).compare n = .ok (m == n) := rfl

end ConicForm.Datum
