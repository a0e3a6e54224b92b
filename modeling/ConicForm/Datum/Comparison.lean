import ConicForm.Datum.Array

/-! Comparing a declared size with the sum of another one and an integer. What is compared depends
on the types on both sides: integers are compared exactly, anything added to a real number is
rounded first, and an array or a matrix is compared entry by entry, which only tells something where
there is one entry. -/
namespace ConicForm

/-- A value with an integer added to it. -/
inductive Amount where
  | exact (value : Int)
  | rounded (value : Binary64)
  | everywhere (shape : Shape) (value : Binary64)
  | sparse (matrix : StoredMatrix)

namespace Datum

def toTerm (n : Int) : Except DataFault Binary64 :=
  match Binary64.ofInt? n with
  | some x => .ok x
  | none => .error .tooLarge

/-- Adds an integer. Nothing but zero can be added to a matrix. -/
def plus (d : Datum) (n : Int) : Except DataFault Amount :=
  match d with
  | .real value => (toTerm n).map fun term => .rounded (value + term)
  | .zeros shape => (toTerm n).map fun term => .everywhere shape term
  | .sparse matrix => if n = 0 then .ok (.sparse matrix) else .error .notImplemented
  | d =>
    match d.exactInteger? with
    | some value => .ok (.exact (value + n))
    | none => .error .wrongType

/-- An entry of an array is equal to a real number. Integers that fit no machine word are not
rounded for this. -/
def entryEquals (d : Datum) (x : Binary64) : Bool :=
  match d with
  | .real value => value.equals x
  | d =>
    match d.exactInteger? with
    | none => false
    | some n =>
      if -Capacity.word ≤ n ∧ n < 2 * Capacity.word then (Binary64.ofInt? n).any x.equals
      else x.integer? == some n

end Datum

namespace Amount

/-- The outcome of comparing entry by entry, if there is one entry only. -/
def decided (single equal : Bool) : Except DataFault Bool :=
  if single then .ok equal else .error .malformed

/-- A value is equal to a rounded number. -/
def agreesRounded (x : Binary64) (d : Datum) : Except DataFault Bool :=
  match d with
  | .real value => .ok (value.equals x)
  | .zeros shape => decided (shape.count == 1) (Binary64.zero.equals x)
  | .sparse matrix => decided matrix.isSingle (matrix.total.equals x)
  | d =>
    match d.exactInteger? with
    | some n => .ok (x.integer? == some n)
    | none => .ok false

/-- A value is equal to an array that has one number everywhere. An integer is rounded for this, and
a list is taken as an array. -/
def agreesEverywhere (shape : Shape) (x : Binary64) (d : Datum) : Except DataFault Bool :=
  let single := shape.count == 1
  match d with
  | .real value => decided single (value.equals x)
  | .zeros other => decided (single && other.count == 1) (Binary64.zero.equals x)
  | .sparse matrix => decided (single && matrix.isSingle) (matrix.total.equals x)
  | .list items =>
    match (Datum.list items).shape?, (Datum.list items).entries with
    | some _, [entry] => decided single (entry.entryEquals x)
    | _, _ => .error .malformed
  | d =>
    match d.exactInteger? with
    | some n => (Datum.toTerm n).bind fun value => decided single (value.equals x)
    | none => decided single false

def agreesSparse (matrix : StoredMatrix) (d : Datum) : Except DataFault Bool :=
  match d with
  | .real value => decided matrix.isSingle (matrix.total.equals value)
  | .zeros shape => decided (matrix.isSingle && shape.count == 1) (matrix.total.equals .zero)
  | .sparse other =>
    if matrix.shape = other.shape then
      decided matrix.isSingle (matrix.total.equals other.total)
    else .ok false
  | .text _ => .error .wrongType
  | d =>
    match d.exactInteger? with
    | none => .ok false
    | some n =>
      ((Datum.sparse matrix).checkComparable n).bind fun _ =>
        decided matrix.isSingle ((Datum.sparse matrix).equalsInt n)

def agrees (amount : Amount) (d : Datum) : Except Fault Bool :=
  match amount with
  | .exact n => d.compare n
  | .rounded x => (agreesRounded x d).mapError .data
  | .everywhere shape x => (agreesEverywhere shape x d).mapError .data
  | .sparse matrix => (agreesSparse matrix d).mapError .data

/-- A value after it has been compared with the amount: only a number sums the entries of a
matrix. -/
def compared (amount : Amount) (d : Datum) : Datum :=
  match amount with
  | .exact _ => d.compared
  | .rounded x => if x = .nan then d else d.compared
  | .everywhere _ _ | .sparse _ => d

/-- An integer added to an integer is compared exactly. -/
theorem plus_integer (value n : Int) :
    (Datum.integer value).plus n = .ok (.exact (value + n)) := rfl

end Amount
end ConicForm
