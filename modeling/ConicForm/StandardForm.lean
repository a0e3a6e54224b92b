import ConicForm.Datum.Comparison
import ConicForm.Datum.Matrix
import ConicForm.Designation
import ConicForm.VariableOrder

/-! The form that a second-order cone solver takes: minimize `c · x` where `A x = b` and `h - G x`
is in a product of cones. The first `npos` rows of `G` belong to the nonnegative orthant, the rest
to second-order cones of the given sizes, one after the other. Their number is kept as it was
given. -/
namespace ConicForm

structure StandardForm where
  orthant : Datum
  sizes : List Int
  G : ColumnMatrix
  h : List Binary64
  A : ColumnMatrix
  b : List Binary64
  c : List Binary64
  sense : Sense
  order : VariableOrder
  lengthBounds : h.length = G.rows
  equalityCols : A.cols = G.cols
  equalityBounds : b.length = A.rows
  objectiveLength : c.length = G.cols
  orderSize : order.size = G.cols

/-- The sizes that a form is announced with. All but those of the cones are as they were given. -/
structure Announced where
  n : Datum
  m : Datum
  p : Datum
  npos : Datum
  ncones : Datum
  sizes : List Int

namespace StandardForm

def n (form : StandardForm) : Nat := form.G.cols

def m (form : StandardForm) : Nat := form.G.rows

def p (form : StandardForm) : Nat := form.A.rows

def ncones (form : StandardForm) : Nat := form.sizes.length

/-- The rows of the orthant, read as a size. -/
def npos (form : StandardForm) : Int := form.orthant.toInteger.toOption.getD 0

/-- The cone under the names by which a solver knows its parts. There are no exponential cones. -/
def dims (form : StandardForm) : List (String × Datum) :=
  [("l", form.orthant), ("q", .list (form.sizes.map .integer)), ("e", .integer 0)]

/-- What is declared has to agree with what there is. -/
def expect (agrees : Bool) (cause : LengthFault) : Except Fault Unit :=
  if agrees then .ok () else .error (Fault.length cause).raised

/-- Puts a form together from parts whose sizes agree with each other and with what is announced.
A size that has been compared is shown as it is afterwards. -/
def make (announced : Announced) (G : ColumnMatrix) (h : NumberArray) (A : ColumnMatrix)
    (b c : NumberArray) (sense : Sense) (order : VariableOrder) : Except Fault StandardForm := do
  let ⟨n, m, p, npos, ncones, sizes⟩ := announced
  let covered ← (npos.plus (Cone.totalSize sizes)).mapError .data
  expect (← covered.agrees m) (.coneRows (covered.compared m) npos sizes)
  expect (← ncones.compare sizes.length) (.coneCount ncones.compared sizes.length)
  expect (← m.compare G.rows) (.inequalityBlock G.shape h.shape m.compared n)
  let sameCols ← n.compare G.cols
  if inequalities : sameCols ∧ h.shape = [G.rows] then
    let sameRows ← p.compare A.rows
    if equalities : sameRows ∧ A.cols = G.cols ∧ b.shape = [A.rows] then
      if objective : c.shape = [G.cols] ∧ order.size = G.cols then
        .ok {
          orthant := npos
          sizes, G, h := h.entries, A, b := b.entries, c := c.entries, sense, order
          lengthBounds := h.length_eq_of_vector inequalities.2
          equalityCols := equalities.2.1
          equalityBounds := b.length_eq_of_vector equalities.2.2
          objectiveLength := c.length_eq_of_vector objective.1
          orderSize := objective.2 }
      else .error (Fault.length (.objectiveShape c.shape n.compared)).raised
    else .error (Fault.length (.equalityBlock A.shape b.shape p.compared n.compared)).raised
  else .error (Fault.length (.inequalityBlock G.shape h.shape m.compared n.compared)).raised

def readSizes [Machine] (sizes : Datum) : Except Fault (List Int) :=
  sizes.elements.bind fun sizes => sizes.mapM Datum.toInteger

structure Parts where
  n : Datum
  m : Datum
  p : Datum
  npos : Datum
  ncones : Datum
  sizes : Datum
  G : ColumnMatrix
  h : NumberArray
  A : ColumnMatrix
  b : NumberArray
  c : NumberArray
  order : Option VariableOrder

/-- Reads a form from its parts. Without an order the variables keep their places. What is said to
be its sense does not matter for it, so the form is one to be minimized. -/
def ofParts [Machine] (parts : Parts) : Except Fault StandardForm := do
  let order ←
    match parts.order with
    | some order => pure order
    | none => VariableOrder.ofBound parts.n
  let sizes ← readSizes parts.sizes
  let announced := ⟨parts.n, parts.m, parts.p, parts.npos, parts.ncones, sizes⟩
  make announced parts.G parts.h parts.A parts.b parts.c .minimize order

/-- What a form that is put together from parts is labelled with: the name of whatever member it is
given as its sense. -/
def senseLabel (sense : Datum) : Except Fault String :=
  match sense.memberLabel? with
  | some label => .ok label
  | none => .error (.data .senseMissing)

end StandardForm
end ConicForm
