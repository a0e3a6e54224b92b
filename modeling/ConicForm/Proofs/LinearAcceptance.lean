import ConicForm.Proofs.ConicAcceptance
import ConicForm.Proofs.WellFormedForm

/-! Which linear problems are accepted. A row has a standard form if its bounds are one finite
number, or if one of them is finite and the other leaves its side open. Every such row is in the
form once: as an equality, or as an inequality before those of the variables. -/
namespace ConicForm

open Outcome (Decides Refused OnlyRefused)

namespace Bounds

def Fixed (bounds : Bounds) : Prop := bounds.lower.isFinite ∧ bounds.lower.equals bounds.upper

def OnlyUpper (bounds : Bounds) : Prop := bounds.lower = .infinity true ∧ bounds.upper.isFinite

def OnlyLower (bounds : Bounds) : Prop := bounds.upper = .infinity false ∧ bounds.lower.isFinite

def OneSided (bounds : Bounds) : Prop := bounds.OnlyUpper ∨ bounds.OnlyLower

def Representable (bounds : Bounds) : Prop := bounds.Fixed ∨ bounds.OneSided

instance : DecidablePred Fixed := fun _ => inferInstanceAs (Decidable (_ ∧ _))

instance : DecidablePred OnlyUpper := fun _ => inferInstanceAs (Decidable (_ ∧ _))

instance : DecidablePred OnlyLower := fun _ => inferInstanceAs (Decidable (_ ∧ _))

instance : DecidablePred OneSided := fun _ => inferInstanceAs (Decidable (_ ∨ _))

instance : DecidablePred Representable := fun _ => inferInstanceAs (Decidable (_ ∨ _))

/-- What keeps a row from having a standard form: a bound that is NaN or infinite on the wrong side,
no finite bound, or two of them that differ. -/
inductive Unrepresentable : Bounds → Prop
  | nanLower (upper : Binary64) : Unrepresentable ⟨.nan, upper⟩
  | nanUpper (lower : Binary64) : Unrepresentable ⟨lower, .nan⟩
  | highLower (upper : Binary64) : Unrepresentable ⟨.infinity false, upper⟩
  | lowUpper (lower : Binary64) : Unrepresentable ⟨lower, .infinity true⟩
  | unbounded : Unrepresentable ⟨.infinity true, .infinity false⟩
  | ranged {lower upper : Binary64} (lowerFinite : lower.isFinite) (upperFinite : upper.isFinite)
    (differ : ¬lower.equals upper) : Unrepresentable ⟨lower, upper⟩

variable {bounds : Bounds}

theorem representable_iff : bounds.Representable ↔
    bounds.rowKind = .equality ∨ bounds.rowKind = .atMost ∨ bounds.rowKind = .atLeast := by
  rw [rowKind_eq_equality_iff, rowKind_eq_atMost_iff, rowKind_eq_atLeast_iff]
  rfl

/-- A row is in one of the three classes at most. -/
theorem classes_apart : ¬(bounds.Fixed ∧ bounds.OnlyUpper) ∧ ¬(bounds.Fixed ∧ bounds.OnlyLower) ∧
    ¬(bounds.OnlyUpper ∧ bounds.OnlyLower) := by
  refine ⟨?_, ?_, ?_⟩
  · rintro ⟨⟨finite, -⟩, infinite, -⟩
    rw [infinite] at finite
    cases finite
  · rintro ⟨⟨finite, same⟩, infinite, -⟩
    have upper := Binary64.isFinite_of_equals finite same
    rw [infinite] at upper
    cases upper
  · rintro ⟨⟨infinite, -⟩, -, finite⟩
    rw [infinite] at finite
    cases finite

theorem oneSided_iff_not_fixed (representable : bounds.Representable) :
    bounds.OneSided ↔ ¬bounds.Fixed := by
  obtain ⟨notUpper, notLower, -⟩ := @classes_apart bounds
  constructor
  · rintro (upper | lower) fixed
    · exact notUpper ⟨fixed, upper⟩
    · exact notLower ⟨fixed, lower⟩
  · exact representable.resolve_left

theorem not_representable_iff : ¬bounds.Representable ↔ bounds.Unrepresentable := by
  constructor
  · intro refused
    obtain ⟨lower, upper⟩ := bounds
    match lower, upper with
    | .nan, upper => exact .nanLower upper
    | .infinity false, upper => exact .highLower upper
    | .infinity true, .nan => exact .nanUpper _
    | .infinity true, .infinity true => exact .lowUpper _
    | .infinity true, .infinity false => exact .unbounded
    | .infinity true, .finite _ _ _ => exact absurd (.inr (.inl ⟨rfl, rfl⟩)) refused
    | .finite _ _ _, .nan => exact .nanUpper _
    | .finite _ _ _, .infinity true => exact .lowUpper _
    | .finite _ _ _, .infinity false => exact absurd (.inr (.inr ⟨rfl, rfl⟩)) refused
    | .finite _ _ _, .finite _ _ _ =>
      exact .ranged rfl rfl fun same => refused (.inl ⟨rfl, same⟩)
  · intro refused
    cases refused with
    | ranged lowerFinite upperFinite differ =>
      rintro (⟨-, same⟩ | ⟨rfl, -⟩ | ⟨rfl, -⟩)
      · exact differ same
      · cases lowerFinite
      · cases upperFinite
    | nanUpper lower | lowUpper lower =>
      cases lower <;> simp [Representable, Fixed, OneSided, OnlyUpper, OnlyLower, Binary64.isFinite,
        Binary64.equals]
    | nanLower upper | highLower upper | unbounded =>
      simp [Representable, Fixed, OneSided, OnlyUpper, OnlyLower, Binary64.isFinite]

end Bounds

namespace Datum

/-- A matrix that has numbers by its shape, or one that is stored sparsely. -/
inductive IsFilled : Datum → Prop
  | dense {d : Datum} {array : NumberArray} {rows cols : ℕ}
      (read : NumberArray.ofDatum d = .ok array) (shape : array.shape = [rows, cols])
      (numbers : rows * cols ≠ 0) : IsFilled d
  | sparse {stored : StoredMatrix} (inside : stored.isInside) : IsFilled (.sparse stored)

section Filled

variable {d : Datum} (filled : d.IsFilled)
include filled

theorem IsFilled.isMatrix : d.IsMatrix := by
  cases filled with
  | dense read shape => exact .dense read shape
  | sparse inside => exact .sparse inside

theorem IsFilled.isBare_eq : d.isBare = false := by
  cases filled with
  | @dense _ _ rows cols read shape numbers =>
    have shaped := (numbers_of_ofDatum read).1
    rw [shape] at shaped
    cases d with
    | list items => simpa [isBare, shaped, Shape.count] using numbers
    | zeros shape => simpa [isBare, shaped, Shape.count] using numbers
    | _ => simp [shape?] at shaped
  | sparse => rfl

/-- A matrix that there is room to gather is read if the shape is right. -/
theorem toRows_of_hasRoom [Machine] (room : d.HasRoom) (rows cols : ℕ) :
    if d.extents? = some [rows, cols] then
      ∃ matrix, d.toRows (.integer rows) (.integer cols) = .ok matrix ∧ matrix.isInside
    else Refused .length (d.toRows (.integer rows) (.integer cols)) := by
  have fits := toRows_fits filled.isMatrix room rows cols
  simpa only [Fits, filled.isBare_eq, Bool.false_eq_true, if_false] using fits

end Filled

end Datum

namespace LinearProblem

theorem onlyRefused_checkLength (given expected : ℕ) (cause : LengthFault) :
    OnlyRefused .length (checkLength given expected cause) := by
  unfold checkLength
  split
  · exact Outcome.onlyRefused_ok _
  · exact Outcome.onlyRefused_error rfl

theorem checkLength_eq_ok_iff {given expected : ℕ} {cause : LengthFault} {value : Unit} :
    checkLength given expected cause = .ok value ↔ given = expected := by
  refine ⟨checkLength_eq_ok, fun same => ?_⟩
  rw [checkLength, if_pos same]

namespace Input

variable (input : Input)

/-- The parts of a problem are of the types that are asked for. -/
structure Typed : Prop where
  sense : ∃ way, Sense.ofDatum input.sense = .ok way
  columnLower : ∃ values, input.columnLower.toVector "collb" = .ok values
  columnUpper : ∃ values, input.columnUpper.toVector "colub" = .ok values
  rowLower : ∃ values, input.rowLower.toVector "rowlb" = .ok values
  rowUpper : ∃ values, input.rowUpper.toVector "rowub" = .ok values
  objective : ∃ values, input.objective.toVector "obj" = .ok values
  matrix : input.matrix.IsFilled

/-- The sense and the vectors of a problem are of the types that are asked for. -/
structure Readable : Prop where
  sense : ∃ way, Sense.ofDatum input.sense = .ok way
  columnLower : ∃ values, input.columnLower.toVector "collb" = .ok values
  columnUpper : ∃ values, input.columnUpper.toVector "colub" = .ok values
  rowLower : ∃ values, input.rowLower.toVector "rowlb" = .ok values
  rowUpper : ∃ values, input.rowUpper.toVector "rowub" = .ok values
  objective : ∃ values, input.objective.toVector "obj" = .ok values

def rowCount : ℕ := input.rowLower.numbers.length

def columnCount : ℕ := input.columnLower.numbers.length

/-- Each vector has a number for every variable or for every row. -/
def Aligned : Prop :=
  input.columnUpper.numbers.length = input.columnCount ∧
    input.rowUpper.numbers.length = input.rowCount ∧
      input.objective.numbers.length = input.columnCount

instance : Decidable input.Aligned := inferInstanceAs (Decidable (_ ∧ _ ∧ _))

def rowBound (i : ℕ) : Bounds :=
  ⟨input.rowLower.numbers.getD i .nan, input.rowUpper.numbers.getD i .nan⟩

/-- The class of the fault that a problem is refused for, if any. -/
def verdict : Option Refusal :=
  if ¬input.Aligned then some .length
  else if ¬input.matrix.extents? = some [input.rowCount, input.columnCount] then some .length
  else if ¬∀ i < input.rowCount, (input.rowBound i).Representable then some .constraint
  else none

def checkLengths : Except Fault Unit :=
  checkLength input.columnUpper.numbers.length input.columnCount .columnBounds >>= fun _ =>
    checkLength input.rowUpper.numbers.length input.rowCount .rowBounds >>= fun _ =>
      checkLength input.objective.numbers.length input.columnCount
        (.objectiveLength input.objective.numbers.length input.columnCount)

theorem onlyRefused_checkLengths : OnlyRefused .length input.checkLengths :=
  (onlyRefused_checkLength _ _ _).bind fun _ _ =>
    (onlyRefused_checkLength _ _ _).bind fun _ _ => onlyRefused_checkLength _ _ _

variable {input} in
theorem checkLengths_eq_ok_iff {value : Unit} :
    input.checkLengths = .ok value ↔ input.Aligned := by
  simp [checkLengths, Outcome.andThen_eq_ok_iff, checkLength_eq_ok_iff, Aligned]

def readMatrix [Machine] : Except Fault RowMatrix :=
  input.matrix.toRows (.integer input.rowCount) (.integer input.columnCount)

/-- What is made of a problem when all lengths agree. -/
def problem (matrix : RowMatrix) (way : Sense) : LinearProblem :=
  ⟨matrix, input.program.rowBounds, input.program.columnBounds, input.objective.numbers, way⟩

variable {input} in
theorem rowBounds_eq (enough : input.rowCount ≤ input.rowUpper.numbers.length) :
    input.program.rowBounds = (List.range input.rowCount).map input.rowBound := by
  refine List.ext_getElem ?_ fun i inside _ => ?_
  · rw [program, List.length_zipWith, List.length_map, List.length_range]
    exact Nat.min_eq_left enough
  · have below : i < input.rowLower.numbers.length ∧ i < input.rowUpper.numbers.length := by
      simpa [program] using inside
    simp [program, rowBound, below]

end Input

theorem rowsOfKind_eq_nil {problem : LinearProblem} {kind : RowKind}
    (other : ∀ bounds ∈ problem.rowBounds, bounds.rowKind ≠ kind) :
    problem.rowsOfKind kind = [] := by
  rw [rowsOfKind, List.map_eq_nil_iff, List.filter_eq_nil_iff]
  intro row member same
  exact other row.1 (List.fst_mem_of_mem_zipIdx member) (beq_iff_eq.1 same)

/-- With the entries of the matrix inside, only the bounds of the rows are left to refuse. -/
theorem decides_standardForm (problem : LinearProblem) (inside : problem.matrix.isInside) :
    Decides (if ¬∀ bounds ∈ problem.rowBounds, bounds.Representable then some .constraint else none)
      problem.standardForm := by
  by_cases representable : ∀ bounds ∈ problem.rowBounds, bounds.Representable
  · have none (kind : RowKind)
        (other : kind ≠ .equality ∧ kind ≠ .atMost ∧ kind ≠ .atLeast) :
        problem.rowsOfKind kind = [] := by
      refine rowsOfKind_eq_nil fun bounds member same => ?_
      have kinds := Bounds.representable_iff.1 (representable bounds member)
      rw [same] at kinds
      simp [other] at kinds
    have sized : (VariableOrder.identity problem.objective.length).size =
        (problem.sense.toMinimize problem.objective).length := by
      rw [Sense.length_toMinimize, VariableOrder.size_identity]
    rw [if_neg (not_not.2 representable), standardForm, none .ranged (by decide),
      none .unbounded (by decide), RowMatrix.checkInside, if_pos inside]
    exact StandardForm.exists_ofRows (by simp) sized _ _
  · rw [if_pos representable]
    unfold standardForm
    split
    next noRanged noUnbounded =>
      -- both lists are empty only if each row is of one of the three other kinds
      refine absurd (fun bounds member => Bounds.representable_iff.2 ?_) representable
      have ranged := rowKind_ne_of_rowsOfKind noRanged bounds member
      have unbounded := rowKind_ne_of_rowsOfKind noUnbounded bounds member
      cases kind : bounds.rowKind <;> simp_all
    next => exact ⟨_, rfl, rfl⟩
    next => exact ⟨_, rfl, rfl⟩

/-- With the sense and the vectors read, the lengths are compared, then the matrix is read for
them. -/
theorem load_eq_of_readable [Machine] {input : Input} (readable : input.Readable) {way : Sense}
    (sense : Sense.ofDatum input.sense = .ok way) : load input =
      (input.checkLengths >>= fun _ =>
        input.readMatrix >>= fun matrix => standardForm (input.problem matrix way)) := by
  obtain ⟨columnLower, readColumnLower⟩ := readable.columnLower
  obtain ⟨columnUpper, readColumnUpper⟩ := readable.columnUpper
  obtain ⟨rowLower, readRowLower⟩ := readable.rowLower
  obtain ⟨rowUpper, readRowUpper⟩ := readable.rowUpper
  obtain ⟨objective, readObjective⟩ := readable.objective
  have chained : load input = read input >>= standardForm := rfl
  simp only [Input.checkLengths, Input.readMatrix, Input.problem, Input.rowCount,
    Input.columnCount, Input.program,
    Datum.numbers_of_toVector readColumnLower, Datum.numbers_of_toVector readColumnUpper,
    Datum.numbers_of_toVector readRowLower, Datum.numbers_of_toVector readRowUpper,
    Datum.numbers_of_toVector readObjective]
  rw [chained, read, sense, readColumnLower, readColumnUpper, readRowLower, readRowUpper,
    readObjective]
  have ok {α β : Type} (value : α) (next : α → Except Fault β) :
      (Except.ok value >>= next) = next value := rfl
  simp only [bind_assoc, ok]
  rfl

section Decided

variable {input : Input} (typed : input.Typed)
include typed

theorem Input.Typed.readable : input.Readable where
  sense := typed.sense
  columnLower := typed.columnLower
  columnUpper := typed.columnUpper
  rowLower := typed.rowLower
  rowUpper := typed.rowUpper
  objective := typed.objective

theorem load_eq_of_typed [Machine] : ∃ way, load input =
    (input.checkLengths >>= fun _ =>
      input.readMatrix >>= fun matrix => standardForm (input.problem matrix way)) := by
  obtain ⟨way, sense⟩ := typed.sense
  exact ⟨way, load_eq_of_readable typed.readable sense⟩

/-- If there is room for the rows of the matrix, a problem is accepted if there is nothing to refuse
it for. Otherwise the class of the fault is that of the first check that it fails. -/
theorem decides_load [Machine] (room : input.matrix.HasRoom) :
    Decides input.verdict (load input) := by
  obtain ⟨way, chain⟩ := load_eq_of_typed typed
  rw [chain]
  refine Decides.bind input.onlyRefused_checkLengths
    ⟨fun ⟨_, checked⟩ => Input.checkLengths_eq_ok_iff.1 checked,
      fun aligned => ⟨(), Input.checkLengths_eq_ok_iff.2 aligned⟩⟩ fun _ checked => ?_
  have aligned := Input.checkLengths_eq_ok_iff.1 checked
  have table := Datum.toRows_of_hasRoom typed.matrix room input.rowCount input.columnCount
  by_cases fits : input.matrix.extents? = some [input.rowCount, input.columnCount]
  · rw [if_pos fits] at table
    obtain ⟨matrix, read, inside⟩ := table
    have rows : (∀ bounds ∈ input.program.rowBounds, bounds.Representable) ↔
        ∀ i < input.rowCount, (input.rowBound i).Representable := by
      simp only [Input.rowBounds_eq aligned.2.1.ge, List.forall_mem_map, List.mem_range]
    have decided := decides_standardForm (input.problem matrix way) inside
    simp only [Input.problem, rows] at decided
    rw [if_neg (not_not.2 fits), Input.readMatrix, read]
    exact decided
  · rw [if_neg fits] at table
    rw [if_pos fits]
    exact table.bind _

/-- Without room for its rows a matrix is not read, whatever its shape. -/
theorem load_of_not_hasRoom [Machine] (full : ¬input.matrix.HasRoom) :
    if input.Aligned then
      ∃ cause, load input = .error (.data cause) ∧ (cause = .malformed ∨ cause = .outOfMemory)
    else Refused .length (load input) := by
  obtain ⟨way, chain⟩ := load_eq_of_typed typed
  rw [chain]
  by_cases aligned : input.Aligned
  · obtain ⟨cause, failed, own⟩ := Datum.toRows_of_not_hasRoom typed.matrix.isMatrix full
      (.integer input.rowCount) (.integer input.columnCount)
    have checked : input.checkLengths = .ok () := Input.checkLengths_eq_ok_iff.2 aligned
    rw [if_pos aligned, checked, Input.readMatrix, failed]
    exact ⟨cause, rfl, own⟩
  · have refused := input.onlyRefused_checkLengths.refused fun value checked =>
      aligned (Input.checkLengths_eq_ok_iff.1 checked)
    rw [if_neg aligned]
    exact refused.bind _

end Decided

section Emitted

/-- The rows of a class, in their order. -/
def Input.rowsWhere (input : Input) (good : Bounds → Prop) [DecidablePred good] : List ℕ :=
  (List.range input.rowCount).filter fun i => good (input.rowBound i)

def Input.equalityRow (input : Input) (matrix : RowMatrix) (i : ℕ) : ConstraintRow :=
  .scale .one ⟨matrix.row i, (input.rowBound i).lower⟩

/-- A row with only a lower bound is negated. -/
def Input.inequalityRow (input : Input) (matrix : RowMatrix) (i : ℕ) : ConstraintRow :=
  if (input.rowBound i).OnlyUpper then .scale .one ⟨matrix.row i, (input.rowBound i).upper⟩
  else .scale (-.one) ⟨matrix.row i, (input.rowBound i).lower⟩

/-- The inequalities of the variables. -/
def Input.variableRows (input : Input) : List ConstraintRow :=
  input.program.columnBounds.zipIdx.flatMap fun column => boundRows (column.2 : ℤ) column.1

/-- The rows of a form are those of a problem, each of them once, and one for every finite bound of
a variable. -/
structure Input.EmittedIn [Machine] (input : Input) (form : StandardForm) : Prop where
  once : (input.rowsWhere Bounds.Fixed ++ input.rowsWhere Bounds.OneSided).Perm
    (List.range input.rowCount)
  equalityCount : form.p = (input.rowsWhere Bounds.Fixed).length
  orthant : form.npos = form.m
  inequalityCount : form.m = (input.rowsWhere Bounds.OneSided).length +
    (input.columnLower.numbers.countP Binary64.isFinite +
      input.columnUpper.numbers.countP Binary64.isFinite)
  rows : ∃ matrix, input.readMatrix = .ok matrix ∧
    form.A = ConstraintRow.matrix form.n
      ((input.rowsWhere Bounds.Fixed).map (input.equalityRow matrix)) ∧
    form.b = ((input.rowsWhere Bounds.Fixed).map (input.equalityRow matrix)).map
      ConstraintRow.bound ∧
    form.G = ConstraintRow.matrix form.n
      ((input.rowsWhere Bounds.OneSided).map (input.inequalityRow matrix) ++
        input.variableRows) ∧
    form.h = ((input.rowsWhere Bounds.OneSided).map (input.inequalityRow matrix) ++
      input.variableRows).map ConstraintRow.bound

theorem equality?_eq (line : Line) (bounds : Bounds) : equality? (line, bounds) =
    if bounds.Fixed then some (.scale .one ⟨line, bounds.lower⟩) else none := by
  have fixed : bounds.Fixed ↔ bounds.rowKind = .equality := Bounds.rowKind_eq_equality_iff.symm
  simp only [equality?, fixed]
  split <;> simp_all

theorem inequality?_eq (line : Line) (bounds : Bounds) : inequality? (line, bounds) =
    if bounds.OneSided then
      some (if bounds.OnlyUpper then .scale .one ⟨line, bounds.upper⟩
        else .scale (-.one) ⟨line, bounds.lower⟩)
    else none := by
  have upper : bounds.OnlyUpper ↔ bounds.rowKind = .atMost := Bounds.rowKind_eq_atMost_iff.symm
  have lower : bounds.OnlyLower ↔ bounds.rowKind = .atLeast := Bounds.rowKind_eq_atLeast_iff.symm
  simp only [inequality?, Bounds.OneSided, upper, lower]
  split <;> simp_all

variable {input : Input}

/-- Rows that are all of the classes are in one of them each. -/
theorem perm_rowsWhere
    (representable : ∀ i < input.rowCount, (input.rowBound i).Representable) :
    (input.rowsWhere Bounds.Fixed ++ input.rowsWhere Bounds.OneSided).Perm
      (List.range input.rowCount) := by
  have others : input.rowsWhere Bounds.OneSided =
      (List.range input.rowCount).filter fun i => !decide (input.rowBound i).Fixed := by
    refine List.filter_congr fun i member => ?_
    simp only [Bounds.oneSided_iff_not_fixed (representable i (List.mem_range.1 member)),
      decide_not]
  rw [others]
  exact List.filter_append_perm _ _

variable [Machine] {problem : LinearProblem} (given : input.ReadAs problem)
include given

theorem rowBounds_of_readAs : problem.rowBounds =
    (List.range input.rowCount).map input.rowBound := by
  have lengths := given.rowCount
  rw [← given.rowBounds, List.length_zipWith] at lengths
  rw [← Input.rowBounds_eq (by rw [Input.rowCount]; omega)]
  exact given.rowBounds.symm

theorem rows_of_readAs : problem.rows =
    (List.range input.rowCount).map fun i => (problem.matrix.row i, input.rowBound i) := by
  have lineCount := (Datum.shape_toRows given.matrix).1
  have bounds := rowBounds_of_readAs given
  rw [bounds, List.length_map, List.length_range, RowMatrix.rows] at lineCount
  rw [rows, bounds]
  refine List.ext_getElem (by simp [lineCount]) fun i inside _ => ?_
  have below : i < problem.matrix.lines.length := by
    rw [List.length_zip] at inside
    omega
  simp [RowMatrix.row, below]

theorem equalities_of_readAs : problem.equalities =
    (input.rowsWhere Bounds.Fixed).map (input.equalityRow problem.matrix) := by
  rw [equalities, rows_of_readAs given, List.filterMap_map, Input.rowsWhere,
    ← List.filterMap_eq_map, List.filterMap_filter]
  refine List.filterMap_congr fun i _ => ?_
  simp [equality?_eq, Input.equalityRow]

theorem inequalities_of_readAs : problem.inequalities =
    (input.rowsWhere Bounds.OneSided).map (input.inequalityRow problem.matrix) ++
      input.variableRows := by
  rw [inequalities, Input.variableRows, Input.program, given.columnBounds, rows_of_readAs given,
    List.filterMap_map, Input.rowsWhere, ← List.filterMap_eq_map, List.filterMap_filter]
  congr 1
  refine List.filterMap_congr fun i _ => ?_
  simp [inequality?_eq, Input.inequalityRow]

end Emitted

/-- Every form that is loaded has the rows of its problem, each of them once. -/
theorem emittedIn_of_load [Machine] {input : Input} {form : StandardForm}
    (loaded : load input = .ok form) : input.EmittedIn form := by
  obtain ⟨problem, read, built⟩ := Outcome.bind_eq_ok_iff.1 loaded
  have given := readAs_of_read read
  have formed := formed_of_standardForm built
  have made := formed.made
  have n : form.n = (problem.sense.toMinimize problem.objective).length :=
    StandardForm.n_of_madeOf made
  have m : form.m = problem.inequalities.length := by
    rw [StandardForm.m, made.G, ConstraintRow.rows_matrix]
  have equalities := equalities_of_readAs given
  have inequalities := inequalities_of_readAs given
  have rowBounds := rowBounds_of_readAs given
  refine ⟨perm_rowsWhere fun i below => Bounds.representable_iff.2 ?_, ?_, ?_, ?_,
    problem.matrix, ?_, ?_, ?_, ?_, ?_⟩
  · refine formed.kinds _ ?_
    rw [rowBounds]
    exact List.mem_map_of_mem (List.mem_range.2 below)
  · rw [StandardForm.p_of_madeOf made, equalities, List.length_map]
  · rw [made.npos, m]
  · rw [m, inequalities, List.length_append, List.length_map, Input.variableRows, Input.program,
      length_bound_rows (columnLengths_of_read read)]
  · have columns := given.columnCount
    rw [← given.columnBounds, List.length_zipWith, columnLengths_of_read read, min_self] at columns
    have matrix := given.matrix
    rwa [rowBounds, List.length_map, List.length_range, ← columns] at matrix
  · rw [n, ← equalities, made.A]
  · rw [← equalities, made.b]
  · rw [n, ← inequalities, made.G]
  · rw [← inequalities, made.h]

/-- Exactly the problems are accepted whose lengths agree and whose rows all have a standard form,
and the form has each row once. The three classes of such rows do not overlap, and what is in none
of them is told by its bounds. A matrix whose rows there is no room for is never read. -/
theorem load_decided [Machine] (input : Input) (typed : input.Typed) :
    (input.matrix.HasRoom → Decides input.verdict (load input)) ∧
    (¬input.matrix.HasRoom →
      if input.Aligned then
        ∃ cause, load input = .error (.data cause) ∧ (cause = .malformed ∨ cause = .outOfMemory)
      else Refused .length (load input)) ∧
    (∀ form, load input = .ok form → input.EmittedIn form) ∧
    ∀ bounds : Bounds, (¬bounds.Representable ↔ bounds.Unrepresentable) ∧
      ¬(bounds.Fixed ∧ bounds.OnlyUpper) ∧ ¬(bounds.Fixed ∧ bounds.OnlyLower) ∧
        ¬(bounds.OnlyUpper ∧ bounds.OnlyLower) :=
  ⟨decides_load typed, load_of_not_hasRoom typed, fun _ => emittedIn_of_load,
    fun _ => ⟨Bounds.not_representable_iff, Bounds.classes_apart⟩⟩

/-- The problem with a row of each kind, under other upper bounds of its rows. -/
def Input.mixedUnder (rowUpper : List Datum) : Input :=
  { Input.mixed with rowUpper := .list rowUpper }

theorem typed_mixedUnder {rowUpper : List Datum}
    (read : ∃ values, (Datum.list rowUpper).toVector "rowub" = .ok values) :
    (Input.mixedUnder rowUpper).Typed := by
  obtain ⟨array, readMatrix, shape⟩ : ∃ array,
      NumberArray.ofDatum Input.mixed.matrix = .ok array ∧ array.shape = [3, 2] :=
    Outcome.exists_of_toOption_map (by decide +kernel)
  have columnLower : ∃ values, Input.mixed.columnLower.toVector "collb" = .ok values :=
    Outcome.exists_of_isSome (by decide +kernel)
  have columnUpper : ∃ values, Input.mixed.columnUpper.toVector "colub" = .ok values :=
    Outcome.exists_of_isSome (by decide +kernel)
  have rowLower : ∃ values, Input.mixed.rowLower.toVector "rowlb" = .ok values :=
    Outcome.exists_of_isSome (by decide +kernel)
  have objective : ∃ values, Input.mixed.objective.toVector "obj" = .ok values :=
    Outcome.exists_of_isSome (by decide +kernel)
  exact ⟨⟨.maximize, rfl⟩, columnLower, columnUpper, rowLower, read, objective,
    .dense readMatrix shape (by decide)⟩

/-- The last row may have a lower bound, but not another upper bound as well. -/
theorem load_decided_mixed :
    (∃ form, load (.mixedUnder [.integer 3, .integer 2, .real (.infinity false)]) = .ok form ∧
      form.p = 1 ∧ form.m = 5) ∧
    Refused .constraint (load (.mixedUnder [.integer 3, .integer 2, .integer 2])) ∧
    Refused .length (load (.mixedUnder [.integer 3, .integer 2])) := by
  obtain ⟨accepted, -, emitted, -⟩ := load_decided
    (.mixedUnder [.integer 3, .integer 2, .real (.infinity false)])
    (typed_mixedUnder (Outcome.exists_of_isSome (by decide +kernel)))
  obtain ⟨ranged, -⟩ := load_decided (.mixedUnder [.integer 3, .integer 2, .integer 2])
    (typed_mixedUnder (Outcome.exists_of_isSome (by decide +kernel)))
  obtain ⟨short, -⟩ := load_decided (.mixedUnder [.integer 3, .integer 2])
    (typed_mixedUnder (Outcome.exists_of_isSome (by decide +kernel)))
  have decided := accepted trivial
  rw [show (Input.mixedUnder [.integer 3, .integer 2, .real (.infinity false)]).verdict = none by
    decide +kernel] at decided
  obtain ⟨form, loaded⟩ := decided
  have rows := emitted form loaded
  refine ⟨⟨form, loaded, ?_, ?_⟩, ?_, ?_⟩
  · rw [rows.equalityCount]
    decide +kernel
  · rw [rows.inequalityCount]
    decide +kernel
  · have refused := ranged trivial
    rwa [show (Input.mixedUnder [.integer 3, .integer 2, .integer 2]).verdict =
      some .constraint by decide +kernel] at refused
  · have refused := short trivial
    rwa [show (Input.mixedUnder [.integer 3, .integer 2]).verdict = some .length by
      decide +kernel] at refused

/-- One row and one variable, with a sparse matrix of too many rows and no columns. -/
def Input.tall : Input where
  matrix := .sparse ⟨.triplets, 2 ^ 61, 0, []⟩
  columnLower := .list [.integer 0]
  columnUpper := .list [.integer 1]
  objective := .list [.integer 1]
  rowLower := .list [.integer 0]
  rowUpper := .list [.integer 0]
  sense := .sense .minimize

/-- A matrix of another shape is not refused for it if there is no room for its rows. -/
theorem exists_unread : ∃ input : Input, input.Typed ∧
    input.matrix.extents? ≠ some [input.rowCount, input.columnCount] ∧
      ∃ cause, load input = .error (.data cause) ∧
        (cause = .malformed ∨ cause = .outOfMemory) := by
  have typed : Input.tall.Typed := by
    refine ⟨⟨.minimize, rfl⟩, ?_, ?_, ?_, ?_, ?_, .sparse rfl⟩
    all_goals exact Outcome.exists_of_isSome (by decide +kernel)
  have full : ¬Input.tall.matrix.HasRoom := by
    rintro (layout | room)
    · cases layout
    · exact absurd room (by decide)
  have unread := load_of_not_hasRoom typed full
  rw [if_pos (by decide +kernel)] at unread
  exact ⟨.tall, typed, by decide +kernel, unread⟩

end LinearProblem
end ConicForm
