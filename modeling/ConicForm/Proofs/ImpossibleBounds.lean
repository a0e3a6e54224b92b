import ConicForm.Proofs.ComparedProblems
import ConicForm.Proofs.FormRows
import ConicForm.Proofs.LinearAcceptance
import ConicForm.Proofs.WrittenArrays

/-! Bounds of variables that no number meets. A row with such a bound is refused, but the form has
an inequality for each finite bound of a variable and nothing for the others. What it admits meets
the rows and the finite bounds, so that an impossible bound counts as none at all. -/
namespace ConicForm

open Outcome (Related Refused)

variable {K : Type*} [Field K] [LinearOrder K]

namespace Datum

/-- A matrix of some shape: an array of two extents, or entries that are stored inside. -/
inductive HasExtents : Datum → Prop
  | dense {d : Datum} {array : NumberArray} {rows cols : ℕ}
      (read : NumberArray.ofDatum d = .ok array) (shape : array.shape = [rows, cols]) : HasExtents d
  | sparse {stored : StoredMatrix} (inside : stored.isInside) : HasExtents (.sparse stored)

theorem HasExtents.isMatrix {d : Datum} (given : d.HasExtents) : d.IsMatrix := by
  cases given with
  | dense read shape => exact .dense read shape
  | sparse inside => exact .sparse inside

/-- A matrix that there is room to gather is read, or refused for its shape. -/
theorem HasExtents.toRows [Machine] {d : Datum} (given : d.HasExtents) (room : d.HasRoom)
    (rows cols : ℕ) :
    (∃ matrix, d.toRows (.integer rows) (.integer cols) = .ok matrix ∧ matrix.isInside) ∨
      Refused .length (d.toRows (.integer rows) (.integer cols)) := by
  have fits := toRows_fits given.isMatrix room rows cols
  split at fits
  · exact .inl fits
  · exact .inr fits

/-- Only of a sparse matrix the rows can be too many. -/
theorem HasExtents.filled [Machine] {d : Datum} (given : d.HasExtents) (full : ¬ d.HasRoom) :
    d.IsFilled := by
  cases given with
  | dense read => exact absurd (hasRoom_of_dense (dense_of_ofDatum read)) full
  | sparse inside => exact .sparse inside

end Datum

namespace LinearProblem

/-- Two problems with the same rows. The second has no finite bounds of variables. -/
structure SameRows (problem other : LinearProblem) : Prop where
  matrix : other.matrix = problem.matrix
  rowBounds : other.rowBounds = problem.rowBounds
  objective : other.objective = problem.objective
  sense : other.sense = problem.sense
  unbounded : ∀ bounds ∈ other.columnBounds,
    bounds.lower.isFinite = false ∧ bounds.upper.isFinite = false

/-- Every variable has its column and its bounds. -/
structure Sized (problem : LinearProblem) : Prop where
  colCount : problem.matrix.cols = problem.objective.length
  columnCount : problem.columnBounds.length = problem.objective.length

/-- Each variable is between those of its bounds that are finite. -/
def MeetsFinite (columnBounds : List Bounds) (x : List K) : Prop :=
  ∀ (j : ℕ) (bounds : Bounds), columnBounds[j]? = some bounds → bounds.AdmitsFinite (x.getD j 0)

theorem combined_of_mem_boundRows {j : ℤ} {bounds : Bounds} {row : ConstraintRow}
    (member : row ∈ boundRows j bounds) : row.combined = row := by
  rcases List.mem_append.1 member with member | member
  all_goals
    split at member
    · rw [List.mem_singleton.1 member, ConstraintRow.combined_unit]
    · cases member

section Rows

variable {problem : LinearProblem} (sized : problem.Sized) (inside : problem.matrix.isInside)
include sized inside

theorem within_of_row {line : Line} {bounds : Bounds} (stored : (line, bounds) ∈ problem.rows)
    {row : ConstraintRow}
    (made : equality? (line, bounds) = some row ∨ inequality? (line, bounds) = some row) :
    row.line.Within problem.objective.length := by
  have within := RowMatrix.isInside_iff.1 inside line (List.of_mem_zip stored).1
  rw [sized.colCount] at within
  obtain ⟨factor, scaled⟩ := exists_scale_of_row made
  rw [scaled]
  exact within.scale factor

theorem within_equalities :
    ∀ row ∈ problem.equalities, row.line.Within problem.objective.length := by
  intro row member
  obtain ⟨⟨line, bounds⟩, stored, made⟩ := List.mem_filterMap.1 member
  exact within_of_row sized inside stored (.inl made)

theorem within_inequalities :
    ∀ row ∈ problem.inequalities, row.line.Within problem.objective.length := by
  intro row member
  rcases List.mem_append.1 member with member | member
  · obtain ⟨⟨line, bounds⟩, stored, made⟩ := List.mem_filterMap.1 member
    exact within_of_row sized inside stored (.inr made)
  · obtain ⟨j, bounds, bounded, own⟩ := mem_boundRows_iff.1 member
    have below := (List.getElem?_eq_some_iff.1 bounded).1
    rw [sized.columnCount] at below
    exact (fitsIn_boundRows below bounds row own).2

/-- What a problem is made into admits the vectors that meet its rows and its finite bounds. -/
theorem exists_assembled [IsStrictOrderedRing K] : ∃ form, problem.assembled = .ok form ∧
    form.n = problem.objective.length ∧ ∀ x : List K, form.Feasible x ↔
      ((∀ row ∈ problem.equalities, row.combined.slack (entryAt x) = 0) ∧
        ∀ row ∈ problem.rows.filterMap inequality?, 0 ≤ row.combined.slack (entryAt x)) ∧
      MeetsFinite problem.columnBounds x := by
  have minimized := Sense.length_toMinimize problem.sense problem.objective
  have ordered : (VariableOrder.identity problem.objective.length).size =
      (problem.sense.toMinimize problem.objective).length := by
    rw [minimized, VariableOrder.size_identity]
  have covered : problem.inequalities.length = problem.inequalities.length + [].sum := rfl
  obtain ⟨form, built⟩ :=
    StandardForm.exists_ofRows covered ordered problem.equalities problem.sense
  have made := StandardForm.madeOf_ofRows built
  refine ⟨form, built, (StandardForm.n_of_madeOf made).trans minimized, fun x => ?_⟩
  have rows := StandardForm.feasible_iff_combined made
    (by rw [minimized]; exact within_inequalities sized inside)
    (by rw [minimized]; exact within_equalities sized inside) x
  have columns : (∀ row ∈ problem.columnBounds.zipIdx.flatMap fun column =>
      boundRows (column.2 : ℤ) column.1, 0 ≤ row.combined.slack (entryAt x)) ↔
        MeetsFinite problem.columnBounds x := by
    refine Iff.trans (forall₂_congr fun row member => ?_) (forall_variableRows_iff x)
    obtain ⟨j, bounds, -, own⟩ := mem_boundRows_iff.1 member
    rw [combined_of_mem_boundRows own]
  rw [rows, List.map_nil, Cone.containsProduct_nil (by simp), List.forall_mem_map, inequalities,
    List.forall_mem_append, columns, and_assoc]

end Rows

/-- With the bounds of the variables a form admits what it admits without them, as long as the
finite ones are met. -/
theorem SameRows.standardForm_related [IsStrictOrderedRing K] {problem other : LinearProblem}
    (same : problem.SameRows other) (sized : problem.Sized) (also : other.Sized) :
    Related (fun form rowsOnly => rowsOnly.n = form.n ∧ ∀ x : List K,
      form.Feasible x ↔ rowsOnly.Feasible x ∧ MeetsFinite problem.columnBounds x)
      problem.standardForm other.standardForm := by
  refine LinearProblem.standardForm_related same.rowBounds (by rw [same.matrix]) fun inside => ?_
  obtain ⟨form, built, size, feasible⟩ := exists_assembled (K := K) sized inside
  obtain ⟨rowsOnly, alsoBuilt, alsoSize, rows⟩ :=
    exists_assembled (K := K) also (same.matrix ▸ inside)
  have table : other.rows = problem.rows := by
    rw [LinearProblem.rows, same.matrix, same.rowBounds, LinearProblem.rows]
  have free (x : List K) : MeetsFinite other.columnBounds x := by
    intro j bounds bounded
    obtain ⟨lower, upper⟩ := same.unbounded bounds (List.mem_of_getElem? bounded)
    simp [Bounds.AdmitsFinite, lower, upper]
  rw [built, alsoBuilt]
  refine ⟨by rw [size, alsoSize, same.objective], fun x => ?_⟩
  rw [feasible, rows, equalities, equalities, table, and_iff_left (free x)]

namespace Input

/-- Some variable has a bound that no number meets. -/
def Impossible (input : Input) : Prop :=
  .infinity false ∈ input.columnLower.numbers ∨ .infinity true ∈ input.columnUpper.numbers

/-- The problem without the bounds of its variables. -/
def rowsOnly (input : Input) : Input :=
  { input with
    columnLower := .ofVector (input.columnLower.numbers.map fun _ => .infinity true)
    columnUpper := .ofVector (input.columnUpper.numbers.map fun _ => .infinity false) }

theorem Impossible.not_feasible {input : Input} (impossible : input.Impossible)
    (lengths : input.columnUpper.numbers.length = input.columnLower.numbers.length) (x : List K) :
    ¬ input.program.Feasible x := by
  intro feasible
  have bounded {j : ℕ} (below : j < input.columnLower.numbers.length) :
      (Bounds.mk input.columnLower.numbers[j] input.columnUpper.numbers[j]).Admits
        (x.getD j 0) := by
    refine feasible.columns j _ ?_
    simp [program, below, lengths]
  obtain lower | upper := impossible
  · obtain ⟨j, below, same⟩ := List.getElem_of_mem lower
    have least := (bounded below).1
    simp [same, Binary64.IsAtMost] at least
  · obtain ⟨j, below, same⟩ := List.getElem_of_mem upper
    have greatest := (bounded (lengths ▸ below)).2
    simp [same, Binary64.IsAtLeast] at greatest

variable {input : Input} (readable : input.Readable)
include readable

theorem Readable.rowsOnly : input.rowsOnly.Readable :=
  { readable with
    columnLower := ⟨_, Datum.toVector_ofVector _ _⟩
    columnUpper := ⟨_, Datum.toVector_ofVector _ _⟩ }

end Input

/-- The bounds of the variables decide nothing about whether a problem is accepted. If it is, then
the form admits what it admits without them, as long as the finite ones are met. -/
theorem load_rowsOnly [Machine] [IsStrictOrderedRing K] {input : Input}
    (readable : input.Readable) :
    Related (fun form rowsOnly => rowsOnly.n = form.n ∧ ∀ x : List K,
      form.Feasible x ↔ rowsOnly.Feasible x ∧ MeetsFinite input.program.columnBounds x)
      (load input) (load input.rowsOnly) := by
  obtain ⟨way, sense⟩ := readable.sense
  have alsoSense : Sense.ofDatum input.rowsOnly.sense = .ok way := sense
  have lower : input.rowsOnly.columnLower.numbers =
      input.columnLower.numbers.map fun _ => .infinity true :=
    Datum.numbers_of_toEntries (Datum.toEntries_ofVector _)
  have upper : input.rowsOnly.columnUpper.numbers =
      input.columnUpper.numbers.map fun _ => .infinity false :=
    Datum.numbers_of_toEntries (Datum.toEntries_ofVector _)
  have count : input.rowsOnly.columnCount = input.columnCount := by
    rw [Input.columnCount, lower, List.length_map, Input.columnCount]
  have lengths : input.rowsOnly.checkLengths = input.checkLengths := by
    rw [Input.checkLengths, Input.checkLengths, count, upper, List.length_map]
    rfl
  have table : input.rowsOnly.readMatrix = input.readMatrix := by
    rw [Input.readMatrix, Input.readMatrix, count]
    rfl
  rw [load_eq_of_readable readable sense, load_eq_of_readable readable.rowsOnly alsoSense, lengths,
    table]
  refine (Outcome.related_eq _).bind fun _ _ checked _ _ => ?_
  refine (Outcome.related_eq _).bind fun matrix _ read _ same => ?_
  cases same
  obtain ⟨columns, -, objective⟩ := Input.checkLengths_eq_ok_iff.1 checked
  have colCount : matrix.cols = input.objective.numbers.length :=
    (Datum.shape_toRows read).2.trans objective.symm
  have same : (input.problem matrix way).SameRows (input.rowsOnly.problem matrix way) := by
    refine ⟨rfl, rfl, rfl, rfl, fun bounds member => ?_⟩
    obtain ⟨j, below, rfl⟩ := List.getElem_of_mem member
    simp [Input.problem, Input.program, lower, upper, Binary64.isFinite]
  refine same.standardForm_related ⟨colCount, ?_⟩ ⟨colCount, ?_⟩
  · simp [Input.problem, Input.program, columns, objective, Input.columnCount]
  · have kept : input.rowsOnly.objective = input.objective := rfl
    simp [Input.problem, Input.program, lower, upper, columns, kept, objective, Input.columnCount]

variable (K) in
/-- What is given is refused with a message, or made into a form that admits nothing. -/
def Guarded (outcome : Except Fault StandardForm) : Prop :=
  (∃ refusal, Refused refusal outcome) ∨
    ∃ form, outcome = .ok form ∧ ∀ x : List K, x.length = form.n → ¬ form.Feasible x

/-- With its matrix read or refused for its shape, a problem is accepted or refused with a message.
-/
theorem exists_refused_or_ok [Machine] {input : Input} (readable : input.Readable)
    (matrix : input.matrix.HasExtents) (room : input.Aligned → input.matrix.HasRoom) :
    (∃ refusal, Refused refusal (load input)) ∨ ∃ form, load input = .ok form := by
  obtain ⟨way, sense⟩ := readable.sense
  rw [load_eq_of_readable readable sense]
  by_cases aligned : input.Aligned
  · have checked : input.checkLengths = .ok () := Input.checkLengths_eq_ok_iff.2 aligned
    rw [checked, Input.readMatrix]
    obtain ⟨lines, read, inside⟩ | refused :=
      matrix.toRows (room aligned) input.rowCount input.columnCount
    · have decided := decides_standardForm (input.problem lines way) inside
      rw [read]
      split at decided
      · exact .inl ⟨.constraint, decided⟩
      · exact .inr decided
    · exact .inl ⟨.length, refused.bind _⟩
  · have refused := input.onlyRefused_checkLengths.refused fun value checked =>
      aligned (Input.checkLengths_eq_ok_iff.1 checked)
    exact .inl ⟨.length, refused.bind _⟩

/-- A problem with an impossible bound is refused, or its form admits nothing, exactly if no vector
meets both its rows and its finite bounds. All that can go wrong besides is that there is no room
for the rows of its matrix. -/
theorem guarded_iff [Machine] [IsStrictOrderedRing K] {input : Input} (readable : input.Readable)
    (matrix : input.matrix.HasExtents) (impossible : input.Impossible) :
    (input.Aligned → ∀ x : List K, ¬ input.program.Feasible x) ∧
    (Guarded K (load input) ↔ (input.Aligned → input.matrix.HasRoom) ∧
      ¬ ∃ (rowsOnly : StandardForm) (x : List K), load input.rowsOnly = .ok rowsOnly ∧
        x.length = rowsOnly.n ∧ rowsOnly.Feasible x ∧
          MeetsFinite input.program.columnBounds x) := by
  refine ⟨fun aligned => impossible.not_feasible aligned.1, ?_⟩
  have related := load_rowsOnly (K := K) readable
  by_cases room : input.Aligned → input.matrix.HasRoom
  · rw [and_iff_right room]
    obtain refused | ⟨form, loaded⟩ := exists_refused_or_ok readable matrix room
    · refine iff_of_true (.inl refused) ?_
      rintro ⟨rowsOnly, _, alsoLoaded, _⟩
      obtain ⟨form, loaded⟩ := related.exists_iff.2 ⟨rowsOnly, alsoLoaded⟩
      obtain ⟨_, _, failed, _⟩ := refused
      rw [loaded] at failed
      cases failed
    · obtain ⟨rowsOnly, alsoLoaded⟩ := related.exists_iff.1 ⟨form, loaded⟩
      rw [loaded, alsoLoaded] at related
      obtain ⟨size, feasible⟩ := related
      constructor
      · rintro (⟨_, _, failed, _⟩ | ⟨other, given, none⟩) ⟨other', x, also, length, meets⟩
        · rw [loaded] at failed
          cases failed
        · cases loaded.symm.trans given
          cases alsoLoaded.symm.trans also
          exact none x (length.trans size) ((feasible x).2 meets)
      · intro none
        refine .inr ⟨form, loaded, fun x length admitted => none ?_⟩
        exact ⟨rowsOnly, x, alsoLoaded, length.trans size.symm, (feasible x).1 admitted⟩
  · -- the matrix is not read, which no message explains
    obtain ⟨aligned, full⟩ := Classical.not_imp.1 room
    have typed : input.Typed := { readable with matrix := matrix.filled full }
    have unread := load_of_not_hasRoom typed full
    rw [if_pos aligned] at unread
    obtain ⟨cause, failed, -⟩ := unread
    refine iff_of_false ?_ fun both => room both.1
    rintro (⟨_, fault, refused, own⟩ | ⟨form, loaded, -⟩)
    · cases failed.symm.trans refused
      cases own
    · cases failed.symm.trans loaded

/-- Two variables of which the sum is at most four, under some bounds. The first variable would have
to be beyond all numbers. -/
def Input.beyond (lower upper : Int) : Input where
  matrix := .list [.list [.integer 1, .integer 1]]
  columnLower := .list [.real (.infinity false), .integer lower]
  columnUpper := .list [.real (.infinity false), .integer upper]
  objective := .list [.integer 1, .integer 1]
  rowLower := .list [.real (.infinity true)]
  rowUpper := .list [.integer 4]
  sense := .sense .minimize

/-- The finite bounds of the second variable exclude each other, which is all that the form shows.
-/
theorem guarded_crossed : Guarded ℚ (load (.beyond 1 0)) := by
  have readable : (Input.beyond 1 0).Readable := by
    refine ⟨⟨.minimize, rfl⟩, ?_, ?_, ?_, ?_, ?_⟩
    all_goals exact Outcome.exists_of_isSome (by decide +kernel)
  obtain ⟨array, read, shape⟩ : ∃ array,
      NumberArray.ofDatum (Input.beyond 1 0).matrix = .ok array ∧ array.shape = [1, 2] :=
    Outcome.exists_of_toOption_map (by decide +kernel)
  refine (guarded_iff readable (.dense read shape) (.inl (by decide +kernel))).2.2
    ⟨fun _ => trivial, ?_⟩
  rintro ⟨_, x, _, _, _, meets⟩
  have between := meets 1 ⟨.one, .zero⟩ (by decide +kernel)
  have least : (1 : ℚ) ≤ x.getD 1 0 := by simpa using between.1 rfl
  have greatest : x.getD 1 0 ≤ (0 : ℚ) := by simpa using between.2 rfl
  linarith

/-- The bound of the first variable is dropped, and the form admits zeros. -/
theorem exists_dropped : ∃ form, load (.beyond 0 9) = .ok form ∧
    form.n = 2 ∧ form.Feasible ([0, 0] : List ℚ) ∧
      ∀ x : List ℚ, ¬ (Input.beyond 0 9).program.Feasible x := by
  obtain ⟨form, loaded, facts⟩ : ∃ form, load (.beyond 0 9) = .ok form ∧
      (form.n, form.sizes, form.p, decide (∀ r < form.m,
        form.G.product ([0, 0] : List ℚ) r ≤ (form.h.getD r .zero).toRat)) = (2, [], 0, true) :=
    Outcome.exists_of_toOption_map (by decide +kernel)
  simp only [Prod.mk.injEq, decide_eq_true_eq] at facts
  obtain ⟨size, sizes, none, least⟩ := facts
  refine ⟨form, loaded, size,
    (StandardForm.feasible_iff_of_sizes_nil sizes (npos_of_load loaded) _).2 ⟨?_, least⟩, ?_⟩
  · simp [none]
  · exact Input.Impossible.not_feasible (.inl (by decide +kernel)) (by decide +kernel)

end LinearProblem
end ConicForm
