import ConicForm.Proofs.ConicRows

/-! The standard form of a conic problem means what the problem means: a vector is feasible for the
problem exactly when the form admits it in the order of the form, and the objectives agree up to the
sign of the sense. -/
namespace ConicForm

variable {K : Type*} [Field K]

/-- A conic problem over the rationals. -/
structure ConicProgram where
  objective : List ℚ
  coefficient : ℕ → ℕ → ℚ
  bounds : List ℚ
  rowCones : List ConeEntry
  variableCones : List ConeEntry

namespace ConicProgram

/-- What a constraint row leaves of its right-hand side. -/
def slack (program : ConicProgram) (x : List K) (i : ℤ) : K :=
  ((entryAt program.bounds i : ℚ) : K) -
    ∑ j ∈ Finset.range program.objective.length,
      (program.coefficient i.toNat j : K) * x.getD j 0

/-- The vector meets all constraints. Rows without a cone are equalities. -/
structure Feasible [LinearOrder K] (program : ConicProgram) (x : List K) : Prop where
  rows : ∀ entry ∈ program.rowCones, entry.1.Contains (entry.2.map (program.slack x))
  equalities : ∀ i < program.bounds.length,
    (i : ℤ) ∉ VariableOrder.listed program.rowCones → program.slack x i = 0
  columns : ∀ entry ∈ program.variableCones, entry.1.Contains (entry.2.map (entryAt x))

end ConicProgram

namespace ConicProblem

/-- The problem that a caller gives, with the rationals that its numbers stand for. -/
def Input.program [Machine] (input : Input) : ConicProgram where
  objective := rationals input.objective.numbers
  coefficient := input.matrix.numberAt input.objective.numbers.length
  bounds := rationals input.bounds.numbers
  rowCones := ConeList.entriesOf input.rowCones
  variableCones := ConeList.entriesOf input.variableCones

/-- All numbers are finite, and no position of the matrix is stored twice. -/
structure Input.Exact (input : Input) : Prop where
  objective : input.objective.FiniteVector
  bounds : input.bounds.FiniteVector
  matrix : input.matrix.FiniteMatrix
  once : input.matrix.StoresOnce

/-- What a problem has been read from. -/
structure Input.ReadAs [Machine] (input : Input) (problem : ConicProblem) : Prop where
  sense : Sense.ofDatum input.sense = .ok problem.sense
  rowCones : ConeList.entriesOf input.rowCones = problem.rowCones
  variableCones : ConeList.entriesOf input.variableCones = problem.variableCones
  accepted : ConeList.Accepted problem.rowCones problem.variableCones
  objective : input.objective.numbers = problem.objective
  bounds : input.bounds.numbers = problem.bounds
  matrix : input.matrix.toRows (.integer problem.bounds.length)
    (.integer problem.objective.length) =
    .ok problem.matrix

/-- A problem is read part by part. -/
theorem read_eq_ok_iff [Machine] {input : Input} {problem : ConicProblem} :
    read input = .ok problem ↔
    Sense.ofDatum input.sense = .ok problem.sense ∧
      ConeList.readBoth input.rowCones input.variableCones =
        .ok (problem.rowCones, problem.variableCones) ∧
      input.objective.toEntries = .ok problem.objective ∧
      input.bounds.toEntries = .ok problem.bounds ∧
      input.matrix.toRows (.integer problem.bounds.length) (.integer problem.objective.length) =
        .ok problem.matrix := by
  constructor
  · intro given
    obtain ⟨sense, readSense, given⟩ := Outcome.andThen_eq_ok_iff.1 given
    obtain ⟨⟨rowCones, variableCones⟩, readCones, given⟩ := Outcome.andThen_eq_ok_iff.1 given
    obtain ⟨objective, readObjective, given⟩ := Outcome.andThen_eq_ok_iff.1 given
    obtain ⟨bounds, readBounds, given⟩ := Outcome.andThen_eq_ok_iff.1 given
    obtain ⟨matrix, readMatrix, given⟩ := Outcome.andThen_eq_ok_iff.1 given
    cases given
    exact ⟨readSense, readCones, readObjective, readBounds, readMatrix⟩
  · rintro ⟨sense, cones, objective, bounds, matrix⟩
    simp only [read, sense, cones, objective, bounds, matrix, bind, Except.bind, pure, Except.pure]

theorem readAs_of_read [Machine] {input : Input} {problem : ConicProblem}
    (given : read input = .ok problem) : input.ReadAs problem := by
  obtain ⟨sense, cones, objective, bounds, matrix⟩ := read_eq_ok_iff.1 given
  obtain ⟨rows, columns, accepted⟩ := ConeList.readBoth_eq_ok cones
  exact ⟨sense, rows, columns, accepted, Datum.numbers_of_toEntries objective,
    Datum.numbers_of_toEntries bounds, matrix⟩

section Read

variable [Machine] {input : Input} {problem : ConicProblem} {reverse : List ℕ} {form : StandardForm}
  (given : input.ReadAs problem) (exact : input.Exact)
include given exact

theorem represents_of_readAs :
    problem.matrix.Represents problem.bounds.length problem.objective.length
      (input.matrix.numberAt problem.objective.length) :=
  Datum.represents_toRows exact.once given.matrix

theorem regular_of_readAs : problem.Regular :=
  ⟨(represents_of_readAs given exact).colCount, (represents_of_readAs given exact).distinct_row,
    given.accepted⟩

theorem slack_of_readAs [CharZero K] (placed : problem.Placed reverse form) (x : List K) {i : ℤ}
    (lower : 0 ≤ i) (upper : i < (problem.bounds.length : ℤ)) :
    input.program.slack x i = problem.slack x i := by
  have below : i.toNat < problem.bounds.length := by omega
  rw [slack, (represents_of_readAs given exact).product_row placed.inside below]
  simp only [ConicProgram.slack, Input.program, given.bounds, given.objective, length_rationals,
    entryAt, getD_rationals]

/-- What is feasible for the given problem meets the constraints of the problem that was read. -/
theorem feasible_of_readAs [LinearOrder K] [IsStrictOrderedRing K]
    (placed : problem.Placed reverse form) (x : List K) :
    input.program.Feasible x ↔
      (∀ entry ∈ problem.rowCones, entry.1.Contains (entry.2.map (problem.slack x))) ∧
        (∀ i < problem.bounds.length,
          (i : ℤ) ∉ VariableOrder.listed problem.rowCones → problem.slack x (i : ℤ) = 0) ∧
        ∀ entry ∈ problem.variableCones, entry.1.Contains (entry.2.map (entryAt x)) := by
  have rowCones : input.program.rowCones = problem.rowCones := given.rowCones
  have variableCones : input.program.variableCones = problem.variableCones := given.variableCones
  have bounds : input.program.bounds.length = problem.bounds.length := by
    simp [Input.program, given.bounds]
  have rows : (∀ entry ∈ problem.rowCones,
      entry.1.Contains (entry.2.map (input.program.slack x))) ↔
      ∀ entry ∈ problem.rowCones, entry.1.Contains (entry.2.map (problem.slack x)) := by
    apply forall₂_congr
    intro entry member
    rw [List.map_congr_left fun i own => ?_]
    obtain ⟨lower, upper⟩ := placed.rows i (mem_listed member own)
    exact slack_of_readAs given exact placed x lower upper
  have equalities : (∀ i < problem.bounds.length,
      (i : ℤ) ∉ VariableOrder.listed problem.rowCones → input.program.slack x (i : ℤ) = 0) ↔
      ∀ i < problem.bounds.length,
        (i : ℤ) ∉ VariableOrder.listed problem.rowCones → problem.slack x (i : ℤ) = 0 := by
    apply forall₂_congr
    intro i below
    rw [slack_of_readAs given exact placed x (by omega) (by omega)]
  rw [← rows, ← equalities]
  constructor
  · intro feasible
    have feasibleRows := feasible.rows
    have feasibleEqualities := feasible.equalities
    have feasibleColumns := feasible.columns
    rw [rowCones] at feasibleRows feasibleEqualities
    rw [bounds] at feasibleEqualities
    rw [variableCones] at feasibleColumns
    exact ⟨feasibleRows, feasibleEqualities, feasibleColumns⟩
  · rintro ⟨feasibleRows, feasibleEqualities, feasibleColumns⟩
    constructor
    · rwa [rowCones]
    · rwa [rowCones, bounds]
    · rwa [variableCones]

end Read

variable (K) in
theorem restates_of_load [Machine] [LinearOrder K] [IsStrictOrderedRing K] {input : Input}
    {form : StandardForm} (loaded : load input = .ok form) (exact : input.Exact) :
    form.Restates (K := K) input.program.Feasible input.program.objective ∧
      Sense.ofDatum input.sense = .ok form.sense := by
  obtain ⟨problem, read, built⟩ := Outcome.bind_eq_ok_iff.1 loaded
  have given := readAs_of_read read
  have regular := regular_of_readAs given exact
  obtain ⟨reverse, placed⟩ := placed_of_standardForm built
  have order := placed.made.order
  have n : form.n = problem.objective.length := by
    rw [StandardForm.n_of_madeOf placed.made, Sense.length_toMinimize, movedObjective,
      List.length_map, placed.perm.length_eq, List.length_range]
  have objective : input.program.objective = rationals problem.objective := by
    rw [Input.program, given.objective]
  have orthant : form.orthant = .integer form.npos := by
    rw [placed.made.npos, placed.made.orthant]
  refine ⟨⟨⟨reverse, n ▸ placed.perm, order⟩, orthant, ?_, fun x _ => ?_, fun x size => ?_⟩, ?_⟩
  · rw [objective, length_rationals, n]
  · rw [order, feasible_of_readAs given exact placed, feasible_iff_of_placed regular placed]
  · have moved : rationals (problem.movedObjective reverse) =
        reverse.map fun i => (rationals problem.objective).getD i 0 := by
      simp only [getD_rationals]
      simp [rationals, movedObjective, List.getD_eq_getElem?_getD]
    rw [order, placed.made.c, placed.made.sense, Sense.exactDot_toMinimize, moved,
      VariableOrder.exactDot_toForm placed.perm _ _ (by simp) (by omega), objective]
  · rw [placed.made.sense]
    exact given.sense

/-- Two variables that change places, an equality, and an inequality that is negated. -/
def Input.swapped : Input where
  objective := .list [.integer 2, .integer 1]
  matrix := .list [.list [.integer 1, .integer 1], .list [.integer 0, .integer 1]]
  bounds := .list [.integer 3, .integer 1]
  rowCones := ConeList.toDatum [(.nonpos, [1])]
  variableCones := ConeList.toDatum [(.free, [0]), (.nonneg, [1])]
  sense := .sense .maximize

theorem Input.exact_swapped : Input.swapped.Exact where
  objective := by unfold Datum.FiniteVector; decide +kernel
  bounds := by unfold Datum.FiniteVector; decide +kernel
  matrix := by unfold Datum.FiniteMatrix Datum.FiniteVector Input.swapped; decide +kernel
  once := trivial

theorem load_swapped : ∃ form, load .swapped = .ok form ∧ form.n = 2 :=
  Outcome.exists_of_toOption_map (by decide +kernel)

/-- A vector is feasible for a problem if and only if the form admits it in its order, and the
minimized objective is the caller's up to the sign of the sense. -/
theorem feasible_iff_of_load [Machine] [LinearOrder K] [IsStrictOrderedRing K] {input : Input}
    {form : StandardForm} (loaded : load input = .ok form) (exact : input.Exact) (x : List K)
    (size : x.length = form.n) :
    (input.program.Feasible x ↔ form.Feasible (form.order.toForm x)) ∧
      exactDot (rationals form.c) (form.order.toForm x) =
        (form.sense.sign : K) * exactDot input.program.objective x ∧
      Sense.ofDatum input.sense = .ok form.sense := by
  obtain ⟨restates, sense⟩ := restates_of_load K loaded exact
  exact ⟨restates.feasible_iff x size, restates.objective_eq x size, sense⟩

theorem feasible_iff_of_swapped : ∃ form, load .swapped = .ok form ∧
    (Input.swapped.program.Feasible ([2, 1] : List ℚ) ↔
      form.Feasible (form.order.toForm ([2, 1] : List ℚ))) ∧
    exactDot (rationals form.c) (form.order.toForm ([2, 1] : List ℚ)) =
      (form.sense.sign : ℚ) * exactDot Input.swapped.program.objective ([2, 1] : List ℚ) := by
  obtain ⟨form, loaded, size⟩ := load_swapped
  obtain ⟨feasible, objective, _⟩ :=
    feasible_iff_of_load loaded Input.exact_swapped ([2, 1] : List ℚ) size.symm
  exact ⟨form, loaded, feasible, objective⟩

end ConicProblem
end ConicForm
