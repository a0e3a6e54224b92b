import ConicForm.Proofs.ComparedProblems

/-! A problem that is maximized, and the problem with the opposite objective that is minimized. Both
are accepted or neither is, and their forms differ in the sense only. A solver cannot tell them
apart, and what it replies means the same values of the same variables, with opposite objectives. -/
namespace ConicForm

open Outcome (Related)

/-- Two arrays of one shape with opposite numbers. -/
structure NumberArray.Opposes (array other : NumberArray) : Prop where
  shape : other.shape = array.shape
  entries : other.entries = array.entries.map (- ·)

namespace Datum

/-- Two values that are read as opposite arrays. -/
def Opposes (d other : Datum) : Prop := ∃ array opposite, NumberArray.ofDatum d = .ok array ∧
  NumberArray.ofDatum other = .ok opposite ∧ array.Opposes opposite

variable {d other : Datum} (opposes : d.Opposes other)
include opposes

theorem toEntries_opposes :
    Related (fun costs negated => negated = costs.map (- ·)) d.toEntries other.toEntries := by
  obtain ⟨array, opposite, read, also, own⟩ := opposes
  rw [toEntries, toEntries, read, also]
  exact own.entries

theorem toVector_opposes (name : String) : Related (fun costs negated => negated = costs.map (- ·))
    (d.toVector name) (other.toVector name) := by
  obtain ⟨array, opposite, read, also, own⟩ := opposes
  have dimensions : opposite.dimensions = array.dimensions := congrArg List.length own.shape
  simp only [toVector, read, also, Except.bind, dimensions, own.shape]
  by_cases flat : 1 < array.dimensions
  · rw [if_pos flat, if_pos flat]
    exact rfl
  · rw [if_neg flat, if_neg flat]
    exact own.entries

end Datum

/-- The second form is the first one, minimized instead of maximized. -/
structure StandardForm.Mirrors (form other : StandardForm) : Prop where
  sense : form.sense = .maximize
  same : other = { form with sense := .minimize }

/-- Two solutions that differ in nothing but the sign of the objective. -/
structure Solution.Mirrors (solution other : Solution) : Prop where
  status : other.status = solution.status
  objective : other.objective = -solution.objective
  x : other.x = solution.x
  formX : other.formX = solution.formX
  iterations : other.iterations = solution.iterations
  info : other.info = solution.info

/-- The solver is called with the same data, and both fail in the same way or give the same values
with opposite objectives. -/
structure Attempt.Mirrors (attempt other : Attempt) : Prop where
  call : other.call = attempt.call
  result : Related Solution.Mirrors attempt.result other.result

namespace StandardForm

theorem Mirrors.of_madeOf {form other : StandardForm} {npos : ℕ} {sizes : List ℕ}
    {inequalities equalities : List ConstraintRow} {objective : List Binary64}
    {order : VariableOrder}
    (made : form.MadeOf npos sizes inequalities equalities objective .maximize order)
    (also : other.MadeOf npos sizes inequalities equalities objective .minimize order) :
    form.Mirrors other := by
  have turned : StandardForm.MadeOf { form with sense := .minimize } npos sizes inequalities
      equalities objective .minimize order :=
    { made with sense := rfl }
  exact ⟨made.sense, also.unique turned⟩

/-- Forms that are made of the same rows with the same objective. -/
theorem ofRows_mirrors {npos : ℕ} {sizes : List ℕ} {inequalities : List ConstraintRow}
    {objective : List Binary64} {order : VariableOrder}
    (covered : inequalities.length = npos + sizes.sum) (sized : order.size = objective.length)
    (equalities : List ConstraintRow) :
    Related Mirrors
      (ofRows npos sizes inequalities equalities objective .maximize order)
      (ofRows npos sizes inequalities equalities objective .minimize order) := by
  obtain ⟨form, built⟩ := exists_ofRows covered sized equalities .maximize
  obtain ⟨other, also⟩ := exists_ofRows covered sized equalities .minimize
  rw [built, also]
  exact .of_madeOf (madeOf_ofRows built) (madeOf_ofRows also)

namespace Mirrors

variable {form other : StandardForm} (mirrors : form.Mirrors other)
include mirrors

theorem toSolution_related [Machine] (reply : Reply) :
    Related Solution.Mirrors (reply.toSolution form) (reply.toSolution other) := by
  obtain ⟨sense, rfl⟩ := mirrors
  cases reply with
  | raised name => exact rfl
  | answered solution info =>
    unfold Reply.toSolution
    refine (Outcome.related_eq _).bind fun info _ _ _ same => ?_
    cases same
    refine (Outcome.related_eq _).bind fun flag _ _ _ same => ?_
    cases same
    cases solution with
    | none => exact rfl
    | some solution =>
      refine (Outcome.related_eq _).bind fun formX _ _ _ same => ?_
      cases same
      split
      · refine (Outcome.related_eq _).bind fun x _ _ _ same => ?_
        cases same
        refine (Outcome.related_eq _).bind fun iterations _ _ _ same => ?_
        cases same
        refine ⟨rfl, ?_, rfl, rfl, rfl, rfl⟩
        -- The form that is minimized reports the product itself.
        show dot form.c formX = -form.sense.fromMinimum (dot form.c formX)
        rw [sense]
        exact (Binary64.neg_neg _).symm
      · exact rfl

theorem solve_mirrored [Machine] (options : Options) (reply : Reply) :
    (solve (some form) options reply).Mirrors (solve (some other) options reply) := by
  have call : other.call options = form.call options := by
    rw [mirrors.same]
    rfl
  unfold solve
  split
  · exact ⟨rfl, rfl⟩
  · show Attempt.Mirrors (if _ then _ else _) (if _ then _ else _)
    split
    · exact ⟨rfl, rfl⟩
    · exact ⟨congrArg some call, mirrors.toSolution_related reply⟩

end Mirrors
end StandardForm

namespace ConicProblem

/-- A problem that is maximized, and the one with the opposite objective that is minimized. -/
structure Mirrors (problem other : ConicProblem) : Prop where
  sense : problem.sense = .maximize
  same : other = { problem with
    objective := problem.objective.map (- ·)
    sense := .minimize }

/-- The costs are moved and then negated, or negated and then moved. -/
theorem map_movedObjective {problem : ConicProblem} {reverse : List ℕ}
    (perm : reverse.Perm (List.range problem.objective.length)) :
    reverse.map (fun i => (problem.objective.map (- ·))[i]?.getD .zero) =
      (problem.movedObjective reverse).map (- ·) := by
  rw [movedObjective, List.map_map]
  refine List.map_congr_left fun i member => ?_
  have below := List.mem_range.1 (perm.mem_iff.1 member)
  simp [below]

theorem Mirrors.standardForm_related {problem other : ConicProblem}
    (mirrors : problem.Mirrors other) :
    Related StandardForm.Mirrors problem.standardForm other.standardForm := by
  obtain ⟨sense, rfl⟩ := mirrors
  refine ConicProblem.standardForm_related rfl rfl rfl (List.length_map _) rfl
    fun reverse arranged _ _ => ?_
  have perm := VariableOrder.perm_of_arrange arranged
  have costs := map_movedObjective perm
  have covered := problem.length_inequalities (VariableOrder.place reverse)
  have sized : (VariableOrder.ofReverse reverse).size =
      ((problem.movedObjective reverse).map (- ·)).length := by
    rw [VariableOrder.size_ofReverse, List.length_map, movedObjective, List.length_map]
  have made := StandardForm.ofRows_mirrors covered sized
    (problem.equalityRows (VariableOrder.place reverse))
  unfold assembled
  rw [sense]
  show Related _ _ (StandardForm.ofRows _ _ _ _ (reverse.map fun i => _) _ _)
  rw [costs]
  exact made

variable (input : Input) {costs opposite maximize minimize : Datum}
  (opposes : costs.Opposes opposite) (upward : Sense.ofDatum maximize = .ok .maximize)
  (downward : Sense.ofDatum minimize = .ok .minimize)
include opposes upward downward

theorem read_mirrored [Machine] : Related Mirrors
    (read { input with objective := costs, sense := maximize })
    (read { input with objective := opposite, sense := minimize }) := by
  unfold read
  rw [upward, downward]
  refine (Outcome.related_eq (ConeList.readBoth _ _)).bind fun cones _ _ _ same => ?_
  cases same
  refine (Datum.toEntries_opposes opposes).bind fun costs _ _ _ same => ?_
  cases same
  refine (Outcome.related_eq _).bind fun bounds _ _ _ same => ?_
  cases same
  rw [List.length_map]
  refine (Outcome.related_eq _).bind fun matrix _ _ _ same => ?_
  cases same
  exact ⟨rfl, rfl⟩

theorem load_mirrored [Machine] : Related StandardForm.Mirrors
    (load { input with objective := costs, sense := maximize })
    (load { input with objective := opposite, sense := minimize }) :=
  (read_mirrored input opposes upward downward).bind fun _ _ _ _ mirrors =>
    mirrors.standardForm_related

end ConicProblem

namespace LinearProblem

/-- A problem that is maximized, and the one with the opposite objective that is minimized. -/
structure Mirrors (problem other : LinearProblem) : Prop where
  sense : problem.sense = .maximize
  same : other = { problem with
    objective := problem.objective.map (- ·)
    sense := .minimize }

theorem Mirrors.standardForm_related {problem other : LinearProblem}
    (mirrors : problem.Mirrors other) :
    Related StandardForm.Mirrors problem.standardForm other.standardForm := by
  obtain ⟨sense, rfl⟩ := mirrors
  refine LinearProblem.standardForm_related rfl rfl fun _ => ?_
  have size : (problem.objective.map (- ·)).length = problem.objective.length := List.length_map _
  have covered : problem.inequalities.length = problem.inequalities.length + [].sum := rfl
  have sized : (VariableOrder.identity problem.objective.length).size =
      (problem.objective.map (- ·)).length := by
    rw [VariableOrder.size_identity, size]
  have made := StandardForm.ofRows_mirrors covered sized problem.equalities
  unfold assembled
  rw [sense, size]
  exact made

variable (input : Input) {costs opposite maximize minimize : Datum}
  (opposes : costs.Opposes opposite) (upward : Sense.ofDatum maximize = .ok .maximize)
  (downward : Sense.ofDatum minimize = .ok .minimize)
include opposes upward downward

theorem read_mirrored [Machine] : Related Mirrors
    (read { input with objective := costs, sense := maximize })
    (read { input with objective := opposite, sense := minimize }) := by
  unfold read
  rw [upward, downward]
  refine (Outcome.related_eq (input.columnLower.toVector "collb")).bind fun _ _ _ _ same => ?_
  cases same
  refine (Outcome.related_eq _).bind fun _ _ _ _ same => ?_
  cases same
  refine (Outcome.related_eq _).bind fun _ _ _ _ same => ?_
  cases same
  refine (Outcome.related_eq _).bind fun _ _ _ _ same => ?_
  cases same
  refine (Datum.toVector_opposes opposes "obj").bind fun costs _ _ _ same => ?_
  cases same
  rw [List.length_map]
  refine (Outcome.related_eq _).bind fun _ _ _ _ _ => ?_
  refine (Outcome.related_eq _).bind fun _ _ _ _ _ => ?_
  refine (Outcome.related_eq _).bind fun _ _ _ _ _ => ?_
  refine (Outcome.related_eq _).bind fun _ _ _ _ same => ?_
  cases same
  exact ⟨rfl, rfl⟩

theorem load_mirrored [Machine] : Related StandardForm.Mirrors
    (load { input with objective := costs, sense := maximize })
    (load { input with objective := opposite, sense := minimize }) :=
  (read_mirrored input opposes upward downward).bind fun _ _ _ _ mirrors =>
    mirrors.standardForm_related

end LinearProblem

/-- Both loads fail in the same way or give forms that differ in the sense only. On such forms a
solver is called with the same data, and every reply means the same, with opposite objectives. -/
def MirroredLoads [Machine] (outcome other : Except Fault StandardForm) : Prop :=
  Related (fun form mirrored => form.Mirrors mirrored ∧ ∀ options reply,
    (StandardForm.solve (some form) options reply).Mirrors
      (StandardForm.solve (some mirrored) options reply)) outcome other

/-- To maximize an objective is to minimize the opposite one, for every problem of either kind. -/
theorem mirroredLoads_of_opposes [Machine] {costs opposite maximize minimize : Datum}
    (opposes : costs.Opposes opposite) (upward : Sense.ofDatum maximize = .ok .maximize)
    (downward : Sense.ofDatum minimize = .ok .minimize) :
    (∀ input : ConicProblem.Input, MirroredLoads
      (ConicProblem.load { input with objective := costs, sense := maximize })
      (ConicProblem.load { input with objective := opposite, sense := minimize })) ∧
    ∀ input : LinearProblem.Input, MirroredLoads
      (LinearProblem.load { input with objective := costs, sense := maximize })
      (LinearProblem.load { input with objective := opposite, sense := minimize }) := by
  have solved {outcome other : Except Fault StandardForm}
      (loads : Related StandardForm.Mirrors outcome other) : MirroredLoads outcome other :=
    loads.imp fun form mirrored mirrors => ⟨mirrors, mirrors.solve_mirrored⟩
  constructor
  · exact fun input => solved (ConicProblem.load_mirrored input opposes upward downward)
  · exact fun input => solved (LinearProblem.load_mirrored input opposes upward downward)

theorem opposes_pair : (Datum.list [.integer 2, .integer 1]).Opposes
    (.list [.real (.ofRat (-2)), .integer (-1)]) := by
  obtain ⟨array, read, arrayIs⟩ : ∃ array,
      NumberArray.ofDatum (.list [.integer 2, .integer 1]) = .ok array ∧
        (array.shape, array.entries) = ([2], [.ofRat 2, .one]) :=
    Outcome.exists_of_toOption_map (by decide +kernel)
  obtain ⟨other, also, otherIs⟩ : ∃ array,
      NumberArray.ofDatum (.list [.real (.ofRat (-2)), .integer (-1)]) = .ok array ∧
        (array.shape, array.entries) = ([2], [.ofRat (-2), -.one]) :=
    Outcome.exists_of_toOption_map (by decide +kernel)
  obtain ⟨shape, entries⟩ := Prod.mk.inj arrayIs
  obtain ⟨otherShape, otherEntries⟩ := Prod.mk.inj otherIs
  refine ⟨array, other, read, also, otherShape.trans shape.symm, ?_⟩
  rw [otherEntries, entries]
  decide +kernel

/-- The problem whose variables change places, minimized with the opposite objective. -/
theorem mirroredLoads_swapped : ∃ form mirrored,
    ConicProblem.load .swapped = .ok form ∧
    ConicProblem.load { ConicProblem.Input.swapped with
      objective := .list [.real (.ofRat (-2)), .integer (-1)]
      sense := .sense .minimize } = .ok mirrored ∧
    form.Mirrors mirrored := by
  obtain ⟨form, loaded, _⟩ := ConicProblem.load_swapped
  have upward : Sense.ofDatum (.sense .maximize) = .ok .maximize := rfl
  have downward : Sense.ofDatum (.sense .minimize) = .ok .minimize := rfl
  obtain ⟨conic, -⟩ := mirroredLoads_of_opposes opposes_pair upward downward
  have loads := conic .swapped
  rw [show { ConicProblem.Input.swapped with
    objective := Datum.list [.integer 2, .integer 1]
    sense := .sense .maximize } = ConicProblem.Input.swapped from rfl] at loads
  obtain ⟨mirrored, also⟩ := loads.exists_iff.1 ⟨form, loaded⟩
  rw [loaded, also] at loads
  exact ⟨form, mirrored, loaded, also, loads.1⟩

end ConicForm
