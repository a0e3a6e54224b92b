import ConicForm.Proofs.ConicFeasibility
import ConicForm.Proofs.LinearFeasibility
import ConicForm.Proofs.SessionSteps

/-! What a solver finds is carried back to the caller. If its reply minimizes what the call asked
for, the returned solution is optimal for the problem that was loaded, in the caller's own sense,
and the reported objective is the caller's. -/
namespace ConicForm

variable {K : Type*} [Field K] [LinearOrder K]

/-- Feasible, and no worse than anything feasible. -/
def Sense.Optimal (sense : Sense) (feasible : List K → Prop) (value : List K → K) (x : List K) :
    Prop :=
  feasible x ∧ ∀ z, feasible z →
    match sense with
    | .minimize => value x ≤ value z
    | .maximize => value z ≤ value x

namespace SolverCall

/-- The rows of the orthant, which a solver takes from the dimensions that it is handed. -/
def orthantRows (call : SolverCall) : ℤ :=
  ((call.dims.lookup "l").bind Datum.exactInteger?).getD 0

/-- The sizes of the second-order cones, from the same dimensions. -/
def coneSizes (call : SolverCall) : List ℤ :=
  match call.dims.lookup "q" with
  | some (.list sizes) => sizes.filterMap Datum.exactInteger?
  | _ => []

/-- What the arguments of a call describe. Without equalities there are none to meet. -/
structure Feasible (call : SolverCall) (y : List K) : Prop where
  size : y.length = call.c.length
  equalities : ∀ A b, call.equalities = some (A, b) →
    ∀ i < A.rows, A.product y i = ((b.getD i .zero).toRat : K)
  cone : Cone.ContainsProduct call.orthantRows call.coneSizes (slacks call.G call.h y)

def Minimizes (call : SolverCall) (y : List K) : Prop :=
  Sense.minimize.Optimal call.Feasible (exactDot (rationals call.c)) y

end SolverCall

namespace StandardForm

/-- The dimensions of a call are those of its form. -/
theorem dims_call {form : StandardForm} (orthant : form.orthant = .integer form.npos)
    (options : Options) : (form.call options).orthantRows = form.npos ∧
      (form.call options).coneSizes = form.sizes := by
  constructor
  · simp [SolverCall.orthantRows, call, dims, orthant, Datum.exactInteger?]
  · have read : (form.sizes.map Datum.integer).filterMap Datum.exactInteger? = form.sizes := by
      rw [List.filterMap_map]
      exact List.filterMap_some
    have listed : (form.call options).dims.lookup "q" =
        some (.list (form.sizes.map .integer)) := rfl
    rw [SolverCall.coneSizes, listed]
    exact read

theorem feasible_call_iff {form : StandardForm} (orthant : form.orthant = .integer form.npos)
    (options : Options) (y : List K) :
    (form.call options).Feasible y ↔ y.length = form.n ∧ form.Feasible y := by
  have size : form.c.length = form.n := form.objectiveLength
  have equalities : (∀ A b, (form.call options).equalities = some (A, b) →
      ∀ i < A.rows, A.product y i = ((b.getD i .zero).toRat : K)) ↔
      ∀ i < form.p, form.A.product y i = ((form.b.getD i .zero).toRat : K) := by
    by_cases absent : form.p = 0
    · simp [call, absent]
    · have handed : (form.call options).equalities = some (form.A, form.b) := by
        simp [call, absent]
      rw [handed]
      constructor
      · intro all
        exact all form.A form.b rfl
      · rintro all A b same
        cases same
        exact all
  obtain ⟨npos, sizes⟩ := dims_call orthant options
  have cone : Cone.ContainsProduct (form.call options).orthantRows (form.call options).coneSizes
      (slacks (form.call options).G (form.call options).h y) ↔
        Cone.ContainsProduct form.npos form.sizes (slacks form.G form.h y) := by
    rw [npos, sizes]
    rfl
  constructor
  · intro feasible
    have sized := feasible.size
    exact ⟨sized.trans size, equalities.1 feasible.equalities, cone.1 feasible.cone⟩
  · rintro ⟨sized, feasible⟩
    exact ⟨sized.trans size.symm, equalities.2 feasible.equalities, cone.2 feasible.cone⟩

/-- The form of a problem carries optima over and back: what is minimal for a call is optimal for
the caller. -/
theorem Restates.minimizes_iff_optimal [IsStrictOrderedRing K] {form : StandardForm}
    {feasible : List K → Prop} {objective : List ℚ} (restates : form.Restates feasible objective)
    (options : Options) {x : List K} (size : x.length = form.n) :
    (form.call options).Minimizes (form.order.toForm x) ↔
      form.sense.Optimal (fun z => z.length = form.n ∧ feasible z) (exactDot objective) x := by
  obtain ⟨reverse, perm, order⟩ := restates.arranged
  have admits {z : List K} (sized : z.length = form.n) :
      (form.call options).Feasible (form.order.toForm z) ↔ feasible z := by
    rw [feasible_call_iff restates.orthant, restates.feasible_iff z sized, order,
      VariableOrder.length_toForm perm]
    exact and_iff_right rfl
  have below {z : List K} (sized : z.length = form.n) :
      exactDot (rationals form.c) (form.order.toForm x) ≤
        exactDot (rationals form.c) (form.order.toForm z) ↔
      match form.sense with
      | .minimize => exactDot objective x ≤ exactDot objective z
      | .maximize => exactDot objective z ≤ exactDot objective x := by
    rw [restates.objective_eq x size, restates.objective_eq z sized]
    cases form.sense <;> simp [Sense.sign]
  constructor
  · rintro ⟨admitted, least⟩
    refine ⟨⟨size, (admits size).1 admitted⟩, ?_⟩
    rintro z ⟨sized, member⟩
    exact (below sized).1 (least _ ((admits sized).2 member))
  · rintro ⟨⟨_, member⟩, best⟩
    refine ⟨(admits size).2 member, fun y admitted => ?_⟩
    -- every vector of the call is one of the caller's in the order of the form
    have sizedToo := ((feasible_call_iff restates.orthant options y).1 admitted).1
    obtain ⟨z, sized, rfl⟩ := VariableOrder.exists_toForm_eq perm sizedToo
    rw [← order] at admitted ⊢
    exact (below sized).2 (best z ⟨sized, (admits sized).1 admitted⟩)

end StandardForm

namespace Given

def Exact : Given → Prop
  | .conic input => input.Exact
  | .linear input => input.Exact

def objective [Machine] : Given → List ℚ
  | .conic input => input.program.objective
  | .linear input => input.program.objective

def Constrains [Machine] (given : Given) (x : List K) : Prop :=
  match given with
  | .conic input => input.program.Feasible x
  | .linear input => input.program.Feasible x

/-- A vector with an entry for each variable that meets the caller's constraints. -/
def Feasible [Machine] (given : Given) (x : List K) : Prop :=
  x.length = given.objective.length ∧ given.Constrains x

variable (K) in
theorem restates_of_standardForm [Machine] [IsStrictOrderedRing K] {given : Given}
    {form : StandardForm} (accepted : given.standardForm = .ok form) (exact : given.Exact) :
    form.Restates (K := K) given.Constrains given.objective ∧
      Sense.ofDatum given.sense = .ok form.sense := by
  cases given with
  | conic input => exact ConicProblem.restates_of_load K accepted exact
  | linear input =>
    obtain ⟨restates, sense, _⟩ := LinearProblem.restates_of_load K accepted exact
    exact ⟨restates, sense⟩

end Given

/-- Under a name there is an integer, or nothing. -/
def Info.GivesInteger (info : Info) (name : String) : Prop :=
  ∀ item, info.find? (fun item => sameKey item.1 (.text name)) = some item →
    ∃ n, item.2 = .integer n

theorem Info.integer_of_givesInteger {info : Info} {name : String}
    (gives : info.GivesInteger name) (missing : ℤ) : ∃ n, info.integer name missing = .ok n := by
  unfold integer
  split
  next item found =>
    obtain ⟨n, same⟩ := gives item found
    exact ⟨n, by rw [same]; rfl⟩
  next => exact ⟨missing, rfl⟩

/-- A reply with a finite number for each variable. Its flag and its count are integers, if they are
there at all. -/
structure Reply.Gives [Machine] (reply : Reply) (count : ℕ) (y : List Binary64) : Prop where
  answered : ∃ x info items, reply = .answered (some x) info ∧ x.toEntries = .ok y ∧
    Info.read info = .ok items ∧ items.GivesInteger "exitFlag" ∧ items.GivesInteger "iter"
  size : y.length = count
  finite : ∀ v ∈ y, v.isFinite

theorem Reply.toSolution_of_gives [Machine] {form : StandardForm} {reverse : List ℕ} {reply : Reply}
    {y : List Binary64} (perm : reverse.Perm (List.range form.n))
    (order : form.order = VariableOrder.ofReverse reverse) (gives : reply.Gives form.n y) :
    ∃ solution, reply.toSolution form = .ok solution ∧
      solution.objective = form.sense.fromMinimum (dot form.c y) ∧
        solution.x.length = form.n ∧
          form.order.toForm (rationals solution.x) = rationals y := by
  obtain ⟨x, info, items, rfl, readX, readInfo, flagged, counted⟩ := gives.answered
  obtain ⟨flag, readFlag⟩ := Info.integer_of_givesInteger flagged (-7)
  obtain ⟨iterations, readIterations⟩ := Info.integer_of_givesInteger counted 0
  obtain ⟨restored, restoredAs, length, moved⟩ := VariableOrder.restore_ofReverse perm gives.size
  rw [← order] at restoredAs moved
  have fits : y.length = form.c.length := by rw [gives.size, form.objectiveLength, StandardForm.n]
  refine ⟨⟨Status.ofFlag (.integer flag), form.sense.fromMinimum (dot form.c y), restored, y,
    iterations, items⟩, ?_, rfl, length, moved⟩
  simp only [toSolution, readInfo, readFlag, readX, bind, Except.bind, if_pos fits, restoredAs,
    readIterations, pure, Except.pure]

theorem Sense.value?_fromMinimum (sense : Sense) (v : Binary64) :
    (sense.fromMinimum v).value? = v.value?.map fun q => (sense.sign : ℚ) * q := by
  cases sense with
  | minimize => simp [fromMinimum, sign]
  | maximize => simp [fromMinimum, sign, Binary64.value?_neg]

theorem Sense.sign_mul_sign (sense : Sense) (q : ℚ) :
    (sense.sign : ℚ) * ((sense.sign : ℚ) * q) = q := by
  cases sense <;> simp [sign]

/-- An answer for two variables. -/
def Reply.pair : Reply :=
  .answered (some (.list [.integer 1, .integer 2])) (some (.record [("exitFlag", .integer 0)]))

theorem Reply.gives_pair : Reply.pair.Gives 2 [.one, .ofRat 2] where
  answered := by
    obtain ⟨values, read, same⟩ : ∃ values,
        (Datum.list [.integer 1, .integer 2]).toEntries = .ok values ∧
          id values = [.one, .ofRat 2] :=
      Outcome.exists_of_toOption_map (by decide +kernel)
    rw [id_eq] at same
    refine ⟨_, _, [(.text "exitFlag", .integer 0)], rfl, same ▸ read, rfl, ?_, ?_⟩
    · intro item found
      cases found
      exact ⟨0, rfl⟩
    · intro item found
      cases found
  size := rfl
  finite := by decide +kernel

/-- Take a problem that has been loaded and is solved before any other is. The solution reports the
minimum at the vector that was found, in the caller's sense, and without rounding this is the
caller's objective at the vector that is returned. The vector that was found minimizes what the call
describes if and only if the one that is returned is optimal for the caller. -/
theorem optimal_of_solve [Machine] [IsStrictOrderedRing K] {given : Given} {session after : Session}
    {form : StandardForm} (loaded : (session.load given).2 = .ok form) (exact : given.Exact)
    {steps : List Session.Step} (refused : ∀ other, Session.Step.load other ∈ steps →
      ∀ form, other.standardForm ≠ .ok form)
    {reply : Reply} {attempt : Attempt} {y : List Binary64} {call : SolverCall}
    (gives : reply.Gives given.objective.length y)
    (solved : ((session.load given).1.run steps).solve reply = (after, attempt))
    (called : attempt.call = some call) :
    ∃ solution sense, attempt.result = .ok solution ∧
      after.objective = .ok solution.objective ∧ after.solutionVector = .ok solution.x ∧
      Sense.ofDatum given.sense = .ok sense ∧
      solution.objective = sense.fromMinimum (dot call.c y) ∧
      (sense.sign : ℚ) * exactDot (rationals call.c) (rationals y) =
        exactDot given.objective (rationals solution.x) ∧
      ((dot call.c y).value? = some (exactDot (rationals call.c) (rationals y)) →
        solution.objective.value? = some (exactDot given.objective (rationals solution.x))) ∧
      (call.Minimizes (embed K (rationals y)) ↔
        sense.Optimal given.Feasible (exactDot given.objective)
          (embed K (rationals solution.x))) := by
  have accepted : given.standardForm = .ok form := by simpa using loaded
  obtain ⟨restates, sense⟩ := Given.restates_of_standardForm K accepted exact
  obtain ⟨rational, _⟩ := Given.restates_of_standardForm ℚ accepted exact
  have holds : ((session.load given).1.run steps).form = some form := by
    rw [Session.form_run refused, Session.load_eq, accepted, Session.accept]
  obtain ⟨reverse, perm, order⟩ := restates.arranged
  rw [restates.variableCount] at gives
  obtain ⟨rfl, result, kept⟩ := Session.solve_of_called holds solved called
  obtain ⟨solution, means, objective, length, moved⟩ :=
    Reply.toSolution_of_gives perm order gives
  rw [means] at result
  have held : after.held = .ok solution := by rw [Session.held, kept solution result]
  have value : (form.sense.sign : ℚ) * exactDot (rationals form.c) (rationals y) =
      exactDot given.objective (rationals solution.x) := by
    rw [← moved, rational.objective_eq (rationals solution.x) (by simpa using length)]
    exact form.sense.sign_mul_sign _
  refine ⟨solution, form.sense, result, ?_, ?_, sense, objective, value, fun unrounded => ?_, ?_⟩
  · rw [Session.objective, held, Except.map]
  · rw [Session.solutionVector, held, Except.map]
  · have minimum : (dot form.c y).value? = some (exactDot (rationals form.c) (rationals y)) :=
      unrounded
    rw [objective, Sense.value?_fromMinimum, minimum, Option.map_some, value]
  · have sized : (embed K (rationals solution.x)).length = form.n := by
      simpa [embed] using length
    have inForm : form.order.toForm (embed K (rationals solution.x)) = embed K (rationals y) := by
      rw [VariableOrder.toForm_embed, moved]
    have carried := restates.minimizes_iff_optimal
      ((session.load given).1.run steps).options sized
    rw [inForm, ← restates.variableCount] at carried
    exact carried

theorem dot_swapped {form : StandardForm} (loaded : ConicProblem.load .swapped = .ok form) :
    (dot form.c [.one, .ofRat 2]).value? =
      some (exactDot (rationals form.c) (rationals [.one, .ofRat 2])) := by
  have objective : (ConicProblem.load .swapped).toOption.map StandardForm.c =
      some [-.one, -.ofRat 2] := by decide +kernel
  have c : form.c = [-.one, -.ofRat 2] := by simpa [loaded, Except.toOption] using objective
  rw [c]
  decide +kernel

/-- The sum of the variables is three, and the second is at least one. -/
theorem feasible_swapped_iff {x : List ℚ} : (Given.conic .swapped).Feasible x ↔
    ∃ a b, x = [a, b] ∧ 1 ≤ b ∧ a + b = 3 := by
  have objective : ConicProblem.Input.swapped.program.objective = [2, 1] := by decide +kernel
  have bounds : ConicProblem.Input.swapped.program.bounds = [3, 1] := by decide +kernel
  have rows : ConicProblem.Input.swapped.program.rowCones = [(.nonpos, [1])] := by decide +kernel
  have columns : ConicProblem.Input.swapped.program.variableCones =
      [(.free, [0]), (.nonneg, [1])] := by decide +kernel
  have coefficients : ConicProblem.Input.swapped.program.coefficient 0 0 = 1 ∧
      ConicProblem.Input.swapped.program.coefficient 0 1 = 1 ∧
      ConicProblem.Input.swapped.program.coefficient 1 0 = 0 ∧
      ConicProblem.Input.swapped.program.coefficient 1 1 = 1 := by decide +kernel
  have first (a b : ℚ) : ConicProblem.Input.swapped.program.slack [a, b] 0 = 3 - (a + b) := by
    simp [ConicProgram.slack, objective, bounds, entryAt, Finset.sum_range_succ, coefficients]
  have second (a b : ℚ) : ConicProblem.Input.swapped.program.slack [a, b] 1 = 1 - b := by
    simp [ConicProgram.slack, objective, bounds, entryAt, Finset.sum_range_succ, coefficients]
  have size : (Given.conic .swapped).objective.length = 2 := congrArg List.length objective
  constructor
  · rintro ⟨sized, feasible⟩
    obtain ⟨a, b, rfl⟩ := List.length_eq_two.1 (sized.trans size)
    have sum := feasible.equalities 0 (by simp [bounds]) (by simp [rows, VariableOrder.listed])
    have row := feasible.rows (.nonpos, [1]) (by simp [rows])
    simp only [Cone.Contains, List.map_cons, List.map_nil, List.mem_singleton, forall_eq,
      second] at row
    rw [Nat.cast_zero, first] at sum
    exact ⟨a, b, rfl, by linarith, by linarith⟩
  · rintro ⟨a, b, rfl, least, sum⟩
    refine ⟨size.symm, ⟨?_, ?_, ?_⟩⟩
    · simp only [rows, List.mem_singleton, forall_eq, Cone.Contains, List.map_cons, List.map_nil,
        second]
      linarith
    · intro i below unlisted
      have other : (i : ℤ) ≠ 1 := by simpa [rows, VariableOrder.listed] using unlisted
      have two : i < 2 := by simpa [bounds] using below
      obtain rfl : i = 0 := by omega
      rw [Nat.cast_zero, first]
      linarith
    · simp only [columns, List.forall_mem_cons, Cone.Contains, List.map_cons, List.map_nil,
        entryAt, Int.toNat_one, List.getD_cons_succ, List.getD_cons_zero]
      exact ⟨trivial, ⟨by linarith, List.forall_mem_nil _⟩, List.forall_mem_nil _⟩

/-- Little is left for the second variable, which counts less than the first. -/
theorem optimal_swapped :
    Sense.maximize.Optimal (Given.conic .swapped).Feasible
      (exactDot (Given.conic .swapped).objective) ([2, 1] : List ℚ) := by
  have objective : (Given.conic .swapped).objective = [2, 1] := by decide +kernel
  refine ⟨feasible_swapped_iff.2 ⟨2, 1, rfl, le_refl 1, by norm_num⟩, fun z feasible => ?_⟩
  obtain ⟨a, b, rfl, least, sum⟩ := feasible_swapped_iff.1 feasible
  simp only [objective, exactDot, List.zipWith_cons_cons, List.zipWith_nil_left, List.sum_cons,
    List.sum_nil, Rat.cast_id]
  linarith

theorem minimizes_swapped {form : StandardForm} (loaded : ConicProblem.load .swapped = .ok form)
    (options : Options) :
    (form.call options).Minimizes (embed ℚ (rationals [.one, .ofRat 2])) := by
  obtain ⟨restates, _⟩ :=
    ConicProblem.restates_of_load ℚ loaded ConicProblem.Input.exact_swapped
  have parts : (ConicProblem.load .swapped).toOption.map (fun form => (form.order.reverse,
      form.sense)) = some ([1, 0], .maximize) := by decide +kernel
  obtain ⟨reverse, sense⟩ : form.order.reverse = [1, 0] ∧ form.sense = .maximize := by
    simpa [loaded, Except.toOption] using parts
  have values : embed ℚ (rationals [.one, .ofRat 2]) = [1, 2] := by decide +kernel
  have moved : form.order.toForm ([2, 1] : List ℚ) = embed ℚ (rationals [.one, .ofRat 2]) := by
    simp [VariableOrder.toForm, reverse, values, entryAt]
  have sized : ([2, 1] : List ℚ).length = form.n := by
    rw [← restates.variableCount]
    decide +kernel
  have best := optimal_swapped
  unfold Given.Feasible at best
  rw [← moved, restates.minimizes_iff_optimal options sized, sense, ← restates.variableCount]
  exact best

theorem optimal_of_solve_pair : ∃ form call after attempt,
    (Session.load ⟨[], none, none⟩ (.conic .swapped)).2 = .ok form ∧
    ((Session.load ⟨[], none, none⟩ (.conic .swapped)).1.run
      [.solve (.raised "ArithmeticError")]).solve .pair = (after, attempt) ∧
    attempt.call = some call ∧ call.Minimizes (embed ℚ (rationals [.one, .ofRat 2])) ∧
    ∃ solution, attempt.result = .ok solution ∧
      after.objective = .ok solution.objective ∧ after.solutionVector = .ok solution.x ∧
      solution.objective.value? =
        some (exactDot (Given.conic .swapped).objective (rationals solution.x)) ∧
      Sense.maximize.Optimal (Given.conic .swapped).Feasible
        (exactDot (Given.conic .swapped).objective) (embed ℚ (rationals solution.x)) := by
  obtain ⟨form, loaded, _⟩ := ConicProblem.load_swapped
  have accepted : (Session.load ⟨[], none, none⟩ (.conic .swapped)).2 = .ok form := loaded
  have holds : ((Session.load ⟨[], none, none⟩ (.conic .swapped)).1.run
      [.solve (.raised "ArithmeticError")]).form = some form := by
    rw [Session.form_run (by simp), Session.load_eq, Given.standardForm, loaded, Session.accept]
  have options : ((Session.load ⟨[], none, none⟩ (.conic .swapped)).1.run
      [.solve (.raised "ArithmeticError")]).options = [] := by
    rw [Session.options_run, Session.load_eq, Given.standardForm, loaded, Session.accept]
  have called := Session.call_of_clear holds (by rw [options]; rfl) (by rw [options]; rfl) .pair
  rw [options] at called
  have count : (Given.conic .swapped).objective.length = 2 := by decide +kernel
  have minimal := minimizes_swapped loaded []
  obtain ⟨solution, sense, result, objective, vector, own, -, -, value, optimal⟩ :=
    optimal_of_solve (K := ℚ) accepted ConicProblem.Input.exact_swapped (by simp)
      (by rw [count]; exact Reply.gives_pair) rfl called
  obtain rfl : sense = .maximize := (Except.ok.inj own).symm
  exact ⟨form, _, _, _, accepted, rfl, called, minimal, solution, result, objective, vector,
    value (dot_swapped loaded), optimal.1 minimal⟩

end ConicForm
