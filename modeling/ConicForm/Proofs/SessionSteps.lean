import ConicForm.Proofs.Outcome
import ConicForm.Session

/-! Runs of a session. What a session holds after any steps is settled by the last load that was
accepted: steps that load nothing keep the form. -/
namespace ConicForm

/-- A problem of either kind, as a caller gives it. -/
inductive Given where
  | conic (input : ConicProblem.Input)
  | linear (input : LinearProblem.Input)

namespace Given

def standardForm [Machine] : Given → Except Fault StandardForm
  | .conic input => ConicProblem.load input
  | .linear input => LinearProblem.load input

def sense : Given → Datum
  | .conic input => input.sense
  | .linear input => input.sense

end Given

namespace Session

def load [Machine] (session : Session) : Given → Session × Except Fault StandardForm
  | .conic input => session.loadConic input
  | .linear input => session.loadLinear input

/-- What can be done with a session, apart from asking it for what it holds. -/
inductive Step where
  | load (given : Given)
  | solve (reply : Reply)
  | solveApart (options : Options) (reply : Reply)

def step [Machine] (session : Session) : Step → Session
  | .load given => (session.load given).1
  | .solve reply => (session.solve reply).1
  | .solveApart _ _ => session

def run [Machine] (session : Session) (steps : List Step) : Session := steps.foldl step session

@[simp] theorem load_eq [Machine] (session : Session) (given : Given) :
    session.load given = (session.accept given.standardForm, given.standardForm) := by
  cases given <;> rfl

theorem form_solve [Machine] (session : Session) (reply : Reply) :
    (session.solve reply).1.form = session.form := by
  unfold solve keep
  split
  · rfl
  · dsimp only
    split <;> simp_all

theorem form_accept_of_refused {loaded : Except Fault StandardForm}
    (refused : ∀ form, loaded ≠ .ok form) (session : Session) :
    session.accept loaded = session := by
  cases loaded with
  | ok form => exact absurd rfl (refused form)
  | error fault => rfl

theorem form_step [Machine] {step : Step}
    (refused : ∀ given, step = .load given → ∀ form, given.standardForm ≠ .ok form)
    (session : Session) : (session.step step).form = session.form := by
  cases step with
  | load given =>
    rw [Session.step, load_eq, form_accept_of_refused (refused given rfl)]
  | solve reply => exact form_solve session reply
  | solveApart => rfl

/-- A form is held until another one is loaded. -/
theorem form_run [Machine] {steps : List Step}
    (refused : ∀ given, Step.load given ∈ steps → ∀ form, given.standardForm ≠ .ok form)
    (session : Session) : (session.run steps).form = session.form := by
  induction steps generalizing session with
  | nil => rfl
  | cons first rest ih =>
    have later : ∀ given, Step.load given ∈ rest → ∀ form, given.standardForm ≠ .ok form :=
      fun given member => refused given (List.mem_cons_of_mem _ member)
    have now : (session.step first).form = session.form := by
      apply form_step
      rintro given rfl
      exact refused given List.mem_cons_self
    rw [run, List.foldl_cons]
    exact (ih later _).trans now

theorem options_step [Machine] (session : Session) (step : Step) :
    (session.step step).options = session.options := by
  cases step with
  | load given =>
    rw [Session.step, load_eq]
    cases given.standardForm <;> rfl
  | solve reply =>
    simp only [Session.step, solve, keep]
    split
    · rfl
    · dsimp only
      split <;> rfl
  | solveApart => rfl

theorem options_run [Machine] (session : Session) (steps : List Step) :
    (session.run steps).options = session.options := by
  induction steps generalizing session with
  | nil => rfl
  | cons first rest ih =>
    rw [run, List.foldl_cons]
    exact (ih _).trans (options_step session first)

/-- A loaded form is solved unless the options hide the data that the solver takes. -/
theorem call_of_clear [Machine] {session : Session} {form : StandardForm}
    (holds : session.form = some form) (clear : session.options.clashes ["form"] = false)
    (free : session.options.clashes Options.dataNames = false) (reply : Reply) :
    (session.solve reply).2.call = some (form.call session.options) := by
  rw [solve, holds]
  simp [StandardForm.solve, clear, free]

/-- Where the solver is called, the session keeps the solution that its reply means. -/
theorem solve_of_called [Machine] {session after : Session} {form : StandardForm} {reply : Reply}
    {attempt : Attempt} {call : SolverCall} (holds : session.form = some form)
    (solved : session.solve reply = (after, attempt)) (called : attempt.call = some call) :
    call = form.call session.options ∧ attempt.result = reply.toSolution form ∧
      ∀ solution, attempt.result = .ok solution → after.solution = some solution := by
  rw [solve, holds] at solved
  obtain ⟨rfl, rfl⟩ := Prod.mk.inj solved
  refine ⟨?_, ?_, ?_⟩
  · unfold StandardForm.solve at called
    split_ifs at called
    exact (Option.some.inj called).symm
  · unfold StandardForm.solve at called ⊢
    split_ifs at called ⊢
    rfl
  · intro solution result
    rw [keep, result]

/-- A solve without a result changes nothing. -/
theorem solve_of_error [Machine] {session : Session} {reply : Reply} {fault : Fault}
    (failed : (session.solve reply).2.result = .error fault) :
    (session.solve reply).1 = session := by
  unfold solve at failed ⊢
  cases holds : session.form with
  | none => rfl
  | some form =>
    rw [holds] at failed
    dsimp only at failed ⊢
    rw [keep, failed]

theorem solve_raised [Machine] (session : Session) (name : String) :
    (session.solve (.raised name)).1 = session := by
  obtain ⟨fault, failed⟩ : ∃ fault, (session.solve (.raised name)).2.result = .error fault := by
    unfold solve StandardForm.solve Reply.toSolution
    cases session.form with
    | none => exact ⟨_, rfl⟩
    | some form =>
      dsimp only
      split_ifs <;> exact ⟨_, rfl⟩
  exact solve_of_error failed

end Session
end ConicForm
