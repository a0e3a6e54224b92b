import ConicForm.ConicProblem
import ConicForm.LinearProblem
import ConicForm.Solver.Solution

/-! A session: load a problem, solve it, ask for its solution. Loading a problem forgets the
solution of the one before; what fails changes nothing. -/
namespace ConicForm

structure Session where
  options : Options
  form : Option StandardForm
  solution : Option Solution

namespace Session

/-- A session without a problem. Its options are kept over the defaults. -/
def start (options : Options) : Except Fault Session :=
  if options.clashes ["self"] then .error (.data .wrongType)
  else .ok ⟨options.onto Options.defaults, none, none⟩

def accept (session : Session) (loaded : Except Fault StandardForm) : Session :=
  match loaded with
  | .ok form => { session with form := some form, solution := none }
  | .error _ => session

def loadLinear [Machine] (session : Session) (input : LinearProblem.Input) :
    Session × Except Fault StandardForm :=
  let loaded := LinearProblem.load input
  (session.accept loaded, loaded)

def loadConic [Machine] (session : Session) (input : ConicProblem.Input) :
    Session × Except Fault StandardForm :=
  let loaded := ConicProblem.load input
  (session.accept loaded, loaded)

def keep (session : Session) (attempt : Attempt) : Session :=
  match attempt.result with
  | .ok solution => { session with solution := some solution }
  | .error _ => session

def solve [Machine] (session : Session) (reply : Reply) : Session × Attempt :=
  match session.form with
  | none => (session, ⟨none, .error .nothingLoaded⟩)
  | some form =>
    let attempt := StandardForm.solve (some form) session.options reply
    (session.keep attempt, attempt)

/-- Solves the loaded form on its own: the session takes no part in it. -/
def solveApart [Machine] (session : Session) (options : Options) (reply : Reply) : Attempt :=
  StandardForm.solve session.form options reply

def status (session : Session) : Status :=
  match session.solution with
  | none => .notSolved
  | some solution => solution.status

def held (session : Session) : Except Fault Solution :=
  match session.solution with
  | none => .error .notSolved
  | some solution => .ok solution

def objective (session : Session) : Except Fault Binary64 :=
  session.held.map Solution.objective

def solutionVector (session : Session) : Except Fault (List Binary64) :=
  session.held.map Solution.x

end Session
end ConicForm
