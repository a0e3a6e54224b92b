import ConicForm.ConstraintRow
import ConicForm.Solver.Options
import ConicForm.Solver.Status

/-! One call of a solver on a form: what the solver is given, and what its reply means for the
caller. -/
namespace ConicForm

/-- What a solver is called with. A form without equality rows has no equalities at all. -/
structure SolverCall where
  c : List Binary64
  G : ColumnMatrix
  h : List Binary64
  dims : List (String × Datum)
  equalities : Option (ColumnMatrix × List Binary64)
  options : Options

/-- What comes back from a solver: a failure by name, or an answer whose parts may be missing. -/
inductive Reply where
  | raised (name : String)
  | answered (solution info : Option Datum)

/-- What a solver tells about a solution: values under keys, which are mostly texts. -/
abbrev Info := List (Datum × Datum)

/-- A solution in both orders, with the caller's objective. The vector is kept whatever the
status. -/
structure Solution where
  status : Status
  objective : Binary64
  x : List Binary64
  formX : List Binary64
  iterations : Int
  info : Info

/-- The outcome of trying to solve: the call if the solver was reached, and the result. -/
structure Attempt where
  call : Option SolverCall
  result : Except Fault Solution

def dot (a b : List Binary64) : Binary64 := (List.zipWith (· * ·) a b).foldl (· + ·) .zero

/-- The caller's value of an objective that was minimized. -/
def Sense.fromMinimum (sense : Sense) (value : Binary64) : Binary64 :=
  match sense with
  | .minimize => value
  | .maximize => -value

namespace Info

/-- Two keys are one if they are the same text or equal numbers. -/
def sameKey : Datum → Datum → Bool
  | .absent, .absent => true
  | .text first, .text second => first == second
  | .real first, .real second => first.equals second
  | first, second =>
    match first.exactInteger?, second.exactInteger? with
    | some n, _ => second.equalsInt n
    | none, some n => first.equalsInt n
    | none, none => false

/-- A value under a key. A key that is there keeps its place and its form. -/
def insert (info : Info) (key value : Datum) : Info :=
  if info.any fun item => sameKey item.1 key then
    info.map fun item => if sameKey item.1 key then (item.1, value) else item
  else info ++ [(key, value)]

/-- A pair of a key, which cannot hold other values, and a value. -/
def readItem [Machine] (d : Datum) : Except Fault (Datum × Datum) :=
  d.pair.bind fun item =>
    match item.1 with
    | .list _ | .record _ | .zeros _ | .sparse _ => .error (.data .wrongType)
    | _ => .ok item

/-- Values under keys from a record, or from a list of pairs of key and value. -/
def read [Machine] (info : Option Datum) : Except Fault Info :=
  match info with
  | none => .ok []
  | some (.record fields) => .ok (fields.map fun field => (.text field.1, field.2))
  | some d =>
    d.elements.bind fun elements =>
      (elements.mapM readItem).map fun items =>
        items.foldl (fun info item => insert info item.1 item.2) []

def integer (info : Info) (name : String) (missing : Int) : Except Fault Int :=
  match info.find? fun item => sameKey item.1 (.text name) with
  | some item => item.2.toInteger
  | none => .ok missing

end Info

namespace Reply

/-- Reads an answer for a form: its flag, its vector, the objective, the vector in the caller's
order, and the number of iterations. -/
def toSolution [Machine] (form : StandardForm) (reply : Reply) : Except Fault Solution :=
  match reply with
  | .raised name => .error (.data (.solverRaised name))
  | .answered solution info => do
    let info ← Info.read info
    let flag ← info.integer "exitFlag" (-7)
    let some solution := solution | .error (.data .fieldMissing)
    let formX ← solution.toEntries
    if formX.length = form.c.length then
      let x ← form.order.restore formX
      let iterations ← info.integer "iter" 0
      return {
        status := Status.ofFlag (.integer flag)
        objective := form.sense.fromMinimum (dot form.c formX)
        x, formX, iterations, info }
    else .error (.data .malformed)

end Reply

namespace StandardForm

def call (form : StandardForm) (options : Options) : SolverCall where
  c := form.c
  G := form.G
  h := form.h
  dims := form.dims
  equalities := if form.p = 0 then none else some (form.A, form.b)
  options := options.onto Options.defaults

/-- Solves a form, given what the solver would reply. Options that would hide the solver's data keep
it from being called. -/
def solve [Machine] (form : Option StandardForm) (options : Options) (reply : Reply) : Attempt :=
  if options.clashes ["form"] then ⟨none, .error (.data .wrongType)⟩
  else
    match form with
    | none => ⟨none, .error (.data .formMissing)⟩
    | some form =>
      if options.clashes Options.dataNames then ⟨none, .error (.data .wrongType)⟩
      else ⟨some (form.call options), reply.toSolution form⟩

end StandardForm
end ConicForm
