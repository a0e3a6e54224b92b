import ConicForm.Datum.Number

/-! How a solve has ended, by the solver's exit flag. -/
namespace ConicForm

inductive Status where
  | notSolved
  | optimal
  | primalInfeasible
  | dualInfeasible
  | iterationLimit
  | failed
deriving DecidableEq

namespace Status

/-- The word that stands for a status. A problem that is infeasible for the dual is reported as
unbounded. -/
def label : Status → String
  | notSolved => "NotSolved"
  | optimal => "Optimal"
  | primalInfeasible => "Infeasible"
  | dualInfeasible => "Unbounded"
  | iterationLimit => "UserLimit"
  | failed => "Error"

/-- The flags with a status of their own are compared by numerical value; any other flag is a
failure. -/
def ofFlag (flag : Datum) : Status :=
  if flag.equalsInt 0 then optimal
  else if flag.equalsInt 1 then primalInfeasible
  else if flag.equalsInt 2 then dualInfeasible
  else if flag.equalsInt (-1) then iterationLimit
  else failed

/-- Reads a flag, which has to be comparable with the known ones. -/
def read (flag : Datum) : Except Fault Status :=
  if flag.isTestable then .ok (ofFlag flag) else .error (.data .malformed)

theorem ofFlag_ne_notSolved (flag : Datum) : ofFlag flag ≠ notSolved := by
  unfold ofFlag
  repeat' split
  all_goals decide

end Status
end ConicForm
