import ConicForm.Text.Name

/-! Which way an objective goes. The standard form always minimizes. -/
namespace ConicForm

inductive Sense where
  | minimize
  | maximize
deriving DecidableEq

namespace Sense

/-- The factor that turns a minimum of the minimized objective into the caller's value. -/
def sign : Sense → Int
  | minimize => 1
  | maximize => -1

def label : Sense → String
  | minimize => "MINIMIZE"
  | maximize => "MAXIMIZE"

def names : List (String × Sense) :=
  [("min", minimize), ("minimize", minimize), ("max", maximize), ("maximize", maximize)]

def ofName? (text : String) : Option Sense :=
  names.lookup (String.ofList (Text.name text))

end Sense
end ConicForm
