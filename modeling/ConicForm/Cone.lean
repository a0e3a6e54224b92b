import ConicForm.Text.Name

/-! The kinds of cone that a variable or a constraint row can be put in. Five of them have a
standard form; the others exist so that a refusal can name them. -/
namespace ConicForm

inductive Cone where
  | zero
  | nonneg
  | nonpos
  | secondOrder
  | semidefinite
  | expPrimal
  | expDual
  | free
  | rotatedSecondOrder
deriving DecidableEq

namespace Cone

def all : List Cone :=
  [zero, nonneg, nonpos, secondOrder, semidefinite, expPrimal, expDual, free, rotatedSecondOrder]

def number : Cone → Nat
  | zero => 0
  | nonneg => 1
  | nonpos => 2
  | secondOrder => 3
  | semidefinite => 4
  | expPrimal => 5
  | expDual => 6
  | free => 7
  | rotatedSecondOrder => 8

def ofNumber? (n : Int) : Option Cone :=
  all.find? fun kind => (kind.number : Int) == n

def label : Cone → String
  | zero => "ZERO"
  | nonneg => "NON_NEG"
  | nonpos => "NON_POS"
  | secondOrder => "SOC"
  | semidefinite => "SDP"
  | expPrimal => "EXP_PRIMAL"
  | expDual => "EXP_DUAL"
  | free => "FREE"
  | rotatedSecondOrder => "SOC_ROTATED"

def names : List (String × Cone) :=
  [("zero", zero), ("nonneg", nonneg), ("nonpos", nonpos), ("soc", secondOrder),
   ("sdp", semidefinite), ("psd", semidefinite), ("expprimal", expPrimal), ("expdual", expDual),
   ("free", free), ("socrotated", rotatedSecondOrder)]

/-- The kind a text names. Underscores in a name do not count. -/
def ofName? (text : String) : Option Cone :=
  names.lookup (String.ofList ((Text.name text).filter (· != '_')))

def isSupported : Cone → Bool
  | zero | nonneg | nonpos | secondOrder | free => true
  | semidefinite | expPrimal | expDual | rotatedSecondOrder => false

/-- Number of rows that cones of the given sizes have together. -/
def totalSize : List Int → Int
  | [] => 0
  | size :: sizes => size + totalSize sizes

theorem totalSize_append (first second : List Int) :
    totalSize (first ++ second) = totalSize first + totalSize second := by
  induction first with
  | nil => simp [totalSize]
  | cons size sizes ih => simp only [List.cons_append, totalSize, ih, Int.add_assoc]

theorem ofNumber?_number (kind : Cone) : ofNumber? kind.number = some kind := by
  cases kind <;> rfl

end Cone
end ConicForm
