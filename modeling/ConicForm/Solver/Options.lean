import ConicForm.Datum.Number

/-! Solver options: names with values. Options that are given replace the defaults of their
names. -/
namespace ConicForm

abbrev Options := List (String × Datum)

namespace Options

def defaults : Options :=
  let tolerance := Datum.real (Literal.ofDecimal false 1 (-8))
  [("verbose", .truth false), ("feastol", tolerance), ("abstol", tolerance),
   ("reltol", tolerance), ("max_iters", .integer 100)]

def names (options : Options) : List String := options.map fun option => option.1

/-- The given options, and of the base those whose names are not given. -/
def onto (given base : Options) : Options :=
  (base.filter fun option => !(names given).contains option.1) ++ given

/-- The names under which a solver takes its data, which no option can have. -/
def dataNames : List String := ["c", "G", "h", "dims", "A", "b"]

def clashes (options : Options) (reserved : List String) : Bool :=
  (names options).any reserved.contains

theorem lookup_append (name : String) (first second : Options) :
    (first ++ second).lookup name = (first.lookup name).or (second.lookup name) := by
  induction first with
  | nil => simp
  | cons option rest ih =>
    obtain ⟨key, value⟩ := option
    simp only [List.cons_append, List.lookup_cons, ih]
    split <;> simp

end Options
end ConicForm
