import ConicForm.Datum.Array

/-! The order in which a form has the caller's variables. `forward` has the place of each variable
and `reverse` the variable at each place. An order that a caller gives is taken as it is; one that
is arranged from cones is a permutation and its inverse. -/
namespace ConicForm

structure VariableOrder where
  forward : List Int
  reverse : List Int
  sameLength : forward.length = reverse.length
deriving DecidableEq

namespace VariableOrder

def size (order : VariableOrder) : Nat := order.forward.length

def ofLists (forward reverse : List Int) : Except Fault VariableOrder :=
  if same : forward.length = reverse.length then .ok ⟨forward, reverse, same⟩
  else .error (.length (.orderDirections forward.length reverse.length))

/-- An order given as two arrays of any shape, read one after the other. -/
def ofData (forward reverse : Datum) : Except Fault VariableOrder :=
  let words (d : Datum) := d.arrayEntries.bind fun entries => entries.mapM Datum.toWord
  (words forward).bind fun forward => (words reverse).bind fun reverse => ofLists forward reverse

/-- The order that has the listed variables in turn. -/
def ofReverse (reverse : List Nat) : VariableOrder where
  forward := (List.range reverse.length).map fun i => (reverse.idxOf i : Int)
  reverse := reverse.map fun i : Nat => (i : Int)
  sameLength := by simp

def identity (count : Nat) : VariableOrder where
  forward := (List.range count).map fun i : Nat => (i : Int)
  reverse := (List.range count).map fun i : Nat => (i : Int)
  sameLength := rfl

/-- The number of places below a bound, rounded up; none below a negative one. A bound has to be
among the machine words, and the first number above them counts as the lowest of them. -/
def placesBelow [Machine] (bound : Binary64) : Except DataFault Nat :=
  match bound.value?.map Rat.ceil with
  | none => .error .malformed
  | some n =>
    if n < -Capacity.word ∨ Capacity.word < n then .error .malformed
    else if n = Capacity.word then .ok 0
    else Capacity.arrayLength 8 n

/-- Every variable in its own place. The count is rounded as a bound of the places. -/
def ofCount [Machine] (count : Int) : Except Fault VariableOrder :=
  match Binary64.ofInt? count with
  | none => .error (.data .malformed)
  | some bound => ((placesBelow bound).mapError .data).map identity

/-- Every place below a number of variables, which need not be an integer. -/
def ofBound [Machine] (d : Datum) : Except Fault VariableOrder :=
  match d with
  | .real bound => ((placesBelow bound).mapError .data).map identity
  | d =>
    if d.isTestable then d.toExactInteger.bind ofCount else .error (.data .malformed)

def isIdentity (order : VariableOrder) : Bool :=
  order.reverse == (List.range order.size).map fun i : Nat => (i : Int)

/-- The item at a position, counted from the end if the position is negative. -/
def fromEitherEnd? (items : List α) (position : Int) : Option α :=
  if 0 ≤ position then items[position.toNat]?
  else if 0 ≤ (items.length : Int) + position then
    items[((items.length : Int) + position).toNat]?
  else none

def restore (order : VariableOrder) (solution : List Binary64) : Except Fault (List Binary64) :=
  if solution.length = order.size then
    match order.forward.mapM (fromEitherEnd? solution) with
    | some restored => .ok restored
    | none => .error (.data .positionOutside)
  else .error (.length (.solution solution.length order.size))

inductive Part where
  | forward
  | reverseEntry

/-- An order never changes: no direction is replaced, and no entry is written. -/
def refusal : Part → Fault
  | .forward => .data .fieldFixed
  | .reverseEntry => .data .malformed

theorem size_ofReverse (reverse : List Nat) : (ofReverse reverse).size = reverse.length := by
  simp [size, ofReverse]

theorem size_identity (n : Nat) : (identity n).size = n := by
  simp [identity, size]

theorem idxOf_range {i count : Nat} (below : i < count) : (List.range count).idxOf i = i := by
  rw [List.idxOf, List.findIdx_eq (by simpa using below)]
  simp only [List.getElem_range, beq_self_eq_true, beq_eq_false_iff_ne, true_and]
  omega

theorem identity_eq_ofReverse (count : Nat) : identity count = ofReverse (List.range count) := by
  simp only [identity, ofReverse, List.length_range, mk.injEq, and_true]
  refine List.map_congr_left fun i member => ?_
  rw [idxOf_range (List.mem_range.1 member)]

end VariableOrder

abbrev ConeEntry := Cone × List Int

namespace VariableOrder

/-- Adds indices to those already seen. Each must lie below `count` and be new. -/
def assign (owner : Indexed) (count : Nat) (seen : List Nat) :
    List Int → Except Fault (List Nat)
  | [] => .ok seen
  | index :: indices =>
    if 0 ≤ index ∧ index < (count : Int) then
      if index.toNat ∈ seen then .error (.index (.repeated owner index))
      else assign owner count (seen ++ [index.toNat]) indices
    else .error (Fault.index (.outside owner (.integer index) (.integer count))).raised

/-- The kinds that variables are grouped by. -/
def hasSegment : Cone → Bool
  | .nonneg | .nonpos | .secondOrder | .zero | .free => true
  | _ => false

/-- Assigns the variables of all entries; an entry's kind is looked at after its indices. -/
def assignAll (count : Nat) (seen : List Nat) : List ConeEntry → Except Fault (List Nat)
  | [] => .ok seen
  | (kind, indices) :: entries =>
    (assign .vars count seen indices).bind fun seen =>
      if hasSegment kind then assignAll count seen entries
      else .error (.data .coneUnplaced)

def segment (kinds : List Cone) (entries : List ConeEntry) : List Nat :=
  (entries.filter fun entry => kinds.contains entry.1).flatMap fun entry =>
    entry.2.map Int.toNat

/-- All variables by segment: the orthant of both signs, second-order cones, zeros, free ones. -/
def arranged (entries : List ConeEntry) : List Nat :=
  segment [.nonneg, .nonpos] entries ++ segment [.secondOrder] entries ++
    segment [.zero] entries ++ segment [.free] entries

def missing (count : Nat) (seen : List Nat) : List Nat :=
  (List.range count).filter fun i => !seen.contains i

def complete (entries : List ConeEntry) (count : Nat) (seen : List Nat) :
    Except Fault (List Nat) :=
  match missing count seen with
  | [] => .ok (arranged entries)
  | missing => .error (.index (.unassigned missing))

/-- Arranges `count` variables by kind of cone. Every variable must be listed exactly once. -/
def arrange (entries : List ConeEntry) (count : Nat) : Except Fault (List Nat) :=
  (assignAll count [] entries).bind (complete entries count)

/-- The order of some variables. Each of them takes a byte while they are assigned. -/
def ofCones [Machine] (entries : List ConeEntry) (count : Nat) : Except Fault VariableOrder :=
  ((Capacity.arrayLength 1 count).mapError .data).bind fun _ =>
    (arrange entries count).map ofReverse

end VariableOrder
end ConicForm
