import ConicForm.VariableOrder

/-! Variables arranged by cones that are used as they are given, without being read first: an index
has to be an integer already, and a kind one of those that variables are grouped by. The number of
variables may be given as the extents of an array, but then there is no order of them. -/
namespace ConicForm.VariableOrder

/-- A number is compared with the bounds of an index, of whatever type it is. -/
def isInside (count : Nat) : Datum → Except Fault Bool
  | .real value => .ok (value.value?.any fun q => 0 ≤ q ∧ q < (count : Rat))
  | .zeros shape => if shape.count = 1 then .ok (0 < count) else .error (.data .malformed)
  | .sparse _ => .error (.data .notImplemented)
  | d => d.toExactInteger.map fun n => 0 ≤ n ∧ n < (count : Int)

/-- Assigns the variable of one index. A real number is no position, and a truth value stands for
all positions or for none. -/
def assignGiven (count : Nat) (seen : List Nat) (index : Datum) : Except Fault (List Nat) :=
  (isInside count index).bind fun inside =>
    if inside then
      match index with
      | .truth _ => .error (.data .malformed)
      | .real _ | .zeros _ => .error (.data .positionOutside)
      | index => index.toExactInteger.bind fun n => assign .vars count seen [n]
    else .error (Fault.index (.outside .vars index (.integer count))).raised

/-- The kind that a group of variables goes by: a member, or a value equal to the number of one that
is not merged with another. -/
def groupKind : Datum → Except Fault Cone
  | .cone kind => if hasSegment kind then .ok kind else .error (.data .coneUnplaced)
  | .list _ | .record _ | .zeros _ | .sparse _ => .error (.data .wrongType)
  | d =>
    match [Cone.zero, .nonneg, .secondOrder, .free].find? fun kind => d.equalsInt kind.number with
    | some kind => .ok kind
    | none => .error (.data .coneUnplaced)

/-- Assigns the variables of an entry; its kind is looked at after its indices. -/
def assignEntry [Machine] (count : Nat) (before : List Nat × List ConeEntry) (entry : Datum) :
    Except Fault (List Nat × List ConeEntry) := do
  let (kind, indices) ← entry.pair
  let indices ← indices.elements
  let seen ← indices.foldlM (assignGiven count) before.1
  let kind ← groupKind kind
  let indices ← indices.mapM Datum.toExactInteger
  return (seen, before.2 ++ [(kind, indices)])

def ofCounted [Machine] (cones : Datum) (count : Nat) : Except Fault VariableOrder := do
  let entries ← cones.elements
  let (seen, entries) ← entries.foldlM (assignEntry count) ([], [])
  (complete entries count seen).map ofReverse

def placeCount [Machine] (extents : List Datum) : Except Fault Nat :=
  if extents.any Datum.isTruth then .error (.data .wrongType)
  else (extents.mapM Datum.toExactInteger).bind fun extents =>
    if Shape.mostExtents < extents.length then .error (.data .malformed)
    else ((Capacity.arrayExtents 1 extents).mapError .data).map Shape.count

/-- Why no variable of an array can be assigned: an index that is not below zero is compared with
the extents, and it is neither below them nor not. An array is compared with them one by one. -/
def refuse (extents index : Datum) : Fault :=
  let below (negative : Bool) : Fault :=
    if negative then (Fault.index (.outside .vars index extents)).raised else .data .wrongType
  match index with
  | .real value => below (value.value?.elim (value ≠ .infinity false) (· < 0))
  | .zeros _ => .data .malformed
  | .sparse _ => .data .notImplemented
  | d => below (d.exactInteger?.any (· < 0))

/-- An entry has no index to assign, and its kind is one that variables are grouped by. -/
def checkEntry [Machine] (extents entry : Datum) : Except Fault Unit := do
  let (kind, indices) ← entry.pair
  match ← indices.elements with
  | [] => (groupKind kind).map fun _ => ()
  | index :: _ => .error (refuse extents index)

/-- Variables in an array have no order: each is left unassigned, and where there are none there is
nothing to count them by. -/
def ofArray [Machine] (cones extents : Datum) : Except Fault VariableOrder := do
  let count ← extents.elements.bind placeCount
  let entries ← cones.elements
  entries.forM (checkEntry extents)
  .error (if count = 0 then .data .wrongType else .index (.unassigned (List.range count)))

/-- Arranges a given number of variables by the cones of a list. -/
def ofGiven [Machine] (cones count : Datum) : Except Fault VariableOrder :=
  match count with
  | .list _ | .text _ | .zeros _ | .sparse _ => ofArray cones count
  | count => (count.toLength 1).bind (ofCounted cones)

end ConicForm.VariableOrder
