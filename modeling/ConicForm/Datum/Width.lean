import ConicForm.Datum.Array

/-! The number of columns of a matrix without rows. Anything that has elements is taken for the
positions of entries instead, one list of them for the rows and one for the columns. A matrix with
nothing but positions cannot be made either, and what is found wrong depends on the positions. -/
namespace ConicForm.Datum

def positionCount (d : Datum) : Except DataFault Nat :=
  match d with
  | .list items => .ok items.length
  | .text value => .ok value.length
  | .record fields => .ok fields.length
  | .zeros (count :: _) => .ok count
  | _ => .error .wrongType

def checkPositions (d : Datum) : Except DataFault Unit :=
  d.positionCount.bind fun count => if count = 0 then .error .malformed else .ok ()

/-- The greatest position. Texts have an order but no maximum, and truth values alone are no
positions. -/
def lastPosition (d : Datum) : Except DataFault Int :=
  match d with
  | .text _ => .error .notNumeric
  | .list _ =>
    if d.shape?.isNone || d.entries.isEmpty then .error .malformed
    else if d.entries.any isText && !d.entries.any isLoose then .error .notNumeric
    else if d.entries.all isTruth then .error .wrongType
    else
      match (d.entries.mapM exactInteger?).bind List.max? with
      | some last => .ok last
      | none => .error .wrongType
  | _ => .error .wrongType

def positionsFault (lists : List Datum) : DataFault :=
  let last := (lists.mapM checkPositions).bind fun _ => lists.mapM lastPosition
  match last with
  | .error fault => fault
  | .ok last =>
    if last.isEmpty then .wrongType
    else if last.length ≠ 2 || last.any (· < -1) then .malformed
    else if last.any (Capacity.word ≤ · + 1) then .tooLarge
    else .wrongType

/-- Reads a number of columns, which is given as an integer and counted in a machine word. -/
def toColumnCount (d : Datum) : Except Fault Nat :=
  d.toExactInteger.bind fun n =>
    if n < 0 then .error (.data .malformed)
    else if Capacity.word ≤ n then .error (.data .tooLarge)
    else .ok n.toNat

/-- Reads the number of columns of a matrix without rows. A real number is none, even if it is equal
to one. -/
def toWidth [Machine] (d : Datum) : Except Fault Nat :=
  match d with
  | .real (.infinity _) => .error (.data .tooLarge)
  | .real width => .error (.data (if width.integer?.isSome then .malformed else .wrongType))
  | .zeros [] => .error (.data .malformed)
  | .sparse _ => .error (.data .wrongType)
  | .list _ | .text _ | .record _ | .zeros _ =>
    if d.shape?.isNone then .error (.data .malformed)
    else d.elements.bind fun lists => .error (.data (positionsFault lists))
  | d => d.toColumnCount

end ConicForm.Datum
