import ConicForm.Cone
import ConicForm.Matrix.Stored
import ConicForm.Sense
import ConicForm.Shortest
import ConicForm.Text.Quoted
import ConicForm.Text.ZeroArray

/-! Values as a caller hands them over, before anything is known about them, and their written
form in messages. -/
namespace ConicForm

inductive Datum where
  | absent
  | truth (value : Bool)
  | integer (value : Int)
  | real (value : Binary64)
  | text (value : String)
  | list (items : List Datum)
  | record (fields : List (String × Datum))
  | cone (kind : Cone)
  | sense (way : Sense)
  | zeros (shape : Shape)
  | sparse (matrix : StoredMatrix)
  deriving Inhabited

def StoredMatrix.written (matrix : StoredMatrix) : String :=
  "<" ++ matrix.layout.label ++ " sparse matrix of dtype 'float64'\n\twith " ++
    toString matrix.entries.length ++ " stored elements and shape " ++ Shape.written matrix.shape ++
    ">"

def StoredMatrix.mostListed : Nat := 50

/-- A sparse matrix with its stored entries below. Of many entries the middle ones are left out. -/
def StoredMatrix.listing (matrix : StoredMatrix) : String :=
  let lines (entries : List Entry) : String :=
    "\n".intercalate (entries.map fun entry =>
      "  " ++ Text.tuple [toString entry.row, toString entry.col] ++ "\t" ++ entry.value.written)
  let half := mostListed / 2
  let count := matrix.entries.length
  matrix.written ++
    if count = 0 then ""
    else if count ≤ mostListed then "\n  Coords\tValues\n" ++ lines matrix.entries
    else
      "\n  Coords\tValues\n" ++ lines (matrix.entries.take half) ++ "\n  :\t:\n" ++
        lines (matrix.entries.drop (count - half))

namespace Datum

mutual

def written : Datum → String
  | .absent => "None"
  | .truth value => if value then "True" else "False"
  | .integer value => toString value
  | .real value => value.written
  | .text value => Text.quoted value
  | .list items => Text.bracketed (writtenItems items)
  | .record fields => "\x7b" ++ Text.commaSeparated (writtenFields fields) ++ "\x7d"
  | .cone kind => "<Cone." ++ kind.label ++ ": " ++ toString kind.number ++ ">"
  | .sense way => "<Sense." ++ way.label ++ ": " ++ toString way.sign ++ ">"
  | .zeros shape => Text.zeroArray shape
  | .sparse matrix => matrix.written

def writtenItems : List Datum → List String
  | [] => []
  | item :: items => item.written :: writtenItems items

def writtenFields : List (String × Datum) → List String
  | [] => []
  | (name, value) :: fields => (Text.quoted name ++ ": " ++ value.written) :: writtenFields fields

end

mutual

/-- No integer in the value has too many digits to be written. -/
def isWritable : Datum → Bool
  | .integer value => Capacity.Writable value
  | .list items => areWritable items
  | .record fields => areWritableFields fields
  | _ => true

def areWritable : List Datum → Bool
  | [] => true
  | item :: items => item.isWritable && areWritable items

def areWritableFields : List (String × Datum) → Bool
  | [] => true
  | (_, value) :: fields => value.isWritable && areWritableFields fields

end

/-- The written form within a sentence, where a text stands without quotes, an array without a name,
and a matrix with its entries. -/
def plainText : Datum → String
  | .text value => value
  | .cone kind => toString kind.number
  | .sense way => toString way.sign
  | .zeros shape => Text.bareZeroArray shape
  | .sparse matrix => matrix.listing
  | d => d.written

/-- The value can be written in a sentence: a matrix is listed there entry by entry, and none may
have strayed. -/
def isListable : Datum → Bool
  | .sparse matrix => matrix.isInside
  | _ => true

def memberLabel? : Datum → Option String
  | .cone kind => some kind.label
  | .sense way => some way.label
  | _ => none

def ofExtents [Machine] (extents : List Int) : Except DataFault Datum :=
  (Capacity.arrayExtents 8 extents).map .zeros

end Datum
end ConicForm
