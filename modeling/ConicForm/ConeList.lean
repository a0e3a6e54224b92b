import ConicForm.Designation
import ConicForm.VariableOrder

/-! Lists of cones with their indices, as they are given and as they are checked before anything
is built. All kinds are read and checked before any index is, so that a kind without a standard
form is reported first. -/
namespace ConicForm

namespace ConeList

def readKind [Machine] (entry : Datum) : Except Fault (Cone × Datum) :=
  entry.pair.bind fun parts => (Cone.ofDatum parts.1).map fun kind => (kind, parts.2)

def readIndices [Machine] (entry : Cone × Datum) : Except Fault ConeEntry :=
  entry.2.elements.bind fun indices =>
    (indices.mapM Datum.toIndex).map fun indices => (entry.1, indices)

def read [Machine] (cones : Datum) : Except Fault (List ConeEntry) :=
  cones.elements.bind fun entries => entries.mapM fun entry => (readKind entry).bind readIndices

def readKinds [Machine] (cones : Datum) : Except Fault (List (Cone × Datum)) :=
  cones.elements.bind fun entries => entries.mapM readKind

/-- Every kind must have a standard form. The first that has none is reported. -/
def checkSupported (entries : List (Cone × Datum)) : Except Fault Unit :=
  match entries.find? fun entry => !entry.1.isSupported with
  | some entry => .error (.cone (.unsupported entry.1))
  | none => .ok ()

def checkConstrained [Machine] (entries : List (Cone × Datum)) : Except Fault Unit :=
  match entries.find? fun entry => entry.1 == .free with
  | some entry =>
    entry.2.elements.bind fun rows => .error (Fault.constraint (.freeRows rows)).raised
  | none => .ok ()

def checkNonempty (entries : List ConeEntry) : Except Fault Unit :=
  if entries.any fun entry => entry.1 == .secondOrder && entry.2.isEmpty then
    .error (.index .emptySecondOrder)
  else .ok ()

def readBoth [Machine] (rowCones variableCones : Datum) :
    Except Fault (List ConeEntry × List ConeEntry) := do
  let rowKinds ← readKinds rowCones
  let variableKinds ← readKinds variableCones
  checkSupported (rowKinds ++ variableKinds)
  checkConstrained rowKinds
  let rowEntries ← rowKinds.mapM readIndices
  let variableEntries ← variableKinds.mapM readIndices
  checkNonempty (rowEntries ++ variableEntries)
  return (rowEntries, variableEntries)

def toDatum (entries : List ConeEntry) : Datum :=
  .list (entries.map fun entry => .list [.cone entry.1, .list (entry.2.map .integer)])

end ConeList
end ConicForm
