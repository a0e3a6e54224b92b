/-! A value that cannot be read or kept, or a failure outside the formulation of a problem. None of
these is explained by a message. -/
namespace ConicForm

inductive DataFault where
  | wrongType
  | malformed
  | tooLarge
  | outOfMemory
  | notImplemented
  | notNumeric
  | positionOutside
  | coneUnplaced
  | fieldMissing
  | formMissing
  | senseMissing
  | fieldFixed
  | solverRaised (name : String)
deriving DecidableEq

end ConicForm
