import ConicForm.Datum.Number

/-! How a caller designates a kind of cone and the sense of an objective. -/
namespace ConicForm

/-- Reads a kind of cone: a member, a name, or a number whose fraction is cut off. -/
def Cone.ofDatum (d : Datum) : Except Fault Cone :=
  let refusal : Except Fault Cone := .error (Fault.cone (.undesignated d)).raised
  match d with
  | .cone kind => .ok kind
  | .text name => (Cone.ofName? name).elim refusal .ok
  | .real (.infinity _) => .error (.data .tooLarge)
  | .real value => (value.truncate?.bind Cone.ofNumber?).elim refusal .ok
  | .zeros [] => .ok .zero
  | d => (d.exactInteger?.bind Cone.ofNumber?).elim refusal .ok

/-- Reads the sense of an objective: a member or a name, never a number. -/
def Sense.ofDatum (d : Datum) : Except Fault Sense :=
  match d with
  | .sense way => .ok way
  | .text name => (Sense.ofName? name).elim (.error (.sense d)) .ok
  | d => .error (if d.isTestable then (Fault.sense d).raised else .data .malformed)

end ConicForm
