import ConicForm.Proofs.LinearFeasibility
import ConicForm.Proofs.Relabelling

/-! Two problems that every check treats alike. They fail in the same way, so that what is known of
the forms that their rows make is known of the problems. -/
namespace ConicForm

open Outcome (Related)

namespace Outcome

variable {ε : Type u} {α β : Type v}

theorem Related.imp {first : Except ε α} {second : Except ε β} {before after : α → β → Prop}
    (related : Related before first second) (weaken : ∀ value other, before value other →
      after value other) : Related after first second := by
  cases first <;> cases second
  · exact related
  · exact related
  · exact related
  · exact weaken _ _ related

/-- Of two related outcomes one is a success if the other one is. -/
theorem Related.exists_iff {first : Except ε α} {second : Except ε β} {related : α → β → Prop}
    (own : Related related first second) :
    (∃ value, first = .ok value) ↔ ∃ value, second = .ok value := by
  cases first <;> cases second
  · simp
  · exact own.elim
  · exact own.elim
  · simp

theorem eq_of_related {first second : Except ε α} (related : Related Eq first second) :
    first = second := by
  cases first <;> cases second
  · exact congrArg Except.error related
  · exact related.elim
  · exact related.elim
  · exact congrArg Except.ok related

end Outcome

variable {related : StandardForm → StandardForm → Prop}

namespace ConicProblem

/-- The form that the rows of a problem make once its variables are arranged. -/
def assembled (problem : ConicProblem) (reverse : List ℕ) : Except Fault StandardForm :=
  let place := VariableOrder.place reverse
  StandardForm.ofRows (problem.orthantRows place).length problem.sizes
    (problem.orthantRows place ++ problem.secondOrderRows place) (problem.equalityRows place)
    (problem.sense.toMinimize (problem.movedObjective reverse)) problem.sense
    (VariableOrder.ofReverse reverse)

theorem standardForm_eq_assembled (problem : ConicProblem) :
    problem.standardForm =
      VariableOrder.assign .rows problem.bounds.length []
        (VariableOrder.listed problem.rowCones) >>= fun _ =>
      VariableOrder.arrange problem.variableCones problem.objective.length >>= fun reverse =>
      problem.matrix.checkInside.mapError Fault.data >>= fun _ => problem.assembled reverse := rfl

/-- Cones, sizes and the place of every entry are all that is checked of a conic problem. -/
theorem standardForm_related {problem other : ConicProblem}
    (rowCones : other.rowCones = problem.rowCones)
    (variableCones : other.variableCones = problem.variableCones)
    (rowCount : other.bounds.length = problem.bounds.length)
    (size : other.objective.length = problem.objective.length)
    (inside : other.matrix.checkInside = problem.matrix.checkInside)
    (forms : ∀ reverse,
      VariableOrder.arrange problem.variableCones problem.objective.length = .ok reverse →
        (∀ i ∈ VariableOrder.listed problem.rowCones, 0 ≤ i) → problem.matrix.isInside →
          Related related (problem.assembled reverse) (other.assembled reverse)) :
    Related related problem.standardForm other.standardForm := by
  rw [standardForm_eq_assembled, standardForm_eq_assembled, rowCones, variableCones, rowCount, size,
    inside]
  refine (Outcome.related_eq _).bind fun _ _ assigned _ _ => ?_
  refine (Outcome.related_eq _).bind fun reverse _ arranged _ same => ?_
  cases same
  refine (Outcome.related_eq _).bind fun _ _ checked _ _ => ?_
  have rows := ((VariableOrder.assign_eq_ok_iff List.nodup_nil).1 assigned).1
  exact forms reverse arranged (fun i listed => (rows i listed).1)
    (RowMatrix.isInside_of_check (Outcome.mapError_eq_ok_iff.1 checked))

end ConicProblem

namespace LinearProblem

/-- The form that the rows of a problem make. -/
def assembled (problem : LinearProblem) : Except Fault StandardForm :=
  StandardForm.ofRows problem.inequalities.length [] problem.inequalities problem.equalities
    (problem.sense.toMinimize problem.objective) problem.sense
    (VariableOrder.identity problem.objective.length)

/-- The bounds of the rows and the place of every entry are all that is checked of a linear
problem. -/
theorem standardForm_related {problem other : LinearProblem}
    (rowBounds : other.rowBounds = problem.rowBounds)
    (inside : other.matrix.checkInside = problem.matrix.checkInside)
    (forms : problem.matrix.isInside → Related related problem.assembled other.assembled) :
    Related related problem.standardForm other.standardForm := by
  have kinds (kind : RowKind) : other.rowsOfKind kind = problem.rowsOfKind kind := by
    rw [rowsOfKind, rowsOfKind, rowBounds]
  unfold standardForm
  rw [kinds, kinds, inside]
  split
  · refine (Outcome.related_eq _).bind fun _ _ checked _ _ => ?_
    exact forms (RowMatrix.isInside_of_check (Outcome.mapError_eq_ok_iff.1 checked))
  · exact rfl
  · exact rfl

end LinearProblem
end ConicForm
