import ConicForm.Proofs.FormFeasibility

/-! Rows always make a form, as long as the cones cover the inequalities and the order is one of the
variables. What a form is made of determines it. -/
namespace ConicForm

namespace StandardForm

/-- Rows make a form if the cones, the orthant included, have as many rows as there are
inequalities. -/
theorem exists_ofRows {npos : ℕ} {sizes : List ℕ} {inequalities : List ConstraintRow}
    {objective : List Binary64} {order : VariableOrder}
    (covered : inequalities.length = npos + sizes.sum) (sized : order.size = objective.length)
    (equalities : List ConstraintRow) (sense : Sense) :
    ∃ form, ofRows npos sizes inequalities equalities objective sense order = .ok form := by
  have rows : (npos : ℤ) + Cone.totalSize (sizes.map fun size : ℕ => (size : ℤ)) =
      inequalities.length := by
    rw [Cone.totalSize_eq_sum, ← Nat.cast_list_sum, covered, Nat.cast_add]
  simp [ofRows, make, bind, Except.bind, Amount.plus_integer, Except.mapError, Amount.agrees, rows,
    Datum.compare_integer, expect, ConstraintRow.rows_matrix, ConstraintRow.cols_matrix,
    ConstraintRow.bounds, NumberArray.ofVector, sized]

theorem MadeOf.unique {form other : StandardForm} {npos : ℕ} {sizes : List ℕ}
    {inequalities equalities : List ConstraintRow} {objective : List Binary64} {sense : Sense}
    {order : VariableOrder}
    (made : form.MadeOf npos sizes inequalities equalities objective sense order)
    (also : other.MadeOf npos sizes inequalities equalities objective sense order) :
    form = other := by
  obtain ⟨orthant, _, sizes, G, h, A, b, c, sense, order⟩ := made
  obtain ⟨orthant', _, sizes', G', h', A', b', c', sense', order'⟩ := also
  cases form
  cases other
  simp_all

end StandardForm
end ConicForm
