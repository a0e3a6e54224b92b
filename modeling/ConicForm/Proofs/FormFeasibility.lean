import ConicForm.ConstraintRow
import ConicForm.Proofs.Arrangement
import ConicForm.Proofs.Outcome
import ConicForm.Proofs.SparseRows

/-! Which vectors a standard form admits. A form that is made of rows admits a vector exactly when
every equality has no slack left and the slacks of the inequalities are in the cones, in turn. -/
namespace ConicForm

variable {K : Type*} [Field K]

namespace Cone

variable [LinearOrder K]

/-- Values in a cone of a kind. The kinds without a standard form are left out, as no problem that
is loaded puts anything in them. -/
def Contains (kind : Cone) (values : List K) : Prop :=
  match kind with
  | .zero => ∀ v ∈ values, v = 0
  | .nonneg => ∀ v ∈ values, 0 ≤ v
  | .nonpos => ∀ v ∈ values, v ≤ 0
  | .secondOrder =>
    match values with
    | [] => False
    | head :: rest => 0 ≤ head ∧ (rest.map fun v => v ^ 2).sum ≤ head ^ 2
  | .free => True
  | .semidefinite | .expPrimal | .expDual | .rotatedSecondOrder => False

/-- Consecutive slices of some sizes are in second-order cones. -/
def ContainsSlices : List ℤ → List K → Prop
  | [], _ => True
  | size :: sizes, values =>
    secondOrder.Contains (values.take size.toNat) ∧ ContainsSlices sizes (values.drop size.toNat)

/-- The first values are nonnegative, and the rest is in second-order cones. -/
def ContainsProduct (npos : ℤ) (sizes : List ℤ) (values : List K) : Prop :=
  (∀ v ∈ values.take npos.toNat, 0 ≤ v) ∧ ContainsSlices sizes (values.drop npos.toNat)

/-- Blocks one after the other are the slices of their sizes. -/
theorem containsSlices_flatten (blocks : List (List K)) :
    ContainsSlices (blocks.map fun block => (block.length : ℤ)) blocks.flatten ↔
      ∀ block ∈ blocks, secondOrder.Contains block := by
  induction blocks with
  | nil => simp [ContainsSlices]
  | cons block blocks ih => simp [ContainsSlices, ih]

theorem containsProduct_append {npos : ℤ} {sizes : List ℤ} {orthant rest : List K}
    (size : npos = orthant.length) :
    ContainsProduct npos sizes (orthant ++ rest) ↔
      (∀ v ∈ orthant, 0 ≤ v) ∧ ContainsSlices sizes rest := by
  subst size
  simp [ContainsProduct]

theorem containsProduct_nil {npos : ℤ} {values : List K} (size : npos = values.length) :
    ContainsProduct npos [] values ↔ ∀ v ∈ values, 0 ≤ v := by
  subst size
  simp [ContainsProduct, ContainsSlices]

end Cone

namespace ConstraintRow

/-- What the row leaves of its right-hand side. -/
def slack (y : ℤ → K) (row : ConstraintRow) : K :=
  (row.bound.toRat : K) - row.line.product y

/-- The row stores columns of a matrix, and none of them twice. -/
def FitsIn (cols : ℕ) (row : ConstraintRow) : Prop := row.line.Distinct ∧ row.line.Within cols

theorem slack_unit (col : ℤ) (coefficient bound : Binary64) (y : ℤ → K) :
    (unit col coefficient bound).slack y =
      (bound.toRat : K) - (coefficient.toRat : K) * y col := by
  simp [slack, unit, Line.product]

theorem scale_one (row : ConstraintRow) : row.scale .one = row := by
  simp [scale, Line.scale, Binary64.one_mul]

theorem slack_scale_one (row : ConstraintRow) (y : ℤ → K) :
    (row.scale .one).slack y = row.slack y := by
  rw [scale_one]

theorem slack_scale_neg_one (row : ConstraintRow) (y : ℤ → K) :
    (row.scale (-.one)).slack y = -row.slack y := by
  simp only [slack, scale, Binary64.neg_one_mul, Binary64.toRat_neg, Rat.cast_neg,
    Line.product_scale_neg_one]
  ring

theorem fitsIn_unit {cols : ℕ} {col : ℤ} (lower : 0 ≤ col) (upper : col < cols)
    (coefficient bound : Binary64) : (unit col coefficient bound).FitsIn cols := by
  refine ⟨List.nodup_singleton _, fun entry member => ?_⟩
  rw [List.mem_singleton.1 member]
  exact ⟨lower, upper⟩

theorem FitsIn.scale {cols : ℕ} {row : ConstraintRow} (fits : row.FitsIn cols)
    (factor : Binary64) : (row.scale factor).FitsIn cols :=
  ⟨fits.1.scale factor, fits.2.scale factor⟩

/-- A row of the matrix has the product of the row it was made of. -/
theorem product_matrix [CharZero K] {cols : ℕ} {rows : List ConstraintRow}
    (fit : ∀ row ∈ rows, row.FitsIn cols) (y : List K) {i : ℕ} (inside : i < rows.length) :
    (matrix cols rows).product y i = rows[i].line.product (entryAt y) := by
  let lines : RowMatrix := ⟨cols, rows.map ConstraintRow.line⟩
  have distinct : ∀ line ∈ lines.lines, line.Distinct := by
    intro line member
    obtain ⟨row, stored, rfl⟩ := List.mem_map.1 member
    exact (fit row stored).1
  have within : ∀ line ∈ lines.lines, line.Within lines.cols := by
    intro line member
    obtain ⟨row, stored, rfl⟩ := List.mem_map.1 member
    exact (fit row stored).2
  have below : i < lines.lines.length := by simpa [lines] using inside
  have gathered := ColumnMatrix.product_ofRows distinct within y below
  simpa only [lines, matrix, List.getElem_map] using gathered

end ConstraintRow

/-- What the rows of a matrix leave of their right-hand sides. -/
def slacks (G : ColumnMatrix) (h : List Binary64) (y : List K) : List K :=
  (List.range G.rows).map fun i => ((h.getD i .zero).toRat : K) - G.product y i

theorem slacks_matrix [CharZero K] {cols : ℕ} {rows : List ConstraintRow}
    (fit : ∀ row ∈ rows, row.FitsIn cols) (y : List K) :
    slacks (ConstraintRow.matrix cols rows) (rows.map ConstraintRow.bound) y =
      rows.map (ConstraintRow.slack (entryAt y)) := by
  apply List.ext_getElem (by simp [slacks, ConstraintRow.rows_matrix])
  intro i _ right
  have inside : i < rows.length := by simpa using right
  simp [slacks, ConstraintRow.slack, ConstraintRow.product_matrix fit y inside,
    List.getD_eq_getElem?_getD, List.getElem?_eq_getElem inside]

/-- The minimized objective has the value of the caller's, up to the sign of the sense. -/
theorem Sense.exactDot_toMinimize (sense : Sense) (objective : List Binary64) (y : List K) :
    exactDot (rationals (sense.toMinimize objective)) y =
      (sense.sign : K) * exactDot (rationals objective) y := by
  cases sense with
  | minimize => simp [toMinimize, sign]
  | maximize => simp [toMinimize, sign, rationals_neg, exactDot_neg]

theorem Cone.totalSize_eq_sum (sizes : List ℤ) : totalSize sizes = sizes.sum := by
  induction sizes with
  | nil => rfl
  | cons size sizes ih => rw [totalSize, ih, List.sum_cons]

theorem Sense.length_toMinimize (sense : Sense) (objective : List Binary64) :
    (sense.toMinimize objective).length = objective.length := by
  cases sense <;> simp [toMinimize]

namespace StandardForm

variable [LinearOrder K]

/-- The form admits a vector. -/
structure Feasible (form : StandardForm) (y : List K) : Prop where
  equalities : ∀ i < form.p, form.A.product y i = ((form.b.getD i .zero).toRat : K)
  cone : Cone.ContainsProduct form.npos form.sizes (slacks form.G form.h y)

/-- Without second-order cones the inequalities are those of the rows, one by one. -/
theorem feasible_iff_of_sizes_nil [IsStrictOrderedRing K] {form : StandardForm}
    (none : form.sizes = []) (orthant : form.npos = form.m) (y : List K) :
    form.Feasible y ↔ (∀ i < form.p, form.A.product y i = ((form.b.getD i .zero).toRat : K)) ∧
      ∀ r < form.m, form.G.product y r ≤ ((form.h.getD r .zero).toRat : K) := by
  have npos : form.npos.toNat = form.m := by rw [orthant, Int.toNat_natCast]
  have whole : (slacks form.G form.h y).take form.npos.toNat = slacks form.G form.h y := by
    rw [List.take_of_length_le]
    simp [slacks, npos, m]
  have cone : Cone.ContainsProduct form.npos form.sizes (slacks form.G form.h y) ↔
      ∀ r < form.m, form.G.product y r ≤ ((form.h.getD r .zero).toRat : K) := by
    rw [Cone.ContainsProduct, whole, none]
    simp [Cone.ContainsSlices, slacks, m]
  rw [← cone]
  exact ⟨fun feasible => ⟨feasible.equalities, feasible.cone⟩,
    fun both => ⟨both.1, both.2⟩⟩

/-- In some order of the variables the form admits what is feasible for a caller, and has the
caller's objective up to the sign of the sense. -/
structure Restates (form : StandardForm) (feasible : List K → Prop) (objective : List ℚ) :
    Prop where
  arranged : ∃ reverse : List ℕ,
    reverse.Perm (List.range form.n) ∧ form.order = VariableOrder.ofReverse reverse
  orthant : form.orthant = .integer form.npos
  variableCount : objective.length = form.n
  feasible_iff : ∀ x, x.length = form.n → (feasible x ↔ form.Feasible (form.order.toForm x))
  objective_eq : ∀ x, x.length = form.n →
    exactDot (rationals form.c) (form.order.toForm x) = (form.sense.sign : K) * exactDot objective x

/-- The parts of a form that is made of rows, of which the cones have as many as there are. -/
structure MadeOf (form : StandardForm) (npos : ℕ) (sizes : List ℕ)
    (inequalities equalities : List ConstraintRow) (objective : List Binary64) (sense : Sense)
    (order : VariableOrder) : Prop where
  orthant : form.orthant = .integer npos
  covered : inequalities.length = npos + sizes.sum
  sizes : form.sizes = sizes.map fun size : ℕ => (size : ℤ)
  G : form.G = ConstraintRow.matrix objective.length inequalities
  h : form.h = inequalities.map ConstraintRow.bound
  A : form.A = ConstraintRow.matrix objective.length equalities
  b : form.b = equalities.map ConstraintRow.bound
  c : form.c = objective
  sense : form.sense = sense
  order : form.order = order

theorem expect_eq_ok {agrees : Bool} {cause : LengthFault}
    (accepted : expect agrees cause = .ok ()) : agrees = true := by
  unfold expect at accepted
  split at accepted
  · assumption
  · cases accepted

theorem madeOf_ofRows {npos : ℕ} {sizes : List ℕ} {inequalities equalities : List ConstraintRow}
    {objective : List Binary64} {sense : Sense} {order : VariableOrder} {form : StandardForm}
    (built : ofRows npos sizes inequalities equalities objective sense order = .ok form) :
    form.MadeOf npos sizes inequalities equalities objective sense order := by
  unfold ofRows make at built
  obtain ⟨covered, added, built⟩ := Outcome.andThen_eq_ok_iff.1 built
  rw [Outcome.mapError_eq_ok_iff, Amount.plus_integer] at added
  cases added
  obtain ⟨agrees, compared, built⟩ := Outcome.andThen_eq_ok_iff.1 built
  rw [Amount.agrees, Datum.compare_integer] at compared
  cases compared
  obtain ⟨_, rowsAgree, built⟩ := Outcome.andThen_eq_ok_iff.1 built
  have coneRows := expect_eq_ok rowsAgree
  obtain ⟨_, _, built⟩ := Outcome.andThen_eq_ok_iff.1 built
  obtain ⟨_, _, built⟩ := Outcome.andThen_eq_ok_iff.1 built
  obtain ⟨_, _, built⟩ := Outcome.andThen_eq_ok_iff.1 built
  obtain ⟨_, _, built⟩ := Outcome.andThen_eq_ok_iff.1 built
  obtain ⟨_, _, built⟩ := Outcome.andThen_eq_ok_iff.1 built
  split at built
  · obtain ⟨_, _, built⟩ := Outcome.andThen_eq_ok_iff.1 built
    split at built
    · split at built
      · cases built
        have covered : (inequalities.length : ℤ) =
            npos + Cone.totalSize (sizes.map fun size : ℕ => (size : ℤ)) := by
          simpa using coneRows
        rw [Cone.totalSize_eq_sum, ← Nat.cast_list_sum] at covered
        exact ⟨rfl, by exact_mod_cast covered, rfl, rfl, rfl, rfl, rfl, rfl, rfl, rfl⟩
      · cases built
    · cases built
  · cases built

theorem MadeOf.npos {form : StandardForm} {count : ℕ} {sizes : List ℕ}
    {inequalities equalities : List ConstraintRow} {objective : List Binary64} {sense : Sense}
    {order : VariableOrder}
    (made : form.MadeOf count sizes inequalities equalities objective sense order) :
    form.npos = count := by
  rw [StandardForm.npos, made.orthant]
  rfl

section Rows

variable {form : StandardForm} {npos : ℕ} {sizes : List ℕ}
  {inequalities equalities : List ConstraintRow} {objective : List Binary64} {sense : Sense}
  {order : VariableOrder}
  (made : form.MadeOf npos sizes inequalities equalities objective sense order)
include made

theorem MadeOf.m_eq : form.m = npos + sizes.sum := by
  rw [m, made.G, ConstraintRow.rows_matrix, made.covered]

theorem n_of_madeOf : form.n = objective.length := by
  rw [n, made.G, ConstraintRow.cols_matrix]

theorem p_of_madeOf : form.p = equalities.length := by
  rw [p, made.A, ConstraintRow.rows_matrix]

/-- A form made of rows admits what its rows admit. -/
theorem feasible_iff_of_madeOf [CharZero K]
    (fit : ∀ row ∈ inequalities, row.FitsIn objective.length)
    (fitEqualities : ∀ row ∈ equalities, row.FitsIn objective.length) (y : List K) :
    form.Feasible y ↔ (∀ row ∈ equalities, row.slack (entryAt y) = 0) ∧
      Cone.ContainsProduct npos (sizes.map fun size : ℕ => (size : ℤ))
        (inequalities.map (ConstraintRow.slack (entryAt y))) := by
  have cone : Cone.ContainsProduct form.npos form.sizes (slacks form.G form.h y) ↔
      Cone.ContainsProduct npos (sizes.map fun size : ℕ => (size : ℤ))
        (inequalities.map (ConstraintRow.slack (entryAt y))) := by
    rw [made.npos, made.sizes, made.G, made.h, slacks_matrix fit]
  have none : (∀ i < form.p, form.A.product y i = ((form.b.getD i .zero).toRat : K)) ↔
      ∀ row ∈ equalities, row.slack (entryAt y) = 0 := by
    rw [p_of_madeOf made, List.forall_mem_iff_getElem]
    apply forall₂_congr
    intro i inside
    rw [made.A, made.b, ConstraintRow.product_matrix fitEqualities y inside,
      List.getD_eq_getElem?_getD, List.getElem?_map, List.getElem?_eq_getElem inside,
      ConstraintRow.slack, sub_eq_zero]
    exact eq_comm
  exact ⟨fun feasible => ⟨none.1 feasible.equalities, cone.1 feasible.cone⟩,
    fun rows => ⟨none.2 rows.1, cone.2 rows.2⟩⟩

end Rows

end StandardForm
end ConicForm
