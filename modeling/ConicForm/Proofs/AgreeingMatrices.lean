import ConicForm.Proofs.ComparedProblems
import ConicForm.Proofs.RowCounts

/-! Problems whose matrices agree position by position, in whatever way numbers are compared. Rows
are moved, negated at most and gathered by column, so that the matrices of the forms agree in the
same way, and nothing else of the forms differs. -/
namespace ConicForm

open Outcome (Related)

variable {same : Option Binary64 → Option Binary64 → Prop}

/-- Two matrices by rows of one size that have the same at every position, each at most once. -/
structure RowMatrix.Agree (same : Option Binary64 → Option Binary64 → Prop)
    (matrix other : RowMatrix) : Prop where
  cols : other.cols = matrix.cols
  inside : matrix.isInside
  otherInside : other.isInside
  lines : List.Forall₂ (Line.Agree same) matrix.lines other.lines

theorem RowMatrix.Agree.row {matrix other : RowMatrix} (agree : matrix.Agree same other)
    (keeps : KeptByNegation same) (i : ℕ) : (matrix.row i).Agree same (other.row i) := by
  obtain ⟨count, each⟩ := List.forall₂_iff_get.1 agree.lines
  unfold RowMatrix.row
  by_cases below : i < matrix.lines.length
  · rw [List.getElem?_eq_getElem below, List.getElem?_eq_getElem (count ▸ below)]
    exact each i below (count ▸ below)
  · rw [List.getElem?_eq_none (Nat.le_of_not_lt below),
      List.getElem?_eq_none (count ▸ Nat.le_of_not_lt below)]
    exact .nil keeps

theorem RowMatrix.Agree.checkInside_eq {matrix other : RowMatrix}
    (agree : matrix.Agree same other) : other.checkInside = matrix.checkInside := by
  rw [checkInside, checkInside, if_pos agree.inside, if_pos agree.otherInside]

namespace StandardForm

/-- Two forms whose matrices have the same at every position, with all else in common. -/
structure Agree (same : Option Binary64 → Option Binary64 → Prop) (form other : StandardForm) :
    Prop where
  orthant : other.orthant = form.orthant
  sizes : other.sizes = form.sizes
  G : form.G.Agree same other.G
  h : other.h = form.h
  A : form.A.Agree same other.A
  b : other.b = form.b
  c : other.c = form.c
  sense : other.sense = form.sense
  order : other.order = form.order

theorem Agree.eq {form other : StandardForm} (agree : form.Agree Eq other) : form = other := by
  obtain ⟨orthant, sizes, G, h, A, b, c, sense, order⟩ := agree
  have sameG := G.eq
  have sameA := A.eq
  cases form
  cases other
  simp_all

/-- Rows that agree make forms that agree. -/
theorem ofRows_agree (keeps : KeptByNegation same) {npos : ℕ} {sizes : List ℕ}
    {inequalities others equalities otherEqualities : List ConstraintRow}
    {objective : List Binary64} {order : VariableOrder}
    (covered : inequalities.length = npos + sizes.sum) (sized : order.size = objective.length)
    (forG : List.Forall₂ (ConstraintRow.Agree same) inequalities others)
    (forA : List.Forall₂ (ConstraintRow.Agree same) equalities otherEqualities) (sense : Sense) :
    Related (Agree same)
      (ofRows npos sizes inequalities equalities objective sense order)
      (ofRows npos sizes others otherEqualities objective sense order) := by
  obtain ⟨form, built⟩ := exists_ofRows covered sized equalities sense
  obtain ⟨other, also⟩ := exists_ofRows (forG.length_eq ▸ covered) sized otherEqualities sense
  have made := madeOf_ofRows built
  have alsoMade := madeOf_ofRows also
  rw [built, also]
  constructor
  · rw [alsoMade.orthant, made.orthant]
  · rw [alsoMade.sizes, made.sizes]
  · rw [alsoMade.G, made.G]
    exact ConstraintRow.agree_matrix forG keeps _
  · rw [alsoMade.h, made.h, ConstraintRow.map_bound_eq (fun _ _ own => own.bound) forG]
  · rw [alsoMade.A, made.A]
    exact ConstraintRow.agree_matrix forA keeps _
  · rw [alsoMade.b, made.b, ConstraintRow.map_bound_eq (fun _ _ own => own.bound) forA]
  · rw [alsoMade.c, made.c]
  · rw [alsoMade.sense, made.sense]
  · rw [alsoMade.order, made.order]

end StandardForm

namespace ConicProblem

/-- Two problems that differ in nothing but their matrices, which agree. -/
structure Agree (same : Option Binary64 → Option Binary64 → Prop) (problem other : ConicProblem) :
    Prop where
  matrix : problem.matrix.Agree same other.matrix
  cols : problem.matrix.cols = problem.objective.length
  rest : other = { problem with matrix := other.matrix }

theorem isSign_of_orthantCoefficient? {kind : Cone} {factor : Binary64}
    (chosen : orthantCoefficient? kind = some factor) : factor.IsSign := by
  cases kind <;> cases chosen
  · exact .negOne
  · exact .one

theorem isSign_of_orthantFactor? {kind : Cone} {factor : Binary64}
    (chosen : orthantFactor? kind = some factor) : factor.IsSign := by
  cases kind <;> cases chosen
  · exact .one
  · exact .negOne

theorem eq_of_onlyFor {only kind : Cone} {given factor : Binary64}
    (chosen : onlyFor only given kind = some factor) : given = factor := by
  unfold onlyFor at chosen
  split at chosen
  · exact Option.some.inj chosen
  · cases chosen

section Rows

variable {problem : ConicProblem} {other : RowMatrix} (agree : problem.matrix.Agree same other)
  (keeps : KeptByNegation same) {place : ℤ → ℤ}
  (injective : ∀ i j : ℤ, 0 ≤ i ∧ i < problem.matrix.cols → 0 ≤ j ∧ j < problem.matrix.cols →
    place i = place j → i = j)
include agree keeps injective

theorem agree_movedRow {factor : Binary64} (sign : factor.IsSign) (index : ℤ) :
    (problem.movedRow place factor index).Agree same
      (movedRow { problem with matrix := other } place factor index) := by
  have within := RowMatrix.within_row agree.inside index.toNat
  have otherWithin := RowMatrix.within_row agree.otherInside index.toNat
  rw [agree.cols] at otherWithin
  have moved := (agree.row keeps index.toNat).reposition keeps within otherWithin injective
  exact ConstraintRow.agree_scale moved keeps sign _

/-- A group of rows: those of variables are the same, those of constraints agree. -/
theorem agree_groups (ofVariable ofRow : Cone → Option Binary64)
    (variableSigns : ∀ kind factor, ofVariable kind = some factor → factor.IsSign)
    (rowSigns : ∀ kind factor, ofRow kind = some factor → factor.IsSign) :
    List.Forall₂ (ConstraintRow.Agree same)
      (rowsUnder problem.variableCones ofVariable (unitRow place) ++
        rowsUnder problem.rowCones ofRow (problem.movedRow place))
      (rowsUnder problem.variableCones ofVariable (unitRow place) ++
        rowsUnder problem.rowCones ofRow (movedRow { problem with matrix := other } place)) := by
  refine List.rel_append ?_ ?_
  · exact forall₂_rowsUnder fun kind factor chosen _ =>
      ConstraintRow.agree_unit keeps _ (variableSigns kind factor chosen) _
  · exact forall₂_rowsUnder fun kind factor chosen index =>
      agree_movedRow agree keeps injective (rowSigns kind factor chosen) index

theorem agree_equalityRows : List.Forall₂ (ConstraintRow.Agree same) (problem.equalityRows place)
    (equalityRows { problem with matrix := other } place) := by
  refine List.rel_append ?_ ?_
  · rw [List.forall₂_map_left_iff]
    refine List.forall₂_map_right_iff.2 (List.forall₂_same.2 fun i _ => ?_)
    exact agree_movedRow agree keeps injective .one i
  · exact forall₂_rowsUnder fun _ _ chosen _ =>
      ConstraintRow.agree_unit keeps _ (eq_of_onlyFor chosen ▸ .one) _

end Rows

theorem Agree.standardForm_related {problem other : ConicProblem}
    (agrees : problem.Agree same other) (keeps : KeptByNegation same) :
    Related (StandardForm.Agree same) problem.standardForm other.standardForm := by
  obtain ⟨agree, cols, rest⟩ := agrees
  rw [rest]
  refine ConicProblem.standardForm_related rfl rfl rfl rfl agree.checkInside_eq
    fun reverse arranged _ _ => ?_
  have perm := VariableOrder.perm_of_arrange arranged
  have injective : ∀ i j : ℤ, 0 ≤ i ∧ i < problem.matrix.cols → 0 ≤ j ∧ j < problem.matrix.cols →
      VariableOrder.place reverse i = VariableOrder.place reverse j → i = j := by
    rw [cols]
    exact fun i j => VariableOrder.place_injective perm
  have orthant := agree_groups agree keeps injective orthantCoefficient? orthantFactor?
    (fun _ _ => isSign_of_orthantCoefficient?) (fun _ _ => isSign_of_orthantFactor?)
  have secondOrder := agree_groups agree keeps injective (onlyFor .secondOrder (-Binary64.one))
    (onlyFor .secondOrder .one) (fun _ _ chosen => eq_of_onlyFor chosen ▸ .negOne)
    (fun _ _ chosen => eq_of_onlyFor chosen ▸ .one)
  have covered := problem.length_inequalities (VariableOrder.place reverse)
  have sized := problem.size_ofReverse_eq reverse
  have made := StandardForm.ofRows_agree keeps covered sized (List.rel_append orthant secondOrder)
    (agree_equalityRows agree keeps injective) problem.sense
  have count : (orthantRows { problem with matrix := other.matrix }
      (VariableOrder.place reverse)).length =
        (problem.orthantRows (VariableOrder.place reverse)).length := orthant.length_eq.symm
  unfold assembled
  simp only [count]
  exact made

/-- Matrices that are read as rows that agree make the same of a problem of their size. -/
theorem load_agree [Machine] (keeps : KeptByNegation same) {d other : Datum} {rows cols : ℕ}
    {matrix moved : RowMatrix} (read : d.toRows (.integer rows) (.integer cols) = .ok matrix)
    (also : other.toRows (.integer rows) (.integer cols) = .ok moved)
    (agree : matrix.Agree same moved) {input : Input} (height : input.bounds.numbers.length = rows)
    (width : input.objective.numbers.length = cols) :
    Related (StandardForm.Agree same) (load { input with matrix := d })
      (load { input with matrix := other }) := by
  have reads : Related (Agree same) (ConicProblem.read { input with matrix := d })
      (ConicProblem.read { input with matrix := other }) := by
    unfold ConicProblem.read
    refine (Outcome.related_eq _).bind fun sense _ _ _ equal => ?_
    cases equal
    refine (Outcome.related_eq _).bind fun cones _ _ _ equal => ?_
    cases equal
    refine (Outcome.related_eq _).bind fun objective _ objectiveRead _ equal => ?_
    cases equal
    refine (Outcome.related_eq _).bind fun bounds _ boundsRead _ equal => ?_
    cases equal
    rw [Datum.numbers_of_toEntries objectiveRead] at width
    rw [Datum.numbers_of_toEntries boundsRead] at height
    have sized := (Datum.shape_toRows read).2
    rw [height, width, read, also]
    exact ⟨agree, sized.trans width.symm, rfl⟩
  exact reads.bind fun _ _ _ _ agrees => agrees.standardForm_related keeps

end ConicProblem

namespace LinearProblem

/-- Two problems that differ in nothing but their matrices, which agree. -/
structure Agree (same : Option Binary64 → Option Binary64 → Prop) (problem other : LinearProblem) :
    Prop where
  matrix : problem.matrix.Agree same other.matrix
  rest : other = { problem with matrix := other.matrix }

/-- Rows that agree and have the same bounds. -/
def AgreeingRows (same : Option Binary64 → Option Binary64 → Prop) (row other : Line × Bounds) :
    Prop :=
  row.1.Agree same other.1 ∧ other.2 = row.2

theorem agreeingRows_zip {lines others : List Line}
    (agree : List.Forall₂ (Line.Agree same) lines others) (bounds : List Bounds) :
    List.Forall₂ (AgreeingRows same) (lines.zip bounds) (others.zip bounds) := by
  induction agree generalizing bounds with
  | nil => exact .nil
  | cons own _ ih =>
    cases bounds with
    | nil => exact .nil
    | cons first bounds => exact .cons ⟨own, rfl⟩ (ih bounds)

theorem agree_equality? (keeps : KeptByNegation same) (row other : Line × Bounds)
    (agree : AgreeingRows same row other) :
    Option.Rel (ConstraintRow.Agree same) (equality? row) (equality? other) := by
  obtain ⟨line, _⟩ := row
  obtain ⟨moved, bounds⟩ := other
  obtain ⟨own, rfl⟩ := agree
  simp only [equality?]
  cases bounds.rowKind with
  | equality => exact .some (ConstraintRow.agree_scale own keeps .one _)
  | _ => exact .none

theorem agree_inequality? (keeps : KeptByNegation same) (row other : Line × Bounds)
    (agree : AgreeingRows same row other) :
    Option.Rel (ConstraintRow.Agree same) (inequality? row) (inequality? other) := by
  obtain ⟨line, _⟩ := row
  obtain ⟨moved, bounds⟩ := other
  obtain ⟨own, rfl⟩ := agree
  simp only [inequality?]
  cases bounds.rowKind with
  | atMost => exact .some (ConstraintRow.agree_scale own keeps .one _)
  | atLeast => exact .some (ConstraintRow.agree_scale own keeps .negOne _)
  | _ => exact .none

theorem agree_of_mem_boundRows (keeps : KeptByNegation same) {col : ℤ} {bounds : Bounds}
    {row : ConstraintRow} (member : row ∈ boundRows col bounds) : row.Agree same row := by
  rcases List.mem_append.1 member with lower | upper
  · split at lower
    · rw [List.mem_singleton.1 lower]
      exact ConstraintRow.agree_unit keeps col .negOne _
    · cases lower
  · split at upper
    · rw [List.mem_singleton.1 upper]
      exact ConstraintRow.agree_unit keeps col .one _
    · cases upper

theorem Agree.standardForm_related {problem other : LinearProblem}
    (agrees : problem.Agree same other) (keeps : KeptByNegation same) :
    Related (StandardForm.Agree same) problem.standardForm other.standardForm := by
  obtain ⟨agree, rest⟩ := agrees
  rw [rest]
  refine LinearProblem.standardForm_related rfl agree.checkInside_eq fun _ => ?_
  have rows := agreeingRows_zip agree.lines problem.rowBounds
  have forG : List.Forall₂ (ConstraintRow.Agree same) problem.inequalities
      (inequalities { problem with matrix := other.matrix }) := by
    refine List.rel_append (List.rel_filterMap (agree_inequality? keeps) rows) ?_
    refine List.forall₂_same.2 fun row member => ?_
    obtain ⟨column, _, own⟩ := List.mem_flatMap.1 member
    exact agree_of_mem_boundRows keeps own
  have forA : List.Forall₂ (ConstraintRow.Agree same) problem.equalities
      (equalities { problem with matrix := other.matrix }) :=
    List.rel_filterMap (agree_equality? keeps) rows
  have sized : (VariableOrder.identity problem.objective.length).size =
      (problem.sense.toMinimize problem.objective).length := by
    rw [VariableOrder.size_identity, Sense.length_toMinimize]
  have covered : problem.inequalities.length = problem.inequalities.length + [].sum := rfl
  have made := StandardForm.ofRows_agree keeps covered sized forG forA problem.sense
  have count : (inequalities { problem with matrix := other.matrix }).length =
      problem.inequalities.length := forG.length_eq.symm
  unfold assembled
  rw [count]
  exact made

/-- Matrices that are read as rows that agree make the same of a problem of their size. -/
theorem load_agree [Machine] (keeps : KeptByNegation same) {d other : Datum} {rows cols : ℕ}
    {matrix moved : RowMatrix} (read : d.toRows (.integer rows) (.integer cols) = .ok matrix)
    (also : other.toRows (.integer rows) (.integer cols) = .ok moved)
    (agree : matrix.Agree same moved) {input : Input}
    (height : input.rowLower.numbers.length = rows)
    (width : input.columnLower.numbers.length = cols) :
    Related (StandardForm.Agree same) (load { input with matrix := d })
      (load { input with matrix := other }) := by
  have reads : Related (Agree same) (LinearProblem.read { input with matrix := d })
      (LinearProblem.read { input with matrix := other }) := by
    unfold LinearProblem.read
    refine (Outcome.related_eq _).bind fun sense _ _ _ equal => ?_
    cases equal
    refine (Outcome.related_eq _).bind fun columnLower _ columnsRead _ equal => ?_
    cases equal
    refine (Outcome.related_eq _).bind fun columnUpper _ _ _ equal => ?_
    cases equal
    refine (Outcome.related_eq _).bind fun rowLower _ rowsRead _ equal => ?_
    cases equal
    refine (Outcome.related_eq _).bind fun rowUpper _ _ _ equal => ?_
    cases equal
    refine (Outcome.related_eq _).bind fun objective _ _ _ equal => ?_
    cases equal
    refine (Outcome.related_eq _).bind fun _ _ _ _ _ => ?_
    refine (Outcome.related_eq _).bind fun _ _ _ _ _ => ?_
    refine (Outcome.related_eq _).bind fun _ _ _ _ _ => ?_
    rw [Datum.numbers_of_toVector columnsRead] at width
    rw [Datum.numbers_of_toVector rowsRead] at height
    rw [height, width, read, also]
    exact ⟨agree, rfl⟩
  exact reads.bind fun _ _ _ _ agrees => agrees.standardForm_related keeps

end LinearProblem
end ConicForm
