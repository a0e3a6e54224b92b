import ConicForm.ConicProblem
import ConicForm.Proofs.Arrangement
import ConicForm.Proofs.ConeReading
import ConicForm.Proofs.FormFeasibility
import ConicForm.Proofs.MatrixReading

/-! The rows that a conic problem is turned into. Each group of them admits a vector, in the order
of the form, exactly when the entries of the kinds it is made from have their part of the vector, or
of the slack, in their cones. -/
namespace ConicForm.ConicProblem

variable {K : Type*} [Field K]

/-- What a constraint row of a problem that has been read leaves of its right-hand side. -/
def slack (problem : ConicProblem) (x : List K) (i : ℤ) : K :=
  ((problem.bounds.getD i.toNat .zero).toRat : K) - (problem.matrix.row i.toNat).product (entryAt x)

/-- What reading ensures of a problem. -/
structure Regular (problem : ConicProblem) : Prop where
  cols : problem.matrix.cols = problem.objective.length
  distinct : ∀ i, (problem.matrix.row i).Distinct
  accepted : ConeList.Accepted problem.rowCones problem.variableCones

/-- What is known of a problem once it has a standard form. -/
structure Placed (problem : ConicProblem) (reverse : List ℕ) (form : StandardForm) : Prop where
  perm : reverse.Perm (List.range problem.objective.length)
  columns : ∀ j ∈ VariableOrder.listed problem.variableCones,
    0 ≤ j ∧ j < (problem.objective.length : ℤ)
  rows : ∀ i ∈ VariableOrder.listed problem.rowCones, 0 ≤ i ∧ i < (problem.bounds.length : ℤ)
  once : ((VariableOrder.listed problem.rowCones).map Int.toNat).Nodup
  inside : problem.matrix.isInside
  made : form.MadeOf (problem.orthantRows (VariableOrder.place reverse)).length problem.sizes
    (problem.orthantRows (VariableOrder.place reverse) ++
      problem.secondOrderRows (VariableOrder.place reverse))
    (problem.equalityRows (VariableOrder.place reverse))
    (problem.sense.toMinimize (problem.movedObjective reverse)) problem.sense
    (VariableOrder.ofReverse reverse)

theorem exists_arranged_of_standardForm {problem : ConicProblem} {form : StandardForm}
    (built : problem.standardForm = .ok form) : ∃ seen reverse,
      VariableOrder.assign .rows problem.bounds.length []
        (VariableOrder.listed problem.rowCones) = .ok seen ∧
      VariableOrder.arrange problem.variableCones problem.objective.length = .ok reverse ∧
      problem.Placed reverse form := by
  obtain ⟨seen, assigned, built⟩ := Outcome.andThen_eq_ok_iff.1 built
  obtain ⟨reverse, arranged, built⟩ := Outcome.andThen_eq_ok_iff.1 built
  obtain ⟨_, checked, built⟩ := Outcome.andThen_eq_ok_iff.1 built
  obtain ⟨rows, once, _⟩ := (VariableOrder.assign_eq_ok_iff List.nodup_nil).1 assigned
  obtain ⟨_, lower, listedOnce, _⟩ := VariableOrder.arrange_eq_ok_iff.1 arranged
  refine ⟨seen, reverse, assigned, arranged, VariableOrder.perm_of_arrange arranged,
    fun j member => ?_, rows, once, ?_, StandardForm.madeOf_ofRows built⟩
  · have below := List.mem_range.1 (listedOnce.mem_iff.1 (List.mem_map_of_mem member))
    exact ⟨lower j member, by omega⟩
  · exact RowMatrix.isInside_of_check (Outcome.mapError_eq_ok_iff.1 checked)

theorem placed_of_standardForm {problem : ConicProblem} {form : StandardForm}
    (built : problem.standardForm = .ok form) : ∃ reverse, problem.Placed reverse form := by
  obtain ⟨_, reverse, _, _, placed⟩ := exists_arranged_of_standardForm built
  exact ⟨reverse, placed⟩

/-- Once rows are listed at most once and variables are arranged, a problem has the form of its
rows. -/
theorem standardForm_of_arranged {problem : ConicProblem} {seen reverse : List ℕ}
    (assigned : VariableOrder.assign .rows problem.bounds.length []
      (VariableOrder.listed problem.rowCones) = .ok seen)
    (arranged : VariableOrder.arrange problem.variableCones problem.objective.length = .ok reverse)
    (inside : problem.matrix.isInside) :
    problem.standardForm =
      StandardForm.ofRows (problem.orthantRows (VariableOrder.place reverse)).length problem.sizes
        (problem.orthantRows (VariableOrder.place reverse) ++
          problem.secondOrderRows (VariableOrder.place reverse))
        (problem.equalityRows (VariableOrder.place reverse))
        (problem.sense.toMinimize (problem.movedObjective reverse)) problem.sense
        (VariableOrder.ofReverse reverse) := by
  have checked : problem.matrix.checkInside = .ok () := by rw [RowMatrix.checkInside, if_pos inside]
  unfold VariableOrder.listed at assigned
  simp only [standardForm, assigned, arranged, checked, bind, Except.bind, Except.mapError]
  rfl

theorem mem_rowsUnder {entries : List ConeEntry} {factor? : Cone → Option Binary64}
    {row : Binary64 → ℤ → ConstraintRow} {made : ConstraintRow} :
    made ∈ rowsUnder entries factor? row ↔
      ∃ entry ∈ entries, ∃ factor, factor? entry.1 = some factor ∧
        ∃ index ∈ entry.2, row factor index = made := by
  simp only [rowsUnder, List.mem_flatMap]
  refine exists_congr fun entry => and_congr_right fun _ => ?_
  cases factor? entry.1 <;> simp

theorem forall_rowsUnder {entries : List ConeEntry} {factor? : Cone → Option Binary64}
    {row : Binary64 → ℤ → ConstraintRow} {property : ConstraintRow → Prop} :
    (∀ made ∈ rowsUnder entries factor? row, property made) ↔
      ∀ entry ∈ entries, ∀ factor, factor? entry.1 = some factor →
        ∀ index ∈ entry.2, property (row factor index) := by
  constructor
  · intro all entry member factor chosen index listed
    exact all _ (mem_rowsUnder.2 ⟨entry, member, factor, chosen, index, listed, rfl⟩)
  · intro all made member
    obtain ⟨entry, stored, factor, chosen, index, listed, rfl⟩ := mem_rowsUnder.1 member
    exact all entry stored factor chosen index listed

theorem mem_listed {entries : List ConeEntry} {entry : ConeEntry} {index : ℤ}
    (member : entry ∈ entries) (own : index ∈ entry.2) : index ∈ VariableOrder.listed entries :=
  List.mem_flatMap.2 ⟨entry, member, own⟩

theorem rowsUnder_cons (entry : ConeEntry) (entries : List ConeEntry)
    (factor? : Cone → Option Binary64) (row : Binary64 → ℤ → ConstraintRow) :
    rowsUnder (entry :: entries) factor? row =
      (factor? entry.1).elim [] (fun factor => entry.2.map (row factor)) ++
        rowsUnder entries factor? row := by
  simp only [rowsUnder, List.flatMap_cons]
  cases factor? entry.1 <;> rfl

/-- Rows under the same entries are related if those of each index are. -/
theorem forall₂_rowsUnder {related : ConstraintRow → ConstraintRow → Prop}
    {entries : List ConeEntry} {factor? : Cone → Option Binary64}
    {row other : Binary64 → ℤ → ConstraintRow}
    (each : ∀ kind factor, factor? kind = some factor → ∀ index,
      related (row factor index) (other factor index)) :
    List.Forall₂ related (rowsUnder entries factor? row) (rowsUnder entries factor? other) := by
  induction entries with
  | nil => exact .nil
  | cons entry entries ih =>
    rw [rowsUnder_cons, rowsUnder_cons]
    refine List.rel_append ?_ ih
    cases chosen : factor? entry.1 with
    | none => exact .nil
    | some factor =>
      rw [Option.elim_some, Option.elim_some, List.forall₂_map_left_iff,
        List.forall₂_map_right_iff, List.forall₂_same]
      exact fun index _ => each entry.1 factor chosen index

/-- Rows under one kind come in blocks, one for each entry of the kind. -/
theorem map_rowsUnder_onlyFor (entries : List ConeEntry) (kind : Cone) (factor : Binary64)
    (row : Binary64 → ℤ → ConstraintRow) (value : ConstraintRow → α) :
    (rowsUnder entries (onlyFor kind factor) row).map value =
      ((entries.filter fun entry => entry.1 == kind).map
        fun entry => entry.2.map fun index => value (row factor index)).flatten := by
  induction entries with
  | nil => rfl
  | cons entry entries ih =>
    rw [rowsUnder_cons, List.map_append, ih]
    by_cases same : entry.1 = kind
    · simp [onlyFor, same, Function.comp_def]
    · simp [onlyFor, same]

/-- Entries of kinds with a standard form are in their cones if those of each group are. -/
theorem forall_contains_iff [LinearOrder K] {entries : List ConeEntry} (value : ℤ → K)
    (supported : ∀ entry ∈ entries, entry.1.isSupported) :
    (∀ entry ∈ entries, entry.1.Contains (entry.2.map value)) ↔
      (∀ entry ∈ entries, entry.1 = .zero → ∀ index ∈ entry.2, value index = 0) ∧
        (∀ entry ∈ entries, entry.1 = .nonneg ∨ entry.1 = .nonpos →
          entry.1.Contains (entry.2.map value)) ∧
        ∀ entry ∈ entries, entry.1 = .secondOrder →
          Cone.secondOrder.Contains (entry.2.map value) := by
  constructor
  · intro all
    refine ⟨fun entry member kind => ?_, fun entry member _ => all entry member,
      fun entry member kind => kind ▸ all entry member⟩
    have zeros := all entry member
    rw [kind] at zeros
    simpa [Cone.Contains] using zeros
  · rintro ⟨zeros, orthant, cones⟩ entry member
    obtain ⟨kind, indices⟩ := entry
    have own := supported _ member
    cases kind with
    | zero => simpa [Cone.Contains] using zeros _ member rfl
    | nonneg => exact orthant _ member (Or.inl rfl)
    | nonpos => exact orthant _ member (Or.inr rfl)
    | secondOrder => exact cones _ member rfl
    | free => trivial
    | semidefinite | expPrimal | expDual | rotatedSecondOrder => cases own

section Made

variable {problem : ConicProblem} {place : ℤ → ℤ} {property : ConstraintRow → Prop}
  (ofVariable : ∀ j ∈ VariableOrder.listed problem.variableCones, ∀ coefficient : Binary64,
    property (unitRow place coefficient j))
  (ofRow : ∀ (factor : Binary64) (i : ℤ), property (problem.movedRow place factor i))
include ofVariable ofRow

/-- Every row is made of a variable or of a constraint row. -/
theorem forall_inequalities :
    ∀ row ∈ problem.orthantRows place ++ problem.secondOrderRows place, property row := by
  intro row member
  simp only [orthantRows, secondOrderRows, List.mem_append] at member
  rcases member with (member | member) | member | member
  all_goals obtain ⟨entry, stored, factor, _, index, own, rfl⟩ := mem_rowsUnder.1 member
  · exact ofVariable index (mem_listed stored own) factor
  · exact ofRow factor index
  · exact ofVariable index (mem_listed stored own) factor
  · exact ofRow factor index

theorem forall_equalities : ∀ row ∈ problem.equalityRows place, property row := by
  intro row member
  rcases List.mem_append.1 member with kept | pinned
  · obtain ⟨i, _, rfl⟩ := List.mem_map.1 kept
    exact ofRow .one i
  · obtain ⟨entry, stored, factor, _, index, own, rfl⟩ := mem_rowsUnder.1 pinned
    exact ofVariable index (mem_listed stored own) factor

end Made

section Rows

variable {problem : ConicProblem} {reverse : List ℕ} {form : StandardForm}
  (regular : problem.Regular) (placed : problem.Placed reverse form) (x : List K)
include placed

theorem slack_unitRow {j : ℤ} (listed : j ∈ VariableOrder.listed problem.variableCones)
    (coefficient : Binary64) :
    (unitRow (VariableOrder.place reverse) coefficient j).slack
        (entryAt ((VariableOrder.ofReverse reverse).toForm x)) =
      -(coefficient.toRat * entryAt x j) := by
  obtain ⟨lower, upper⟩ := placed.columns j listed
  rw [unitRow, ConstraintRow.slack_unit, VariableOrder.entryAt_toForm placed.perm x lower upper]
  simp

theorem fitsIn_unitRow {j : ℤ} (listed : j ∈ VariableOrder.listed problem.variableCones)
    (coefficient : Binary64) :
    (unitRow (VariableOrder.place reverse) coefficient j).FitsIn problem.objective.length := by
  obtain ⟨lower, upper⟩ := placed.columns j listed
  obtain ⟨placeLower, placeUpper⟩ := VariableOrder.place_inside placed.perm lower upper
  exact ConstraintRow.fitsIn_unit placeLower placeUpper _ _

theorem forall_pinned_iff :
    (∀ row ∈ rowsUnder problem.variableCones (onlyFor .zero .one)
        (unitRow (VariableOrder.place reverse)),
      row.slack (entryAt ((VariableOrder.ofReverse reverse).toForm x)) = 0) ↔
      ∀ entry ∈ problem.variableCones, entry.1 = .zero → ∀ j ∈ entry.2, entryAt x j = 0 := by
  rw [forall_rowsUnder]
  apply forall₂_congr
  intro entry member
  by_cases kind : entry.1 = .zero
  · simp only [onlyFor, kind, if_true, Option.some.injEq, forall_eq', true_implies]
    apply forall₂_congr
    intro j own
    rw [slack_unitRow placed x (mem_listed member own)]
    simp
  · simp [onlyFor, kind]

theorem forall_orthant_columns_iff [LinearOrder K] [IsStrictOrderedRing K] :
    (∀ row ∈ rowsUnder problem.variableCones orthantCoefficient?
        (unitRow (VariableOrder.place reverse)),
      0 ≤ row.slack (entryAt ((VariableOrder.ofReverse reverse).toForm x))) ↔
      ∀ entry ∈ problem.variableCones, entry.1 = .nonneg ∨ entry.1 = .nonpos →
        entry.1.Contains (entry.2.map (entryAt x)) := by
  rw [forall_rowsUnder]
  apply forall₂_congr
  intro entry member
  have slackOf : ∀ j ∈ entry.2, ∀ coefficient : Binary64, _ := fun j own coefficient =>
    slack_unitRow placed x (mem_listed member own) coefficient
  obtain ⟨kind, indices⟩ := entry
  cases kind with
  | nonneg =>
    simp only [orthantCoefficient?, Option.some.injEq, forall_eq', true_or, true_implies,
      Cone.Contains, List.forall_mem_map]
    apply forall₂_congr
    intro j own
    rw [slackOf j own]
    simp
  | nonpos =>
    simp only [orthantCoefficient?, Option.some.injEq, forall_eq', or_true, true_implies,
      Cone.Contains, List.forall_mem_map]
    apply forall₂_congr
    intro j own
    rw [slackOf j own]
    simp
  | _ => simp [orthantCoefficient?]

theorem map_second_order_columns :
    (rowsUnder problem.variableCones (onlyFor .secondOrder (-.one))
        (unitRow (VariableOrder.place reverse))).map
        (ConstraintRow.slack (entryAt ((VariableOrder.ofReverse reverse).toForm x))) =
      ((problem.variableCones.filter fun entry => entry.1 == .secondOrder).map
        fun entry => entry.2.map (entryAt x)).flatten := by
  rw [map_rowsUnder_onlyFor]
  refine congrArg List.flatten (List.map_congr_left fun entry member => ?_)
  apply List.map_congr_left
  intro j own
  rw [slack_unitRow placed x (mem_listed (List.mem_filter.1 member).1 own)]
  simp

include regular

/-- Moving the columns of a row along with the variables leaves its slack. -/
theorem slack_movedRow (i : ℤ) :
    (problem.movedRow (VariableOrder.place reverse) .one i).slack
        (entryAt ((VariableOrder.ofReverse reverse).toForm x)) = problem.slack x i := by
  rw [movedRow, ConstraintRow.slack_scale_one, ConstraintRow.slack, slack,
    Line.product_reposition, List.getD_eq_getElem?_getD]
  congr 1
  apply Line.product_congr
  intro entry member
  obtain ⟨lower, upper⟩ := RowMatrix.within_row placed.inside i.toNat entry member
  rw [regular.cols] at upper
  exact VariableOrder.entryAt_toForm placed.perm x lower upper

theorem slack_movedRow_neg (i : ℤ) :
    (problem.movedRow (VariableOrder.place reverse) (-.one) i).slack
        (entryAt ((VariableOrder.ofReverse reverse).toForm x)) = -problem.slack x i := by
  rw [← slack_movedRow regular placed x i]
  simp only [movedRow, ConstraintRow.slack_scale_neg_one, ConstraintRow.slack_scale_one]

theorem fitsIn_movedRow (factor : Binary64) (i : ℤ) :
    (problem.movedRow (VariableOrder.place reverse) factor i).FitsIn problem.objective.length := by
  have within := RowMatrix.within_row placed.inside i.toNat
  rw [regular.cols] at within
  refine ConstraintRow.FitsIn.scale ⟨?_, fun entry member => ?_⟩ factor
  · exact (regular.distinct i.toNat).reposition fun a left b right same =>
      VariableOrder.place_injective placed.perm (within a left) (within b right) same
  · obtain ⟨stored, also, rfl⟩ := List.mem_map.1 member
    exact VariableOrder.place_inside placed.perm (within stored also).1 (within stored also).2

theorem fit_inequalities :
    ∀ row ∈ problem.orthantRows (VariableOrder.place reverse) ++
        problem.secondOrderRows (VariableOrder.place reverse),
      row.FitsIn problem.objective.length :=
  forall_inequalities (fun _ listed => fitsIn_unitRow placed listed)
    (fitsIn_movedRow regular placed)

theorem fit_equalities :
    ∀ row ∈ problem.equalityRows (VariableOrder.place reverse),
      row.FitsIn problem.objective.length :=
  forall_equalities (fun _ listed => fitsIn_unitRow placed listed) (fitsIn_movedRow regular placed)

theorem forall_orthant_rows_iff [LinearOrder K] [IsStrictOrderedRing K] :
    (∀ row ∈ rowsUnder problem.rowCones orthantFactor?
        (problem.movedRow (VariableOrder.place reverse)),
      0 ≤ row.slack (entryAt ((VariableOrder.ofReverse reverse).toForm x))) ↔
      ∀ entry ∈ problem.rowCones, entry.1 = .nonneg ∨ entry.1 = .nonpos →
        entry.1.Contains (entry.2.map (problem.slack x)) := by
  rw [forall_rowsUnder]
  apply forall₂_congr
  intro entry member
  obtain ⟨kind, indices⟩ := entry
  cases kind with
  | nonneg =>
    simp only [orthantFactor?, Option.some.injEq, forall_eq', true_or, true_implies,
      Cone.Contains, List.forall_mem_map, slack_movedRow regular placed x]
  | nonpos =>
    simp only [orthantFactor?, Option.some.injEq, forall_eq', or_true, true_implies,
      Cone.Contains, List.forall_mem_map, slack_movedRow_neg regular placed x, neg_nonneg]
  | _ => simp [orthantFactor?]

theorem map_second_order_rows :
    (rowsUnder problem.rowCones (onlyFor .secondOrder .one)
        (problem.movedRow (VariableOrder.place reverse))).map
        (ConstraintRow.slack (entryAt ((VariableOrder.ofReverse reverse).toForm x))) =
      ((problem.rowCones.filter fun entry => entry.1 == .secondOrder).map
        fun entry => entry.2.map (problem.slack x)).flatten := by
  simp only [map_rowsUnder_onlyFor, slack_movedRow regular placed x]

/-- The slices of the second-order cones are the entries of that kind, variables first. -/
theorem containsSlices_iff [LinearOrder K] :
    Cone.ContainsSlices (problem.sizes.map fun size : ℕ => (size : ℤ))
        ((problem.secondOrderRows (VariableOrder.place reverse)).map
          (ConstraintRow.slack (entryAt ((VariableOrder.ofReverse reverse).toForm x)))) ↔
      (∀ entry ∈ problem.variableCones, entry.1 = .secondOrder →
        Cone.secondOrder.Contains (entry.2.map (entryAt x))) ∧
      ∀ entry ∈ problem.rowCones, entry.1 = .secondOrder →
        Cone.secondOrder.Contains (entry.2.map (problem.slack x)) := by
  let blocks : List (List K) :=
    ((problem.variableCones.filter fun entry => entry.1 == .secondOrder).map
      fun entry => entry.2.map (entryAt x)) ++
    ((problem.rowCones.filter fun entry => entry.1 == .secondOrder).map
      fun entry => entry.2.map (problem.slack x))
  have lengths : (problem.sizes.map fun size : ℕ => (size : ℤ)) =
      blocks.map fun block => (block.length : ℤ) := by
    simp [blocks, sizes, Function.comp_def]
  have values : (problem.secondOrderRows (VariableOrder.place reverse)).map
      (ConstraintRow.slack (entryAt ((VariableOrder.ofReverse reverse).toForm x))) =
      blocks.flatten := by
    rw [secondOrderRows, List.map_append, map_second_order_columns placed x,
      map_second_order_rows regular placed x, List.flatten_append]
  rw [lengths, values, Cone.containsSlices_flatten, List.forall_mem_append, List.forall_mem_map,
    List.forall_mem_map]
  simp only [List.mem_filter, beq_iff_eq, and_imp]

omit regular in
theorem eq_of_listed_twice {first second : ConeEntry} (firstMember : first ∈ problem.rowCones)
    (secondMember : second ∈ problem.rowCones) {i j : ℤ} (own : i ∈ first.2)
    (other : j ∈ second.2) (same : i.toNat = j.toNat) : first = second := by
  by_contra different
  have once := placed.once
  rw [VariableOrder.listed, List.map_flatMap, List.nodup_flatMap] at once
  have symmetric : Std.Symm (Function.onFun List.Disjoint fun entry : ConeEntry =>
      entry.2.map Int.toNat) := ⟨fun _ _ disjoint => List.Disjoint.symm disjoint⟩
  have apart := once.2.forall firstMember secondMember different
  exact apart (List.mem_map_of_mem own) (same ▸ List.mem_map_of_mem other)

/-- The kept rows are those without a cone and those in a zero cone. -/
theorem forall_kept_iff :
    (∀ i ∈ problem.keptIndices, problem.slack x (i : ℤ) = 0) ↔
      (∀ entry ∈ problem.rowCones, entry.1 = .zero → ∀ i ∈ entry.2, problem.slack x i = 0) ∧
        ∀ i < problem.bounds.length,
          (i : ℤ) ∉ VariableOrder.listed problem.rowCones → problem.slack x (i : ℤ) = 0 := by
  have moved (i : ℕ) : i ∈ problem.movedIndices ↔ ∃ entry ∈ problem.rowCones,
      (entry.1 = .nonneg ∨ entry.1 = .nonpos ∨ entry.1 = .secondOrder) ∧
        ∃ j ∈ entry.2, j.toNat = i := by
    simp [movedIndices, VariableOrder.segment, and_assoc]
  have kept (i : ℕ) : i ∈ problem.keptIndices ↔
      i < problem.bounds.length ∧ i ∉ problem.movedIndices := by
    simp [keptIndices]
  constructor
  · refine fun all => ⟨fun entry member kind i own => ?_, fun i below unlisted => ?_⟩
    · obtain ⟨lower, upper⟩ := placed.rows i (mem_listed member own)
      -- No other entry lists the row, so nothing moves it.
      have stays : i.toNat ∉ problem.movedIndices := by
        intro inMoved
        obtain ⟨other, otherMember, otherKind, j, otherOwn, same⟩ := (moved _).1 inMoved
        obtain rfl := eq_of_listed_twice placed otherMember member otherOwn own same
        simp [kind] at otherKind
      have vanishes := all i.toNat ((kept _).2 ⟨by omega, stays⟩)
      rwa [Int.toNat_of_nonneg lower] at vanishes
    · refine all i ((kept i).2 ⟨below, fun inMoved => ?_⟩)
      obtain ⟨entry, member, _, j, own, same⟩ := (moved i).1 inMoved
      have inListed := mem_listed member own
      have lower := (placed.rows j inListed).1
      rw [show j = (i : ℤ) by omega] at inListed
      exact unlisted inListed
  · rintro ⟨zeros, unlisted⟩ i isKept
    obtain ⟨below, stays⟩ := (kept i).1 isKept
    by_cases inListed : (i : ℤ) ∈ VariableOrder.listed problem.rowCones
    · obtain ⟨entry, member, own⟩ := List.mem_flatMap.1 inListed
      refine zeros entry member ?_ i own
      -- Of the kinds that a row may have, only the zero cone leaves it where it is.
      have supported := regular.accepted.supported entry (List.mem_append_left _ member)
      have constrained := regular.accepted.constrained entry member
      by_contra notZero
      refine stays ((moved i).2 ⟨entry, member, ?_, i, own, rfl⟩)
      revert supported constrained notZero
      cases entry.1 <;> simp [Cone.isSupported]
    · exact unlisted i below inListed

theorem forall_equalityRows_iff :
    (∀ row ∈ problem.equalityRows (VariableOrder.place reverse),
      row.slack (entryAt ((VariableOrder.ofReverse reverse).toForm x)) = 0) ↔
      (∀ i ∈ problem.keptIndices, problem.slack x (i : ℤ) = 0) ∧
        ∀ entry ∈ problem.variableCones, entry.1 = .zero → ∀ j ∈ entry.2, entryAt x j = 0 := by
  rw [← forall_pinned_iff placed x, equalityRows, List.forall_mem_append, List.forall_mem_map]
  simp only [slack_movedRow regular placed x]

/-- A vector meets the constraints of a problem if and only if the form admits it in its order. -/
theorem feasible_iff_of_placed [LinearOrder K] [IsStrictOrderedRing K] :
    form.Feasible ((VariableOrder.ofReverse reverse).toForm x) ↔
      (∀ entry ∈ problem.rowCones, entry.1.Contains (entry.2.map (problem.slack x))) ∧
        (∀ i < problem.bounds.length,
          (i : ℤ) ∉ VariableOrder.listed problem.rowCones → problem.slack x (i : ℤ) = 0) ∧
        ∀ entry ∈ problem.variableCones, entry.1.Contains (entry.2.map (entryAt x)) := by
  have cols : (problem.sense.toMinimize (problem.movedObjective reverse)).length =
      problem.objective.length := by
    have moved : (problem.movedObjective reverse).length = problem.objective.length := by
      rw [movedObjective, List.length_map, placed.perm.length_eq, List.length_range]
    rw [Sense.length_toMinimize, moved]
  have rows := StandardForm.feasible_iff_of_madeOf placed.made
    (by rw [cols]; exact fit_inequalities regular placed)
    (by rw [cols]; exact fit_equalities regular placed)
    ((VariableOrder.ofReverse reverse).toForm x)
  have supportedRows : ∀ entry ∈ problem.rowCones, entry.1.isSupported := fun entry member =>
    regular.accepted.supported entry (List.mem_append_left _ member)
  have supportedColumns : ∀ entry ∈ problem.variableCones, entry.1.isSupported :=
    fun entry member => regular.accepted.supported entry (List.mem_append_right _ member)
  rw [rows, List.map_append, Cone.containsProduct_append (by simp), List.forall_mem_map,
    orthantRows, List.forall_mem_append, forall_orthant_columns_iff placed x,
    forall_orthant_rows_iff regular placed x, containsSlices_iff regular placed x,
    forall_equalityRows_iff regular placed x, forall_kept_iff regular placed x,
    forall_contains_iff (problem.slack x) supportedRows,
    forall_contains_iff (entryAt x) supportedColumns]
  tauto

end Rows

end ConicForm.ConicProblem
