import ConicForm.Proofs.ConeSequences
import ConicForm.Proofs.FormRows
import ConicForm.Proofs.RelabelledRows
import ConicForm.Proofs.WellFormedForm

/-! Where the rows of a conic problem are in its form. The unit rows of the variables stand in the
columns that the order gives them, whichever entries list them, and the rows of the matrix have
their columns in that order. -/
namespace ConicForm

open ConeList (groups orthant)

namespace VariableOrder

section Place

variable {reverse : List ℕ} {count : ℕ} (perm : reverse.Perm (List.range count))
include perm

/-- A variable has the place at which it is stored. -/
theorem place_eq_iff {i j : ℤ} {k : ℕ} (lower : 0 ≤ i)
    (stored : (reverse.map fun i : ℕ => (i : ℤ))[k]? = some j) :
    place reverse i = (k : ℤ) ↔ i = j := by
  have nodup : reverse.Nodup := perm.nodup_iff.2 List.nodup_range
  rw [List.getElem?_map, Option.map_eq_some_iff] at stored
  obtain ⟨index, own, rfl⟩ := stored
  obtain ⟨below, rfl⟩ := List.getElem?_eq_some_iff.1 own
  have here : reverse.idxOf reverse[k] = k := nodup.idxOf_getElem k below
  have member : reverse[k] ∈ reverse := List.getElem_mem below
  constructor
  · intro same
    have equal : reverse[k] = i.toNat := (List.idxOf_inj member).1 (here.trans (by
      simpa [place, eq_comm] using same))
    omega
  · rintro rfl
    rw [place, Int.toNat_natCast, here]

/-- The variables of a stretch have the places of the stretch. -/
theorem place_of_append {before stretch after : List ℤ}
    (split : reverse.map (fun i : ℕ => (i : ℤ)) = before ++ stretch ++ after) {k : ℕ}
    (below : k < stretch.length) :
    place reverse stretch[k] = ((before.length + k : ℕ) : ℤ) := by
  have stored := getElem?_of_append split below
  have lower : 0 ≤ stretch[k] := by
    obtain ⟨i, _, same⟩ := List.mem_map.1 (List.mem_of_getElem? stored)
    omega
  exact (place_eq_iff perm lower stored).2 rfl

end Place
end VariableOrder

/-- A row of a matrix and its right-hand side with a factor, and with the columns in some order. At
each place there is the sum of what the row stores in the column, if it stores anything. -/
def RowMatrix.copied (matrix : RowMatrix) (bounds : List Binary64) (reverse : List ℤ)
    (factor : Binary64) (index : ℤ) : ConstraintRow where
  line := reverse.zipIdx.filterMap fun column =>
    (Binary64.sum? (((matrix.row index.toNat).valuesAt column.1).map (factor * ·))).map
      fun value => ((column.2 : ℤ), value)
  bound := factor * bounds.getD index.toNat .zero

namespace ConicProblem

theorem combined_unitRow (place : ℤ → ℤ) (coefficient : Binary64) (j : ℤ) :
    (unitRow place coefficient j).combined = unitRow place coefficient j := rfl

section Rows

variable {problem : ConicProblem} {reverse : List ℕ}
  (perm : reverse.Perm (List.range problem.objective.length))
include perm

/-- Variables of a stretch have unit rows one column after the other. -/
theorem map_unitRow {items : List α} (index : α → ℤ) {before after : List ℤ}
    (split : reverse.map (fun i : ℕ => (i : ℤ)) = before ++ items.map index ++ after)
    (coefficient : α → Binary64) :
    items.map (fun item => unitRow (VariableOrder.place reverse) (coefficient item) (index item)) =
      items.zipIdx.map fun item =>
        .unit ((before.length : ℤ) + item.2) (coefficient item.1) .zero := by
  refine List.ext_getElem (by simp) fun k left _ => ?_
  have below : k < (items.map index).length := by simpa using left
  have placed := VariableOrder.place_of_append perm split below
  rw [List.getElem_map] at placed
  simp [unitRow, placed]

theorem map_unitRow_range {stretch before after : List ℤ}
    (split : reverse.map (fun i : ℕ => (i : ℤ)) = before ++ stretch ++ after)
    (coefficient : Binary64) :
    stretch.map (unitRow (VariableOrder.place reverse) coefficient) =
      (List.range stretch.length).map fun k : ℕ =>
        .unit ((before.length : ℤ) + k) coefficient .zero := by
  rw [List.range_eq_range', ← List.zipIdx_map_snd, List.map_map]
  exact map_unitRow perm id (by rwa [List.map_id]) fun _ => coefficient

variable (within : ∀ i, (problem.matrix.row i).Within problem.objective.length)
  (factor : Binary64) (i : ℤ)
include within

theorem within_movedRow : (problem.movedRow (VariableOrder.place reverse) factor i).line.Within
    problem.objective.length := by
  refine Line.Within.scale (fun entry member => ?_) factor
  obtain ⟨stored, own, rfl⟩ := List.mem_map.1 member
  obtain ⟨lower, upper⟩ := within i.toNat stored own
  exact VariableOrder.place_inside perm lower upper

/-- A row whose columns have been moved is the row copied in the order of the columns. -/
theorem combined_movedRow :
    (problem.movedRow (VariableOrder.place reverse) factor i).combined =
      problem.matrix.copied problem.bounds (reverse.map fun i : ℕ => (i : ℤ)) factor i := by
  have places : List.range problem.objective.length =
      (reverse.map fun i : ℕ => (i : ℤ)).zipIdx.map Prod.snd := by
    rw [List.zipIdx_map_snd, List.length_map, perm.length_eq, List.length_range,
      List.range_eq_range']
  -- What goes to a place is what is stored in the column that has the place.
  have values {j : ℤ} {k : ℕ} (stored : (reverse.map fun i : ℕ => (i : ℤ))[k]? = some j) :
      (Line.reposition (VariableOrder.place reverse) (problem.matrix.row i.toNat)).valuesAt k =
        (problem.matrix.row i.toNat).valuesAt j := by
    rw [Line.valuesAt, Line.reposition, List.filter_map, List.map_map]
    refine congrArg (List.map Prod.snd) (List.filter_congr fun entry own => ?_)
    exact decide_eq_decide.2 (VariableOrder.place_eq_iff perm (within _ entry own).1 stored)
  have line : Line.combine (problem.movedRow (VariableOrder.place reverse) factor i).line =
      (problem.matrix.copied problem.bounds (reverse.map fun i : ℕ => (i : ℤ)) factor i).line := by
    rw [← Line.sumsBelow_eq_combine (within_movedRow perm within factor i), Line.sumsBelow, places,
      List.filterMap_map]
    refine List.filterMap_congr fun column member => ?_
    simp only [Function.comp_apply, movedRow, ConstraintRow.scale, Line.valuesAt_scale,
      values (List.mem_zipIdx_iff_getElem?.1 member)]
  rw [ConstraintRow.combined, line]
  simp [RowMatrix.copied, movedRow, ConstraintRow.scale, List.getD_eq_getElem?_getD]

end Rows

end ConicProblem

/-- The rows of a form, block by block: variables of the orthant, constraint rows of the orthant,
variables of second-order cones and constraint rows of them, and as equalities the rows that are in
no such cone and the variables of zero cones. -/
structure StandardForm.LaidOut (form : StandardForm) (variableCones rowCones : List ConeEntry)
    (matrix : RowMatrix) (bounds : List Binary64) : Prop where
  reverse : form.order.reverse = (ConeList.orthant variableCones).map Prod.snd ++
    (groups .secondOrder variableCones).flatten ++ (groups .zero variableCones).flatten ++
      (groups .free variableCones).flatten
  npos : form.npos = (ConeList.orthant variableCones).length + (ConeList.orthant rowCones).length
  sizes : form.sizes =
    (groups .secondOrder variableCones ++ groups .secondOrder rowCones).map fun group =>
      (group.length : ℤ)
  inequalities : form.inequalityRows =
    ((ConeList.orthant variableCones).zipIdx.map fun item =>
      .unit item.2 (-ConicProblem.sign item.1.1) .zero) ++
    ((ConeList.orthant rowCones).map fun item =>
      matrix.copied bounds form.order.reverse (ConicProblem.sign item.1) item.2) ++
    ((List.range (groups .secondOrder variableCones).flatten.length).map fun k =>
      .unit ((ConeList.orthant variableCones).length + k) (-.one) .zero) ++
    (groups .secondOrder rowCones).flatten.map
      (matrix.copied bounds form.order.reverse .one)
  equalities : form.equalityRows =
    ((ConicProblem.kept bounds.length rowCones).map fun i : ℕ =>
      matrix.copied bounds form.order.reverse .one i) ++
    (List.range (groups .zero variableCones).flatten.length).map fun k =>
      .unit ((ConeList.orthant variableCones).length +
        (groups .secondOrder variableCones).flatten.length + k) .one .zero

namespace ConicProblem

section Placed

variable {problem : ConicProblem} {reverse : List ℕ} {form : StandardForm}
  (placed : problem.Placed reverse form) (cols : problem.matrix.cols = problem.objective.length)
include placed cols

theorem rows_of_placed :
    form.inequalityRows = (problem.orthantRows (VariableOrder.place reverse) ++
        problem.secondOrderRows (VariableOrder.place reverse)).map ConstraintRow.combined ∧
      form.equalityRows =
        (problem.equalityRows (VariableOrder.place reverse)).map ConstraintRow.combined := by
  have within (i : ℕ) : (problem.matrix.row i).Within problem.objective.length :=
    cols ▸ RowMatrix.within_row placed.inside i
  have length := length_minimized placed.perm
  have units : ∀ j ∈ VariableOrder.listed problem.variableCones, ∀ coefficient : Binary64,
      (unitRow (VariableOrder.place reverse) coefficient j).line.Within problem.objective.length :=
    fun _ listed coefficient => (fitsIn_unitRow placed listed coefficient).2
  have copies := within_movedRow placed.perm within
  exact ⟨StandardForm.inequalityRows_of_madeOf placed.made
      (length ▸ forall_inequalities units copies),
    StandardForm.equalityRows_of_madeOf placed.made (length ▸ forall_equalities units copies)⟩

theorem laidOut_of_placed
    (arrangedAs : VariableOrder.arrange problem.variableCones problem.objective.length =
      .ok reverse) :
    form.LaidOut problem.variableCones problem.rowCones problem.matrix problem.bounds := by
  have order := VariableOrder.reverse_of_arrange arrangedAs
  have perm := placed.perm
  have made := placed.made
  have copied := combined_movedRow perm fun i => cols ▸ RowMatrix.within_row placed.inside i
  obtain ⟨inequalities, equalities⟩ := rows_of_placed placed cols
  have reverseIs : form.order.reverse = reverse.map fun i : ℕ => (i : ℤ) := by
    rw [made.order]
    rfl
  have orthantUnits : (orthant problem.variableCones).map (fun item =>
      unitRow (VariableOrder.place reverse) (-sign item.1) item.2) =
        (orthant problem.variableCones).zipIdx.map fun item =>
          .unit item.2 (-sign item.1.1) .zero := by
    have split : reverse.map (fun i : ℕ => (i : ℤ)) =
        [] ++ (orthant problem.variableCones).map Prod.snd ++
          ((groups .secondOrder problem.variableCones).flatten ++
            ((groups .zero problem.variableCones).flatten ++
              (groups .free problem.variableCones).flatten)) := by
      rw [order, List.nil_append, List.append_assoc, List.append_assoc]
    simpa using map_unitRow perm Prod.snd split fun item => -sign item.1
  have secondOrderUnits := map_unitRow_range perm (order.trans (List.append_assoc ..)) (-.one)
  have zeroUnits := map_unitRow_range perm order .one
  rw [List.length_map] at secondOrderUnits
  rw [List.length_append, List.length_map, Nat.cast_add] at zeroUnits
  simp only [orthantRows_eq, secondOrderRows_eq, equalityRows_eq, List.map_append, List.map_map,
    Function.comp_def, combined_unitRow, copied, ← reverseIs] at inequalities equalities
  constructor
  · rw [reverseIs, order]
  · rw [made.npos, orthantRows_eq]
    simp
  · rw [made.sizes, sizes_eq, List.map_map]
    rfl
  · rw [inequalities, orthantUnits, secondOrderUnits, ← List.append_assoc]
  · rw [equalities, zeroUnits, keptIndices_eq fun i listed => (placed.rows i listed).1]

end Placed

/-- The rows of every form that is loaded are where its cones put them. The matrix is the one that
is read for the lengths of the vectors; it stores what is given, if no position is given twice. -/
theorem laidOut_of_load [Machine] {input : Input} {form : StandardForm}
    (loaded : load input = .ok form) :
    ∃ matrix, input.matrix.toRows (.integer input.bounds.numbers.length)
        (.integer input.objective.numbers.length) = .ok matrix ∧
      form.LaidOut (ConeList.entriesOf input.variableCones) (ConeList.entriesOf input.rowCones)
        matrix input.bounds.numbers ∧
      (input.matrix.StoresOnce → matrix.Holds input.bounds.numbers.length
        input.objective.numbers.length (input.matrix.Stores input.objective.numbers.length)) := by
  obtain ⟨problem, read, built⟩ := Outcome.bind_eq_ok_iff.1 loaded
  have given := readAs_of_read read
  obtain ⟨_, _, _, arrangedAs, placed⟩ := exists_arranged_of_standardForm built
  have laid := laidOut_of_placed placed (Datum.shape_toRows given.matrix).2 arrangedAs
  rw [given.bounds, given.objective, given.variableCones, given.rowCones]
  exact ⟨problem.matrix, given.matrix, laid, fun once =>
    Datum.holds_toRows once given.matrix placed.inside⟩

/-- Variables and constraint rows under all kinds of cones, the orthant last. -/
def Input.layered : Input where
  objective := .list [.integer 1, .integer 0, .integer 0, .integer 0, .integer 2]
  matrix := .list [
    .list [.integer 1, .integer 0, .integer 0, .integer 0, .integer 2],
    .list [.integer 0, .integer 1, .integer 0, .integer 0, .integer 0],
    .list [.integer 0, .integer 0, .integer 0, .integer 3, .integer 1],
    .list [.integer 1, .integer 1, .integer 1, .integer 1, .integer 1]]
  bounds := .list [.integer 1, .integer 2, .integer 3, .integer 4]
  rowCones := ConeList.toDatum [(.secondOrder, [3]), (.zero, [0]), (.nonpos, [2])]
  variableCones :=
    ConeList.toDatum [(.secondOrder, [4, 0]), (.nonpos, [3]), (.zero, [1]), (.nonneg, [2])]
  sense := .sense .minimize

theorem load_layered : ∃ form, load .layered = .ok form ∧ form.n = 5 :=
  Outcome.exists_of_toOption_map (by decide +kernel)

theorem laidOut_layered : ∃ form, load .layered = .ok form ∧ form.order.reverse = [3, 2, 4, 0, 1] ∧
    form.npos = 3 ∧ form.sizes = [2, 1] ∧ form.inequalityRows.length = 6 ∧
      form.equalityRows.length = 3 := by
  obtain ⟨form, loaded, _⟩ := load_layered
  obtain ⟨matrix, _, laid, _⟩ := laidOut_of_load loaded
  refine ⟨form, loaded, laid.reverse.trans (by decide +kernel), laid.npos.trans (by decide +kernel),
    laid.sizes.trans (by decide +kernel), ?_, ?_⟩
  · rw [laid.inequalities]
    simp only [List.length_append, List.length_map, List.length_zipIdx, List.length_range]
    decide +kernel
  · rw [laid.equalities]
    simp only [List.length_append, List.length_map, List.length_range]
    decide +kernel

end ConicProblem
end ConicForm
