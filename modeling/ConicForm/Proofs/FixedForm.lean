import ConicForm.Proofs.FormBlocks
import ConicForm.Proofs.StackedRows
import ConicForm.Proofs.TaggedRows
import ConicForm.Proofs.WellFormedForm

/-! A form that has been loaded is its own standard form. With its equalities stacked over its
inequalities, its cones laid out as it names them and all variables free, it is loaded as it is. -/
namespace ConicForm

open Outcome (Short Unread)

namespace StandardForm

/-- The same form with its variables in their places, and to be minimized. -/
def minimized (form : StandardForm) : StandardForm :=
  { form with
    sense := .minimize
    order := VariableOrder.identity form.n
    orderSize := VariableOrder.size_identity _ }

/-- The conic problem of a form: its cones are laid out over the rows of a matrix, and all variables
are free. -/
def unloaded (form : StandardForm) (npos : ℕ) (sizes : List ℕ) (matrix : RowMatrix) :
    ConicProblem where
  objective := form.c
  matrix := matrix
  bounds := form.b ++ form.h
  rowCones := ConeDims.entries 0 (blocks form.p npos sizes)
  variableCones := [(.free, (List.range form.n).map fun j : ℕ => (j : ℤ))]
  sense := .minimize

/-- A row of that problem. -/
def rowAt (form : StandardForm) (matrix : RowMatrix) (i : ℕ) : ConstraintRow :=
  ⟨matrix.row i, (form.b ++ form.h)[i]?.getD .zero⟩

namespace Tidy

variable {form : StandardForm} {npos : ℕ} {sizes : List ℕ} (tidy : form.Tidy npos sizes)
include tidy

theorem keptIndices_unloaded (matrix : RowMatrix) :
    (form.unloaded npos sizes matrix).keptIndices = List.range form.p := by
  have bounds : (form.b ++ form.h).length = form.p + (npos + sizes.sum) := by
    rw [List.length_append, form.equalityBounds, form.lengthBounds, ← tidy.m_eq, p, m]
  have moved (i : ℕ) : i ∈ (form.unloaded npos sizes matrix).movedIndices ↔
      form.p ≤ i ∧ i < form.p + (npos + sizes.sum) := by
    rw [ConicProblem.movedIndices, unloaded, movedIndices_blocks]
    simp only [List.mem_map, ConeDims.mem_consecutive]
    constructor
    · rintro ⟨index, inside, rfl⟩
      omega
    · intro inside
      exact ⟨(i : ℤ), by omega, Int.toNat_natCast i⟩
  rw [ConicProblem.keptIndices]
  have first : (List.range form.p).filter
      (fun i => !(form.unloaded npos sizes matrix).movedIndices.contains i) =
        List.range form.p := by
    rw [List.filter_eq_self]
    intro i below
    have := List.mem_range.1 below
    simp [moved]
    omega
  have second : ((List.range (npos + sizes.sum)).map (form.p + ·)).filter
      (fun i => !(form.unloaded npos sizes matrix).movedIndices.contains i) = [] := by
    rw [List.filter_eq_nil_iff, List.forall_mem_map]
    intro i below
    have := List.mem_range.1 below
    simp [moved]
    omega
  simp only [unloaded] at first second ⊢
  rw [bounds, List.range_add, List.filter_append, first, second, List.append_nil]

section Unloaded

variable {matrix : RowMatrix} (cols : matrix.cols = form.n) (inside : matrix.isInside)
include cols inside

omit tidy in
theorem movedRow_unloaded (i : ℕ) :
    (form.unloaded npos sizes matrix).movedRow (VariableOrder.place (List.range form.n)) .one
      (i : ℤ) = form.rowAt matrix i := by
  have within := RowMatrix.within_row inside i
  rw [cols] at within
  rw [ConicProblem.movedRow, ConstraintRow.scale_one]
  simp only [unloaded, Int.toNat_natCast, ConicProblem.reposition_range within, rowAt]

omit tidy in
theorem map_movedRow_unloaded (start count : ℕ) :
    (ConeDims.consecutive start count).map ((form.unloaded npos sizes matrix).movedRow
      (VariableOrder.place (List.range form.n)) .one) =
        (List.range count).map fun i => form.rowAt matrix (start + i) := by
  rw [ConeDims.consecutive, Int.toNat_natCast, List.map_map]
  refine List.map_congr_left fun i _ => ?_
  rw [Function.comp_apply, ← Nat.cast_add]
  exact movedRow_unloaded cols inside (start + i)

omit tidy in
theorem orthantRows_unloaded :
    (form.unloaded npos sizes matrix).orthantRows (VariableOrder.place (List.range form.n)) =
      (List.range npos).map fun i => form.rowAt matrix (form.p + i) := by
  rw [ConicProblem.orthantRows]
  have free : ConicProblem.rowsUnder (form.unloaded npos sizes matrix).variableCones
      ConicProblem.orthantCoefficient?
        (ConicProblem.unitRow (VariableOrder.place (List.range form.n))) = [] := rfl
  rw [free, List.nil_append, ← map_movedRow_unloaded cols inside form.p npos]
  exact orthantRows_blocks _ _ _ _

omit tidy in
theorem secondOrderRows_unloaded :
    (form.unloaded npos sizes matrix).secondOrderRows (VariableOrder.place (List.range form.n)) =
      (List.range sizes.sum).map fun i => form.rowAt matrix (form.p + npos + i) := by
  rw [ConicProblem.secondOrderRows]
  have free : ConicProblem.rowsUnder (form.unloaded npos sizes matrix).variableCones
      (ConicProblem.onlyFor .secondOrder (-.one))
        (ConicProblem.unitRow (VariableOrder.place (List.range form.n))) = [] := rfl
  rw [free, List.nil_append, ← map_movedRow_unloaded cols inside (form.p + npos) sizes.sum,
    Nat.cast_add]
  exact secondOrderRows_blocks _ _ _ _

theorem equalityRows_unloaded :
    (form.unloaded npos sizes matrix).equalityRows (VariableOrder.place (List.range form.n)) =
      (List.range form.p).map (form.rowAt matrix) := by
  have free : ConicProblem.rowsUnder (form.unloaded npos sizes matrix).variableCones
      (ConicProblem.onlyFor .zero .one)
        (ConicProblem.unitRow (VariableOrder.place (List.range form.n))) = [] := rfl
  rw [ConicProblem.equalityRows, free, List.append_nil, tidy.keptIndices_unloaded]
  exact List.map_congr_left fun i _ => movedRow_unloaded cols inside i

/-- The rows of the matrix become the rows of the form in their order. -/
theorem standardForm_unloaded : (form.unloaded npos sizes matrix).standardForm =
    ofRows npos sizes ((List.range form.m).map fun i => form.rowAt matrix (form.p + i))
      ((List.range form.p).map (form.rowAt matrix)) form.c .minimize
        (VariableOrder.identity form.n) := by
  let problem := form.unloaded npos sizes matrix
  have bounds : problem.bounds.length = form.p + (npos + sizes.sum) := by
    show (form.b ++ form.h).length = _
    rw [List.length_append, form.equalityBounds, form.lengthBounds, ← tidy.m_eq, p, m]
  have listed : VariableOrder.listed problem.rowCones =
      ConeDims.consecutive 0 (form.p + (npos + sizes.sum) : ℕ) := listed_blocks _ _ _
  have assigned : VariableOrder.assign .rows problem.bounds.length []
      (VariableOrder.listed problem.rowCones) =
        .ok ((VariableOrder.listed problem.rowCones).map Int.toNat) := by
    rw [VariableOrder.assign_eq_ok_iff List.nodup_nil, bounds, listed]
    refine ⟨fun index member => ?_, ?_, rfl⟩
    · simpa using ConeDims.mem_consecutive.1 member
    · simpa [ConeDims.consecutive, Function.comp_def] using List.nodup_range
  have columns : problem.objective.length = form.n := form.objectiveLength
  have arranged : VariableOrder.arrange problem.variableCones problem.objective.length =
      .ok (List.range form.n) := by
    rw [columns]
    exact ConicProblem.arrange_free form.n
  have objective : problem.movedObjective (List.range form.n) = form.c := by
    rw [← columns]
    exact problem.movedObjective_range
  have orthant : problem.orthantRows (VariableOrder.place (List.range form.n)) = _ :=
    orthantRows_unloaded cols inside
  have secondOrder : problem.secondOrderRows (VariableOrder.place (List.range form.n)) = _ :=
    secondOrderRows_unloaded cols inside
  have equal : problem.equalityRows (VariableOrder.place (List.range form.n)) = _ :=
    tidy.equalityRows_unloaded cols inside
  have coneSizes : problem.sizes = sizes := sizes_blocks form.p npos sizes
  have inequalities : ((List.range npos).map fun i => form.rowAt matrix (form.p + i)) ++
      ((List.range sizes.sum).map fun i => form.rowAt matrix (form.p + npos + i)) =
        (List.range form.m).map fun i => form.rowAt matrix (form.p + i) := by
    simp only [tidy.m_eq, List.range_add, List.map_append, List.map_map, Function.comp_def,
      Nat.add_assoc]
  change problem.standardForm = _
  rw [ConicProblem.standardForm_of_arranged assigned arranged inside, orthant, secondOrder, equal,
    coneSizes, objective, inequalities, VariableOrder.identity_eq_ofReverse, List.length_map,
    List.length_range]
  rfl

end Unloaded

section Stacked

variable {stored : StoredMatrix} (stacked : form.StackedIn stored)
include stacked

theorem matrix_inequalities : ConstraintRow.matrix form.c.length
    ((List.range form.m).map fun i => form.rowAt (RowMatrix.ofStored stored) (form.p + i)) =
      form.G := by
  have once := stacked.nodup_positions tidy.A tidy.G
  rw [form.objectiveLength]
  refine ConstraintRow.matrix_eq tidy.G ?_ ?_ fun i below j inside value => ?_
  · rw [List.length_map, List.length_range, m]
  · rw [List.forall_mem_map]
    exact fun i _ => RowMatrix.distinct_row_ofStored once _
  · rw [List.length_map, List.length_range] at below
    have room : form.p + i < stored.rows := by
      rw [stacked.rows]
      omega
    simp only [List.getElem_map, List.getElem_range, rowAt]
    rw [RowMatrix.mem_row_ofStored once room, stacked.mem_entries_iff tidy.A tidy.G,
      Nat.add_sub_cancel_left]
    simp [below, n, inside]

theorem matrix_equalities : ConstraintRow.matrix form.c.length
    ((List.range form.p).map (form.rowAt (RowMatrix.ofStored stored))) = form.A := by
  have once := stacked.nodup_positions tidy.A tidy.G
  rw [form.objectiveLength, ← form.equalityCols]
  refine ConstraintRow.matrix_eq tidy.A ?_ ?_ fun i below j inside value => ?_
  · rw [List.length_map, List.length_range, p]
  · rw [List.forall_mem_map]
    exact fun i _ => RowMatrix.distinct_row_ofStored once _
  · rw [List.length_map, List.length_range] at below
    rw [form.equalityCols] at inside
    have room : i < stored.rows := by
      rw [stacked.rows]
      omega
    have above : ¬form.p ≤ i := by omega
    simp only [List.getElem_map, List.getElem_range, rowAt]
    rw [RowMatrix.mem_row_ofStored once room, stacked.mem_entries_iff tidy.A tidy.G]
    simp [below, above, n, inside]

theorem madeOf_minimized : form.minimized.MadeOf npos sizes
    ((List.range form.m).map fun i => form.rowAt (RowMatrix.ofStored stored) (form.p + i))
    ((List.range form.p).map (form.rowAt (RowMatrix.ofStored stored))) form.c .minimize
    (VariableOrder.identity form.n) where
  orthant := tidy.orthant
  covered := by rw [List.length_map, List.length_range, tidy.m_eq]
  sizes := tidy.sizes
  G := (tidy.matrix_inequalities stacked).symm
  A := (tidy.matrix_equalities stacked).symm
  h := by
    have count : form.h.length = form.m := form.lengthBounds
    have before : form.b.length = form.p := form.equalityBounds
    apply List.ext_getElem (by simpa [minimized] using count)
    intro i below _
    have inside : i < form.h.length := below
    simp [minimized, rowAt, ← before, List.getElem?_append_right, inside]
  b := by
    have count : form.b.length = form.p := form.equalityBounds
    apply List.ext_getElem (by simpa [minimized] using count)
    intro i below _
    have inside : i < form.b.length := below
    simp [minimized, rowAt, List.getElem?_append_left inside, inside]
  c := rfl
  sense := rfl
  order := rfl

/-- The problem of a form has the form itself as its standard form. -/
theorem standardForm_stacked :
    (form.unloaded npos sizes (RowMatrix.ofStored stored)).standardForm = .ok form.minimized := by
  have cols : (RowMatrix.ofStored stored).cols = form.n := by
    rw [RowMatrix.cols_ofStored, stacked.cols]
  have inside : (RowMatrix.ofStored stored).isInside :=
    RowMatrix.isInside_ofStored (stacked.isInside tidy.A tidy.G)
  have covered : ((List.range form.m).map fun i =>
      form.rowAt (RowMatrix.ofStored stored) (form.p + i)).length = npos + sizes.sum := by
    rw [List.length_map, List.length_range, tidy.m_eq]
  have sized : (VariableOrder.identity form.n).size = form.c.length := by
    rw [VariableOrder.size_identity, form.objectiveLength, n]
  obtain ⟨again, built⟩ := exists_ofRows covered sized
    ((List.range form.p).map (form.rowAt (RowMatrix.ofStored stored))) .minimize
  rw [tidy.standardForm_unloaded cols inside, built,
    (madeOf_ofRows built).unique (tidy.madeOf_minimized stacked)]

end Stacked

end Tidy

/-- The equalities stacked over the inequalities, in some layout. -/
def stack (form : StandardForm) (layout : Layout) : StoredMatrix :=
  ⟨layout, form.p + form.m, form.n, form.A.entriesFrom 0 ++ form.G.entriesFrom form.p⟩

theorem stackedIn_stack (form : StandardForm) (layout : Layout) :
    form.StackedIn (form.stack layout) :=
  ⟨rfl, rfl, .refl _⟩

/-- Every form that is loaded is tidy. -/
theorem exists_tidy [Machine] {given : Given} {form : StandardForm}
    (accepted : given.standardForm = .ok form) : ∃ npos sizes, form.Tidy npos sizes := by
  cases given with
  | conic input =>
    obtain ⟨problem, read, built⟩ := Outcome.bind_eq_ok_iff.1 accepted
    have conesAccepted := (ConicProblem.readAs_of_read read).accepted
    obtain ⟨_, placed⟩ := ConicProblem.placed_of_standardForm built
    exact ⟨_, _, placed.made.tidy (ConicProblem.one_le_of_mem_sizes conesAccepted)⟩
  | linear input =>
    obtain ⟨problem, _, built⟩ := Outcome.bind_eq_ok_iff.1 accepted
    exact ⟨_, _, (LinearProblem.formed_of_standardForm built).made.tidy (by simp)⟩

end StandardForm

namespace ConicProblem

/-- A form as a caller would give it: a matrix for all of its rows, cones for them, and free
variables. -/
def Input.ofForm (form : StandardForm) (stored : StoredMatrix) (cones : List ConeEntry) :
    Input where
  objective := Datum.ofVector form.c
  matrix := .sparse stored
  bounds := Datum.ofVector (form.b ++ form.h)
  rowCones := ConeList.toDatum cones
  variableCones := ConeList.toDatum [(.free, (List.range form.n).map fun j : ℕ => (j : ℤ))]
  sense := .sense .minimize

variable {form : StandardForm} {npos : ℕ} {sizes : List ℕ} {stored : StoredMatrix}
  (tidy : form.Tidy npos sizes) (stacked : form.StackedIn stored)
include tidy stacked

/-- All parts but the matrix are read at once. -/
theorem read_ofForm [Machine] :
    read (.ofForm form stored (ConeDims.entries 0 (StandardForm.blocks form.p npos sizes))) =
      (stored.checkByRow.mapError Fault.data).map fun _ =>
        form.unloaded npos sizes (RowMatrix.ofStored stored) := by
  have cones := ConeList.readBoth_toDatum
    (tidy.accepted_blocks ((List.range form.n).map fun j : ℕ => (j : ℤ)))
  have rows : (form.b ++ form.h).length = stored.rows := by
    rw [List.length_append, form.equalityBounds, form.lengthBounds, stacked.rows, StandardForm.p,
      StandardForm.m]
  have cols : form.c.length = stored.cols := by
    rw [form.objectiveLength, stacked.cols, StandardForm.n]
  have matrix : (Datum.sparse stored).toRows (.integer (form.b ++ form.h).length)
      (.integer form.c.length) = (stored.checkByRow.mapError Fault.data).map fun _ =>
        RowMatrix.ofStored stored := by
    rw [Datum.toRows_sparse, Datum.expectShape_integer, rows, cols]
    simp only [and_self, if_true]
    rfl
  simp only [read, Input.ofForm, Sense.ofDatum, cones, Datum.toEntries_ofVector, matrix, bind,
    Except.bind, pure, Except.pure]
  cases stored.checkByRow <;> rfl

/-- The form is loaded unless memory is too small for the form itself. -/
theorem load_ofForm_or_unread [Machine] :
    load (.ofForm form stored (ConeDims.entries 0 (StandardForm.blocks form.p npos sizes))) =
        .ok form.minimized ∨
      ¬form.IsHeld ∧ Unread (load (.ofForm form stored
        (ConeDims.entries 0 (StandardForm.blocks form.p npos sizes)))) := by
  have gathers := StoredMatrix.checkByRow_eq_ok_iff (stacked.isInside tidy.A tidy.G)
  rw [load, read_ofForm tidy stacked]
  cases gathered : stored.checkByRow with
  | ok => exact .inl (tidy.standardForm_stacked stacked)
  | error cause =>
    refine .inr ⟨fun held => ?_, cause, rfl, StoredMatrix.checkByRow_eq_error gathered⟩
    have room : stored.HasRoom :=
      StoredMatrix.hasRoom_of_holds (stacked.rows ▸ held.holdsLines)
    rw [gathers.2 room] at gathered
    cases gathered

end ConicProblem

/-- A form that has been loaded is a fixed point. The names of its sizes are read as cones for its
rows, and with those it is loaded as it is, however its matrices are stacked. Neither fails unless
memory is too small for the form itself, which then has not been returned. -/
theorem load_ofForm [Machine] {given : Given} {form : StandardForm} {stored : StoredMatrix}
    (accepted : given.standardForm = .ok form) (stacked : form.StackedIn stored) :
    ∃ dims cones, ConeDims.read .keys (form.dims ++ [("f", .integer form.p)]) = .ok dims ∧
      (dims.toCones (.integer (form.p + form.m : ℕ)) = .ok cones ∨
        ¬form.IsHeld ∧ Short (dims.toCones (.integer (form.p + form.m : ℕ)))) ∧
      (ConicProblem.load (.ofForm form stored cones) = .ok form.minimized ∨
        ¬form.IsHeld ∧ Unread (ConicProblem.load (.ofForm form stored cones))) := by
  obtain ⟨npos, sizes, tidy⟩ := StandardForm.exists_tidy accepted
  exact ⟨_, _, form.read_dims, tidy.toCones_coneDims,
    ConicProblem.load_ofForm_or_unread tidy stacked⟩

theorem load_ofForm_swapped : ∃ form, (Given.conic .swapped).standardForm = .ok form ∧
    ∃ dims cones, ConeDims.read .keys (form.dims ++ [("f", .integer form.p)]) = .ok dims ∧
      dims.toCones (.integer (form.p + form.m : ℕ)) = .ok cones ∧
      ConicProblem.load (.ofForm form (form.stack .byColumn) cones) = .ok form.minimized := by
  obtain ⟨form, accepted, shape⟩ : ∃ form, (Given.conic .swapped).standardForm = .ok form ∧
      (form.p, form.m, form.n) = (1, 2, 2) :=
    Outcome.exists_of_toOption_map (by decide +kernel)
  obtain ⟨equalities, rows⟩ := Prod.mk.inj shape
  obtain ⟨inequalities, width⟩ := Prod.mk.inj rows
  have held : form.IsHeld := by
    unfold StandardForm.IsHeld
    rw [equalities, inequalities, width]
    decide
  obtain ⟨dims, cones, read, listed, loaded⟩ :=
    load_ofForm accepted (form.stackedIn_stack .byColumn)
  exact ⟨form, accepted, dims, cones, read, listed.resolve_right fun short => short.1 held,
    loaded.resolve_right fun full => full.1 held⟩

end ConicForm
