import ConicForm.Proofs.Relabelling
import ConicForm.Proofs.RowLayout

/-! The numbers that a caller gives to constraint rows decide nothing but the order of the
equalities. Rows of the cones are gathered in the order in which the cones list them, and the other
rows are the same ones by ascending number. -/
namespace ConicForm

open ConeList (groups orthant flattened WrittenEntry)

variable {count : ℕ}

namespace ConeList

variable (permutation : Equiv.Perm (Fin count)) (entries : List ConeEntry)

theorem flattened_relabel (kinds : List Cone) :
    flattened kinds (entries.map (VariableOrder.relabelEntry permutation)) =
      (flattened kinds entries).map fun item => (item.1, relabel permutation item.2) := by
  simp only [flattened, List.filter_map, List.flatMap_map, List.map_flatMap]
  refine List.flatMap_congr fun entry _ => ?_
  simp [VariableOrder.relabelEntry]

theorem groups_relabel (kind : Cone) :
    groups kind (entries.map (VariableOrder.relabelEntry permutation)) =
      (groups kind entries).map (List.map (relabel permutation)) := by
  simp only [groups, List.filter_map, List.map_map]
  rfl

end ConeList

namespace Datum

/-- Two tables store the same, one under other row numbers. They need not be given in the same way,
as long as there is room for the rows of both or of neither. -/
structure RelabelsRows [Machine] (permutation : Equiv.Perm (Fin count)) (d other : Datum) :
    Prop where
  table : d.IsTable
  otherTable : other.IsTable
  extents : ∀ cols, other.Tabulates count cols ↔ d.Tabulates count cols
  room : other.HasRoom ↔ d.HasRoom
  stores : ∀ cols, d.Tabulates count cols → ∀ (i : Fin count), ∀ j < cols, ∀ value,
    other.Stores cols (permutation i) j value ↔ d.Stores cols i j value

namespace RelabelsRows

variable [Machine] {permutation : Equiv.Perm (Fin count)} {d other : Datum}
  (relabels : d.RelabelsRows permutation other)
include relabels

theorem symm : other.RelabelsRows permutation.symm d where
  table := relabels.otherTable
  otherTable := relabels.table
  extents := fun cols => (relabels.extents cols).symm
  room := relabels.room.symm
  stores := by
    intro cols tabulates i j inside value
    have moved := relabels.stores cols ((relabels.extents cols).1 tabulates) (permutation.symm i)
      j inside value
    rw [Equiv.apply_symm_apply] at moved
    exact moved.symm

/-- If one of the tables is read then so is the other, as the same rows under other numbers. -/
theorem exists_toRows {cols : ℕ} {matrix : RowMatrix}
    (read : d.toRows (.integer count) (.integer cols) = .ok matrix) :
    ∃ moved, other.toRows (.integer count) (.integer cols) = .ok moved ∧ moved.isInside ∧
      (∀ i, (matrix.row i).Distinct) ∧
        ∀ i : Fin count, (matrix.row i).Perm (moved.row (permutation i)) := by
  obtain ⟨tabulates, room, rfl⟩ := (toRows_eq_ok_iff relabels.table).1 read
  have alsoTabulates := (relabels.extents cols).2 tabulates
  have holds := holds_tableRows relabels.table tabulates
  have also := holds_tableRows relabels.otherTable alsoTabulates
  refine ⟨_, (toRows_eq_ok_iff relabels.otherTable).2
    ⟨alsoTabulates, relabels.room.2 room, rfl⟩, also.inside, holds.distinct, fun i => ?_⟩
  rw [List.perm_ext_iff_of_nodup (holds.distinct i).of_map (also.distinct _).of_map]
  intro entry
  rw [holds.mem_row i i.isLt, also.mem_row _ (permutation i).isLt]
  refine exists_congr fun j => and_congr_right fun inside => and_congr_right fun _ => ?_
  exact (relabels.stores cols tabulates i j inside entry.2).symm

end RelabelsRows
end Datum

/-- Rows that are alike are the same once they are combined. -/
theorem ConstraintRow.Alike.combined_eq {row other : ConstraintRow} (alike : row.Alike other)
    (distinct : row.line.Distinct) : row.combined = other.combined := by
  have also : other.line.Distinct := (alike.line.map Prod.fst).nodup_iff.1 distinct
  have line : Line.combine row.line = Line.combine other.line := by
    refine (Line.ascending_combine _).ext (Line.ascending_combine _) fun entry => ?_
    rw [(Line.combine_perm distinct).mem_iff, (Line.combine_perm also).mem_iff,
      alike.line.mem_iff]
  rw [combined, combined, line, alike.bound]

/-- A number is among replaced ones if the number that it replaces is among them. -/
theorem mem_map_relabel_iff (permutation : Equiv.Perm (Fin count)) {indices : List ℤ} {i : ℤ} :
    i ∈ indices.map (relabel permutation) ↔ relabel permutation.symm i ∈ indices := by
  rw [List.mem_map]
  constructor
  · rintro ⟨j, member, rfl⟩
    rwa [relabel_symm]
  · exact fun member => ⟨_, member, relabel_symm permutation.symm i⟩

namespace StandardForm

/-- Two forms that differ in nothing but the order of those equalities that are constraint rows. The
rows have the order of their numbers in one form and that of their new numbers in the other one; the
variables of zero cones follow in both. -/
structure Reordered (permutation : Equiv.Perm (Fin count)) (rowCones variableCones : List ConeEntry)
    (form other : StandardForm) : Prop where
  orthant : other.orthant = form.orthant
  sizes : other.sizes = form.sizes
  G : other.G = form.G
  h : other.h = form.h
  c : other.c = form.c
  sense : other.sense = form.sense
  order : other.order = form.order
  p : other.p = form.p
  equalities : ∃ (row : ℕ → ConstraintRow) (pinned : List ConstraintRow),
    pinned.length = (groups .zero variableCones).flatten.length ∧
      form.equalityRows = (ConicProblem.kept count rowCones).map row ++ pinned ∧
      other.equalityRows = ((List.range count).filter fun i =>
        relabelNat permutation.symm i ∈ ConicProblem.kept count rowCones).map
          (fun i => row (relabelNat permutation.symm i)) ++ pinned

end StandardForm

namespace ConicProblem

/-- The rows that are kept under their new numbers are those whose old numbers are kept. -/
theorem kept_relabel (permutation : Equiv.Perm (Fin count)) (rowCones : List ConeEntry) :
    kept count (rowCones.map (VariableOrder.relabelEntry permutation)) =
      (List.range count).filter fun i => relabelNat permutation.symm i ∈ kept count rowCones := by
  have moved : (orthant (rowCones.map (VariableOrder.relabelEntry permutation))).map Prod.snd ++
      (groups .secondOrder (rowCones.map (VariableOrder.relabelEntry permutation))).flatten =
        ((orthant rowCones).map Prod.snd ++ (groups .secondOrder rowCones).flatten).map
          (relabel permutation) := by
    rw [orthant, ConeList.flattened_relabel, ConeList.groups_relabel, ← List.map_flatten,
      List.map_append, List.map_map, List.map_map]
    rfl
  rw [kept, moved]
  refine List.filter_congr fun i member => decide_eq_decide.2 ?_
  rw [mem_map_relabel_iff, relabel_natCast, kept, List.mem_filter, List.mem_range,
    relabelNat_lt_iff, decide_eq_true_eq]
  exact (and_iff_right (List.mem_range.1 member)).symm

theorem lt_of_mem_kept {rowCones : List ConeEntry} {i : ℕ} (member : i ∈ kept count rowCones) :
    i < count :=
  List.mem_range.1 (List.mem_filter.1 member).1

/-- As many rows are kept under new numbers. -/
theorem length_kept_relabel (permutation : Equiv.Perm (Fin count)) (rowCones : List ConeEntry) :
    (kept count (rowCones.map (VariableOrder.relabelEntry permutation))).length =
      (kept count rowCones).length := by
  have once (rowCones : List ConeEntry) : (kept count rowCones).Nodup :=
    List.nodup_range.filter _
  have perm : ((kept count rowCones).map (relabelNat permutation)).Perm
      (kept count (rowCones.map (VariableOrder.relabelEntry permutation))) := by
    rw [List.perm_ext_iff_of_nodup ((once _).map (relabelNat_injective permutation)) (once _)]
    intro i
    rw [kept_relabel, List.mem_filter, List.mem_range, decide_eq_true_eq, List.mem_map]
    constructor
    · rintro ⟨k, member, rfl⟩
      rw [relabelNat_symm]
      exact ⟨(relabelNat_lt_iff permutation).2 (lt_of_mem_kept member), member⟩
    · exact fun ⟨_, member⟩ => ⟨_, member, relabelNat_symm permutation.symm i⟩
  rw [← perm.length_eq, List.length_map]

/-- A problem that has been read, and the same problem with other numbers for its rows. -/
structure RowsRelabelled (permutation : Equiv.Perm (Fin count)) (problem other : ConicProblem) :
    Prop where
  size : problem.bounds.length = count
  otherSize : other.bounds.length = count
  bounds : ∀ i : Fin count, other.bounds[(permutation i : ℕ)]? = problem.bounds[(i : ℕ)]?
  rowCones : other.rowCones = problem.rowCones.map (VariableOrder.relabelEntry permutation)
  objective : other.objective = problem.objective
  variableCones : other.variableCones = problem.variableCones
  sense : other.sense = problem.sense
  cols : other.matrix.cols = other.objective.length
  inside : other.matrix.isInside
  rows : ∀ i : Fin count, (problem.matrix.row i).Perm (other.matrix.row (permutation i))

namespace RowsRelabelled

variable {permutation : Equiv.Perm (Fin count)} {problem other : ConicProblem}
  (relabelled : problem.RowsRelabelled permutation other)
include relabelled

theorem exists_assign {seen : List ℕ}
    (assigned : VariableOrder.assign .rows problem.bounds.length []
      (VariableOrder.listed problem.rowCones) = .ok seen) :
    ∃ seen, VariableOrder.assign .rows other.bounds.length []
      (VariableOrder.listed other.rowCones) = .ok seen := by
  obtain ⟨inside, once⟩ := VariableOrder.exists_assign_iff.1 ⟨seen, assigned⟩
  rw [relabelled.size] at inside
  rw [relabelled.otherSize, relabelled.rowCones, VariableOrder.listed_relabel,
    VariableOrder.exists_assign_iff]
  constructor
  · refine List.forall_mem_map.2 fun index member => ?_
    obtain ⟨lower, upper⟩ := inside index member
    obtain ⟨i, rfl⟩ := Int.eq_ofNat_of_zero_le lower
    have below := (relabelNat_lt_iff permutation).2 (Int.ofNat_lt.1 upper)
    rw [relabel_natCast]
    exact ⟨Int.natCast_nonneg _, Int.ofNat_lt.2 below⟩
  · exact once.map (Function.LeftInverse.injective (relabel_symm permutation))

section Rows

variable (place : ℤ → ℤ)

theorem alike_movedRow (factor : Binary64) {i : ℤ} (inside : 0 ≤ i ∧ i < count) :
    (problem.movedRow place factor i).Alike
      (other.movedRow place factor (relabel permutation i)) := by
  obtain ⟨k, rfl⟩ := Int.eq_ofNat_of_zero_le inside.1
  have below : k < count := Int.ofNat_lt.1 inside.2
  have number : (relabel permutation k).toNat = permutation ⟨k, below⟩ := by
    rw [relabel_natCast, Int.toNat_natCast, ← relabelNat_val]
  refine ConstraintRow.Alike.scale ⟨?_, ?_⟩ factor
  · rw [number]
    exact (relabelled.rows ⟨k, below⟩).map _
  · rw [number, relabelled.bounds ⟨k, below⟩]
    rfl

theorem sizes_eq : other.sizes = problem.sizes := by
  rw [ConicProblem.sizes_eq, ConicProblem.sizes_eq, relabelled.variableCones, relabelled.rowCones,
    ConeList.groups_relabel]
  simp [Function.comp_def]

variable (rows : ∀ i ∈ VariableOrder.listed problem.rowCones, 0 ≤ i ∧ i < (count : ℤ))
include rows

theorem alike_inequalities : List.Forall₂ ConstraintRow.Alike
    (problem.orthantRows place ++ problem.secondOrderRows place)
    (other.orthantRows place ++ other.secondOrderRows place) := by
  have moved {α : Type} {items : List α} {index : α → ℤ} (factor : α → Binary64)
      (listed : ∀ item ∈ items, index item ∈ VariableOrder.listed problem.rowCones) :
      List.Forall₂ ConstraintRow.Alike
        (items.map fun item => problem.movedRow place (factor item) (index item))
        (items.map fun item =>
          other.movedRow place (factor item) (relabel permutation (index item))) := by
    rw [List.forall₂_map_left_iff, List.forall₂_map_right_iff, List.forall₂_same]
    exact fun item member => relabelled.alike_movedRow place _ (rows _ (listed item member))
  rw [orthantRows_eq, secondOrderRows_eq, orthantRows_eq, secondOrderRows_eq,
    relabelled.variableCones, relabelled.rowCones, ConeList.groups_relabel, ← List.map_flatten]
  unfold orthant
  rw [ConeList.flattened_relabel, List.map_map, List.map_map]
  refine List.rel_append (List.rel_append (alike_refl _) ?_) (List.rel_append (alike_refl _) ?_)
  · exact moved (fun item => sign item.1) fun _ => ConeList.mem_listed_of_mem_flattened
  · exact moved (fun _ => .one) fun _ => ConeList.mem_listed_of_mem_groups

end Rows

/-- The kept rows are the same, under their old numbers and by ascending new ones. -/
theorem equalityRows_reordered {reverse : List ℕ} {form moved : StandardForm}
    (regular : problem.Regular) (placed : problem.Placed reverse form)
    (also : other.Placed reverse moved) : ∃ (row : ℕ → ConstraintRow) (pinned : List ConstraintRow),
      pinned.length = (groups .zero problem.variableCones).flatten.length ∧
        form.equalityRows = (kept count problem.rowCones).map row ++ pinned ∧
        moved.equalityRows = ((List.range count).filter fun i =>
          relabelNat permutation.symm i ∈ kept count problem.rowCones).map
            (fun i => row (relabelNat permutation.symm i)) ++ pinned := by
  obtain ⟨_, equalities⟩ := rows_of_placed placed regular.cols
  obtain ⟨_, alsoEqualities⟩ := rows_of_placed also relabelled.cols
  rw [equalityRows_eq, keptIndices_eq fun i listed => (placed.rows i listed).1, relabelled.size,
    List.map_append, List.map_map] at equalities
  rw [equalityRows_eq, keptIndices_eq fun i listed => (also.rows i listed).1, relabelled.otherSize,
    relabelled.rowCones, kept_relabel, relabelled.variableCones, List.map_append,
    List.map_map] at alsoEqualities
  refine ⟨fun i => (problem.movedRow (VariableOrder.place reverse) .one i).combined, _, ?_,
    equalities, ?_⟩
  · rw [List.length_map, List.length_map]
  · rw [alsoEqualities]
    congr 1
    refine List.map_congr_left fun i member => ?_
    -- The row with the new number `i` is the one that is kept under the number `i` has replaced.
    have below := lt_of_mem_kept (of_decide_eq_true (List.mem_filter.1 member).2)
    have alike := relabelled.alike_movedRow (VariableOrder.place reverse) .one
      ⟨Int.natCast_nonneg _, Int.ofNat_lt.2 below⟩
    have number : relabelNat permutation (relabelNat permutation.symm i) = i :=
      relabelNat_symm permutation.symm i
    rw [relabel_natCast, number] at alike
    exact (alike.combined_eq (fitsIn_movedRow regular placed .one _).1).symm

theorem exists_standardForm_reordered {form : StandardForm} (regular : problem.Regular)
    (built : problem.standardForm = .ok form) :
    ∃ moved, other.standardForm = .ok moved ∧
      form.Reordered permutation problem.rowCones problem.variableCones moved := by
  obtain ⟨_, reverse, assigned, arranged, placed⟩ := exists_arranged_of_standardForm built
  obtain ⟨_, alsoAssigned⟩ := relabelled.exists_assign assigned
  have alsoArranged : VariableOrder.arrange other.variableCones other.objective.length =
      .ok reverse := by
    rw [relabelled.variableCones, relabelled.objective]
    exact arranged
  obtain ⟨moved, alsoBuilt⟩ := exists_standardForm alsoAssigned alsoArranged relabelled.inside
  obtain ⟨_, reverse', _, again, also⟩ := exists_arranged_of_standardForm alsoBuilt
  -- The variables are the same in both problems, and so is their order.
  obtain rfl : reverse' = reverse := Except.ok.inj (again.symm.trans alsoArranged)
  have rows := placed.rows
  rw [relabelled.size] at rows
  have made := placed.made
  have alsoMade := also.made
  have alike := relabelled.alike_inequalities (VariableOrder.place reverse') rows
  have distinct := fun row member => (fit_inequalities regular placed row member).1
  have npos : (other.orthantRows (VariableOrder.place reverse')).length =
      (problem.orthantRows (VariableOrder.place reverse')).length := by
    rw [orthantRows_eq, orthantRows_eq, relabelled.variableCones, relabelled.rowCones]
    simp [orthant, ConeList.flattened_relabel]
  have objective : other.movedObjective reverse' = problem.movedObjective reverse' := by
    rw [movedObjective, movedObjective, relabelled.objective]
  rw [npos, relabelled.sizes_eq, relabelled.sense, objective] at alsoMade
  have equalities := relabelled.equalityRows_reordered regular placed also
  refine ⟨moved, alsoBuilt, ?_⟩
  constructor
  · rw [alsoMade.orthant, made.orthant]
  · rw [alsoMade.sizes, made.sizes]
  · rw [alsoMade.G, made.G, ConstraintRow.matrix_congr alike distinct]
  · rw [alsoMade.h, made.h, ConstraintRow.map_bound_eq (fun _ _ own => own.bound.symm) alike]
  · rw [alsoMade.c, made.c]
  · rw [alsoMade.sense, made.sense]
  · rw [alsoMade.order, made.order]
  · obtain ⟨row, pinned, _, own, reordered⟩ := equalities
    rw [← StandardForm.length_equalityRows, ← StandardForm.length_equalityRows, own, reordered,
      ← kept_relabel]
    simp [length_kept_relabel]
  · exact equalities

end RowsRelabelled

/-- A problem that a caller gives, and the same problem with other numbers for its rows: rows and
right-hand sides have been moved, and so have the indices of the cones that are below the bound. -/
structure Input.RelabelsRows [Machine] (permutation : Equiv.Perm (Fin count))
    (input other : Input) : Prop where
  bounds : ∃ sides moved, input.bounds.toEntries = .ok sides ∧
    other.bounds.toEntries = .ok moved ∧ sides.length = count ∧ moved.length = count ∧
      ∀ i : Fin count, moved[(permutation i : ℕ)]? = sides[(i : ℕ)]?
  matrix : input.matrix.RelabelsRows permutation other.matrix
  rowCones : ∃ rows moved, input.rowCones = ConeList.ofWritten rows ∧
    other.rowCones = ConeList.ofWritten moved ∧
      List.Forall₂ (WrittenEntry.Relabels permutation) rows moved
  objective : other.objective = input.objective
  variableCones : other.variableCones = input.variableCones
  sense : other.sense = input.sense

namespace Input.RelabelsRows

variable [Machine] {permutation : Equiv.Perm (Fin count)} {input other : Input}
  (relabels : input.RelabelsRows permutation other)
include relabels

theorem symm : other.RelabelsRows permutation.symm input where
  bounds := by
    obtain ⟨sides, moved, read, alsoRead, size, alsoSize, same⟩ := relabels.bounds
    refine ⟨moved, sides, alsoRead, read, alsoSize, size, fun i => ?_⟩
    rw [← same, Equiv.apply_symm_apply]
  matrix := relabels.matrix.symm
  rowCones := by
    obtain ⟨rows, moved, given, alsoGiven, each⟩ := relabels.rowCones
    exact ⟨moved, rows, alsoGiven, given, each.flip.imp fun _ _ own => own.symm⟩
  objective := relabels.objective.symm
  variableCones := relabels.variableCones.symm
  sense := relabels.sense.symm

theorem exists_read {problem : ConicProblem} (given : read input = .ok problem) :
    ∃ moved, read other = .ok moved ∧ problem.Regular ∧
      problem.RowsRelabelled permutation moved := by
  obtain ⟨sides, movedSides, sidesRead, movedRead, size, alsoSize, same⟩ := relabels.bounds
  obtain ⟨rows, movedRows, rowsAre, movedAre, each⟩ := relabels.rowCones
  obtain ⟨sense, cones, objective, bounds, matrix⟩ := read_eq_ok_iff.1 given
  obtain rfl : sides = problem.bounds := Except.ok.inj (sidesRead.symm.trans bounds)
  obtain ⟨_, _, accepted⟩ := ConeList.readBoth_eq_ok cones
  have cols := (Datum.shape_toRows matrix).2
  rw [rowsAre] at cones
  rw [size] at matrix
  obtain ⟨movedMatrix, alsoRead, inside, distinct, perm⟩ := relabels.matrix.exists_toRows matrix
  have movedCones := ConeList.readBoth_of_readsLike (ConeList.readsLike_relabelled each)
    (.refl input.variableCones) cones
  rw [List.map_id] at movedCones
  refine ⟨⟨problem.objective, movedMatrix, movedSides,
    problem.rowCones.map (VariableOrder.relabelEntry permutation), problem.variableCones,
    problem.sense⟩, read_eq_ok_iff.2 ⟨?_, ?_, ?_, movedRead, ?_⟩, ⟨cols, distinct, accepted⟩,
    ⟨size, alsoSize, same, rfl, rfl, rfl, rfl, (Datum.shape_toRows alsoRead).2, inside, perm⟩⟩
  · rw [relabels.sense, sense]
  · rw [movedAre, relabels.variableCones, movedCones]
  · rw [relabels.objective, objective]
  · rw [alsoSize, alsoRead]

theorem exists_load {form : StandardForm} (loaded : load input = .ok form) :
    ∃ moved, load other = .ok moved ∧
      form.Reordered permutation (ConeList.entriesOf input.rowCones)
        (ConeList.entriesOf input.variableCones) moved := by
  obtain ⟨problem, given, built⟩ := Outcome.bind_eq_ok_iff.1 loaded
  obtain ⟨moved, alsoGiven, regular, relabelled⟩ := relabels.exists_read given
  obtain ⟨form', alsoBuilt, forms⟩ := relabelled.exists_standardForm_reordered regular built
  have readAs := readAs_of_read given
  rw [readAs.rowCones, readAs.variableCones]
  exact ⟨form', Outcome.bind_eq_ok_iff.2 ⟨moved, alsoGiven, alsoBuilt⟩, forms⟩

end Input.RelabelsRows

/-- Other numbers for the constraint rows change neither whether a problem is accepted nor anything
of its form but the order of the equalities. -/
theorem load_reordered [Machine] {permutation : Equiv.Perm (Fin count)} {input other : Input}
    (relabels : input.RelabelsRows permutation other) :
    ((∃ form, load input = .ok form) ↔ ∃ moved, load other = .ok moved) ∧
      ∀ form moved, load input = .ok form → load other = .ok moved →
        form.Reordered permutation (ConeList.entriesOf input.rowCones)
          (ConeList.entriesOf input.variableCones) moved := by
  refine ⟨⟨?_, ?_⟩, ?_⟩
  · rintro ⟨form, loaded⟩
    obtain ⟨moved, alsoLoaded, _⟩ := relabels.exists_load loaded
    exact ⟨moved, alsoLoaded⟩
  · rintro ⟨moved, loaded⟩
    obtain ⟨form, alsoLoaded, _⟩ := relabels.symm.exists_load loaded
    exact ⟨form, alsoLoaded⟩
  · intro form moved loaded alsoLoaded
    obtain ⟨again, same, reordered⟩ := relabels.exists_load loaded
    obtain rfl : again = moved := Except.ok.inj (same.symm.trans alsoLoaded)
    exact reordered

/-- The rows of second order and of the zero cone change places. -/
def Input.exchanged : Input :=
  { Input.layered with
    matrix := .list [
      .list [.integer 1, .integer 1, .integer 1, .integer 1, .integer 1],
      .list [.integer 0, .integer 1, .integer 0, .integer 0, .integer 0],
      .list [.integer 0, .integer 0, .integer 0, .integer 3, .integer 1],
      .list [.integer 1, .integer 0, .integer 0, .integer 0, .integer 2]]
    bounds := .list [.integer 4, .integer 2, .integer 3, .integer 1]
    rowCones := ConeList.toDatum [(.secondOrder, [0]), (.zero, [3]), (.nonpos, [2])] }

theorem relabelsRows_exchanged :
    Input.layered.RelabelsRows (Equiv.swap (0 : Fin 4) 3) .exchanged where
  bounds := by
    obtain ⟨sides, read, sidesAre⟩ : ∃ sides, Input.layered.bounds.toEntries = .ok sides ∧
        id sides = [.one, .ofRat 2, .ofRat 3, .ofRat 4] :=
      Outcome.exists_of_toOption_map (by decide +kernel)
    obtain ⟨moved, alsoRead, movedAre⟩ : ∃ moved, Input.exchanged.bounds.toEntries = .ok moved ∧
        id moved = [.ofRat 4, .ofRat 2, .ofRat 3, .one] :=
      Outcome.exists_of_toOption_map (by decide +kernel)
    refine ⟨sides, moved, read, alsoRead, congrArg List.length sidesAre,
      congrArg List.length movedAre, fun i => ?_⟩
    rw [id_eq] at sidesAre movedAre
    rw [sidesAre, movedAre]
    fin_cases i <;> rfl
  matrix := by
    obtain ⟨_, read, extents⟩ : ∃ array, NumberArray.ofDatum Input.layered.matrix = .ok array ∧
        array.shape.matrix? = some (4, 5) := Outcome.exists_of_toOption_map (by decide +kernel)
    obtain ⟨_, alsoRead, alsoExtents⟩ : ∃ array,
        NumberArray.ofDatum Input.exchanged.matrix = .ok array ∧
          array.shape.matrix? = some (4, 5) := Outcome.exists_of_toOption_map (by decide +kernel)
    refine ⟨.dense read extents, .dense alsoRead alsoExtents, fun cols => .rfl, .rfl, ?_⟩
    intro cols tabulates i j inside value
    obtain rfl : 5 = cols := congrArg Prod.snd (Option.some.inj tabulates)
    have same : ∀ i : Fin 4, ∀ j < 5,
        Input.exchanged.matrix.numbers[(Equiv.swap (0 : Fin 4) 3 i : ℕ) * 5 + j]? =
          Input.layered.matrix.numbers[(i : ℕ) * 5 + j]? := by decide +kernel
    rw [Datum.stores_of_dense (Datum.dense_of_ofDatum alsoRead),
      Datum.stores_of_dense (Datum.dense_of_ofDatum read), same i j inside]
  rowCones := by
    refine ⟨[⟨.cone .secondOrder, [.integer 3]⟩, ⟨.cone .zero, [.integer 0]⟩,
      ⟨.cone .nonpos, [.integer 2]⟩], [⟨.cone .secondOrder, [.integer 0]⟩,
      ⟨.cone .zero, [.integer 3]⟩, ⟨.cone .nonpos, [.integer 2]⟩], rfl, rfl, ?_⟩
    exact .cons ⟨rfl, .cons rfl .nil⟩
      (.cons ⟨rfl, .cons rfl .nil⟩ (.cons ⟨rfl, .cons rfl .nil⟩ .nil))
  objective := rfl
  variableCones := rfl
  sense := rfl

theorem load_exchanged : ∃ form moved, load .layered = .ok form ∧ load .exchanged = .ok moved ∧
    ∃ (row : ℕ → ConstraintRow) (pinned : ConstraintRow),
      form.equalityRows = [row 0, row 1, pinned] ∧ moved.equalityRows = [row 1, row 0, pinned] := by
  obtain ⟨form, loaded, _⟩ := load_layered
  obtain ⟨accepts, reordered⟩ := load_reordered relabelsRows_exchanged
  obtain ⟨moved, alsoLoaded⟩ := accepts.1 ⟨form, loaded⟩
  obtain ⟨row, pinned, one, own, also⟩ := (reordered form moved loaded alsoLoaded).equalities
  have keeps : kept 4 (ConeList.entriesOf Input.layered.rowCones) = [0, 1] := by decide +kernel
  have moves : ((List.range 4).filter fun i =>
      relabelNat (Equiv.swap (0 : Fin 4) 3).symm i ∈ [0, 1]).map
        (relabelNat (Equiv.swap (0 : Fin 4) 3).symm) = [1, 0] := by decide +kernel
  obtain ⟨last, rfl⟩ : ∃ last, pinned = [last] :=
    List.length_eq_one_iff.1 (one.trans (by decide +kernel))
  rw [keeps] at own also
  refine ⟨form, moved, loaded, alsoLoaded, row, last, own, also.trans ?_⟩
  have rows := congrArg (List.map row) moves
  rw [List.map_map] at rows
  exact congrArg (· ++ [last]) rows

end ConicProblem
end ConicForm
