import ConicForm.Proofs.AssembledForm
import ConicForm.Proofs.RelabelledRows

/-! The numbers that a caller gives to variables make no difference to what a solver sees. A problem
under other numbers is accepted exactly if the problem itself is, and its form differs in nothing
but the order, so that every reply means the same values of the same variables. -/
namespace ConicForm

namespace Outcome

variable {ε : Type u} {α β γ δ : Type v}

/-- Two steps fail in the same way, or what they give is related. -/
def Related (related : α → β → Prop) : Except ε α → Except ε β → Prop
  | .ok value, .ok other => related value other
  | .error fault, .error other => fault = other
  | _, _ => False

theorem Related.bind {first : Except ε α} {second : Except ε β} {related : α → β → Prop}
    (own : Related related first second) {after : γ → δ → Prop} {next : α → Except ε γ}
    {also : β → Except ε δ}
    (later : ∀ value other, first = .ok value → second = .ok other → related value other →
      Related after (next value) (also other)) :
    Related after (first >>= next) (second >>= also) := by
  cases first with
  | error fault =>
    cases second with
    | error other => exact own
    | ok other => exact own.elim
  | ok value =>
    cases second with
    | error other => exact own.elim
    | ok other => exact later value other rfl rfl own

/-- If every item of a list can be read like its counterpart in another list, so can the lists. -/
theorem mapM_of_forall₂ {f : α → Except ε β} {g : γ → Except ε δ} {h : β → δ} {items : List α}
    {others : List γ} {results : List β}
    (alike : List.Forall₂ (fun item other => ∀ value, f item = .ok value → g other = .ok (h value))
      items others) (read : items.mapM f = .ok results) : others.mapM g = .ok (results.map h) := by
  rw [mapM_eq_ok_iff] at read ⊢
  induction alike generalizing results with
  | nil =>
    cases read
    exact .nil
  | cons own _ ih =>
    cases read with
    | cons first rest => exact .cons (own _ first) (ih rest)

theorem related_eq (outcome : Except ε α) : Related Eq outcome outcome := by
  cases outcome <;> exact rfl

end Outcome

open Outcome (Related)
open ConeList (WrittenEntry)

variable {count : ℕ} {permutation : Equiv.Perm (Fin count)}

namespace ConeList.WrittenEntry

/-- An entry of the same kind with every index replaced. Neither index has to be an integer. -/
structure Relabels (permutation : Equiv.Perm (Fin count)) (entry other : WrittenEntry) : Prop where
  designation : other.designation = entry.designation
  indices : List.Forall₂ (fun index moved : Datum =>
    moved.toIndex.toOption = index.toIndex.toOption.map (relabel permutation))
      entry.indices other.indices

namespace Relabels

variable {entry other : WrittenEntry} (relabels : entry.Relabels permutation other)
include relabels

theorem symm : other.Relabels permutation.symm entry where
  designation := relabels.designation.symm
  indices := relabels.indices.flip.imp fun moved index same => by
    rw [same, Option.map_map]
    cases index.toIndex.toOption <;> simp [relabel_symm]

theorem kind?_eq : other.kind? = entry.kind? := by
  rw [kind?, kind?, relabels.designation]

theorem readIndices_kinded [Machine] {read : ConeEntry}
    (given : readIndices entry.kinded = .ok read) :
    readIndices other.kinded = .ok (VariableOrder.relabelEntry permutation read) := by
  obtain ⟨_, ⟨⟩, given⟩ := Outcome.bind_eq_ok_iff.1 given
  obtain ⟨indices, integers, rfl⟩ := Outcome.map_eq_ok_iff.1 given
  have moved : other.indices.mapM Datum.toIndex = .ok (indices.map (relabel permutation)) := by
    refine Outcome.mapM_of_forall₂ (relabels.indices.imp fun index moved same i read => ?_) integers
    rw [read] at same
    cases reading : moved.toIndex with
    | error fault =>
      rw [reading] at same
      cases same
    | ok k =>
      rw [reading] at same
      exact congrArg Except.ok (Option.some.inj same)
  refine Outcome.bind_eq_ok_iff.2 ⟨_, rfl, ?_⟩
  rw [moved]
  simp only [Except.map, kinded, relabels.kind?_eq]
  rfl

end Relabels
end ConeList.WrittenEntry

namespace ConeList

/-- A list of cones is read like another one, with every entry replaced by one of its kind. -/
structure ReadsLike [Machine] (replace : ConeEntry → ConeEntry) (cones other : Datum) : Prop where
  nonempty : ∀ entry, (entry.1 = .secondOrder → entry.2 ≠ []) →
    (replace entry).1 = .secondOrder → (replace entry).2 ≠ []
  kinds : ∀ kinds, readKinds cones = .ok kinds → ∃ moved, readKinds other = .ok moved ∧
    moved.map Prod.fst = kinds.map Prod.fst ∧ ∀ entries, kinds.mapM readIndices = .ok entries →
      moved.mapM readIndices = .ok (entries.map replace)

theorem ReadsLike.refl [Machine] (cones : Datum) : ReadsLike id cones cones where
  nonempty := fun _ own => own
  kinds := fun kinds read => ⟨kinds, read, rfl, fun entries indices => by rwa [List.map_id]⟩

/-- Cones are accepted like those that they are read like. -/
theorem readBoth_of_readsLike [Machine] {forRows forColumns : ConeEntry → ConeEntry}
    {rowCones otherRows variableCones otherColumns : Datum}
    (rows : ReadsLike forRows rowCones otherRows)
    (columns : ReadsLike forColumns variableCones otherColumns)
    {rowEntries variableEntries : List ConeEntry}
    (read : readBoth rowCones variableCones = .ok (rowEntries, variableEntries)) :
    readBoth otherRows otherColumns =
      .ok (rowEntries.map forRows, variableEntries.map forColumns) := by
  obtain ⟨rowKinds, rowsRead, read⟩ := Outcome.andThen_eq_ok_iff.1 read
  obtain ⟨variableKinds, kindsRead, read⟩ := Outcome.andThen_eq_ok_iff.1 read
  obtain ⟨_, supported, read⟩ := Outcome.andThen_eq_ok_iff.1 read
  obtain ⟨_, constrained, read⟩ := Outcome.andThen_eq_ok_iff.1 read
  obtain ⟨_, rowIndices, read⟩ := Outcome.andThen_eq_ok_iff.1 read
  obtain ⟨_, variableIndices, read⟩ := Outcome.andThen_eq_ok_iff.1 read
  obtain ⟨_, nonempty, read⟩ := Outcome.andThen_eq_ok_iff.1 read
  cases read
  obtain ⟨movedRows, movedRowsRead, sameRows, readRows⟩ := rows.kinds _ rowsRead
  obtain ⟨moved, movedRead, same, readColumns⟩ := columns.kinds _ kindsRead
  have alsoSupported : checkSupported (movedRows ++ moved) = .ok () := by
    rw [checkSupported_eq_ok_iff, List.map_append, same, sameRows, ← List.map_append]
    exact checkSupported_eq_ok_iff.1 supported
  have alsoConstrained : checkConstrained movedRows = .ok () := by
    apply checkConstrained_of_forall
    rw [sameRows]
    exact constrained_of_check constrained
  have alsoNonempty :
      checkNonempty (rowEntries.map forRows ++ variableEntries.map forColumns) = .ok () := by
    rw [checkNonempty_eq_ok_iff, List.forall_mem_append] at nonempty ⊢
    rw [List.forall_mem_map, List.forall_mem_map]
    exact ⟨fun entry member => rows.nonempty entry (nonempty.1 entry member),
      fun entry member => columns.nonempty entry (nonempty.2 entry member)⟩
  simp only [readBoth, movedRowsRead, movedRead, alsoSupported, alsoConstrained,
    readRows _ rowIndices, readColumns _ variableIndices, alsoNonempty, bind, Except.bind, pure,
    Except.pure]

section Entries

variable {entries others : List WrittenEntry}
  (relabels : List.Forall₂ (WrittenEntry.Relabels permutation) entries others)
include relabels

theorem kinds_relabelled : others.map WrittenEntry.kind? = entries.map WrittenEntry.kind? := by
  induction relabels with
  | nil => rfl
  | cons own _ ih => rw [List.map_cons, List.map_cons, own.kind?_eq, ih]

/-- Cones under other numbers are read as entries under other numbers. -/
theorem readsLike_relabelled [Machine] : ReadsLike (VariableOrder.relabelEntry permutation)
    (ofWritten entries) (ofWritten others) where
  nonempty := fun entry own kind empty => own kind (List.map_eq_nil_iff.1 empty)
  kinds := by
    intro kinds read
    obtain ⟨known, rfl⟩ := readKinds_eq_ok_iff.1 read
    have kinds := kinds_relabelled relabels
    have first (entries : List WrittenEntry) : (entries.map WrittenEntry.kinded).map Prod.fst =
        (entries.map WrittenEntry.kind?).map fun kind => kind.getD .free := by
      rw [List.map_map, List.map_map]
      rfl
    refine ⟨_, readKinds_eq_ok_iff.2 ⟨?_, rfl⟩, ?_, fun read indices => ?_⟩
    · rw [← List.forall_mem_map (f := WrittenEntry.kind?) (P := fun kind => kind.isSome)] at known ⊢
      rwa [kinds]
    · rw [first, first, kinds]
    · refine Outcome.mapM_of_forall₂ ?_ indices
      rw [List.forall₂_map_left_iff, List.forall₂_map_right_iff]
      exact relabels.imp fun _ _ own _ => own.readIndices_kinded

end Entries
end ConeList

namespace StandardForm

/-- Two forms that differ in nothing but the numbers of the variables at their places. -/
structure Relabelled (permutation : Equiv.Perm (Fin count)) (form other : StandardForm) :
    Prop where
  size : form.n = count
  orthant : other.orthant = form.orthant
  sizes : other.sizes = form.sizes
  G : other.G = form.G
  h : other.h = form.h
  A : other.A = form.A
  b : other.b = form.b
  c : other.c = form.c
  sense : other.sense = form.sense
  order : VariableOrder.Relabelled permutation form.order other.order

/-- What is made of rows that are alike differs in the order only. -/
theorem MadeOf.relabelled {form other : StandardForm} {npos : ℕ} {sizes : List ℕ}
    {inequalities equalities otherInequalities otherEqualities : List ConstraintRow}
    {objective : List Binary64} {sense : Sense} {order otherOrder : VariableOrder}
    (made : form.MadeOf npos sizes inequalities equalities objective sense order)
    (also : other.MadeOf npos sizes otherInequalities otherEqualities objective sense otherOrder)
    (size : objective.length = count)
    (alikeG : List.Forall₂ ConstraintRow.Alike inequalities otherInequalities)
    (alikeA : List.Forall₂ ConstraintRow.Alike equalities otherEqualities)
    (distinctG : ∀ row ∈ inequalities, row.line.Distinct)
    (distinctA : ∀ row ∈ equalities, row.line.Distinct)
    (orders : VariableOrder.Relabelled permutation order otherOrder) :
    form.Relabelled permutation other where
  size := by rw [n_of_madeOf made, size]
  orthant := by rw [also.orthant, made.orthant]
  sizes := by rw [also.sizes, made.sizes]
  G := by rw [also.G, made.G, ConstraintRow.matrix_congr alikeG distinctG]
  h := by rw [also.h, made.h, ConstraintRow.map_bound_eq (fun _ _ own => own.bound.symm) alikeG]
  A := by rw [also.A, made.A, ConstraintRow.matrix_congr alikeA distinctA]
  b := by rw [also.b, made.b, ConstraintRow.map_bound_eq (fun _ _ own => own.bound.symm) alikeA]
  c := by rw [also.c, made.c]
  sense := by rw [also.sense, made.sense]
  order := by rwa [also.order, made.order]

end StandardForm

/-- Two solutions with the same values of the same variables, under their own numbers. -/
structure Solution.Relabelled (permutation : Equiv.Perm (Fin count)) (solution other : Solution) :
    Prop where
  status : other.status = solution.status
  objective : other.objective = solution.objective
  formX : other.formX = solution.formX
  iterations : other.iterations = solution.iterations
  info : other.info = solution.info
  x : ∀ i : Fin count, other.x[(permutation i : ℕ)]? = solution.x[(i : ℕ)]?

/-- The solver is called with the same data, and fails in the same way or gives the same values. -/
structure Attempt.Relabelled (permutation : Equiv.Perm (Fin count)) (attempt other : Attempt) :
    Prop where
  call : other.call = attempt.call
  result : Related (Solution.Relabelled permutation) attempt.result other.result

namespace ConicProblem

/-- A problem that has been read, and the same problem with other numbers for its variables. -/
structure Relabelled (permutation : Equiv.Perm (Fin count)) (problem other : ConicProblem) :
    Prop where
  size : problem.objective.length = count
  otherSize : other.objective.length = count
  objective : ∀ i : Fin count, other.objective[(permutation i : ℕ)]? = problem.objective[(i : ℕ)]?
  bounds : other.bounds = problem.bounds
  rowCones : other.rowCones = problem.rowCones
  variableCones : other.variableCones =
    problem.variableCones.map (VariableOrder.relabelEntry permutation)
  sense : other.sense = problem.sense
  inside : other.matrix.isInside
  rows : ∀ i, (problem.matrix.row i).Within count ∧
    (other.matrix.row i).Perm ((problem.matrix.row i).reposition (relabel permutation))

theorem rowsUnder_relabel {entries : List ConeEntry} {place moved : ℤ → ℤ}
    (same : ∀ j ∈ VariableOrder.listed entries, moved (relabel permutation j) = place j)
    (factor? : Cone → Option Binary64) :
    rowsUnder (entries.map (VariableOrder.relabelEntry permutation)) factor? (unitRow moved) =
      rowsUnder entries factor? (unitRow place) := by
  induction entries with
  | nil => rfl
  | cons entry entries ih =>
    have split : VariableOrder.listed (entry :: entries) =
        entry.2 ++ VariableOrder.listed entries := rfl
    rw [split, List.forall_mem_append] at same
    rw [List.map_cons, rowsUnder_cons, rowsUnder_cons, ih same.2]
    congr 1
    show (factor? entry.1).elim _ _ = _
    cases factor? entry.1 with
    | none => rfl
    | some factor =>
      show (entry.2.map (relabel permutation)).map (unitRow moved factor) = _
      rw [List.map_map]
      refine List.map_congr_left fun j member => ?_
      rw [Function.comp_apply, unitRow, same.1 j member]
      rfl

theorem alike_refl (rows : List ConstraintRow) : List.Forall₂ ConstraintRow.Alike rows rows :=
  List.forall₂_same.2 fun row _ => .refl row

namespace Relabelled

variable {problem other : ConicProblem} (relabelled : problem.Relabelled permutation other)
include relabelled

theorem alike_movedRow {place moved : ℤ → ℤ}
    (same : ∀ j : ℤ, 0 ≤ j → j < count → moved (relabel permutation j) = place j)
    (factor : Binary64) (i : ℤ) :
    (problem.movedRow place factor i).Alike (other.movedRow moved factor i) := by
  obtain ⟨within, perm⟩ := relabelled.rows i.toNat
  refine ConstraintRow.Alike.scale ⟨?_, by rw [relabelled.bounds]⟩ factor
  have positions : Line.reposition place (problem.matrix.row i.toNat) =
      Line.reposition moved (Line.reposition (relabel permutation)
        (problem.matrix.row i.toNat)) := by
    rw [Line.reposition, Line.reposition, Line.reposition, List.map_map]
    refine List.map_congr_left fun entry member => ?_
    rw [Function.comp_apply, same _ (within entry member).1 (within entry member).2]
  rw [positions]
  exact (perm.map _).symm

variable {reverse : List ℕ} {form : StandardForm}

theorem movedObjective_eq (perm : reverse.Perm (List.range count)) :
    other.movedObjective (reverse.map (relabelNat permutation)) =
      problem.movedObjective reverse := by
  rw [movedObjective, movedObjective, List.map_map]
  refine List.map_congr_left fun i member => ?_
  have below := List.mem_range.1 (perm.mem_iff.1 member)
  have same := relabelled.objective ⟨i, below⟩
  rw [Function.comp_apply, ← same, ← relabelNat_val]

theorem sizes_eq : other.sizes = problem.sizes := by
  rw [sizes, sizes, relabelled.variableCones, relabelled.rowCones, List.filter_append,
    List.filter_append, List.map_append, List.map_append, List.filter_map, List.map_map]
  congr 1
  refine List.map_congr_left fun entry _ => ?_
  exact List.length_map _

section Rows

variable (reverse)

/-- Rows of variables are the same, as every variable keeps its place. -/
theorem unitRows_eq (columns : ∀ j ∈ VariableOrder.listed problem.variableCones, 0 ≤ j)
    (factor? : Cone → Option Binary64) :
    rowsUnder other.variableCones factor?
        (unitRow (VariableOrder.place (reverse.map (relabelNat permutation)))) =
      rowsUnder problem.variableCones factor? (unitRow (VariableOrder.place reverse)) := by
  rw [relabelled.variableCones]
  exact rowsUnder_relabel (fun j listed =>
    VariableOrder.place_relabel permutation reverse (columns j listed)) factor?

theorem alike_moved (factor : Binary64) (i : ℤ) :
    (problem.movedRow (VariableOrder.place reverse) factor i).Alike
      (other.movedRow (VariableOrder.place (reverse.map (relabelNat permutation))) factor i) :=
  relabelled.alike_movedRow (fun _ lower _ =>
    VariableOrder.place_relabel permutation reverse lower) factor i

theorem alike_groups (columns : ∀ j ∈ VariableOrder.listed problem.variableCones, 0 ≤ j)
    (ofVariable ofRow : Cone → Option Binary64) : List.Forall₂ ConstraintRow.Alike
    (rowsUnder problem.variableCones ofVariable (unitRow (VariableOrder.place reverse)) ++
      rowsUnder problem.rowCones ofRow (problem.movedRow (VariableOrder.place reverse)))
    (rowsUnder other.variableCones ofVariable
        (unitRow (VariableOrder.place (reverse.map (relabelNat permutation)))) ++
      rowsUnder other.rowCones ofRow
        (other.movedRow (VariableOrder.place (reverse.map (relabelNat permutation))))) := by
  rw [relabelled.unitRows_eq reverse columns, relabelled.rowCones]
  exact List.rel_append (alike_refl _)
    (forall₂_rowsUnder fun _ factor _ => relabelled.alike_moved reverse factor)

theorem alike_equalityRows (columns : ∀ j ∈ VariableOrder.listed problem.variableCones, 0 ≤ j) :
    List.Forall₂ ConstraintRow.Alike (problem.equalityRows (VariableOrder.place reverse))
      (other.equalityRows (VariableOrder.place (reverse.map (relabelNat permutation)))) := by
  have kept : other.keptIndices = problem.keptIndices := by
    rw [keptIndices, keptIndices, movedIndices, movedIndices, relabelled.bounds,
      relabelled.rowCones]
  rw [equalityRows, equalityRows, kept, relabelled.unitRows_eq reverse columns]
  refine List.rel_append ?_ (alike_refl _)
  rw [List.forall₂_map_left_iff, List.forall₂_map_right_iff, List.forall₂_same]
  exact fun i _ => relabelled.alike_moved reverse .one i

end Rows

theorem exists_standardForm_relabelled (regular : problem.Regular)
    (built : problem.standardForm = .ok form) :
    ∃ moved, other.standardForm = .ok moved ∧ form.Relabelled permutation moved := by
  obtain ⟨seen, reverse, assigned, arranged, placed⟩ := exists_arranged_of_standardForm built
  have columns := fun j listed => (placed.columns j listed).1
  have perm := placed.perm
  rw [relabelled.size] at perm
  have alsoAssigned : VariableOrder.assign .rows other.bounds.length []
      (VariableOrder.listed other.rowCones) = .ok seen := by
    rw [relabelled.bounds, relabelled.rowCones]
    exact assigned
  have alsoArranged : VariableOrder.arrange other.variableCones other.objective.length =
      .ok (reverse.map (relabelNat permutation)) := by
    rw [relabelled.otherSize, relabelled.variableCones]
    rw [relabelled.size] at arranged
    exact VariableOrder.arrange_relabel permutation arranged
  obtain ⟨moved, alsoBuilt⟩ := exists_standardForm alsoAssigned alsoArranged relabelled.inside
  refine ⟨moved, alsoBuilt, ?_⟩
  rw [standardForm_of_arranged alsoAssigned alsoArranged relabelled.inside] at alsoBuilt
  have also := StandardForm.madeOf_ofRows alsoBuilt
  have objective : other.sense.toMinimize
      (other.movedObjective (reverse.map (relabelNat permutation))) =
        problem.sense.toMinimize (problem.movedObjective reverse) := by
    rw [relabelled.sense, relabelled.movedObjective_eq perm]
  have orthant : List.Forall₂ ConstraintRow.Alike
      (problem.orthantRows (VariableOrder.place reverse))
      (other.orthantRows (VariableOrder.place (reverse.map (relabelNat permutation)))) :=
    relabelled.alike_groups reverse columns orthantCoefficient? orthantFactor?
  have secondOrder : List.Forall₂ ConstraintRow.Alike
      (problem.secondOrderRows (VariableOrder.place reverse))
      (other.secondOrderRows (VariableOrder.place (reverse.map (relabelNat permutation)))) :=
    relabelled.alike_groups reverse columns (onlyFor .secondOrder (-Binary64.one))
      (onlyFor .secondOrder .one)
  rw [objective, relabelled.sense, relabelled.sizes_eq, ← orthant.length_eq] at also
  refine placed.made.relabelled also ?_ (List.rel_append orthant secondOrder)
    (relabelled.alike_equalityRows reverse columns) (fun row member =>
      (fit_inequalities regular placed row member).1) (fun row member =>
        (fit_equalities regular placed row member).1) ?_
  · rw [length_minimized placed.perm, relabelled.size]
  · refine VariableOrder.relabelled_ofReverse permutation ?_
    rw [perm.length_eq, List.length_range]

end Relabelled

/-- A problem that a caller gives, and the same problem with other numbers for its variables:
columns and costs have been moved, and so have the indices of the cones that are below the bound. -/
structure Input.Relabels [Machine] (permutation : Equiv.Perm (Fin count)) (input other : Input) :
    Prop where
  objective : ∃ costs moved, input.objective.toEntries = .ok costs ∧
    other.objective.toEntries = .ok moved ∧ costs.length = count ∧ moved.length = count ∧
      ∀ i : Fin count, moved[(permutation i : ℕ)]? = costs[(i : ℕ)]?
  matrix : input.matrix.Relabels permutation other.matrix
  variableCones : ∃ columns moved, input.variableCones = ConeList.ofWritten columns ∧
    other.variableCones = ConeList.ofWritten moved ∧
      List.Forall₂ (WrittenEntry.Relabels permutation) columns moved
  bounds : other.bounds = input.bounds
  rowCones : other.rowCones = input.rowCones
  sense : other.sense = input.sense

namespace Input.Relabels

variable [Machine] {input other : Input} (relabels : input.Relabels permutation other)
include relabels

theorem symm : other.Relabels permutation.symm input where
  objective := by
    obtain ⟨costs, moved, read, alsoRead, size, alsoSize, same⟩ := relabels.objective
    refine ⟨moved, costs, alsoRead, read, alsoSize, size, fun i => ?_⟩
    rw [← same, Equiv.apply_symm_apply]
  matrix := relabels.matrix.symm
  variableCones := by
    obtain ⟨columns, moved, given, alsoGiven, each⟩ := relabels.variableCones
    exact ⟨moved, columns, alsoGiven, given, each.flip.imp fun _ _ own => own.symm⟩
  bounds := relabels.bounds.symm
  rowCones := relabels.rowCones.symm
  sense := relabels.sense.symm

theorem exists_read {problem : ConicProblem} (given : read input = .ok problem) :
    ∃ moved, read other = .ok moved ∧ problem.Regular ∧ problem.Relabelled permutation moved := by
  obtain ⟨costs, movedCosts, costsRead, movedRead, size, alsoSize, same⟩ := relabels.objective
  obtain ⟨columns, movedColumns, columnsAre, movedAre, each⟩ := relabels.variableCones
  obtain ⟨sense, cones, objective, bounds, matrix⟩ := read_eq_ok_iff.1 given
  obtain rfl : costs = problem.objective := Except.ok.inj (costsRead.symm.trans objective)
  obtain ⟨_, _, accepted⟩ := ConeList.readBoth_eq_ok cones
  have cols := (Datum.shape_toRows matrix).2
  rw [columnsAre] at cones
  rw [size] at matrix
  obtain ⟨movedMatrix, alsoRead, inside, rows⟩ := relabels.matrix.exists_toRows matrix
  have movedCones := ConeList.readBoth_of_readsLike (.refl input.rowCones)
    (ConeList.readsLike_relabelled each) cones
  rw [List.map_id] at movedCones
  refine ⟨⟨movedCosts, movedMatrix, problem.bounds, problem.rowCones,
    problem.variableCones.map (VariableOrder.relabelEntry permutation), problem.sense⟩,
    read_eq_ok_iff.2 ⟨?_, ?_, movedRead, ?_, ?_⟩, ⟨cols, fun i => (rows i).1, accepted⟩,
    ⟨size, alsoSize, same, rfl, rfl, rfl, rfl, inside, fun i => (rows i).2⟩⟩
  · rw [relabels.sense, sense]
  · rw [relabels.rowCones, movedAre, movedCones]
  · rw [relabels.bounds, bounds]
  · rw [alsoSize, alsoRead]

theorem exists_load {form : StandardForm} (loaded : load input = .ok form) :
    ∃ moved, load other = .ok moved ∧ form.order.Bijects count ∧ moved.order.Bijects count ∧
      form.Relabelled permutation moved := by
  obtain ⟨problem, given, built⟩ := Outcome.bind_eq_ok_iff.1 loaded
  obtain ⟨moved, alsoGiven, regular, relabelled⟩ := relabels.exists_read given
  obtain ⟨form', alsoBuilt, forms⟩ := relabelled.exists_standardForm_relabelled regular built
  have alsoLoaded : load other = .ok form' := Outcome.bind_eq_ok_iff.2 ⟨moved, alsoGiven, alsoBuilt⟩
  have own := (wellFormed_of_load loaded).1.order
  have also := (wellFormed_of_load alsoLoaded).1.order
  have sameSize : form'.n = form.n := by rw [StandardForm.n, StandardForm.n, forms.G]
  rw [forms.size] at own
  rw [sameSize, forms.size] at also
  exact ⟨form', alsoLoaded, own, also, forms⟩

end Input.Relabels

end ConicProblem

namespace StandardForm.Relabelled

variable {form other : StandardForm} (relabelled : form.Relabelled permutation other)
  (bijects : form.order.Bijects count) (alsoBijects : other.order.Bijects count)
include relabelled bijects alsoBijects

theorem restore_related (solution : List Binary64) :
    Related (fun x moved : List Binary64 => ∀ i : Fin count,
      moved[(permutation i : ℕ)]? = x[(i : ℕ)]?)
        (form.order.restore solution) (other.order.restore solution) := by
  by_cases size : solution.length = count
  · obtain ⟨x, restored, _⟩ := bijects.restore_perm size
    obtain ⟨moved, alsoRestored, _⟩ := alsoBijects.restore_perm size
    rw [restored, alsoRestored]
    exact relabelled.order.restore permutation restored alsoRestored
  · have own : form.order.size = count := form.orderSize.trans relabelled.size
    have also : other.order.size = count := by
      rw [other.orderSize, relabelled.G]
      exact relabelled.size
    rw [VariableOrder.restore, VariableOrder.restore, own, also, if_neg size, if_neg size]
    exact rfl

theorem toSolution_related [Machine] (reply : Reply) :
    Related (Solution.Relabelled permutation) (reply.toSolution form) (reply.toSolution other) := by
  cases reply with
  | raised name => exact rfl
  | answered solution info =>
    unfold Reply.toSolution
    refine (Outcome.related_eq _).bind fun info _ _ _ same => ?_
    cases same
    refine (Outcome.related_eq _).bind fun flag _ _ _ same => ?_
    cases same
    cases solution with
    | none => exact rfl
    | some solution =>
      refine (Outcome.related_eq _).bind fun formX _ _ _ same => ?_
      cases same
      rw [relabelled.c, relabelled.sense]
      split
      · refine (relabelled.restore_related bijects alsoBijects formX).bind
          fun x moved _ _ same => ?_
        refine (Outcome.related_eq _).bind fun iterations _ _ _ own => ?_
        cases own
        exact ⟨rfl, rfl, rfl, rfl, rfl, same⟩
      · exact rfl

theorem solve_relabelled [Machine] (options : Options) (reply : Reply) :
    (solve (some form) options reply).Relabelled permutation
      (solve (some other) options reply) := by
  have call : other.call options = form.call options := by
    have p : other.p = form.p := by rw [StandardForm.p, StandardForm.p, relabelled.A]
    unfold StandardForm.call dims
    rw [relabelled.c, relabelled.G, relabelled.h, relabelled.orthant, relabelled.sizes,
      relabelled.A, relabelled.b, p]
  by_cases hidden : options.clashes ["form"] ∨ options.clashes Options.dataNames
  · have refused (form : StandardForm) :
        solve (some form) options reply = ⟨none, .error (.data .wrongType)⟩ := by
      rcases hidden with own | names
      · simp [solve, own]
      · simp [solve, names]
    rw [refused, refused]
    exact ⟨rfl, rfl⟩
  · have called (form : StandardForm) :
        solve (some form) options reply = ⟨some (form.call options), reply.toSolution form⟩ := by
      simp [solve, not_or.1 hidden]
    rw [called, called]
    exact ⟨congrArg some call, relabelled.toSolution_related bijects alsoBijects reply⟩

end StandardForm.Relabelled

namespace ConicProblem

/-- The problem whose variables change places, with its variables numbered the other way round. -/
def Input.renumbered : Input :=
  { Input.swapped with
    objective := .list [.integer 1, .integer 2]
    matrix := .list [.list [.integer 1, .integer 1], .list [.integer 1, .integer 0]]
    variableCones := ConeList.toDatum [(.free, [1]), (.nonneg, [0])] }

theorem relabels_renumbered : Input.swapped.Relabels (Equiv.swap (0 : Fin 2) 1) .renumbered where
  objective := by
    obtain ⟨costs, read, costsAre⟩ : ∃ costs, Input.swapped.objective.toEntries = .ok costs ∧
        id costs = [.ofRat 2, .one] := Outcome.exists_of_toOption_map (by decide +kernel)
    obtain ⟨moved, alsoRead, movedAre⟩ : ∃ moved,
        Input.renumbered.objective.toEntries = .ok moved ∧ id moved = [.one, .ofRat 2] :=
      Outcome.exists_of_toOption_map (by decide +kernel)
    refine ⟨costs, moved, read, alsoRead, congrArg List.length costsAre,
      congrArg List.length movedAre, fun i => ?_⟩
    rw [id_eq] at costsAre movedAre
    rw [costsAre, movedAre]
    fin_cases i <;> rfl
  matrix := by
    obtain ⟨_, read, extents⟩ : ∃ array, NumberArray.ofDatum Input.swapped.matrix = .ok array ∧
        array.shape.matrix? = some (2, 2) := Outcome.exists_of_toOption_map (by decide +kernel)
    obtain ⟨_, alsoRead, alsoExtents⟩ : ∃ array,
        NumberArray.ofDatum Input.renumbered.matrix = .ok array ∧
          array.shape.matrix? = some (2, 2) := Outcome.exists_of_toOption_map (by decide +kernel)
    refine ⟨.dense read extents, .dense alsoRead alsoExtents, fun rows => .rfl, .rfl, ?_⟩
    intro rows tabulates i below j value
    obtain rfl : 2 = rows := congrArg Prod.fst (Option.some.inj tabulates)
    have same : ∀ i < 2, ∀ j : Fin 2,
        Input.renumbered.matrix.numbers[i * 2 + (Equiv.swap (0 : Fin 2) 1 j : ℕ)]? =
          Input.swapped.matrix.numbers[i * 2 + (j : ℕ)]? := by decide +kernel
    rw [Datum.stores_of_dense (Datum.dense_of_ofDatum alsoRead),
      Datum.stores_of_dense (Datum.dense_of_ofDatum read), same i below j]
  variableCones := by
    refine ⟨[⟨.cone .free, [.integer 0]⟩, ⟨.cone .nonneg, [.integer 1]⟩],
      [⟨.cone .free, [.integer 1]⟩, ⟨.cone .nonneg, [.integer 0]⟩], rfl, rfl, ?_⟩
    exact .cons ⟨rfl, .cons rfl .nil⟩ (.cons ⟨rfl, .cons rfl .nil⟩ .nil)
  bounds := rfl
  rowCones := rfl
  sense := rfl

/-- Other numbers for the variables change neither whether a problem is accepted nor what the solver
is given, and every reply of the solver means the same values of the same variables. -/
theorem load_relabelled [Machine] {input other : Input}
    (relabels : input.Relabels permutation other) :
    ((∃ form, load input = .ok form) ↔ ∃ moved, load other = .ok moved) ∧
      ∀ form moved, load input = .ok form → load other = .ok moved →
        form.Relabelled permutation moved ∧ ∀ options reply,
          (StandardForm.solve (some form) options reply).Relabelled permutation
            (StandardForm.solve (some moved) options reply) := by
  refine ⟨⟨?_, ?_⟩, ?_⟩
  · rintro ⟨form, loaded⟩
    obtain ⟨moved, alsoLoaded, _⟩ := relabels.exists_load loaded
    exact ⟨moved, alsoLoaded⟩
  · rintro ⟨moved, loaded⟩
    obtain ⟨form, alsoLoaded, _⟩ := relabels.symm.exists_load loaded
    exact ⟨form, alsoLoaded⟩
  · intro form moved loaded alsoLoaded
    obtain ⟨again, same, bijects, alsoBijects, relabelled⟩ := relabels.exists_load loaded
    obtain rfl : again = moved := Except.ok.inj (same.symm.trans alsoLoaded)
    exact ⟨relabelled, relabelled.solve_relabelled bijects alsoBijects⟩

theorem load_renumbered : ∃ form moved, load .swapped = .ok form ∧ load .renumbered = .ok moved ∧
    form.Relabelled (Equiv.swap (0 : Fin 2) 1) moved := by
  obtain ⟨form, loaded, _⟩ := load_swapped
  obtain ⟨accepts, relabelled⟩ := load_relabelled relabels_renumbered
  obtain ⟨moved, alsoLoaded⟩ := accepts.1 ⟨form, loaded⟩
  exact ⟨form, moved, loaded, alsoLoaded, (relabelled form moved loaded alsoLoaded).1⟩

end ConicProblem
end ConicForm
