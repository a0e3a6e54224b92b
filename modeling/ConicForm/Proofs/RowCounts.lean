import ConicForm.Proofs.ConicRows
import ConicForm.Proofs.LinearFeasibility

/-! How many rows a problem is turned into. No constraint row is lost and none is made twice, every
variable with a cone of its own adds one row, and so does every finite bound of a variable. -/
namespace ConicForm

namespace VariableOrder

theorem segment_sublist_listed (kinds : List Cone) (entries : List ConeEntry) :
    (segment kinds entries).Sublist ((listed entries).map Int.toNat) := by
  rw [segment, listed, List.map_flatMap]
  exact List.filter_sublist.flatMap _

/-- Kinds that are told apart have their entries apart. -/
theorem length_segment_append (first second : List Cone)
    (apart : ∀ kind ∈ first, kind ∉ second) (entries : List ConeEntry) :
    (segment (first ++ second) entries).length =
      (segment first entries).length + (segment second entries).length := by
  induction entries with
  | nil => rfl
  | cons entry entries ih =>
    simp only [segment_cons, List.length_append, ih]
    by_cases inFirst : entry.1 ∈ first
    · have notSecond := apart entry.1 inFirst
      simp only [List.contains_eq_mem, List.mem_append, inFirst, notSecond, true_or, decide_true,
        decide_false, if_true, Bool.false_eq_true, if_false, List.length_nil]
      omega
    · by_cases inSecond : entry.1 ∈ second
      · simp only [List.contains_eq_mem, List.mem_append, inFirst, inSecond, or_true, decide_true,
          decide_false, if_true, Bool.false_eq_true, if_false, List.length_nil]
        omega
      · simp [inFirst, inSecond]

/-- The segment of one kind has the indices of its entries. -/
theorem length_segment_singleton (kind : Cone) (entries : List ConeEntry) :
    (segment [kind] entries).length =
      ((entries.filter fun entry => entry.1 == kind).map fun entry => entry.2.length).sum := by
  have kinds : (fun entry : ConeEntry => [kind].contains entry.1) =
      fun entry => entry.1 == kind := by
    funext entry
    rw [List.contains_cons, List.contains_nil, Bool.or_false]
  simp only [segment, kinds, List.length_flatMap, List.length_map]

end VariableOrder

namespace ConicProblem

/-- One row is made for each index of the kinds that have a factor. -/
theorem length_rowsUnder {kinds : List Cone} {factor? : Cone → Option Binary64}
    (chosen : ∀ kind, (factor? kind).isSome = kinds.contains kind) (entries : List ConeEntry)
    (row : Binary64 → ℤ → ConstraintRow) :
    (rowsUnder entries factor? row).length = (VariableOrder.segment kinds entries).length := by
  induction entries with
  | nil => rfl
  | cons entry entries ih =>
    rw [rowsUnder_cons, VariableOrder.segment_cons, List.length_append, List.length_append, ih,
      ← chosen entry.1]
    cases factor? entry.1 <;> simp

theorem isSome_onlyFor (kind : Cone) (factor : Binary64) (other : Cone) :
    (onlyFor kind factor other).isSome = [kind].contains other := by
  by_cases same : other = kind <;> simp [onlyFor, same]

section Placed

variable {problem : ConicProblem} (place : ℤ → ℤ)

theorem length_orthantRows : (problem.orthantRows place).length =
    (VariableOrder.segment [.nonneg, .nonpos] problem.variableCones).length +
      (VariableOrder.segment [.nonneg, .nonpos] problem.rowCones).length := by
  have columns : ∀ kind, (orthantCoefficient? kind).isSome = [.nonneg, .nonpos].contains kind := by
    intro kind
    cases kind <;> rfl
  have rows : ∀ kind, (orthantFactor? kind).isSome = [.nonneg, .nonpos].contains kind := by
    intro kind
    cases kind <;> rfl
  rw [orthantRows, List.length_append, length_rowsUnder columns, length_rowsUnder rows]

theorem length_secondOrderRows : (problem.secondOrderRows place).length =
    (VariableOrder.segment [.secondOrder] problem.variableCones).length +
      (VariableOrder.segment [.secondOrder] problem.rowCones).length := by
  rw [secondOrderRows, List.length_append, length_rowsUnder (isSome_onlyFor _ _),
    length_rowsUnder (isSome_onlyFor _ _)]

theorem length_equalityRows : (problem.equalityRows place).length =
    problem.keptIndices.length + (VariableOrder.segment [.zero] problem.variableCones).length := by
  rw [equalityRows, List.length_append, List.length_map, length_rowsUnder (isSome_onlyFor _ _)]

end Placed

/-- The cones of second order have as many rows as their sizes say. -/
theorem sum_sizes (problem : ConicProblem) : problem.sizes.sum =
    (VariableOrder.segment [.secondOrder] problem.variableCones).length +
      (VariableOrder.segment [.secondOrder] problem.rowCones).length := by
  rw [sizes, List.filter_append, List.map_append, List.sum_append,
    VariableOrder.length_segment_singleton, VariableOrder.length_segment_singleton]

/-- The cones of a form, the orthant included, are covered by its inequalities. -/
theorem length_inequalities (problem : ConicProblem) (place : ℤ → ℤ) :
    (problem.orthantRows place ++ problem.secondOrderRows place).length =
      (problem.orthantRows place).length + problem.sizes.sum := by
  rw [List.length_append, length_secondOrderRows, sum_sizes]

/-- The order has as many variables as the objective that is minimized. -/
theorem size_ofReverse_eq (problem : ConicProblem) (reverse : List ℕ) :
    (VariableOrder.ofReverse reverse).size =
      (problem.sense.toMinimize (problem.movedObjective reverse)).length := by
  rw [VariableOrder.size_ofReverse, Sense.length_toMinimize, movedObjective, List.length_map]

/-- Constraint rows that are listed once each are either moved or kept. -/
theorem length_kept_add_moved {problem : ConicProblem}
    (inside : ∀ i ∈ VariableOrder.listed problem.rowCones, 0 ≤ i ∧ i < (problem.bounds.length : ℤ))
    (once : ((VariableOrder.listed problem.rowCones).map Int.toNat).Nodup) :
    problem.keptIndices.length + problem.movedIndices.length = problem.bounds.length := by
  have part :
      problem.movedIndices.Sublist ((VariableOrder.listed problem.rowCones).map Int.toNat) :=
    VariableOrder.segment_sublist_listed _ _
  have below : ∀ i ∈ problem.movedIndices, i < problem.bounds.length := by
    intro i member
    obtain ⟨index, own, rfl⟩ := List.mem_map.1 (part.subset member)
    have := inside index own
    omega
  have moved : ((List.range problem.bounds.length).filter fun i =>
      problem.movedIndices.contains i).Perm problem.movedIndices := by
    rw [List.perm_ext_iff_of_nodup (List.nodup_range.filter _) (once.sublist part)]
    intro i
    simpa using below i
  have split := List.length_eq_length_filter_add (l := List.range problem.bounds.length)
    fun i => problem.movedIndices.contains i
  rw [moved.length_eq, List.length_range] at split
  rw [keptIndices]
  omega

/-- With its free variables, a problem has as many rows as it has constraint rows and variables. -/
theorem length_rows_add_free {problem : ConicProblem} (place : ℤ → ℤ)
    (segments : ∀ entry ∈ problem.variableCones, VariableOrder.hasSegment entry.1)
    (perm : ((VariableOrder.listed problem.variableCones).map Int.toNat).Perm
      (List.range problem.objective.length))
    (inside : ∀ i ∈ VariableOrder.listed problem.rowCones, 0 ≤ i ∧ i < (problem.bounds.length : ℤ))
    (once : ((VariableOrder.listed problem.rowCones).map Int.toNat).Nodup) :
    (problem.orthantRows place ++ problem.secondOrderRows place).length +
        (problem.equalityRows place).length +
          (VariableOrder.segment [.free] problem.variableCones).length =
      problem.bounds.length + problem.objective.length := by
  have columns := ((VariableOrder.arranged_perm segments).trans perm).length_eq
  have rows := length_kept_add_moved inside once
  have moved : problem.movedIndices.length =
      (VariableOrder.segment [.nonneg, .nonpos] problem.rowCones).length +
        (VariableOrder.segment [.secondOrder] problem.rowCones).length :=
    VariableOrder.length_segment_append [.nonneg, .nonpos] [.secondOrder] (by decide) _
  simp only [VariableOrder.arranged, List.length_append, List.length_range] at columns
  rw [List.length_append, length_orthantRows, length_secondOrderRows, length_equalityRows]
  omega

end ConicProblem

namespace LinearProblem

/-- A row of a kind that has a standard form becomes one row of it. -/
theorem length_equalities_add {rows : List (Line × Bounds)} (kinds : ∀ row ∈ rows,
    row.2.rowKind = .equality ∨ row.2.rowKind = .atMost ∨ row.2.rowKind = .atLeast) :
    (rows.filterMap equality?).length + (rows.filterMap inequality?).length = rows.length := by
  induction rows with
  | nil => rfl
  | cons row rows ih =>
    have later := ih fun other member => kinds other (List.mem_cons_of_mem _ member)
    rcases kinds row List.mem_cons_self with kind | kind | kind
    all_goals
      simp only [List.filterMap_cons, equality?, inequality?, kind, List.length_cons] at later ⊢
      omega

theorem length_boundRows (col : ℤ) (bounds : Bounds) : (boundRows col bounds).length =
    (if bounds.lower.isFinite then 1 else 0) + if bounds.upper.isFinite then 1 else 0 := by
  rw [boundRows, List.length_append]
  congr 1
  · split <;> rfl
  · split <;> rfl

/-- There is a bound row for each finite bound. -/
theorem length_bound_rows {lower upper : List Binary64} (same : upper.length = lower.length)
    (start : ℕ) : (((List.zipWith Bounds.mk lower upper).zipIdx start).flatMap fun column =>
      boundRows (column.2 : ℤ) column.1).length =
        lower.countP Binary64.isFinite + upper.countP Binary64.isFinite := by
  induction lower generalizing upper start with
  | nil =>
    obtain rfl : upper = [] := List.length_eq_zero_iff.1 same
    rfl
  | cons first lower ih =>
    cases upper with
    | nil => cases same
    | cons second upper =>
      have later := ih (by simpa using same) (start + 1)
      simp only [List.zipWith_cons_cons, List.zipIdx_cons, List.flatMap_cons, List.length_append,
        length_boundRows, later, List.countP_cons]
      omega

end LinearProblem
end ConicForm
