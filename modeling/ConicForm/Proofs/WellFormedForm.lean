import ConicForm.Proofs.CompressedColumns
import ConicForm.Proofs.ConicFeasibility
import ConicForm.Proofs.FormAssembly
import ConicForm.Proofs.RowCounts
import ConicForm.Proofs.SessionSteps

/-! Every form that is loaded is well formed: its sizes agree, its matrices are sound by columns,
its order is a permutation with its inverse, and it has the rows of the problem it was made from.
Nothing is asked of the problem but that it is accepted. -/
namespace ConicForm

namespace VariableOrder

/-- Both directions are permutations of the variables, and each is the inverse of the other. -/
structure Bijects (order : VariableOrder) (count : ℕ) : Prop where
  forward : order.forward.Perm ((List.range count).map fun i : ℕ => (i : ℤ))
  reverse : order.reverse.Perm ((List.range count).map fun i : ℕ => (i : ℤ))
  inverse : ∀ i k : ℕ, order.forward[i]? = some (k : ℤ) ↔ order.reverse[k]? = some (i : ℤ)

theorem bijects_ofReverse {reverse : List ℕ} {count : ℕ} (perm : reverse.Perm (List.range count)) :
    (ofReverse reverse).Bijects count := by
  have total : reverse.length = count := by rw [perm.length_eq, List.length_range]
  have nodup : reverse.Nodup := perm.nodup_iff.2 List.nodup_range
  have places : reverse.map reverse.idxOf = List.range count := by
    apply List.ext_getElem (by simp [total])
    intro k inside _
    rw [List.getElem_map, List.getElem_range, nodup.idxOf_getElem]
  have forwardAt (i k : ℕ) : (ofReverse reverse).forward[i]? = some (k : ℤ) ↔
      i < count ∧ reverse.idxOf i = k := by
    simp only [ofReverse, total, List.getElem?_map, Option.map_eq_some_iff,
      List.getElem?_eq_some_iff, List.length_range, List.getElem_range, Nat.cast_inj]
    constructor
    · rintro ⟨_, ⟨below, rfl⟩, same⟩
      exact ⟨below, same⟩
    · rintro ⟨below, same⟩
      exact ⟨i, ⟨below, rfl⟩, same⟩
  have reverseAt (k i : ℕ) : (ofReverse reverse).reverse[k]? = some (i : ℤ) ↔
      reverse[k]? = some i := by
    simp [ofReverse]
  constructor
  · have moved := (perm.symm.map reverse.idxOf).map fun k : ℕ => (k : ℤ)
    rw [places, List.map_map] at moved
    simpa only [ofReverse, total, Function.comp_def] using moved
  · exact perm.map _
  · intro i k
    rw [forwardAt, reverseAt]
    constructor
    · rintro ⟨below, rfl⟩
      have member : i ∈ reverse := perm.mem_iff.2 (List.mem_range.2 below)
      exact List.getElem?_eq_some_iff.2
        ⟨List.idxOf_lt_length_of_mem member, List.getElem_idxOf _⟩
    · intro stored
      obtain ⟨inside, rfl⟩ := List.getElem?_eq_some_iff.1 stored
      exact ⟨List.mem_range.1 (perm.mem_iff.1 (List.getElem_mem inside)),
        nodup.idxOf_getElem k inside⟩

end VariableOrder

namespace StandardForm

structure WellFormed (form : StandardForm) : Prop where
  npos : 0 ≤ form.npos
  inequalityRows : (form.m : ℤ) = form.npos + form.sizes.sum
  coneCount : form.ncones = form.sizes.length
  sizes : ∀ size ∈ form.sizes, 1 ≤ size
  G : form.G.Compressed form.m form.n
  A : form.A.Compressed form.p form.n
  h : form.h.length = form.m
  b : form.b.length = form.p
  c : form.c.length = form.n
  order : form.order.Bijects form.n

/-- A form made of rows is well formed if its cones have rows and its order is a bijection. -/
theorem MadeOf.wellFormed {form : StandardForm} {npos : ℕ} {sizes : List ℕ}
    {inequalities equalities : List ConstraintRow} {objective : List Binary64} {sense : Sense}
    {order : VariableOrder}
    (made : form.MadeOf npos sizes inequalities equalities objective sense order)
    (nonempty : ∀ size ∈ sizes, 1 ≤ size) (bijects : order.Bijects objective.length) :
    form.WellFormed where
  npos := by
    rw [made.npos]
    exact Int.natCast_nonneg npos
  inequalityRows := by rw [made.m_eq, made.npos, made.sizes, ← Nat.cast_list_sum, Nat.cast_add]
  coneCount := rfl
  sizes := by
    intro size member
    rw [made.sizes] at member
    obtain ⟨count, own, rfl⟩ := List.mem_map.1 member
    exact_mod_cast nonempty count own
  G := by
    have sound := ConstraintRow.compressed_matrix objective.length inequalities
    rwa [m, n, made.G, ConstraintRow.rows_matrix, ConstraintRow.cols_matrix]
  A := by
    have sound := ConstraintRow.compressed_matrix objective.length equalities
    rwa [p, n_of_madeOf made, made.A, ConstraintRow.rows_matrix]
  h := form.lengthBounds
  b := form.equalityBounds
  c := form.objectiveLength
  order := by
    rw [made.order, n_of_madeOf made]
    exact bijects

end StandardForm

namespace ConicProblem

/-- How many variables are free. -/
def Input.freeCount [Machine] (input : Input) : ℕ :=
  (((ConeList.entriesOf input.variableCones).filter fun entry => entry.1 == .free).flatMap
    fun entry => entry.2).length

/-- Every variable is listed once, and under a kind that has a segment. -/
theorem arranged_of_standardForm {problem : ConicProblem} {form : StandardForm}
    (built : problem.standardForm = .ok form) :
    (∀ entry ∈ problem.variableCones, VariableOrder.hasSegment entry.1) ∧
      ((VariableOrder.listed problem.variableCones).map Int.toNat).Perm
        (List.range problem.objective.length) := by
  obtain ⟨_, _, built⟩ := Outcome.andThen_eq_ok_iff.1 built
  obtain ⟨_, arranged, _⟩ := Outcome.andThen_eq_ok_iff.1 built
  obtain ⟨segments, _, perm, _⟩ := VariableOrder.arrange_eq_ok_iff.1 arranged
  exact ⟨segments, perm⟩

theorem one_le_of_mem_sizes {problem : ConicProblem}
    (accepted : ConeList.Accepted problem.rowCones problem.variableCones) :
    ∀ size ∈ problem.sizes, 1 ≤ size := by
  intro size member
  obtain ⟨entry, chosen, rfl⟩ := List.mem_map.1 member
  obtain ⟨stored, kind⟩ := List.mem_filter.1 chosen
  have nonempty := accepted.nonempty entry
    (List.mem_append.2 (List.mem_append.1 stored).symm) (by simpa using kind)
  exact List.length_pos_iff.2 nonempty

theorem length_minimized {problem : ConicProblem} {reverse : List ℕ}
    (perm : reverse.Perm (List.range problem.objective.length)) :
    (problem.sense.toMinimize (problem.movedObjective reverse)).length =
      problem.objective.length := by
  rw [Sense.length_toMinimize, movedObjective, List.length_map, perm.length_eq, List.length_range]

theorem wellFormed_of_load [Machine] {input : Input} {form : StandardForm}
    (loaded : load input = .ok form) :
    form.WellFormed ∧
      form.m + form.p + input.freeCount = input.bounds.numbers.length + form.n := by
  obtain ⟨problem, read, built⟩ := Outcome.bind_eq_ok_iff.1 loaded
  have given := readAs_of_read read
  obtain ⟨reverse, placed⟩ := placed_of_standardForm built
  obtain ⟨segments, perm⟩ := arranged_of_standardForm built
  have minimized := length_minimized placed.perm
  have n := StandardForm.n_of_madeOf placed.made
  refine ⟨placed.made.wellFormed (one_le_of_mem_sizes given.accepted) ?_, ?_⟩
  · rw [minimized]
    exact VariableOrder.bijects_ofReverse placed.perm
  · have rows := length_rows_add_free (VariableOrder.place reverse) segments perm placed.rows
      placed.once
    rw [StandardForm.m, placed.made.G, ConstraintRow.rows_matrix,
      StandardForm.p_of_madeOf placed.made, n, minimized, Input.freeCount, given.variableCones,
      List.length_flatMap, ← VariableOrder.length_segment_singleton, given.bounds]
    exact rows

end ConicProblem

namespace LinearProblem

theorem columnLengths_of_read [Machine] {input : Input} {problem : LinearProblem}
    (given : read input = .ok problem) :
    input.columnUpper.numbers.length = input.columnLower.numbers.length := by
  obtain ⟨_, _, given⟩ := Outcome.andThen_eq_ok_iff.1 given
  obtain ⟨lower, readLower, given⟩ := Outcome.andThen_eq_ok_iff.1 given
  obtain ⟨upper, readUpper, given⟩ := Outcome.andThen_eq_ok_iff.1 given
  obtain ⟨_, _, given⟩ := Outcome.andThen_eq_ok_iff.1 given
  obtain ⟨_, _, given⟩ := Outcome.andThen_eq_ok_iff.1 given
  obtain ⟨_, _, given⟩ := Outcome.andThen_eq_ok_iff.1 given
  obtain ⟨_, lengths, _⟩ := Outcome.andThen_eq_ok_iff.1 given
  rw [Datum.numbers_of_toVector readLower, Datum.numbers_of_toVector readUpper]
  exact checkLength_eq_ok lengths

theorem wellFormed_of_load [Machine] {input : Input} {form : StandardForm}
    (loaded : load input = .ok form) :
    form.WellFormed ∧ form.npos = form.m ∧
      form.m + form.p = input.rowLower.numbers.length +
        input.columnLower.numbers.countP Binary64.isFinite +
          input.columnUpper.numbers.countP Binary64.isFinite := by
  obtain ⟨problem, read, built⟩ := Outcome.bind_eq_ok_iff.1 loaded
  have given := readAs_of_read read
  have formed := formed_of_standardForm built
  have made := formed.made
  have m : form.m = problem.inequalities.length := by
    rw [StandardForm.m, made.G, ConstraintRow.rows_matrix]
  refine ⟨made.wellFormed (by simp) ?_, ?_, ?_⟩
  · rw [Sense.length_toMinimize, VariableOrder.identity_eq_ofReverse]
    exact VariableOrder.bijects_ofReverse (.refl _)
  · rw [made.npos, m]
  · have lineCount := (Datum.shape_toRows given.matrix).1
    have rowCount : problem.rows.length = input.rowLower.numbers.length := by
      rw [rows, List.length_zip, ← RowMatrix.rows, lineCount, given.rowCount, Nat.min_self]
    have kinds : ∀ row ∈ problem.rows, row.2.rowKind = .equality ∨ row.2.rowKind = .atMost ∨
        row.2.rowKind = .atLeast := fun row member => formed.kinds row.2 (List.of_mem_zip member).2
    have own := length_equalities_add kinds
    have bounds := length_bound_rows (columnLengths_of_read read) 0
    rw [given.columnBounds] at bounds
    rw [m, StandardForm.p_of_madeOf made, inequalities, List.length_append, bounds, equalities]
    omega

end LinearProblem

/-- How many rows the form of a problem has. Every free variable saves a row of a conic problem, and
every finite bound of a variable adds one to a linear problem. -/
def Given.CountsRows [Machine] (given : Given) (form : StandardForm) : Prop :=
  match given with
  | .conic input => form.m + form.p + input.freeCount = input.bounds.numbers.length + form.n
  | .linear input =>
    form.npos = form.m ∧ form.m + form.p = input.rowLower.numbers.length +
      input.columnLower.numbers.countP Binary64.isFinite +
        input.columnUpper.numbers.countP Binary64.isFinite

/-- Every form that is loaded is well formed, and has no row more or less than its problem. -/
theorem wellFormed_of_standardForm [Machine] {given : Given} {form : StandardForm}
    (accepted : given.standardForm = .ok form) : form.WellFormed ∧ given.CountsRows form := by
  cases given with
  | conic input => exact ConicProblem.wellFormed_of_load accepted
  | linear input => exact LinearProblem.wellFormed_of_load accepted

theorem wellFormed_of_swapped_and_mixed :
    (∃ form, (Given.conic .swapped).standardForm = .ok form ∧ form.WellFormed ∧
      (Given.conic .swapped).CountsRows form) ∧
    ∃ form, (Given.linear .mixed).standardForm = .ok form ∧ form.WellFormed ∧
      (Given.linear .mixed).CountsRows form := by
  obtain ⟨conic, conicLoaded, _⟩ := ConicProblem.load_swapped
  obtain ⟨linear, linearLoaded, _⟩ := LinearProblem.load_mixed
  have acceptedConic : (Given.conic .swapped).standardForm = .ok conic := conicLoaded
  have acceptedLinear : (Given.linear .mixed).standardForm = .ok linear := linearLoaded
  exact ⟨⟨conic, conicLoaded, wellFormed_of_standardForm acceptedConic⟩,
    linear, linearLoaded, wellFormed_of_standardForm acceptedLinear⟩

end ConicForm
