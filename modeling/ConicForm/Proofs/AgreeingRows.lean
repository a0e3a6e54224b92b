import ConicForm.Proofs.StackedRows

/-! Rows that agree position by position, in whatever way numbers are compared. They agree when
their entries are moved or negated, and so do the matrices that they are gathered to. -/
namespace ConicForm

namespace Binary64

inductive IsSign : Binary64 → Prop
  | one : IsSign .one
  | negOne : IsSign (-.one)

end Binary64

/-- A way to compare what two matrices have at a position, stored or not, that negation keeps. -/
structure KeptByNegation (same : Option Binary64 → Option Binary64 → Prop) : Prop where
  unstored : same none none
  one : same (some .one) (some .one)
  neg : ∀ value other, same value other → same (value.map (- ·)) (other.map (- ·))

variable {same : Option Binary64 → Option Binary64 → Prop}

theorem keptByNegation_eq : KeptByNegation Eq where
  unstored := rfl
  one := rfl
  neg := fun _ _ equal => congrArg _ equal

namespace KeptByNegation

variable (keeps : KeptByNegation same) {factor : Binary64} (isSign : factor.IsSign)
include keeps isSign

theorem sign : same (some factor) (some factor) := by
  cases isSign with
  | one => exact keeps.one
  | negOne => exact keeps.neg _ _ keeps.one

theorem scale {value other : Option Binary64} (agree : same value other) :
    same (value.map (factor * ·)) (other.map (factor * ·)) := by
  cases isSign with
  | one =>
    have unchanged : (Binary64.one * ·) = id := funext Binary64.one_mul
    rwa [unchanged, Option.map_id, id, id]
  | negOne =>
    have negated : ((-Binary64.one) * ·) = (- ·) := funext Binary64.neg_one_mul
    rw [negated]
    exact keeps.neg _ _ agree

end KeptByNegation

namespace Line

theorem lookup_scale (factor : Binary64) (line : Line) (j : ℤ) :
    (line.scale factor).lookup j = (line.lookup j).map (factor * ·) := by
  induction line with
  | nil => rfl
  | cons entry line ih =>
    have split : scale factor (entry :: line) =
        (entry.1, factor * entry.2) :: scale factor line := rfl
    rw [split, List.lookup_cons, List.lookup_cons]
    cases j == entry.1 with
    | true => rfl
    | false => exact ih

/-- A position that is moved has what it had, as long as no two of them meet. -/
theorem lookup_reposition {place : ℤ → ℤ} {line : Line} {j : ℤ}
    (apart : ∀ entry ∈ line, place entry.1 = place j → entry.1 = j) :
    (line.reposition place).lookup (place j) = line.lookup j := by
  induction line with
  | nil => rfl
  | cons entry line ih =>
    rw [List.forall_mem_cons] at apart
    have split : reposition place (entry :: line) =
        (place entry.1, entry.2) :: reposition place line := rfl
    have moved : (place j == place entry.1) = (j == entry.1) := by
      rw [Bool.eq_iff_iff, beq_iff_eq, beq_iff_eq]
      exact ⟨fun meets => (apart.1 meets.symm).symm, congrArg place⟩
    rw [split, List.lookup_cons, List.lookup_cons, moved, ih apart.2]

theorem lookup_reposition_eq_none {place : ℤ → ℤ} {line : Line} {position : ℤ}
    (vacant : ∀ entry ∈ line, place entry.1 ≠ position) :
    (line.reposition place).lookup position = none := by
  rw [List.lookup_eq_none_iff]
  refine List.forall_mem_map.2 fun entry stored => ?_
  simpa using (vacant entry stored).symm

/-- Two lines that have the same at every position, each at most once. -/
structure Agree (same : Option Binary64 → Option Binary64 → Prop) (line other : Line) : Prop where
  distinct : line.Distinct
  otherDistinct : other.Distinct
  lookup : ∀ j : ℤ, same (line.lookup j) (other.lookup j)

namespace Agree

theorem nil (keeps : KeptByNegation same) : Agree same [] [] :=
  ⟨List.nodup_nil, List.nodup_nil, fun _ => keeps.unstored⟩

theorem single (keeps : KeptByNegation same) (position : ℤ) {value : Binary64}
    (sign : value.IsSign) : Agree same [(position, value)] [(position, value)] where
  distinct := List.nodup_singleton _
  otherDistinct := List.nodup_singleton _
  lookup := by
    intro j
    rw [List.lookup_cons, List.lookup_nil]
    cases j == position with
    | true => exact keeps.sign sign
    | false => exact keeps.unstored

variable {line other : Line} (agree : line.Agree same other) (keeps : KeptByNegation same)
include agree keeps

theorem scale {factor : Binary64} (sign : factor.IsSign) :
    (line.scale factor).Agree same (other.scale factor) where
  distinct := agree.distinct.scale factor
  otherDistinct := agree.otherDistinct.scale factor
  lookup := by
    intro j
    rw [lookup_scale, lookup_scale]
    exact keeps.scale sign (agree.lookup j)

theorem reposition {cols : ℕ} {place : ℤ → ℤ} (within : line.Within cols)
    (otherWithin : other.Within cols)
    (injective : ∀ i j : ℤ, 0 ≤ i ∧ i < cols → 0 ≤ j ∧ j < cols → place i = place j → i = j) :
    (line.reposition place).Agree same (other.reposition place) where
  distinct := agree.distinct.reposition fun _ stored _ also =>
    injective _ _ (within _ stored) (within _ also)
  otherDistinct := agree.otherDistinct.reposition fun _ stored _ also =>
    injective _ _ (otherWithin _ stored) (otherWithin _ also)
  lookup := by
    intro position
    by_cases taken : ∃ j : ℤ, (0 ≤ j ∧ j < cols) ∧ place j = position
    · obtain ⟨j, inside, rfl⟩ := taken
      rw [lookup_reposition fun entry stored => injective _ _ (within entry stored) inside,
        lookup_reposition fun entry stored => injective _ _ (otherWithin entry stored) inside]
      exact agree.lookup j
    · -- Neither line has an entry that is moved there.
      rw [lookup_reposition_eq_none fun entry stored meets =>
          taken ⟨_, within entry stored, meets⟩,
        lookup_reposition_eq_none fun entry stored meets =>
          taken ⟨_, otherWithin entry stored, meets⟩]
      exact keeps.unstored

end Agree
end Line

namespace ColumnMatrix

/-- Two matrices by columns, in order and of one size, that have the same at every position. -/
structure Agree (same : Option Binary64 → Option Binary64 → Prop) (matrix other : ColumnMatrix) :
    Prop where
  ordered : matrix.Ordered
  otherOrdered : other.Ordered
  rows : other.rows = matrix.rows
  cols : other.cols = matrix.cols
  entries : ∀ i j, same ( entry? matrix i j) ( entry? other i j)

/-- Matrices that store the same at every position are equal. -/
theorem Agree.eq {matrix other : ColumnMatrix} (agree : matrix.Agree Eq other) :
    matrix = other := by
  refine agree.ordered.ext agree.otherOrdered agree.rows.symm agree.cols.symm ?_
  intro i _ j _ value
  rw [Stores, Stores, agree.entries i j]

theorem entry?_of_cols_le {matrix : ColumnMatrix} (i : ℕ) {j : ℕ} (beyond : matrix.cols ≤ j) :
    entry? matrix i j = none := by
  unfold entry?
  rw [List.getElem?_eq_none beyond, Option.bind_none]

end ColumnMatrix

namespace ConstraintRow

/-- Rows that have the same right-hand sides one by one have them all. -/
theorem map_bound_eq {related : ConstraintRow → ConstraintRow → Prop}
    (bound : ∀ row other, related row other → other.bound = row.bound)
    {rows others : List ConstraintRow} (each : List.Forall₂ related rows others) :
    others.map ConstraintRow.bound = rows.map ConstraintRow.bound := by
  induction each with
  | nil => rfl
  | cons own _ ih => rw [List.map_cons, List.map_cons, bound _ _ own, ih]

open ColumnMatrix ( entry?) in
theorem entry?_matrix {cols : ℕ} {rows : List ConstraintRow}
    (distinct : ∀ row ∈ rows, row.line.Distinct) {j : ℕ} (inside : j < cols) (i : ℕ) :
    entry? (matrix cols rows) i j =
      rows[i]?.bind fun row => row.line.lookup (j : ℤ) := by
  have lines : ∀ line ∈ rows.map ConstraintRow.line, line.Distinct := by
    rw [List.forall_mem_map]
    exact distinct
  rw [matrix, ColumnMatrix.entry?_ofRows lines inside, List.getElem?_map]
  cases rows[i]? <;> rfl

structure Agree (same : Option Binary64 → Option Binary64 → Prop) (row other : ConstraintRow) :
    Prop where
  line : row.line.Agree same other.line
  bound : other.bound = row.bound

theorem agree_unit (keeps : KeptByNegation same) (col : ℤ) {coefficient : Binary64}
    (sign : coefficient.IsSign) (bound : Binary64) :
    (unit col coefficient bound).Agree same (unit col coefficient bound) :=
  ⟨.single keeps col sign, rfl⟩

theorem agree_scale {line other : Line} (agree : line.Agree same other)
    (keeps : KeptByNegation same) {factor : Binary64} (sign : factor.IsSign) (bound : Binary64) :
    (scale factor ⟨line, bound⟩).Agree same (scale factor ⟨other, bound⟩) :=
  ⟨agree.scale keeps sign, rfl⟩

/-- Rows that agree are gathered to matrices that agree. -/
theorem agree_matrix {rows others : List ConstraintRow}
    (agree : List.Forall₂ (Agree same) rows others) (keeps : KeptByNegation same) (cols : ℕ) :
    (matrix cols rows).Agree same (matrix cols others) := by
  obtain ⟨count, each⟩ := List.forall₂_iff_get.1 agree
  have distinct : ∀ row ∈ rows, row.line.Distinct := by
    intro row member
    obtain ⟨i, below, rfl⟩ := List.mem_iff_getElem.1 member
    exact (each i below (count ▸ below)).line.distinct
  have alsoDistinct : ∀ row ∈ others, row.line.Distinct := by
    intro row member
    obtain ⟨i, below, rfl⟩ := List.mem_iff_getElem.1 member
    exact (each i (count ▸ below) below).line.otherDistinct
  refine ⟨ordered_matrix cols rows, ordered_matrix cols others, ?_, ?_, fun i j => ?_⟩
  · rw [rows_matrix, rows_matrix, count]
  · rw [cols_matrix, cols_matrix]
  · by_cases inside : j < cols
    · rw [entry?_matrix distinct inside, entry?_matrix alsoDistinct inside]
      by_cases below : i < rows.length
      · rw [List.getElem?_eq_getElem below, List.getElem?_eq_getElem (count ▸ below)]
        exact (each i below (count ▸ below)).line.lookup j
      · rw [List.getElem?_eq_none (Nat.le_of_not_lt below),
          List.getElem?_eq_none (count ▸ Nat.le_of_not_lt below)]
        exact keeps.unstored
    · -- Both matrices end before the column.
      have beyond := Nat.le_of_not_lt inside
      rw [ColumnMatrix.entry?_of_cols_le i ((cols_matrix cols rows).trans_le beyond),
        ColumnMatrix.entry?_of_cols_le i ((cols_matrix cols others).trans_le beyond)]
      exact keeps.unstored

end ConstraintRow

end ConicForm
