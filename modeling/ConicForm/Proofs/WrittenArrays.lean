import ConicForm.Proofs.MatrixReading

/-! Vectors and dense matrices written out as a caller would give them. They are read as they are
written. -/
namespace ConicForm.Datum

def ofVector (values : List Binary64) : Datum := .list (values.map .real)

/-- Rows of equal width. Without rows only the width is left. -/
def ofMatrix (cols : ℕ) (rows : List (List Binary64)) : Datum :=
  match rows with
  | [] => .zeros [0, cols]
  | rows => .list (rows.map ofVector)

theorem ofDatum_eq_ok {d : Datum} {shape : Shape} {values : List Binary64}
    (shaped : d.shape? = some shape) (read : d.entries.mapM toBinary64 = .ok values) :
    ∃ array, NumberArray.ofDatum d = .ok array ∧ array.shape = shape ∧ array.entries = values := by
  unfold NumberArray.ofDatum
  split
  next missing => simp [shaped] at missing
  next shape' found =>
    split
    next fault failed => simp [read] at failed
    next entries converted =>
      rw [shaped] at found
      rw [read] at converted
      cases found
      cases converted
      exact ⟨_, rfl, rfl, rfl⟩

theorem shapes_of_forall {items : List Datum} {shape : Shape}
    (same : ∀ item ∈ items, item.shape? = some shape) :
    shapes? items = some (List.replicate items.length shape) := by
  induction items with
  | nil => rfl
  | cons item items ih =>
    have later := ih fun other member => same other (List.mem_cons_of_mem _ member)
    simp [shapes?, same item List.mem_cons_self, later, List.replicate_succ]

/-- Items of one shape are the outermost extent of an array. -/
theorem shape_of_forall {item : Datum} {items : List Datum} {shape : Shape}
    (few : shape.length < Shape.mostExtents)
    (same : ∀ other ∈ item :: items, other.shape? = some shape) :
    (Datum.list (item :: items)).shape? = some ((items.length + 1) :: shape) := by
  simp [shape?, shapes_of_forall same, List.replicate_succ, few]

theorem itemEntries_eq_flatMap (items : List Datum) :
    itemEntries items = items.flatMap entries := by
  induction items with
  | nil => rfl
  | cons item items ih => simp [itemEntries, ih]

theorem shape_ofVector (values : List Binary64) :
    (ofVector values).shape? = some [values.length] := by
  cases values with
  | nil => rfl
  | cons value values =>
    have same : ∀ other ∈ (value :: values).map Datum.real, other.shape? = some [] := by
      intro other member
      obtain ⟨_, _, rfl⟩ := List.mem_map.1 member
      rfl
    have shaped := shape_of_forall (by decide) same
    rwa [List.length_map] at shaped

theorem entries_ofVector (values : List Binary64) :
    (ofVector values).entries = values.map .real := by
  simp only [ofVector, entries, itemEntries_eq_flatMap, List.flatMap_map]
  exact List.map_eq_flatMap.symm

theorem mapM_real (values : List Binary64) :
    (values.map Datum.real).mapM toBinary64 = .ok values := by
  rw [Outcome.mapM_eq_ok_iff, List.forall₂_map_left_iff, List.forall₂_same]
  intro value _
  rfl

theorem toVector_ofVector (name : String) (values : List Binary64) :
    (ofVector values).toVector name = .ok values := by
  obtain ⟨array, read, shape, rfl⟩ := ofDatum_eq_ok (shape_ofVector values)
    (by rw [entries_ofVector]; exact mapM_real values)
  rw [toVector, read, Except.bind, NumberArray.dimensions, shape]
  rfl

theorem toEntries_ofVector (values : List Binary64) : (ofVector values).toEntries = .ok values :=
  toEntries_of_toVector (toVector_ofVector "" values)

end ConicForm.Datum

namespace ConicForm.RowMatrix

theorem denseLines_flatten {cols : ℕ} {rows : List (List Binary64)}
    (widths : ∀ row ∈ rows, row.length = cols) :
    denseLines cols rows.length rows.flatten = rows.map Line.ofDense := by
  induction rows with
  | nil => rfl
  | cons row rows ih =>
    have width := widths row List.mem_cons_self
    have later := ih fun other member => widths other (List.mem_cons_of_mem _ member)
    rw [List.length_cons, denseLines, List.flatten_cons, List.take_left' width,
      List.drop_left' width, later, List.map_cons]

end ConicForm.RowMatrix

namespace ConicForm.Datum

section Matrix

variable {cols : ℕ} {row : List Binary64} {rows : List (List Binary64)}
  (widths : ∀ other ∈ row :: rows, other.length = cols)
include widths

theorem shape_ofMatrix : (ofMatrix cols (row :: rows)).shape? = some [rows.length + 1, cols] := by
  have same : ∀ other ∈ (row :: rows).map ofVector, other.shape? = some [cols] := by
    intro other member
    obtain ⟨values, stored, rfl⟩ := List.mem_map.1 member
    rw [shape_ofVector, widths values stored]
  have few : [cols].length < Shape.mostExtents := by simp [Shape.mostExtents]
  have shaped := shape_of_forall few same
  rwa [List.length_map] at shaped

omit widths in
theorem entries_ofMatrix :
    (ofMatrix cols (row :: rows)).entries = (row :: rows).flatten.map .real := by
  simp [ofMatrix, entries, itemEntries_eq_flatMap, entries_ofVector,
    List.flatMap_def, List.map_flatten, Function.comp_def]

end Matrix

/-- Rows that are written out are read back, without the zeros. -/
theorem toRows_ofMatrix [Machine] {cols : ℕ} {rows : List (List Binary64)} (someColumn : 0 < cols)
    (widths : ∀ row ∈ rows, row.length = cols) :
    (ofMatrix cols rows).toRows (.integer rows.length) (.integer cols) =
      .ok ⟨cols, rows.map Line.ofDense⟩ := by
  cases rows with
  | nil =>
    simp [ofMatrix, toRows, isEmpty, shape?, Shape.count, Except.bind, emptyRows, compare_integer,
      exactInteger?]
  | cons row rows =>
    have dense : ∀ matrix, ofMatrix cols (row :: rows) ≠ .sparse matrix := by
      intro matrix same
      cases same
    have empty : (ofMatrix cols (row :: rows)).isEmpty = .ok false := by
      have shaped := shape_ofMatrix widths
      have some : ¬(rows.length + 1) * cols = 0 := by positivity
      unfold ofMatrix at shaped ⊢
      simp only [isEmpty, shaped]
      simpa [Shape.count] using some
    obtain ⟨array, read, shape, entries⟩ := ofDatum_eq_ok (shape_ofMatrix widths)
      (by rw [entries_ofMatrix]; exact mapM_real _)
    rw [toRows_dense dense, empty, read]
    simp only [Except.bind, denseRows, shape, Shape.matrix?, expectShape_integer, entries]
    have lines := RowMatrix.denseLines_flatten widths
    rw [List.length_cons] at lines
    simp only [RowMatrix.ofDense, lines, Except.map]
    simp

end ConicForm.Datum
