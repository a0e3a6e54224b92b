import ConicForm.Proofs.ConeLayout
import ConicForm.Proofs.WellFormedForm

/-! Forms that a caller puts together from parts. Their sizes are compared with each other and with
what is announced, but nothing is asked of a single cone or of a single place of the order. So a
form can be read if and only if no cone is short of rows and the order is a bijection. -/
namespace ConicForm

namespace VariableOrder

theorem bijects_identity (count : ℕ) : (identity count).Bijects count := by
  rw [identity_eq_ofReverse]
  exact bijects_ofReverse (.refl _)

/-- Restoring along a bijection only moves the entries of a solution. -/
theorem Bijects.restore_perm {order : VariableOrder} {count : ℕ} (bijects : order.Bijects count)
    {solution : List Binary64} (size : solution.length = count) :
    ∃ restored, order.restore solution = .ok restored ∧ restored.Perm solution := by
  let entry (i : ℤ) : Binary64 := solution.getD i.toNat .zero
  have found : order.forward.mapM (fromEitherEnd? solution) = some (order.forward.map entry) := by
    apply mapM_eq_some
    intro place member
    obtain ⟨i, below, rfl⟩ := List.mem_map.1 (bijects.forward.mem_iff.1 member)
    have inside : i < solution.length := by
      rw [size]
      exact List.mem_range.1 below
    simp [entry, fromEitherEnd?, List.getElem?_eq_getElem inside]
  have fits : solution.length = order.size := by
    rw [VariableOrder.size, bijects.forward.length_eq, List.length_map, List.length_range, size]
  have whole : ((List.range count).map fun i : ℕ => (i : ℤ)).map entry = solution := by
    apply List.ext_getElem (by simp [size])
    intro i _ inside
    simp [entry, List.getElem?_eq_getElem inside]
  refine ⟨order.forward.map entry, by rw [restore, if_pos fits, found], ?_⟩
  have moved := bijects.forward.map entry
  rwa [whole] at moved

theorem eq_identity_of_ofBound [Machine] {bound : Datum} {order : VariableOrder}
    (counted : ofBound bound = .ok order) : order = identity order.size := by
  have known : ∃ count, order = identity count := by
    unfold ofBound at counted
    split at counted
    · obtain ⟨count, _, rfl⟩ := Outcome.map_eq_ok_iff.1 counted
      exact ⟨count, rfl⟩
    · split at counted
      · obtain ⟨n, _, counted⟩ := Outcome.bind_eq_ok_iff.1 counted
        unfold ofCount at counted
        split at counted
        · cases counted
        · obtain ⟨count, _, rfl⟩ := Outcome.map_eq_ok_iff.1 counted
          exact ⟨count, rfl⟩
      · cases counted
  obtain ⟨count, rfl⟩ := known
  rw [size_identity]

end VariableOrder

/-- The rational of a number. An array without extents is the number zero. -/
def Datum.number? : Datum → Option ℚ
  | .real value => value.value?
  | .zeros [] => some 0
  | d => d.exactInteger?.map fun n => (n : ℚ)

namespace StandardForm

/-- The rows of each cone, where the cones follow one another. -/
def coneBlocks (start : ℤ) : List ℤ → List (List ℤ)
  | [] => []
  | size :: sizes => ConeDims.consecutive start size :: coneBlocks (start + size) sizes

/-- Cones without a negative size cover consecutive rows. -/
theorem flatten_coneBlocks {sizes : List ℤ} (counts : ∀ size ∈ sizes, 0 ≤ size) (start : ℤ) :
    (coneBlocks start sizes).flatten = ConeDims.consecutive start sizes.sum := by
  induction sizes generalizing start with
  | nil => rfl
  | cons size sizes ih =>
    rw [List.forall_mem_cons] at counts
    obtain ⟨count, rfl⟩ := Int.eq_ofNat_of_zero_le counts.1
    obtain ⟨later, total⟩ := Int.eq_ofNat_of_zero_le (List.sum_nonneg counts.2)
    rw [coneBlocks, List.flatten_cons, ih counts.2, List.sum_cons, total,
      ConeDims.consecutive_append, Nat.cast_add]

/-- A solver can read the form: the orthant has some number of rows, and the cones cover the rows of
`G` after it, each of them at least one; the shapes agree, and every solution can be brought back
without loss. -/
structure Readable (form : StandardForm) : Prop where
  tiled : ∃ npos : ℕ, form.orthant.number? = some (npos : ℚ) ∧
    (coneBlocks 0 (npos :: form.sizes)).flatten = ConeDims.consecutive 0 form.m
  sizes : ∀ size ∈ form.sizes, 1 ≤ size
  coneCount : form.ncones = form.sizes.length
  inequalities : form.G.shape = [form.m, form.n] ∧ form.h.length = form.m
  equalities : form.A.shape = [form.p, form.n] ∧ form.b.length = form.p
  objective : form.c.length = form.n
  order : form.order.Bijects form.n
  restored : ∀ solution : List Binary64, solution.length = form.n →
    ∃ restored, form.order.restore solution = .ok restored ∧ restored.Perm solution

/-- Cones that all have rows cover as many rows as their sizes add up to. -/
theorem tiled_iff {sizes : List ℤ} (counts : ∀ size ∈ sizes, 1 ≤ size) (npos rows : ℕ) :
    (coneBlocks 0 (npos :: sizes)).flatten = ConeDims.consecutive 0 rows ↔
      (npos : ℤ) + sizes.sum = rows := by
  have nonneg : ∀ size ∈ sizes, 0 ≤ size := fun size member =>
    Int.le_trans (by decide) (counts size member)
  have total := List.sum_nonneg nonneg
  rw [flatten_coneBlocks (List.forall_mem_cons.2 ⟨Int.natCast_nonneg npos, nonneg⟩),
    List.sum_cons]
  constructor
  · intro same
    have lengths := congrArg List.length same
    simp only [ConeDims.consecutive, List.length_map, List.length_range] at lengths
    omega
  · intro same
    rw [same]

theorem readable_iff (form : StandardForm) : form.Readable ↔
    (∃ npos : ℕ, form.orthant.number? = some (npos : ℚ) ∧
      (npos : ℤ) + form.sizes.sum = form.m) ∧
    (∀ size ∈ form.sizes, 1 ≤ size) ∧ form.order.Bijects form.n := by
  constructor
  · intro readable
    obtain ⟨npos, number, tiled⟩ := readable.tiled
    exact ⟨⟨npos, number, (tiled_iff readable.sizes npos form.m).1 tiled⟩, readable.sizes,
      readable.order⟩
  · rintro ⟨⟨npos, number, total⟩, sizes, order⟩
    have cols : form.A.cols = form.n := form.equalityCols
    exact {
      sizes, order
      tiled := ⟨npos, number, (tiled_iff sizes npos form.m).2 total⟩
      coneCount := rfl
      inequalities := ⟨rfl, form.lengthBounds⟩
      equalities := ⟨by rw [ColumnMatrix.shape, cols, p], form.equalityBounds⟩
      objective := form.objectiveLength
      restored := fun _ size => order.restore_perm size }

/-- The form has the parts it was put together from, and the sizes they were announced with. -/
structure AssembledFrom [Machine] (form : StandardForm) (parts : Parts) : Prop where
  n : parts.n.compare form.n = .ok true
  m : parts.m.compare form.m = .ok true
  p : parts.p.compare form.p = .ok true
  ncones : parts.ncones.compare form.ncones = .ok true
  sizes : readSizes parts.sizes = .ok form.sizes
  orthant : form.orthant = parts.npos
  covered : ∃ rows, parts.npos.plus (Cone.totalSize form.sizes) = .ok rows ∧
    rows.agrees parts.m = .ok true
  G : form.G = parts.G
  h : form.h = parts.h.entries
  A : form.A = parts.A
  b : form.b = parts.b.entries
  c : form.c = parts.c.entries
  order : form.order = parts.order.getD (.identity form.n)

/-- Without an order every variable keeps its place, as far as places are counted. -/
theorem ofParts_eq_ok [Machine] {parts : Parts} {form : StandardForm}
    (assembled : ofParts parts = .ok form) :
    ∃ order sizes, order = parts.order.getD (.identity order.size) ∧
      readSizes parts.sizes = .ok sizes ∧
      make ⟨parts.n, parts.m, parts.p, parts.npos, parts.ncones, sizes⟩ parts.G parts.h parts.A
        parts.b parts.c .minimize order = .ok form := by
  unfold ofParts at assembled
  cases given : parts.order with
  | some order =>
    rw [given] at assembled
    obtain ⟨_, ⟨⟩, assembled⟩ := Outcome.andThen_eq_ok_iff.1 assembled
    obtain ⟨sizes, sizesRead, assembled⟩ := Outcome.andThen_eq_ok_iff.1 assembled
    exact ⟨order, sizes, rfl, sizesRead, assembled⟩
  | none =>
    rw [given] at assembled
    obtain ⟨order, counted, assembled⟩ := Outcome.andThen_eq_ok_iff.1 assembled
    obtain ⟨sizes, sizesRead, assembled⟩ := Outcome.andThen_eq_ok_iff.1 assembled
    exact ⟨order, sizes, VariableOrder.eq_identity_of_ofBound counted, sizesRead, assembled⟩

/-- A comparison that is expected to hold does hold. -/
theorem expected_eq_ok {compared : Except Fault Bool} {cause : LengthFault}
    {next : Except Fault StandardForm} {form : StandardForm}
    (accepted : (compared >>= fun agrees => expect agrees cause >>= fun _ => next) = .ok form) :
    compared = .ok true ∧ next = .ok form := by
  obtain ⟨agrees, same, accepted⟩ := Outcome.andThen_eq_ok_iff.1 accepted
  obtain ⟨_, expected, rest⟩ := Outcome.andThen_eq_ok_iff.1 accepted
  exact ⟨expect_eq_ok expected ▸ same, rest⟩

theorem assembledFrom_of_ofParts [Machine] {parts : Parts} {form : StandardForm}
    (assembled : ofParts parts = .ok form) : form.AssembledFrom parts := by
  obtain ⟨order, sizes, ordered, sizesRead, assembled⟩ := ofParts_eq_ok assembled
  unfold make at assembled
  obtain ⟨covered, added, assembled⟩ := Outcome.andThen_eq_ok_iff.1 assembled
  rw [Outcome.mapError_eq_ok_iff] at added
  obtain ⟨agrees, assembled⟩ := expected_eq_ok assembled
  obtain ⟨sameCount, assembled⟩ := expected_eq_ok assembled
  obtain ⟨sameHeight, assembled⟩ := expected_eq_ok assembled
  obtain ⟨widthAgrees, sameWidth, assembled⟩ := Outcome.andThen_eq_ok_iff.1 assembled
  split at assembled
  next inequalities =>
    obtain ⟨heightAgrees, sameRows, assembled⟩ := Outcome.andThen_eq_ok_iff.1 assembled
    split at assembled
    next equalities =>
      split at assembled
      next objective =>
        cases assembled
        rw [inequalities.1] at sameWidth
        rw [equalities.1] at sameRows
        rw [objective.2] at ordered
        exact ⟨sameWidth, sameHeight, sameRows, sameCount, sizesRead, rfl,
          ⟨covered, added, agrees⟩, rfl, rfl, rfl, rfl, rfl, ordered⟩
      next => cases assembled
    next => cases assembled
  next => cases assembled

/-- Parts that are accepted have the sizes they are announced with. What they make can be read if
and only if the orthant has a number of rows that the cones leave over, the cones have rows, and an
order that is given is a bijection. -/
theorem readable_iff_of_ofParts [Machine] {parts : Parts} {form : StandardForm}
    (assembled : ofParts parts = .ok form) :
    form.AssembledFrom parts ∧
      (form.Readable ↔
        (∃ npos : ℕ, parts.npos.number? = some (npos : ℚ) ∧
          (npos : ℤ) + form.sizes.sum = form.m) ∧
        (∀ size ∈ form.sizes, 1 ≤ size) ∧
        ∀ order, parts.order = some order → order.Bijects form.n) := by
  have agreed := assembledFrom_of_ofParts assembled
  refine ⟨agreed, ?_⟩
  rw [readable_iff, agreed.orthant, agreed.order]
  cases parts.order with
  | none => simp [VariableOrder.bijects_identity]
  | some order => simp

/-- Where integers are announced, the orthant has what the cones leave over of the rows, but that
can be less than nothing. -/
theorem AssembledFrom.sum_eq [Machine] {parts : Parts} {form : StandardForm}
    (assembled : form.AssembledFrom parts) {rows npos : ℤ} (height : parts.m = .integer rows)
    (orthant : parts.npos = .integer npos) : npos + form.sizes.sum = form.m := by
  obtain ⟨covered, added, agrees⟩ := assembled.covered
  have sameRows := assembled.m
  rw [orthant, Amount.plus_integer] at added
  cases added
  rw [height, Amount.agrees] at agrees
  rw [height] at sameRows
  simp only [Datum.compare_integer, Except.ok.injEq, beq_iff_eq] at agrees sameRows
  rw [← Cone.totalSize_eq_sum, ← agrees, sameRows]

/-- One inequality row without entries, in whatever cones and order. -/
def Parts.oneRow (cols : ℕ) (npos : Datum) (sizes : List ℤ) (order : Option VariableOrder) :
    Parts where
  n := .integer cols
  m := .integer 1
  p := .integer 0
  npos := npos
  ncones := .integer sizes.length
  sizes := .list (sizes.map .integer)
  G := ⟨1, List.replicate cols []⟩
  h := .ofVector [.zero]
  A := ⟨0, List.replicate cols []⟩
  b := .ofVector []
  c := .ofVector (List.replicate cols .zero)
  order := order

theorem readable_oneRow : ∃ form, ofParts (.oneRow 2 (.integer 0) [1] none) = .ok form ∧
    form.AssembledFrom (.oneRow 2 (.integer 0) [1] none) ∧ form.Readable := by
  obtain ⟨form, assembled, sizes⟩ : ∃ form, ofParts (.oneRow 2 (.integer 0) [1] none) = .ok form ∧
      form.sizes = [1] := Outcome.exists_of_toOption_map (by decide +kernel)
  obtain ⟨agreed, readable⟩ := readable_iff_of_ofParts assembled
  have total := agreed.sum_eq rfl rfl
  refine ⟨form, assembled, agreed, readable.2 ⟨⟨0, by simp [Parts.oneRow, Datum.number?,
    Datum.exactInteger?], total⟩, ?_, fun _ given => nomatch given⟩⟩
  simp [sizes]

/-- A negative orthant is no number of rows. -/
theorem not_readable_of_neg [Machine] {parts : Parts} {form : StandardForm}
    (assembled : ofParts parts = .ok form) {q : ℚ} (number : parts.npos.number? = some q)
    (negative : q < 0) : ¬form.Readable := by
  intro readable
  obtain ⟨npos, counted, _⟩ := readable.tiled
  rw [(assembledFrom_of_ofParts assembled).orthant, number, Option.some.injEq] at counted
  rw [counted] at negative
  exact absurd negative (not_lt_of_ge (Nat.cast_nonneg npos))

/-- A negative orthant, even if its sign is lost in the sum, a cone without rows, and an order that
has a variable twice are accepted. -/
theorem exists_not_readable :
    (∃ form, ofParts (.oneRow 1 (.integer (-1)) [2] none) = .ok form ∧ ¬form.Readable) ∧
    (∃ form, ofParts (.oneRow 1 (.real (.ofRat (-1 / 2 ^ 60))) [1] none) = .ok form ∧
      ¬form.Readable) ∧
    (∃ form, ofParts (.oneRow 1 (.integer 1) [0] none) = .ok form ∧ ¬form.Readable) ∧
    ∃ form, ofParts (.oneRow 2 (.integer 1) [] (some ⟨[0, 0], [1, 1], rfl⟩)) = .ok form ∧
      ¬form.Readable := by
  refine ⟨?_, ?_, ?_, ?_⟩
  · obtain ⟨form, assembled, _⟩ : ∃ form, ofParts (.oneRow 1 (.integer (-1)) [2] none) =
        .ok form ∧ form.m = 1 := Outcome.exists_of_toOption_map (by decide +kernel)
    exact ⟨form, assembled, not_readable_of_neg assembled rfl (by decide)⟩
  · obtain ⟨form, assembled, _⟩ :
        ∃ form, ofParts (.oneRow 1 (.real (.ofRat (-1 / 2 ^ 60))) [1] none) = .ok form ∧
          form.m = 1 := Outcome.exists_of_toOption_map (by decide +kernel)
    have number : (Datum.real (.ofRat (-1 / 2 ^ 60))).number? = some (-1 / 2 ^ 60) := by
      decide +kernel
    exact ⟨form, assembled, not_readable_of_neg assembled number (by norm_num)⟩
  · obtain ⟨form, assembled, sizes⟩ : ∃ form, ofParts (.oneRow 1 (.integer 1) [0] none) =
        .ok form ∧ form.sizes = [0] := Outcome.exists_of_toOption_map (by decide +kernel)
    refine ⟨form, assembled, fun readable => ?_⟩
    have lower := readable.sizes 0 (by simp [sizes])
    exact absurd lower (by decide)
  · obtain ⟨form, assembled, order⟩ :
        ∃ form, ofParts (.oneRow 2 (.integer 1) [] (some ⟨[0, 0], [1, 1], rfl⟩)) = .ok form ∧
          form.order.forward = [0, 0] := Outcome.exists_of_toOption_map (by decide +kernel)
    refine ⟨form, assembled, fun readable => ?_⟩
    have distinct := readable.order.forward.nodup_iff.2
      (List.nodup_range.map fun _ _ same => Int.ofNat_inj.1 same)
    rw [order] at distinct
    exact absurd distinct (by decide)

end StandardForm
end ConicForm
