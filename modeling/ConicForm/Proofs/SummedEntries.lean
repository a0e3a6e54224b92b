import ConicForm.Proofs.CompressedColumns

/-! Entries that share a position. Gathering them by column adds their numbers one after the other,
not always in the order they are given in, and rounds each sum. Where none of the sums needs to be
rounded the order does not matter, and what is stored is their exact sum. -/
namespace ConicForm

namespace Binary64

/-- The numbers added one after the other. Of no numbers there is no sum. -/
def sum? : List Binary64 → Option Binary64
  | [] => none
  | first :: rest => some (rest.foldl (· + ·) first)

theorem sum?_concat (values : List Binary64) (last : Binary64) :
    sum? (values ++ [last]) = some ((sum? values).elim last (· + last)) := by
  cases values with
  | nil => rfl
  | cons first rest => simp [sum?, List.foldl_append]

theorem isSome_sum?_iff {values : List Binary64} : (sum? values).isSome ↔ values ≠ [] := by
  cases values <;> simp [sum?]

/-- A rational with its magnitude on the grid is not rounded. -/
theorem ofMagnitude_exact (negative : Bool) {q r : ℚ} (nonneg : 0 ≤ q)
    (signed : (if negative then -q else q) = r) (onGrid : Grid.OnGrid |r|) :
    (ofMagnitude negative q).isFinite ∧ (ofMagnitude negative q).toRat = r := by
  have magnitude : |r| = q := by
    subst signed
    cases negative <;> simp [abs_of_nonneg nonneg]
  rw [magnitude] at onGrid
  rw [ofMagnitude_of_onGrid negative onGrid]
  exact ⟨rfl, signed⟩

/-- A sum that lies on the grid is exact. -/
theorem add_of_onGrid {x y : Binary64} (finiteLeft : x.isFinite) (finiteRight : y.isFinite)
    (onGrid : Grid.OnGrid |x.toRat + y.toRat|) :
    (x + y).isFinite ∧ (x + y).toRat = x.toRat + y.toRat := by
  cases x with
  | nan | infinity => cases finiteLeft
  | finite s a here =>
  cases y with
  | nan | infinity => cases finiteRight
  | finite t b there =>
  have left : (finite s a here).toRat = if s then -a else a := rfl
  have right : (finite t b there).toRat = if t then -b else b := rfl
  rw [left, right] at onGrid ⊢
  show (add _ _).isFinite ∧ (add _ _).toRat = _
  simp only [add]
  by_cases sameSign : s = t
  · subst sameSign
    rw [if_pos rfl]
    refine ofMagnitude_exact s (add_nonneg here.1 there.1) ?_ onGrid
    cases s <;> simp [add_comm]
  · obtain rfl : t = !s := by cases s <;> cases t <;> simp_all
    rw [if_neg sameSign]
    rcases lt_trichotomy a b with less | rfl | greater
    · rw [if_neg less.ne, if_neg less.not_gt]
      refine ofMagnitude_exact (!s) (sub_nonneg.2 less.le) ?_ onGrid
      cases s <;> simp [sub_eq_add_neg, add_comm]
    · rw [if_pos rfl]
      refine ⟨rfl, ?_⟩
      cases s <;> simp
    · rw [if_neg greater.ne', if_pos greater]
      refine ofMagnitude_exact s (sub_nonneg.2 greater.le) ?_ onGrid
      cases s <;> simp [sub_eq_add_neg, add_comm]

theorem ofMagnitude_eq_neg_zero_iff (negative : Bool) {q r : ℚ} (nonneg : 0 ≤ q)
    (signed : (if negative then -q else q) = r) (onGrid : Grid.OnGrid |r|) :
    ofMagnitude negative q = -zero ↔ negative = true ∧ q = 0 := by
  have magnitude : |r| = q := by
    subst signed
    cases negative <;> simp [abs_of_nonneg nonneg]
  rw [magnitude] at onGrid
  have negZero : (-zero : Binary64) = finite true 0 Grid.onGrid_zero := rfl
  rw [ofMagnitude_of_onGrid negative onGrid, negZero, finite.injEq]

/-- A sum that is not rounded is the negative zero only of two negative zeros. -/
theorem add_eq_neg_zero_iff {x y : Binary64} (finiteLeft : x.isFinite) (finiteRight : y.isFinite)
    (onGrid : Grid.OnGrid |x.toRat + y.toRat|) : x + y = -zero ↔ x = -zero ∧ y = -zero := by
  cases x with
  | nan | infinity => cases finiteLeft
  | finite s a here =>
  cases y with
  | nan | infinity => cases finiteRight
  | finite t b there =>
  have left : (finite s a here).toRat = if s then -a else a := rfl
  have right : (finite t b there).toRat = if t then -b else b := rfl
  have negZero : (-zero : Binary64) = finite true 0 Grid.onGrid_zero := rfl
  have summands : (finite s a here = -zero ∧ finite t b there = -zero) ↔
      (s = true ∧ a = 0) ∧ t = true ∧ b = 0 := by rw [negZero, finite.injEq, finite.injEq]
  rw [left, right] at onGrid
  rw [summands]
  show add _ _ = _ ↔ _
  simp only [add]
  by_cases sameSign : s = t
  · subst sameSign
    rw [if_pos rfl, ofMagnitude_eq_neg_zero_iff s (add_nonneg here.1 there.1) ?_ onGrid,
      add_eq_zero_iff_of_nonneg here.1 there.1]
    · exact and_and_left
    · cases s <;> simp [add_comm]
  · have apart : ¬((s = true ∧ a = 0) ∧ t = true ∧ b = 0) := fun both =>
      sameSign (both.1.1.trans both.2.1.symm)
    obtain rfl : t = !s := by cases s <;> cases t <;> simp_all
    rw [if_neg sameSign, iff_false_right apart]
    rcases lt_trichotomy a b with less | rfl | greater
    · rw [if_neg less.ne, if_neg less.not_gt,
        ofMagnitude_eq_neg_zero_iff (!s) (sub_nonneg.2 less.le) ?_ onGrid]
      · exact fun none => (sub_pos.2 less).ne' none.2
      · cases s <;> simp [sub_eq_add_neg, add_comm]
    · rw [if_pos rfl]
      intro same
      cases same
    · rw [if_neg greater.ne', if_pos greater,
        ofMagnitude_eq_neg_zero_iff s (sub_nonneg.2 greater.le) ?_ onGrid]
      · exact fun none => (sub_pos.2 greater).ne' none.2
      · cases s <;> simp [sub_eq_add_neg, add_comm]

/-- Finite numbers with one value are the same, but for the signs of zeros. -/
theorem eq_of_toRat_eq {x y : Binary64} (finiteLeft : x.isFinite) (finiteRight : y.isFinite)
    (same : x.toRat = y.toRat) (sign : x = -.zero ↔ y = -.zero) : x = y := by
  cases x with
  | nan | infinity => cases finiteLeft
  | finite s a here =>
  cases y with
  | nan | infinity => cases finiteRight
  | finite t b there =>
  have left : (finite s a here).toRat = if s then -a else a := rfl
  have right : (finite t b there).toRat = if t then -b else b := rfl
  have negZero : (-zero : Binary64) = finite true 0 Grid.onGrid_zero := rfl
  have nonneg := here.1
  have alsoNonneg := there.1
  rw [left, right] at same
  simp only [negZero, finite.injEq] at sign ⊢
  cases s <;> cases t <;> simp at same sign ⊢
  · exact same
  · exact absurd (by linarith) sign
  · exact absurd (by linarith) sign
  · exact same

/-- Numbers that are finite, and of which no sum of some of them has to be rounded. -/
structure Unrounded (values : List Binary64) : Prop where
  finite : ∀ x ∈ values, x.isFinite
  onGrid : ∀ part, part.Subperm values → Grid.OnGrid |(rationals part).sum|

theorem Unrounded.subperm {values part : List Binary64} (unrounded : Unrounded values)
    (within : part.Subperm values) : Unrounded part where
  finite := fun x member => unrounded.finite x (within.subset member)
  onGrid := fun some inner => unrounded.onGrid some (inner.trans within)

theorem Unrounded.sum? {values : List Binary64} (unrounded : Unrounded values)
    (nonempty : values ≠ []) :
    ∃ x, Binary64.sum? values = some x ∧ x.isFinite ∧ x.toRat = (rationals values).sum := by
  induction values using List.reverseRecOn with
  | nil => exact absurd rfl nonempty
  | append_singleton values last ih =>
    have lastFinite : last.isFinite := unrounded.finite last (by simp)
    by_cases first : values = []
    · subst first
      exact ⟨last, rfl, lastFinite, by simp [rationals]⟩
    · obtain ⟨x, summed, isFinite, exact⟩ :=
        ih (unrounded.subperm (List.sublist_append_left _ _).subperm) first
      have total : (rationals (values ++ [last])).sum = x.toRat + last.toRat := by
        simp [rationals, exact]
      have onGrid := unrounded.onGrid _ (List.Subperm.refl _)
      rw [total] at onGrid ⊢
      obtain ⟨sumFinite, sumExact⟩ := add_of_onGrid isFinite lastFinite onGrid
      exact ⟨x + last, by rw [sum?_concat, summed]; rfl, sumFinite, sumExact⟩

theorem Unrounded.sum?_eq_neg_zero_iff {values : List Binary64} (unrounded : Unrounded values)
    (nonempty : values ≠ []) :
    Binary64.sum? values = some (-zero) ↔ ∀ x ∈ values, x = -zero := by
  induction values using List.reverseRecOn with
  | nil => exact absurd rfl nonempty
  | append_singleton values last ih =>
    by_cases first : values = []
    · subst first
      simp [Binary64.sum?]
    · have before := unrounded.subperm (List.sublist_append_left _ [last]).subperm
      obtain ⟨x, summed, isFinite, exact⟩ := before.sum? first
      have total : (rationals (values ++ [last])).sum = x.toRat + last.toRat := by
        simp [rationals, exact]
      have onGrid := unrounded.onGrid _ (List.Subperm.refl _)
      rw [total] at onGrid
      have own := ih before first
      rw [summed, Option.some.injEq] at own
      rw [sum?_concat, summed, Option.elim_some, Option.some.injEq,
        add_eq_neg_zero_iff isFinite (unrounded.finite last (by simp)) onGrid, own,
        List.forall_mem_append, List.forall_mem_singleton]

/-- Where no sum has to be rounded, the order does not matter. -/
theorem Unrounded.sum?_perm {values others : List Binary64} (unrounded : Unrounded values)
    (perm : others.Perm values) : Binary64.sum? others = Binary64.sum? values := by
  by_cases none : values = []
  · subst none
    rw [List.perm_nil.1 perm]
  · have also := unrounded.subperm perm.subperm
    have present : others ≠ [] := fun empty => none (List.nil_perm.1 (empty ▸ perm))
    obtain ⟨x, sum, isFinite, exact⟩ := unrounded.sum? none
    obtain ⟨y, otherSum, otherFinite, otherExact⟩ := also.sum? present
    have sign := unrounded.sum?_eq_neg_zero_iff none
    have otherSign := also.sum?_eq_neg_zero_iff present
    rw [sum, Option.some.injEq] at sign
    rw [otherSum, Option.some.injEq] at otherSign
    rw [sum, otherSum, eq_of_toRat_eq otherFinite isFinite ?_ ?_]
    · rw [exact, otherExact, rationals, rationals, (perm.map _).sum_eq]
    · rw [sign, otherSign]
      exact forall_congr' fun x => imp_congr_left perm.mem_iff

end Binary64

namespace Line

/-- The numbers stored at a position, in their order. -/
def valuesAt (line : Line) (position : ℤ) : List Binary64 :=
  (line.filter fun entry => entry.1 = position).map Prod.snd

theorem valuesAt_concat (line : Line) (entry : ℤ × Binary64) (p : ℤ) :
    (line ++ [entry]).valuesAt p =
      if entry.1 = p then line.valuesAt p ++ [entry.2] else line.valuesAt p := by
  by_cases here : entry.1 = p <;> simp [valuesAt, List.filter_append, here]

theorem lookup_cons_ite (position : ℤ) (value : Binary64) (line : Line) (p : ℤ) :
    List.lookup p ((position, value) :: line) =
      if p = position then some value else line.lookup p := by
  by_cases same : p = position
  · simp [same]
  · have other : (p == position) = false := by simpa using same
    simp [List.lookup_cons, other, same]

/-- Placing an entry changes nothing but what is stored at its position. -/
theorem lookup_place {position : ℤ} (value : Binary64) {line : Line} (ascending : line.Ascending)
    (p : ℤ) : (place position value line).lookup p =
      if p = position then some ((line.lookup p).elim value (· + value)) else line.lookup p := by
  induction line with
  | nil => exact lookup_cons_ite position value [] p
  | cons head rest ih =>
    obtain ⟨q, v⟩ := head
    have above : ∀ entry ∈ rest, q < entry.1 := (List.pairwise_cons.1 ascending).1
    simp only [place]
    split
    next before =>
      rw [lookup_cons_ite]
      split
      next here =>
        have missing : List.lookup p ((q, v) :: rest) = none := by
          rw [List.lookup_eq_none_iff]
          intro entry member
          rw [bne_iff_ne]
          rcases List.mem_cons.1 member with rfl | later
          · simp only
            omega
          · have := above entry later
            omega
        rw [missing, Option.elim_none]
      next => rfl
    next notBefore =>
      split
      next here =>
        subst here
        rw [lookup_cons_ite, lookup_cons_ite]
        split <;> rfl
      next other =>
        rw [lookup_cons_ite, lookup_cons_ite, ih ascending.tail]
        by_cases first : p = q
        · have apart : ¬p = position := fun same => other (same ▸ first)
          rw [if_pos first, if_neg apart, if_pos first]
        · rw [if_neg first, if_neg first]

/-- Combining a line sums what it stores at each position. -/
theorem lookup_combine (line : Line) (p : ℤ) :
    (combine line).lookup p = Binary64.sum? (line.valuesAt p) := by
  -- The line placed so far has the sums of the entries `before`.
  have general : ∀ entries before start : Line, start.Ascending →
      start.lookup p = Binary64.sum? (before.valuesAt p) →
        (entries.foldl (fun ascending entry => place entry.1 entry.2 ascending) start).lookup p =
          Binary64.sum? ((before ++ entries).valuesAt p) := by
    intro entries
    induction entries with
    | nil =>
      intro before start _ summed
      rwa [List.append_nil]
    | cons entry entries ih =>
      intro before start ascending summed
      have placed : (place entry.1 entry.2 start).lookup p =
          Binary64.sum? ((before ++ [entry]).valuesAt p) := by
        rw [lookup_place _ ascending, valuesAt_concat, summed]
        split
        next here => rw [if_pos here.symm, Binary64.sum?_concat]
        next elsewhere => rw [if_neg (Ne.symm elsewhere)]
      have next := ih (before ++ [entry]) _ (ascending_place entry.1 entry.2 ascending) placed
      rwa [List.append_assoc] at next
  exact general line [] [] .nil rfl

/-- A line of a settled matrix is combined from its entries in some order. -/
theorem settle_eq_map (lines : List Line) :
    ∃ arrange : Line → Line, (∀ line, (arrange line).Perm line) ∧
      settle lines = lines.map fun line => combine (arrange line) := by
  unfold settle
  split
  · exact ⟨id, fun _ => .refl _, rfl⟩
  · exact ⟨rearranged, rearranged_perm, rfl⟩

end Line

/-- The line of a row that its entries make, in their order. -/
def Entry.rowLine (entries : List Entry) (i : ℕ) : Line :=
  (entries.filter fun entry => entry.row = (i : ℤ)).map fun entry => (entry.col, entry.value)

theorem Entry.rowLine_append (entries more : List Entry) (i : ℕ) :
    rowLine (entries ++ more) i = rowLine entries i ++ rowLine more i := by
  simp [rowLine]

theorem Entry.rowLine_eq_nil {entries : List Entry} {i : ℕ}
    (elsewhere : ∀ entry ∈ entries, entry.row ≠ (i : ℤ)) : rowLine entries i = [] := by
  refine List.map_eq_nil_iff.2 (List.filter_eq_nil_iff.2 fun entry member => ?_)
  simpa using elsewhere entry member

/-- The numbers at a position are the same along its row and along its column. -/
theorem Entry.valuesAt_rowLine (entries : List Entry) (i j : ℕ) :
    (rowLine entries i).valuesAt j =
      Line.valuesAt ((entries.filter fun entry => entry.col = (j : ℤ)).map
        fun entry => (entry.row, entry.value)) i := by
  simp only [rowLine, Line.valuesAt, List.filter_map, List.filter_filter, List.map_map]
  refine congrArg₂ List.map rfl (List.filter_congr fun entry _ => ?_)
  exact Bool.and_comm _ _

namespace ColumnMatrix

theorem ordered_gather {rows cols : ℕ} {entries : List Entry}
    (inside : ∀ entry ∈ entries, entry.IsInside rows cols) :
    (gather rows cols entries).Ordered where
  ascending := fun _ member => ascending_of_mem_gather member
  within := by
    refine Line.within_settle fun line gathered => ?_
    obtain ⟨j, _, rfl⟩ := List.mem_map.1 gathered
    intro stored own
    obtain ⟨entry, also, rfl⟩ := List.mem_map.1 own
    exact (inside entry (List.mem_filter.1 also).1).1

theorem entry?_gather (rows : ℕ) {cols : ℕ} (entries : List Entry) (i : ℕ) {j : ℕ}
    (inside : j < cols) :
    ∃ values, values.Perm ((Entry.rowLine entries i).valuesAt j) ∧
      entry? (gather rows cols entries) i j = Binary64.sum? values := by
  obtain ⟨arrange, perm, settled⟩ := Line.settle_eq_map (columnLines cols entries)
  let column : Line := (entries.filter fun entry => entry.col = (j : ℤ)).map
    fun entry => (entry.row, entry.value)
  have stored : (gather rows cols entries).columns[j]? = some (Line.combine (arrange column)) := by
    simp only [gather, settled]
    simp only [columnLines, List.getElem?_map, List.getElem?_range inside, Option.map_some, column]
  refine ⟨(arrange column).valuesAt i, ?_, ?_⟩
  · rw [Entry.valuesAt_rowLine]
    exact ((perm column).filter _).map _
  · unfold entry?
    rw [stored, Option.bind_some, Line.lookup_combine]

/-- The matrix of some rows by sound compressed columns. It stores a number wherever the row does:
the sum of what the row stores there, added in some order. Where no sum has to be rounded, that is
the exact one. -/
structure Sums (matrix : ColumnMatrix) (cols : ℕ) (rows : List ConstraintRow) : Prop where
  compressed : matrix.Compressed rows.length cols
  stored : ∀ i (below : i < rows.length), ∀ j < cols,
    ( entry? matrix i j).isSome ↔ rows[i].line.valuesAt j ≠ []
  entry : ∀ i (below : i < rows.length), ∀ j < cols, ∃ values,
    values.Perm (rows[i].line.valuesAt j) ∧ entry? matrix i j = Binary64.sum? values
  exact : ∀ i (below : i < rows.length), ∀ j < cols, rows[i].line.valuesAt j ≠ [] →
    Binary64.Unrounded (rows[i].line.valuesAt j) → ∃ x, entry? matrix i j = some x ∧
      x.value? = some (rationals (rows[i].line.valuesAt j)).sum

/-- From a row on, a matrix repeats another one: it stores the same wherever no sum has to be
rounded. -/
def Repeats (matrix part : ColumnMatrix) (start cols : ℕ) (rows : List ConstraintRow) : Prop :=
  ∀ k (inside : k < rows.length), ∀ j < cols, Binary64.Unrounded (rows[k].line.valuesAt j) →
    entry? matrix (start + k) j = entry? part k j

section Repeats

variable {matrix part : ColumnMatrix} {cols : ℕ} {rows more : List ConstraintRow}

theorem Sums.repeats {all : List ConstraintRow} {start : ℕ} (sums : matrix.Sums cols all)
    (own : part.Sums cols rows) (same : ∀ k < rows.length, all[start + k]? = rows[k]?) :
    matrix.Repeats part start cols rows := by
  intro k inside j column unrounded
  have found := (same k inside).trans (List.getElem?_eq_getElem inside)
  obtain ⟨below, row⟩ := List.getElem?_eq_some_iff.1 found
  obtain ⟨values, perm, stored⟩ := sums.entry _ below j column
  obtain ⟨others, otherPerm, otherStored⟩ := own.entry k inside j column
  rw [row] at perm
  rw [stored, otherStored, unrounded.sum?_perm perm, unrounded.sum?_perm otherPerm]

theorem Sums.repeats_upper (sums : matrix.Sums cols (rows ++ more)) (own : part.Sums cols rows) :
    matrix.Repeats part 0 cols rows :=
  sums.repeats own fun k inside => by rw [Nat.zero_add, List.getElem?_append_left inside]

theorem Sums.repeats_lower (sums : matrix.Sums cols (rows ++ more)) (own : part.Sums cols more) :
    matrix.Repeats part rows.length cols more :=
  sums.repeats own fun k _ => by
    rw [List.getElem?_append_right (Nat.le_add_right _ _), Nat.add_sub_cancel_left]

end Repeats

theorem sums_gather {cols : ℕ} {entries : List Entry} {rows : List ConstraintRow}
    (inside : ∀ entry ∈ entries, entry.IsInside rows.length cols)
    (lines : ∀ i (below : i < rows.length), Entry.rowLine entries i = rows[i].line) :
    (gather rows.length cols entries).Sums cols rows := by
  have summed : ∀ i (below : i < rows.length), ∀ j < cols, ∃ values,
      values.Perm (rows[i].line.valuesAt j) ∧
        entry? (gather rows.length cols entries) i j = Binary64.sum? values := by
    intro i below j column
    rw [← lines i below]
    exact entry?_gather rows.length entries i column
  have compressed := (ordered_gather inside).compressed
  rw [cols_gather] at compressed
  refine ⟨compressed, ?_, summed, ?_⟩
  · intro i below j column
    obtain ⟨values, perm, stored⟩ := summed i below j column
    rw [stored, Binary64.isSome_sum?_iff, ← List.length_pos_iff, ← List.length_pos_iff,
      perm.length_eq]
  · intro i below j column nonempty unrounded
    obtain ⟨values, perm, stored⟩ := summed i below j column
    obtain ⟨x, sum, isFinite, exact⟩ := (unrounded.subperm perm.subperm).sum?
      fun none => nonempty (List.nil_perm.1 (none ▸ perm))
    refine ⟨x, stored.trans sum, ?_⟩
    rw [Binary64.value?_of_isFinite isFinite, exact, rationals, rationals, (perm.map _).sum_eq]

end ColumnMatrix
end ConicForm
