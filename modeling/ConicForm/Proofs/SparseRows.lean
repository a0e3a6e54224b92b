import ConicForm.Proofs.RationalMeaning

/-! What happens to rows that are gathered by column. As long as no row stores a position twice,
nothing is summed: combining a line only sorts it, and a matrix by columns has the entries of the
rows it was gathered from. -/
namespace ConicForm

namespace Line

theorem place_perm {position : ℤ} (value : Binary64) {line : Line}
    (fresh : position ∉ line.map Prod.fst) :
    (place position value line).Perm ((position, value) :: line) := by
  induction line with
  | nil => exact .refl _
  | cons head rest ih =>
    obtain ⟨other, unstored⟩ : position ≠ head.1 ∧ position ∉ rest.map Prod.fst := by
      simpa using fresh
    simp only [place]
    split
    · exact .refl _
    · exact ((ih unstored).cons head).trans (.swap ..)

/-- Combining a line without repeated positions rearranges it. -/
theorem combine_perm {line : Line} (distinct : line.Distinct) : (combine line).Perm line := by
  have general : ∀ entries start : Line, (start ++ entries).Distinct →
      (entries.foldl (fun ascending entry => place entry.1 entry.2 ascending) start).Perm
        (start ++ entries) := by
    intro entries
    induction entries with
    | nil => exact fun start _ => by simp
    | cons entry entries ih =>
      intro start distinct
      have moved : (start ++ entry :: entries).Perm (entry :: (start ++ entries)) :=
        List.perm_middle
      have fresh : entry.1 ∉ start.map Prod.fst := fun member =>
        (List.nodup_cons.1 ((moved.map Prod.fst).nodup_iff.1 distinct)).1
          (by simpa using Or.inl (List.mem_map.1 member))
      have placed : (place entry.1 entry.2 start ++ entries).Perm (start ++ entry :: entries) :=
        ((place_perm entry.2 fresh).append_right entries).trans moved.symm
      exact (ih _ ((placed.map Prod.fst).nodup_iff.2 distinct)).trans placed
  exact general line [] distinct

theorem place_last {position : ℤ} (value : Binary64) {line : Line}
    (before : ∀ entry ∈ line, entry.1 < position) :
    place position value line = line ++ [(position, value)] := by
  induction line with
  | nil => rfl
  | cons head rest ih =>
    have first : head.1 < position := before head (by simp)
    have notBelow : ¬position < head.1 := by omega
    have notSame : ¬position = head.1 := by omega
    simp only [place, if_neg notBelow, if_neg notSame,
      ih fun entry member => before entry (List.mem_cons_of_mem _ member), List.cons_append]

theorem combine_of_ascending {line : Line} (ascending : Ascending line) : combine line = line := by
  have general : ∀ entries start : Line, Ascending (start ++ entries) →
      entries.foldl (fun ascending entry => place entry.1 entry.2 ascending) start =
        start ++ entries := by
    intro entries
    induction entries with
    | nil => exact fun start _ => (List.append_nil start).symm
    | cons entry entries ih =>
      intro start ascending
      have before : ∀ other ∈ start, other.1 < entry.1 := fun other member =>
        (List.pairwise_append.1 ascending).2.2 other member entry (by simp)
      rw [List.foldl_cons, place_last entry.2 before, ih _ (by simpa using ascending)]
      simp
  exact general line [] ascending

theorem Ascending.distinct {line : Line} (ascending : line.Ascending) : line.Distinct :=
  (ascending.map Prod.fst fun _ _ before => before).imp fun before => ne_of_lt before

theorem lookup_eq_some_iff_mem {line : Line} (distinct : line.Distinct) {j : ℤ}
    {value : Binary64} : line.lookup j = some value ↔ (j, value) ∈ line := by
  induction line with
  | nil => simp
  | cons head rest ih =>
    obtain ⟨position, stored⟩ := head
    obtain ⟨fresh, later⟩ := List.nodup_cons.1 distinct
    by_cases same : j = position
    · subst same
      have unstored : (j, value) ∉ rest := fun member =>
        fresh (List.mem_map.2 ⟨_, member, rfl⟩)
      simp [unstored, eq_comm]
    · have other : (j == position) = false := by simpa using same
      simp [List.lookup_cons, other, same, ih later]

/-- What is stored at a position does not depend on the order of the entries. -/
theorem lookup_perm {first second : Line} (distinct : first.Distinct)
    (perm : first.Perm second) (j : ℤ) : first.lookup j = second.lookup j := by
  have distinctSecond : second.Distinct := (perm.map Prod.fst).nodup_iff.1 distinct
  apply Option.ext
  intro value
  rw [lookup_eq_some_iff_mem distinct, lookup_eq_some_iff_mem distinctSecond, perm.mem_iff]

theorem filter_eq_lookup {line : Line} (distinct : line.Distinct) (j : ℤ) :
    line.filter (fun entry => entry.1 = j) = ((line.lookup j).map (Prod.mk j)).toList := by
  induction line with
  | nil => rfl
  | cons head rest ih =>
    obtain ⟨position, stored⟩ := head
    obtain ⟨fresh, later⟩ := List.nodup_cons.1 distinct
    by_cases same : j = position
    · subst same
      have none : rest.filter (fun entry => entry.1 = j) = [] := by
        apply List.filter_eq_nil_iff.2
        intro entry member
        simpa using fun same : entry.1 = j => fresh (List.mem_map.2 ⟨entry, member, same⟩)
      simp [none]
    · have other : (j == position) = false := by simpa using same
      simp [List.lookup_cons, other, Ne.symm same, ih later]

theorem Distinct.reposition {place : ℤ → ℤ} {line : Line} (distinct : line.Distinct)
    (injective : ∀ a ∈ line, ∀ b ∈ line, place a.1 = place b.1 → a.1 = b.1) :
    (line.reposition place).Distinct := by
  have positions : (line.reposition place).map Prod.fst = (line.map Prod.fst).map place := by
    simp [Line.reposition, Function.comp_def]
  rw [Distinct, positions]
  refine List.Nodup.map_on (fun a left b right same => ?_) distinct
  obtain ⟨first, stored, rfl⟩ := List.mem_map.1 left
  obtain ⟨second, also, rfl⟩ := List.mem_map.1 right
  exact injective first stored second also same

theorem Distinct.scale {line : Line} (distinct : line.Distinct) (factor : Binary64) :
    (line.scale factor).Distinct := by
  simpa [Distinct, Line.scale, Function.comp_def] using distinct

theorem Within.scale {cols : ℕ} {line : Line} (within : line.Within cols) (factor : Binary64) :
    (line.scale factor).Within cols := by
  intro entry member
  obtain ⟨stored, also, rfl⟩ := List.mem_map.1 member
  exact within stored also

/-- Lines without repeated positions are settled by rearranging each. -/
theorem settle_perm {lines : List Line} (distinct : ∀ line ∈ lines, line.Distinct) :
    List.Forall₂ List.Perm (settle lines) lines := by
  unfold settle
  split
  · exact List.forall₂_map_left_iff.2 (List.forall₂_same.2 fun line member =>
      combine_perm (distinct line member))
  · refine List.forall₂_map_left_iff.2 (List.forall₂_same.2 fun line member => ?_)
    have moved := rearranged_perm line
    exact (combine_perm ((moved.map Prod.fst).nodup_iff.2 (distinct line member))).trans moved

theorem mem_positions_combine {line : Line} {entry : ℤ × Binary64} (member : entry ∈ combine line) :
    entry.1 ∈ line.map Prod.fst := by
  have general : ∀ entries start : Line,
      entry ∈ entries.foldl (fun ascending entry => place entry.1 entry.2 ascending) start →
        entry.1 ∈ (start ++ entries).map Prod.fst := by
    intro entries
    induction entries with
    | nil =>
      intro start placed
      rw [List.append_nil]
      exact List.mem_map_of_mem placed
    | cons first rest ih =>
      intro start placed
      have later := ih _ placed
      simp only [List.map_append, List.map_cons, List.mem_append, List.mem_cons] at later ⊢
      rcases later with inStart | inRest
      · obtain ⟨stored, also, same⟩ := List.mem_map.1 inStart
        rcases mem_place also with own | before
        · exact Or.inr (Or.inl (same ▸ own))
        · exact Or.inl (same ▸ List.mem_map_of_mem before)
      · exact Or.inr (Or.inr inRest)
  exact general line [] member

theorem Within.combine {count : ℕ} {line : Line} (within : line.Within count) :
    (combine line).Within count := by
  intro entry member
  obtain ⟨stored, own, same⟩ := List.mem_map.1 (mem_positions_combine member)
  rw [← same]
  exact within stored own

/-- Settling puts no entry outside of a matrix. -/
theorem within_settle {count : ℕ} {lines : List Line} (within : ∀ line ∈ lines, line.Within count) :
    ∀ line ∈ settle lines, line.Within count := by
  unfold settle
  split
  · rw [List.forall_mem_map]
    exact fun line member => (within line member).combine
  · rw [List.forall_mem_map]
    intro line member
    apply Within.combine
    intro entry moved
    exact within line member entry ((rearranged_perm line).mem_iff.1 moved)

end Line

namespace ColumnMatrix

variable {K : Type*} [Field K]

/-- What rows store in a column, under their numbers counted from `start`. -/
def columnOf (start : ℕ) (lines : List Line) (j : ℤ) : Line :=
  (lines.zipIdx start).filterMap fun line =>
    (line.1.lookup j).map fun value => ((line.2 : ℤ), value)

/-- The number at a position, zero where none is stored. -/
def coefficient (matrix : ColumnMatrix) (i j : ℕ) : ℚ :=
  Option.elim ( entry? matrix i j) 0 Binary64.toRat

/-- One entry of the product with a vector. -/
def product (matrix : ColumnMatrix) (y : List K) (i : ℕ) : K :=
  ∑ j ∈ Finset.range matrix.cols, (matrix.coefficient i j : K) * y.getD j 0

theorem columnOf_cons (start : ℕ) (line : Line) (lines : List Line) (j : ℤ) :
    columnOf start (line :: lines) j =
      ((line.lookup j).map fun value => ((start : ℤ), value)).toList ++
        columnOf (start + 1) lines j := by
  simp only [columnOf, List.zipIdx_cons, List.filterMap_cons]
  cases line.lookup j <;> simp

theorem columnLine_eq_columnOf (start : ℕ) {lines : List Line}
    (distinct : ∀ line ∈ lines, line.Distinct) (j : ℤ) :
    ((((lines.zipIdx start).flatMap fun line =>
      line.1.map fun e => (⟨(line.2 : ℤ), e.1, e.2⟩ : Entry)).filter
        fun entry => entry.col = j).map fun entry => (entry.row, entry.value)) =
      columnOf start lines j := by
  induction lines generalizing start with
  | nil => rfl
  | cons line lines ih =>
    have head : ((line.map fun e => (⟨(start : ℤ), e.1, e.2⟩ : Entry)).filter
        fun entry => entry.col = j).map (fun entry => (entry.row, entry.value)) =
        ((line.lookup j).map fun value => ((start : ℤ), value)).toList := by
      rw [List.filter_map, List.map_map]
      have stored := Line.filter_eq_lookup (distinct line (by simp)) j
      simp only [Function.comp_def] at stored ⊢
      rw [stored]
      cases line.lookup j <;> rfl
    rw [columnOf_cons, List.zipIdx_cons, List.flatMap_cons, List.filter_append, List.map_append,
      head, ih (start + 1) fun line member => distinct line (List.mem_cons_of_mem _ member)]

theorem le_of_mem_columnOf {start : ℕ} {lines : List Line} {j : ℤ} {entry : ℤ × Binary64}
    (member : entry ∈ columnOf start lines j) : (start : ℤ) ≤ entry.1 := by
  obtain ⟨line, stored, found⟩ := List.mem_filterMap.1 member
  obtain ⟨value, _, rfl⟩ := Option.map_eq_some_iff.1 found
  have := List.le_snd_of_mem_zipIdx stored
  simpa using this

theorem ascending_columnOf (start : ℕ) (lines : List Line) (j : ℤ) :
    Line.Ascending (columnOf start lines j) := by
  induction lines generalizing start with
  | nil => exact .nil
  | cons line lines ih =>
    rw [columnOf_cons]
    refine List.pairwise_append.2 ⟨?_, ih _, fun first member second later => ?_⟩
    · cases line.lookup j <;> simp
    · have below := le_of_mem_columnOf later
      obtain ⟨value, _, rfl⟩ : ∃ value, line.lookup j = some value ∧ ((start : ℤ), value) = first :=
        Option.map_eq_some_iff.1 (Option.mem_toList.1 member)
      simp only
      omega

theorem lookup_columnOf (start : ℕ) (lines : List Line) (j : ℤ) (i : ℕ) :
    (columnOf start lines j).lookup ((start + i : ℕ) : ℤ) =
      (lines[i]?).bind fun line => line.lookup j := by
  induction lines generalizing start i with
  | nil => simp [columnOf]
  | cons line lines ih =>
    rw [columnOf_cons]
    cases i with
    | zero =>
      cases stored : line.lookup j with
      | some value => simp [stored]
      | none =>
        have later : ∀ entry ∈ columnOf (start + 1) lines j, ((start : ℤ) == entry.1) = false := by
          intro entry member
          have below := le_of_mem_columnOf member
          simp only [beq_eq_false_iff_ne]
          omega
        simpa [stored, List.lookup_eq_none_iff] using later
    | succ i =>
      have next := ih (start + 1) i
      rw [show start + 1 + i = start + (i + 1) by omega] at next
      have after : (((start + (i + 1) : ℕ) : ℤ) == (start : ℤ)) = false := by
        simp only [beq_eq_false_iff_ne]
        omega
      cases line.lookup j with
      | some value =>
        simpa only [Option.map_some, Option.toList_some, List.cons_append, List.nil_append,
          List.lookup_cons, after, List.getElem?_cons_succ] using next
      | none => simpa using next

/-- Gathered by column, the rows still store the same at each position. -/
theorem entry?_ofRows {matrix : RowMatrix} (distinct : ∀ line ∈ matrix.lines, line.Distinct)
    {j : ℕ} (inside : j < matrix.cols) (i : ℕ) :
    entry? (ofRows matrix) i j = (matrix.lines[i]?).bind fun line => line.lookup (j : ℤ) := by
  have column : (ofRows matrix).columns[j]? = some (columnOf 0 matrix.lines (j : ℤ)) := by
    have gathered := columnLine_eq_columnOf 0 distinct (j : ℤ)
    simp only [ofRows, ofEntries, columnLines, RowMatrix.entries, List.map_map,
      List.getElem?_map, List.getElem?_range inside, Option.map_some, Function.comp_def,
      Option.some.injEq]
    rw [gathered, Line.combine_of_ascending (ascending_columnOf ..)]
  have found := lookup_columnOf 0 matrix.lines (j : ℤ) i
  rw [Nat.zero_add] at found
  unfold entry?
  rw [column, Option.bind_some, found]

theorem cols_ofRows (matrix : RowMatrix) : (ofRows matrix).cols = matrix.cols :=
  cols_ofEntries ..

/-- Gathered by column, a row still has the same product with a vector. -/
theorem product_ofRows [CharZero K] {matrix : RowMatrix}
    (distinct : ∀ line ∈ matrix.lines, line.Distinct)
    (within : ∀ line ∈ matrix.lines, line.Within matrix.cols) (y : List K) {i : ℕ}
    (inside : i < matrix.lines.length) :
    (ofRows matrix).product y i = matrix.lines[i].product (entryAt y) := by
  have member : matrix.lines[i] ∈ matrix.lines := List.getElem_mem inside
  rw [Line.product_eq_sum (distinct _ member) (within _ member), product, cols_ofRows]
  apply Finset.sum_congr rfl
  intro j below
  rw [coefficient, entry?_ofRows distinct (Finset.mem_range.1 below),
    List.getElem?_eq_getElem inside, Option.bind_some, Line.coefficient, entryAt_natCast]

end ColumnMatrix
end ConicForm
