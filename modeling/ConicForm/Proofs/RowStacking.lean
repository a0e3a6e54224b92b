import ConicForm.Proofs.Arrangement
import ConicForm.Proofs.StackedRows
import ConicForm.Proofs.SummedEntries
import ConicForm.Proofs.WrittenArrays
import ConicForm.RowStack

/-! Rows appended to a stack in any order, as single coefficients and as blocks, with requests for
the matrix between them. However long that goes on, the stack has the rows that were appended: one
step adds its own rows at the end, a block that does not fit is refused and adds none, and the
matrix that is built has what has been appended to each of its rows. -/
namespace ConicForm

/-- The value is read as one number. -/
def Datum.IsScalar (d : Datum) (value : Binary64) : Prop :=
  ∃ array, NumberArray.ofDatum d = .ok array ∧ array.shape = [] ∧ array.entries = [value]

/-- In a list of its own the number is read as an array of one extent. -/
theorem Datum.IsScalar.ofDatum_list {d : Datum} {value : Binary64} (number : d.IsScalar value) :
    ∃ array, NumberArray.ofDatum (.list [d]) = .ok array ∧ array.shape = [1] ∧
      array.entries = [value] := by
  obtain ⟨array, read, flat, single⟩ := number
  unfold NumberArray.ofDatum at read
  split at read
  · cases read
  next shape shaped =>
    split at read
    · cases read
    next entries converted =>
      cases read
      subst flat single
      refine ofDatum_eq_ok ?_ ?_
      · exact shape_of_forall (by decide) (by simpa using shaped)
      · simpa [entries, itemEntries] using converted

namespace Scale

/-- There is one factor for all rows, or exactly one for each of them. -/
def Covers (rows : ℕ) : Scale → Prop
  | .uniform _ => True
  | .perRow factors => factors.length = rows
  | .layered _ _ => False

def factorAt (scale : Scale) (row : ℕ) : Binary64 := (scale.factor? row).getD .one

theorem Covers.factor? {scale : Scale} {rows row : ℕ} (covers : scale.Covers rows)
    (below : row < rows) : scale.factor? row = some (scale.factorAt row) := by
  cases scale with
  | uniform factor => rfl
  | perRow factors =>
    have inside : row < factors.length := covers.symm ▸ below
    simp [factorAt, Scale.factor?, inside]
  | layered => cases covers

/-- Each right-hand side is multiplied by the factor of its row. -/
theorem Covers.bounds? {scale : Scale} {bounds : List Binary64}
    (covers : scale.Covers bounds.length) :
    scale.bounds? bounds = some ((List.range bounds.length).map fun i =>
      scale.factorAt i * bounds.getD i .zero) := by
  cases scale with
  | uniform factor =>
    refine congrArg some (List.ext_getElem (by simp) fun i left _ => ?_)
    have inside : i < bounds.length := by simpa using left
    simp [factorAt, Scale.factor?, inside]
  | perRow factors =>
    have same : factors.length = bounds.length := covers
    simp only [Scale.bounds?, if_pos same]
    refine congrArg some (List.ext_getElem (by simp [same]) fun i left right => ?_)
    have inside : i < bounds.length := by simpa using right
    have also : i < factors.length := same.symm ▸ inside
    simp [factorAt, Scale.factor?, inside, also]
  | layered => cases covers

end Scale

namespace RowStack

/-- What a caller gives for a row with one coefficient, and the numbers that are read from it. -/
structure UnitRow where
  col : ℕ
  coefficient : Datum
  bound : Datum
  value : Binary64
  limit : Binary64
  readsCoefficient : coefficient.IsScalar value
  readsBound : bound.IsScalar limit

/-- What a caller gives for a block of rows, and what is read from it. -/
structure RowBlock where
  matrix : Datum
  bounds : Datum
  scale : Datum
  stored : StoredMatrix
  values : List Binary64
  factors : Scale
  readsMatrix : matrix.toBlock = .ok stored
  readsBounds : bounds.toEntries = .ok values
  readsScale : (NumberArray.ofDatum scale).map Scale.ofArray = .ok factors
  covers : factors.Covers stored.rows

inductive Step where
  | unit (given : UnitRow)
  | block (given : RowBlock)
  | build

/-- The block has one row for each right-hand side, and as many columns as the stack. -/
def RowBlock.Fits (block : RowBlock) (cols : ℕ) : Prop :=
  block.stored.rows = block.values.length ∧ block.stored.cols = cols

instance (block : RowBlock) (cols : ℕ) : Decidable (block.Fits cols) :=
  inferInstanceAs (Decidable (_ ∧ _))

/-- The rows of a block with their right-hand sides, each multiplied by its factor. -/
def RowBlock.rows (block : RowBlock) : List ConstraintRow :=
  (List.range block.stored.rows).map fun i =>
    ConstraintRow.scale (block.factors.factorAt i)
      ⟨Entry.rowLine block.stored.entries i, block.values.getD i .zero⟩

namespace Step

/-- A row with one coefficient has it in a column of the stack. -/
def IsWithin (cols : ℕ) : Step → Prop
  | .unit given => given.col < cols
  | .block _ | .build => True

/-- The rows that a step appends. -/
def rows (cols : ℕ) : Step → List ConstraintRow
  | .unit given => [ConstraintRow.unit given.col given.value given.limit]
  | .block given => if given.Fits cols then given.rows else []
  | .build => []

/-- A step with its reply: nothing but that a row or a block is appended, or what is built. -/
def perform [Machine] (stack : RowStack) :
    Step → RowStack × Except Fault (Option (ColumnMatrix × List Binary64))
  | .unit given =>
    let pushed := stack.pushUnitData (.integer given.col) given.coefficient given.bound
    (pushed.1, pushed.2.map fun _ => none)
  | .block given =>
    let pushed := stack.pushData given.matrix given.bounds given.scale
    (pushed.1, pushed.2.map fun _ => none)
  | .build => (stack, stack.toSystem.map some)

end Step

def run [Machine] (stack : RowStack) (steps : List Step) : RowStack :=
  steps.foldl (fun stack step => (step.perform stack).1) stack

theorem checkFit_eq_ok_iff {stack : RowStack} {stored : StoredMatrix} {values : List Binary64} :
    stack.checkFit stored values = .ok () ↔
      stored.rows = values.length ∧ stack.width.compare stored.cols = .ok true := by
  unfold checkFit
  by_cases height : stored.rows = values.length
  · rw [if_pos height, Outcome.bind_eq_ok_iff]
    constructor
    · rintro ⟨same, compared, accepted⟩
      cases same with
      | false => cases accepted
      | true => exact ⟨height, compared⟩
    · rintro ⟨_, compared⟩
      exact ⟨true, compared, rfl⟩
  · simp [height]

section Width

variable {stack : RowStack} {cols : ℕ} (width : stack.width = .integer cols) {given : RowBlock}
include width

theorem checkFit_eq_ok (fits : given.Fits cols) :
    stack.checkFit given.stored given.values = .ok () := by
  rw [checkFit_eq_ok_iff, width, Datum.compare_integer, fits.2]
  exact ⟨fits.1, by simp⟩

/-- A block that does not fit is refused for its shape, if the width can be written. -/
theorem checkFit_eq_error (writable : Capacity.Writable cols) (other : ¬given.Fits cols) :
    stack.checkFit given.stored given.values =
      .error (.length (.rowBlock given.stored.shape given.values.length (.integer cols))) := by
  have raised := @Fault.raised_eq
    (.length (.rowBlock given.stored.shape given.values.length (.integer cols))) (by
      simp [Fault.isWritable, LengthFault.declared, Datum.isListable, Datum.isWritable, writable])
  simp only [checkFit, width, Datum.compare_integer, Datum.compared_integer, raised, Except.bind]
  by_cases height : given.stored.rows = given.values.length
  · have apart : ((cols : ℤ) == given.stored.cols) = false := by
      have differ : given.stored.cols ≠ cols := fun same => other ⟨height, same⟩
      simpa using Ne.symm differ
    simp [height, apart]
  · simp [height]

end Width

theorem RowBlock.isInside (given : RowBlock) : given.stored.isInside := by
  obtain ⟨stored, _, checked⟩ := Outcome.bind_eq_ok_iff.1 given.readsMatrix
  obtain ⟨_, inside, rfl⟩ := Outcome.map_eq_ok_iff.1 checked
  unfold StoredMatrix.checkInside at inside
  split at inside
  · assumption
  · cases inside

/-- A sparse matrix with its right-hand sides, as it stands. -/
def RowBlock.ofStored (stored : StoredMatrix) (inside : stored.isInside) (values : List Binary64) :
    RowBlock where
  matrix := .sparse stored
  bounds := Datum.ofVector values
  scale := .real .one
  stored := stored
  values := values
  factors := .uniform .one
  readsMatrix := by
    simp only [Datum.toBlock, Datum.toStored, StoredMatrix.checkInside, inside, if_true,
      Except.bind, Except.mapError, Except.map]
  readsBounds := Datum.toEntries_ofVector values
  readsScale := rfl
  covers := trivial

namespace RowBlock

/-- The entries of the block below `start` other rows, each multiplied by the factor of its row. -/
def entriesBelow (given : RowBlock) (start : ℕ) : List Entry :=
  given.stored.entries.map fun entry =>
    ⟨start + entry.row, entry.col, given.factors.factorAt entry.row.toNat * entry.value⟩

theorem length_rows (given : RowBlock) : given.rows.length = given.stored.rows := by
  simp [rows]

theorem inside_of_mem_entriesBelow {given : RowBlock} {start : ℕ} {entry : Entry}
    (member : entry ∈ given.entriesBelow start) :
    ((start : ℤ) ≤ entry.row ∧ entry.row < start + given.stored.rows) ∧
      0 ≤ entry.col ∧ entry.col < given.stored.cols := by
  obtain ⟨source, stored, rfl⟩ := List.mem_map.1 member
  have inside := of_decide_eq_true (List.all_eq_true.1 given.isInside source stored)
  unfold Entry.IsInside at inside
  simp only
  omega

theorem rowLine_entriesBelow (given : RowBlock) (start k : ℕ) :
    Entry.rowLine (given.entriesBelow start) (start + k) =
      (Entry.rowLine given.stored.entries k).scale (given.factors.factorAt k) := by
  have chosen : (given.entriesBelow start).filter (fun entry => entry.row = ((start + k : ℕ) : ℤ)) =
      (given.stored.entries.filter fun entry => entry.row = (k : ℤ)).map fun entry =>
        ⟨start + entry.row, entry.col, given.factors.factorAt entry.row.toNat * entry.value⟩ := by
    rw [entriesBelow, List.filter_map]
    refine congrArg _ (List.filter_congr fun entry _ => ?_)
    simp only [Function.comp_apply, decide_eq_decide]
    omega
  rw [Entry.rowLine, chosen, Entry.rowLine, Line.scale, List.map_map, List.map_map]
  refine List.map_congr_left fun entry member => ?_
  have own : entry.row = (k : ℤ) := of_decide_eq_true (List.mem_filter.1 member).2
  simp [own]

/-- The right-hand sides of a block that fits are scaled like its rows. -/
theorem bounds?_eq {given : RowBlock} {cols : ℕ} (fits : given.Fits cols) :
    given.factors.bounds? given.values = some (given.rows.map ConstraintRow.bound) := by
  have covers := given.covers
  rw [fits.1] at covers
  rw [covers.bounds?, rows, List.map_map, fits.1]
  rfl

end RowBlock

theorem scaledEntries?_eq (stack : RowStack) (given : RowBlock) :
    stack.scaledEntries? given.stored given.factors = some (given.entriesBelow stack.count) := by
  refine VariableOrder.mapM_eq_some fun entry member => ?_
  have inside := of_decide_eq_true (List.all_eq_true.1 given.isInside entry member)
  have below : entry.row.toNat < given.stored.rows := by
    unfold Entry.IsInside at inside
    omega
  rw [given.covers.factor? below, Option.map_some]

theorem enter_eq (stack : RowStack) {scale : Scale} {rows : ℕ} (covers : scale.Covers rows)
    (scaled : List Entry) :
    stack.enter scale scaled = ({ stack with entries := stack.entries ++ scaled }, .ok ()) := by
  cases scale with
  | uniform | perRow => rfl
  | layered => cases covers

/-- The rows that have been appended to a stack. -/
structure Holds (stack : RowStack) (cols : ℕ) (rows : List ConstraintRow) : Prop where
  width : stack.width = .integer cols
  count : stack.count = rows.length
  bounds : stack.bounds = rows.map ConstraintRow.bound
  inside : ∀ entry ∈ stack.entries, entry.IsInside rows.length cols
  lines : ∀ i (below : i < rows.length), Entry.rowLine stack.entries i = rows[i].line
  usable : stack.usable
  even : stack.even
  flat : stack.boundShape.all (· == [])

theorem holds_empty (cols : ℕ) : (empty (.integer cols)).Holds cols [] where
  width := rfl
  count := rfl
  bounds := rfl
  inside := fun _ member => by cases member
  lines := fun _ below => absurd below (Nat.not_lt_zero _)
  usable := rfl
  even := rfl
  flat := rfl

namespace Holds

variable {stack : RowStack} {cols : ℕ} {rows : List ConstraintRow} (holds : stack.Holds cols rows)
include holds

/-- Entries in new rows leave the rows before them as they are. -/
theorem extend (added : List Entry) (more : List ConstraintRow)
    (below : ∀ entry ∈ added, (rows.length : ℤ) ≤ entry.row ∧
      entry.row < rows.length + more.length ∧ 0 ≤ entry.col ∧ entry.col < cols)
    (lines : ∀ k (inside : k < more.length),
      Entry.rowLine added (rows.length + k) = more[k].line) :
    ({ stack with entries := stack.entries ++ added }.pushBounds more.length []
      (more.map ConstraintRow.bound)).Holds cols (rows ++ more) where
  width := holds.width
  count := by
    rw [List.length_append, ← holds.count]
    rfl
  bounds := by
    rw [List.map_append, ← holds.bounds]
    rfl
  inside := by
    intro entry member
    rw [List.length_append]
    rcases List.mem_append.1 member with before | own
    · have := holds.inside entry before
      unfold Entry.IsInside at this ⊢
      omega
    · have := below entry own
      unfold Entry.IsInside
      omega
  lines := by
    intro i inside
    refine (Entry.rowLine_append stack.entries added i).trans ?_
    by_cases old : i < rows.length
    · have none : Entry.rowLine added i = [] := Entry.rowLine_eq_nil fun entry own => by
        have := below entry own
        omega
      rw [none, List.append_nil, List.getElem_append_left old, holds.lines i old]
    · obtain ⟨k, rfl⟩ := Nat.exists_eq_add_of_le (Nat.le_of_not_lt old)
      have new : k < more.length := by
        rw [List.length_append] at inside
        omega
      have none : Entry.rowLine stack.entries (rows.length + k) = [] :=
        Entry.rowLine_eq_nil fun entry before => by
          have := holds.inside entry before
          unfold Entry.IsInside at this
          omega
      rw [none, List.nil_append, lines k new]
      simp
  usable := holds.usable
  even := by
    show (stack.even && stack.boundShape.all (· == [])) = true
    rw [holds.even, holds.flat, Bool.and_self]
  flat := rfl

/-- A coefficient in a column of the stack makes a row of its own. -/
theorem pushUnit {col : ℕ} (inside : col < cols) (coefficient bound : Binary64) :
    (stack.pushUnit col coefficient bound).Holds cols
      (rows ++ [ConstraintRow.unit col coefficient bound]) := by
  refine holds.extend [⟨stack.count, col, coefficient⟩]
    [ConstraintRow.unit col coefficient bound] ?_ ?_
  · intro entry member
    rw [List.mem_singleton.1 member, holds.count]
    simp only [List.length_singleton]
    omega
  · intro k only
    obtain rfl : k = 0 := by simpa using only
    simp [Entry.rowLine, holds.count, ConstraintRow.unit]

/-- A block that fits is appended with its rows, each of them scaled. -/
theorem pushBlock (given : RowBlock) (fits : given.Fits cols) :
    ∃ pushed, stack.pushBlock given.stored given.values given.factors = (pushed, .ok ()) ∧
      pushed.Holds cols (rows ++ given.rows) := by
  have height : given.rows.length = given.values.length := given.length_rows.trans fits.1
  refine ⟨_, ?_, holds.extend (given.entriesBelow stack.count) given.rows ?_ ?_⟩
  · simp only [RowStack.pushBlock, checkFit_eq_ok holds.width fits,
      stack.scaledEntries?_eq given, stack.enter_eq given.covers, RowBlock.bounds?_eq fits, height]
  · intro entry member
    have inside := RowBlock.inside_of_mem_entriesBelow member
    rw [holds.count, fits.2, ← given.length_rows] at inside
    omega
  · intro k _
    rw [holds.count, given.rowLine_entriesBelow]
    simp [RowBlock.rows, ConstraintRow.scale]

theorem checkEntries_eq : stack.checkEntries cols = .ok () := by
  have all : stack.entries.all fun entry => entry.IsInside stack.count cols := by
    refine List.all_eq_true.2 fun entry member => decide_eq_true ?_
    rw [holds.count]
    exact holds.inside entry member
  rw [checkEntries, holds.even, all]
  rfl

/-- Without rows the matrix is built another way, but from the same entries: there are none. -/
theorem toSystem_eq [Machine] (room : Capacity.HoldsLines cols) :
    stack.toSystem = .ok (ColumnMatrix.gather rows.length cols stack.entries,
      rows.map ConstraintRow.bound) := by
  have pointers : ((Capacity.arrayLength 8 ((cols : ℤ) + 1)).mapError Fault.data) =
      .ok (cols + 1) := by
    rw [Capacity.arrayLength_of_holds (by decide) room, Except.mapError]
  have columns := Datum.toColumnCount_integer room.lt_word
  by_cases none : stack.count = 0
  · obtain rfl : rows = [] := List.eq_nil_of_length_eq_zero (holds.count ▸ none)
    have entries : stack.entries = [] := by
      refine List.eq_nil_iff_forall_not_mem.2 fun entry member => ?_
      have := holds.inside entry member
      unfold Entry.IsInside at this
      simp only [List.length_nil] at this
      omega
    have width : (Datum.integer cols).toWidth = .ok cols := columns
    simp only [toSystem, if_pos none, holds.width, width, pointers, entries, bind, Except.bind,
      pure, Except.pure, List.length_nil, List.map_nil]
  · simp only [toSystem, if_neg none, if_pos holds.usable, holds.width, columns,
      holds.checkEntries_eq, pointers, bind, Except.bind, pure, Except.pure, holds.bounds]
    rw [holds.count]

end Holds

theorem readWords_single {n : ℤ} (isWord : Capacity.IsWord n) :
    readWords (.list [.integer n]) = .ok [n] := by
  have shaped : (Datum.list [.integer n]).shape? = some [1] :=
    Datum.shape_of_forall (by decide) (by simp [Datum.shape?])
  have listed : (Datum.list [.integer n]).entries = [.integer n] := by
    simp [Datum.entries, Datum.itemEntries]
  have word : (Datum.integer n).toWord = .ok n := by
    rw [Datum.toWord, Datum.toInteger_integer, Except.bind, if_pos isWord]
  unfold readWords Datum.arrayEntries
  rw [shaped, Except.bind, Outcome.mapM_eq_ok_iff, listed]
  exact .cons word .nil

/-- A row is read as it is given. -/
theorem pushUnitData_eq (stack : RowStack) {col : ℤ} {coefficient bound : Datum}
    {value limit : Binary64} (isWord : Capacity.IsWord col) (reads : coefficient.IsScalar value)
    (readsBound : bound.IsScalar limit) :
    stack.pushUnitData (.integer col) coefficient bound =
      (stack.pushUnit col value limit, .ok ()) := by
  obtain ⟨coefficients, readCoefficients, shape, entries⟩ := reads.ofDatum_list
  obtain ⟨bounds, readBounds, boundShape, boundEntries⟩ := readsBound.ofDatum_list
  unfold pushUnitData
  rw [readWords_single isWord, readCoefficients]
  simp only [entries, shape, Datum.shape?, readBounds, boundShape, boundEntries]
  rfl

/-- The parts of a block are read in turn, and its factors only if it fits. -/
theorem pushData_eq (stack : RowStack) {cols : ℕ} (width : stack.width = .integer cols)
    (writable : Capacity.Writable cols) (given : RowBlock) :
    stack.pushData given.matrix given.bounds given.scale =
      if given.Fits cols then stack.pushBlock given.stored given.values given.factors
      else (stack, .error (.length (.rowBlock given.stored.shape given.values.length
        (.integer cols)))) := by
  obtain ⟨array, readScale, factors⟩ := Outcome.map_eq_ok_iff.1 given.readsScale
  simp only [pushData, given.readsMatrix, given.readsBounds, Except.bind]
  by_cases fits : given.Fits cols
  · simp only [checkFit_eq_ok width fits, if_pos fits, readScale, Except.map, factors]
  · simp only [checkFit_eq_error width writable fits, if_neg fits]

/-- What is built from the stack: the matrix of some rows, and their right-hand sides. -/
def Builds [Machine] (stack : RowStack) (cols : ℕ) (rows : List ConstraintRow) : Prop :=
  ∃ matrix, stack.toSystem = .ok (matrix, rows.map ConstraintRow.bound) ∧ matrix.Sums cols rows

theorem Holds.builds [Machine] {stack : RowStack} {cols : ℕ} {rows : List ConstraintRow}
    (holds : stack.Holds cols rows) (room : Capacity.HoldsLines cols) : stack.Builds cols rows :=
  ⟨_, holds.toSystem_eq room, ColumnMatrix.sums_gather holds.inside holds.lines⟩

/-- The reply to a step, when some rows have been appended: a block that does not fit is refused
and changes nothing, and neither does building a matrix. -/
def Step.Answers [Machine] (cols : ℕ) (stack : RowStack) (rows : List ConstraintRow)
    (step : Step) : Prop :=
  match step with
  | .unit _ => (step.perform stack).2 = .ok none
  | .block given =>
    if given.Fits cols then (step.perform stack).2 = .ok none
    else step.perform stack = (stack, .error (.length
      (.rowBlock given.stored.shape given.values.length (.integer cols))))
  | .build => ∃ matrix, step.perform stack = (stack, .ok (some
      (matrix, rows.map ConstraintRow.bound))) ∧ matrix.Sums cols rows

/-- One step appends its rows. -/
theorem Holds.perform [Machine] {stack : RowStack} {cols : ℕ} {rows : List ConstraintRow}
    (holds : stack.Holds cols rows) (room : Capacity.HoldsLines cols) {step : Step}
    (within : step.IsWithin cols) :
    (step.perform stack).1.Holds cols (rows ++ step.rows cols) ∧
      step.Answers cols stack rows := by
  cases step with
  | unit given =>
    have isWord : Capacity.IsWord given.col := by
      have limit := Machine.memory_lt_word
      unfold Capacity.HoldsLines at room
      unfold Step.IsWithin at within
      unfold Capacity.IsWord
      omega
    have pushed := stack.pushUnitData_eq isWord given.readsCoefficient given.readsBound
    simp only [Step.perform, Step.Answers, Step.rows, pushed]
    exact ⟨holds.pushUnit within given.value given.limit, rfl⟩
  | block given =>
    have read := stack.pushData_eq holds.width (Capacity.writable_of_holds room) given
    by_cases fits : given.Fits cols
    · obtain ⟨pushed, done, after⟩ := holds.pushBlock given fits
      rw [if_pos fits, done] at read
      simp only [Step.perform, Step.Answers, Step.rows, read, if_pos fits]
      exact ⟨after, rfl⟩
    · rw [if_neg fits] at read
      simp only [Step.perform, Step.Answers, Step.rows, read, if_neg fits, List.append_nil]
      exact ⟨holds, rfl⟩
  | build =>
    obtain ⟨matrix, built, sums⟩ := holds.builds room
    simp only [Step.perform, Step.Answers, Step.rows, List.append_nil, built]
    exact ⟨holds, matrix, rfl, sums⟩

/-- All steps append their rows, in the order of the steps. -/
theorem Holds.run [Machine] {stack : RowStack} {cols : ℕ} {rows : List ConstraintRow}
    (holds : stack.Holds cols rows) (room : Capacity.HoldsLines cols) {steps : List Step}
    (within : ∀ step ∈ steps, step.IsWithin cols) :
    (run stack steps).Holds cols (rows ++ steps.flatMap (Step.rows cols)) := by
  induction steps generalizing stack rows with
  | nil => rwa [List.flatMap_nil, List.append_nil]
  | cons step steps ih =>
    obtain ⟨next, _⟩ := holds.perform room (within step List.mem_cons_self)
    have later := ih next fun other member => within other (List.mem_cons_of_mem _ member)
    rwa [List.append_assoc, ← List.flatMap_cons] at later

end RowStack
end ConicForm
