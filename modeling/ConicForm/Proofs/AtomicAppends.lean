import ConicForm.Proofs.RowStacking

/-! Whether a block is appended as a whole or not at all. The shape of a block and the factors of
its entries are looked at before anything is appended, but the number of factors is not. A list of
factors is scaled against the right-hand sides only after the entries are there, so factors of
another number can leave entries behind, or bring right-hand sides of another number. -/
namespace ConicForm.RowStack

open ColumnMatrix ( entry?)

/-- A stack has rows behind those of another one: their entries are in these rows, and there is a
right-hand side for each. -/
structure Extends (after before : RowStack) (rows : ℕ) : Prop where
  width : after.width = before.width
  count : after.count = before.count + rows
  entries : ∃ added, after.entries = before.entries ++ added ∧
    ∀ entry ∈ added, (before.count : ℤ) ≤ entry.row ∧ entry.row < before.count + rows
  bounds : ∃ added, after.bounds = before.bounds ++ added ∧ added.length = rows

/-- After a failure the stack is the one before; otherwise it has some rows more. -/
def AllOrNothing (before : RowStack) (rows : ℕ) (outcome : RowStack × Except Fault Unit) : Prop :=
  match outcome with
  | (after, .ok ()) => after.Extends before rows
  | (after, .error _) => after = before

/-- The factors are a list, every entry finds its own among them, and their number is neither one
nor that of the right-hand sides. They go with a single right-hand side then, or fail once there are
entries that have been appended. -/
def Strayed (stored : StoredMatrix) (rows : ℕ) : Scale → Prop
  | .perRow factors =>
    (∀ entry ∈ stored.entries, entry.row < (factors.length : ℤ)) ∧ factors.length ≠ rows ∧
      factors.length ≠ 1 ∧ (rows = 1 ∨ stored.entries ≠ [])
  | _ => False

instance (stored : StoredMatrix) (rows : ℕ) (scale : Scale) :
    Decidable (Strayed stored rows scale) := by
  unfold Strayed
  split <;> infer_instance

section Scaled

variable {stack : RowStack} {stored : StoredMatrix} (inside : stored.isInside)
include inside

theorem isInside_of_mem {entry : Entry} (member : entry ∈ stored.entries) :
    entry.IsInside stored.rows stored.cols :=
  of_decide_eq_true (List.all_eq_true.1 inside entry member)

/-- Entries that have found their factors stand in the rows below those of the stack. -/
theorem below_of_scaledEntries? {scale : Scale} {scaled : List Entry}
    (given : stack.scaledEntries? stored scale = some scaled) :
    ∀ entry ∈ scaled, (stack.count : ℤ) ≤ entry.row ∧ entry.row < stack.count + stored.rows := by
  intro entry member
  obtain ⟨source, own, same⟩ := Outcome.exists_mem_of_mapM given entry member
  obtain ⟨_, _, rfl⟩ := Option.map_eq_some_iff.1 same
  have here := isInside_of_mem inside own
  unfold Entry.IsInside at here
  simp only
  omega

/-- Every entry finds its factor if the list goes as far as the rows of the entries. -/
theorem exists_scaledEntries?_iff {factors : List Binary64} :
    (∃ scaled, stack.scaledEntries? stored (.perRow factors) = some scaled) ↔
      ∀ entry ∈ stored.entries, entry.row < (factors.length : ℤ) := by
  constructor
  · rintro ⟨scaled, given⟩ entry member
    have own := Outcome.isSome_of_mapM given entry member
    rw [Option.isSome_map, Scale.factor?, isSome_getElem?] at own
    have here := (isInside_of_mem inside member).1.1
    omega
  · intro found
    refine ⟨_, VariableOrder.mapM_eq_some (g := fun entry => ⟨stack.count + entry.row, entry.col,
      factors.getD entry.row.toNat .one * entry.value⟩) fun entry member => ?_⟩
    have here := (isInside_of_mem inside member).1.1
    have below : entry.row.toNat < factors.length := by
      have := found entry member
      omega
    simp [Scale.factor?, below]

end Scaled

theorem length_of_scaledEntries? {stack : RowStack} {stored : StoredMatrix} {scale : Scale}
    {scaled : List Entry} (given : stack.scaledEntries? stored scale = some scaled) :
    scaled.length = stored.entries.length :=
  (Outcome.mapM_eq_some_iff.1 given).length_eq.symm

/-- A block is appended as a whole, with a right-hand side for each of its rows. -/
theorem extends_pushBounds {stack : RowStack} {scaled : List Entry} {rows : ℕ}
    {scaledBounds : List Binary64} (below : ∀ entry ∈ scaled,
      (stack.count : ℤ) ≤ entry.row ∧ entry.row < stack.count + rows)
    (length : scaledBounds.length = rows) :
    ({ stack with entries := stack.entries ++ scaled }.pushBounds rows [] scaledBounds).Extends
      stack rows where
  width := rfl
  count := rfl
  entries := ⟨scaled, rfl, below⟩
  bounds := ⟨scaledBounds, rfl, length⟩

section Factors

variable {factors values : List Binary64}

/-- A factor for each right-hand side, or one for all of them, leaves as many right-hand sides. -/
theorem exists_bounds? (fits : factors.length = values.length ∨ factors.length = 1) :
    ∃ scaled, (Scale.perRow factors).bounds? values = some scaled ∧
      scaled.length = values.length := by
  by_cases same : factors.length = values.length
  · exact ⟨_, if_pos same, by simp [same]⟩
  · obtain ⟨factor, rfl⟩ := List.length_eq_one_iff.1 (fits.resolve_left same)
    exact ⟨_, if_neg same, by simp⟩

/-- A single right-hand side goes with any number of factors. -/
theorem exists_bounds?_single (several : factors.length ≠ 1) (single : values.length = 1) :
    ∃ scaled, (Scale.perRow factors).bounds? values = some scaled ∧
      scaled.length = factors.length := by
  obtain ⟨bound, rfl⟩ := List.length_eq_one_iff.1 single
  refine ⟨factors.map (· * bound), ?_, List.length_map _⟩
  cases factors with
  | nil => rfl
  | cons first rest =>
    cases rest with
    | nil => exact absurd rfl several
    | cons second rest => rfl

theorem bounds?_eq_none (other : factors.length ≠ values.length) (several : factors.length ≠ 1)
    (many : values.length ≠ 1) : (Scale.perRow factors).bounds? values = none := by
  refine (if_neg other).trans ?_
  split
  next => exact absurd rfl several
  next => exact absurd rfl many
  next => rfl

end Factors

section Fitting

variable {stack : RowStack} {stored : StoredMatrix} {values factors : List Binary64}
  {scaled : List Entry} (fits : stack.checkFit stored values = .ok ())
  (given : stack.scaledEntries? stored (.perRow factors) = some scaled)
  (several : factors.length ≠ 1)
include fits given several

/-- One row has been appended then, and right-hand sides for more or for none. -/
theorem not_allOrNothing_single (single : values.length = 1) :
    ¬stack.AllOrNothing values.length (stack.pushBlock stored values (.perRow factors)) := by
  obtain ⟨scaledBounds, bounds, length⟩ := exists_bounds?_single several single
  simp only [pushBlock, fits, given, enter, bounds, AllOrNothing]
  intro extended
  obtain ⟨added, same, count⟩ := extended.bounds
  rw [← List.append_cancel_left same, length, single] at count
  exact several count

/-- The block fails then, with its entries appended if there are any. -/
theorem allOrNothing_many_iff (other : factors.length ≠ values.length)
    (many : values.length ≠ 1) :
    stack.AllOrNothing values.length (stack.pushBlock stored values (.perRow factors)) ↔
      stored.entries = [] := by
  have bounds := bounds?_eq_none other several many
  simp only [pushBlock, fits, given, enter, bounds, AllOrNothing]
  rw [← List.length_eq_zero_iff, ← length_of_scaledEntries? given, List.length_eq_zero_iff]
  constructor
  · intro same
    simpa using congrArg RowStack.entries same
  · rintro rfl
    simp

end Fitting

/-- Once its shape is found to fit, a block is appended as a whole or not at all unless its factors
stray. -/
theorem allOrNothing_pushBlock_iff {stack : RowStack} {stored : StoredMatrix}
    {values : List Binary64} {scale : Scale} (inside : stored.isInside)
    (fits : stack.checkFit stored values = .ok ())
    (flat : ∀ first last, scale ≠ .layered first last) :
    stack.AllOrNothing values.length (stack.pushBlock stored values scale) ↔
      ¬Strayed stored values.length scale := by
  have height := (checkFit_eq_ok_iff.1 fits).1
  cases scale with
  | layered first last => exact absurd rfl (flat first last)
  | uniform factor =>
    obtain ⟨scaled, given⟩ : ∃ scaled,
        stack.scaledEntries? stored (.uniform factor) = some scaled :=
      ⟨_, VariableOrder.mapM_eq_some fun _ _ => rfl⟩
    have below := below_of_scaledEntries? inside given
    rw [height] at below
    simp only [pushBlock, fits, given, enter, Scale.bounds?, AllOrNothing, Strayed,
      not_false_eq_true, iff_true]
    exact extends_pushBounds below (List.length_map _)
  | perRow factors =>
    -- entries look for factors first, and right-hand sides only once the entries are appended
    by_cases found : ∀ entry ∈ stored.entries, entry.row < (factors.length : ℤ)
    · obtain ⟨scaled, given⟩ : ∃ scaled,
          stack.scaledEntries? stored (.perRow factors) = some scaled :=
        (exists_scaledEntries?_iff inside).2 found
      by_cases own : factors.length = values.length ∨ factors.length = 1
      · obtain ⟨scaledBounds, bounds, length⟩ := exists_bounds? own
        have below := below_of_scaledEntries? inside given
        rw [height] at below
        have kept : ¬Strayed stored values.length (.perRow factors) := by
          rintro ⟨_, other, several, _⟩
          exact own.elim other several
        simp only [pushBlock, fits, given, enter, bounds, AllOrNothing, kept, not_false_eq_true,
          iff_true]
        exact extends_pushBounds below length
      · obtain ⟨other, several⟩ := not_or.1 own
        have strayed : Strayed stored values.length (.perRow factors) ↔
            values.length = 1 ∨ stored.entries ≠ [] :=
          ⟨fun strayed => strayed.2.2.2, fun left => ⟨found, other, several, left⟩⟩
        rw [strayed]
        by_cases single : values.length = 1
        · have torn := not_allOrNothing_single fits given several single
          exact ⟨fun whole => absurd whole torn, fun kept => absurd (.inl single) kept⟩
        · have whole := allOrNothing_many_iff fits given several other single
          simp [whole, single]
    · have missing : stack.scaledEntries? stored (.perRow factors) = none :=
        Option.eq_none_iff_forall_ne_some.2 fun scaled given =>
          found ((exists_scaledEntries?_iff inside).1 ⟨scaled, given⟩)
      have kept : ¬Strayed stored values.length (.perRow factors) := fun strayed => found strayed.1
      simp [pushBlock, fits, missing, AllOrNothing, kept]

/-- What is read from a block, its right-hand sides and its factors, where the shape fits. -/
def readParts (width block bounds scale : Datum) :
    Except Fault (StoredMatrix × List Binary64 × Scale) :=
  block.toBlock.bind fun stored => bounds.toEntries.bind fun values =>
    ((empty width).checkFit stored values).bind fun _ =>
      (NumberArray.ofDatum scale).map fun factors => (stored, values, Scale.ofArray factors)

theorem pushData_eq_readParts (stack : RowStack) (block bounds scale : Datum) :
    stack.pushData block bounds scale =
      match readParts stack.width block bounds scale with
      | .error fault => (stack, .error fault)
      | .ok (stored, values, scale) => stack.pushBlock stored values scale := rfl

/-- Everything is read and fits, but the factors stray. -/
def Strays (width block bounds scale : Datum) : Prop :=
  ∃ stored values factors, readParts width block bounds scale = .ok (stored, values, factors) ∧
    Strayed stored values.length factors

/-- The value is a number or a list of numbers, as far as it is an array at all. -/
def IsFlat (scale : Datum) : Prop := ∀ shape, scale.shape? = some shape → shape.length ≤ 1

/-- A flat value is read as one factor or as a list of factors. -/
theorem ofArray_ne_layered {scale : Datum} (flat : IsFlat scale) {array : NumberArray}
    (read : NumberArray.ofDatum scale = .ok array) (first last : ℕ) :
    Scale.ofArray array ≠ .layered first last := by
  have few := flat array.shape (Datum.numbers_of_ofDatum read).1
  unfold Scale.ofArray
  split
  · nofun
  · nofun
  next outer inner several shape =>
    rw [shape] at few
    exact absurd (List.eq_nil_of_length_eq_zero (by simpa using few)) several

theorem allOrNothing_pushData_iff (stack : RowStack) (block bounds : Datum) {scale : Datum}
    (flat : IsFlat scale) :
    stack.AllOrNothing bounds.numbers.length (stack.pushData block bounds scale) ↔
      ¬Strays stack.width block bounds scale := by
  rw [pushData_eq_readParts, Strays]
  cases parts : readParts stack.width block bounds scale with
  | error fault => simp [AllOrNothing]
  | ok read =>
    obtain ⟨stored, values, factors⟩ := read
    obtain ⟨own, toBlock, rest⟩ := Outcome.bind_eq_ok_iff.1 parts
    obtain ⟨limits, toEntries, rest⟩ := Outcome.bind_eq_ok_iff.1 rest
    obtain ⟨_, fits, rest⟩ := Outcome.bind_eq_ok_iff.1 rest
    obtain ⟨array, ofDatum, rest⟩ := Outcome.map_eq_ok_iff.1 rest
    cases rest
    obtain ⟨source, _, checked⟩ := Outcome.bind_eq_ok_iff.1 toBlock
    have inside : stored.isInside := by
      obtain ⟨_, checked, rfl⟩ := Outcome.map_eq_ok_iff.1 checked
      unfold StoredMatrix.checkInside at checked
      split at checked
      · assumption
      · cases checked
    have decided : stack.AllOrNothing values.length
        (stack.pushBlock stored values (Scale.ofArray array)) ↔
          ¬Strayed stored values.length (Scale.ofArray array) :=
      allOrNothing_pushBlock_iff inside fits (ofArray_ne_layered flat ofDatum)
    rw [Datum.numbers_of_toEntries toEntries]
    refine decided.trans (not_congr ?_)
    simp

/-- What is appended to a stack: a row with one coefficient, or a block of rows. -/
inductive Addition where
  | unit (col coefficient bound : Datum)
  | block (matrix bounds scale : Datum)

namespace Addition

def push (stack : RowStack) : Addition → RowStack × Except Fault Unit
  | .unit col coefficient bound => stack.pushUnitData col coefficient bound
  | .block matrix bounds scale => stack.pushData matrix bounds scale

/-- A row has one right-hand side, and the factors of a block are a number or a list. -/
def IsPlain : Addition → Prop
  | .unit _ _ bound => bound.shape? = some []
  | .block _ _ scale => IsFlat scale

def Strays (width : Datum) : Addition → Prop
  | .unit _ _ _ => False
  | .block matrix bounds scale => RowStack.Strays width matrix bounds scale

end Addition

/-- The stack after some additions, whether they fail or not. -/
def reached (stack : RowStack) (additions : List Addition) : RowStack :=
  additions.foldl (fun stack addition => (addition.push stack).1) stack

/-- The stack has kept its width, and has a right-hand side for each row. -/
structure Balanced (stack : RowStack) (width : Datum) : Prop where
  width : stack.width = width
  height : stack.bounds.length = stack.count

theorem balanced_empty (width : Datum) : (empty width).Balanced width := ⟨rfl, rfl⟩

namespace Balanced

variable {stack : RowStack} {width : Datum} (balanced : stack.Balanced width)
include balanced

theorem of_extends {after : RowStack} {rows : ℕ} (extended : after.Extends stack rows) :
    after.Balanced width := by
  obtain ⟨added, bounds, length⟩ := extended.bounds
  refine ⟨extended.width.trans balanced.width, ?_⟩
  rw [bounds, List.length_append, length, balanced.height, extended.count]

theorem of_allOrNothing {rows : ℕ} {outcome : RowStack × Except Fault Unit}
    (whole : stack.AllOrNothing rows outcome) : outcome.1.Balanced width := by
  obtain ⟨after, answer⟩ := outcome
  cases answer with
  | ok => exact balanced.of_extends whole
  | error =>
    obtain rfl : after = stack := whole
    exact balanced

theorem pushBounds_single (shape : Shape) {bounds : List Binary64} (single : bounds.length = 1) :
    (stack.pushBounds 1 shape bounds).Balanced width := by
  refine ⟨balanced.width, ?_⟩
  simp [pushBounds, single, balanced.height]

/-- A row with one right-hand side either brings it or fails without it. -/
theorem pushUnitData (col coefficient : Datum) {bound : Datum} (single : bound.shape? = some []) :
    (stack.pushUnitData col coefficient bound).1.Balanced width := by
  have kept {entries : List Entry} {even usable : Bool} :
      ({ stack with entries, even, usable } : RowStack).Balanced width :=
    ⟨balanced.width, balanced.height⟩
  unfold RowStack.pushUnitData
  cases read : NumberArray.ofDatum (.list [bound]) with
  | error fault =>
    split
    · exact kept
    · exact kept
    · dsimp only
      split <;> exact kept
  | ok bounds =>
    have one : bounds.entries.length = 1 := by
      have shape : (Datum.list [bound]).shape? = some [1] :=
        Datum.shape_of_forall (by decide) (by simpa using single)
      have same := Option.some.inj (shape.symm.trans (Datum.numbers_of_ofDatum read).1)
      rw [bounds.length_entries, ← same]
      rfl
    split
    · exact kept
    · exact kept
    · refine pushBounds_single ?_ _ one
      split <;> exact kept

/-- One addition that does not stray keeps the balance. -/
theorem push {addition : Addition} (plain : addition.IsPlain) (straight : ¬addition.Strays width) :
    (addition.push stack).1.Balanced width := by
  cases addition with
  | unit col coefficient bound => exact balanced.pushUnitData col coefficient plain
  | block matrix bounds scale =>
    have whole :=
      (allOrNothing_pushData_iff stack matrix bounds plain).2 (balanced.width ▸ straight)
    exact balanced.of_allOrNothing whole

theorem reached {additions : List Addition}
    (straight : ∀ addition ∈ additions, addition.IsPlain ∧ ¬addition.Strays width) :
    (stack.reached additions).Balanced width := by
  induction additions generalizing stack with
  | nil => exact balanced
  | cons addition additions ih =>
    obtain ⟨⟨plain, own⟩, later⟩ := List.forall_mem_cons.1 straight
    exact ih (balanced.push plain own) later

theorem rows_toSystem [Machine] {matrix : ColumnMatrix} {bounds : List Binary64}
    (built : stack.toSystem = .ok (matrix, bounds)) : matrix.rows = bounds.length := by
  unfold toSystem at built
  split at built
  · obtain ⟨_, _, built⟩ := Outcome.andThen_eq_ok_iff.1 built
    obtain ⟨_, _, built⟩ := Outcome.andThen_eq_ok_iff.1 built
    cases built
    rfl
  · split at built
    · obtain ⟨_, _, built⟩ := Outcome.andThen_eq_ok_iff.1 built
      obtain ⟨_, _, built⟩ := Outcome.andThen_eq_ok_iff.1 built
      obtain ⟨_, _, built⟩ := Outcome.andThen_eq_ok_iff.1 built
      cases built
      exact balanced.height.symm
    · cases built

end Balanced

/-- A block whose factors are one number or a list is appended as a whole or not at all, in every
state of a stack, exactly if the factors do not stray. As long as no factors do, what is built has a
right-hand side for each row. -/
theorem appends_whole_iff [Machine] (width : Datum) :
    (∀ (stack : RowStack) (matrix bounds scale : Datum), stack.width = width → IsFlat scale →
      (stack.AllOrNothing bounds.numbers.length (stack.pushData matrix bounds scale) ↔
        ¬Strays width matrix bounds scale)) ∧
    ∀ additions : List Addition,
      (∀ addition ∈ additions, addition.IsPlain ∧ ¬addition.Strays width) →
        ((empty width).reached additions).bounds.length =
          ((empty width).reached additions).count ∧
        ∀ matrix bounds, ((empty width).reached additions).toSystem = .ok (matrix, bounds) →
          matrix.rows = bounds.length := by
  refine ⟨fun stack matrix bounds scale same flat => ?_, fun additions straight => ?_⟩
  · rw [← same]
    exact allOrNothing_pushData_iff stack matrix bounds flat
  · have balanced := (balanced_empty width).reached straight
    exact ⟨balanced.height, fun _ _ => balanced.rows_toSystem⟩

/-- Three rows, of which only the first has an entry, with two factors. -/
def Addition.torn : Addition :=
  .block (.sparse ⟨.triplets, 3, 1, [⟨0, 0, .one⟩]⟩) (Datum.ofVector [.zero, .zero, .zero])
    (Datum.ofVector [.one, .one])

/-- One row without an entry, with three factors. -/
def Addition.widened : Addition :=
  .block (.sparse ⟨.triplets, 1, 1, []⟩) (Datum.ofVector [.one]) (Datum.ofVector [.one, .one, .one])

/-- A coefficient in the only column. -/
def Addition.single : Addition := .unit (.integer 0) (.real .one) (.real .zero)

/-- A block of two rows with a factor for each, which is appended. -/
def Addition.scaledPair : Addition :=
  .block (.sparse ⟨.triplets, 2, 1, [⟨1, 0, .one⟩]⟩) (Datum.ofVector [.zero, .one])
    (Datum.ofVector [.one, -.one])

theorem isFlat_ofVector (values : List Binary64) : IsFlat (Datum.ofVector values) := by
  intro shape shaped
  rw [Datum.shape_ofVector] at shaped
  cases shaped
  exact le_rfl

theorem appends_whole_scaledPair :
    ¬(empty (.integer 1)).AllOrNothing 3 (Addition.torn.push (empty (.integer 1))) ∧
    (Addition.single.push (empty (.integer 1))).1.AllOrNothing 2
      (Addition.scaledPair.push (Addition.single.push (empty (.integer 1))).1) ∧
    ∀ matrix bounds, ((empty (.integer 1)).reached [.single, .scaledPair]).toSystem =
      .ok (matrix, bounds) → matrix.rows = bounds.length := by
  obtain ⟨iff, balanced⟩ := appends_whole_iff (.integer 1)
  have torn : Addition.torn.Strays (.integer 1) := ⟨_, _, _, rfl, by decide⟩
  have straight : ¬Addition.scaledPair.Strays (.integer 1) := by
    rintro ⟨stored, values, factors, read, strayed⟩
    cases read
    revert strayed
    decide
  refine ⟨fun whole => ?_, ?_, (balanced [.single, .scaledPair] ?_).2⟩
  · exact (iff _ _ _ _ rfl (isFlat_ofVector _)).1 whole torn
  · exact (iff _ _ _ _ rfl (isFlat_ofVector _)).2 straight
  · simp only [List.forall_mem_cons]
    exact ⟨⟨rfl, not_false⟩, ⟨isFlat_ofVector _, straight⟩, by simp⟩

/-- Factors without a right-hand side for each leave an entry behind, and right-hand sides without a
row. -/
theorem exists_torn :
    (∃ after fault, Addition.torn.push (empty (.integer 1)) = (after, .error fault) ∧
      after ≠ empty (.integer 1) ∧ ∃ matrix bounds,
        (Addition.single.push after).1.toSystem = .ok (matrix, bounds) ∧
          entry? matrix 0 0 = some (.ofRat 2)) ∧
    ∃ after, Addition.widened.push (empty (.integer 1)) = (after, .ok ()) ∧ ∃ matrix bounds,
      after.toSystem = .ok (matrix, bounds) ∧ matrix.rows = 1 ∧ bounds.length = 3 := by
  refine ⟨⟨_, _, rfl, ?_, ?_⟩, _, rfl, ?_⟩
  · intro same
    exact absurd (congrArg (fun stack => stack.entries.length) same) (by decide)
  · obtain ⟨built, done, stored⟩ := @Outcome.exists_of_toOption_map _ _ _
      (Addition.single.push (Addition.torn.push (empty (.integer 1))).1).1.toSystem
      (fun built => entry? built.1 0 0) (some (.ofRat 2)) (by decide +kernel)
    exact ⟨built.1, built.2, done, stored⟩
  · obtain ⟨built, done, stored⟩ := @Outcome.exists_of_toOption_map _ _ _
      (Addition.widened.push (empty (.integer 1))).1.toSystem
      (fun built => (built.1.rows, built.2.length)) (1, 3) (by decide +kernel)
    obtain ⟨rows, length⟩ := Prod.mk.inj stored
    exact ⟨built.1, built.2, done, rows, length⟩

end ConicForm.RowStack
