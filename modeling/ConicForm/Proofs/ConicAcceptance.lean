import ConicForm.Proofs.ConicFeasibility
import ConicForm.Proofs.FormAssembly
import ConicForm.Proofs.RowCounts
import ConicForm.Proofs.WrittenCones

/-! Which conic problems are accepted. Everything that is wrong with a problem is found in a fixed
order, so the first check that fails decides the class of the fault, and a problem that passes them
all has a standard form. -/
namespace ConicForm

open Outcome (Decides Refused OnlyRefused Unread)

namespace Datum

/-- A matrix as it may be given: none at all, an array of two extents, or stored entries. -/
inductive IsMatrix : Datum → Prop
  | absent : IsMatrix .absent
  | dense {d : Datum} {array : NumberArray} {rows cols : ℕ}
      (read : NumberArray.ofDatum d = .ok array) (shape : array.shape = [rows, cols]) : IsMatrix d
  | sparse {stored : StoredMatrix} (inside : stored.isInside) : IsMatrix (.sparse stored)

/-- Something that has no entries by its shape. A sparse matrix is never that, even if it stores
none. -/
def isBare : Datum → Bool
  | .absent => true
  | d => d.shape?.any fun shape => shape.count == 0

def extents? : Datum → Option Shape
  | .sparse stored => some stored.shape
  | d => d.shape?

/-- A matrix has the shape that is asked for. Anything bare will do for no rows. -/
def Fits (d : Datum) (rows cols : ℕ) : Prop :=
  if d.isBare then rows = 0 else d.extents? = some [rows, cols]

instance (d : Datum) (rows cols : ℕ) : Decidable (d.Fits rows cols) :=
  inferInstanceAs (Decidable (ite _ _ _))

theorem fits_sparse_iff {stored : StoredMatrix} {rows cols : ℕ} :
    (sparse stored).Fits rows cols ↔ stored.rows = rows ∧ stored.cols = cols := by
  simp [Fits, isBare, extents?, shape?, Shape.count, StoredMatrix.shape]

theorem emptyRows_integer (rows cols : ℕ) : emptyRows (.integer rows) (.integer cols) =
    if rows = 0 then .ok ⟨cols, []⟩
    else .error (.length (.matrixEmpty (.integer rows) (.integer cols))) := by
  by_cases none : rows = 0
  · simp [emptyRows, compare_integer, Except.bind, none, exactInteger?]
  · simp [emptyRows, compare_integer, Except.bind, none, compared_integer]

section Shaped

variable {d : Datum} {height width rows cols : ℕ} (shaped : d.shape? = some [height, width])
include shaped

theorem fits_iff_of_shape : d.Fits rows cols ↔
    if height * width = 0 then rows = 0 else height = rows ∧ width = cols := by
  cases d with
  | list items => simp [Fits, isBare, extents?, shaped, Shape.count]
  | zeros shape => simp [Fits, isBare, extents?, shaped, Shape.count]
  | _ => simp [shape?] at shaped

theorem isEmpty_of_shape : d.isEmpty = .ok (height * width == 0) := by
  cases d with
  | list items => simp [isEmpty, shaped, Shape.count]
  | zeros shape => simp [isEmpty, shaped, Shape.count]
  | _ => simp [shape?] at shaped

end Shaped

/-- Stored entries that there is room to gather are read if the shape is right. -/
theorem toRows_gathered [Machine] {stored : StoredMatrix} (inside : stored.isInside)
    (room : stored.HasRoom) (rows cols : ℕ) :
    if (sparse stored).Fits rows cols then
      ∃ matrix, (sparse stored).toRows (.integer rows) (.integer cols) = .ok matrix ∧
        matrix.isInside
    else Refused .length ((sparse stored).toRows (.integer rows) (.integer cols)) := by
  rw [toRows_sparse, (StoredMatrix.checkByRow_eq_ok_iff inside).2 room, expectShape_integer]
  simp only [fits_sparse_iff, Int.ofNat_inj, eq_comm (a := rows), eq_comm (a := cols)]
  by_cases fits : stored.rows = rows ∧ stored.cols = cols
  · rw [if_pos fits, if_pos fits]
    exact ⟨_, rfl, RowMatrix.isInside_ofStored inside⟩
  · rw [if_neg fits, if_neg fits]
    exact ⟨_, rfl, rfl⟩

/-- A matrix that fits is read, and one that does not is refused for its shape. -/
theorem toRows_fits [Machine] {d : Datum} (given : d.IsMatrix) (room : d.HasRoom) (rows cols : ℕ) :
    if d.Fits rows cols then
      ∃ matrix, d.toRows (.integer rows) (.integer cols) = .ok matrix ∧ matrix.isInside
    else Refused .length (d.toRows (.integer rows) (.integer cols)) := by
  have empty : if rows = 0 then
      ∃ matrix, emptyRows (.integer rows) (.integer cols) = .ok matrix ∧ matrix.isInside
      else Refused .length (emptyRows (.integer rows) (.integer cols)) := by
    rw [emptyRows_integer]
    by_cases none : rows = 0
    · rw [if_pos none, if_pos none]
      exact ⟨_, rfl, rfl⟩
    · rw [if_neg none, if_neg none]
      exact ⟨_, rfl, rfl⟩
  cases given with
  | absent => exact empty
  | sparse inside => exact toRows_gathered inside room rows cols
  | @dense d array height width read shape =>
    have shaped : d.shape? = some [height, width] := by
      rw [(numbers_of_ofDatum read).1, shape]
    have dense : ∀ stored, d ≠ .sparse stored := by
      rintro stored rfl
      simp [shape?] at shaped
    simp only [toRows_dense dense, isEmpty_of_shape shaped, fits_iff_of_shape shaped, Except.bind,
      beq_iff_eq]
    by_cases none : height * width = 0
    · simp only [if_pos none]
      exact empty
    · simp only [if_neg none, read, denseRows, shape, Shape.matrix?, expectShape_integer,
        Int.ofNat_inj, eq_comm (a := rows), eq_comm (a := cols)]
      by_cases fits : height = rows ∧ width = cols
      · rw [if_pos fits, if_pos fits]
        exact ⟨_, rfl, RowMatrix.isInside_ofDense _ _ _⟩
      · rw [if_neg fits, if_neg fits]
        exact ⟨_, rfl, rfl⟩

theorem toRows_of_not_hasRoom [Machine] {d : Datum} (given : d.IsMatrix) (full : ¬d.HasRoom)
    (rows cols : Datum) : Unread (d.toRows rows cols) := by
  cases given with
  | absent => exact absurd trivial full
  | @dense _ _ height width read shape =>
    have shaped := (numbers_of_ofDatum read).1
    refine absurd ?_ full
    cases d with
    | sparse stored => simp [shape?, shape] at shaped
    | _ => trivial
  | @sparse stored inside =>
    cases gathered : stored.checkByRow with
    | ok => exact absurd ((StoredMatrix.checkByRow_eq_ok_iff inside).1 gathered) full
    | error cause =>
      rw [toRows_sparse, gathered]
      exact ⟨cause, rfl, StoredMatrix.checkByRow_eq_error gathered⟩

end Datum

namespace VariableOrder

/-- Indices of which each is below a bound, and none is there twice. -/
def Apart (count : ℕ) (indices : List ℤ) : Prop :=
  (∀ index ∈ indices, 0 ≤ index ∧ index < (count : ℤ)) ∧ indices.Nodup

instance (count : ℕ) (indices : List ℤ) : Decidable (Apart count indices) :=
  inferInstanceAs (Decidable (_ ∧ _))

/-- Indices that are all numbers below a bound, each of them once. -/
def Complete (count : ℕ) (indices : List ℤ) : Prop :=
  indices.Perm ((List.range count).map fun i : ℕ => (i : ℤ))

instance (count : ℕ) (indices : List ℤ) : Decidable (Complete count indices) :=
  inferInstanceAs (Decidable (List.Perm _ _))

theorem map_cast_toNat {indices : List ℤ} (lower : ∀ index ∈ indices, 0 ≤ index) :
    (indices.map Int.toNat).map (fun i : ℕ => (i : ℤ)) = indices := by
  rw [List.map_map]
  exact (List.map_congr_left fun index member => Int.toNat_of_nonneg (lower index member)).trans
    (List.map_id _)

theorem exists_assign_iff {owner : Indexed} {count : ℕ} {indices : List ℤ} :
    (∃ seen, assign owner count [] indices = .ok seen) ↔ Apart count indices := by
  simp only [assign_eq_ok_iff List.nodup_nil, List.nil_append, exists_and_left, exists_eq,
    and_true, Apart]
  refine and_congr_right fun inside => ?_
  have same := map_cast_toNat fun index member => (inside index member).1
  constructor
  · intro once
    rw [← same]
    exact once.map Nat.cast_injective
  · intro once
    rw [← same] at once
    exact once.of_map _

theorem exists_arrange_iff {entries : List ConeEntry} {count : ℕ}
    (segments : ∀ entry ∈ entries, hasSegment entry.1) :
    (∃ reverse, arrange entries count = .ok reverse) ↔ Complete count (listed entries) := by
  simp only [arrange_eq_ok_iff, exists_and_left, exists_eq, and_true, Complete]
  constructor
  · rintro ⟨_, lower, perm⟩
    have moved := perm.map fun i : ℕ => (i : ℤ)
    rwa [map_cast_toNat lower] at moved
  · intro perm
    have lower : ∀ index ∈ listed entries, 0 ≤ index := by
      intro index member
      obtain ⟨i, _, rfl⟩ := List.mem_map.1 (perm.mem_iff.1 member)
      exact Int.natCast_nonneg i
    have moved := perm.map Int.toNat
    simp only [List.map_map, Function.comp_def, Int.toNat_natCast, List.map_id'] at moved
    exact ⟨segments, lower, moved⟩

end VariableOrder

namespace ConeList.WrittenEntry

instance (entry : WrittenEntry) : Decidable entry.Supported :=
  inferInstanceAs (Decidable (_ = true))

instance (entry : WrittenEntry) : Decidable entry.Indexed :=
  inferInstanceAs (Decidable (_ ∧ _))

end ConeList.WrittenEntry

namespace ConeList

/-- The class of the fault that two lists of cones are refused for, if any. -/
def verdict (rows columns : List WrittenEntry) : Option Refusal :=
  if ¬∀ entry ∈ rows ++ columns, entry.Supported then some .cone
  else if ¬∀ entry ∈ rows, entry.kind? ≠ some .free then some .constraint
  else if ¬∀ entry ∈ rows ++ columns, entry.Indexed then some .index
  else none

section Written

variable {rows columns : List WrittenEntry} (typed : ∀ entry ∈ rows ++ columns, entry.Typed)
include typed

theorem supported_of_readBoth [Machine] {cones : List ConeEntry × List ConeEntry}
    (read : readBoth (ofWritten rows) (ofWritten columns) = .ok cones) :
    (∀ entry ∈ rows ++ columns, entry.Supported) ∧
      cones = (rows.map WrittenEntry.read, columns.map WrittenEntry.read) := by
  rw [readBoth_eq] at read
  obtain ⟨kinds, supported, rest⟩ := Outcome.andThen_eq_ok_iff.1 read
  obtain ⟨all, rfl⟩ := readSupported_eq_ok_iff.1 supported
  obtain ⟨_, _, entries⟩ := Outcome.andThen_eq_ok_iff.1 rest
  exact ⟨all, ((readEntries_eq_ok_iff typed all).1 entries).2⟩

/-- Kinds are looked at before the rows of free cones, and these before any index. -/
theorem decides_readBoth [Machine] (writable : ∀ entry ∈ rows ++ columns, entry.Writable) :
    Decides (verdict rows columns) (readBoth (ofWritten rows) (ofWritten columns)) := by
  rw [readBoth_eq, verdict]
  refine Decides.bind (onlyRefused_readSupported typed writable)
    (by simp [readSupported_eq_ok_iff]) fun kinds read => ?_
  obtain ⟨supported, rfl⟩ := readSupported_eq_ok_iff.1 read
  have constrained := checkConstrained_kinded_iff fun entry member =>
    supported entry (List.mem_append_left _ member)
  have rowsWritable := fun entry member => writable entry (List.mem_append_left columns member)
  refine Decides.bind (onlyRefused_checkConstrained rowsWritable)
    (by simp [constrained]) fun _ _ => ?_
  have indexed {entries : List ConeEntry × List ConeEntry} : _ ↔ _ :=
    @readEntries_eq_ok_iff rows columns typed _ entries supported
  exact (onlyRefused_readEntries writable).decides (by simp [indexed])

end Written
end ConeList

namespace ConicProblem

open ConeList (WrittenEntry)

/-- The parts of a problem are of the types that are asked for, and its cones are written as
entries. -/
structure Input.Written (input : Input) (rows columns : List WrittenEntry) : Prop where
  sense : ∃ way, Sense.ofDatum input.sense = .ok way
  objective : ∃ values, input.objective.toEntries = .ok values
  bounds : ∃ values, input.bounds.toEntries = .ok values
  matrix : input.matrix.IsMatrix
  rowCones : input.rowCones = ConeList.ofWritten rows
  variableCones : input.variableCones = ConeList.ofWritten columns
  typed : ∀ entry ∈ rows ++ columns, entry.Typed

/-- The class of the fault that a problem is refused for, if any. -/
def Input.verdict (input : Input) (rows columns : List WrittenEntry) : Option Refusal :=
  let rowCount := input.bounds.numbers.length
  let variableCount := input.objective.numbers.length
  (ConeList.verdict rows columns).or
    (if ¬input.matrix.Fits rowCount variableCount then some .length
    else if ¬VariableOrder.Apart rowCount (rows.flatMap WrittenEntry.integers) then some .index
    else if ¬VariableOrder.Complete variableCount (columns.flatMap WrittenEntry.integers) then
      some .index
    else none)

/-- Constraint rows that are listed once, and variables that are all arranged, make a form of a
matrix that has all of its entries inside. -/
theorem exists_standardForm {problem : ConicProblem} {seen reverse : List ℕ}
    (assigned : VariableOrder.assign .rows problem.bounds.length []
      (VariableOrder.listed problem.rowCones) = .ok seen)
    (arranged : VariableOrder.arrange problem.variableCones problem.objective.length = .ok reverse)
    (inside : problem.matrix.isInside) : ∃ form, problem.standardForm = .ok form := by
  have covered := problem.length_inequalities (VariableOrder.place reverse)
  have sized := problem.size_ofReverse_eq reverse
  rw [standardForm_of_arranged assigned arranged inside]
  exact StandardForm.exists_ofRows covered sized _ _

section Written

variable {input : Input} {rows columns : List WrittenEntry}

/-- With everything else in order, the cones, the matrix and the indices are looked at in turn. -/
theorem Input.Written.load_eq [Machine] (written : input.Written rows columns) : ∃ way : Sense,
    load input = ConeList.readBoth (ConeList.ofWritten rows) (ConeList.ofWritten columns) >>=
      fun cones => input.matrix.toRows (.integer input.bounds.numbers.length)
        (.integer input.objective.numbers.length) >>=
        fun matrix => standardForm
          ⟨input.objective.numbers, matrix, input.bounds.numbers, cones.1, cones.2, way⟩ := by
  obtain ⟨way, sense⟩ := written.sense
  obtain ⟨objective, readObjective⟩ := written.objective
  obtain ⟨bounds, readBounds⟩ := written.bounds
  have chained : load input = read input >>= standardForm := rfl
  refine ⟨way, ?_⟩
  rw [chained, read, sense, written.rowCones, written.variableCones, readObjective, readBounds,
    Datum.numbers_of_toEntries readObjective, Datum.numbers_of_toEntries readBounds]
  have ok {α β : Type} (value : α) (next : α → Except Fault β) :
      (Except.ok value >>= next) = next value := rfl
  simp only [bind_assoc, ok]
  rfl

/-- With the kinds supported and the entries of the matrix inside, what is left is to list rows at
most once and variables exactly once. -/
theorem decides_standardForm (problem : ConicProblem)
    (supported : ∀ entry ∈ problem.variableCones, entry.1.isSupported)
    (writable : VariableOrder.WritableIndices (problem.rowCones ++ problem.variableCones))
    (inside : problem.matrix.isInside) :
    Decides
      (if ¬VariableOrder.Apart problem.bounds.length (VariableOrder.listed problem.rowCones) then
        some .index
      else if ¬VariableOrder.Complete problem.objective.length
        (VariableOrder.listed problem.variableCones) then some .index
      else none) problem.standardForm := by
  have segments : ∀ entry ∈ problem.variableCones, VariableOrder.hasSegment entry.1 := by
    intro entry member
    have own := supported entry member
    cases kind : entry.1 <;> simp_all [Cone.isSupported, VariableOrder.hasSegment]
  rw [VariableOrder.WritableIndices, VariableOrder.listed, List.flatMap_append] at writable
  obtain ⟨ofRows, ofVariables⟩ := List.forall_mem_append.1 writable
  refine Decides.bind (VariableOrder.onlyRefused_assign _ _ _ ofRows)
    VariableOrder.exists_assign_iff fun seen assigned => ?_
  refine Decides.bind (VariableOrder.onlyRefused_arrange segments ofVariables _)
    (VariableOrder.exists_arrange_iff segments) fun reverse arranged => ?_
  obtain ⟨form, built⟩ := exists_standardForm assigned arranged inside
  refine ⟨form, ?_⟩
  simp only [standardForm, assigned, arranged, bind, Except.bind] at built
  exact built

theorem writableIndices_read (written : ∀ entry ∈ rows ++ columns, entry.Writable) :
    VariableOrder.WritableIndices
      (rows.map WrittenEntry.read ++ columns.map WrittenEntry.read) := by
  intro index member
  rw [← List.map_append, VariableOrder.listed, List.flatMap_map] at member
  obtain ⟨entry, own, among⟩ := List.mem_flatMap.1 member
  obtain ⟨given, stored, equal⟩ := List.mem_filterMap.1 among
  exact Datum.writable_of_integral ((written entry own).indices given stored) equal

theorem decides_load [Machine] (written : input.Written rows columns)
    (writable : ∀ entry ∈ rows ++ columns, entry.Writable) (room : input.matrix.HasRoom) :
    Decides (input.verdict rows columns) (load input) := by
  obtain ⟨way, chain⟩ := written.load_eq
  rw [chain]
  refine (ConeList.decides_readBoth written.typed writable).or fun cones read => ?_
  obtain ⟨supported, rfl⟩ := ConeList.supported_of_readBoth written.typed read
  have fits := Datum.toRows_fits written.matrix room input.bounds.numbers.length
    input.objective.numbers.length
  by_cases whole : input.matrix.Fits input.bounds.numbers.length input.objective.numbers.length
  · rw [if_pos whole] at fits
    obtain ⟨matrix, given, inside⟩ := fits
    have kinds : ∀ entry ∈ columns.map WrittenEntry.read, entry.1.isSupported :=
      List.forall_mem_map.2 fun entry member =>
        (ConeList.supported_iff.1 (supported entry (List.mem_append_right _ member))).2
    have listed (entries : List WrittenEntry) :
        VariableOrder.listed (entries.map WrittenEntry.read) =
          entries.flatMap WrittenEntry.integers := List.flatMap_map ..
    rw [if_neg (not_not.2 whole), given, ← listed, ← listed]
    exact decides_standardForm ⟨_, matrix, _, rows.map WrittenEntry.read, _, way⟩ kinds
      (writableIndices_read writable) inside
  · rw [if_neg whole] at fits
    rw [if_pos whole]
    exact fits.bind _

/-- A matrix whose rows there is no room for is never compared with the lengths. -/
theorem load_of_full [Machine] (written : input.Written rows columns)
    (writable : ∀ entry ∈ rows ++ columns, entry.Writable) (full : ¬input.matrix.HasRoom) :
    match ConeList.verdict rows columns with
    | some refusal => Refused refusal (load input)
    | none => Unread (load input) := by
  obtain ⟨way, chain⟩ := written.load_eq
  have decided := ConeList.decides_readBoth written.typed writable
  rw [chain]
  cases verdict : ConeList.verdict rows columns with
  | some refusal =>
    rw [verdict] at decided
    exact Refused.bind decided _
  | none =>
    rw [verdict] at decided
    obtain ⟨cones, read⟩ := decided
    rw [read]
    exact (Datum.toRows_of_not_hasRoom written.matrix full _ _).bind _

/-- A problem is accepted if there is nothing to refuse it for. Otherwise the class of the fault is
that of the first check that it fails. If there is no room for the rows of a matrix, it is not read
where its shape would be checked. -/
theorem load_verdict [Machine] (written : input.Written rows columns)
    (writable : ∀ entry ∈ rows ++ columns, entry.Writable) :
    (input.matrix.HasRoom → Decides (input.verdict rows columns) (load input)) ∧
    (¬input.matrix.HasRoom →
      match ConeList.verdict rows columns with
      | some refusal => Refused refusal (load input)
      | none => Unread (load input)) :=
  ⟨decides_load written writable, load_of_full written writable⟩

end Written

/-- The problem whose variables change places, with one row in a cone. -/
def Input.swappedUnder (row : WrittenEntry) : Input :=
  { Input.swapped with rowCones := ConeList.ofWritten [row] }

def swappedColumns : List WrittenEntry :=
  [⟨.cone .free, [.integer 0]⟩, ⟨.cone .nonneg, [.integer 1]⟩]

/-- A row that is negated. -/
def nonposRow : WrittenEntry := ⟨.cone .nonpos, [.integer 1]⟩

/-- A row in a cone that has no standard form, at an index that is not an integer. -/
def semidefiniteRow : WrittenEntry := ⟨.text "psd", [.real (.ofRat (1 / 2))]⟩

theorem written_swappedUnder {row : WrittenEntry} (typed : row.Typed) :
    (Input.swappedUnder row).Written [row] swappedColumns := by
  obtain ⟨objective, readObjective, _⟩ : ∃ values, Input.swapped.objective.toEntries = .ok values ∧
      values.length = 2 := Outcome.exists_of_toOption_map (by decide +kernel)
  obtain ⟨bounds, readBounds, _⟩ : ∃ values, Input.swapped.bounds.toEntries = .ok values ∧
      values.length = 2 := Outcome.exists_of_toOption_map (by decide +kernel)
  obtain ⟨array, readMatrix, shape⟩ : ∃ array,
      NumberArray.ofDatum Input.swapped.matrix = .ok array ∧ array.shape = [2, 2] :=
    Outcome.exists_of_toOption_map (by decide +kernel)
  refine ⟨⟨.maximize, rfl⟩, ⟨objective, readObjective⟩, ⟨bounds, readBounds⟩,
    .dense readMatrix shape, rfl, rfl, ?_⟩
  have number (n : ℤ) : ∀ index ∈ [Datum.integer n], index.IsNumber :=
    List.forall_mem_singleton.2 trivial
  simp only [List.singleton_append, swappedColumns, List.forall_mem_cons]
  exact ⟨typed, ⟨trivial, number 0⟩, ⟨trivial, number 1⟩, by simp⟩

theorem writable_swapped {row : WrittenEntry} (writable : row.Writable) :
    ∀ entry ∈ [row] ++ swappedColumns, entry.Writable := by
  have short : Datum.isWritable (.integer 0) ∧ Datum.isWritable (.integer 1) := by decide +kernel
  simp only [List.singleton_append, swappedColumns, List.forall_mem_cons]
  exact ⟨writable, ⟨rfl, by simpa using short.1⟩, ⟨rfl, by simpa using short.2⟩, by simp⟩

/-- The cone of a row is refused even though its index is not an integer either. -/
theorem load_verdict_swapped : (∃ form, load .swapped = .ok form) ∧
    Refused .cone (load (.swappedUnder semidefiniteRow)) := by
  have nonpos : nonposRow.Typed := ⟨trivial, List.forall_mem_singleton.2 trivial⟩
  have semidefinite : semidefiniteRow.Typed := ⟨trivial, List.forall_mem_singleton.2 trivial⟩
  have accepted := (load_verdict (written_swappedUnder nonpos)
    (writable_swapped ⟨rfl, List.forall_mem_singleton.2 (by decide +kernel)⟩)).1 trivial
  have refused := (load_verdict (written_swappedUnder semidefinite)
    (writable_swapped ⟨rfl, List.forall_mem_singleton.2 rfl⟩)).1 trivial
  rw [show (Input.swappedUnder nonposRow).verdict _ _ = none by decide +kernel] at accepted
  rw [show (Input.swappedUnder semidefiniteRow).verdict _ _ = some .cone by decide +kernel]
    at refused
  exact ⟨accepted, refused⟩

/-- A matrix with too many rows to be gathered. -/
def tallMatrix : StoredMatrix := ⟨.triplets, 2 ^ 61, 0, []⟩

/-- A free variable by itself. -/
def Input.lone (matrix : Datum) (index : ℤ) : Input where
  objective := .list [.integer 0]
  matrix := matrix
  bounds := .list []
  rowCones := ConeList.ofWritten []
  variableCones := ConeList.ofWritten [⟨.cone .free, [.integer index]⟩]
  sense := .sense .minimize

theorem written_lone {matrix : Datum} (given : matrix.IsMatrix) (index : ℤ) :
    (Input.lone matrix index).Written [] [⟨.cone .free, [.integer index]⟩] := by
  have objective : ∃ values, (Datum.list [.integer 0]).toEntries = .ok values :=
    Outcome.exists_of_isSome (by decide +kernel)
  have bounds : ∃ values, (Datum.list []).toEntries = .ok values :=
    Outcome.exists_of_isSome (by decide +kernel)
  exact ⟨⟨.minimize, rfl⟩, objective, bounds, given, rfl, rfl,
    List.forall_mem_singleton.2 ⟨trivial, List.forall_mem_singleton.2 trivial⟩⟩

theorem load_lone_overlong [Machine] {index : ℤ} (outside : ¬(0 ≤ index ∧ index < ((1 : ℕ) : ℤ)))
    (overlong : ¬Capacity.Writable index) :
    load (.lone .absent index) = .error (.data .malformed) := by
  obtain ⟨way, chain⟩ := (written_lone .absent index).load_eq
  have objective : (Input.lone .absent index).objective.numbers = [.zero] := by
    show (Datum.list [.integer 0]).numbers = _
    decide +kernel
  have bounds : (Input.lone .absent index).bounds.numbers = [] := by
    show (Datum.list []).numbers = _
    decide +kernel
  have arranged : VariableOrder.arrange [(.free, [index])] 1 = .error (.data .malformed) := by
    rw [VariableOrder.arrange, VariableOrder.assignAll,
      VariableOrder.assign_overlong outside overlong]
    rfl
  have cones : ConeList.readBoth (ConeList.ofWritten [])
      (ConeList.ofWritten [⟨.cone .free, [.integer index]⟩]) = .ok ([], [(.free, [index])]) := rfl
  have form : standardForm ⟨[.zero], ⟨1, []⟩, [], [], [(.free, [index])], way⟩ =
      .error (.data .malformed) := by
    show VariableOrder.arrange [(.free, [index])] 1 >>= _ = _
    rw [arranged]
    rfl
  rw [chain, cones, objective, bounds]
  exact form

/-- Neither a matrix with too many rows to be gathered nor an index with too many digits is refused
for what is wrong with it. -/
theorem verdict_missed :
    (∃ (input : Input) (rows columns : List WrittenEntry), input.Written rows columns ∧
      input.verdict rows columns = some .length ∧ Unread (load input)) ∧
    ∃ (input : Input) (rows columns : List WrittenEntry), input.Written rows columns ∧
      input.verdict rows columns = some .index ∧ Unread (load input) := by
  constructor
  · have sparse : (Datum.sparse tallMatrix).IsMatrix := .sparse rfl
    have written := written_lone sparse 0
    have writable : WrittenEntry.Writable ⟨.cone .free, [.integer 0]⟩ :=
      ⟨rfl, List.forall_mem_singleton.2 (by decide +kernel)⟩
    have full : ¬(Input.lone (.sparse tallMatrix) 0).matrix.HasRoom := by
      rintro (layout | room)
      · cases layout
      · exact absurd room (by decide)
    have unread := load_of_full written (List.forall_mem_singleton.2 writable) full
    rw [show ConeList.verdict _ _ = none by decide +kernel] at unread
    exact ⟨_, _, _, written, by decide +kernel, unread⟩
  · refine ⟨_, _, _, written_lone .absent (10 ^ 4300), by decide +kernel, .malformed, ?_, .inl rfl⟩
    exact load_lone_overlong (by decide +kernel) (by decide +kernel)

end ConicProblem
end ConicForm
