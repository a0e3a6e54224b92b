import ConicForm.Proofs.Refusals

/-! Cone lists as a caller writes them: a designation of a kind with a list of indices for each
entry. What is wrong with the kinds is found before anything that is wrong with the indices. -/
namespace ConicForm

open Outcome (OnlyRefused)

/-- A real number has few digits. -/
theorem Binary64.writable_of_integer {value : Binary64} {n : ℤ}
    (equal : value.integer? = some n) : Capacity.Writable n := by
  cases value with
  | nan | infinity => cases equal
  | finite negative magnitude onGrid =>
    obtain ⟨integral, own⟩ := Option.ite_none_right_eq_some.1 equal
    have same : n.natAbs = magnitude.num.natAbs := by
      cases negative <;> simp [← Option.some.inj own]
    have below : magnitude < ((1 <<< 1024 : ℕ) : ℚ) := onGrid.2.1
    rw [← (Rat.den_eq_one_iff magnitude).1 integral] at below
    have lower : 0 ≤ magnitude.num := Rat.num_nonneg.2 onGrid.1
    have bound : magnitude.num < ((1 <<< 1024 : ℕ) : ℤ) := by exact_mod_cast below
    have few : 1024 ≤ Capacity.digits := by
      unfold Capacity.digits
      decide
    have short : n.natAbs < 1 <<< 1024 := by omega
    exact Capacity.writable_of_bits few short

namespace Datum

/-- A member, a number or a text, any of which can designate a kind of cone. -/
def IsDesignation : Datum → Prop
  | .cone _ | .integer _ | .text _ => True
  | _ => False

def IsNumber : Datum → Prop
  | .integer _ | .real _ => True
  | _ => False

/-- The integer that a number is equal to. -/
def integral? : Datum → Option ℤ
  | .integer n => some n
  | .real value => value.integer?
  | _ => none

theorem toIndex_eq_ok_iff {d : Datum} (number : d.IsNumber) {n : ℤ} :
    d.toIndex = .ok n ↔ d.integral? = some n := by
  cases d with
  | integer value => simp [toIndex, exactInteger?, integral?]
  | real value =>
    cases same : value.integer? <;>
      simp [toIndex, exactInteger?, approximate?, integral?, same]
  | _ => cases number

/-- What can be written as an index stays so when it is read. A real number is never too long. -/
theorem writable_of_integral {d : Datum} (writable : d.isWritable) {n : ℤ}
    (equal : d.integral? = some n) : Capacity.Writable n := by
  cases d with
  | integer =>
    obtain rfl := Option.some.inj equal
    exact isWritable_integer.1 writable
  | real value => exact Binary64.writable_of_integer equal
  | _ => cases equal

theorem onlyRefused_designation {d : Datum} (designation : d.IsDesignation)
    (writable : d.isWritable) : OnlyRefused .cone (Cone.ofDatum d) := by
  have elim (found : Option Cone) : OnlyRefused .cone
      (found.elim (.error (Fault.cone (.undesignated d)).raised) Except.ok) := by
    cases found with
    | none => exact Outcome.onlyRefused_raised writable rfl
    | some kind => exact Outcome.onlyRefused_ok _
  cases d with
  | cone kind => exact Outcome.onlyRefused_ok _
  | integer n => exact elim _
  | text name => exact elim _
  | _ => cases designation

end Datum

namespace ConeList

structure WrittenEntry where
  designation : Datum
  indices : List Datum

namespace WrittenEntry

def toDatum (entry : WrittenEntry) : Datum := .list [entry.designation, .list entry.indices]

/-- The kind that is designated. -/
def kind? (entry : WrittenEntry) : Option Cone := (Cone.ofDatum entry.designation).toOption

/-- The integers among the indices. -/
def integers (entry : WrittenEntry) : List ℤ := entry.indices.filterMap Datum.integral?

/-- No integer in an entry has too many digits to be written. -/
structure Writable (entry : WrittenEntry) : Prop where
  designation : entry.designation.isWritable
  indices : ∀ index ∈ entry.indices, index.isWritable

structure Typed (entry : WrittenEntry) : Prop where
  designation : entry.designation.IsDesignation
  indices : ∀ index ∈ entry.indices, index.IsNumber

/-- The kind is read and has a standard form. -/
def Supported (entry : WrittenEntry) : Prop := entry.kind?.any Cone.isSupported

/-- All indices are integers, and a second-order cone has some. -/
def Indexed (entry : WrittenEntry) : Prop :=
  (∀ index ∈ entry.indices, index.integral?.isSome) ∧
    (entry.kind? = some .secondOrder → entry.indices ≠ [])

end WrittenEntry

/-- Entries as a list that a caller gives. -/
def ofWritten (entries : List WrittenEntry) : Datum := .list (entries.map WrittenEntry.toDatum)

namespace WrittenEntry

/-- The entry with its kind read. -/
def kinded (entry : WrittenEntry) : Cone × Datum :=
  (entry.kind?.getD .free, .list entry.indices)

/-- The entry with its kind and its indices read. -/
def read (entry : WrittenEntry) : ConeEntry := (entry.kind?.getD .free, entry.integers)

theorem readKind_toDatum_eq_ok_iff [Machine] {entry : WrittenEntry} {kind : Cone × Datum} :
    readKind entry.toDatum = .ok kind ↔ entry.kind?.isSome ∧ kind = entry.kinded := by
  have parts : readKind entry.toDatum =
      (Cone.ofDatum entry.designation).map fun kind => (kind, .list entry.indices) := rfl
  rw [parts, kinded, kind?]
  cases Cone.ofDatum entry.designation with
  | error fault => simp [Except.map, Except.toOption]
  | ok kind => simp [Except.map, Except.toOption, eq_comm]

theorem readIndices_kinded_eq_ok_iff [Machine] {entry : WrittenEntry} (typed : entry.Typed)
    {result : ConeEntry} : readIndices entry.kinded = .ok result ↔
      (∀ index ∈ entry.indices, index.integral?.isSome) ∧ result = entry.read := by
  have each : ∀ index ∈ entry.indices, ∀ n, index.toIndex = .ok n ↔
      index.integral?.isSome ∧ n = index.integral?.getD 0 := by
    intro index member n
    rw [Datum.toIndex_eq_ok_iff (typed.indices index member)]
    cases index.integral? <;> simp [eq_comm]
  have integers (all : ∀ index ∈ entry.indices, index.integral?.isSome) :
      entry.indices.map (fun index => index.integral?.getD 0) = entry.integers := by
    rw [WrittenEntry.integers, ← List.filterMap_eq_map]
    refine List.filterMap_congr fun index member => ?_
    obtain ⟨n, same⟩ := Option.isSome_iff_exists.1 (all index member)
    simp [same]
  have listed : readIndices entry.kinded = (entry.indices.mapM Datum.toIndex).map fun indices =>
      (entry.kind?.getD .free, indices) := rfl
  rw [listed, Outcome.map_eq_ok_iff]
  simp only [Outcome.mapM_eq_ok_iff_forall each]
  constructor
  · rintro ⟨_, ⟨all, rfl⟩, rfl⟩
    rw [integers all]
    exact ⟨all, rfl⟩
  · rintro ⟨all, rfl⟩
    exact ⟨_, ⟨all, rfl⟩, by rw [integers all, read]⟩

end WrittenEntry

section Typed

variable {rows columns : List WrittenEntry}

theorem readKinds_eq_ok_iff [Machine] {entries : List WrittenEntry} {kinds : List (Cone × Datum)} :
    readKinds (ofWritten entries) = .ok kinds ↔
      (∀ entry ∈ entries, entry.kind?.isSome) ∧ kinds = entries.map WrittenEntry.kinded := by
  have listed : readKinds (ofWritten entries) =
      (entries.map WrittenEntry.toDatum).mapM readKind := rfl
  rw [listed, List.mapM_map]
  exact Outcome.mapM_eq_ok_iff_forall fun entry _ _ => entry.readKind_toDatum_eq_ok_iff

/-- Once kinds are checked, what is left is to read the indices. -/
def readEntries [Machine] (rowKinds variableKinds : List (Cone × Datum)) :
    Except Fault (List ConeEntry × List ConeEntry) := do
  let rowEntries ← rowKinds.mapM readIndices
  let variableEntries ← variableKinds.mapM readIndices
  checkNonempty (rowEntries ++ variableEntries)
  return (rowEntries, variableEntries)

/-- The kinds of both lists, read and checked for a standard form. -/
def readSupported [Machine] (rowCones variableCones : Datum) :
    Except Fault (List (Cone × Datum) × List (Cone × Datum)) := do
  let rowKinds ← readKinds rowCones
  let variableKinds ← readKinds variableCones
  checkSupported (rowKinds ++ variableKinds)
  return (rowKinds, variableKinds)

theorem readBoth_eq [Machine] (rowCones variableCones : Datum) : readBoth rowCones variableCones =
    (readSupported rowCones variableCones >>= fun kinds =>
      checkConstrained kinds.1 >>= fun _ => readEntries kinds.1 kinds.2) := by
  simp only [readBoth, readSupported, readEntries, bind_assoc, pure_bind]

theorem supported_iff {entry : WrittenEntry} : entry.Supported ↔
    entry.kind?.isSome ∧ entry.kinded.1.isSupported := by
  rw [WrittenEntry.Supported, WrittenEntry.kinded]
  cases entry.kind? <;> simp

theorem readSupported_eq_ok_iff [Machine] {kinds : List (Cone × Datum) × List (Cone × Datum)} :
    readSupported (ofWritten rows) (ofWritten columns) = .ok kinds ↔
      (∀ entry ∈ rows ++ columns, entry.Supported) ∧
        kinds = (rows.map WrittenEntry.kinded, columns.map WrittenEntry.kinded) := by
  simp only [readSupported, Outcome.andThen_eq_ok_iff, readKinds_eq_ok_iff, pure, Except.pure,
    Except.ok.injEq]
  constructor
  · rintro ⟨_, ⟨rowsRead, rfl⟩, _, ⟨columnsRead, rfl⟩, _, supported, rfl⟩
    refine ⟨fun entry member => supported_iff.2 ⟨?_, ?_⟩, rfl⟩
    · exact List.forall_mem_append.2 ⟨rowsRead, columnsRead⟩ entry member
    · apply checkSupported_eq_ok_iff.1 supported
      rw [← List.map_append, List.map_map]
      exact List.mem_map_of_mem member
  · rintro ⟨all, rfl⟩
    have each := fun entry member => supported_iff.1 (all entry member)
    obtain ⟨rowsRead, columnsRead⟩ :=
      List.forall_mem_append.1 fun entry member => (each entry member).1
    refine ⟨_, ⟨rowsRead, rfl⟩, _, ⟨columnsRead, rfl⟩, (), ?_, rfl⟩
    rw [checkSupported_eq_ok_iff, ← List.map_append, List.map_map, List.forall_mem_map]
    exact fun entry member => (each entry member).2

variable (typed : ∀ entry ∈ rows ++ columns, entry.Typed)
include typed

theorem onlyRefused_readSupported [Machine] (writable : ∀ entry ∈ rows ++ columns, entry.Writable) :
    OnlyRefused .cone (readSupported (ofWritten rows) (ofWritten columns)) := by
  have kinds {entries : List WrittenEntry} (part : ∀ entry ∈ entries, entry.Typed)
      (written : ∀ entry ∈ entries, entry.Writable) :
      OnlyRefused .cone (readKinds (ofWritten entries)) := by
    refine OnlyRefused.mapM (List.forall_mem_map.2 fun entry member => ?_)
    exact (Datum.onlyRefused_designation (part entry member).designation
      (written entry member).designation).map _
  have checked (entries : List (Cone × Datum)) :
      OnlyRefused .cone (checkSupported entries) := by
    unfold checkSupported
    split
    · exact Outcome.onlyRefused_error rfl
    · exact Outcome.onlyRefused_ok _
  obtain ⟨typedRows, typedColumns⟩ := List.forall_mem_append.1 typed
  obtain ⟨writtenRows, writtenColumns⟩ := List.forall_mem_append.1 writable
  exact (kinds typedRows writtenRows).bind fun _ _ =>
    (kinds typedColumns writtenColumns).bind fun _ _ => (checked _).bind fun _ _ =>
      Outcome.onlyRefused_ok _

theorem readEntries_eq_ok_iff [Machine] {entries : List ConeEntry × List ConeEntry}
    (supported : ∀ entry ∈ rows ++ columns, entry.Supported) :
    readEntries (rows.map WrittenEntry.kinded) (columns.map WrittenEntry.kinded) = .ok entries ↔
      (∀ entry ∈ rows ++ columns, entry.Indexed) ∧
        entries = (rows.map WrittenEntry.read, columns.map WrittenEntry.read) := by
  have indices {part : List WrittenEntry} (typed : ∀ entry ∈ part, entry.Typed)
      (results : List ConeEntry) : (part.map WrittenEntry.kinded).mapM readIndices = .ok results ↔
        (∀ entry ∈ part, ∀ index ∈ entry.indices, index.integral?.isSome) ∧
          results = part.map WrittenEntry.read := by
    rw [List.mapM_map]
    exact Outcome.mapM_eq_ok_iff_forall fun entry member _ =>
      WrittenEntry.readIndices_kinded_eq_ok_iff (typed entry member)
  obtain ⟨typedRows, typedColumns⟩ := List.forall_mem_append.1 typed
  have nonempty (all : ∀ entry ∈ rows ++ columns, ∀ index ∈ entry.indices,
      index.integral?.isSome) : checkNonempty (rows.map WrittenEntry.read ++
        columns.map WrittenEntry.read) = .ok () ↔
          ∀ entry ∈ rows ++ columns, entry.kind? = some .secondOrder → entry.indices ≠ [] := by
    rw [checkNonempty_eq_ok_iff, ← List.map_append, List.forall_mem_map]
    refine forall₂_congr fun entry member => ?_
    obtain ⟨kind, same⟩ := Option.isSome_iff_exists.1 (supported_iff.1 (supported entry member)).1
    have empty : entry.integers = [] ↔ entry.indices = [] := by
      rw [WrittenEntry.integers, List.filterMap_eq_nil_iff]
      constructor
      · intro none
        refine List.eq_nil_iff_forall_not_mem.2 fun index own => ?_
        have found := all entry member index own
        rw [none index own] at found
        cases found
      · intro none
        rw [none]
        exact fun _ own => by cases own
    simp [WrittenEntry.read, same, empty]
  simp only [readEntries, Outcome.andThen_eq_ok_iff, indices typedRows, indices typedColumns, pure,
    Except.pure, Except.ok.injEq]
  constructor
  · rintro ⟨_, ⟨rowsRead, rfl⟩, _, ⟨columnsRead, rfl⟩, _, checked, rfl⟩
    have all : ∀ entry ∈ rows ++ columns, ∀ index ∈ entry.indices, index.integral?.isSome :=
      List.forall_mem_append.2 ⟨rowsRead, columnsRead⟩
    exact ⟨fun entry member => ⟨all entry member, (nonempty all).1 checked entry member⟩, rfl⟩
  · rintro ⟨indexed, rfl⟩
    have integral := fun entry member => (indexed entry member).1
    obtain ⟨rowsRead, columnsRead⟩ := List.forall_mem_append.1 integral
    exact ⟨_, ⟨rowsRead, rfl⟩, _, ⟨columnsRead, rfl⟩, (),
      (nonempty integral).2 fun entry member => (indexed entry member).2, rfl⟩

end Typed

theorem onlyRefused_readEntries [Machine] {rows columns : List WrittenEntry}
    (writable : ∀ entry ∈ rows ++ columns, entry.Writable) :
    OnlyRefused .index (readEntries (rows.map WrittenEntry.kinded)
      (columns.map WrittenEntry.kinded)) := by
  have indices {part : List WrittenEntry} (written : ∀ entry ∈ part, entry.Writable) :
      OnlyRefused .index ((part.map WrittenEntry.kinded).mapM readIndices) := by
    refine OnlyRefused.mapM (List.forall_mem_map.2 fun entry member => ?_)
    have each : OnlyRefused .index (entry.indices.mapM Datum.toIndex) :=
      OnlyRefused.mapM fun index own =>
        Datum.onlyRefused_toIndex ((written entry member).indices index own)
    exact each.map _
  have checked (entries : List ConeEntry) :
      OnlyRefused .index (checkNonempty entries) := by
    unfold checkNonempty
    split
    · exact Outcome.onlyRefused_error rfl
    · exact Outcome.onlyRefused_ok _
  obtain ⟨writtenRows, writtenColumns⟩ := List.forall_mem_append.1 writable
  exact (indices writtenRows).bind fun _ _ => (indices writtenColumns).bind fun _ _ =>
    (checked _).bind fun _ _ => Outcome.onlyRefused_ok _

theorem onlyRefused_checkConstrained [Machine] {rows : List WrittenEntry}
    (writable : ∀ entry ∈ rows, entry.Writable) :
    OnlyRefused .constraint (checkConstrained (rows.map WrittenEntry.kinded)) := by
  unfold checkConstrained
  split
  next given found =>
    obtain ⟨entry, member, rfl⟩ := List.mem_map.1 (List.mem_of_find?_eq_some found)
    exact Outcome.onlyRefused_raised (List.all_eq_true.2 (writable entry member).indices) rfl
  next => exact Outcome.onlyRefused_ok _

theorem checkConstrained_kinded_iff [Machine] {rows : List WrittenEntry}
    (supported : ∀ entry ∈ rows, entry.Supported) :
    checkConstrained (rows.map WrittenEntry.kinded) = .ok () ↔
      ∀ entry ∈ rows, entry.kind? ≠ some .free := by
  have kinds : (∀ kind ∈ (rows.map WrittenEntry.kinded).map Prod.fst, kind ≠ .free) ↔
      ∀ entry ∈ rows, entry.kind? ≠ some .free := by
    rw [List.map_map, List.forall_mem_map]
    refine forall₂_congr fun entry member => ?_
    obtain ⟨kind, same⟩ := Option.isSome_iff_exists.1 (supported_iff.1 (supported entry member)).1
    simp [WrittenEntry.kinded, same]
  rw [← kinds]
  exact ⟨constrained_of_check, checkConstrained_of_forall⟩

end ConeList
end ConicForm
