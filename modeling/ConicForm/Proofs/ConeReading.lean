import ConicForm.ConeList
import ConicForm.Proofs.Outcome

/-! What reading two cone lists gives: the entries that each list has on its own, of kinds that have
a standard form. Entries that a caller would give are read back as they are. -/
namespace ConicForm.ConeList

/-- The entries of a list that can be read. -/
def entriesOf [Machine] (cones : Datum) : List ConeEntry := (read cones).toOption.getD []

/-- What is checked of the cones of constraint rows and of variables. -/
structure Accepted (rowEntries variableEntries : List ConeEntry) : Prop where
  supported : ∀ entry ∈ rowEntries ++ variableEntries, entry.1.isSupported
  constrained : ∀ entry ∈ rowEntries, entry.1 ≠ .free
  nonempty : ∀ entry ∈ rowEntries ++ variableEntries, entry.1 = .secondOrder → entry.2 ≠ []

theorem kind_of_readIndices [Machine] {given : Cone × Datum} {entry : ConeEntry}
    (read : readIndices given = .ok entry) : entry.1 = given.1 := by
  obtain ⟨_, _, read⟩ := Outcome.bind_eq_ok_iff.1 read
  obtain ⟨_, _, rfl⟩ := Outcome.map_eq_ok_iff.1 read
  rfl

/-- Kinds first and indices later give what reading entry by entry gives. -/
theorem read_of_readKinds [Machine] {cones : Datum} {kinds : List (Cone × Datum)}
    {entries : List ConeEntry} (readAs : readKinds cones = .ok kinds)
    (indices : kinds.mapM readIndices = .ok entries) : read cones = .ok entries := by
  obtain ⟨items, elements, given⟩ := Outcome.bind_eq_ok_iff.1 readAs
  refine Outcome.bind_eq_ok_iff.2 ⟨items, elements, ?_⟩
  rw [Outcome.mapM_eq_ok_iff] at given indices ⊢
  clear readAs elements
  induction given generalizing entries with
  | nil =>
    cases indices
    exact .nil
  | cons kind _ ih =>
    cases indices with
    | cons index later => exact .cons (Outcome.bind_eq_ok_iff.2 ⟨_, kind, index⟩) (ih later)

theorem kinds_of_readIndices [Machine] {kinds : List (Cone × Datum)} {entries : List ConeEntry}
    (indices : kinds.mapM readIndices = .ok entries) :
    entries.map Prod.fst = kinds.map Prod.fst := by
  induction Outcome.mapM_eq_ok_iff.1 indices with
  | nil => rfl
  | cons index later ih =>
    rw [List.map_cons, List.map_cons, kind_of_readIndices index,
      ih (Outcome.mapM_eq_ok_iff.2 later)]

theorem checkSupported_eq_ok_iff {kinds : List (Cone × Datum)} :
    checkSupported kinds = .ok () ↔ ∀ kind ∈ kinds.map Prod.fst, kind.isSupported := by
  unfold checkSupported
  split
  next given found =>
    have bad := List.find?_some found
    simp only [Bool.not_eq_true'] at bad
    simp only [reduceCtorEq, false_iff]
    intro supported
    have own := supported _ (List.mem_map_of_mem (List.mem_of_find?_eq_some found))
    rw [bad] at own
    cases own
  next none => simpa using none

theorem constrained_of_check [Machine] {kinds : List (Cone × Datum)}
    (checked : checkConstrained kinds = .ok ()) : ∀ kind ∈ kinds.map Prod.fst, kind ≠ .free := by
  unfold checkConstrained at checked
  split at checked
  · obtain ⟨_, _, checked⟩ := Outcome.bind_eq_ok_iff.1 checked
    cases checked
  next none =>
    intro kind member
    obtain ⟨given, stored, rfl⟩ := List.mem_map.1 member
    simpa using List.find?_eq_none.1 none given stored

theorem checkConstrained_of_forall [Machine] {kinds : List (Cone × Datum)}
    (constrained : ∀ kind ∈ kinds.map Prod.fst, kind ≠ .free) :
    checkConstrained kinds = .ok () := by
  have none : kinds.find? (fun entry => entry.1 == .free) = none := by
    rw [List.find?_eq_none]
    intro entry member
    simpa using constrained entry.1 (List.mem_map_of_mem member)
  rw [checkConstrained, none]

theorem checkNonempty_eq_ok_iff {entries : List ConeEntry} :
    checkNonempty entries = .ok () ↔ ∀ entry ∈ entries, entry.1 = .secondOrder → entry.2 ≠ [] := by
  unfold checkNonempty
  split
  next found =>
    obtain ⟨entry, member, empty⟩ := List.any_eq_true.1 found
    simp only [Bool.and_eq_true, beq_iff_eq, List.isEmpty_iff] at empty
    simp only [reduceCtorEq, false_iff]
    exact fun nonempty => nonempty entry member empty.1 empty.2
  next none =>
    simp only [true_iff]
    intro entry member kind empty
    exact none (List.any_eq_true.2 ⟨entry, member, by simp [kind, empty]⟩)

theorem readBoth_eq_ok [Machine] {rowCones variableCones : Datum}
    {rowEntries variableEntries : List ConeEntry}
    (readAs : readBoth rowCones variableCones = .ok (rowEntries, variableEntries)) :
    entriesOf rowCones = rowEntries ∧ entriesOf variableCones = variableEntries ∧
      Accepted rowEntries variableEntries := by
  obtain ⟨rowKinds, readRows, readAs⟩ := Outcome.andThen_eq_ok_iff.1 readAs
  obtain ⟨variableKinds, readVariables, readAs⟩ := Outcome.andThen_eq_ok_iff.1 readAs
  obtain ⟨_, supported, readAs⟩ := Outcome.andThen_eq_ok_iff.1 readAs
  obtain ⟨_, constrained, readAs⟩ := Outcome.andThen_eq_ok_iff.1 readAs
  obtain ⟨rows, rowIndices, readAs⟩ := Outcome.andThen_eq_ok_iff.1 readAs
  obtain ⟨columns, columnIndices, readAs⟩ := Outcome.andThen_eq_ok_iff.1 readAs
  obtain ⟨_, nonempty, readAs⟩ := Outcome.andThen_eq_ok_iff.1 readAs
  cases readAs
  have kinds : (rowEntries ++ variableEntries).map Prod.fst =
      (rowKinds ++ variableKinds).map Prod.fst := by
    simp [kinds_of_readIndices rowIndices, kinds_of_readIndices columnIndices]
  refine ⟨by simp [entriesOf, read_of_readKinds readRows rowIndices, Except.toOption],
    by simp [entriesOf, read_of_readKinds readVariables columnIndices, Except.toOption],
    ⟨fun entry member => ?_, fun entry member => ?_, checkNonempty_eq_ok_iff.1 nonempty⟩⟩
  · exact checkSupported_eq_ok_iff.1 supported _ (kinds ▸ List.mem_map_of_mem member)
  · exact constrained_of_check constrained _
      (kinds_of_readIndices rowIndices ▸ List.mem_map_of_mem member)

/-- An entry with its indices as a caller would give them. -/
def unread (entry : ConeEntry) : Cone × Datum := (entry.1, .list (entry.2.map .integer))

theorem readKinds_toDatum [Machine] (entries : List ConeEntry) :
    readKinds (toDatum entries) = .ok (entries.map unread) := by
  refine Outcome.bind_eq_ok_iff.2 ⟨_, rfl, ?_⟩
  rw [Outcome.mapM_eq_ok_iff, List.forall₂_map_left_iff, List.forall₂_map_right_iff,
    List.forall₂_same]
  intro entry _
  rfl

theorem readIndices_unread [Machine] (entries : List ConeEntry) :
    (entries.map unread).mapM readIndices = .ok entries := by
  rw [Outcome.mapM_eq_ok_iff, List.forall₂_map_left_iff, List.forall₂_same]
  intro entry _
  refine Outcome.bind_eq_ok_iff.2 ⟨_, rfl, Outcome.map_eq_ok_iff.2 ⟨entry.2, ?_, rfl⟩⟩
  rw [Outcome.mapM_eq_ok_iff, List.forall₂_map_left_iff, List.forall₂_same]
  intro index _
  rfl

/-- Entries of kinds that are accepted are read back. -/
theorem readBoth_toDatum [Machine] {rowEntries variableEntries : List ConeEntry}
    (accepted : Accepted rowEntries variableEntries) :
    readBoth (toDatum rowEntries) (toDatum variableEntries) =
      .ok (rowEntries, variableEntries) := by
  have kinds (entries : List ConeEntry) : (entries.map unread).map Prod.fst =
      entries.map Prod.fst := by
    simp [unread, Function.comp_def]
  have supported : checkSupported (rowEntries.map unread ++ variableEntries.map unread) =
      .ok () := by
    rw [checkSupported_eq_ok_iff, ← List.map_append, kinds, List.forall_mem_map]
    exact accepted.supported
  have constrained : checkConstrained (rowEntries.map unread) = .ok () := by
    apply checkConstrained_of_forall
    rw [kinds, List.forall_mem_map]
    exact accepted.constrained
  have nonempty : checkNonempty (rowEntries ++ variableEntries) = .ok () :=
    checkNonempty_eq_ok_iff.2 accepted.nonempty
  simp only [readBoth, readKinds_toDatum, supported, constrained, readIndices_unread, nonempty,
    bind, Except.bind, pure, Except.pure]

end ConicForm.ConeList
