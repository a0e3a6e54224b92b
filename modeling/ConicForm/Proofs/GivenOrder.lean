import ConicForm.Proofs.AssembledForm
import ConicForm.VariableOrder.Given

/-! Orders from whatever a caller gives. Cones may be written in many ways, and a number of
variables too, but an order that is arranged from them is the order of some entries, and an order
that is counted out is the identity. Either way it is a bijection. -/
namespace ConicForm.VariableOrder

theorem assign_cons (owner : Indexed) (count : ℕ) (seen : List ℕ) (index : ℤ) (indices : List ℤ) :
    assign owner count seen (index :: indices) =
      (assign owner count seen [index]).bind fun seen => assign owner count seen indices := by
  by_cases inside : 0 ≤ index ∧ index < (count : ℤ)
  · by_cases repeated : index.toNat ∈ seen <;> simp [assign, inside, repeated, Except.bind]
  · simp [assign, inside, Except.bind]

/-- An index that is assigned as it is given is an integer. -/
theorem assignGiven_eq_ok {count : ℕ} {seen later : List ℕ} {index : Datum}
    (assigned : assignGiven count seen index = .ok later) :
    ∃ n, index.toExactInteger = .ok n ∧ assign .vars count seen [n] = .ok later := by
  obtain ⟨inside, _, assigned⟩ := Outcome.bind_eq_ok_iff.1 assigned
  split at assigned
  · cases index with
    | truth | real | zeros => cases assigned
    | _ => exact Outcome.bind_eq_ok_iff.1 assigned
  · cases assigned

theorem assign_of_given {count : ℕ} {indices : List Datum} {seen later : List ℕ}
    {numbers : List ℤ} (assigned : indices.foldlM (assignGiven count) seen = .ok later)
    (read : indices.mapM Datum.toExactInteger = .ok numbers) :
    assign .vars count seen numbers = .ok later := by
  rw [Outcome.mapM_eq_ok_iff] at read
  induction read generalizing seen with
  | nil => exact assigned
  | cons own _ ih =>
    rw [List.foldlM_cons] at assigned
    obtain ⟨middle, first, rest⟩ := Outcome.andThen_eq_ok_iff.1 assigned
    obtain ⟨n, integer, single⟩ := assignGiven_eq_ok first
    obtain rfl := Except.ok.inj (integer.symm.trans own)
    rw [assign_cons, single, Except.bind]
    exact ih rest

theorem hasSegment_of_groupKind {d : Datum} {kind : Cone} (grouped : groupKind d = .ok kind) :
    hasSegment kind := by
  unfold groupKind at grouped
  split at grouped
  · split at grouped
    next segment =>
      cases grouped
      exact segment
    next => cases grouped
  all_goals try cases grouped
  split at grouped
  next found =>
    cases grouped
    have listed := List.mem_of_find?_eq_some found
    simp only [List.mem_cons, List.not_mem_nil, or_false] at listed
    rcases listed with rfl | rfl | rfl | rfl <;> rfl
  next => cases grouped

/-- Entries that are assigned as they are given have been read. -/
theorem assignAll_of_given [Machine] {count : ℕ} {given : List Datum} {seen later : List ℕ}
    {before after : List ConeEntry}
    (assigned : given.foldlM (assignEntry count) (seen, before) = .ok (later, after)) :
    ∃ added, after = before ++ added ∧ assignAll count seen added = .ok later := by
  induction given generalizing seen before with
  | nil =>
    cases assigned
    exact ⟨[], (List.append_nil _).symm, rfl⟩
  | cons entry given ih =>
    rw [List.foldlM_cons] at assigned
    obtain ⟨⟨middle, extended⟩, first, rest⟩ := Outcome.andThen_eq_ok_iff.1 assigned
    obtain ⟨⟨kind, indices⟩, _, first⟩ := Outcome.andThen_eq_ok_iff.1 first
    obtain ⟨items, _, first⟩ := Outcome.andThen_eq_ok_iff.1 first
    obtain ⟨own, assignedHere, first⟩ := Outcome.andThen_eq_ok_iff.1 first
    obtain ⟨grouped, isKind, first⟩ := Outcome.andThen_eq_ok_iff.1 first
    obtain ⟨numbers, read, first⟩ := Outcome.andThen_eq_ok_iff.1 first
    cases first
    obtain ⟨added, rfl, assignedLater⟩ := ih rest
    refine ⟨(grouped, numbers) :: added, by simp, ?_⟩
    rw [assignAll, assign_of_given assignedHere read, Except.bind,
      if_pos (hasSegment_of_groupKind isKind)]
    exact assignedLater

theorem ofArray_ne_ok [Machine] (cones extents : Datum) (order : VariableOrder) :
    ofArray cones extents ≠ .ok order := by
  intro arranged
  obtain ⟨_, _, arranged⟩ := Outcome.andThen_eq_ok_iff.1 arranged
  obtain ⟨_, _, arranged⟩ := Outcome.andThen_eq_ok_iff.1 arranged
  obtain ⟨_, _, arranged⟩ := Outcome.andThen_eq_ok_iff.1 arranged
  cases arranged

/-- A length that is read has as many marks. -/
theorem arrayLength_of_toLength [Machine] {extent : Datum} {bytes : ℤ} {count : ℕ}
    (counted : extent.toLength bytes = .ok count) :
    Capacity.arrayLength bytes count = .ok count := by
  have integer {n : ℤ} (read : (if n < 0 then .error (.data .malformed)
      else (Capacity.arrayLength bytes n).mapError Fault.data) = .ok count) :
      Capacity.arrayLength bytes count = .ok count := by
    by_cases negative : n < 0
    · rw [if_pos negative] at read
      cases read
    · rw [if_neg negative, Outcome.mapError_eq_ok_iff] at read
      have same : count = n.toNat := by
        unfold Capacity.arrayLength at read
        split at read
        · cases read
        · split at read
          · cases read
          · exact (Except.ok.inj read).symm
      rwa [same, Int.toNat_of_nonneg (by omega), ← same]
  unfold Datum.toLength at counted
  split at counted
  · cases counted
  · obtain ⟨_, _, read⟩ := Outcome.bind_eq_ok_iff.1 counted
    exact integer read

/-- Cones as they are given have an order only if some entries have it, over as many variables. -/
theorem exists_ofCones_of_ofGiven [Machine] {cones extent : Datum} {order : VariableOrder}
    (arranged : ofGiven cones extent = .ok order) :
    ∃ count entries, extent.toLength 1 = .ok count ∧ ofCones entries count = .ok order := by
  unfold ofGiven at arranged
  split at arranged
  iterate 4 exact absurd arranged (ofArray_ne_ok _ _ _)
  obtain ⟨count, counted, arranged⟩ := Outcome.bind_eq_ok_iff.1 arranged
  obtain ⟨given, _, arranged⟩ := Outcome.andThen_eq_ok_iff.1 arranged
  obtain ⟨⟨seen, entries⟩, assigned, arranged⟩ := Outcome.andThen_eq_ok_iff.1 arranged
  obtain ⟨_, rfl, assignedAll⟩ := assignAll_of_given assigned
  obtain ⟨reverse, completed, ordered⟩ := Outcome.map_eq_ok_iff.1 arranged
  refine ⟨count, entries, counted, ofCones_eq_ok_iff.2
    ⟨⟨count, arrayLength_of_toLength counted⟩, reverse, ?_, ordered⟩⟩
  rw [arrange, assignedAll]
  exact completed

/-- How an order of some variables can come about: from cones, read or as they are given, or from
nothing but the number of variables. -/
inductive IsBuilt [Machine] (count : ℕ) : VariableOrder → Prop
  | ofCones {entries : List ConeEntry} {order : VariableOrder}
      (arranged : ofCones entries count = .ok order) : IsBuilt count order
  | ofGiven {cones extent : Datum} {order : VariableOrder}
      (counted : extent.toLength 1 = .ok count) (arranged : ofGiven cones extent = .ok order) :
      IsBuilt count order
  | ofBound {bound : Datum} {order : VariableOrder} (counted : ofBound bound = .ok order)
      (size : order.size = count) : IsBuilt count order

theorem IsBuilt.bijects [Machine] {count : ℕ} {order : VariableOrder}
    (built : order.IsBuilt count) : order.Bijects count := by
  have ofEntries {entries : List ConeEntry}
      (arranged : VariableOrder.ofCones entries count = .ok order) : order.Bijects count := by
    obtain ⟨-, reverse, listed, rfl⟩ := ofCones_eq_ok_iff.1 arranged
    exact bijects_ofReverse (perm_of_arrange listed)
  cases built with
  | ofCones arranged => exact ofEntries arranged
  | ofGiven counted arranged =>
    obtain ⟨given, entries, countedToo, arranged⟩ := exists_ofCones_of_ofGiven arranged
    obtain rfl := Except.ok.inj (counted.symm.trans countedToo)
    exact ofEntries arranged
  | ofBound counted size =>
    rw [eq_identity_of_ofBound counted, size]
    exact bijects_identity count

end ConicForm.VariableOrder
