import ConicForm.Proofs.RowLayout
import ConicForm.Proofs.SegmentedOrder

/-! How indices are split into entries makes no difference beyond second-order cones. Problems with
the same data have the same form if their cones list the same in the orthant, in each second-order
cone, and as zero and free variables; and entries can be moved in many ways that keep all of this.
-/
namespace ConicForm

open ConeList (groups orthant flattened)

namespace ConeList

theorem groups_append (kind : Cone) (first second : List ConeEntry) :
    groups kind (first ++ second) = groups kind first ++ groups kind second := by
  simp [groups]

/-- What of the cones of the rows has a part in the form. -/
structure SameRows (entries others : List ConeEntry) : Prop where
  orthant : orthant others = orthant entries
  secondOrder : groups .secondOrder others = groups .secondOrder entries

/-- What of the cones of the variables has a part in the form. -/
structure SameColumns (entries others : List ConeEntry) : Prop extends SameRows entries others where
  zero : (groups .zero others).flatten = (groups .zero entries).flatten
  free : (groups .free others).flatten = (groups .free entries).flatten

/-- A move of some entries: two of kinds with different turns change places, one that is not of
second order is split or is empty, one of an idle kind is dropped. -/
inductive Move (idle : Cone → Prop) : List ConeEntry → List ConeEntry → Prop
  | swap {first second : ConeEntry}
      (apart : VariableOrder.turn first.1 ≠ VariableOrder.turn second.1) :
      Move idle [first, second] [second, first]
  | split {kind : Cone} (polyhedral : kind ≠ .secondOrder) (indices more : List ℤ) :
      Move idle [(kind, indices ++ more)] [(kind, indices), (kind, more)]
  | empty {kind : Cone} (polyhedral : kind ≠ .secondOrder) : Move idle [(kind, [])] []
  | drop {entry : ConeEntry} (unused : idle entry.1) : Move idle [entry] []

/-- Lists of entries that come from each other by moves inside them, in either direction. -/
def Rearranged (idle : Cone → Prop) : List ConeEntry → List ConeEntry → Prop :=
  Relation.EqvGen fun entries others => ∃ before after window moved,
    Move idle window moved ∧ entries = before ++ window ++ after ∧
      others = before ++ moved ++ after

section Moves

variable {idle : Cone → Prop} {window moved : List ConeEntry}

/-- A move keeps what is flattened under kinds that share a turn, unless they are idle. -/
theorem Move.flattened_eq {kinds : List Cone} {turn : ℕ} (move : Move idle window moved)
    (shared : ∀ kind ∈ kinds, VariableOrder.turn kind = turn)
    (busy : ∀ kind ∈ kinds, ¬idle kind) : flattened kinds moved = flattened kinds window := by
  cases move with
  | @swap first second apart =>
    -- At most one of the two is seen under the kinds, so it does not matter which comes first.
    have one : ¬(first.1 ∈ kinds ∧ second.1 ∈ kinds) := fun ⟨here, there⟩ =>
      apart ((shared _ here).trans (shared _ there).symm)
    by_cases here : first.1 ∈ kinds
    · have there : second.1 ∉ kinds := fun there => one ⟨here, there⟩
      simp [flattened, here, there]
    · by_cases there : second.1 ∈ kinds <;> simp [flattened, here, there]
  | @split kind polyhedral indices more =>
    by_cases own : kind ∈ kinds <;> simp [flattened, own]
  | @empty kind polyhedral =>
    by_cases own : kind ∈ kinds <;> simp [flattened, own]
  | @drop entry unused =>
    have other : entry.1 ∉ kinds := fun own => busy _ own unused
    simp [flattened, other]

/-- A move keeps the second-order cones, unless they are idle. -/
theorem Move.groups_eq (move : Move idle window moved) (busy : ¬idle .secondOrder) :
    groups .secondOrder moved = groups .secondOrder window := by
  cases move with
  | @swap first second apart =>
    by_cases here : first.1 = .secondOrder
    · have there : second.1 ≠ .secondOrder := fun there => apart (by rw [here, there])
      simp [groups, here, there]
    · by_cases there : second.1 = .secondOrder <;> simp [groups, here, there]
  | @split kind polyhedral indices more => simp [groups, polyhedral]
  | @empty kind polyhedral => simp [groups, polyhedral]
  | @drop entry unused =>
    have other : entry.1 ≠ .secondOrder := fun same => busy (same ▸ unused)
    simp [groups, other]

end Moves

/-- What is read off entry by entry is kept if every move keeps it. -/
theorem eq_of_rearranged {idle : Cone → Prop} {read : List ConeEntry → List α}
    (additive : ∀ first second, read (first ++ second) = read first ++ read second)
    (kept : ∀ window moved, Move idle window moved → read moved = read window)
    {entries others : List ConeEntry} (rearranged : Rearranged idle entries others) :
    read others = read entries := by
  induction rearranged with
  | rel entries others moves =>
    obtain ⟨before, after, window, moved, move, rfl, rfl⟩ := moves
    rw [additive, additive, additive, additive, kept window moved move]
  | refl => rfl
  | symm _ _ _ ih => exact ih.symm
  | trans _ _ _ _ _ first second => exact second.trans first

section Rearranged

variable {idle : Cone → Prop} {entries others : List ConeEntry}
  (rearranged : Rearranged idle entries others)
include rearranged

theorem flattened_of_rearranged {kinds : List Cone} (turn : ℕ)
    (shared : ∀ kind ∈ kinds, VariableOrder.turn kind = turn)
    (busy : ∀ kind ∈ kinds, ¬idle kind) : flattened kinds others = flattened kinds entries :=
  eq_of_rearranged (flattened_append kinds) (fun _ _ move => move.flattened_eq shared busy)
    rearranged

theorem groups_of_rearranged (busy : ¬idle .secondOrder) :
    groups .secondOrder others = groups .secondOrder entries :=
  eq_of_rearranged (groups_append .secondOrder) (fun _ _ move => move.groups_eq busy) rearranged

end Rearranged

/-- Constraint rows may also be taken out of zero cones. -/
theorem sameRows_of_rearranged {entries others : List ConeEntry}
    (rearranged : Rearranged (· = .zero) entries others) : SameRows entries others where
  orthant := flattened_of_rearranged rearranged 0 (by decide) (by decide)
  secondOrder := groups_of_rearranged rearranged (by decide)

theorem sameColumns_of_rearranged {entries others : List ConeEntry}
    (rearranged : Rearranged (fun _ => False) entries others) : SameColumns entries others where
  orthant := flattened_of_rearranged rearranged 0 (by decide) (by decide)
  secondOrder := groups_of_rearranged rearranged (by decide)
  zero := by
    rw [← snd_flattened_singleton, ← snd_flattened_singleton,
      flattened_of_rearranged rearranged 2 (by decide) (by decide)]
  free := by
    rw [← snd_flattened_singleton, ← snd_flattened_singleton,
      flattened_of_rearranged rearranged 3 (by decide) (by decide)]

end ConeList

open ConeList (SameRows SameColumns Rearranged)

namespace ConicProblem

/-- Problems with the same data have the same form if their cones list the same. -/
theorem standardForm_congr {problem other : ConicProblem} {form moved : StandardForm}
    (built : problem.standardForm = .ok form) (alsoBuilt : other.standardForm = .ok moved)
    (objective : other.objective = problem.objective) (matrix : other.matrix = problem.matrix)
    (bounds : other.bounds = problem.bounds) (sense : other.sense = problem.sense)
    (columns : SameColumns problem.variableCones other.variableCones)
    (rows : SameRows problem.rowCones other.rowCones) : moved = form := by
  obtain ⟨_, reverse, _, arrangedAs, placed⟩ := exists_arranged_of_standardForm built
  obtain ⟨_, reverse', _, alsoArranged, also⟩ := exists_arranged_of_standardForm alsoBuilt
  -- The order is read off the sequences, so it is the same, and with it the place of everything.
  obtain rfl : reverse' = reverse := by
    have order := VariableOrder.reverse_of_arrange alsoArranged
    rw [columns.orthant, columns.secondOrder, columns.zero, columns.free,
      ← VariableOrder.reverse_of_arrange arrangedAs] at order
    exact List.map_injective_iff.2 Nat.cast_injective order
  have movedRow : other.movedRow = problem.movedRow := by
    unfold ConicProblem.movedRow
    rw [matrix, bounds]
  have sizes : other.sizes = problem.sizes := by
    rw [sizes_eq, sizes_eq, columns.secondOrder, rows.secondOrder]
  have orthant (place : ℤ → ℤ) : other.orthantRows place = problem.orthantRows place := by
    rw [orthantRows_eq, orthantRows_eq, columns.orthant, rows.orthant, movedRow]
  have secondOrder (place : ℤ → ℤ) :
      other.secondOrderRows place = problem.secondOrderRows place := by
    rw [secondOrderRows_eq, secondOrderRows_eq, columns.secondOrder, rows.secondOrder, movedRow]
  have equalities (place : ℤ → ℤ) : other.equalityRows place = problem.equalityRows place := by
    rw [equalityRows_eq, equalityRows_eq, columns.zero, movedRow,
      keptIndices_eq fun i listed => (also.rows i listed).1,
      keptIndices_eq fun i listed => (placed.rows i listed).1, kept, kept, bounds, rows.orthant,
      rows.secondOrder]
  have made := also.made
  rw [orthant, secondOrder, equalities, sizes, sense, movedObjective, objective] at made
  exact made.unique placed.made

/-- Cones that list the same for the same data have the same form, whenever there is one for both.
They do so if they come from each other by moves of their entries. -/
theorem load_of_sameCones [Machine] {input : Input} {form moved : StandardForm}
    {rowCones variableCones : Datum}
    (loaded : load input = .ok form)
    (alsoLoaded : load { input with rowCones, variableCones } = .ok moved) :
    (SameColumns (ConeList.entriesOf input.variableCones) (ConeList.entriesOf variableCones) →
      SameRows (ConeList.entriesOf input.rowCones) (ConeList.entriesOf rowCones) →
        moved = form) ∧
    (Rearranged (fun _ => False) (ConeList.entriesOf input.variableCones)
        (ConeList.entriesOf variableCones) →
      Rearranged (· = .zero) (ConeList.entriesOf input.rowCones) (ConeList.entriesOf rowCones) →
        moved = form) := by
  obtain ⟨problem, read, built⟩ := Outcome.bind_eq_ok_iff.1 loaded
  obtain ⟨other, alsoRead, alsoBuilt⟩ := Outcome.bind_eq_ok_iff.1 alsoLoaded
  have given := readAs_of_read read
  have also := readAs_of_read alsoRead
  have objective : other.objective = problem.objective := also.objective.symm.trans given.objective
  have bounds : other.bounds = problem.bounds := also.bounds.symm.trans given.bounds
  have matrix : other.matrix = problem.matrix := by
    have readMatrix := also.matrix
    rw [bounds, objective] at readMatrix
    exact Except.ok.inj (readMatrix.symm.trans given.matrix)
  have sense : other.sense = problem.sense := Except.ok.inj (also.sense.symm.trans given.sense)
  have same : SameColumns (ConeList.entriesOf input.variableCones)
      (ConeList.entriesOf variableCones) →
        SameRows (ConeList.entriesOf input.rowCones) (ConeList.entriesOf rowCones) →
          moved = form := by
    intro columns rows
    rw [given.variableCones, also.variableCones] at columns
    rw [given.rowCones, also.rowCones] at rows
    exact standardForm_congr built alsoBuilt objective matrix bounds sense columns rows
  exact ⟨same, fun columns rows => same (ConeList.sameColumns_of_rearranged columns)
    (ConeList.sameRows_of_rearranged rows)⟩

/-- The orthant first and in three entries, and no zero cone of rows. -/
def Input.relayered : Input :=
  { Input.layered with
    rowCones := ConeList.toDatum [(.nonpos, [2]), (.secondOrder, [3])]
    variableCones := ConeList.toDatum
      [(.nonpos, [3]), (.nonneg, []), (.zero, [1]), (.nonneg, [2]), (.secondOrder, [4, 0])] }

/-- The zero cone of rows alone is dropped. -/
def Input.unpinned : Input :=
  { Input.layered with rowCones := ConeList.toDatum [(.secondOrder, [3]), (.nonpos, [2])] }

theorem load_relayered :
    ∃ form, load .layered = .ok form ∧ load .relayered = .ok form ∧ load .unpinned = .ok form := by
  obtain ⟨form, loaded, _⟩ := load_layered
  obtain ⟨moved, alsoLoaded, _⟩ : ∃ form, load .relayered = .ok form ∧ form.n = 5 :=
    Outcome.exists_of_toOption_map (by decide +kernel)
  obtain ⟨dropped, droppedLoaded, _⟩ : ∃ form, load .unpinned = .ok form ∧ form.n = 5 :=
    Outcome.exists_of_toOption_map (by decide +kernel)
  have first : moved = form := by
    obtain ⟨same, _⟩ := load_of_sameCones loaded alsoLoaded
    apply same
    · constructor
      · constructor <;> decide +kernel
      · decide +kernel
      · decide +kernel
    · constructor <;> decide +kernel
  have second : dropped = form := by
    obtain ⟨_, same⟩ := load_of_sameCones loaded droppedLoaded
    have unused : ConeList.Move (· = .zero) [(.zero, [0])] [] := .drop rfl
    exact same (.refl _) (.rel _ _ ⟨[(.secondOrder, [3])], [(.nonpos, [2])], _, _, unused,
      by decide +kernel, by decide +kernel⟩)
  exact ⟨form, loaded, first ▸ alsoLoaded, second ▸ droppedLoaded⟩

end ConicProblem
end ConicForm
