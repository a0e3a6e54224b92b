import ConicForm.Proofs.GivenOrder
import ConicForm.Proofs.RelabelledOrder
import ConicForm.Proofs.SegmentedOrder

/-! Vectors brought into the order of a form and back. Both ways pick the entries of a vector at the
places of one direction of the order. The directions are inverse to each other, so what is restored
is what was arranged, and a sum of products runs over the same pairs. -/
namespace ConicForm.VariableOrder

/-- The items at some positions, in turn. -/
def pick? (positions : List ℤ) (items : List α) : Option (List α) :=
  positions.mapM (fromEitherEnd? items)

theorem fromEitherEnd?_natCast (items : List α) (i : ℕ) :
    fromEitherEnd? items (i : ℤ) = items[i]? := by
  simp [fromEitherEnd?]

theorem restore_eq_ok_iff {order : VariableOrder} {solution restored : List Binary64} :
    order.restore solution = .ok restored ↔
      solution.length = order.size ∧ pick? order.forward solution = some restored := by
  unfold restore pick?
  by_cases fits : solution.length = order.size
  · rw [if_pos fits]
    cases order.forward.mapM (fromEitherEnd? solution) <;> simp [fits]
  · simp [fits]

/-- The positions are the numbers below a bound, each of them once. -/
def Permutes (positions : List ℤ) (count : ℕ) : Prop :=
  positions.Perm ((List.range count).map fun i : ℕ => (i : ℤ))

namespace Permutes

variable {positions : List ℤ} {count : ℕ} (permutes : Permutes positions count)
include permutes

theorem length_eq : positions.length = count := by
  rw [List.Perm.length_eq permutes, List.length_map, List.length_range]

theorem exists_natCast {position : ℤ} (member : position ∈ positions) :
    ∃ i < count, position = ((i : ℕ) : ℤ) := by
  obtain ⟨i, below, rfl⟩ := List.mem_map.1 ((List.Perm.mem_iff permutes).1 member)
  exact ⟨i, List.mem_range.1 below, rfl⟩

/-- A list that has the item of each position in its place is what is picked. -/
theorem pick_eq_some_iff {items picked : List α} :
    pick? positions items = some picked ↔ picked.length = count ∧
      ∀ k i : ℕ, positions[k]? = some (i : ℤ) → picked[k]? = items[i]? := by
  have placed {k i : ℕ} (here : k < positions.length) (there : k < picked.length)
      (stored : positions[k]? = some (i : ℤ)) :
      fromEitherEnd? items (positions.get ⟨k, here⟩) = some (picked.get ⟨k, there⟩) ↔
        picked[k]? = items[i]? := by
    rw [List.get_eq_getElem, (List.getElem?_eq_some_iff.1 stored).2, fromEitherEnd?_natCast,
      List.getElem?_eq_getElem there, eq_comm, List.get_eq_getElem]
  rw [pick?, Outcome.mapM_eq_some_iff, List.forall₂_iff_get]
  constructor
  · rintro ⟨length, picks⟩
    refine ⟨length ▸ permutes.length_eq, fun k i stored => ?_⟩
    have here := (List.getElem?_eq_some_iff.1 stored).1
    exact (placed here (length ▸ here) stored).1 (picks k here (length ▸ here))
  · rintro ⟨length, same⟩
    refine ⟨permutes.length_eq.trans length.symm, fun k here there => ?_⟩
    obtain ⟨i, _, place⟩ := permutes.exists_natCast (List.getElem_mem here)
    have stored := List.getElem?_eq_some_iff.2 ⟨here, place⟩
    exact (placed here there stored).2 (same k i stored)

theorem pick_eq_map {items : List α} (size : items.length = count) (default : α) :
    pick? positions items =
      some (positions.map fun position => items.getD position.toNat default) := by
  refine mapM_eq_some fun position member => ?_
  obtain ⟨i, below, rfl⟩ := permutes.exists_natCast member
  have inside : i < items.length := size.symm ▸ below
  simp [fromEitherEnd?_natCast, inside]

theorem exists_pick {items : List α} (size : items.length = count) :
    ∃ picked, pick? positions items = some picked ∧ picked.Perm items := by
  cases items with
  | nil =>
    obtain rfl : positions = [] :=
      List.eq_nil_of_length_eq_zero (permutes.length_eq.trans size.symm)
    exact ⟨[], rfl, .nil⟩
  | cons first rest =>
    refine ⟨_, permutes.pick_eq_map size first, ?_⟩
    have moved := List.Perm.map (fun position => (first :: rest).getD position.toNat first) permutes
    have whole : ((List.range count).map fun i : ℕ => (i : ℤ)).map
        (fun position => (first :: rest).getD position.toNat first) = first :: rest := by
      refine List.ext_getElem (by simp [← size]) fun i _ inside => ?_
      simp only [List.getElem_map, List.getElem_range, Int.toNat_natCast,
        List.getD_eq_getElem?_getD, List.getElem?_eq_getElem inside, Option.getD_some]
    rwa [whole] at moved

/-- Pairs are picked by picking on both sides. -/
theorem pick_zip {first : List α} {second : List β} {left : List α} {right : List β}
    (picksLeft : pick? positions first = some left)
    (picksRight : pick? positions second = some right) :
    pick? positions (first.zip second) = some (left.zip right) := by
  obtain ⟨length, own⟩ := permutes.pick_eq_some_iff.1 picksLeft
  obtain ⟨lengths, others⟩ := permutes.pick_eq_some_iff.1 picksRight
  refine permutes.pick_eq_some_iff.2 ⟨by simp [length, lengths], ?_⟩
  intro k i stored
  simp only [List.zip, List.getElem?_zipWith, own k i stored, others k i stored]

/-- Positions that pick every vector as it is are the numbers in turn: a vector with a single one in
it shows where that entry comes from. -/
theorem eq_range_of_pick
    (fixed : ∀ items : List Binary64, items.length = count → pick? positions items = some items) :
    positions = (List.range count).map fun i : ℕ => (i : ℤ) := by
  refine List.ext_getElem (by simp [permutes.length_eq]) fun k here _ => ?_
  obtain ⟨i, inside, place⟩ := permutes.exists_natCast (List.getElem_mem here)
  have below : k < count := permutes.length_eq ▸ here
  let items := (List.replicate count Binary64.zero).set k .one
  have picks := fixed items (by simp [items])
  have own := (permutes.pick_eq_some_iff.1 picks).2 k i (List.getElem?_eq_some_iff.2 ⟨here, place⟩)
  have same : k = i := by
    by_contra other
    have differ : Binary64.one ≠ .zero := by decide
    simp [items, below, inside, other, differ] at own
  rw [place, List.getElem_map, List.getElem_range, same]

end Permutes

theorem pick_range (items : List α) :
    pick? ((List.range items.length).map fun i : ℕ => (i : ℤ)) items = some items := by
  refine (Permutes.pick_eq_some_iff (.refl _)).2 ⟨rfl, fun k i stored => ?_⟩
  rw [List.getElem?_map, Option.map_eq_some_iff] at stored
  obtain ⟨j, inRange, same⟩ := stored
  obtain ⟨_, rfl⟩ := List.getElem?_eq_some_iff.1 inRange
  rw [List.getElem_range, Nat.cast_inj] at same
  rw [same]

theorem exactDot_rationals (c : List ℚ) (solution : List Binary64) :
    exactDot c (rationals solution) =
      ((c.zip solution).map fun pair => pair.1 * pair.2.toRat).sum := by
  simp [exactDot, rationals, List.zip, List.zipWith_map_right, List.map_zipWith]

namespace Bijects

variable {order : VariableOrder} {count : ℕ} (bijects : order.Bijects count)
include bijects

theorem size_eq : order.size = count := Permutes.length_eq bijects.forward

/-- What is picked in one direction is picked back in the other. -/
theorem pick_reverse_iff {items picked : List α} (size : items.length = count)
    (length : picked.length = count) :
    pick? order.reverse items = some picked ↔ pick? order.forward picked = some items := by
  rw [Permutes.pick_eq_some_iff bijects.reverse, Permutes.pick_eq_some_iff bijects.forward]
  constructor
  · rintro ⟨_, same⟩
    exact ⟨size, fun i k stored => (same k i ((bijects.inverse i k).1 stored)).symm⟩
  · rintro ⟨_, same⟩
    exact ⟨length, fun k i stored => (same i k ((bijects.inverse i k).2 stored)).symm⟩

/-- A vector is what is restored from its entries in the order of the form. -/
theorem restore_eq_ok_iff_pick {solution restored : List Binary64}
    (size : solution.length = count) (length : restored.length = count) :
    order.restore solution = .ok restored ↔ pick? order.reverse restored = some solution := by
  rw [restore_eq_ok_iff, bijects.size_eq, and_iff_right size, bijects.pick_reverse_iff length size]

theorem exists_restore {solution : List Binary64} (size : solution.length = count) :
    ∃ restored, order.restore solution = .ok restored ∧ restored.length = count ∧
      pick? order.reverse restored = some solution := by
  obtain ⟨restored, picks, perm⟩ := Permutes.exists_pick bijects.forward size
  have length := perm.length_eq.trans size
  exact ⟨restored, restore_eq_ok_iff.2 ⟨size.trans bijects.size_eq.symm, picks⟩, length,
    (bijects.pick_reverse_iff length size).2 picks⟩

/-- An objective in the order of the form has the same product with a solution as the caller's
objective has with what is restored. -/
theorem exactDot_pick {c moved : List ℚ} {solution restored : List Binary64}
    (sized : c.length = count) (length : restored.length = count)
    (picks : pick? order.reverse c = some moved)
    (restores : pick? order.reverse restored = some solution) :
    exactDot moved (rationals solution) = exactDot c (rationals restored) := by
  have both := Permutes.pick_zip bijects.reverse picks restores
  have pairCount : (c.zip restored).length = count := by simp [sized, length]
  obtain ⟨pairs, found, perm⟩ := Permutes.exists_pick bijects.reverse pairCount
  obtain rfl : moved.zip solution = pairs := Option.some.inj (both.symm.trans found)
  rw [exactDot_rationals, exactDot_rationals]
  exact (perm.map _).sum_eq

theorem isIdentity_iff : order.isIdentity ↔
    ∀ solution : List Binary64, solution.length = count →
      order.restore solution = .ok solution := by
  rw [isIdentity, beq_iff_eq, bijects.size_eq]
  constructor
  · intro own solution size
    rw [bijects.restore_eq_ok_iff_pick size size, own, ← size, pick_range]
  · intro fixed
    exact Permutes.eq_range_of_pick bijects.reverse fun solution size =>
      (bijects.restore_eq_ok_iff_pick size size).1 (fixed solution size)

theorem restore_eq_error {solution : List Binary64} (other : solution.length ≠ count) :
    order.restore solution = .error (.length (.solution solution.length count)) := by
  rw [restore, bijects.size_eq, if_neg other]

end Bijects

/-- Along an order that has been built, restoring undoes bringing a vector into the order of the
form, and is undone by it. It leaves every product with an objective as it is, and it changes
nothing only along the identity. -/
theorem restore_undoes_order [Machine] {order : VariableOrder} {count : ℕ}
    (built : order.IsBuilt count) :
    (∀ x : List Binary64, x.length = count →
      ∃ moved, pick? order.reverse x = some moved ∧ order.restore moved = .ok x) ∧
    (∀ y : List Binary64, y.length = count →
      ∃ restored, order.restore y = .ok restored ∧ pick? order.reverse restored = some y ∧
        ∀ c : List ℚ, c.length = count → ∃ moved, pick? order.reverse c = some moved ∧
          exactDot moved (rationals y) = exactDot c (rationals restored)) ∧
    (order.isIdentity ↔ ∀ x : List Binary64, x.length = count → order.restore x = .ok x) ∧
    ∀ x : List Binary64, x.length ≠ count →
      order.restore x = .error (.length (.solution x.length count)) := by
  have bijects := built.bijects
  refine ⟨fun x size => ?_, fun y size => ?_, bijects.isIdentity_iff,
    fun x other => bijects.restore_eq_error other⟩
  · obtain ⟨moved, picks, perm⟩ := Permutes.exists_pick bijects.reverse size
    have length := perm.length_eq.trans size
    exact ⟨moved, picks, (bijects.restore_eq_ok_iff_pick length size).2 picks⟩
  · obtain ⟨restored, restores, length, picks⟩ := bijects.exists_restore size
    refine ⟨restored, restores, picks, fun c sized => ?_⟩
    obtain ⟨moved, picksObjective, _⟩ := Permutes.exists_pick bijects.reverse sized
    exact ⟨moved, picksObjective, bijects.exactDot_pick sized length picksObjective picks⟩

/-- Three variables that change places in turn, so that the two directions differ. -/
def rotating : List ConeEntry := [(.secondOrder, [2]), (.free, [0]), (.nonpos, [1])]

theorem restore_undoes_rotating : ∃ order,
    ofGiven (ConeList.toDatum rotating) (.integer (3 : ℕ)) = .ok order ∧
      order.reverse = [1, 2, 0] ∧ order.forward = [2, 0, 1] ∧ order.isIdentity = false ∧
      order.restore [.zero, .one, .infinity true] = .ok [.infinity true, .zero, .one] ∧
      order.restore [.nan] = .error (.length (.solution 1 3)) := by
  obtain ⟨order, arranged, directions⟩ : ∃ order,
      ofGiven (ConeList.toDatum rotating) (.integer (3 : ℕ)) = .ok order ∧
        (order.reverse, order.forward, order.isIdentity) = ([1, 2, 0], [2, 0, 1], false) :=
    Outcome.exists_of_toOption_map (by decide +kernel)
  obtain ⟨reverse, forward, identity⟩ : order.reverse = [1, 2, 0] ∧ order.forward = [2, 0, 1] ∧
      order.isIdentity = false := by simpa using directions
  have built : order.IsBuilt 3 := .ofGiven rfl arranged
  obtain ⟨undone, _, _, refused⟩ := restore_undoes_order built
  obtain ⟨moved, picks, restores⟩ := undone [.infinity true, .zero, .one] rfl
  rw [reverse] at picks
  obtain rfl : [.zero, .one, .infinity true] = moved := Option.some.inj picks
  exact ⟨order, arranged, reverse, forward, identity, restores, refused [.nan] (by decide)⟩

end ConicForm.VariableOrder
