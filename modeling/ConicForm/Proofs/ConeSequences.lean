import ConicForm.Proofs.ConicAcceptance

/-! What of a list of cones the form depends on: the indices under some kinds one after the other,
each with its kind, and the groups of one kind. How entries are split, and how those of different
kinds are interleaved, is lost in both. -/
namespace ConicForm

namespace ConeList

/-- The indices under some kinds in the order in which they are listed, each with its kind. -/
def flattened (kinds : List Cone) (entries : List ConeEntry) : List (Cone × ℤ) :=
  (entries.filter fun entry => kinds.contains entry.1).flatMap fun entry =>
    entry.2.map fun index => (entry.1, index)

/-- The indices of each entry of one kind. -/
def groups (kind : Cone) (entries : List ConeEntry) : List (List ℤ) :=
  (entries.filter fun entry => entry.1 == kind).map Prod.snd

/-- The indices in the orthant, of both signs. -/
def orthant (entries : List ConeEntry) : List (Cone × ℤ) := flattened [.nonneg, .nonpos] entries

theorem flattened_append (kinds : List Cone) (first second : List ConeEntry) :
    flattened kinds (first ++ second) = flattened kinds first ++ flattened kinds second := by
  simp [flattened]

theorem flattened_cons (kinds : List Cone) (entry : ConeEntry) (entries : List ConeEntry) :
    flattened kinds (entry :: entries) =
      (if kinds.contains entry.1 then entry.2.map fun index => (entry.1, index) else []) ++
        flattened kinds entries := by
  unfold flattened
  rw [List.filter_cons]
  by_cases chosen : kinds.contains entry.1
  · rw [if_pos chosen, if_pos chosen, List.flatMap_cons]
  · rw [if_neg chosen, if_neg chosen, List.nil_append]

/-- Under one kind the indices are those of its groups. -/
theorem flattened_singleton (kind : Cone) (entries : List ConeEntry) :
    flattened [kind] entries = (groups kind entries).flatten.map fun index => (kind, index) := by
  induction entries with
  | nil => rfl
  | cons entry entries ih =>
    rw [flattened_cons, ih, groups, groups, List.filter_cons]
    by_cases same : entry.1 = kind
    · simp [same]
    · simp [same]

theorem snd_flattened_singleton (kind : Cone) (entries : List ConeEntry) :
    (flattened [kind] entries).map Prod.snd = (groups kind entries).flatten := by
  rw [flattened_singleton, List.map_map]
  exact List.map_id _

/-- Without their kinds, the indices are what is listed under the kinds. -/
theorem snd_flattened (kinds : List Cone) (entries : List ConeEntry) :
    (flattened kinds entries).map Prod.snd =
      VariableOrder.listed (entries.filter fun entry => kinds.contains entry.1) := by
  rw [flattened, List.map_flatMap, VariableOrder.listed]
  refine List.flatMap_congr fun entry _ => ?_
  rw [List.map_map]
  exact List.map_id _

theorem mem_flattened_iff {kinds : List Cone} {entries : List ConeEntry} {kind : Cone} {index : ℤ} :
    (kind, index) ∈ flattened kinds entries ↔
      ∃ entry ∈ entries, kinds.contains entry.1 ∧ entry.1 = kind ∧ index ∈ entry.2 := by
  simp only [flattened, List.mem_flatMap, List.mem_filter, List.mem_map, Prod.mk.injEq, and_assoc]
  refine exists_congr fun entry => and_congr_right fun _ => and_congr_right fun _ => ?_
  constructor
  · rintro ⟨_, own, rfl, rfl⟩
    exact ⟨rfl, own⟩
  · rintro ⟨rfl, own⟩
    exact ⟨index, own, rfl, rfl⟩

theorem mem_listed_of_mem_flattened {kinds : List Cone} {entries : List ConeEntry}
    {item : Cone × ℤ} (member : item ∈ flattened kinds entries) :
    item.2 ∈ VariableOrder.listed entries := by
  obtain ⟨entry, stored, _, _, own⟩ := mem_flattened_iff.1 member
  exact ConicProblem.mem_listed stored own

theorem mem_listed_of_mem_groups {kind : Cone} {entries : List ConeEntry} {index : ℤ}
    (member : index ∈ (groups kind entries).flatten) : index ∈ VariableOrder.listed entries := by
  rw [← snd_flattened_singleton] at member
  obtain ⟨item, own, rfl⟩ := List.mem_map.1 member
  exact mem_listed_of_mem_flattened own

end ConeList

open ConeList (flattened groups orthant)

namespace VariableOrder

/-- An item of a stretch is found as far behind the start of the stretch. -/
theorem getElem?_of_append {items before stretch after : List α}
    (split : items = before ++ stretch ++ after) {k : ℕ} (below : k < stretch.length) :
    items[before.length + k]? = some stretch[k] := by
  rw [split, List.append_assoc, List.getElem?_append_right (Nat.le_add_right _ _),
    Nat.add_sub_cancel_left, List.getElem?_append_left below, List.getElem?_eq_getElem below]

theorem segment_eq_map (kinds : List Cone) (entries : List ConeEntry) :
    segment kinds entries = ((flattened kinds entries).map Prod.snd).map Int.toNat := by
  rw [ConeList.snd_flattened, segment, listed, List.map_flatMap]

/-- The variables of an order that is arranged: the orthant, the groups of second order, the zeros
and the free ones, each as they are listed. -/
theorem reverse_of_arrange {entries : List ConeEntry} {count : ℕ} {reverse : List ℕ}
    (arrangedAs : arrange entries count = .ok reverse) :
    reverse.map (fun i : ℕ => (i : ℤ)) =
      (orthant entries).map Prod.snd ++ (groups .secondOrder entries).flatten ++
        (groups .zero entries).flatten ++ (groups .free entries).flatten := by
  obtain ⟨_, lower, _, rfl⟩ := arrange_eq_ok_iff.1 arrangedAs
  have own (kinds : List Cone) : (segment kinds entries).map (fun i : ℕ => (i : ℤ)) =
      (flattened kinds entries).map Prod.snd := by
    rw [segment_eq_map]
    refine map_cast_toNat (List.forall_mem_map.2 fun item member => ?_)
    exact lower _ (ConeList.mem_listed_of_mem_flattened member)
  rw [arranged]
  simp only [List.map_append, own, ConeList.snd_flattened_singleton]
  rfl

end VariableOrder

namespace ConicProblem

/-- Rows are made from the indices one after the other, wherever an entry ends. -/
theorem rowsUnder_eq_map {kinds : List Cone} {factor? : Cone → Option Binary64}
    {factor : Cone → Binary64}
    (chosen : ∀ kind, factor? kind = if kinds.contains kind then some (factor kind) else none)
    (entries : List ConeEntry) (row : Binary64 → ℤ → ConstraintRow) :
    rowsUnder entries factor? row =
      (flattened kinds entries).map fun item => row (factor item.1) item.2 := by
  induction entries with
  | nil => rfl
  | cons entry entries ih =>
    rw [rowsUnder_cons, ConeList.flattened_cons, ih, List.map_append, chosen]
    by_cases own : kinds.contains entry.1
    · rw [if_pos own, if_pos own, Option.elim_some, List.map_map]
      rfl
    · rw [if_neg own, if_neg own, Option.elim_none, List.map_nil]

/-- The sign that a row of the orthant is taken with. -/
def sign (kind : Cone) : Binary64 := if kind = .nonpos then -.one else .one

theorem orthantFactor?_eq (kind : Cone) : orthantFactor? kind =
    if [Cone.nonneg, .nonpos].contains kind then some (sign kind) else none := by
  cases kind <;> rfl

theorem orthantCoefficient?_eq (kind : Cone) : orthantCoefficient? kind =
    if [Cone.nonneg, .nonpos].contains kind then some (-sign kind) else none := by
  cases kind with
  | nonpos => exact congrArg some (Binary64.neg_neg _).symm
  | _ => rfl

theorem onlyFor_eq (kind : Cone) (factor : Binary64) (k : Cone) : onlyFor kind factor k =
    if [kind].contains k then some factor else none := by
  by_cases same : k = kind <;> simp [onlyFor, same]

theorem rowsUnder_onlyFor (kind : Cone) (factor : Binary64) (entries : List ConeEntry)
    (row : Binary64 → ℤ → ConstraintRow) : rowsUnder entries (onlyFor kind factor) row =
      (groups kind entries).flatten.map (row factor) := by
  rw [rowsUnder_eq_map (onlyFor_eq kind factor), ConeList.flattened_singleton, List.map_map]
  rfl

section Rows

variable (problem : ConicProblem) (place : ℤ → ℤ)

theorem orthantRows_eq : problem.orthantRows place =
    ((orthant problem.variableCones).map fun item => unitRow place (-sign item.1) item.2) ++
      (orthant problem.rowCones).map fun item => problem.movedRow place (sign item.1) item.2 := by
  rw [orthantRows, rowsUnder_eq_map orthantCoefficient?_eq, rowsUnder_eq_map orthantFactor?_eq]
  rfl

theorem secondOrderRows_eq : problem.secondOrderRows place =
    (groups .secondOrder problem.variableCones).flatten.map (unitRow place (-.one)) ++
      (groups .secondOrder problem.rowCones).flatten.map (problem.movedRow place .one) := by
  rw [secondOrderRows, rowsUnder_onlyFor, rowsUnder_onlyFor]

theorem equalityRows_eq : problem.equalityRows place =
    (problem.keptIndices.map fun i : ℕ => problem.movedRow place .one (i : ℤ)) ++
      (groups .zero problem.variableCones).flatten.map (unitRow place .one) := by
  rw [equalityRows, rowsUnder_onlyFor]

theorem sizes_eq : problem.sizes =
    (groups .secondOrder problem.variableCones ++ groups .secondOrder problem.rowCones).map
      List.length := by
  rw [sizes, List.filter_append, groups, groups, ← List.map_append, List.map_map]
  rfl

end Rows

/-- The constraint rows below a bound that are in no cone but a zero cone. -/
def kept (count : ℕ) (rowCones : List ConeEntry) : List ℕ :=
  (List.range count).filter fun i : ℕ =>
    (i : ℤ) ∉ (orthant rowCones).map Prod.snd ++ (groups .secondOrder rowCones).flatten

theorem mem_movedIndices_iff_flattened {problem : ConicProblem} {i : ℕ} :
    i ∈ problem.movedIndices ↔ ∃ index ∈ (orthant problem.rowCones).map Prod.snd ++
      (groups .secondOrder problem.rowCones).flatten, index.toNat = i := by
  have split (item : Cone × ℤ) :
      item ∈ flattened [.nonneg, .nonpos, .secondOrder] problem.rowCones ↔
        item ∈ orthant problem.rowCones ++ flattened [.secondOrder] problem.rowCones := by
    obtain ⟨kind, index⟩ := item
    simp only [List.mem_append, orthant, ConeList.mem_flattened_iff, ← exists_or, ← and_or_left]
    refine exists_congr fun entry => and_congr_right fun _ => ?_
    simp [or_and_right, or_assoc]
  rw [movedIndices, VariableOrder.segment_eq_map, ← ConeList.snd_flattened_singleton,
    ← List.map_append]
  simp only [List.mem_map, split]

theorem keptIndices_eq {problem : ConicProblem}
    (lower : ∀ i ∈ VariableOrder.listed problem.rowCones, 0 ≤ i) :
    problem.keptIndices = kept problem.bounds.length problem.rowCones := by
  refine List.filter_congr fun i _ => ?_
  rw [List.contains_eq_mem, ← decide_not]
  refine decide_eq_decide.2 (not_congr ?_)
  rw [mem_movedIndices_iff_flattened]
  constructor
  · rintro ⟨index, member, rfl⟩
    have inListed : index ∈ VariableOrder.listed problem.rowCones := by
      rcases List.mem_append.1 member with member | member
      · obtain ⟨item, own, rfl⟩ := List.mem_map.1 member
        exact ConeList.mem_listed_of_mem_flattened own
      · exact ConeList.mem_listed_of_mem_groups member
    rwa [Int.toNat_of_nonneg (lower index inListed)]
  · exact fun member => ⟨_, member, Int.toNat_natCast i⟩

end ConicProblem
end ConicForm
