import ConicForm.Proofs.ConeSequences
import ConicForm.Proofs.WellFormedForm
import ConicForm.VariableOrder.Given

/-! The order of variables that is arranged from their cones. There is one if and only if every
variable is listed exactly once. It has the kinds in turn, keeps what is listed within each turn,
and leaves no gap in a group of second order. -/
namespace ConicForm.VariableOrder

open ConeList (flattened groups orthant)
open Outcome (OnlyRefused Refused Unread)

/-- When the variables of a kind have their turn. The two half-lines share theirs. -/
def turn : Cone → ℕ
  | .nonneg | .nonpos => 0
  | .secondOrder => 1
  | .zero => 2
  | _ => 3

/-- Both variables have a place, and that of the first is the smaller one. -/
def Before (order : VariableOrder) (i j : ℤ) : Prop :=
  ∃ here there : ℤ, order.forward[i.toNat]? = some here ∧
    order.forward[j.toNat]? = some there ∧ here < there

/-- How an order has the variables of some entries. -/
structure Arranges (order : VariableOrder) (entries : List ConeEntry) : Prop where
  turns : ∀ first ∈ entries, ∀ second ∈ entries, turn first.1 < turn second.1 →
    ∀ i ∈ first.2, ∀ j ∈ second.2, order.Before i j
  asListed : ∀ k, (listed (entries.filter fun entry => turn entry.1 == k)).Pairwise order.Before
  consecutive : ∀ entry ∈ entries, entry.1 = .secondOrder → ∃ start : ℕ,
    ∀ k (below : k < entry.2.length),
      order.forward[entry.2[k].toNat]? = some ((start + k : ℕ) : ℤ)

section Bijects

variable {order : VariableOrder} {count : ℕ} (bijects : order.Bijects count)
include bijects

theorem Bijects.forward_of_reverse {k : ℕ} {i : ℤ} (stored : order.reverse[k]? = some i) :
    order.forward[i.toNat]? = some (k : ℤ) := by
  obtain ⟨j, _, rfl⟩ :=
    List.mem_map.1 (bijects.reverse.mem_iff.1 (List.mem_of_getElem? stored))
  exact (bijects.inverse j k).2 stored

theorem Bijects.pairwise_before : order.reverse.Pairwise order.Before := by
  rw [List.pairwise_iff_getElem]
  intro k l here there less
  refine ⟨k, l, bijects.forward_of_reverse (List.getElem?_eq_getElem here),
    bijects.forward_of_reverse (List.getElem?_eq_getElem there), ?_⟩
  exact_mod_cast less

/-- The variables of a stretch have the places of the stretch. -/
theorem Bijects.forward_of_append {before stretch after : List ℤ}
    (split : order.reverse = before ++ stretch ++ after) {k : ℕ} (below : k < stretch.length) :
    order.forward[stretch[k].toNat]? = some ((before.length + k : ℕ) : ℤ) :=
  bijects.forward_of_reverse (getElem?_of_append split below)

end Bijects

/-- What is listed for one turn is the sequence under its kinds. -/
theorem listed_turn (kinds : List Cone) (k : ℕ) {entries : List ConeEntry}
    (segments : ∀ entry ∈ entries, hasSegment entry.1)
    (own : ∀ kind, hasSegment kind → (turn kind == k) = kinds.contains kind) :
    listed (entries.filter fun entry => turn entry.1 == k) =
      (flattened kinds entries).map Prod.snd := by
  rw [ConeList.snd_flattened]
  exact congrArg listed (List.filter_congr fun entry member => own entry.1 (segments entry member))

/-- An order has the turns one after the other. -/
theorem reverse_eq_turns {entries : List ConeEntry} {count : ℕ} {reverse : List ℕ}
    (arrangedAs : arrange entries count = .ok reverse) :
    reverse.map (fun i : ℕ => (i : ℤ)) = ((List.range 4).map fun k =>
      listed (entries.filter fun entry => turn entry.1 == k)).flatten := by
  have segments := (arrange_eq_ok_iff.1 arrangedAs).1
  have first := listed_turn [.nonneg, .nonpos] 0 segments (by intro kind; cases kind <;> decide)
  have second := listed_turn [.secondOrder] 1 segments (by intro kind; cases kind <;> decide)
  have third := listed_turn [.zero] 2 segments (by intro kind; cases kind <;> decide)
  have last := listed_turn [.free] 3 segments (by intro kind; cases kind <;> decide)
  rw [reverse_of_arrange arrangedAs, List.range_succ, List.range_succ, List.range_succ,
    List.range_succ]
  simp only [ConeList.snd_flattened_singleton] at second third last
  simp [first, second, third, last, orthant]

theorem turn_lt {kind : Cone} : turn kind < 4 := by
  cases kind <;> decide

section Arranged

variable {entries : List ConeEntry} {count : ℕ} {reverse : List ℕ}
  (arrangedAs : arrange entries count = .ok reverse)
include arrangedAs

/-- Places ascend within each turn, and from each turn to the later ones. -/
theorem before_of_arrange :
    (∀ k < 4, (listed (entries.filter fun entry => turn entry.1 == k)).Pairwise
      (ofReverse reverse).Before) ∧
    ∀ k l, k < l → l < 4 → ∀ i ∈ listed (entries.filter fun entry => turn entry.1 == k),
      ∀ j ∈ listed (entries.filter fun entry => turn entry.1 == l),
        (ofReverse reverse).Before i j := by
  have ordered := (bijects_ofReverse (perm_of_arrange arrangedAs)).pairwise_before
  have turns : (ofReverse reverse).reverse = _ := reverse_eq_turns arrangedAs
  rw [turns, List.pairwise_flatten, List.pairwise_map, List.forall_mem_map] at ordered
  obtain ⟨within, between⟩ := ordered
  refine ⟨fun k below => within k (List.mem_range.2 below), fun k l less below => ?_⟩
  have apart := List.pairwise_iff_getElem.1 between k l
    (by rw [List.length_range]; omega) (by rwa [List.length_range]) less
  rwa [List.getElem_range, List.getElem_range] at apart

/-- A group is a stretch of the order. -/
theorem consecutive_of_arrange {entry : ConeEntry} (member : entry ∈ entries)
    (kind : entry.1 = .secondOrder) : ∃ start : ℕ, ∀ k (below : k < entry.2.length),
      (ofReverse reverse).forward[entry.2[k].toNat]? = some ((start + k : ℕ) : ℤ) := by
  have grouped : entry.2 ∈ groups .secondOrder entries :=
    List.mem_map_of_mem (List.mem_filter.2 ⟨member, by simpa using kind⟩)
  obtain ⟨earlier, later, split⟩ := List.append_of_mem grouped
  have placed : (ofReverse reverse).reverse =
      ((orthant entries).map Prod.snd ++ earlier.flatten) ++ entry.2 ++
        (later.flatten ++ (groups .zero entries).flatten ++ (groups .free entries).flatten) := by
    show reverse.map _ = _
    rw [reverse_of_arrange arrangedAs, split]
    simp
  have bijects := bijects_ofReverse (perm_of_arrange arrangedAs)
  exact ⟨_, fun k below => bijects.forward_of_append placed below⟩

theorem arranges_of_arrange : (ofReverse reverse).Arranges entries := by
  obtain ⟨within, between⟩ := before_of_arrange arrangedAs
  constructor
  · intro first firstMember second secondMember less i own j other
    refine between _ _ less turn_lt i ?_ j ?_
    · exact ConicProblem.mem_listed (List.mem_filter.2 ⟨firstMember, by simp⟩) own
    · exact ConicProblem.mem_listed (List.mem_filter.2 ⟨secondMember, by simp⟩) other
  · intro k
    by_cases below : k < 4
    · exact within k below
    · have none : entries.filter (fun entry => turn entry.1 == k) = [] := by
        rw [List.filter_eq_nil_iff]
        intro entry _
        have := @turn_lt entry.1
        simp only [beq_iff_eq]
        omega
      rw [none]
      exact .nil
  · exact fun entry member kind => consecutive_of_arrange arrangedAs member kind

end Arranged

section Given

theorem foldlM_assignGiven (count : ℕ) (indices : List ℤ) (seen : List ℕ) :
    (indices.map Datum.integer).foldlM (assignGiven count) seen =
      assign .vars count seen indices := by
  induction indices generalizing seen with
  | nil => rfl
  | cons index indices ih =>
    have single : assignGiven count seen (.integer index) = assign .vars count seen [index] := by
      by_cases inside : 0 ≤ index ∧ index < (count : ℤ)
      · simp [assignGiven, isInside, Datum.toExactInteger, Datum.exactInteger?, Except.map,
          Except.bind, inside]
      · simp [assignGiven, isInside, Datum.toExactInteger, Datum.exactInteger?, Except.map,
          Except.bind, inside, assign]
    rw [List.map_cons, List.foldlM_cons, single]
    by_cases inside : 0 ≤ index ∧ index < (count : ℤ)
    · by_cases repeated : index.toNat ∈ seen
      · simp [assign, inside, repeated, bind, Except.bind]
      · simp [assign, inside, repeated, bind, Except.bind, ih]
    · simp [assign, inside, bind, Except.bind]

theorem mapM_toExactInteger (indices : List ℤ) :
    (indices.map Datum.integer).mapM Datum.toExactInteger = .ok indices := by
  rw [Outcome.mapM_eq_ok_iff, List.forall₂_map_left_iff, List.forall₂_same]
  exact fun _ _ => rfl

/-- An entry that is used as it is given is assigned like one that has been read. -/
theorem assignEntry_toDatum [Machine] (count : ℕ) (seen : List ℕ) (before : List ConeEntry)
    {entry : ConeEntry} (segment : hasSegment entry.1) :
    assignEntry count (seen, before) (.list [.cone entry.1, .list (entry.2.map .integer)]) =
      (assign .vars count seen entry.2).map fun seen => (seen, before ++ [entry]) := by
  have kind : groupKind (.cone entry.1) = .ok entry.1 := by rw [groupKind, if_pos segment]
  have assigned := foldlM_assignGiven count entry.2 seen
  simp only [assignEntry, Datum.pair, Datum.elements, Except.bind, bind, assigned, kind,
    mapM_toExactInteger, pure, Except.pure]
  cases assign .vars count seen entry.2 <;> rfl

theorem foldlM_assignEntry [Machine] (count : ℕ) {entries : List ConeEntry}
    (segments : ∀ entry ∈ entries, hasSegment entry.1) (seen : List ℕ) (before : List ConeEntry) :
    (entries.map fun entry => Datum.list [.cone entry.1, .list (entry.2.map .integer)]).foldlM
        (assignEntry count) (seen, before) =
      (assignAll count seen entries).map fun seen => (seen, before ++ entries) := by
  induction entries generalizing seen before with
  | nil => simp [assignAll, Except.map, pure, Except.pure]
  | cons entry entries ih =>
    obtain ⟨own, later⟩ := List.forall_mem_cons.1 segments
    rw [List.map_cons, List.foldlM_cons, assignEntry_toDatum count seen before own]
    obtain ⟨kind, indices⟩ := entry
    simp only [assignAll]
    cases assign .vars count seen indices with
    | error fault => rfl
    | ok extended =>
      simp only [Except.map, Except.bind, bind, if_pos own]
      rw [ih later]
      simp [Except.map]

/-- Cones that are given as members with integers are arranged like entries that have been read. -/
theorem ofGiven_toDatum [Machine] {entries : List ConeEntry}
    (segments : ∀ entry ∈ entries, hasSegment entry.1) (count : ℕ) :
    ofGiven (ConeList.toDatum entries) (.integer count) = ofCones entries count := by
  have counted : (Datum.integer count).toLength 1 =
      (Capacity.arrayLength 1 count).mapError Fault.data := by
    simp only [Datum.toLength, Datum.toExactInteger, Datum.exactInteger?, Except.bind]
    rw [if_neg (by omega)]
  have folded := foldlM_assignEntry count segments [] []
  simp only [ofGiven, counted, ofCones]
  cases room : Capacity.arrayLength 1 count with
  | error cause => rfl
  | ok marks =>
    obtain ⟨rfl, _⟩ := Capacity.arrayLength_one_eq_ok_iff.1 room
    simp only [Except.mapError, Except.bind, ofCounted, ConeList.toDatum, Datum.elements, bind,
      folded, arrange]
    cases assignAll marks [] entries <;> rfl

end Given

/-- More variables than can be marked. -/
theorem unread_ofCones [Machine] (entries : List ConeEntry) {count : ℕ}
    (large : Machine.memory < (count : ℤ)) : Unread (ofCones entries count) := by
  cases marked : Capacity.arrayLength 1 count with
  | ok marks => exact absurd (Capacity.arrayLength_one_eq_ok_iff.1 marked).2 (not_le_of_gt large)
  | error cause =>
    rw [ofCones, marked]
    exact ⟨cause, rfl, Capacity.arrayLength_eq_error marked⟩

section Decided

variable {entries : List ConeEntry} (segments : ∀ entry ∈ entries, hasSegment entry.1) {count : ℕ}
include segments

theorem exists_ofCones_iff [Machine] (room : (count : ℤ) ≤ Machine.memory) :
    (∃ order, ofCones entries count = .ok order) ↔ Complete count (listed entries) := by
  simp only [ofCones_eq_ok_iff, Capacity.arrayLength_one_eq_ok_iff, exists_eq_left, room,
    true_and]
  rw [← exists_arrange_iff segments]
  exact ⟨fun ⟨_, reverse, arrangedAs, _⟩ => ⟨reverse, arrangedAs⟩,
    fun ⟨reverse, arrangedAs⟩ => ⟨_, reverse, arrangedAs, rfl⟩⟩

/-- Where the variables can be marked, only an index can be refused. -/
theorem onlyRefused_ofCones [Machine] (room : (count : ℤ) ≤ Machine.memory)
    (writable : WritableIndices entries) : OnlyRefused .index (ofCones entries count) := by
  rw [ofCones, Capacity.arrayLength_one_eq_ok_iff.2 ⟨rfl, room⟩]
  exact (onlyRefused_arrange segments writable count).map ofReverse

/-- Variables are arranged if and only if each of them is listed once and nothing else is; otherwise
an index is refused, as long as it can be written. The order that is arranged is a bijection, with
the kinds in turn. More variables than can be marked are never arranged. -/
theorem ofGiven_arranges [Machine] :
    ((count : ℤ) ≤ Machine.memory →
      ((∃ order, ofGiven (ConeList.toDatum entries) (.integer count) = .ok order) ↔
        Complete count (listed entries)) ∧
      (WritableIndices entries → ¬Complete count (listed entries) →
        Refused .index (ofGiven (ConeList.toDatum entries) (.integer count)))) ∧
    (Machine.memory < (count : ℤ) →
      Unread (ofGiven (ConeList.toDatum entries) (.integer count))) ∧
    ∀ order, ofGiven (ConeList.toDatum entries) (.integer count) = .ok order →
      order.Bijects count ∧ order.Arranges entries := by
  rw [ofGiven_toDatum segments]
  refine ⟨fun room => ⟨exists_ofCones_iff segments room, fun writable other => ?_⟩,
    unread_ofCones entries, fun order arrangedAs => ?_⟩
  · refine (onlyRefused_ofCones segments room writable).refused fun order arrangedAs => other ?_
    exact (exists_ofCones_iff segments room).1 ⟨order, arrangedAs⟩
  · obtain ⟨-, reverse, given, rfl⟩ := ofCones_eq_ok_iff.1 arrangedAs
    exact ⟨bijects_ofReverse (perm_of_arrange given), arranges_of_arrange given⟩

end Decided

/-- Entries of all kinds, with the two half-lines around the others. -/
def interleaved : List ConeEntry :=
  [(.free, [4]), (.nonpos, [0]), (.secondOrder, [3, 1]), (.zero, [2]), (.nonneg, [5])]

/-- A variable that is listed twice is refused. -/
theorem ofGiven_interleaved : (∃ order,
    ofGiven (ConeList.toDatum interleaved) (.integer (6 : ℕ)) = .ok order ∧
      order.reverse = [0, 5, 3, 1, 2, 4] ∧ order.Bijects 6 ∧ order.Arranges interleaved) ∧
    Refused .index
      (ofGiven (ConeList.toDatum ((.zero, [3]) :: interleaved)) (.integer (6 : ℕ))) := by
  have segments : ∀ entry ∈ (Cone.zero, [3]) :: interleaved, hasSegment entry.1 := by decide
  obtain ⟨-, -, arranges⟩ := @ofGiven_arranges interleaved (List.forall_mem_cons.1 segments).2 6 _
  obtain ⟨order, arranged, reverse⟩ : ∃ order,
      ofGiven (ConeList.toDatum interleaved) (.integer (6 : ℕ)) = .ok order ∧
        order.reverse = [0, 5, 3, 1, 2, 4] := Outcome.exists_of_toOption_map (by decide +kernel)
  obtain ⟨bijects, turns⟩ := arranges order arranged
  obtain ⟨refused, -, -⟩ := @ofGiven_arranges _ segments 6 _
  refine ⟨⟨order, arranged, reverse, bijects, turns⟩, (refused (by decide)).2 ?_ ?_⟩
  · unfold WritableIndices
    decide +kernel
  · decide +kernel

/-- Neither too many variables nor an index with too many digits is refused for what is wrong with
it. -/
theorem arrangement_missed :
    (∃ (entries : List ConeEntry) (count : ℕ), (∀ entry ∈ entries, hasSegment entry.1) ∧
      WritableIndices entries ∧ ¬Complete count (listed entries) ∧
        Unread (ofGiven (ConeList.toDatum entries) (.integer count))) ∧
    ∃ (entries : List ConeEntry) (count : ℕ), (∀ entry ∈ entries, hasSegment entry.1) ∧
      (count : ℤ) ≤ Machine.memory ∧ ¬Complete count (listed entries) ∧
        Unread (ofGiven (ConeList.toDatum entries) (.integer count)) := by
  have segment (index : ℤ) : ∀ entry ∈ [((.free, [index]) : ConeEntry)], hasSegment entry.1 :=
    List.forall_mem_singleton.2 rfl
  have apart {index : ℤ} {count : ℕ} (outside : ¬(0 ≤ index ∧ index < (count : ℤ))) :
      ¬Complete count (listed [(.free, [index])]) := by
    intro complete
    have own : index ∈ listed [(.free, [index])] := List.mem_singleton.2 rfl
    obtain ⟨i, below, rfl⟩ := List.mem_map.1 (complete.mem_iff.1 own)
    have := List.mem_range.1 below
    omega
  refine ⟨⟨[(.free, [-1])], 2 ^ 63, segment _, ?_, apart (by decide), ?_⟩,
    [(.free, [10 ^ 4300])], 1, segment _, by decide, apart (by decide +kernel), ?_⟩
  · exact List.forall_mem_singleton.2 (Capacity.writable_of_isWord (by decide))
  · rw [ofGiven_toDatum (segment _)]
    exact unread_ofCones _ (by decide)
  · have outside : assign .vars 1 [] [10 ^ 4300] = .error (.data .malformed) :=
      assign_overlong (by decide +kernel) (by decide +kernel)
    rw [ofGiven_toDatum (segment _), ofCones, arrange, assignAll, outside]
    exact ⟨.malformed, rfl, .inl rfl⟩

end ConicForm.VariableOrder
