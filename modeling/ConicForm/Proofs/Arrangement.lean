import ConicForm.Proofs.Outcome
import ConicForm.Proofs.RationalMeaning
import ConicForm.VariableOrder

/-! Arranging variables by their cones is a permutation: it succeeds where every variable is listed
exactly once, and then no variable is lost. A vector can be brought into the order of the form and
back. -/
namespace ConicForm.VariableOrder

/-- All indices of the entries, in the order in which they are listed. -/
def listed (entries : List ConeEntry) : List ℤ := entries.flatMap fun entry => entry.2

/-- The place of a variable where the variables are listed in their new order. -/
def place (reverse : List ℕ) (j : ℤ) : ℤ := (reverse.idxOf j.toNat : ℤ)

/-- A vector of the caller's variables in the order of a form. -/
def toForm {K : Type*} [Field K] (order : VariableOrder) (x : List K) : List K :=
  order.reverse.map (entryAt x)

theorem assign_eq_ok_iff {owner : Indexed} {count : ℕ} {seen : List ℕ} {indices : List ℤ}
    {result : List ℕ} (fresh : seen.Nodup) :
    assign owner count seen indices = .ok result ↔
      (∀ index ∈ indices, 0 ≤ index ∧ index < (count : ℤ)) ∧
        (seen ++ indices.map Int.toNat).Nodup ∧ result = seen ++ indices.map Int.toNat := by
  induction indices generalizing seen with
  | nil => simp [assign, fresh, eq_comm]
  | cons index indices ih =>
    by_cases inside : 0 ≤ index ∧ index < (count : ℤ)
    · by_cases repeated : index.toNat ∈ seen
      · have twice : ¬(seen ++ (index :: indices).map Int.toNat).Nodup := by
          intro nodup
          exact (List.nodup_append.1 nodup).2.2 _ repeated _ (by simp) rfl
        rw [assign, if_pos inside, if_pos repeated]
        simp only [reduceCtorEq, twice, false_and, and_false]
      · have extended : (seen ++ [index.toNat]).Nodup := by
          rw [List.nodup_append]
          refine ⟨fresh, by simp, fun a member b own => ?_⟩
          rw [List.mem_singleton.1 own]
          exact fun same : a = index.toNat => repeated (same ▸ member)
        rw [assign, if_pos inside, if_neg repeated, ih extended]
        simp [inside]
    · simp [assign, inside]

theorem assignAll_eq_ok_iff {count : ℕ} {seen : List ℕ} {entries : List ConeEntry}
    {result : List ℕ} (fresh : seen.Nodup) :
    assignAll count seen entries = .ok result ↔
      (∀ entry ∈ entries, hasSegment entry.1) ∧
        (∀ index ∈ listed entries, 0 ≤ index ∧ index < (count : ℤ)) ∧
        (seen ++ (listed entries).map Int.toNat).Nodup ∧
        result = seen ++ (listed entries).map Int.toNat := by
  induction entries generalizing seen with
  | nil =>
    simp only [assignAll, listed, Except.ok.injEq, List.flatMap_nil, List.not_mem_nil,
      false_implies, implies_true, List.map_nil, List.append_nil, fresh, true_and]
    exact eq_comm
  | cons entry entries ih =>
    obtain ⟨kind, indices⟩ := entry
    have split : listed ((kind, indices) :: entries) = indices ++ listed entries := rfl
    rw [split]
    cases assigned : assign .vars count seen indices with
    | error fault =>
      have refused : ¬((∀ index ∈ indices, 0 ≤ index ∧ index < (count : ℤ)) ∧
          (seen ++ indices.map Int.toNat).Nodup) := by
        intro accepted
        have succeeded : assign .vars count seen indices = .ok (seen ++ indices.map Int.toNat) :=
          (assign_eq_ok_iff fresh).2 ⟨accepted.1, accepted.2, rfl⟩
        rw [assigned] at succeeded
        cases succeeded
      simp only [assignAll, assigned, Except.bind, reduceCtorEq, false_iff]
      rintro ⟨_, inside, nodup, _⟩
      rw [List.map_append, ← List.append_assoc] at nodup
      exact refused ⟨fun index member => inside index (List.mem_append_left _ member),
        (List.nodup_append.1 nodup).1⟩
    | ok extended =>
      obtain ⟨inside, nodup, rfl⟩ := (assign_eq_ok_iff fresh).1 assigned
      simp only [assignAll, assigned, Except.bind]
      by_cases placed : hasSegment kind
      · rw [if_pos placed, ih nodup]
        simp only [List.mem_cons, forall_eq_or_imp, placed, true_and, List.mem_append,
          List.map_append, List.append_assoc]
        constructor
        · rintro ⟨segments, later, rest⟩
          exact ⟨segments, fun index member => member.elim (inside index) (later index), rest⟩
        · rintro ⟨segments, all, rest⟩
          exact ⟨segments, fun index member => all index (Or.inr member), rest⟩
      · simp [placed]

theorem segment_cons (kinds : List Cone) (entry : ConeEntry) (entries : List ConeEntry) :
    segment kinds (entry :: entries) =
      (if kinds.contains entry.1 then entry.2.map Int.toNat else []) ++ segment kinds entries := by
  unfold segment
  rw [List.filter_cons]
  by_cases chosen : kinds.contains entry.1
  · rw [if_pos chosen, if_pos chosen, List.flatMap_cons]
  · rw [if_neg chosen, if_neg chosen, List.nil_append]

/-- The segments together have what is listed, each entry in one of them. -/
theorem arranged_perm {entries : List ConeEntry}
    (placed : ∀ entry ∈ entries, hasSegment entry.1) :
    (arranged entries).Perm ((listed entries).map Int.toNat) := by
  induction entries with
  | nil => exact .refl _
  | cons entry entries ih =>
    obtain ⟨kind, indices⟩ := entry
    have later := ih fun e member => placed e (List.mem_cons_of_mem _ member)
    have own : hasSegment kind := placed (kind, indices) (by simp)
    rw [List.perm_iff_count] at later ⊢
    intro i
    have counted := later i
    simp only [arranged, List.count_append] at counted
    have split : listed ((kind, indices) :: entries) = indices ++ listed entries := rfl
    simp only [arranged, segment_cons, split, List.map_append, List.count_append]
    rw [← counted]
    cases kind with
    | zero | nonneg | nonpos | secondOrder | free =>
      simp
      omega
    | semidefinite | expPrimal | expDual | rotatedSecondOrder => cases own

theorem missing_eq_nil_iff {count : ℕ} {seen : List ℕ} :
    missing count seen = [] ↔ ∀ i < count, i ∈ seen := by
  simp [missing, List.filter_eq_nil_iff]

/-- Arranging succeeds where the kinds have segments and every variable is listed exactly once. -/
theorem arrange_eq_ok_iff {entries : List ConeEntry} {count : ℕ} {reverse : List ℕ} :
    arrange entries count = .ok reverse ↔
      (∀ entry ∈ entries, hasSegment entry.1) ∧ (∀ index ∈ listed entries, 0 ≤ index) ∧
        ((listed entries).map Int.toNat).Perm (List.range count) ∧
        reverse = arranged entries := by
  cases assigned : assignAll count [] entries with
  | error fault =>
    simp only [arrange, assigned, Except.bind, reduceCtorEq, false_iff]
    rintro ⟨segments, lower, perm, _⟩
    have inside : ∀ index ∈ listed entries, 0 ≤ index ∧ index < (count : ℤ) := by
      intro index member
      have below := List.mem_range.1 (perm.mem_iff.1 (List.mem_map_of_mem member))
      exact ⟨lower index member, by omega⟩
    have succeeded := (assignAll_eq_ok_iff List.nodup_nil).2
      ⟨segments, inside, perm.nodup_iff.2 List.nodup_range, rfl⟩
    rw [assigned] at succeeded
    cases succeeded
  | ok seen =>
    obtain ⟨segments, inside, nodup, rfl⟩ := (assignAll_eq_ok_iff List.nodup_nil).1 assigned
    simp only [arrange, assigned, Except.bind, complete, List.nil_append] at nodup ⊢
    split
    next none =>
      have perm : ((listed entries).map Int.toNat).Perm (List.range count) := by
        refine (List.perm_ext_iff_of_nodup nodup List.nodup_range).2 fun i => ⟨fun member => ?_,
          fun below => missing_eq_nil_iff.1 none i (List.mem_range.1 below)⟩
        obtain ⟨index, listedIndex, rfl⟩ := List.mem_map.1 member
        have := inside index listedIndex
        exact List.mem_range.2 (by omega)
      simp only [Except.ok.injEq]
      exact ⟨fun same => ⟨segments, fun index member => (inside index member).1, perm, same.symm⟩,
        fun ⟨_, _, _, same⟩ => same.symm⟩
    next some =>
      simp only [reduceCtorEq, false_iff]
      rintro ⟨_, _, perm, _⟩
      exact some (missing_eq_nil_iff.2 fun i below => perm.mem_iff.2 (List.mem_range.2 below))

theorem ofCones_eq_ok_iff [Machine] {entries : List ConeEntry} {count : ℕ} {order : VariableOrder} :
    ofCones entries count = .ok order ↔
      (∃ marks, Capacity.arrayLength 1 count = .ok marks) ∧
        ∃ reverse, arrange entries count = .ok reverse ∧ ofReverse reverse = order := by
  simp only [ofCones, Outcome.bind_eq_ok_iff, Outcome.mapError_eq_ok_iff, Outcome.map_eq_ok_iff,
    exists_and_right]

theorem perm_of_arrange {entries : List ConeEntry} {count : ℕ} {reverse : List ℕ}
    (arrangedAs : arrange entries count = .ok reverse) : reverse.Perm (List.range count) := by
  obtain ⟨segments, _, perm, rfl⟩ := arrange_eq_ok_iff.1 arrangedAs
  exact (arranged_perm segments).trans perm

variable {K : Type*} [Field K]

theorem toForm_ofReverse (reverse : List ℕ) (x : List K) :
    (ofReverse reverse).toForm x = reverse.map fun i => x.getD i 0 := by
  simp [toForm, ofReverse, Function.comp_def]

theorem toForm_embed [CharZero K] (order : VariableOrder) (x : List ℚ) :
    order.toForm (embed K x) = embed K (order.toForm x) := by
  have moved : embed K (order.toForm x) =
      order.reverse.map fun j => ((entryAt x j : ℚ) : K) := by
    rw [toForm, embed, List.map_map]
    rfl
  rw [moved]
  exact List.map_congr_left fun j _ => entryAt_embed x j

theorem toForm_identity {n : ℕ} {x : List K} (size : x.length = n) :
    (identity n).toForm x = x := by
  rw [identity_eq_ofReverse, toForm_ofReverse, ← size]
  exact (eq_map_range_getD x).symm

theorem mapM_eq_some {f : α → Option β} {g : α → β} {items : List α}
    (found : ∀ item ∈ items, f item = some (g item)) : items.mapM f = some (items.map g) := by
  induction items with
  | nil => rfl
  | cons item items ih =>
    have later := ih fun other member => found other (List.mem_cons_of_mem _ member)
    simp [List.mapM_cons, found item (by simp), later]

section Place

variable {reverse : List ℕ} {count : ℕ} (perm : reverse.Perm (List.range count))
include perm

theorem place_inside {j : ℤ} (lower : 0 ≤ j) (upper : j < count) :
    0 ≤ place reverse j ∧ place reverse j < (count : ℤ) := by
  have member : j.toNat ∈ reverse := perm.mem_iff.2 (List.mem_range.2 (by omega))
  have below := List.idxOf_lt_length_of_mem member
  rw [perm.length_eq, List.length_range] at below
  exact ⟨Int.natCast_nonneg _, by unfold place; omega⟩

/-- No two variables share a place. -/
theorem place_injective {i j : ℤ} (iInside : 0 ≤ i ∧ i < (count : ℤ))
    (jInside : 0 ≤ j ∧ j < (count : ℤ)) (same : place reverse i = place reverse j) : i = j := by
  have member : i.toNat ∈ reverse := perm.mem_iff.2 (List.mem_range.2 (by omega))
  have equal : i.toNat = j.toNat := (List.idxOf_inj member).1 (by simpa [place] using same)
  omega

/-- In the order of the form a variable has its entry at its place. -/
theorem entryAt_toForm (x : List K) {j : ℤ} (lower : 0 ≤ j) (upper : j < count) :
    entryAt ((ofReverse reverse).toForm x) (place reverse j) = entryAt x j := by
  have member : j.toNat ∈ reverse := perm.mem_iff.2 (List.mem_range.2 (by omega))
  have below := List.idxOf_lt_length_of_mem member
  rw [toForm_ofReverse, place, entryAt_natCast, List.getD_eq_getElem?_getD,
    List.getElem?_map, List.getElem?_eq_getElem below, List.getElem_idxOf below]
  rfl

theorem length_toForm (x : List K) : ((ofReverse reverse).toForm x).length = count := by
  rw [toForm_ofReverse, List.length_map, perm.length_eq, List.length_range]

/-- Every vector is another one in the order of the form. -/
theorem exists_toForm_eq {y : List K} (size : y.length = count) :
    ∃ x, x.length = count ∧ (ofReverse reverse).toForm x = y := by
  have total : reverse.length = count := by rw [perm.length_eq, List.length_range]
  have nodup : reverse.Nodup := perm.nodup_iff.2 List.nodup_range
  refine ⟨(List.range count).map fun i => y.getD (reverse.idxOf i) 0, by simp, ?_⟩
  rw [toForm_ofReverse]
  refine List.ext_getElem (by simp [total, size]) fun k inside _ => ?_
  have below : k < reverse.length := by simpa using inside
  have variable_lt : reverse[k] < count :=
    List.mem_range.1 (perm.mem_iff.1 (List.getElem_mem below))
  have inVector : k < y.length := by omega
  simp [List.getD_eq_getElem?_getD, List.getElem?_range variable_lt,
    List.Nodup.idxOf_getElem nodup, List.getElem?_eq_getElem inVector]

/-- An objective that is arranged like the variables has the same value. -/
theorem exactDot_toForm (c : List ℚ) (x : List K) (sameLength : c.length = count)
    (size : x.length = count) :
    exactDot (reverse.map fun i => c.getD i 0) ((ofReverse reverse).toForm x) = exactDot c x := by
  have objective := eq_map_range_getD c
  have vector := eq_map_range_getD x
  rw [sameLength] at objective
  rw [size] at vector
  calc exactDot (reverse.map fun i => c.getD i 0) ((ofReverse reverse).toForm x)
      = (reverse.map fun i => (c.getD i 0 : K) * x.getD i 0).sum := by
        rw [toForm_ofReverse, exactDot_map_map]
    _ = ((List.range count).map fun i => (c.getD i 0 : K) * x.getD i 0).sum := (perm.map _).sum_eq
    _ = exactDot c x := by
        rw [← exactDot_map_map, ← objective, ← vector]

/-- Restoring a solution succeeds, and what is restored is the solution in the order of the form. -/
theorem restore_ofReverse {solution : List Binary64} (size : solution.length = count) :
    ∃ restored, (ofReverse reverse).restore solution = .ok restored ∧ restored.length = count ∧
      (ofReverse reverse).toForm (rationals restored) = rationals solution := by
  have total : reverse.length = count := by rw [perm.length_eq, List.length_range]
  refine ⟨(List.range count).map fun i => solution.getD (reverse.idxOf i) .zero, ?_, by simp, ?_⟩
  · have found : (ofReverse reverse).forward.mapM (fromEitherEnd? solution) =
        some ((List.range count).map fun i => solution.getD (reverse.idxOf i) .zero) := by
      simp only [ofReverse, total, List.mapM_map]
      apply mapM_eq_some
      intro i below
      have member : i ∈ reverse := perm.mem_iff.2 below
      have inside : reverse.idxOf i < solution.length := by
        rw [size, ← total]
        exact List.idxOf_lt_length_of_mem member
      simp [fromEitherEnd?, List.getD_eq_getElem?_getD, List.getElem?_eq_getElem inside]
    have fits : solution.length = (ofReverse reverse).size := by rw [size_ofReverse, size, total]
    rw [restore, if_pos fits, found]
  · rw [toForm_ofReverse]
    apply List.ext_getElem (by simp [total, size])
    intro k inside _
    have below : k < reverse.length := by simpa using inside
    have nodup : reverse.Nodup := perm.nodup_iff.2 List.nodup_range
    have variable_lt : reverse[k] < count :=
      List.mem_range.1 (perm.mem_iff.1 (List.getElem_mem below))
    have inSolution : k < solution.length := by omega
    rw [List.getElem_map, getD_rationals, List.getD_eq_getElem?_getD, List.getElem?_map,
      List.getElem?_range variable_lt, Option.map_some, Option.getD_some,
      List.Nodup.idxOf_getElem nodup, List.getD_eq_getElem?_getD,
      List.getElem?_eq_getElem inSolution]
    simp [rationals]

end Place

end ConicForm.VariableOrder
