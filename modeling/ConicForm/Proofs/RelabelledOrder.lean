import ConicForm.Proofs.WellFormedForm

/-! Variables under other numbers. Numbers that are listed for cones are replaced one by one, and
the order that is arranged from them has the replaced number at every place. -/
namespace ConicForm

section Relabel

variable {count : ℕ} (permutation : Equiv.Perm (Fin count))

/-- The number that replaces one below the bound. Any other number stays as it is. -/
def relabelNat (i : ℕ) : ℕ := if below : i < count then permutation ⟨i, below⟩ else i

/-- The same for an integer, which may also be negative. -/
def relabel (i : ℤ) : ℤ := if 0 ≤ i then relabelNat permutation i.toNat else i

theorem relabelNat_val (i : Fin count) : relabelNat permutation i = permutation i := by
  rw [relabelNat, dif_pos i.isLt]

theorem relabelNat_lt_iff {i : ℕ} : relabelNat permutation i < count ↔ i < count := by
  unfold relabelNat
  split <;> simp [*]

theorem relabelNat_symm (i : ℕ) :
    relabelNat permutation.symm (relabelNat permutation i) = i := by
  by_cases below : i < count
  · rw [relabelNat, dif_pos ((relabelNat_lt_iff permutation).2 below)]
    simp [relabelNat, below]
  · simp [relabelNat, below]

theorem relabelNat_injective : Function.Injective (relabelNat permutation) :=
  Function.LeftInverse.injective (relabelNat_symm permutation)

theorem relabel_natCast (i : ℕ) : relabel permutation i = relabelNat permutation i := by
  simp [relabel]

theorem toNat_relabel {i : ℤ} (lower : 0 ≤ i) :
    (relabel permutation i).toNat = relabelNat permutation i.toNat := by
  rw [relabel, if_pos lower, Int.toNat_natCast]

theorem relabel_nonneg_iff {i : ℤ} : 0 ≤ relabel permutation i ↔ 0 ≤ i := by
  unfold relabel
  split <;> simp [*]

theorem relabel_symm (i : ℤ) : relabel permutation.symm (relabel permutation i) = i := by
  by_cases lower : 0 ≤ i
  · obtain ⟨k, rfl⟩ := Int.eq_ofNat_of_zero_le lower
    rw [relabel_natCast, relabel_natCast, relabelNat_symm]
  · rw [relabel, if_neg (mt (relabel_nonneg_iff permutation).1 lower), relabel, if_neg lower]

theorem idxOf_relabelNat (numbers : List ℕ) (i : ℕ) :
    (numbers.map (relabelNat permutation)).idxOf (relabelNat permutation i) = numbers.idxOf i := by
  have same : ((fun k => k == relabelNat permutation i) ∘ relabelNat permutation) =
      fun k => k == i := by
    funext k
    simp [(relabelNat_injective permutation).eq_iff]
  rw [List.idxOf, List.findIdx_map, same, List.idxOf]

theorem map_relabelNat_range :
    ((List.range count).map (relabelNat permutation)).Perm (List.range count) := by
  have moved := (permutation.map_finRange_perm).map fun i : Fin count => (i : ℕ)
  rw [List.map_map, List.map_coe_finRange_eq_range] at moved
  have same : (List.range count).map (relabelNat permutation) =
      (List.finRange count).map ((fun i : Fin count => (i : ℕ)) ∘ permutation) := by
    rw [← List.map_coe_finRange_eq_range, List.map_map]
    exact List.map_congr_left fun i _ => relabelNat_val permutation i
  rwa [same]

end Relabel

namespace VariableOrder

variable {count : ℕ} (permutation : Equiv.Perm (Fin count))

def relabelEntry (entry : ConeEntry) : ConeEntry := (entry.1, entry.2.map (relabel permutation))

theorem listed_relabel (entries : List ConeEntry) :
    listed (entries.map (relabelEntry permutation)) =
      (listed entries).map (relabel permutation) := by
  simp only [listed, List.flatMap_map, List.map_flatMap]
  rfl

/-- Numbers that are not negative are replaced within each segment. -/
theorem segment_relabel (kinds : List Cone) {entries : List ConeEntry}
    (lower : ∀ index ∈ listed entries, 0 ≤ index) :
    segment kinds (entries.map (relabelEntry permutation)) =
      (segment kinds entries).map (relabelNat permutation) := by
  induction entries with
  | nil => rfl
  | cons entry entries ih =>
    have split : listed (entry :: entries) = entry.2 ++ listed entries := rfl
    rw [split, List.forall_mem_append] at lower
    have own : (entry.2.map (relabel permutation)).map Int.toNat =
        (entry.2.map Int.toNat).map (relabelNat permutation) := by
      rw [List.map_map, List.map_map]
      exact List.map_congr_left fun index member => toNat_relabel permutation (lower.1 index member)
    rw [List.map_cons, segment_cons, segment_cons, ih lower.2, List.map_append]
    unfold relabelEntry
    rw [own]
    split <;> rfl

theorem arrange_relabel {entries : List ConeEntry} {reverse : List ℕ}
    (arranged : arrange entries count = .ok reverse) :
    arrange (entries.map (relabelEntry permutation)) count =
      .ok (reverse.map (relabelNat permutation)) := by
  obtain ⟨segments, lower, perm, rfl⟩ := arrange_eq_ok_iff.1 arranged
  rw [arrange_eq_ok_iff]
  refine ⟨?_, ?_, ?_, ?_⟩
  · rw [List.forall_mem_map]
    exact segments
  · rw [listed_relabel, List.forall_mem_map]
    exact fun index member => (relabel_nonneg_iff permutation).2 (lower index member)
  · rw [listed_relabel, List.map_map]
    have numbers : (listed entries).map (Int.toNat ∘ relabel permutation) =
        ((listed entries).map Int.toNat).map (relabelNat permutation) := by
      rw [List.map_map]
      exact List.map_congr_left fun index member => toNat_relabel permutation (lower index member)
    rw [numbers]
    exact (perm.map _).trans (map_relabelNat_range permutation)
  · simp only [VariableOrder.arranged, segment_relabel permutation _ lower, List.map_append]

/-- A variable keeps its place under its new number. -/
theorem place_relabel (reverse : List ℕ) {j : ℤ} (lower : 0 ≤ j) :
    place (reverse.map (relabelNat permutation)) (relabel permutation j) = place reverse j := by
  rw [place, place, toNat_relabel permutation lower, idxOf_relabelNat]

/-- One order has the variables of another one under other numbers. -/
structure Relabelled (order other : VariableOrder) : Prop where
  reverse : ∀ k : ℕ, other.reverse[k]? = order.reverse[k]?.map (relabel permutation)
  forward : ∀ i : Fin count, other.forward[(permutation i : ℕ)]? = order.forward[(i : ℕ)]?

theorem relabelled_ofReverse {reverse : List ℕ} (total : reverse.length = count) :
    Relabelled permutation (ofReverse reverse)
      (ofReverse (reverse.map (relabelNat permutation))) := by
  constructor
  · intro k
    simp [ofReverse, Function.comp_def, relabel_natCast]
  · intro i
    have own : (i : ℕ) < reverse.length := by
      rw [total]
      exact i.isLt
    have moved : relabelNat permutation i < reverse.length := by
      rw [total]
      exact (relabelNat_lt_iff permutation).2 i.isLt
    rw [← relabelNat_val]
    simp only [ofReverse, List.length_map, List.getElem?_map, List.getElem?_range moved,
      List.getElem?_range own, Option.map_some, idxOf_relabelNat]

theorem getElem?_of_mapM {f : α → Option β} {items : List α} {results : List β}
    (found : items.mapM f = some results) (i : ℕ) : results[i]? = items[i]?.bind f := by
  induction items generalizing results i with
  | nil =>
    cases found
    rfl
  | cons item items ih =>
    simp only [List.mapM_cons, Option.pure_def, Option.bind_eq_bind, Option.bind_eq_some_iff,
      Option.some.injEq] at found
    obtain ⟨value, own, values, later, rfl⟩ := found
    cases i with
    | zero => simp [own]
    | succ i => simpa using ih later i

theorem getElem?_of_restore {order : VariableOrder} {solution restored : List Binary64}
    (restores : order.restore solution = .ok restored) (i : ℕ) :
    restored[i]? = order.forward[i]?.bind (fromEitherEnd? solution) := by
  unfold restore at restores
  split at restores
  · split at restores
    next values found =>
      cases restores
      exact getElem?_of_mapM found i
    next => cases restores
  · cases restores

/-- What is restored has the same entries under other numbers. -/
theorem Relabelled.restore {order other : VariableOrder}
    (relabelled : Relabelled permutation order other) {solution first second : List Binary64}
    (here : order.restore solution = .ok first) (there : other.restore solution = .ok second)
    (i : Fin count) : second[(permutation i : ℕ)]? = first[(i : ℕ)]? := by
  rw [getElem?_of_restore there, getElem?_of_restore here, relabelled.forward]

end VariableOrder
end ConicForm
