import Mathlib
import ConicForm.Matrix.Columns

/-! The rationals that numbers and stored lines stand for. Vectors have entries in any ordered
field, so that what is shown of them holds over the rationals and over the reals alike. A line has a
product with a vector: over its stored entries, or over all positions as long as none is stored
twice. -/
namespace ConicForm

variable {K : Type*} [Field K]

/-- The rational of a finite number. It is only asked for where numbers are known to be finite. -/
def Binary64.toRat (x : Binary64) : ℚ := x.value?.getD 0

namespace Binary64

/-- Read as an extended real, the number is at most a scalar. -/
def IsAtMost [LE K] (x : Binary64) (q : K) : Prop :=
  match x with
  | .nan => False
  | .infinity negative => negative = true
  | .finite _ _ _ => (x.toRat : K) ≤ q

/-- Read as an extended real, the number is at least a scalar. -/
def IsAtLeast [LE K] (x : Binary64) (q : K) : Prop :=
  match x with
  | .nan => False
  | .infinity negative => negative = false
  | .finite _ _ _ => q ≤ (x.toRat : K)

@[simp] theorem toRat_zero : zero.toRat = 0 := rfl

@[simp] theorem toRat_one : one.toRat = 1 := rfl

@[simp] theorem toRat_neg (x : Binary64) : (-x).toRat = -x.toRat := by
  simp only [toRat, value?_neg]
  cases x.value? <;> simp

theorem value?_of_isFinite {x : Binary64} (isFinite : x.isFinite) : x.value? = some x.toRat := by
  cases x with
  | nan | infinity => cases isFinite
  | finite => rfl

theorem toRat_of_isZero {x : Binary64} (isZero : x.isZero) : x.toRat = 0 := by
  cases x with
  | nan | infinity => cases isZero
  | finite negative q onGrid =>
    have zeroMagnitude : q = 0 := by simpa [Binary64.isZero] using isZero
    cases negative <;> simp [toRat, value?, zeroMagnitude]

theorem isAtMost_of_isFinite [LE K] {x : Binary64} (isFinite : x.isFinite) (q : K) :
    x.IsAtMost q ↔ (x.toRat : K) ≤ q := by
  cases x with
  | nan | infinity => cases isFinite
  | finite => rfl

theorem isAtLeast_of_isFinite [LE K] {x : Binary64} (isFinite : x.isFinite) (q : K) :
    x.IsAtLeast q ↔ q ≤ (x.toRat : K) := by
  cases x with
  | nan | infinity => cases isFinite
  | finite => rfl

/-- Numbers that are numerically equal stand for the same rational. -/
theorem toRat_eq_of_equals {x y : Binary64} (same : x.equals y) : x.toRat = y.toRat := by
  cases x <;> cases y
  case finite.finite s a _ t b _ =>
    obtain ⟨rfl, zeroOrSign⟩ : a = b ∧ (a = 0 ∨ s = t) := by simpa [equals] using same
    rcases zeroOrSign with rfl | rfl
    · cases s <;> cases t <;> simp [toRat, value?]
    · rfl
  all_goals first | rfl | cases same

theorem isFinite_of_equals {x y : Binary64} (isFinite : x.isFinite) (same : x.equals y) :
    y.isFinite := by
  cases x with
  | nan | infinity => cases isFinite
  | finite =>
    cases y with
    | nan | infinity => cases same
    | finite => rfl

end Binary64

/-- The entry of a vector at an index. -/
def entryAt (x : List K) (j : ℤ) : K := x.getD j.toNat 0

/-- The sum of products, without rounding. -/
def exactDot (c : List ℚ) (x : List K) : K :=
  (List.zipWith (fun (q : ℚ) v => (q : K) * v) c x).sum

/-- The rationals of a list of numbers. -/
def rationals (values : List Binary64) : List ℚ := values.map Binary64.toRat

/-- Rationals as scalars of the field. -/
def embed (K : Type*) [Field K] (x : List ℚ) : List K := x.map fun q : ℚ => (q : K)

@[simp] theorem entryAt_natCast (x : List K) (j : ℕ) : entryAt x (j : ℤ) = x.getD j 0 := rfl

@[simp] theorem length_rationals (values : List Binary64) :
    (rationals values).length = values.length := by simp [rationals]

theorem rationals_neg (values : List Binary64) :
    rationals (values.map (- ·)) = (rationals values).map (- ·) := by
  simp [rationals, Function.comp_def]

theorem getD_rationals (values : List Binary64) (i : ℕ) :
    (rationals values).getD i 0 = (values.getD i .zero).toRat := by
  simp only [rationals, List.getD_eq_getElem?_getD, List.getElem?_map]
  cases values[i]? <;> rfl

theorem exactDot_map_map (indices : List α) (f : α → ℚ) (g : α → K) :
    exactDot (indices.map f) (indices.map g) = (indices.map fun i => (f i : K) * g i).sum := by
  simp [exactDot, List.zipWith_map]

theorem exactDot_neg (c : List ℚ) (x : List K) : exactDot (c.map (- ·)) x = -exactDot c x := by
  induction c generalizing x with
  | nil => simp [exactDot]
  | cons q c ih =>
    cases x with
    | nil => simp [exactDot]
    | cons v x =>
      have tail := ih x
      simp only [exactDot] at tail
      simp only [exactDot, List.map_cons, List.zipWith_cons_cons, List.sum_cons, tail,
        Rat.cast_neg]
      ring

theorem entryAt_embed [CharZero K] (x : List ℚ) (j : ℤ) :
    entryAt (embed K x) j = ((entryAt x j : ℚ) : K) := by
  simp only [entryAt, embed, List.getD_eq_getElem?_getD, List.getElem?_map]
  cases x[j.toNat]? <;> simp

/-- A list is its entries in turn. -/
theorem eq_map_range_getD (x : List K) : x = (List.range x.length).map fun i => x.getD i 0 := by
  apply List.ext_getElem (by simp)
  intro i inside _
  simp [List.getD_eq_getElem?_getD, List.getElem?_eq_getElem inside]

namespace Line

/-- The positions of a line are those below `cols`. -/
def Within (cols : ℕ) (line : Line) : Prop := ∀ entry ∈ line, 0 ≤ entry.1 ∧ entry.1 < (cols : ℤ)

/-- No position is stored twice. -/
def Distinct (line : Line) : Prop := (line.map Prod.fst).Nodup

/-- The number at a position, zero where none is stored. -/
def coefficient (line : Line) (j : ℤ) : ℚ := (line.lookup j).elim 0 Binary64.toRat

/-- The sum over the stored entries of their products with a vector. -/
def product (line : Line) (x : ℤ → K) : K :=
  (line.map fun entry => (entry.2.toRat : K) * x entry.1).sum

theorem coefficient_eq_zero {line : Line} {j : ℤ} (unstored : j ∉ line.map Prod.fst) :
    line.coefficient j = 0 := by
  have missing : line.lookup j = none := by
    rw [List.lookup_eq_none_iff]
    intro entry member
    have other : j ≠ entry.1 := fun same => unstored (same ▸ List.mem_map_of_mem member)
    simpa using other
  simp [coefficient, missing]

theorem coefficient_cons (position : ℤ) (value : Binary64) (line : Line) (j : ℤ)
    (fresh : position ∉ line.map Prod.fst) :
    coefficient ((position, value) :: line) j =
      (if j = position then value.toRat else 0) + line.coefficient j := by
  by_cases same : j = position
  · subst same
    rw [coefficient_eq_zero fresh]
    simp [coefficient]
  · have other : (j == position) = false := by simpa using same
    simp [coefficient, List.lookup_cons, other, same]

/-- What is stored adds up to the same as all positions do. -/
theorem product_eq_sum [CharZero K] {cols : ℕ} {line : Line} (distinct : line.Distinct)
    (within : line.Within cols) (x : ℤ → K) :
    line.product x = ∑ j ∈ Finset.range cols, (line.coefficient j : K) * x j := by
  induction line with
  | nil => simp [product, coefficient]
  | cons entry line ih =>
    obtain ⟨position, value⟩ := entry
    obtain ⟨fresh, rest⟩ := List.nodup_cons.1 distinct
    obtain ⟨lower, upper⟩ := within (position, value) (by simp)
    have tail := ih rest fun e member => within e (List.mem_cons_of_mem _ member)
    have head : ∑ j ∈ Finset.range cols,
        ((if (j : ℤ) = position then value.toRat else 0 : ℚ) : K) * x j =
          (value.toRat : K) * x position := by
      rw [Finset.sum_eq_single position.toNat]
      · simp [lower]
      · intro j _ other
        have : (j : ℤ) ≠ position := by omega
        simp [this]
      · intro outside
        exact absurd (Finset.mem_range.2 (by omega)) outside
    simp only [product] at tail
    simp only [product, List.map_cons, List.sum_cons, tail, coefficient_cons _ _ _ _ fresh,
      Rat.cast_add, add_mul, Finset.sum_add_distrib, head]

theorem product_congr {line : Line} {x y : ℤ → K} (same : ∀ entry ∈ line, x entry.1 = y entry.1) :
    line.product x = line.product y := by
  unfold product
  refine congrArg List.sum (List.map_congr_left fun entry member => ?_)
  rw [same entry member]

@[simp] theorem product_scale_one (line : Line) (x : ℤ → K) :
    (line.scale .one).product x = line.product x := by
  simp [product, scale, Binary64.one_mul]

@[simp] theorem product_scale_neg_one (line : Line) (x : ℤ → K) :
    (line.scale (-.one)).product x = -line.product x := by
  simp only [product, scale, List.map_map, Function.comp_def, Binary64.neg_one_mul,
    Binary64.toRat_neg, Rat.cast_neg, List.sum_neg, neg_mul]

@[simp] theorem product_reposition (place : ℤ → ℤ) (line : Line) (x : ℤ → K) :
    (line.reposition place).product x = line.product fun j => x (place j) := by
  simp [product, reposition, Function.comp_def]

end Line
end ConicForm
