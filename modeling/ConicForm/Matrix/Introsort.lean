import ConicForm.Matrix.Line

/-! How an introspective sort rearranges entries before it inserts them one by one. Entries at one
position may change places, which decides in what order they are summed; the insertions keep that
order. Lines of up to sixteen entries are not rearranged at all. -/
namespace ConicForm.Introsort

/-- Parts of up to this length are left as they are. -/
def threshold : Nat := 16

def key (items : Array (Int × α)) (i : Nat) : Int := (items[i]?.map Prod.fst).getD 0

/-- Whichever of three places has the middle position changes places with `first`. -/
def medianToFirst (items : Array (Int × α)) (first a b c : Nat) : Array (Int × α) :=
  let x := key items a
  let y := key items b
  let z := key items c
  let median :=
    if x < y then (if y < z then b else if x < z then c else a)
    else if x < z then a
    else if y < z then c
    else b
  items.swapIfInBounds first median

/-- The next place that is not below the pivot. -/
def ascend (items : Array (Int × α)) (pivot : Int) : Nat → Nat → Nat
  | 0, i => i
  | fuel + 1, i => if key items i < pivot then ascend items pivot fuel (i + 1) else i

/-- The last place up to `j` that is not above the pivot. -/
def descend (items : Array (Int × α)) (pivot : Int) : Nat → Nat → Nat
  | 0, j => j
  | fuel + 1, j => if pivot < key items j then descend items pivot fuel (j - 1) else j

/-- Swaps entries on the wrong side of the pivot from both ends, until the ends meet at the place
that is returned. -/
def partition (pivot : Int) : Nat → Array (Int × α) → Nat → Nat → Array (Int × α) × Nat
  | 0, items, first, _ => (items, first)
  | fuel + 1, items, first, last =>
    let i := ascend items pivot items.size first
    let j := descend items pivot items.size (last - 1)
    if i < j then partition pivot fuel (items.swapIfInBounds i j) (i + 1) j else (items, i)

/-- Moves an entry down to a leaf of the heap that starts at `first`, always along the greater
child; the place of the leaf is returned. -/
def sink (first length : Nat) : Nat → Array (Int × α) → Nat → Array (Int × α) × Nat
  | 0, items, hole => (items, hole)
  | fuel + 1, items, hole =>
    if hole < (length - 1) / 2 then
      let right := 2 * (hole + 1)
      let child :=
        if key items (first + right) < key items (first + right - 1) then right - 1 else right
      sink first length fuel (items.swapIfInBounds (first + hole) (first + child)) child
    else if length % 2 = 0 ∧ hole = (length - 2) / 2 then
      (items.swapIfInBounds (first + hole) (first + 2 * hole + 1), 2 * hole + 1)
    else (items, hole)

/-- Moves an entry up, but not above `top`, as long as it is greater than its parent. -/
def rise (first top : Nat) : Nat → Array (Int × α) → Nat → Array (Int × α)
  | 0, items, _ => items
  | fuel + 1, items, hole =>
    let parent := (hole - 1) / 2
    if top < hole ∧ key items (first + parent) < key items (first + hole) then
      rise first top fuel (items.swapIfInBounds (first + hole) (first + parent)) parent
    else items

def adjust (first length : Nat) (items : Array (Int × α)) (hole : Nat) : Array (Int × α) :=
  let sunk := sink first length length items hole
  rise first hole length sunk.1 sunk.2

def heapSort (first length : Nat) (items : Array (Int × α)) : Array (Int × α) :=
  let heap := (List.range (length / 2)).reverse.foldl (adjust first length) items
  (List.range (length - 1)).reverse.foldl
    (fun items k => adjust first (k + 1) (items.swapIfInBounds first (first + k + 1)) 0) heap

/-- Rearranges a part. A part that has been divided too often is sorted by way of a heap. -/
def rearrangePart (items : Array (Int × α)) : Nat → Nat → Nat → Array (Int × α)
  | 0, first, last =>
    if last - first ≤ threshold then items else heapSort first (last - first) items
  | depth + 1, first, last =>
    if last - first ≤ threshold then items
    else
      let middle := first + (last - first) / 2
      let pivoted := medianToFirst items first (first + 1) middle (last - 1)
      let parted := partition (key pivoted first) pivoted.size pivoted (first + 1) last
      rearrangePart (rearrangePart parted.1 depth parted.2 last) depth first parted.2

def rearrange (items : Array (Int × α)) : Array (Int × α) :=
  rearrangePart items (2 * items.size.log2) 0 items.size

theorem swapIfInBounds_perm (items : Array α) (i j : Nat) :
    (items.swapIfInBounds i j).Perm items := by
  unfold Array.swapIfInBounds
  split
  · split
    · exact Array.swap_perm _ _
    · exact .refl _
  · exact .refl _

theorem partition_perm (pivot : Int) (fuel : Nat) (items : Array (Int × α)) (first last : Nat) :
    (partition pivot fuel items first last).1.Perm items := by
  induction fuel generalizing items first last with
  | zero => exact .refl _
  | succ fuel ih =>
    simp only [partition]
    split
    · exact (ih ..).trans (swapIfInBounds_perm ..)
    · exact .refl _

theorem sink_perm (first length fuel : Nat) (items : Array (Int × α)) (hole : Nat) :
    (sink first length fuel items hole).1.Perm items := by
  induction fuel generalizing items hole with
  | zero => exact .refl _
  | succ fuel ih =>
    simp only [sink]
    split
    · exact (ih ..).trans (swapIfInBounds_perm ..)
    · split
      · exact swapIfInBounds_perm ..
      · exact .refl _

theorem rise_perm (first top fuel : Nat) (items : Array (Int × α)) (hole : Nat) :
    (rise first top fuel items hole).Perm items := by
  induction fuel generalizing items hole with
  | zero => exact .refl _
  | succ fuel ih =>
    simp only [rise]
    split
    · exact (ih ..).trans (swapIfInBounds_perm ..)
    · exact .refl _

theorem adjust_perm (first length : Nat) (items : Array (Int × α)) (hole : Nat) :
    (adjust first length items hole).Perm items :=
  (rise_perm ..).trans (sink_perm ..)

theorem foldl_perm {step : Array α → Nat → Array α} (keeps : ∀ items k, (step items k).Perm items)
    (places : List Nat) (items : Array α) : (places.foldl step items).Perm items := by
  induction places generalizing items with
  | nil => exact .refl _
  | cons k places ih => exact (ih _).trans (keeps items k)

theorem heapSort_perm (first length : Nat) (items : Array (Int × α)) :
    (heapSort first length items).Perm items :=
  (foldl_perm (fun _ _ => (adjust_perm ..).trans (swapIfInBounds_perm ..)) _ _).trans
    (foldl_perm (fun _ _ => adjust_perm ..) _ _)

theorem rearrangePart_perm (items : Array (Int × α)) (depth first last : Nat) :
    (rearrangePart items depth first last).Perm items := by
  induction depth generalizing items first last with
  | zero =>
    simp only [rearrangePart]
    split
    · exact .refl _
    · exact heapSort_perm ..
  | succ depth ih =>
    simp only [rearrangePart]
    split
    · exact .refl _
    · exact (ih ..).trans ((ih ..).trans ((partition_perm ..).trans (swapIfInBounds_perm ..)))

theorem rearrange_perm (items : Array (Int × α)) : (rearrange items).Perm items :=
  rearrangePart_perm ..

/-- A short line keeps its order. -/
theorem rearrange_of_size_le {items : Array (Int × α)} (short : items.size ≤ threshold) :
    rearrange items = items := by
  unfold rearrange
  generalize 2 * items.size.log2 = depth
  cases depth <;> simp [rearrangePart, short]

end ConicForm.Introsort

namespace ConicForm.Line

def isAscending : Line → Bool
  | a :: b :: rest => a.1 ≤ b.1 && isAscending (b :: rest)
  | _ => true

def rearranged (line : Line) : Line := (Introsort.rearrange line.toArray).toList

/-- All lines of a matrix combined. They are rearranged first, unless all are in order already. -/
def settle (lines : List Line) : List Line :=
  if lines.all isAscending then lines.map combine
  else lines.map fun line => combine line.rearranged

theorem rearranged_perm (line : Line) : line.rearranged.Perm line := by
  simpa [rearranged] using Array.perm_iff_toList_perm.1 (Introsort.rearrange_perm line.toArray)

theorem length_settle (lines : List Line) : (settle lines).length = lines.length := by
  unfold settle
  split <;> simp

theorem ascending_of_mem_settle {lines : List Line} {line : Line} (member : line ∈ settle lines) :
    Ascending line := by
  unfold settle at member
  split at member <;>
    · obtain ⟨_, _, rfl⟩ := List.mem_map.1 member
      exact ascending_combine _

end ConicForm.Line
