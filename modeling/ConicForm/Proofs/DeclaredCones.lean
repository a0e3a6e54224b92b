import ConicForm.Proofs.ConicAcceptance
import ConicForm.Proofs.FormBlocks
import ConicForm.Proofs.RowCounts

/-! Sizes of any sign that are declared for the rows of a problem. Laid out they give as many rows
as the sizes that are not negative. Of a problem that is accepted these rows are distinct numbers
below the declared total, so no size can have moved a block back. -/
namespace ConicForm

namespace ConeDims

/-- Blocks whose sizes are integers. -/
abbrev IntegerBlock := Cone × ℤ

def IntegerBlock.toBlock (block : IntegerBlock) : ConeBlock := (block.1, .integer block.2)

/-- The rows of each block. A negative size has no rows and moves the next block back. -/
def integerSpans (start : ℤ) : List IntegerBlock → List ConeSpan
  | [] => []
  | block :: blocks =>
    if (block.1 = .zero ∨ block.1 = .nonneg) ∧ block.2 = 0 then integerSpans start blocks
    else ⟨block.1, start, block.2⟩ :: integerSpans (start + block.2) blocks

theorem isOmitted_integer (block : IntegerBlock) :
    isOmitted block.toBlock = decide ((block.1 = .zero ∨ block.1 = .nonneg) ∧ block.2 = 0) := by
  simp [isOmitted, IntegerBlock.toBlock, Datum.isTestable, Datum.equalsInt, Datum.exactInteger?,
    beq_eq_decide]

theorem rowCount_eq_ok [Machine] {start size count : ℤ}
    (counted : rowCount start (.integer size) = .ok count) : count = size := by
  simp only [rowCount, Datum.isTestable, if_true, Datum.toExactInteger, Datum.exactInteger?,
    Except.bind] at counted
  obtain ⟨_, _, rfl⟩ := Outcome.map_eq_ok_iff.1 counted
  rfl

theorem layout_eq_ok [Machine] {start : ℤ} {blocks : List IntegerBlock} {placed : List ConeSpan × ℤ}
    (laid : layout start (blocks.map IntegerBlock.toBlock) = .ok placed) :
    placed = (integerSpans start blocks, start + (blocks.map Prod.snd).sum) := by
  induction blocks generalizing start placed with
  | nil =>
    cases laid
    simp [integerSpans]
  | cons block blocks ih =>
    have omitted := isOmitted_integer block
    unfold IntegerBlock.toBlock at omitted
    rw [List.map_cons, IntegerBlock.toBlock, layout, omitted] at laid
    rw [integerSpans, List.map_cons, List.sum_cons]
    by_cases leftOut : (block.1 = .zero ∨ block.1 = .nonneg) ∧ block.2 = 0
    · rw [if_pos (decide_eq_true leftOut)] at laid
      rw [ih laid, if_pos leftOut, leftOut.2, zero_add]
    · rw [if_neg (by simpa using leftOut)] at laid
      obtain ⟨count, counted, laid⟩ := Outcome.bind_eq_ok_iff.1 laid
      obtain rfl := rowCount_eq_ok counted
      obtain ⟨later, rest, rfl⟩ := Outcome.map_eq_ok_iff.1 laid
      rw [ih rest, if_neg leftOut, add_assoc]

/-- A block that is not left out has an entry with its rows. -/
theorem exists_mem_integerSpans (start : ℤ) {blocks : List IntegerBlock} {block : IntegerBlock}
    (member : block ∈ blocks) (kept : ¬((block.1 = .zero ∨ block.1 = .nonneg) ∧ block.2 = 0)) :
    ∃ entry ∈ (integerSpans start blocks).map ConeSpan.entry,
      entry.1 = block.1 ∧ entry.2.length = block.2.toNat := by
  induction blocks generalizing start with
  | nil => cases member
  | cons first blocks ih =>
    rw [integerSpans]
    rcases List.mem_cons.1 member with rfl | later
    · rw [if_neg kept, List.map_cons]
      exact ⟨_, List.mem_cons_self, rfl, by simp [ConeSpan.entry, consecutive]⟩
    · by_cases leftOut : (first.1 = .zero ∨ first.1 = .nonneg) ∧ first.2 = 0
      · rw [if_pos leftOut]
        exact ih start later
      · rw [if_neg leftOut, List.map_cons]
        obtain ⟨entry, stored, same⟩ := ih (start + first.2) later
        exact ⟨entry, List.mem_cons_of_mem _ stored, same⟩

/-- Only sizes that are not negative have rows. -/
theorem length_listed_integerSpans (start : ℤ) (blocks : List IntegerBlock) :
    (VariableOrder.listed ((integerSpans start blocks).map ConeSpan.entry)).length =
      ((blocks.map Prod.snd).map Int.toNat).sum := by
  induction blocks generalizing start with
  | nil => rfl
  | cons block blocks ih =>
    rw [integerSpans, List.map_cons, List.map_cons, List.sum_cons]
    by_cases leftOut : (block.1 = .zero ∨ block.1 = .nonneg) ∧ block.2 = 0
    · rw [if_pos leftOut, ih, leftOut.2, Int.toNat_zero, Nat.zero_add]
    · have later := ih (start + block.2)
      unfold VariableOrder.listed at later ⊢
      rw [if_neg leftOut, List.map_cons, List.flatMap_cons, List.length_append, later]
      simp [ConeSpan.entry, consecutive]

theorem integerSpans_counts (start : ℤ) (blocks : List CountedBlock) :
    integerSpans start (blocks.map fun block => (block.1, (block.2 : ℤ))) = spans start blocks := by
  induction blocks generalizing start with
  | nil => rfl
  | cons block blocks ih => simp [integerSpans, spans, ih]

theorem sum_counts (blocks : List CountedBlock) :
    ((blocks.map fun block => (block.1, (block.2 : ℤ))).map Prod.snd).sum =
      (totalCount blocks : ℤ) := by
  rw [totalCount, Nat.cast_list_sum, List.map_map, List.map_map]
  rfl

theorem sum_le_sum_toNat (sizes : List ℤ) : sizes.sum ≤ ((sizes.map Int.toNat).sum : ℕ) := by
  induction sizes with
  | nil => simp
  | cons size sizes ih =>
    rw [List.map_cons, List.sum_cons, List.sum_cons, Nat.cast_add]
    exact add_le_add (Int.self_le_toNat size) ih

/-- Sizes whose rows are no more than their sum are counts. -/
theorem nonneg_of_sum_toNat_le {sizes : List ℤ}
    (few : ((sizes.map Int.toNat).sum : ℕ) ≤ sizes.sum) : ∀ size ∈ sizes, 0 ≤ size := by
  induction sizes with
  | nil => simp
  | cons size sizes ih =>
    have least := sum_le_sum_toNat sizes
    rw [List.map_cons, List.sum_cons, List.sum_cons, Nat.cast_add] at few
    refine List.forall_mem_cons.2 ⟨by omega, ih (by omega)⟩

/-- Sizes that are all integers, whatever their signs. -/
structure IntegerSizes where
  zero : ℤ
  nonneg : ℤ
  secondOrder : List ℤ
  semidefinite : List ℤ
  expPrimal : ℤ
  expDual : ℤ
  power : List Datum

namespace IntegerSizes

/-- The sizes are what stands under the names of the kinds. -/
structure NamedIn (sizes : IntegerSizes) (naming : Naming) (fields : List (String × Datum)) :
    Prop where
  zero : field fields (.integer 0) (zeroNames naming) = .integer sizes.zero
  nonneg : field fields (.integer 0) (nonnegNames naming) = .integer sizes.nonneg
  secondOrder : field fields (.list []) (secondOrderNames naming) =
    .list (sizes.secondOrder.map .integer)
  semidefinite : field fields (.list []) (semidefiniteNames naming) =
    .list (sizes.semidefinite.map .integer)
  expPrimal : field fields (.integer 0) (expPrimalNames naming) = .integer sizes.expPrimal
  expDual : field fields (.integer 0) (expDualNames naming) = .integer sizes.expDual
  power : field fields (.list []) (powerNames naming) = .list sizes.power

/-- The sizes name a cone for every row of a form, and no cone that a form cannot have. -/
structure Sound (sizes : IntegerSizes) : Prop where
  zero : 0 ≤ sizes.zero
  nonneg : 0 ≤ sizes.nonneg
  secondOrder : ∀ size ∈ sizes.secondOrder, 1 ≤ size
  semidefinite : sizes.semidefinite = []
  expPrimal : sizes.expPrimal ≤ 0
  expDual : sizes.expDual ≤ 0
  power : sizes.power = []

def toDims (sizes : IntegerSizes) : ConeDims where
  zero := .integer sizes.zero
  nonneg := .integer sizes.nonneg
  secondOrder := sizes.secondOrder.map .integer
  semidefinite := sizes.semidefinite.map fun order => .integer (triangle order)
  expPrimal := .integer sizes.expPrimal
  expDual := .integer sizes.expDual

def blocks (sizes : IntegerSizes) : List IntegerBlock :=
  (Cone.zero, sizes.zero) :: (Cone.nonneg, sizes.nonneg) ::
    (sizes.secondOrder.map fun size => (Cone.secondOrder, size)) ++
      (sizes.semidefinite.map fun order => (Cone.semidefinite, triangle order)) ++
        List.replicate sizes.expPrimal.toNat (Cone.expPrimal, (Band.expSize : ℤ)) ++
          List.replicate sizes.expDual.toNat (Cone.expDual, (Band.expSize : ℤ))

theorem mapM_readTriangle (orders : List ℤ) :
    (orders.map Datum.integer).mapM readTriangle =
      .ok (orders.map fun order => .integer (triangle order)) := by
  rw [Outcome.mapM_eq_ok_iff, List.forall₂_map_left_iff, List.forall₂_map_right_iff,
    List.forall₂_same]
  intro order _
  rfl

theorem NamedIn.read_eq_ok [Machine] {sizes : IntegerSizes} {naming : Naming}
    {fields : List (String × Datum)} (named : sizes.NamedIn naming fields) {dims : ConeDims}
    (readAs : ConeDims.read naming fields = .ok dims) : sizes.power = [] ∧ dims = sizes.toDims := by
  unfold ConeDims.read at readAs
  simp only [named.zero, named.nonneg, named.secondOrder, named.semidefinite, named.expPrimal,
    named.expDual, named.power, Datum.elements, mapM_readTriangle, bind, Except.bind, pure,
    Except.pure] at readAs
  split at readAs
  next none => exact ⟨List.isEmpty_iff.1 none, (Except.ok.inj readAs).symm⟩
  next => cases readAs

theorem extend_eq_ok [Machine] {blocks : List ConeBlock} {kind : Cone} {count : ℤ}
    {extended : Blocks}
    (added : (Blocks.listed blocks).extend kind (.integer count) = .ok extended) :
    extended = .listed (blocks ++ List.replicate count.toNat (kind, .integer Band.expSize)) := by
  simp only [Blocks.extend, Datum.toExactInteger, Datum.exactInteger?] at added
  rw [Except.bind] at added
  split at added
  · cases added
  · obtain ⟨copies, room, added⟩ := Outcome.bind_eq_ok_iff.1 added
    rw [Outcome.mapError_eq_ok_iff, Capacity.listLength] at room
    split at room
    · cases room
    · split at room
      · cases room
      · cases room
        cases added
        rfl

/-- Sizes that are declared for a number of rows add up to it. -/
theorem toCones_eq_ok [Machine] {sizes : IntegerSizes} {rows : ℕ} {cones : List ConeEntry}
    (declared : sizes.toDims.toCones (.integer rows) = .ok cones) :
    cones = (integerSpans 0 sizes.blocks).map ConeSpan.entry ∧
      (sizes.blocks.map Prod.snd).sum = (rows : ℤ) := by
  obtain ⟨placed, laid, declared⟩ := Outcome.bind_eq_ok_iff.1 declared
  obtain ⟨blocks, made, laid⟩ := Outcome.bind_eq_ok_iff.1 laid
  obtain ⟨extended, primal, dual⟩ := Outcome.bind_eq_ok_iff.1 made
  obtain rfl := extend_eq_ok primal
  obtain rfl := extend_eq_ok dual
  have blocksAre : sizes.blocks.map IntegerBlock.toBlock =
      (.zero, .integer sizes.zero) :: (.nonneg, .integer sizes.nonneg) ::
        sizes.toDims.secondOrder.map (fun size => (Cone.secondOrder, size)) ++
          sizes.toDims.semidefinite.map (fun size => (Cone.semidefinite, size)) ++
            List.replicate sizes.expPrimal.toNat (.expPrimal, .integer Band.expSize) ++
              List.replicate sizes.expDual.toNat (.expDual, .integer Band.expSize) := by
    simp [IntegerSizes.blocks, toDims, IntegerBlock.toBlock, Function.comp_def]
  have whole : layout 0 (sizes.blocks.map IntegerBlock.toBlock) = .ok placed := by
    rw [blocksAre]
    exact laid
  obtain rfl := layout_eq_ok whole
  obtain ⟨_, covered, rfl⟩ := Outcome.map_eq_ok_iff.1 declared
  refine ⟨rfl, ?_⟩
  obtain ⟨same, compared, covered⟩ := Outcome.bind_eq_ok_iff.1 covered
  rw [Datum.compare_integer] at compared
  cases compared
  split at covered
  next agrees => simpa using (beq_iff_eq.1 agrees).symm
  next => cases covered

/-- Kinds that are accepted leave nothing but equalities, the orthant and second-order cones. -/
theorem blocks_of_accepted {sizes : IntegerSizes} {variableEntries : List ConeEntry}
    (accepted : ConeList.Accepted ((integerSpans 0 sizes.blocks).map ConeSpan.entry)
      variableEntries) :
    sizes.semidefinite = [] ∧ sizes.expPrimal ≤ 0 ∧ sizes.expDual ≤ 0 ∧
      ∀ size ∈ sizes.secondOrder, 1 ≤ size := by
  have supported : ∀ block ∈ sizes.blocks, block.1 ≠ .zero → block.1 ≠ .nonneg →
      block.1.isSupported ∧ (block.1 = .secondOrder → 1 ≤ block.2) := by
    intro block member notZero notNonneg
    obtain ⟨entry, stored, kind, size⟩ :=
      exists_mem_integerSpans 0 member (by simp [notZero, notNonneg])
    rw [← kind]
    refine ⟨accepted.supported entry (List.mem_append_left _ stored), fun secondOrder => ?_⟩
    have nonempty := accepted.nonempty entry (List.mem_append_left _ stored) secondOrder
    have positive := List.length_pos_iff.2 nonempty
    omega
  have none {kind : Cone} (unsupported : kind.isSupported = false) (size : ℤ) :
      (kind, size) ∉ sizes.blocks := by
    intro member
    have apart : kind ≠ .zero ∧ kind ≠ .nonneg := by
      constructor
      all_goals
        rintro rfl
        cases unsupported
    have own := (supported _ member apart.1 apart.2).1
    rw [unsupported] at own
    cases own
  refine ⟨?_, ?_, ?_, fun size member => ?_⟩
  · by_contra some
    obtain ⟨order, member⟩ := List.exists_mem_of_ne_nil _ some
    exact @none .semidefinite rfl (triangle order)
      (by simpa [blocks] using ⟨order, member, rfl⟩)
  · by_contra some
    have copies : sizes.expPrimal.toNat ≠ 0 := by omega
    exact @none .expPrimal rfl Band.expSize (by simp [blocks, copies])
  · by_contra some
    have copies : sizes.expDual.toNat ≠ 0 := by omega
    exact @none .expDual rfl Band.expSize (by simp [blocks, copies])
  · have own : (.secondOrder, size) ∈ sizes.blocks := by simp [blocks, member]
    exact (supported _ own nofun nofun).2 rfl

/-- Rows that are listed once and below the sum of the sizes leave no room for a negative size. -/
theorem nonneg_of_listed {blocks : List IntegerBlock} {rows : ℕ}
    (total : (blocks.map Prod.snd).sum = (rows : ℤ))
    (inside : ∀ i ∈ VariableOrder.listed ((integerSpans 0 blocks).map ConeSpan.entry),
      0 ≤ i ∧ i < (rows : ℤ))
    (once : ((VariableOrder.listed ((integerSpans 0 blocks).map ConeSpan.entry)).map
      Int.toNat).Nodup) :
    ∀ size ∈ blocks.map Prod.snd, 0 ≤ size := by
  have below : (VariableOrder.listed ((integerSpans 0 blocks).map ConeSpan.entry)).map Int.toNat ⊆
      List.range rows := by
    intro i member
    obtain ⟨index, listed, rfl⟩ := List.mem_map.1 member
    have := inside index listed
    exact List.mem_range.2 (by omega)
  have few := (once.subperm below).length_le
  rw [List.length_map, length_listed_integerSpans, List.length_range] at few
  apply nonneg_of_sum_toNat_le
  rw [total]
  exact_mod_cast few

theorem Sound.map_toNat {sizes : IntegerSizes} (sound : sizes.Sound) :
    (sizes.secondOrder.map Int.toNat).map (fun size : ℕ => (size : ℤ)) = sizes.secondOrder :=
  VariableOrder.map_cast_toNat fun size member =>
    Int.le_trans (by decide) (sound.secondOrder size member)

/-- What is left of sound sizes are counts, and their blocks are those of a form. -/
theorem Sound.blocks_eq {sizes : IntegerSizes} (sound : sizes.Sound) :
    sizes.blocks = (StandardForm.blocks sizes.zero.toNat sizes.nonneg.toNat
      (sizes.secondOrder.map Int.toNat)).map fun block => (block.1, (block.2 : ℤ)) := by
  rw [IntegerSizes.blocks, sound.semidefinite, Int.toNat_of_nonpos sound.expPrimal,
    Int.toNat_of_nonpos sound.expDual, ← sound.map_toNat]
  simp [StandardForm.blocks, Function.comp_def, Int.toNat_of_nonneg sound.zero,
    Int.toNat_of_nonneg sound.nonneg]

end IntegerSizes
end ConeDims

namespace ConeList

theorem entriesOf_toDatum [Machine] (entries : List ConeEntry) :
    entriesOf (toDatum entries) = entries := by
  simp [entriesOf, read_of_readKinds (readKinds_toDatum entries) (readIndices_unread entries),
    Except.toOption]

end ConeList

namespace ConicProblem

/-- Where all variables are free, the blocks of the rows are the cones of the form. -/
theorem Placed.cone_eq {problem : ConicProblem} {reverse : List ℕ} {form : StandardForm}
    (placed : problem.Placed reverse form) {equalities npos : ℕ} {sizes : List ℕ} {free : List ℤ}
    (rowCones : problem.rowCones = ConeDims.entries 0 (StandardForm.blocks equalities npos sizes))
    (variableCones : problem.variableCones = [(.free, free)])
    (total : equalities + (npos + sizes.sum) = problem.bounds.length) :
    form.p = equalities ∧ form.npos = npos ∧ form.sizes = sizes.map fun size : ℕ => (size : ℤ) := by
  have unlisted (kinds : List Cone) (other : .free ∉ kinds) :
      VariableOrder.segment kinds problem.variableCones = [] := by
    simp [variableCones, VariableOrder.segment, other]
  refine ⟨?_, ?_, ?_⟩
  · have kept := length_kept_add_moved placed.rows placed.once
    rw [movedIndices, rowCones, StandardForm.movedIndices_blocks, List.length_map,
      ConeDims.consecutive, List.length_map, List.length_range, Int.toNat_natCast] at kept
    rw [StandardForm.p_of_madeOf placed.made, length_equalityRows, unlisted _ (by decide),
      List.length_nil]
    omega
  · have none : rowsUnder problem.variableCones orthantCoefficient?
        (unitRow (VariableOrder.place reverse)) = [] := by
      rw [variableCones]
      rfl
    rw [placed.made.npos, orthantRows, none, List.nil_append, rowCones,
      StandardForm.orthantRows_blocks, List.length_map, ConeDims.consecutive, List.length_map,
      List.length_range, Int.toNat_natCast]
  · have own : problem.sizes = sizes := by
      rw [ConicProblem.sizes, variableCones, rowCones]
      exact StandardForm.sizes_blocks equalities npos sizes
    rw [placed.made.sizes, own]

/-- Cones that are laid out from declared sizes are a layout of the form, if the problem is accepted
with them and all of its variables are free. The sizes may have been any integers. -/
theorem sound_of_load [Machine] {naming : ConeDims.Naming} {fields : List (String × Datum)}
    {sizes : ConeDims.IntegerSizes} {dims : ConeDims} {cones : List ConeEntry} {input : Input}
    {free : List ℤ} {form : StandardForm} (named : sizes.NamedIn naming fields)
    (readAs : ConeDims.read naming fields = .ok dims)
    (declared : dims.toCones (.integer input.bounds.numbers.length) = .ok cones)
    (rowCones : input.rowCones = ConeList.toDatum cones)
    (variableCones : ConeList.entriesOf input.variableCones = [(.free, free)])
    (loaded : load input = .ok form) :
    sizes.Sound ∧
      VariableOrder.listed cones =
        (List.range input.bounds.numbers.length).map (fun i : ℕ => (i : ℤ)) ∧
      (form.p : ℤ) = sizes.zero ∧ form.npos = sizes.nonneg ∧ form.sizes = sizes.secondOrder := by
  obtain ⟨power, rfl⟩ := named.read_eq_ok readAs
  obtain ⟨rfl, total⟩ := ConeDims.IntegerSizes.toCones_eq_ok declared
  obtain ⟨problem, read, built⟩ := Outcome.bind_eq_ok_iff.1 loaded
  have given := readAs_of_read read
  obtain ⟨reverse, placed⟩ := placed_of_standardForm built
  have entries : problem.rowCones =
      (ConeDims.integerSpans 0 sizes.blocks).map ConeDims.ConeSpan.entry := by
    rw [← given.rowCones, rowCones, ConeList.entriesOf_toDatum]
  have accepted := given.accepted
  have inside := placed.rows
  have once := placed.once
  rw [entries] at accepted inside once
  rw [given.bounds] at total ⊢
  obtain ⟨semidefinite, expPrimal, expDual, nonempty⟩ :=
    ConeDims.IntegerSizes.blocks_of_accepted accepted
  have lower := ConeDims.IntegerSizes.nonneg_of_listed total inside once
  have sound : sizes.Sound :=
    ⟨lower _ (by simp [ConeDims.IntegerSizes.blocks]),
      lower _ (by simp [ConeDims.IntegerSizes.blocks]), nonempty, semidefinite, expPrimal, expDual,
      power⟩
  rw [sound.blocks_eq, ConeDims.integerSpans_counts] at entries ⊢
  rw [sound.blocks_eq, ConeDims.sum_counts, StandardForm.totalCount_blocks] at total
  have sum := Int.ofNat_inj.1 total
  obtain ⟨p, form_npos, form_sizes⟩ :=
    placed.cone_eq entries (given.variableCones ▸ variableCones) sum
  refine ⟨sound, ?_, ?_, ?_, form_sizes.trans sound.map_toNat⟩
  · rw [← ConeDims.entries, StandardForm.listed_blocks, sum]
    simp [ConeDims.consecutive]
  · rw [p, Int.toNat_of_nonneg sound.zero]
  · rw [form_npos, Int.toNat_of_nonneg sound.nonneg]

/-- Three rows and one free variable, with sizes of which a short name counts before a long one. -/
def Input.threeRows (cones : List ConeEntry) : Input where
  objective := .list [.integer 1]
  matrix := .zeros [3, 1]
  bounds := .zeros [3]
  rowCones := ConeList.toDatum cones
  variableCones := ConeList.toDatum [(.free, [0])]
  sense := .sense .minimize

theorem sound_of_threeRows : ∃ dims cones form,
    ConeDims.read .keys [("zero", .integer 5), ("f", .integer 1), ("q", .list [.integer 2]),
      ("ep", .integer (-1))] = .ok dims ∧
    dims.toCones (.integer 3) = .ok cones ∧ load (.threeRows cones) = .ok form ∧
      (form.p : ℤ) = 1 ∧ form.npos = 0 ∧ form.sizes = [2] := by
  let sizes : ConeDims.IntegerSizes := ⟨1, 0, [2], [], -1, 0, []⟩
  let input : Input := .threeRows [(.zero, [0]), (.secondOrder, [1, 2])]
  have named : sizes.NamedIn .keys [("zero", .integer 5), ("f", .integer 1),
      ("q", .list [.integer 2]), ("ep", .integer (-1))] := by
    constructor <;> rfl
  have readAs : ConeDims.read .keys [("zero", .integer 5), ("f", .integer 1),
      ("q", .list [.integer 2]), ("ep", .integer (-1))] = .ok sizes.toDims := rfl
  have declared : sizes.toDims.toCones (.integer input.bounds.numbers.length) =
      .ok [(.zero, [0]), (.secondOrder, [1, 2])] := rfl
  obtain ⟨form, loaded, _⟩ : ∃ form, load input = .ok form ∧ form.n = 1 :=
    Outcome.exists_of_toOption_map (by decide +kernel)
  obtain ⟨_, _, cone⟩ :=
    sound_of_load named readAs declared rfl (ConeList.entriesOf_toDatum _) loaded
  exact ⟨_, _, form, readAs, declared, loaded, cone⟩

end ConicProblem
end ConicForm
