import ConicForm.Proofs.CompressedColumns
import ConicForm.Proofs.ConeLayout
import ConicForm.Proofs.FormAssembly

/-! The cones of a form laid out over its rows: its equalities are put in the zero cone, the orthant
follows, and then one second-order cone after the other. The names of its sizes are read as these
blocks. -/
namespace ConicForm.StandardForm

open Outcome (Short)

/-- The sizes of a form are counts, every cone has a row, and the matrices are in order. -/
structure Tidy (form : StandardForm) (npos : ℕ) (sizes : List ℕ) : Prop where
  nonempty : ∀ size ∈ sizes, 1 ≤ size
  orthant : form.orthant = .integer npos
  m_eq : form.m = npos + sizes.sum
  sizes : form.sizes = sizes.map fun size : ℕ => (size : ℤ)
  G : form.G.Ordered
  A : form.A.Ordered

theorem MadeOf.tidy {form : StandardForm} {npos : ℕ} {sizes : List ℕ}
    {inequalities equalities : List ConstraintRow} {objective : List Binary64} {sense : Sense}
    {order : VariableOrder}
    (made : form.MadeOf npos sizes inequalities equalities objective sense order)
    (nonempty : ∀ size ∈ sizes, 1 ≤ size) : form.Tidy npos sizes where
  nonempty := nonempty
  orthant := made.orthant
  m_eq := made.m_eq
  sizes := made.sizes
  G := made.G ▸ ConstraintRow.ordered_matrix _ _
  A := made.A ▸ ConstraintRow.ordered_matrix _ _

/-- The blocks of the rows of a form: equalities, the orthant, second-order cones. -/
def blocks (equalities npos : ℕ) (sizes : List ℕ) : List ConeDims.CountedBlock :=
  [(.zero, equalities)] ++ ([(.nonneg, npos)] ++ sizes.map fun size => (.secondOrder, size))

theorem totalCount_singleton (kind : Cone) (count : ℕ) :
    ConeDims.totalCount [(kind, count)] = count := by
  simp [ConeDims.totalCount]

theorem totalCount_secondOrder (sizes : List ℕ) :
    ConeDims.totalCount (sizes.map fun size => (.secondOrder, size)) = sizes.sum := by
  simp [ConeDims.totalCount, Function.comp_def]

theorem totalCount_blocks (equalities npos : ℕ) (sizes : List ℕ) :
    ConeDims.totalCount (blocks equalities npos sizes) = equalities + (npos + sizes.sum) := by
  simp [blocks, ConeDims.totalCount, Function.comp_def]

/-- The sizes of a form, its equalities among them. -/
def coneDims (form : StandardForm) : ConeDims where
  zero := .integer form.p
  nonneg := form.orthant
  secondOrder := form.sizes.map .integer
  semidefinite := []
  expPrimal := .integer 0
  expDual := .integer 0

/-- The names of a form's cone, with its equalities under a name of their own, are read as its
sizes. -/
theorem read_dims [Machine] (form : StandardForm) :
    ConeDims.read .keys (form.dims ++ [("f", .integer form.p)]) = .ok form.coneDims := by
  rfl

/-- A form is in memory: its right-hand sides and its objective with eight bytes for each number,
and with four at least where each column of its matrices starts and where the last one ends. A form
that has been returned is. -/
def IsHeld [Machine] (form : StandardForm) : Prop :=
  8 * ((form.p : ℤ) + form.m + form.n) + 2 * (4 * ((form.n : ℤ) + 1)) ≤ Machine.memory

/-- Next to such a form there could be where each of its rows starts. -/
theorem IsHeld.holdsLines [Machine] {form : StandardForm} (held : form.IsHeld) :
    Capacity.HoldsLines (form.p + form.m) := by
  unfold IsHeld at held
  unfold Capacity.HoldsLines
  push_cast
  omega

namespace Tidy

variable {form : StandardForm} {npos : ℕ} {sizes : List ℕ} (tidy : form.Tidy npos sizes)
include tidy

/-- No block has more rows than there are right-hand sides. -/
theorem lists_of_isHeld [Machine] (held : form.IsHeld) :
    ∀ block ∈ blocks form.p npos sizes, Capacity.Lists block.2 := by
  have covered := tidy.m_eq
  have room := held.holdsLines.lists
  simp only [blocks, List.forall_mem_append, List.forall_mem_singleton, List.forall_mem_map]
  refine ⟨room.mono (by omega), room.mono (by omega), fun size member => ?_⟩
  have within := List.le_sum_of_mem member
  exact room.mono (by omega)

/-- The sizes of a form are laid out as its blocks. -/
theorem toCones_coneDims_eq [Machine] : form.coneDims.toCones (.integer (form.p + form.m : ℕ)) =
    (ConeDims.layout 0 ((blocks form.p npos sizes).map ConeDims.CountedBlock.toBlock)).bind
      fun placed => (ConeDims.checkCovered placed.2 (.integer (form.p + form.m : ℕ))).map
        fun _ => placed.1.map ConeDims.ConeSpan.entry := by
  have listed : (blocks form.p npos sizes).map ConeDims.CountedBlock.toBlock =
      (.zero, .integer form.p) :: (.nonneg, form.orthant) ::
        (form.sizes.map .integer).map (fun size => (Cone.secondOrder, size)) := by
    simp [blocks, ConeDims.CountedBlock.toBlock, tidy.orthant, tidy.sizes, Function.comp_def]
  have none (blocks : List ConeBlock) (kind : Cone) :
      (Blocks.listed blocks).extend kind (.integer 0) = .ok (.listed blocks) := by
    have extended := Blocks.extend_listed blocks kind Capacity.lists_zero
    rwa [List.replicate_zero, List.append_nil] at extended
  rw [listed]
  simp only [ConeDims.toCones, coneDims, ConeDims.blocks, List.map_nil, List.append_nil, none,
    Except.bind, ConeDims.place]

/-- There are cones for the rows of a form unless memory is too small for the form itself. -/
theorem toCones_coneDims [Machine] :
    form.coneDims.toCones (.integer (form.p + form.m : ℕ)) =
        .ok (ConeDims.entries 0 (blocks form.p npos sizes)) ∨
      ¬form.IsHeld ∧ Short (form.coneDims.toCones (.integer (form.p + form.m : ℕ))) := by
  rw [tidy.toCones_coneDims_eq]
  by_cases room : ∀ block ∈ blocks form.p npos sizes, Capacity.Lists block.2
  · have total : ConeDims.totalCount (blocks form.p npos sizes) = form.p + form.m := by
      rw [totalCount_blocks, tidy.m_eq]
    left
    rw [ConeDims.layout_toBlock 0 room, total, zero_add]
    simp only [Except.bind, ConeDims.checkCovered, Datum.compare_integer, Except.map,
      beq_self_eq_true, if_true, ConeDims.entries]
  · refine .inr ⟨fun held => room (tidy.lists_of_isHeld held), ?_⟩
    simp only [not_forall] at room
    obtain ⟨block, member, long⟩ := room
    exact (ConeDims.short_layout 0 member long).bind _

end Tidy

section Entries

variable (equalities npos : ℕ) (sizes : List ℕ)

theorem entries_blocks : ConeDims.entries 0 (blocks equalities npos sizes) =
    ConeDims.entries 0 [(.zero, equalities)] ++ (ConeDims.entries equalities [(.nonneg, npos)] ++
      ConeDims.entries ((equalities : ℤ) + npos) (sizes.map fun size => (.secondOrder, size))) := by
  rw [blocks, ConeDims.entries_append, ConeDims.entries_append, totalCount_singleton,
    totalCount_singleton, zero_add]

theorem listed_blocks :
    VariableOrder.listed (ConeDims.entries 0 (blocks equalities npos sizes)) =
      ConeDims.consecutive 0 (equalities + (npos + sizes.sum) : ℕ) := by
  rw [VariableOrder.listed, ConeDims.flatMap_entries 0 fun _ _ rows => (List.map_id rows).symm,
    totalCount_blocks, List.map_id]

/-- What is made of the rows of the blocks, where nothing is made of equalities. -/
theorem flatMap_blocks {f : ConeEntry → List α} (none : ∀ rows, f (.zero, rows) = []) :
    (ConeDims.entries 0 (blocks equalities npos sizes)).flatMap f =
      (ConeDims.entries equalities [(.nonneg, npos)]).flatMap f ++
        (ConeDims.entries ((equalities : ℤ) + npos)
          (sizes.map fun size => (.secondOrder, size))).flatMap f := by
  have first : (ConeDims.entries 0 [(.zero, equalities)]).flatMap f = [] := by
    apply ConeDims.flatMap_entries_eq_nil
    intro block member
    rw [List.mem_singleton.1 member]
    exact none
  rw [entries_blocks, List.flatMap_append, first, List.nil_append, List.flatMap_append]

theorem kind_of_mem_map {kind : Cone} {block : ConeDims.CountedBlock}
    (member : block ∈ sizes.map fun size => (kind, size)) : block.1 = kind := by
  obtain ⟨_, _, rfl⟩ := List.mem_map.1 member
  rfl

theorem orthantRows_blocks (row : Binary64 → ℤ → ConstraintRow) :
    ConicProblem.rowsUnder (ConeDims.entries 0 (blocks equalities npos sizes))
        ConicProblem.orthantFactor? row =
      (ConeDims.consecutive equalities npos).map (row .one) := by
  rw [ConicProblem.rowsUnder, flatMap_blocks _ _ _ fun _ => rfl, ConeDims.flatMap_entries,
    totalCount_singleton, ConeDims.flatMap_entries_eq_nil, List.append_nil]
  · intro block member rows
    rw [kind_of_mem_map sizes member]
    rfl
  · intro block member rows
    rw [List.mem_singleton.1 member]
    rfl

theorem secondOrderRows_blocks (row : Binary64 → ℤ → ConstraintRow) :
    ConicProblem.rowsUnder (ConeDims.entries 0 (blocks equalities npos sizes))
        (ConicProblem.onlyFor .secondOrder .one) row =
      (ConeDims.consecutive ((equalities : ℤ) + npos) (sizes.sum : ℕ)).map (row .one) := by
  rw [ConicProblem.rowsUnder, flatMap_blocks _ _ _ fun _ => rfl, ConeDims.flatMap_entries_eq_nil,
    List.nil_append, ConeDims.flatMap_entries, totalCount_secondOrder]
  · intro block member rows
    rw [kind_of_mem_map sizes member]
    rfl
  · intro block member rows
    rw [List.mem_singleton.1 member]
    rfl

theorem movedIndices_blocks :
    VariableOrder.segment [.nonneg, .nonpos, .secondOrder]
        (ConeDims.entries 0 (blocks equalities npos sizes)) =
      (ConeDims.consecutive equalities (npos + sizes.sum : ℕ)).map Int.toNat := by
  rw [VariableOrder.segment_eq_flatMap, flatMap_blocks _ _ _ fun _ => rfl,
    ConeDims.flatMap_entries, ConeDims.flatMap_entries, totalCount_singleton,
    totalCount_secondOrder, ← List.map_append, ConeDims.consecutive_append]
  · intro block member rows
    rw [kind_of_mem_map sizes member]
    rfl
  · intro block member rows
    rw [List.mem_singleton.1 member]
    rfl

theorem sizes_blocks : ((ConeDims.entries 0 (blocks equalities npos sizes)).filter
    fun entry => entry.1 == .secondOrder).map (fun entry => entry.2.length) = sizes := by
  have lengths : (ConeDims.entries ((equalities : ℤ) + npos)
      (sizes.map fun size => (.secondOrder, size))).map (fun entry => entry.2.length) = sizes := by
    have kept : ∀ block ∈ sizes.map fun size => (Cone.secondOrder, size),
        block.1 ≠ .zero ∧ block.1 ≠ .nonneg := by
      intro block member
      rw [kind_of_mem_map sizes member]
      decide
    have counted := ConeDims.map_entries ((equalities : ℤ) + npos) kept
    simpa [Function.comp_def] using congrArg (List.map Prod.snd) counted
  have chosen : ∀ entry ∈ ConeDims.entries ((equalities : ℤ) + npos)
      (sizes.map fun size => (.secondOrder, size)), entry.1 == .secondOrder := by
    intro entry member
    obtain ⟨block, stored, same, _⟩ := ConeDims.kind_of_mem_entries member
    rw [← same, kind_of_mem_map sizes stored]
    rfl
  have others (kind : Cone) (start : ℤ) (count : ℕ) (other : kind ≠ .secondOrder) :
      (ConeDims.entries start [(kind, count)]).filter (fun entry => entry.1 == .secondOrder) =
        [] := by
    rw [List.filter_eq_nil_iff]
    intro entry member
    obtain ⟨block, stored, same, _⟩ := ConeDims.kind_of_mem_entries member
    rw [← same, List.mem_singleton.1 stored]
    simpa using other
  rw [entries_blocks, List.filter_append, List.filter_append, others .zero _ _ (by decide),
    others .nonneg _ _ (by decide), List.filter_eq_self.2 chosen]
  exact lengths

end Entries

/-- A list of the blocks is accepted, next to one of free variables. -/
theorem Tidy.accepted_blocks {form : StandardForm} {npos : ℕ} {sizes : List ℕ}
    (tidy : form.Tidy npos sizes) (indices : List ℤ) :
    ConeList.Accepted (ConeDims.entries 0 (blocks form.p npos sizes)) [(.free, indices)] := by
  have kinds : ∀ entry ∈ ConeDims.entries 0 (blocks form.p npos sizes),
      entry.1 = .zero ∨ entry.1 = .nonneg ∨ entry.1 = .secondOrder ∧ entry.2 ≠ [] := by
    intro entry member
    obtain ⟨block, stored, same, size⟩ := ConeDims.kind_of_mem_entries member
    rw [← same]
    simp only [blocks, List.mem_append, List.mem_singleton, List.mem_map] at stored
    rcases stored with rfl | rfl | ⟨count, own, rfl⟩
    · exact Or.inl rfl
    · exact Or.inr (Or.inl rfl)
    · have positive := tidy.nonempty count own
      refine Or.inr (Or.inr ⟨rfl, fun empty => ?_⟩)
      rw [empty, List.length_nil] at size
      omega
  constructor
  · intro entry member
    rcases List.mem_append.1 member with listed | free
    · rcases kinds entry listed with kind | kind | ⟨kind, _⟩
      all_goals rw [kind]; rfl
    · rw [List.mem_singleton.1 free]
      rfl
  · intro entry member
    rcases kinds entry member with kind | kind | ⟨kind, _⟩
    all_goals rw [kind]; decide
  · intro entry member secondOrder
    rcases List.mem_append.1 member with listed | free
    · rcases kinds entry listed with kind | kind | ⟨_, nonempty⟩
      · rw [kind] at secondOrder
        cases secondOrder
      · rw [kind] at secondOrder
        cases secondOrder
      · exact nonempty
    · rw [List.mem_singleton.1 free] at secondOrder
      cases secondOrder

end ConicForm.StandardForm
