import ConicForm.ConeDims
import ConicForm.Proofs.ConicRows
import ConicForm.Proofs.Refusals

/-! Blocks of rows that are laid out one after the other. With sizes that are counts they cover
consecutive rows, and what a conic problem makes of the rows of some kinds are consecutive rows,
too. -/
namespace ConicForm

open Outcome (Short)

/-- Exponential cones that are counted follow the other blocks, if there is room to list them. -/
theorem Blocks.extend_integer [Machine] (blocks : List ConeBlock) (kind : Cone) (count : ℕ) :
    (Blocks.listed blocks).extend kind (.integer count) =
      ((Capacity.listLength count).mapError Fault.data).map fun copies =>
        .listed (blocks ++ List.replicate copies (kind, .integer Band.expSize)) := by
  have counted : ¬(count : ℤ) < -Capacity.word := by
    have : Capacity.word = 9223372036854775808 := rfl
    omega
  simp only [extend, Datum.toExactInteger, Datum.exactInteger?, Except.bind, if_neg counted]
  cases Capacity.listLength count <;> rfl

theorem Blocks.extend_listed [Machine] (blocks : List ConeBlock) (kind : Cone) {count : ℕ}
    (room : Capacity.Lists count) :
    (Blocks.listed blocks).extend kind (.integer count) =
      .ok (.listed (blocks ++ List.replicate count (kind, .integer Band.expSize))) := by
  rw [extend_integer, Capacity.listLength_of_lists room]
  rfl

theorem Capacity.short_listLength [Machine] {count : ℕ} (long : ¬Lists count) :
    Short ((listLength count).mapError Fault.data) := by
  unfold Lists at long
  unfold listLength
  by_cases beyond : word ≤ (count : ℤ)
  · rw [if_pos beyond]
    exact ⟨.tooLarge, rfl, .inl rfl⟩
  · rw [if_neg beyond, if_pos (not_le.1 long)]
    exact ⟨.outOfMemory, rfl, .inr rfl⟩

namespace ConeDims

theorem consecutive_append (start : ℤ) (first second : ℕ) :
    consecutive start first ++ consecutive (start + first) second =
      consecutive start (first + second : ℕ) := by
  simp only [consecutive, Int.toNat_natCast, List.range_add, List.map_append, List.map_map]
  simp only [Function.comp_def, Nat.cast_add, Int.add_assoc]

theorem mem_consecutive {start i : ℤ} {count : ℕ} :
    i ∈ consecutive start count ↔ start ≤ i ∧ i < start + count := by
  simp only [consecutive, Int.toNat_natCast, List.mem_map, List.mem_range]
  constructor
  · rintro ⟨k, below, rfl⟩
    omega
  · rintro ⟨lower, upper⟩
    exact ⟨(i - start).toNat, by omega, by omega⟩

/-- Blocks whose sizes are counts. -/
abbrev CountedBlock := Cone × ℕ

def CountedBlock.toBlock (block : CountedBlock) : ConeBlock := (block.1, .integer block.2)

def totalCount (blocks : List CountedBlock) : ℕ := (blocks.map Prod.snd).sum

/-- The rows of each block, without the blocks that are left out. -/
def spans (start : ℤ) : List CountedBlock → List ConeSpan
  | [] => []
  | block :: blocks =>
    if (block.1 = .zero ∨ block.1 = .nonneg) ∧ block.2 = 0 then spans start blocks
    else ⟨block.1, start, block.2⟩ :: spans (start + block.2) blocks

theorem isOmitted_toBlock (block : CountedBlock) :
    isOmitted block.toBlock = decide ((block.1 = .zero ∨ block.1 = .nonneg) ∧ block.2 = 0) := by
  simp [isOmitted, CountedBlock.toBlock, Datum.isTestable, Datum.equalsInt, Datum.exactInteger?,
    beq_eq_decide]

theorem rowCount_eq_listLength [Machine] (start : ℤ) (count : ℕ) : rowCount start (.integer count) =
    ((Capacity.listLength count).mapError Fault.data).map fun _ => (count : ℤ) := by
  simp [rowCount, Datum.isTestable, Datum.toExactInteger, Datum.exactInteger?, Except.bind]

theorem rowCount_integer [Machine] (start : ℤ) {count : ℕ} (room : Capacity.Lists count) :
    rowCount start (.integer count) = .ok (count : ℤ) := by
  rw [rowCount_eq_listLength, Capacity.listLength_of_lists room]
  rfl

theorem totalCount_cons (block : CountedBlock) (blocks : List CountedBlock) :
    totalCount (block :: blocks) = block.2 + totalCount blocks := by
  rw [totalCount, List.map_cons, List.sum_cons, totalCount]

/-- Blocks whose rows can be listed are laid out from their first row to their last. -/
theorem layout_toBlock [Machine] (start : ℤ) {blocks : List CountedBlock}
    (room : ∀ block ∈ blocks, Capacity.Lists block.2) :
    layout start (blocks.map CountedBlock.toBlock) =
      .ok (spans start blocks, start + totalCount blocks) := by
  induction blocks generalizing start with
  | nil => simp [layout, spans, totalCount]
  | cons block blocks ih =>
    obtain ⟨own, others⟩ := List.forall_mem_cons.1 room
    have later (next : ℤ) := ih next others
    rw [totalCount_cons, List.map_cons, spans]
    unfold CountedBlock.toBlock at later ⊢
    unfold layout
    have omitted := isOmitted_toBlock block
    unfold CountedBlock.toBlock at omitted
    rw [omitted]
    by_cases leftOut : (block.1 = .zero ∨ block.1 = .nonneg) ∧ block.2 = 0
    · rw [if_pos (decide_eq_true leftOut), if_pos leftOut, later, leftOut.2, Nat.zero_add]
    · rw [if_neg (by simpa using leftOut), if_neg leftOut, rowCount_integer start own, Except.bind,
        later, Except.map, Nat.cast_add, Int.add_assoc]

/-- Blocks are not laid out if the rows of one of them cannot be listed. -/
theorem short_layout [Machine] (start : ℤ) {blocks : List CountedBlock} {block : CountedBlock}
    (member : block ∈ blocks) (long : ¬Capacity.Lists block.2) :
    Short (layout start (blocks.map CountedBlock.toBlock)) := by
  induction blocks generalizing start with
  | nil => cases member
  | cons first blocks ih =>
    have omitted := isOmitted_toBlock first
    unfold CountedBlock.toBlock at omitted
    rw [List.map_cons, CountedBlock.toBlock, layout, omitted]
    by_cases leftOut : (first.1 = .zero ∨ first.1 = .nonneg) ∧ first.2 = 0
    · rw [if_pos (decide_eq_true leftOut)]
      have other : block ≠ first := by
        rintro rfl
        exact long (leftOut.2 ▸ Capacity.lists_zero)
      exact ih start ((List.mem_cons.1 member).resolve_left other)
    · rw [if_neg (by simpa using leftOut), rowCount_eq_listLength]
      by_cases room : Capacity.Lists first.2
      · have other : block ≠ first := by
          rintro rfl
          exact long room
        rw [Capacity.listLength_of_lists room]
        exact (ih _ ((List.mem_cons.1 member).resolve_left other)).map _
      · exact ((Capacity.short_listLength room).map _).bind _

theorem spans_append (start : ℤ) (first second : List CountedBlock) :
    spans start (first ++ second) =
      spans start first ++ spans (start + totalCount first) second := by
  induction first generalizing start with
  | nil => simp [spans, totalCount]
  | cons block blocks ih =>
    rw [List.cons_append, spans, spans, totalCount_cons]
    by_cases leftOut : (block.1 = .zero ∨ block.1 = .nonneg) ∧ block.2 = 0
    · rw [if_pos leftOut, if_pos leftOut, ih, leftOut.2, Nat.zero_add]
    · rw [if_neg leftOut, if_neg leftOut, ih, List.cons_append, Nat.cast_add, Int.add_assoc]

/-- The entries of blocks from a row on. -/
def entries (start : ℤ) (blocks : List CountedBlock) : List ConeEntry :=
  (spans start blocks).map ConeSpan.entry

theorem entries_append (start : ℤ) (first second : List CountedBlock) :
    entries start (first ++ second) =
      entries start first ++ entries (start + totalCount first) second := by
  rw [entries, spans_append, List.map_append, entries, entries]

theorem kind_of_mem_entries {start : ℤ} {blocks : List CountedBlock} {entry : ConeEntry}
    (member : entry ∈ entries start blocks) : ∃ block ∈ blocks,
      block.1 = entry.1 ∧ entry.2.length = block.2 := by
  induction blocks generalizing start with
  | nil => cases member
  | cons block blocks ih =>
    rw [entries, spans] at member
    by_cases leftOut : (block.1 = .zero ∨ block.1 = .nonneg) ∧ block.2 = 0
    · rw [if_pos leftOut] at member
      obtain ⟨source, stored, same⟩ := ih member
      exact ⟨source, List.mem_cons_of_mem _ stored, same⟩
    · rw [if_neg leftOut, List.map_cons] at member
      rcases List.mem_cons.1 member with rfl | later
      · exact ⟨block, List.mem_cons_self, rfl, by simp [ConeSpan.entry, consecutive]⟩
      · obtain ⟨source, stored, same⟩ := ih later
        exact ⟨source, List.mem_cons_of_mem _ stored, same⟩

/-- What is made of the rows of every block is made of consecutive rows. -/
theorem flatMap_entries (start : ℤ) {blocks : List CountedBlock} {f : ConeEntry → List α}
    {g : ℤ → α} (each : ∀ block ∈ blocks, ∀ rows, f (block.1, rows) = rows.map g) :
    (entries start blocks).flatMap f = (consecutive start (totalCount blocks)).map g := by
  induction blocks generalizing start with
  | nil => rfl
  | cons block blocks ih =>
    have later (next : ℤ) := ih next fun other member =>
      each other (List.mem_cons_of_mem _ member)
    rw [totalCount_cons, ← consecutive_append, List.map_append, ← later, entries, spans]
    by_cases leftOut : (block.1 = .zero ∨ block.1 = .nonneg) ∧ block.2 = 0
    · rw [if_pos leftOut, leftOut.2]
      simp [entries, consecutive]
    · rw [if_neg leftOut, List.map_cons, List.flatMap_cons, ConeSpan.entry,
        each block List.mem_cons_self, entries]

theorem flatMap_entries_eq_nil (start : ℤ) {blocks : List CountedBlock} {f : ConeEntry → List α}
    (none : ∀ block ∈ blocks, ∀ rows, f (block.1, rows) = []) :
    (entries start blocks).flatMap f = [] := by
  rw [List.flatMap_eq_nil_iff]
  intro entry member
  obtain ⟨block, stored, same, _⟩ := kind_of_mem_entries member
  have empty := none block stored entry.2
  rwa [same] at empty

/-- Blocks of kinds that are never left out have an entry each, of their size. -/
theorem map_entries (start : ℤ) {blocks : List CountedBlock}
    (kept : ∀ block ∈ blocks, block.1 ≠ .zero ∧ block.1 ≠ .nonneg) :
    (entries start blocks).map (fun entry => (entry.1, entry.2.length)) = blocks := by
  induction blocks generalizing start with
  | nil => rfl
  | cons block blocks ih =>
    have later (next : ℤ) := ih next fun other member => kept other (List.mem_cons_of_mem _ member)
    have own := kept block List.mem_cons_self
    have stays : ¬((block.1 = .zero ∨ block.1 = .nonneg) ∧ block.2 = 0) := by simp [own]
    unfold entries at later ⊢
    rw [spans, if_neg stays, List.map_cons, List.map_cons, later]
    simp [ConeSpan.entry, consecutive]

end ConeDims

namespace VariableOrder

theorem segment_eq_flatMap (kinds : List Cone) (entries : List ConeEntry) :
    segment kinds entries =
      entries.flatMap fun entry =>
        if kinds.contains entry.1 then entry.2.map Int.toNat else [] := by
  induction entries with
  | nil => rfl
  | cons entry entries ih => rw [segment_cons, ih, List.flatMap_cons]

end VariableOrder
end ConicForm
