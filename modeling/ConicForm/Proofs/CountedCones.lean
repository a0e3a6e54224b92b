import ConicForm.Proofs.DeclaredCones

/-! Cones that are laid out from their counts. If all of their rows can be listed, there are cones
for just one number of rows, and their lists of rows are that many numbers in turn. What the counts
are named by makes no difference. -/
namespace ConicForm

open Outcome (Short)

namespace ConeDims

/-- Cones for a number of rows, from sizes that are named. -/
def readCones [Machine] (naming : Naming) (fields : List (String × Datum)) (rows : Datum) :
    Except Fault (List ConeEntry) :=
  (read naming fields).bind fun dims => dims.toCones rows

end ConeDims

/-- How many rows each cone has, and how many exponential cones there are. Of a symmetric matrix the
order is counted, and its rows are those of a triangle. -/
structure ConeCounts where
  zero : ℕ
  nonneg : ℕ
  secondOrder : List ℕ
  semidefinite : List ℕ
  expPrimal : ℕ
  expDual : ℕ

namespace ConeCounts

open ConeDims (Naming CountedBlock IntegerSizes)

def triangle (order : ℕ) : ℕ := order * (order + 1) / 2

/-- The rows of all cones together. -/
def rows (counts : ConeCounts) : ℕ :=
  counts.zero + counts.nonneg + counts.secondOrder.sum + (counts.semidefinite.map triangle).sum +
    3 * (counts.expPrimal + counts.expDual)

/-- The cones of kinds that are never left out, with their numbers of rows. -/
def kept (counts : ConeCounts) : List CountedBlock :=
  (counts.secondOrder.map fun size => (.secondOrder, size)) ++
    (counts.semidefinite.map fun order => (.semidefinite, triangle order)) ++
      List.replicate counts.expPrimal (.expPrimal, 3) ++
        List.replicate counts.expDual (.expDual, 3)

def blocks (counts : ConeCounts) : List CountedBlock :=
  [(.zero, counts.zero)] ++ ([(.nonneg, counts.nonneg)] ++ counts.kept)

/-- The cones in turn. There is none for no rows in the zero cone or in the orthant. -/
def cones (counts : ConeCounts) : List CountedBlock :=
  (if counts.zero = 0 then [] else [(.zero, counts.zero)]) ++
    ((if counts.nonneg = 0 then [] else [(.nonneg, counts.nonneg)]) ++ counts.kept)

/-- The counts as integers that are declared, without a power cone. -/
def toSizes (counts : ConeCounts) : IntegerSizes where
  zero := counts.zero
  nonneg := counts.nonneg
  secondOrder := counts.secondOrder.map fun size : ℕ => (size : ℤ)
  semidefinite := counts.semidefinite.map fun order : ℕ => (order : ℤ)
  expPrimal := counts.expPrimal
  expDual := counts.expDual
  power := []

section Naming

def integers (counts : List ℕ) : Datum :=
  .list ((counts.map fun count : ℕ => (count : ℤ)).map .integer)

variable (counts : ConeCounts)

def shortNames : List (String × Datum) :=
  [("f", .integer counts.zero), ("l", .integer counts.nonneg), ("q", integers counts.secondOrder),
    ("s", integers counts.semidefinite), ("ep", .integer counts.expPrimal),
    ("ed", .integer counts.expDual)]

/-- Dual exponential cones have no long name. -/
def longNames : List (String × Datum) :=
  [("zero", .integer counts.zero), ("nonneg", .integer counts.nonneg),
    ("soc", integers counts.secondOrder), ("psd", integers counts.semidefinite),
    ("exp", .integer counts.expPrimal), ("ed", .integer counts.expDual)]

/-- Dual exponential cones are no attribute. -/
def attributes : List (String × Datum) :=
  [("zero", .integer counts.zero), ("nonneg", .integer counts.nonneg),
    ("soc", integers counts.secondOrder), ("psd", integers counts.semidefinite),
    ("exp", .integer counts.expPrimal)]

theorem namedIn_shortNames : counts.toSizes.NamedIn .keys counts.shortNames := by
  constructor <;> rfl

theorem namedIn_longNames : counts.toSizes.NamedIn .keys counts.longNames := by
  constructor <;> rfl

theorem namedIn_attributes (none : counts.expDual = 0) :
    counts.toSizes.NamedIn .attributes counts.attributes := by
  refine ⟨rfl, rfl, rfl, rfl, rfl, ?_, rfl⟩
  simp only [toSizes, none]
  rfl

/-- Whatever names the counts, the same sizes are read. -/
theorem readCones_eq [Machine] {counts : ConeCounts} {naming : Naming}
    {fields : List (String × Datum)}
    (named : counts.toSizes.NamedIn naming fields) (declared : Datum) :
    ConeDims.readCones naming fields declared = counts.toSizes.toDims.toCones declared := by
  simp only [ConeDims.readCones, ConeDims.read, named.zero, named.nonneg, named.secondOrder,
    named.semidefinite, named.expPrimal, named.expDual, named.power, Datum.elements,
    IntegerSizes.mapM_readTriangle, bind, Except.bind, pure, Except.pure]
  rfl

end Naming

variable {counts : ConeCounts}

theorem toBlock_blocks : counts.blocks.map CountedBlock.toBlock =
    (.zero, .integer counts.zero) :: (.nonneg, .integer counts.nonneg) ::
      counts.toSizes.toDims.secondOrder.map (fun size => (Cone.secondOrder, size)) ++
        counts.toSizes.toDims.semidefinite.map (fun size => (Cone.semidefinite, size)) ++
          List.replicate counts.expPrimal (.expPrimal, .integer Band.expSize) ++
            List.replicate counts.expDual (.expDual, .integer Band.expSize) := by
  simp [blocks, kept, toSizes, IntegerSizes.toDims, CountedBlock.toBlock, ConeDims.triangle,
    triangle, Band.expSize, Function.comp_def]

theorem totalCount_blocks : ConeDims.totalCount counts.blocks = counts.rows := by
  have triangles : (counts.semidefinite.map fun order => triangle order) =
      counts.semidefinite.map triangle := rfl
  simp [ConeDims.totalCount, blocks, kept, rows, Function.comp_def, triangles]
  omega

/-- The lists that are made of the counts: the exponential cones of either kind, and the rows of
each cone. -/
def listLengths (counts : ConeCounts) : List ℕ :=
  counts.expPrimal :: counts.expDual :: counts.blocks.map Prod.snd

/-- Every list that is made of the counts has room. -/
def HasRoom [Machine] (counts : ConeCounts) : Prop :=
  ∀ length ∈ counts.listLengths, Capacity.Lists length

theorem hasRoom_iff [Machine] : counts.HasRoom ↔ Capacity.Lists counts.expPrimal ∧
    Capacity.Lists counts.expDual ∧ ∀ block ∈ counts.blocks, Capacity.Lists block.2 := by
  simp only [HasRoom, listLengths, List.forall_mem_cons, List.forall_mem_map]

theorem toCones_eq [Machine] (room : counts.HasRoom) (declared : ℤ) :
    counts.toSizes.toDims.toCones (.integer declared) =
      if (counts.rows : ℤ) = declared then .ok (ConeDims.entries 0 counts.blocks)
      else .error (Fault.length (.coneDimensions counts.rows (.integer declared))).raised := by
  obtain ⟨primal, dual, rows⟩ := hasRoom_iff.1 room
  have laid := ConeDims.layout_toBlock 0 rows
  rw [toBlock_blocks, totalCount_blocks, zero_add] at laid
  have primals (blocks : List ConeBlock) := Blocks.extend_listed blocks .expPrimal primal
  have duals (blocks : List ConeBlock) := Blocks.extend_listed blocks .expDual dual
  have placed : counts.toSizes.toDims.blocks.bind ConeDims.place =
      .ok (ConeDims.spans 0 counts.blocks, (counts.rows : ℤ)) := by
    rw [← laid]
    simp only [ConeDims.blocks, toSizes, IntegerSizes.toDims, primals, duals, Except.bind,
      ConeDims.place]
  rw [ConeDims.toCones, placed, Except.bind, ConeDims.checkCovered, Datum.compare_integer,
    Except.bind]
  by_cases covered : (counts.rows : ℤ) = declared
  · simp [covered, Except.map, ConeDims.entries]
  · have other : (declared == (counts.rows : ℤ)) = false := by simpa using Ne.symm covered
    simp [covered, other, Datum.compared_integer, Except.map]

/-- A number of rows that is not covered is reported if both numbers can be written. -/
theorem isWritable_coneDimensions {declared : ℤ} :
    (Fault.length (.coneDimensions counts.rows (.integer declared))).isWritable ↔
      Capacity.Writable counts.rows ∧ Capacity.Writable declared := by
  simp [Fault.isWritable, LengthFault.declared, Datum.isListable, Datum.isWritable]

theorem short_toCones [Machine] (declared : Datum) (full : ¬counts.HasRoom) :
    Short (counts.toSizes.toDims.toCones declared) := by
  unfold ConeDims.toCones ConeDims.blocks
  refine Short.bind ?_ _
  have exponential : counts.toSizes.toDims.expPrimal = .integer counts.expPrimal ∧
      counts.toSizes.toDims.expDual = .integer counts.expDual := ⟨rfl, rfl⟩
  dsimp only
  rw [exponential.1, exponential.2, Blocks.extend_integer]
  -- the exponential cones of either kind are listed before any block is laid out
  by_cases primal : Capacity.Lists counts.expPrimal
  swap
  · exact (((Capacity.short_listLength primal).map _).bind _).bind _
  rw [Capacity.listLength_of_lists primal]
  simp only [Except.mapError, Except.map, Except.bind]
  rw [Blocks.extend_integer]
  by_cases dual : Capacity.Lists counts.expDual
  swap
  · exact ((Capacity.short_listLength dual).map _).bind _
  rw [Capacity.listLength_of_lists dual]
  obtain ⟨block, own, long⟩ : ∃ block ∈ counts.blocks, ¬Capacity.Lists block.2 := by
    by_contra all
    push Not at all
    exact full (hasRoom_iff.2 ⟨primal, dual, all⟩)
  have short := ConeDims.short_layout 0 own long
  rw [toBlock_blocks] at short
  exact short

/-- A block by itself has an entry unless it is left out. -/
theorem map_entries_singleton (start : ℤ) (kind : Cone) (size : ℕ) :
    (ConeDims.entries start [(kind, size)]).map (fun entry => (entry.1, entry.2.length)) =
      if (kind = .zero ∨ kind = .nonneg) ∧ size = 0 then [] else [(kind, size)] := by
  unfold ConeDims.entries ConeDims.spans
  split
  · rfl
  · simp [ConeDims.spans, ConeDims.ConeSpan.entry, ConeDims.consecutive]

theorem map_entries_blocks (counts : ConeCounts) :
    (ConeDims.entries 0 counts.blocks).map (fun entry => (entry.1, entry.2.length)) =
      counts.cones := by
  have kinds : ∀ block ∈ counts.kept, block.1 ≠ .zero ∧ block.1 ≠ .nonneg := by
    intro block member
    simp only [kept, List.mem_append, List.mem_map, List.mem_replicate] at member
    rcases member with ((⟨_, _, rfl⟩ | ⟨_, _, rfl⟩) | ⟨_, rfl⟩) | ⟨_, rfl⟩
    all_goals exact ⟨nofun, nofun⟩
  rw [blocks, ConeDims.entries_append, ConeDims.entries_append, List.map_append, List.map_append,
    map_entries_singleton, map_entries_singleton, ConeDims.map_entries _ kinds]
  simp [cones]

theorem listed_blocks (counts : ConeCounts) :
    VariableOrder.listed (ConeDims.entries 0 counts.blocks) =
      (List.range counts.rows).map fun i : ℕ => (i : ℤ) := by
  rw [VariableOrder.listed, ConeDims.flatMap_entries 0 fun _ _ rows => (List.map_id rows).symm,
    totalCount_blocks]
  simp [ConeDims.consecutive]

/-- Cones that are counted cover exactly their own number of rows. They are laid out for no other,
and then follow one another from the first row to the last. Whatever names the counts, the cones are
the same. Only lists that are too long are never made, and only a number with too many digits is not
reported. -/
theorem readCones_counted [Machine] (counts : ConeCounts) (declared : ℤ) :
    counts.toSizes.NamedIn .keys counts.shortNames ∧
    counts.toSizes.NamedIn .keys counts.longNames ∧
    (counts.expDual = 0 → counts.toSizes.NamedIn .attributes counts.attributes) ∧
    ∀ (naming : Naming) (fields : List (String × Datum)), counts.toSizes.NamedIn naming fields →
      ConeDims.readCones naming fields (.integer declared) =
        ConeDims.readCones .keys counts.shortNames (.integer declared) ∧
      (counts.HasRoom →
        ((∃ entries, ConeDims.readCones naming fields (.integer declared) = .ok entries) ↔
          (counts.rows : ℤ) = declared) ∧
        ((counts.rows : ℤ) ≠ declared →
          ConeDims.readCones naming fields (.integer declared) =
            .error (if Capacity.Writable counts.rows ∧ Capacity.Writable declared then
              .length (.coneDimensions counts.rows (.integer declared)) else .data .malformed)) ∧
        ∀ entries, ConeDims.readCones naming fields (.integer declared) = .ok entries →
          VariableOrder.listed entries = (List.range declared.toNat).map (fun i : ℕ => (i : ℤ)) ∧
            entries.map (fun entry => (entry.1, entry.2.length)) = counts.cones) ∧
      (¬counts.HasRoom → Short (ConeDims.readCones naming fields (.integer declared))) := by
  refine ⟨counts.namedIn_shortNames, counts.namedIn_longNames, counts.namedIn_attributes,
    fun naming fields named => ?_⟩
  rw [readCones_eq named, readCones_eq counts.namedIn_shortNames]
  refine ⟨rfl, fun room => ?_, short_toCones _⟩
  rw [toCones_eq room]
  by_cases covered : (counts.rows : ℤ) = declared
  · rw [if_pos covered]
    refine ⟨⟨fun _ => covered, fun _ => ⟨_, rfl⟩⟩, fun other => absurd covered other, ?_⟩
    rintro _ ⟨⟩
    rw [← covered, Int.toNat_natCast]
    exact ⟨counts.listed_blocks, counts.map_entries_blocks⟩
  · rw [if_neg covered]
    refine ⟨⟨nofun, fun same => absurd same covered⟩, fun _ => congrArg Except.error ?_, nofun⟩
    exact if_congr isWritable_coneDimensions rfl rfl

theorem readCones_mixed :
    ∃ counts : ConeCounts, counts.toSizes.NamedIn .keys counts.longNames ∧
      counts.HasRoom ∧ counts.rows = 9 ∧
      (∃ entries, ConeDims.readCones .keys counts.longNames (.integer 9) = .ok entries ∧
        entries.map (fun entry => (entry.1, entry.2.length)) =
          [(.zero, 1), (.secondOrder, 0), (.secondOrder, 2), (.semidefinite, 3),
            (.expPrimal, 3)]) ∧
      ConeDims.readCones .keys counts.longNames (.integer 8) =
        .error (.length (.coneDimensions 9 (.integer 8))) ∧
      ConeDims.readCones .keys counts.longNames (.integer (10 ^ 4300)) =
        .error (.data .malformed) := by
  let counts : ConeCounts := ⟨1, 0, [0, 2], [2], 1, 0⟩
  have room : counts.HasRoom := by
    unfold HasRoom Capacity.Lists
    decide
  obtain ⟨-, named, -, all⟩ := readCones_counted counts 9
  obtain ⟨-, exact, -⟩ := all .keys counts.longNames named
  obtain ⟨returned, -, placed⟩ := exact room
  obtain ⟨entries, read⟩ := returned.2 rfl
  obtain ⟨-, -, -, fewer⟩ := readCones_counted counts 8
  obtain ⟨-, refused, -⟩ := fewer .keys counts.longNames named
  obtain ⟨-, -, -, overlong⟩ := readCones_counted counts (10 ^ 4300)
  obtain ⟨-, unwritten, -⟩ := overlong .keys counts.longNames named
  have short := (refused room).2.1 (by decide)
  have long := (unwritten room).2.1 (by decide +kernel)
  rw [if_pos (by decide +kernel)] at short
  rw [if_neg (by decide +kernel)] at long
  exact ⟨counts, named, room, rfl, ⟨entries, read, (placed entries read).2⟩, short, long⟩

/-- A count with more rows than a list can have is refused as such, even for no rows. -/
theorem exists_too_many_rows :
    ∃ counts : ConeCounts, counts.rows ≠ 0 ∧
      ConeDims.readCones .keys counts.shortNames (.integer 0) = .error (.data .tooLarge) :=
  ⟨⟨2 ^ 63, 0, [], [], 0, 0⟩, by decide, rfl⟩

end ConeCounts
end ConicForm
