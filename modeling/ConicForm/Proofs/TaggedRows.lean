import ConicForm.Proofs.ConicRows
import ConicForm.Proofs.WrittenArrays

/-! Conic problems over free variables, row by row. Each row is tagged with the half-line it is put
in, or is an equality. The form takes the rows as they come, and leaves the variables in their
places. -/
namespace ConicForm

structure TaggedRow where
  cone : Option Cone
  row : ConstraintRow

namespace TaggedRow

/-- The inequality of a row that is put in a half-line. -/
def inequality? (tagged : TaggedRow) : Option ConstraintRow :=
  (tagged.cone.bind ConicProblem.orthantFactor?).map fun factor => tagged.row.scale factor

def equality? (tagged : TaggedRow) : Option ConstraintRow :=
  match tagged.cone with
  | none => some (tagged.row.scale .one)
  | some _ => none

/-- One entry for each tagged row. -/
def entries (rows : List TaggedRow) : List ConeEntry :=
  rows.zipIdx.filterMap fun numbered =>
    numbered.1.cone.map fun kind => (kind, [(numbered.2 : ℤ)])

theorem mem_entries_iff {rows : List TaggedRow} {entry : ConeEntry} :
    entry ∈ entries rows ↔ ∃ (i : ℕ) (tagged : TaggedRow) (kind : Cone),
      rows[i]? = some tagged ∧ tagged.cone = some kind ∧ entry = (kind, [(i : ℤ)]) := by
  simp only [entries, List.mem_filterMap, Prod.exists, List.mem_zipIdx_iff_getElem?,
    Option.map_eq_some_iff]
  constructor
  · rintro ⟨tagged, i, stored, kind, tag, rfl⟩
    exact ⟨i, tagged, kind, stored, tag, rfl⟩
  · rintro ⟨i, tagged, kind, stored, tag, rfl⟩
    exact ⟨tagged, i, stored, kind, tag, rfl⟩

theorem listed_entries (rows : List TaggedRow) :
    VariableOrder.listed (entries rows) =
      (rows.zipIdx.filter fun numbered => numbered.1.cone.isSome).map
        fun numbered => (numbered.2 : ℤ) := by
  rw [entries, VariableOrder.listed, List.flatMap_def]
  induction rows.zipIdx with
  | nil => rfl
  | cons numbered rest ih =>
    cases tag : numbered.1.cone with
    | none => simpa [tag] using ih
    | some kind => simpa [tag] using ih

theorem nodup_listed (rows : List TaggedRow) :
    ((VariableOrder.listed (entries rows)).map Int.toNat).Nodup := by
  have numbers : (rows.zipIdx.map Prod.snd).Nodup := by
    rw [List.zipIdx_map_snd]
    exact List.nodup_range'
  rw [listed_entries, List.map_map]
  exact numbers.sublist (List.filter_sublist.map _)

theorem inside_of_mem_listed {rows : List TaggedRow} {index : ℤ}
    (member : index ∈ VariableOrder.listed (entries rows)) :
    0 ≤ index ∧ index < (rows.length : ℤ) := by
  obtain ⟨entry, stored, own⟩ := List.mem_flatMap.1 member
  obtain ⟨i, tagged, kind, found, _, rfl⟩ := mem_entries_iff.1 stored
  have below := (List.getElem?_eq_some_iff.1 found).1
  rw [List.mem_singleton.1 own]
  omega

end TaggedRow

namespace ConicProblem

def ofTagged (objective : List Binary64) (sense : Sense) (rows : List TaggedRow) :
    ConicProblem where
  objective := objective
  matrix := ⟨objective.length, rows.map fun tagged => tagged.row.line⟩
  bounds := rows.map fun tagged => tagged.row.bound
  rowCones := TaggedRow.entries rows
  variableCones := [(.free, (List.range objective.length).map fun j : ℕ => (j : ℤ))]
  sense := sense

theorem place_range {count : ℕ} {j : ℤ} (lower : 0 ≤ j) (upper : j < count) :
    VariableOrder.place (List.range count) j = j := by
  rw [VariableOrder.place, VariableOrder.idxOf_range (by omega)]
  omega

theorem reposition_range {count : ℕ} {line : Line} (within : line.Within count) :
    line.reposition (VariableOrder.place (List.range count)) = line := by
  have same : ∀ entry ∈ line,
      (VariableOrder.place (List.range count) entry.1, entry.2) = entry := by
    intro entry member
    obtain ⟨lower, upper⟩ := within entry member
    rw [place_range lower upper]
  exact (List.map_congr_left same).trans (List.map_id _)

theorem arrange_free (count : ℕ) :
    VariableOrder.arrange [(.free, (List.range count).map fun j : ℕ => (j : ℤ))] count =
      .ok (List.range count) := by
  have listed : (VariableOrder.listed
      [(.free, (List.range count).map fun j : ℕ => (j : ℤ))]).map Int.toNat =
        List.range count := by
    simp [VariableOrder.listed, Function.comp_def]
  rw [VariableOrder.arrange_eq_ok_iff]
  refine ⟨by simp [VariableOrder.hasSegment], ?_, by rw [listed], ?_⟩
  · intro index member
    simp only [VariableOrder.listed, List.flatMap_cons, List.flatMap_nil, List.append_nil,
      List.mem_map] at member
    obtain ⟨j, _, rfl⟩ := member
    omega
  · simp [VariableOrder.arranged, VariableOrder.segment, Function.comp_def]

theorem movedObjective_range (problem : ConicProblem) :
    problem.movedObjective (List.range problem.objective.length) = problem.objective := by
  apply List.ext_getElem (by simp [movedObjective])
  intro j _ below
  simp [movedObjective, below]

/-- Numbered rows become inequalities in their order. -/
theorem rowsUnder_numbered {row : Binary64 → ℤ → ConstraintRow} {numbered : List (TaggedRow × ℕ)}
    (moved : ∀ item ∈ numbered, ∀ factor, row factor (item.2 : ℤ) = item.1.row.scale factor) :
    rowsUnder (numbered.filterMap fun item => item.1.cone.map fun kind => (kind, [(item.2 : ℤ)]))
      orthantFactor? row = numbered.filterMap fun item => item.1.inequality? := by
  induction numbered with
  | nil => rfl
  | cons item rest ih =>
    have later := ih fun other member => moved other (List.mem_cons_of_mem _ member)
    have own := moved item List.mem_cons_self
    cases tag : item.1.cone with
    | none => simpa [TaggedRow.inequality?, tag] using later
    | some kind =>
      cases factor : orthantFactor? kind with
      | none => simpa [TaggedRow.inequality?, tag, rowsUnder_cons, factor] using later
      | some f => simpa [TaggedRow.inequality?, tag, rowsUnder_cons, factor, own] using later

/-- Numbered rows that do not move become equalities in their order. -/
theorem map_kept_numbered {indices : List ℕ} {row : ℕ → ConstraintRow}
    {numbered : List (TaggedRow × ℕ)}
    (tags : ∀ item ∈ numbered, item.2 ∈ indices ↔ item.1.cone.isSome)
    (kept : ∀ item ∈ numbered, row item.2 = item.1.row.scale .one) :
    ((numbered.map Prod.snd).filter fun i => !indices.contains i).map row =
      numbered.filterMap fun item => item.1.equality? := by
  induction numbered with
  | nil => rfl
  | cons item rest ih =>
    have later := ih (fun other member => tags other (List.mem_cons_of_mem _ member))
      fun other member => kept other (List.mem_cons_of_mem _ member)
    have own := kept item List.mem_cons_self
    have isTagged := tags item List.mem_cons_self
    cases tag : item.1.cone with
    | none =>
      have stays : item.2 ∉ indices := by simp [isTagged, tag]
      simpa [TaggedRow.equality?, tag, stays, own] using later
    | some kind =>
      have moves : item.2 ∈ indices := by simp [isTagged, tag]
      simpa [TaggedRow.equality?, tag, moves] using later

section Tagged

variable {objective : List Binary64} {sense : Sense} {rows : List TaggedRow}
  (within : ∀ tagged ∈ rows, tagged.row.line.Within objective.length)

include within in
theorem movedRow_ofTagged {numbered : TaggedRow × ℕ} (member : numbered ∈ rows.zipIdx)
    (factor : Binary64) :
    (ofTagged objective sense rows).movedRow (VariableOrder.place (List.range objective.length))
      factor (numbered.2 : ℤ) = numbered.1.row.scale factor := by
  obtain ⟨tagged, i⟩ := numbered
  have stored : rows[i]? = some tagged := List.mem_zipIdx_iff_getElem?.1 member
  have inside := within tagged (List.mem_of_getElem? stored)
  simp [movedRow, ofTagged, RowMatrix.row, stored, reposition_range inside]

include within in
theorem isInside_ofTagged : (ofTagged objective sense rows).matrix.isInside := by
  refine List.all_eq_true.2 fun line member => List.all_eq_true.2 fun entry own => ?_
  obtain ⟨tagged, stored, rfl⟩ := List.mem_map.1 member
  exact decide_eq_true (within tagged stored entry own)

/-- What is filtered from a list is filtered from its numbered items. -/
theorem filterMap_zipIdx_fst (f : TaggedRow → Option ConstraintRow) :
    rows.zipIdx.filterMap (fun numbered => f numbered.1) = rows.filterMap f := by
  have items := List.zipIdx_map_fst 0 rows
  conv_rhs => rw [← items]
  rw [List.filterMap_map]
  rfl

include within in
theorem rowsUnder_entries :
    rowsUnder (TaggedRow.entries rows) orthantFactor?
      ((ofTagged objective sense rows).movedRow
        (VariableOrder.place (List.range objective.length))) =
      rows.filterMap TaggedRow.inequality? := by
  rw [← filterMap_zipIdx_fst TaggedRow.inequality?]
  exact rowsUnder_numbered fun numbered member => movedRow_ofTagged within member

include within in
theorem orthantRows_ofTagged :
    (ofTagged objective sense rows).orthantRows
      (VariableOrder.place (List.range objective.length)) =
        rows.filterMap TaggedRow.inequality? := by
  rw [orthantRows]
  exact rowsUnder_entries within

variable (halfLines : ∀ tagged ∈ rows, ∀ kind, tagged.cone = some kind →
  kind = .nonneg ∨ kind = .nonpos)
include halfLines

theorem halfLine_of_mem_entries {entry : ConeEntry} (member : entry ∈ TaggedRow.entries rows) :
    entry.1 = .nonneg ∨ entry.1 = .nonpos := by
  obtain ⟨i, tagged, kind, stored, tag, rfl⟩ := TaggedRow.mem_entries_iff.1 member
  exact halfLines tagged (List.mem_of_getElem? stored) kind tag

theorem secondOrderRows_ofTagged (place : ℤ → ℤ) :
    (ofTagged objective sense rows).secondOrderRows place = [] := by
  apply List.eq_nil_iff_forall_not_mem.2
  intro made member
  rcases List.mem_append.1 member with member | member
  all_goals obtain ⟨entry, stored, factor, chosen, _⟩ := mem_rowsUnder.1 member
  · rw [List.mem_singleton.1 stored] at chosen
    simp [onlyFor] at chosen
  · rcases halfLine_of_mem_entries halfLines stored with kind | kind
    all_goals simp [onlyFor, kind] at chosen

theorem sizes_ofTagged : (ofTagged objective sense rows).sizes = [] := by
  rw [sizes, List.map_eq_nil_iff, List.filter_eq_nil_iff]
  intro entry member
  rcases List.mem_append.1 member with member | member
  · rw [List.mem_singleton.1 member]
    simp
  · rcases halfLine_of_mem_entries halfLines member with kind | kind
    all_goals simp [kind]

/-- The rows that move are those with a tag. -/
theorem mem_movedIndices_iff {numbered : TaggedRow × ℕ} (member : numbered ∈ rows.zipIdx) :
    numbered.2 ∈ (ofTagged objective sense rows).movedIndices ↔
      numbered.1.cone.isSome := by
  obtain ⟨tagged, i⟩ := numbered
  have stored : rows[i]? = some tagged := List.mem_zipIdx_iff_getElem?.1 member
  simp only [movedIndices, VariableOrder.segment, List.mem_flatMap, List.mem_filter]
  constructor
  · rintro ⟨entry, ⟨listed, _⟩, own⟩
    obtain ⟨j, other, kind, found, tag, rfl⟩ := TaggedRow.mem_entries_iff.1 listed
    obtain rfl : i = j := by simpa using own
    obtain rfl : tagged = other := by rwa [stored, Option.some.injEq] at found
    simp [tag]
  · intro isTagged
    obtain ⟨kind, tag⟩ := Option.isSome_iff_exists.1 isTagged
    refine ⟨(kind, [(i : ℤ)]), ⟨?_, ?_⟩, by simp⟩
    · exact TaggedRow.mem_entries_iff.2 ⟨i, tagged, kind, stored, tag, rfl⟩
    · rcases halfLines tagged (List.mem_of_getElem? stored) kind tag with rfl | rfl
      all_goals rfl

include within in
theorem equalityRows_ofTagged :
    (ofTagged objective sense rows).equalityRows
      (VariableOrder.place (List.range objective.length)) =
        rows.filterMap TaggedRow.equality? := by
  have numbers : List.range (ofTagged objective sense rows).bounds.length =
      rows.zipIdx.map Prod.snd := by
    rw [List.zipIdx_map_snd, List.range_eq_range']
    simp [ofTagged]
  have pinned : rowsUnder (ofTagged objective sense rows).variableCones (onlyFor .zero .one)
      (unitRow (VariableOrder.place (List.range objective.length))) = [] := by
    simp [rowsUnder, ofTagged, onlyFor]
  rw [equalityRows, pinned, List.append_nil, keptIndices, numbers,
    ← filterMap_zipIdx_fst TaggedRow.equality?]
  exact map_kept_numbered (fun numbered member => mem_movedIndices_iff halfLines member)
    fun numbered member => movedRow_ofTagged within member .one

include within in
/-- The form of tagged rows has them in their order. -/
theorem standardForm_ofTagged : (ofTagged objective sense rows).standardForm =
    StandardForm.ofRows (rows.filterMap TaggedRow.inequality?).length []
      (rows.filterMap TaggedRow.inequality?) (rows.filterMap TaggedRow.equality?)
      (sense.toMinimize objective) sense (VariableOrder.identity objective.length) := by
  have assigned : VariableOrder.assign .rows (ofTagged objective sense rows).bounds.length []
      (VariableOrder.listed (ofTagged objective sense rows).rowCones) =
        .ok ((VariableOrder.listed (TaggedRow.entries rows)).map Int.toNat) := by
    rw [VariableOrder.assign_eq_ok_iff List.nodup_nil]
    refine ⟨fun index member => ?_, TaggedRow.nodup_listed rows, rfl⟩
    simpa [ofTagged] using TaggedRow.inside_of_mem_listed member
  have same : (ofTagged objective sense rows).movedObjective (List.range objective.length) =
      objective := movedObjective_range _
  have arranged : VariableOrder.arrange (ofTagged objective sense rows).variableCones
      (ofTagged objective sense rows).objective.length = .ok (List.range objective.length) :=
    arrange_free objective.length
  have orthant : (ofTagged objective sense rows).orthantRows
      (VariableOrder.place (List.range objective.length)) =
        rows.filterMap TaggedRow.inequality? := orthantRows_ofTagged within
  have equal : (ofTagged objective sense rows).equalityRows
      (VariableOrder.place (List.range objective.length)) =
        rows.filterMap TaggedRow.equality? := equalityRows_ofTagged within halfLines
  rw [standardForm_of_arranged assigned arranged (isInside_ofTagged within), orthant, equal,
    secondOrderRows_ofTagged halfLines, sizes_ofTagged halfLines, List.append_nil, same,
    VariableOrder.identity_eq_ofReverse]
  rfl

end Tagged

/-- A row that is written out, with its right-hand side. -/
structure DenseRow where
  cone : Option Cone
  numbers : List Binary64
  bound : Binary64

def DenseRow.tagged (row : DenseRow) : TaggedRow :=
  ⟨row.cone, ⟨Line.ofDense row.numbers, row.bound⟩⟩

/-- The problem of rows that are written out, over free variables. -/
def Input.ofDenseRows (objective sense : Datum) (cols : ℕ) (rows : List DenseRow) : Input where
  objective := objective
  matrix := Datum.ofMatrix cols (rows.map DenseRow.numbers)
  bounds := Datum.ofVector (rows.map DenseRow.bound)
  rowCones := ConeList.toDatum (TaggedRow.entries (rows.map DenseRow.tagged))
  variableCones := ConeList.toDatum [(.free, (List.range cols).map fun j : ℕ => (j : ℤ))]
  sense := sense

section Dense

variable {objective sense : Datum} {values : List Binary64} {way : Sense} {rows : List DenseRow}
  (readSense : Sense.ofDatum sense = .ok way) (readObjective : objective.toEntries = .ok values)
  (someColumn : 0 < values.length)
  (widths : ∀ row ∈ rows, row.numbers.length = values.length)
  (halfLines : ∀ row ∈ rows, ∀ kind, row.cone = some kind → kind = .nonneg ∨ kind = .nonpos)

include halfLines in
theorem accepted_dense (indices : List ℤ) :
    ConeList.Accepted (TaggedRow.entries (rows.map DenseRow.tagged)) [(.free, indices)] := by
  have halfLine {entry : ConeEntry}
      (member : entry ∈ TaggedRow.entries (rows.map DenseRow.tagged)) :
      entry.1 = .nonneg ∨ entry.1 = .nonpos := by
    refine halfLine_of_mem_entries ?_ member
    rw [List.forall_mem_map]
    exact halfLines
  constructor
  · intro entry member
    rcases List.mem_append.1 member with member | member
    · rcases halfLine member with kind | kind
      all_goals rw [kind]; rfl
    · rw [List.mem_singleton.1 member]
      rfl
  · intro entry member
    rcases halfLine member with kind | kind
    all_goals simp [kind]
  · intro entry member
    rcases List.mem_append.1 member with member | member
    · rcases halfLine member with kind | kind
      all_goals simp [kind]
    · rw [List.mem_singleton.1 member]
      simp

include readSense readObjective someColumn widths halfLines

theorem read_ofDenseRows [Machine] : read (Input.ofDenseRows objective sense values.length rows) =
    .ok (ofTagged values way (rows.map DenseRow.tagged)) := by
  have cones := ConeList.readBoth_toDatum (accepted_dense halfLines
    ((List.range values.length).map fun j : ℕ => (j : ℤ)))
  have bounds := Datum.toEntries_ofVector (rows.map DenseRow.bound)
  have matrix := Datum.toRows_ofMatrix someColumn (List.forall_mem_map.2 widths)
  simp only [List.length_map] at matrix
  simp only [read, Input.ofDenseRows, readSense, cones, readObjective, bounds, matrix, bind,
    Except.bind, pure, Except.pure, List.length_map]
  simp [ofTagged, DenseRow.tagged, Function.comp_def]

/-- The form of rows that are written out has them in their order. -/
theorem load_ofDenseRows [Machine] : load (Input.ofDenseRows objective sense values.length rows) =
    StandardForm.ofRows ((rows.map DenseRow.tagged).filterMap TaggedRow.inequality?).length []
      ((rows.map DenseRow.tagged).filterMap TaggedRow.inequality?)
      ((rows.map DenseRow.tagged).filterMap TaggedRow.equality?)
      (way.toMinimize values) way (VariableOrder.identity values.length) := by
  rw [load, read_ofDenseRows readSense readObjective someColumn widths halfLines, Except.bind]
  refine standardForm_ofTagged ?_ ?_
  · rw [List.forall_mem_map]
    intro row member
    rw [← widths row member]
    exact Line.within_ofDense row.numbers
  · rw [List.forall_mem_map]
    exact halfLines

end Dense

end ConicProblem
end ConicForm
