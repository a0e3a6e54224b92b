import ConicForm.Proofs.WrittenCones

/-! Which values are taken for indices. Integers are, in whatever way they are given as numbers, and
so are texts of such numbers; what is anything else is refused by name. Lists of cones that have a
standard form are read for their integers only, unless a text is among the indices of lists that are
accepted. -/
namespace ConicForm

open Outcome (Refused)

namespace Outcome

variable {ε : Type u} {α β γ δ : Type v}

/-- A list fails like its first item that fails. -/
theorem mapM_eq_error_of_first {f : α → Except ε β} {before after : List α} {item : α} {cause : ε}
    (read : ∀ other ∈ before, ∃ value, f other = .ok value) (failed : f item = .error cause) :
    (before ++ item :: after).mapM f = .error cause := by
  induction before with
  | nil =>
    rw [List.nil_append, List.mapM_cons, failed]
    rfl
  | cons other before ih =>
    obtain ⟨value, own⟩ := read other List.mem_cons_self
    rw [List.cons_append, List.mapM_cons, own,
      ih fun another member => read another (List.mem_cons_of_mem other member)]
    rfl

/-- Reading the parts of items fails like reading all parts one after the other. -/
theorem mapM_parts_eq_error {f : α → Except ε β} {parts : γ → List α} {whole : γ → List β → δ}
    {items : List γ} {cause : ε} (failed : (items.flatMap parts).mapM f = .error cause) :
    (items.mapM fun item => ((parts item).mapM f).map (whole item)) = .error cause := by
  induction items with
  | nil => cases failed
  | cons item items ih =>
    rw [List.flatMap_cons, List.mapM_append] at failed
    rw [List.mapM_cons]
    cases own : (parts item).mapM f with
    | error other =>
      rw [own] at failed
      obtain rfl := Except.error.inj failed
      rfl
    | ok values =>
      rw [own] at failed
      cases later : (items.flatMap parts).mapM f with
      | error other =>
        rw [later] at failed
        rw [ih (later.trans failed)]
        rfl
      | ok rest =>
        rw [later] at failed
        cases failed

/-- Every item of a list has a counterpart. -/
theorem exists_of_forall₂ {related : α → β → Prop} {items : List α} {others : List β}
    (alike : List.Forall₂ related items others) : ∀ item ∈ items, ∃ other, related item other := by
  induction alike with
  | nil => simp
  | cons own _ ih => exact List.forall_mem_cons.2 ⟨⟨_, own⟩, ih⟩

end Outcome

theorem Binary64.integer?_eq_some_iff {value : Binary64} {n : ℤ} :
    value.integer? = some n ↔ value.value? = some (n : ℚ) := by
  cases value with
  | nan | infinity => simp [integer?, value?]
  | finite negative magnitude onGrid =>
    have whole (m : ℤ) : magnitude = m ↔ magnitude.den = 1 ∧ magnitude.num = m := by
      constructor
      · rintro rfl
        exact ⟨Rat.den_intCast m, Rat.num_intCast m⟩
      · rintro ⟨integral, rfl⟩
        exact (Rat.den_eq_one_iff magnitude).1 integral |>.symm
    cases negative with
    | false => simp [integer?, value?, whole]
    | true =>
      have opposite : -magnitude = (n : ℚ) ↔ magnitude.den = 1 ∧ -magnitude.num = n := by
        rw [neg_eq_iff_eq_neg, neg_eq_iff_eq_neg, ← Int.cast_neg, whole]
      simp [integer?, value?, opposite]

namespace Datum

/-- A value is an integer as it stands, or a number that equals one. An array without extents is the
number zero. -/
inductive IsInteger : Datum → ℤ → Prop
  | exact {d : Datum} {n : ℤ} (equal : d.exactInteger? = some n) : IsInteger d n
  | real {value : Binary64} {n : ℤ} (equal : value.value? = some (n : ℚ)) :
      IsInteger (.real value) n
  | scalar : IsInteger (.zeros []) 0

/-- A text of a number that equals an integer. -/
inductive WritesInteger : Datum → ℤ → Prop
  | text {name : String} {value : Binary64} {n : ℤ} (reads : Literal.number? name = some value)
      (equal : value.value? = some (n : ℚ)) : WritesInteger (.text name) n

/-- What a value is taken for as an index. -/
def Indexes (d : Datum) (n : ℤ) : Prop := d.IsInteger n ∨ d.WritesInteger n

theorem IsInteger.not_text {name : String} {n : ℤ} : ¬ (text name).IsInteger n := by
  rintro ⟨equal⟩
  cases equal

theorem not_indexes_list {items : List Datum} {n : ℤ} : ¬ (list items).Indexes n := by
  rintro (integer | writes)
  · cases integer with
    | exact equal => cases equal
  · cases writes

theorem toIndex_eq_ok_iff_indexes {d : Datum} {n : ℤ} : d.toIndex = .ok n ↔ d.Indexes n := by
  constructor
  · intro read
    unfold toIndex at read
    split at read
    next m found =>
      obtain rfl := Except.ok.inj read
      cases exact : d.exactInteger? with
      | some k =>
        rw [exact] at found
        exact .inl (.exact (exact.trans found))
      | none =>
        rw [exact] at found
        obtain ⟨value, approximate, integral⟩ := Option.bind_eq_some_iff.1 found
        have equal := Binary64.integer?_eq_some_iff.1 integral
        cases d with
        | real =>
          obtain rfl := Option.some.inj approximate
          exact .inl (.real equal)
        | text => exact .inr (.text approximate equal)
        | zeros shape =>
          cases shape with
          | nil =>
            obtain rfl := Option.some.inj approximate
            have zero : ((0 : ℤ) : ℚ) = m := Option.some.inj equal
            obtain rfl := Int.cast_injective zero
            exact .inl .scalar
          | cons => cases approximate
        | _ => cases approximate
    next => cases read
  · rintro (integer | writes)
    · cases integer with
      | exact equal => simp [toIndex, equal]
      | real equal =>
        simp [toIndex, exactInteger?, approximate?, Binary64.integer?_eq_some_iff.2 equal]
      | scalar => rfl
    · cases writes with
      | text reads equal =>
        simp [toIndex, exactInteger?, approximate?, reads, Binary64.integer?_eq_some_iff.2 equal]

theorem toIndex_eq_error {d : Datum} (unread : ∀ n, ¬ d.Indexes n) : d.toIndex =
    .error (if d.isWritable then .index (.notInteger d) else .data .malformed) := by
  cases read : d.toIndex with
  | ok n => exact absurd (toIndex_eq_ok_iff_indexes.1 read) (unread n)
  | error fault =>
    unfold toIndex at read
    split at read
    · cases read
    · exact read.symm

end Datum

namespace ConeList

open Datum (Indexes IsInteger WritesInteger)

/-- An entry of the kind that is designated, with what each index is taken for. -/
def WrittenEntry.TakenAs (takes : Datum → ℤ → Prop) (entry : WrittenEntry) (taken : ConeEntry) :
    Prop :=
  entry.kind? = some taken.1 ∧ List.Forall₂ takes entry.indices taken.2

/-- The entries of both lists in their order, none of which is an empty second-order cone. -/
structure TakenAs (takes : Datum → ℤ → Prop) (rows columns : List WrittenEntry)
    (taken : List ConeEntry × List ConeEntry) : Prop where
  fromRows : List.Forall₂ (WrittenEntry.TakenAs takes) rows taken.1
  fromColumns : List.Forall₂ (WrittenEntry.TakenAs takes) columns taken.2
  nonempty : ∀ entry ∈ rows ++ columns, entry.kind? = some .secondOrder → entry.indices ≠ []

section TakenAs

variable {takes also : Datum → ℤ → Prop}

theorem WrittenEntry.TakenAs.imp {entry : WrittenEntry} {taken : ConeEntry}
    (own : entry.TakenAs takes taken)
    (weaken : ∀ index ∈ entry.indices, ∀ n, takes index n → also index n) :
    entry.TakenAs also taken :=
  ⟨own.1, ((List.forall₂_and_left _ _).2 ⟨weaken, own.2⟩).imp fun _ n both => both.1 n both.2⟩

variable {rows columns : List WrittenEntry} {taken : List ConeEntry × List ConeEntry}
  (own : TakenAs takes rows columns taken)
include own

theorem TakenAs.imp (weaken : ∀ entry ∈ rows ++ columns, ∀ index ∈ entry.indices, ∀ n,
    takes index n → also index n) : TakenAs also rows columns taken := by
  obtain ⟨inRows, inColumns⟩ := List.forall_mem_append.1 weaken
  refine ⟨?_, ?_, own.nonempty⟩
  · exact ((List.forall₂_and_left _ _).2 ⟨inRows, own.fromRows⟩).imp fun _ _ both =>
      both.2.imp both.1
  · exact ((List.forall₂_and_left _ _).2 ⟨inColumns, own.fromColumns⟩).imp fun _ _ both =>
      both.2.imp both.1

theorem TakenAs.exists_of_mem {entry : WrittenEntry} (member : entry ∈ rows ++ columns)
    {index : Datum} (stored : index ∈ entry.indices) : ∃ n, takes index n := by
  have each : ∀ entry ∈ rows ++ columns, ∃ read, entry.TakenAs takes read :=
    List.forall_mem_append.2
      ⟨Outcome.exists_of_forall₂ own.fromRows, Outcome.exists_of_forall₂ own.fromColumns⟩
  obtain ⟨read, _, indices⟩ := each entry member
  exact Outcome.exists_of_forall₂ indices index stored

end TakenAs

/-- Cones that have a standard form, free ones for variables only. -/
structure Admitted (rows columns : List WrittenEntry) : Prop where
  supported : ∀ entry ∈ rows ++ columns, entry.Supported
  constrained : ∀ entry ∈ rows, entry.kind? ≠ some .free

/-- Integers are read as indices and nothing else is. -/
structure ReadsIntegers [Machine] (rows columns : List WrittenEntry) : Prop where
  accepts : ∀ taken, readBoth (ofWritten rows) (ofWritten columns) = .ok taken ↔
    TakenAs IsInteger rows columns taken
  refuses : (∃ entry ∈ rows ++ columns, ∃ index ∈ entry.indices, ∀ n, ¬ index.IsInteger n) →
    Refused .index (readBoth (ofWritten rows) (ofWritten columns))

/-- An index can be taken for no integer, and none before it has to be reported. -/
structure FirstUnread (indices before : List Datum) (index : Datum) (after : List Datum) :
    Prop where
  split : indices = before ++ index :: after
  readable : ∀ other ∈ before, ∃ n, other.Indexes n
  unreadable : ∀ n, ¬ index.Indexes n

theorem FirstUnread.mem {indices before after : List Datum} {index : Datum}
    (unread : FirstUnread indices before index after) : index ∈ indices := by
  simp [unread.split]

/-- Either all indices can be taken for integers, or one of them is the first that cannot. -/
theorem readable_or_firstUnread (indices : List Datum) :
    (∀ index ∈ indices, ∃ n, index.Indexes n) ∨
      ∃ before index after, FirstUnread indices before index after := by
  induction indices with
  | nil => exact .inl nofun
  | cons first indices ih =>
    by_cases own : ∃ n, first.Indexes n
    · obtain all | ⟨before, index, after, unread⟩ := ih
      · exact .inl (List.forall_mem_cons.2 ⟨own, all⟩)
      · exact .inr ⟨first :: before, index, after, congrArg _ unread.split,
          List.forall_mem_cons.2 ⟨own, unread.readable⟩, unread.unreadable⟩
    · exact .inr ⟨[], first, indices, rfl, nofun, not_exists.1 own⟩

/-- What is read of the indices: the lists are accepted if every index can be taken for an integer
and no second-order cone is empty. The first index that cannot is reported before any empty cone,
unless it has too many digits to be written. -/
structure ReadsIndices [Machine] (rows columns : List WrittenEntry) : Prop where
  accepts : ∀ taken, readBoth (ofWritten rows) (ofWritten columns) = .ok taken ↔
    TakenAs Indexes rows columns taken
  reports : ∀ before index after,
    FirstUnread ((rows ++ columns).flatMap WrittenEntry.indices) before index after →
      readBoth (ofWritten rows) (ofWritten columns) =
        .error (if index.isWritable then .index (.notInteger index) else .data .malformed)
  empties : (∀ index ∈ (rows ++ columns).flatMap WrittenEntry.indices, ∃ n, index.Indexes n) →
    (∃ entry ∈ rows ++ columns, entry.kind? = some .secondOrder ∧ entry.indices = []) →
      readBoth (ofWritten rows) (ofWritten columns) = .error (.index .emptySecondOrder)

/-- Nothing among the indices is read amiss: no text is accepted as one, and what has to be reported
can be written. -/
structure Straight [Machine] (rows columns : List WrittenEntry) : Prop where
  texts : (∃ taken, readBoth (ofWritten rows) (ofWritten columns) = .ok taken) →
    ∀ entry ∈ rows ++ columns, ∀ index ∈ entry.indices, ∀ n, ¬ index.WritesInteger n
  written : ∀ before index after,
    FirstUnread ((rows ++ columns).flatMap WrittenEntry.indices) before index after →
      index.isWritable

theorem readIndices_kinded [Machine] (entry : WrittenEntry) : readIndices entry.kinded =
    (entry.indices.mapM Datum.toIndex).map fun indices => (entry.kind?.getD .free, indices) := rfl

theorem readIndices_kinded_eq_ok [Machine] {entry : WrittenEntry} (supported : entry.Supported)
    {taken : ConeEntry} : readIndices entry.kinded = .ok taken ↔ entry.TakenAs Indexes taken := by
  obtain ⟨kind, known⟩ := Option.isSome_iff_exists.1 (supported_iff.1 supported).1
  obtain ⟨own, indices⟩ := taken
  have each : List.Forall₂ (fun index n => Datum.toIndex index = .ok n) entry.indices indices ↔
      List.Forall₂ Indexes entry.indices indices := by
    simp only [Datum.toIndex_eq_ok_iff_indexes]
  simp only [readIndices_kinded, Outcome.map_eq_ok_iff, Outcome.mapM_eq_ok_iff,
    WrittenEntry.TakenAs, known, Option.getD_some, Prod.mk.injEq, Option.some.injEq, ← each]
  constructor
  · rintro ⟨values, read, rfl, rfl⟩
    exact ⟨rfl, read⟩
  · rintro ⟨rfl, read⟩
    exact ⟨indices, read, rfl, rfl⟩

theorem mapM_readIndices_eq_ok [Machine] {entries : List WrittenEntry}
    (supported : ∀ entry ∈ entries, entry.Supported) {taken : List ConeEntry} :
    (entries.map WrittenEntry.kinded).mapM readIndices = .ok taken ↔
      List.Forall₂ (WrittenEntry.TakenAs Indexes) entries taken := by
  rw [Outcome.mapM_eq_ok_iff, List.forall₂_map_left_iff]
  induction entries generalizing taken with
  | nil => simp
  | cons entry entries ih =>
    obtain ⟨own, later⟩ := List.forall_mem_cons.1 supported
    simp only [List.forall₂_cons_left_iff, readIndices_kinded_eq_ok own, ih later]

/-- Of entries that are taken, those are empty that were given empty. -/
theorem nonempty_iff_of_taken {takes : Datum → ℤ → Prop} {entries : List WrittenEntry}
    {taken : List ConeEntry} (own : List.Forall₂ (WrittenEntry.TakenAs takes) entries taken) :
    (∀ entry ∈ taken, entry.1 = .secondOrder → entry.2 ≠ []) ↔
      ∀ entry ∈ entries, entry.kind? = some .secondOrder → entry.indices ≠ [] := by
  induction own with
  | nil => simp
  | @cons entry result _ _ first _ ih =>
    have empty : result.2 = [] ↔ entry.indices = [] := by
      rw [← List.length_eq_zero_iff, ← first.2.length_eq, List.length_eq_zero_iff]
    rw [List.forall_mem_cons, List.forall_mem_cons, ih, first.1, Option.some.injEq, Ne, empty]

theorem checkNonempty_eq_or (entries : List ConeEntry) : checkNonempty entries = .ok () ∨
    checkNonempty entries = .error (.index .emptySecondOrder) := by
  unfold checkNonempty
  split
  · exact .inr rfl
  · exact .inl rfl

theorem checkNonempty_taken_iff {takes : Datum → ℤ → Prop} {rows columns : List WrittenEntry}
    {first second : List ConeEntry}
    (fromRows : List.Forall₂ (WrittenEntry.TakenAs takes) rows first)
    (fromColumns : List.Forall₂ (WrittenEntry.TakenAs takes) columns second) :
    checkNonempty (first ++ second) = .ok () ↔
      ∀ entry ∈ rows ++ columns, entry.kind? = some .secondOrder → entry.indices ≠ [] := by
  rw [checkNonempty_eq_ok_iff, List.forall_mem_append, nonempty_iff_of_taken fromRows,
    nonempty_iff_of_taken fromColumns, ← List.forall_mem_append]

theorem exists_taken {entries : List WrittenEntry} (supported : ∀ entry ∈ entries, entry.Supported)
    (readable : ∀ index ∈ entries.flatMap WrittenEntry.indices, ∃ n, index.Indexes n) :
    ∃ taken, List.Forall₂ (WrittenEntry.TakenAs Indexes) entries taken := by
  choose! integer indexes using readable
  refine ⟨entries.map fun entry => (entry.kind?.getD .free, entry.indices.map integer), ?_⟩
  rw [List.forall₂_map_right_iff, List.forall₂_same]
  intro entry member
  obtain ⟨kind, known⟩ := Option.isSome_iff_exists.1 (supported_iff.1 (supported entry member)).1
  refine ⟨by simp [known], ?_⟩
  rw [List.forall₂_map_right_iff, List.forall₂_same]
  exact fun index own => indexes index (List.mem_flatMap.2 ⟨entry, member, own⟩)

section Admitted

variable {rows columns : List WrittenEntry} (admitted : Admitted rows columns)
include admitted

theorem Admitted.readBoth_eq [Machine] : readBoth (ofWritten rows) (ofWritten columns) =
    readEntries (rows.map WrittenEntry.kinded) (columns.map WrittenEntry.kinded) := by
  have constrained := (checkConstrained_kinded_iff fun entry member =>
    admitted.supported entry (List.mem_append_left columns member)).2 admitted.constrained
  rw [ConeList.readBoth_eq, readSupported_eq_ok_iff.2 ⟨admitted.supported, rfl⟩]
  show (checkConstrained _ >>= _) = _
  rw [constrained]
  rfl

theorem Admitted.readBoth_eq_ok [Machine] {taken : List ConeEntry × List ConeEntry} :
    readBoth (ofWritten rows) (ofWritten columns) = .ok taken ↔
      TakenAs Indexes rows columns taken := by
  obtain ⟨ofRows, ofColumns⟩ := List.forall_mem_append.1 admitted.supported
  simp only [admitted.readBoth_eq, readEntries, Outcome.andThen_eq_ok_iff,
    mapM_readIndices_eq_ok ofRows, mapM_readIndices_eq_ok ofColumns, pure, Except.pure,
    Except.ok.injEq]
  constructor
  · rintro ⟨first, fromRows, second, fromColumns, ⟨⟩, checked, rfl⟩
    exact ⟨fromRows, fromColumns, (checkNonempty_taken_iff fromRows fromColumns).1 checked⟩
  · rintro ⟨fromRows, fromColumns, nonempty⟩
    exact ⟨taken.1, fromRows, taken.2, fromColumns, (),
      (checkNonempty_taken_iff fromRows fromColumns).2 nonempty, rfl⟩

/-- The indices of all entries are read one after the other. -/
theorem Admitted.readBoth_eq_error [Machine] {fault : Fault}
    (failed : ((rows ++ columns).flatMap WrittenEntry.indices).mapM Datum.toIndex = .error fault) :
    readBoth (ofWritten rows) (ofWritten columns) = .error fault := by
  have read : ((rows ++ columns).map WrittenEntry.kinded).mapM readIndices = .error fault := by
    rw [List.mapM_map]
    exact Outcome.mapM_parts_eq_error failed
  rw [List.map_append] at read
  rw [admitted.readBoth_eq, readEntries]
  exact Outcome.mapM_andThen_eq_error read _

theorem Admitted.readsIndices [Machine] : ReadsIndices rows columns where
  accepts := fun taken => admitted.readBoth_eq_ok
  reports := by
    intro before index after unread
    apply admitted.readBoth_eq_error
    rw [unread.split]
    refine Outcome.mapM_eq_error_of_first (fun other member => ?_)
      (Datum.toIndex_eq_error unread.unreadable)
    obtain ⟨n, indexes⟩ := unread.readable other member
    exact ⟨n, Datum.toIndex_eq_ok_iff_indexes.2 indexes⟩
  empties := by
    rintro readable ⟨entry, member, kind, empty⟩
    obtain ⟨ofRows, ofColumns⟩ := List.forall_mem_append.1 admitted.supported
    rw [List.flatMap_append] at readable
    obtain ⟨readRows, readColumns⟩ := List.forall_mem_append.1 readable
    obtain ⟨first, fromRows⟩ := exists_taken ofRows readRows
    obtain ⟨second, fromColumns⟩ := exists_taken ofColumns readColumns
    have refused : checkNonempty (first ++ second) = .error (.index .emptySecondOrder) := by
      refine (checkNonempty_eq_or _).resolve_left fun checked => ?_
      exact (checkNonempty_taken_iff fromRows fromColumns).1 checked entry member kind empty
    rw [admitted.readBoth_eq, readEntries, (mapM_readIndices_eq_ok ofRows).2 fromRows,
      (mapM_readIndices_eq_ok ofColumns).2 fromColumns]
    show (checkNonempty (first ++ second) >>= _) = _
    rw [refused]
    rfl

/-- What is not accepted is refused, by the first index that is none or for an empty cone. -/
theorem Admitted.refused [Machine] (straight : Straight rows columns) (fails : ∀ taken,
    readBoth (ofWritten rows) (ofWritten columns) ≠ .ok taken) :
    Refused .index (readBoth (ofWritten rows) (ofWritten columns)) := by
  obtain readable | ⟨before, index, after, unread⟩ :=
    readable_or_firstUnread ((rows ++ columns).flatMap WrittenEntry.indices)
  · rw [List.flatMap_append] at readable
    obtain ⟨readRows, readColumns⟩ := List.forall_mem_append.1 readable
    obtain ⟨ofRows, ofColumns⟩ := List.forall_mem_append.1 admitted.supported
    obtain ⟨first, fromRows⟩ := exists_taken ofRows readRows
    obtain ⟨second, fromColumns⟩ := exists_taken ofColumns readColumns
    have empty : ∃ entry ∈ rows ++ columns,
        entry.kind? = some .secondOrder ∧ entry.indices = [] := by
      by_contra none
      refine fails (first, second) (admitted.readBoth_eq_ok.2 ⟨fromRows, fromColumns, ?_⟩)
      exact fun entry member kind same => none ⟨entry, member, kind, same⟩
    rw [← List.flatMap_append] at readable
    exact ⟨_, admitted.readsIndices.empties readable empty, rfl⟩
  · have reported := admitted.readsIndices.reports before index after unread
    rw [if_pos (straight.written before index after unread)] at reported
    exact ⟨_, reported, rfl⟩

/-- Only a text among indices that are accepted is read amiss, and only digits go unreported. -/
theorem Admitted.readsIntegers_iff [Machine] :
    ReadsIntegers rows columns ↔ Straight rows columns := by
  constructor
  · intro right
    refine ⟨?_, fun before index after unread => ?_⟩
    · rintro ⟨taken, accepted⟩ entry member index own n ⟨_, _⟩
      obtain ⟨_, failed, _⟩ :=
        right.refuses ⟨entry, member, _, own, fun _ => Datum.IsInteger.not_text⟩
      rw [accepted] at failed
      cases failed
    · obtain ⟨entry, member, own⟩ := List.mem_flatMap.1 unread.mem
      obtain ⟨_, failed, same⟩ := right.refuses
        ⟨entry, member, index, own, fun n integer => unread.unreadable n (.inl integer)⟩
      have reported := admitted.readsIndices.reports before index after unread
      by_contra overlong
      rw [failed, if_neg overlong] at reported
      rw [Except.error.inj reported] at same
      cases same
  · intro straight
    have accepts (taken : List ConeEntry × List ConeEntry) :
        readBoth (ofWritten rows) (ofWritten columns) = .ok taken ↔
          TakenAs IsInteger rows columns taken := by
      rw [admitted.readBoth_eq_ok]
      constructor
      · intro own
        have none := straight.texts ⟨taken, admitted.readBoth_eq_ok.2 own⟩
        exact own.imp fun entry member index stored n indexes =>
          indexes.resolve_right (none entry member index stored n)
      · exact fun own => own.imp fun _ _ _ _ _ integer => .inl integer
    refine ⟨accepts, ?_⟩
    rintro ⟨entry, member, index, stored, none⟩
    refine admitted.refused straight fun taken accepted => ?_
    obtain ⟨n, integer⟩ := ((accepts taken).1 accepted).exists_of_mem member stored
    exact none n integer

end Admitted

/-- Indices of cones with a standard form are read as the integers that they are or that their texts
write, and the first that is none is reported if it can be written. Integers are read and nothing
else is, exactly if no text is among the indices of lists that are accepted and no such report
fails. -/
theorem indices_read [Machine] {rows columns : List WrittenEntry}
    (admitted : Admitted rows columns) :
    ReadsIndices rows columns ∧ (ReadsIntegers rows columns ↔ Straight rows columns) :=
  ⟨admitted.readsIndices, admitted.readsIntegers_iff⟩

/-- A half line in each of the rows one and two. -/
def truthRow : WrittenEntry := ⟨.text "NonNeg", [.truth true, .real (.ofRat 2)]⟩

def loneColumn : WrittenEntry := ⟨.integer 3, [.integer 0]⟩

/-- A free variable whose number stands in a list and has too many digits. -/
def overlongColumn : WrittenEntry := ⟨.cone .free, [.list [.integer (10 ^ 4300)]]⟩

/-- A truth value and a real number are read as indices, and a list is not. -/
theorem indices_read_truth : ReadsIntegers [truthRow] [loneColumn] ∧
    readBoth (ofWritten [truthRow]) (ofWritten [loneColumn]) =
      .ok ([(.nonneg, [1, 2])], [(.secondOrder, [0])]) ∧
    readBoth (ofWritten []) (ofWritten [overlongColumn]) = .error (.data .malformed) := by
  have admitted : Admitted [truthRow] [loneColumn] := by
    refine ⟨?_, ?_⟩
    · simp only [List.singleton_append, List.forall_mem_cons]
      exact ⟨rfl, rfl, by simp⟩
    · exact List.forall_mem_singleton.2 fun free => by cases free
  obtain ⟨reads, integers⟩ := indices_read admitted
  refine ⟨integers.2 ⟨fun _ entry member index stored n writes => ?_,
    fun before index after unread => ?_⟩, (reads.accepts _).2 ?_, ?_⟩
  · obtain ⟨_, _⟩ := writes
    simp [truthRow, loneColumn] at member
    rcases member with rfl | rfl <;> simp at stored
  · have short : ∀ index ∈ ([truthRow] ++ [loneColumn]).flatMap WrittenEntry.indices,
        index.isWritable := List.all_eq_true.1 (by decide +kernel)
    exact short index unread.mem
  · have two : (Binary64.ofRat 2).value? = some ((2 : ℤ) : ℚ) := by decide +kernel
    refine ⟨.cons ⟨rfl, .cons (.inl (.exact rfl)) (.cons (.inl (.real two)) .nil)⟩ .nil,
      .cons ⟨rfl, .cons (.inl (.exact rfl)) .nil⟩ .nil, ?_⟩
    simp only [List.singleton_append, List.forall_mem_cons]
    exact ⟨fun _ => by simp [truthRow], fun _ => by simp [loneColumn], by simp⟩
  · have overlong : Admitted [] [overlongColumn] :=
      ⟨List.forall_mem_singleton.2 rfl, by simp⟩
    have reported := (indices_read overlong).1.reports [] (.list [.integer (10 ^ 4300)]) []
      ⟨rfl, nofun, fun _ => Datum.not_indexes_list⟩
    rwa [if_neg (by decide +kernel)] at reported

/-- A free variable whose number is given as a text. -/
def textColumn : WrittenEntry := ⟨.cone .free, [.text "2"]⟩

/-- The text is read as its number. -/
theorem exists_text_read : Admitted [] [textColumn] ∧
    readBoth (ofWritten []) (ofWritten [textColumn]) = .ok ([], [(.free, [2])]) ∧
      ¬ ReadsIntegers [] [textColumn] := by
  have admitted : Admitted [] [textColumn] := by
    refine ⟨?_, by simp⟩
    rw [List.nil_append]
    exact List.forall_mem_singleton.2 rfl
  have reads : Literal.number? "2" = some (.ofRat 2) := by decide +kernel
  have writes : (Datum.text "2").WritesInteger 2 := .text reads (by decide +kernel)
  have accepted : readBoth (ofWritten []) (ofWritten [textColumn]) = .ok ([], [(.free, [2])]) := by
    refine admitted.readBoth_eq_ok.2
      ⟨.nil, .cons ⟨rfl, .cons (.inr writes) .nil⟩ .nil, ?_⟩
    rw [List.nil_append]
    exact List.forall_mem_singleton.2 fun other => by cases other
  refine ⟨admitted, accepted, fun right => ?_⟩
  obtain ⟨_, failed, _⟩ := right.refuses ⟨textColumn, List.mem_cons_self, .text "2",
    List.mem_cons_self, fun _ => Datum.IsInteger.not_text⟩
  rw [accepted] at failed
  cases failed

end ConeList
end ConicForm
