import ConicForm.ConicProblem
import ConicForm.Proofs.Outcome

/-! Which values designate a kind of cone, and which of the others are refused by name. A real
number is cut to an integer before it is read: an infinite one cannot be cut, and a fraction that is
cut to the number of a kind is read as that kind. A refusal by name has to write the value. -/
namespace ConicForm

namespace Cone

/-- A text names a kind once blanks around it, leading colons, underscores and the case of its
letters are left out. -/
def Names (text : String) (kind : Cone) : Prop :=
  (String.ofList ((Text.name text).filter (· != '_')), kind) ∈ names

theorem ofName?_eq_some_iff {text : String} {kind : Cone} :
    ofName? text = some kind ↔ Names text kind := by
  have all : ∀ entry ∈ names, names.lookup entry.1 = some entry.2 := by decide
  constructor
  · intro found
    obtain ⟨before, after, split, _⟩ := List.lookup_eq_some_iff.1 found
    rw [Names, split]
    exact List.mem_append_right before List.mem_cons_self
  · exact all _

theorem ofNumber?_eq_some_iff {n : ℤ} {kind : Cone} :
    ofNumber? n = some kind ↔ n = kind.number := by
  constructor
  · intro found
    have own : ((kind.number : ℤ) == n) = true :=
      List.find?_some (p := fun kind : Cone => (kind.number : ℤ) == n) found
    exact (eq_of_beq own).symm
  · rintro rfl
    exact ofNumber?_number kind

theorem exists_number_iff {n : ℤ} : (∃ kind : Cone, n = kind.number) ↔ 0 ≤ n ∧ n < 9 := by
  constructor
  · rintro ⟨kind, rfl⟩
    cases kind <;> decide
  · rintro ⟨low, high⟩
    have listed : ∀ m : ℕ, m < 9 → ∃ kind : Cone, m = kind.number := by
      intro m below
      interval_cases m
      exacts [⟨zero, rfl⟩, ⟨nonneg, rfl⟩, ⟨nonpos, rfl⟩, ⟨secondOrder, rfl⟩, ⟨semidefinite, rfl⟩,
        ⟨expPrimal, rfl⟩, ⟨expDual, rfl⟩, ⟨free, rfl⟩, ⟨rotatedSecondOrder, rfl⟩]
    obtain ⟨kind, same⟩ := listed n.toNat (by omega)
    exact ⟨kind, by omega⟩

end Cone

namespace Binary64

/-- A finite number is cut towards zero. -/
theorem truncate?_eq {value : Binary64} {q : ℚ} (reads : value.value? = some q) :
    value.truncate? = some (if 0 ≤ q then ⌊q⌋ else ⌈q⌉) := by
  cases value with
  | nan | infinity => cases reads
  | finite negative magnitude onGrid =>
    obtain rfl := Option.some.inj reads
    have nonneg : 0 ≤ magnitude := onGrid.1
    cases negative with
    | false => exact congrArg some (if_pos nonneg).symm
    | true =>
      simp only [truncate?, if_true, Left.nonneg_neg_iff, Int.ceil_neg]
      split
      next nonpos =>
        obtain rfl := le_antisymm nonpos nonneg
        rfl
      next => rfl

/-- Cut towards zero, a number comes to lie between zero and a bound if it is above minus one and
below the bound. -/
theorem truncate?_below_iff {value : Binary64} {q : ℚ} (reads : value.value? = some q) {n : ℤ}
    (cut : value.truncate? = some n) {bound : ℤ} (pos : 0 < bound) :
    0 ≤ n ∧ n < bound ↔ -1 < q ∧ q < bound := by
  obtain rfl := Option.some.inj ((truncate?_eq reads).symm.trans cut)
  by_cases nonneg : 0 ≤ q
  · have above : -1 < q := by linarith
    rw [if_pos nonneg]
    simp [Int.floor_nonneg, Int.floor_lt, nonneg, above]
  · have below : q < bound := (not_le.1 nonneg).trans (by exact_mod_cast pos)
    have negative : ⌈q⌉ ≤ 0 := Int.ceil_le.2 (by simpa using le_of_not_ge nonneg)
    have small : ⌈q⌉ < bound := negative.trans_lt pos
    have low : 0 ≤ ⌈q⌉ ↔ -1 < q := by
      have lifted : (-1 : ℤ) < ⌈q⌉ ↔ ((-1 : ℤ) : ℚ) < q := Int.lt_ceil
      rw [Int.cast_neg, Int.cast_one] at lifted
      rw [← lifted]
      omega
    rw [if_neg nonneg, low]
    simp [below, small]

end Binary64

namespace Datum

/-- A value designates a kind: it is the member, a number equal to that of the kind, or a name of
it. An array without extents is the number zero. -/
inductive Designates : Datum → Cone → Prop
  | member (kind : Cone) : Designates (.cone kind) kind
  | integer {d : Datum} {kind : Cone} (equal : d.exactInteger? = some (kind.number : ℤ)) :
      Designates d kind
  | real {value : Binary64} {kind : Cone} (equal : value.value? = some (kind.number : ℚ)) :
      Designates (.real value) kind
  | scalar : Designates (.zeros []) .zero
  | text {name : String} {kind : Cone} (named : Cone.Names name kind) :
      Designates (.text name) kind

def Undesignated (d : Datum) : Prop := ∀ kind, ¬ d.Designates kind

/-- A value that can be neither read nor refused by name: an infinite number, which cannot be cut,
or a value that holds an integer with too many digits to be written. -/
inductive Breaks : Datum → Prop
  | infinite (negative : Bool) : Breaks (.real (.infinity negative))
  | overlong {d : Datum} (unwritable : ¬d.isWritable) : Breaks d

/-- A value that is not refused by name, although it designates nothing. -/
inductive Strays : Datum → Prop
  | broken {d : Datum} (breaks : d.Breaks) : Strays d
  | fraction {value : Binary64} {q : ℚ} (reads : value.value? = some q) (cut : q.den ≠ 1)
      (above : -1 < q) (below : q < 9) : Strays (.real value)

/-- A value is read as the kind that it designates, and is refused by name if it designates none. -/
structure ReadAsDesignated (d : Datum) : Prop where
  reads : ∀ kind, Cone.ofDatum d = .ok kind ↔ d.Designates kind
  refuses : d.Undesignated → Cone.ofDatum d = .error (.cone (.undesignated d))

theorem ofDatum_real_eq_ok_iff {value : Binary64} {kind : Cone} :
    Cone.ofDatum (.real value) = .ok kind ↔ value.truncate? = some (kind.number : ℤ) := by
  cases value with
  | nan | infinity => simp [Cone.ofDatum, Binary64.truncate?]
  | finite negative magnitude onGrid =>
    obtain ⟨n, cut⟩ : ∃ n, (Binary64.finite negative magnitude onGrid).truncate? = some n :=
      ⟨_, rfl⟩
    rw [cut, Option.some.injEq, ← Cone.ofNumber?_eq_some_iff]
    cases found : Cone.ofNumber? n <;> simp [Cone.ofDatum, cut, found]

/-- A number can be cut to that of some kind if it is above minus one and below nine. -/
theorem exists_cut_iff {value : Binary64} {q : ℚ} (reads : value.value? = some q) :
    (∃ kind, Cone.ofDatum (.real value) = .ok kind) ↔ -1 < q ∧ q < 9 := by
  have cut := Binary64.truncate?_eq reads
  have below : _ ↔ -1 < q ∧ q < ((9 : ℤ) : ℚ) :=
    Binary64.truncate?_below_iff reads cut (by decide)
  have number := @Cone.exists_number_iff (if 0 ≤ q then ⌊q⌋ else ⌈q⌉)
  simp only [ofDatum_real_eq_ok_iff, cut, Option.some.injEq]
  rw [number, below]
  rfl

theorem ofDatum_of_exactInteger {d : Datum} {n : ℤ} (exact : d.exactInteger? = some n) :
    Cone.ofDatum d =
      (Cone.ofNumber? n).elim (.error (Fault.cone (.undesignated d)).raised) .ok := by
  cases d with
  | cone kind =>
    obtain rfl := Option.some.inj exact
    rw [Cone.ofNumber?_number]
    rfl
  | truth | integer | sense =>
    obtain rfl := Option.some.inj exact
    rfl
  | _ => cases exact

/-- Of the integers only short ones designate anything. -/
theorem Designates.isWritable {d : Datum} {kind : Cone} (designates : d.Designates kind) :
    d.isWritable := by
  cases designates with
  | integer equal =>
    cases d with
    | integer n =>
      obtain rfl := Option.some.inj equal
      cases kind <;> exact decide_eq_true (Capacity.writable_of_isWord (by decide))
    | truth | cone | sense => rfl
    | _ => cases equal
  | _ => rfl

theorem Designates.reads {d : Datum} {kind : Cone} (designates : d.Designates kind) :
    Cone.ofDatum d = .ok kind := by
  cases designates with
  | member => rfl
  | integer equal =>
    rw [ofDatum_of_exactInteger equal, Cone.ofNumber?_number]
    rfl
  | real equal =>
    rw [ofDatum_real_eq_ok_iff, Binary64.truncate?_eq equal, if_pos (Nat.cast_nonneg _),
      Int.floor_natCast]
  | scalar => rfl
  | text named => simp [Cone.ofDatum, Cone.ofName?_eq_some_iff.2 named]

theorem Strays.undesignated {d : Datum} (strays : d.Strays) : d.Undesignated := by
  rintro kind designates
  cases strays with
  | broken breaks =>
    cases breaks with
    | infinite => cases designates.reads
    | overlong unwritable => exact unwritable designates.isWritable
  | fraction reads cut =>
    cases designates with
    | integer equal => cases equal
    | real equal =>
      obtain rfl := Option.some.inj (reads.symm.trans equal)
      exact cut (Rat.den_natCast _)

theorem Breaks.error {d : Datum} (breaks : d.Breaks) :
    ∃ cause, Cone.ofDatum d = .error (.data cause) := by
  cases breaks with
  | infinite => exact ⟨.tooLarge, rfl⟩
  | overlong unwritable =>
    have refused : (Fault.cone (.undesignated d)).raised = .data .malformed :=
      Fault.raised_eq_malformed unwritable
    refine ⟨.malformed, ?_⟩
    rw [← refused]
    cases d with
    | integer n =>
      rw [ofDatum_of_exactInteger rfl]
      cases found : Cone.ofNumber? n with
      | none => rfl
      | some kind =>
        exact absurd (Designates.integer (d := .integer n) (congrArg some
          (Cone.ofNumber?_eq_some_iff.1 found))).isWritable unwritable
    | list | record => rfl
    | _ => exact absurd rfl unwritable

theorem Strays.not_refused {d : Datum} (strays : d.Strays) :
    Cone.ofDatum d ≠ .error (.cone (.undesignated d)) := by
  cases strays with
  | broken breaks =>
    obtain ⟨cause, failed⟩ := breaks.error
    simp [failed]
  | fraction reads _ above below =>
    obtain ⟨kind, given⟩ := (exists_cut_iff reads).2 ⟨above, below⟩
    rw [given]
    exact fun same => by cases same

/-- What is read as a kind designates it, or is a fraction. -/
theorem designates_or_strays {d : Datum} {kind : Cone} (given : Cone.ofDatum d = .ok kind) :
    d.Designates kind ∨ d.Strays := by
  have integer {n : ℤ} (exact : d.exactInteger? = some n) : d.Designates kind := by
    rw [ofDatum_of_exactInteger exact] at given
    cases found : Cone.ofNumber? n with
    | none =>
      rw [found] at given
      cases given
    | some other =>
      rw [found] at given
      obtain rfl := Except.ok.inj given
      exact .integer (exact.trans (congrArg some (Cone.ofNumber?_eq_some_iff.1 found)))
  cases d with
  | cone | truth | integer | sense => exact .inl (integer rfl)
  | absent | list | record | sparse => cases given
  | zeros shape =>
    cases shape with
    | nil =>
      obtain rfl := Except.ok.inj given
      exact .inl .scalar
    | cons => cases given
  | text name =>
    cases named : Cone.ofName? name with
    | none => simp [Cone.ofDatum, named] at given
    | some other =>
      obtain rfl : other = kind := by simpa [Cone.ofDatum, named] using given
      exact .inl (.text (Cone.ofName?_eq_some_iff.1 named))
  | real value =>
    have cut := ofDatum_real_eq_ok_iff.1 given
    cases reads : value.value? with
    | none => cases value <;> cases reads <;> cases cut
    | some q =>
      obtain ⟨above, below⟩ := (exists_cut_iff reads).1 ⟨kind, given⟩
      by_cases integral : q.den = 1
      · have whole : (q.num : ℚ) = q := Rat.den_eq_one_iff q |>.1 integral
        rw [Binary64.truncate?_eq reads, ← whole, Int.floor_intCast, Int.ceil_intCast, ite_self,
          Option.some.injEq] at cut
        rw [← whole, cut] at reads
        exact .inl (.real reads)
      · exact .inr (.fraction reads integral above below)

/-- What is not read as a kind is refused by name, unless it breaks. -/
theorem eq_undesignated_of_error {d : Datum} {fault : Fault}
    (refused : Cone.ofDatum d = .error fault) (sound : ¬d.Breaks) :
    fault = .cone (.undesignated d) := by
  have named : (Fault.cone (.undesignated d)).raised = .cone (.undesignated d) :=
    Fault.raised_eq (not_not.1 fun unwritable => sound (.overlong unwritable))
  rw [← named]
  have elim {found : Option Cone} (refused :
      found.elim (.error (Fault.cone (.undesignated d)).raised) Except.ok = .error fault) :
      fault = (Fault.cone (.undesignated d)).raised := by
    cases found with
    | none => exact (Except.error.inj refused).symm
    | some => cases refused
  cases d with
  | cone => cases refused
  | zeros shape =>
    cases shape with
    | nil => cases refused
    | cons => exact (Except.error.inj refused).symm
  | absent | list | record | sparse => exact (Except.error.inj refused).symm
  | real value =>
    cases value with
    | infinity negative => exact absurd (.infinite negative) sound
    | nan => exact (Except.error.inj refused).symm
    | finite => exact elim refused
  | _ => exact elim refused

/-- Reading what a value designates, and nothing else, fails for infinite numbers, for fractions
between minus one and nine, and for what cannot be written only. -/
theorem readAsDesignated_iff {d : Datum} : d.ReadAsDesignated ↔ ¬ d.Strays := by
  constructor
  · intro right strays
    exact strays.not_refused (right.refuses strays.undesignated)
  · intro straight
    refine ⟨fun kind => ⟨fun given => ?_, Designates.reads⟩, fun none => ?_⟩
    · exact (designates_or_strays given).resolve_right straight
    · cases outcome : Cone.ofDatum d with
      | ok kind => exact absurd ((designates_or_strays outcome).resolve_right straight) (none kind)
      | error fault =>
        rw [eq_undesignated_of_error outcome fun breaks => straight (.broken breaks)]

end Datum

namespace ConeList

/-- A value lists cones, each with a value that should designate it and with what should be its
indices. -/
def Lists [Machine] (cones : Datum) (entries : List (Datum × Datum)) : Prop :=
  ∃ items, cones.elements = .ok items ∧ items.mapM Datum.pair = .ok entries

variable {rows columns : Datum} {rowEntries columnEntries : List (Datum × Datum)}

theorem readKinds_of_lists [Machine] (lists : Lists rows rowEntries) : readKinds rows =
    rowEntries.mapM fun entry => (Cone.ofDatum entry.1).map fun kind => (kind, entry.2) := by
  obtain ⟨items, elements, pairs⟩ := lists
  have opened : readKinds rows = items.mapM readKind := by
    rw [readKinds, elements]
    rfl
  rw [opened]
  clear opened elements
  induction Outcome.mapM_eq_ok_iff.1 pairs with
  | nil => rfl
  | @cons item entry _ _ pair later ih =>
    have own : readKind item = (Cone.ofDatum entry.1).map fun kind => (kind, entry.2) := by
      rw [readKind, pair]
      rfl
    rw [List.mapM_cons, List.mapM_cons, own, ih (Outcome.mapM_eq_ok_iff.2 later)]

/-- The kinds are read before anything else of both lists. -/
theorem readBoth_of_lists [Machine] (listed : Lists rows rowEntries)
    (also : Lists columns columnEntries)
    {fault : Fault} (failed : ((rowEntries ++ columnEntries).mapM fun entry =>
      (Cone.ofDatum entry.1).map fun kind => (kind, entry.2)) = .error fault) :
    readBoth rows columns = .error fault := by
  rw [readBoth, readKinds_of_lists listed, readKinds_of_lists also]
  exact Outcome.mapM_andThen_eq_error failed _

/-- One value that designates nothing is enough for a refusal by name, if it is no fraction and
neither it nor a value before it breaks. -/
theorem readBoth_undesignated [Machine] (listed : Lists rows rowEntries)
    (also : Lists columns columnEntries) {before after : List (Datum × Datum)}
    {entry : Datum × Datum} (split : rowEntries ++ columnEntries = before ++ entry :: after)
    (sound : ∀ other ∈ before, ¬other.1.Breaks) (undesignated : entry.1.Undesignated)
    (straight : ¬entry.1.Strays) :
    ∃ first ∈ before ++ [entry], first.1.Undesignated ∧ ¬ first.1.Strays ∧
      readBoth rows columns = .error (.cone (.undesignated first.1)) := by
  have fails : ∃ other ∈ before ++ [entry], ∀ kind,
      ((Cone.ofDatum other.1).map fun kind => (kind, other.2)) ≠ .ok kind := by
    refine ⟨entry, List.mem_append_right before List.mem_cons_self, fun kind read => ?_⟩
    rw [(Datum.readAsDesignated_iff.2 straight).refuses undesignated] at read
    cases read
  obtain ⟨first, member, fault, own, failed⟩ := Outcome.exists_mem_of_mapM_error fails
  have refused := Outcome.map_eq_error_iff.1 own
  have sound : ¬first.1.Breaks := by
    obtain early | same := List.mem_append.1 member
    · exact sound first early
    · obtain rfl := List.mem_singleton.1 same
      exact fun breaks => straight (.broken breaks)
  obtain rfl := Datum.eq_undesignated_of_error refused sound
  refine ⟨first, member, fun kind designates => ?_, fun strays => strays.not_refused refused,
    readBoth_of_lists listed also ?_⟩
  · rw [designates.reads] at refused
    cases refused
  · rw [split, List.append_cons, List.mapM_append, failed]
    rfl

end ConeList

/-- A value is read as what it designates, or refused by name, exactly if it is neither infinite nor
a fraction that is cut to the number of a kind, and holds no integer that is too long to be written.
If so and it designates nothing, every list of cones that it stands in is refused by name, unless
something before it is infinite or too long. -/
theorem undesignated_refused [Machine] (d : Datum) :
    (d.ReadAsDesignated ↔ ¬ d.Strays) ∧
    (d.Undesignated → ¬ d.Strays →
      ∀ (rows columns : Datum) (rowEntries columnEntries : List (Datum × Datum)),
        ConeList.Lists rows rowEntries → ConeList.Lists columns columnEntries →
        ∀ before indices after, rowEntries ++ columnEntries = before ++ (d, indices) :: after →
        (∀ other ∈ before, ¬other.1.Breaks) →
        ∃ first ∈ before ++ [(d, indices)], first.1.Undesignated ∧ ¬ first.1.Strays ∧
          ConeList.readBoth rows columns = .error (.cone (.undesignated first.1)) ∧
          ∀ input : ConicProblem.Input, input.rowCones = rows → input.variableCones = columns →
            (∃ sense, Sense.ofDatum input.sense = .ok sense) →
            ConicProblem.load input = .error (.cone (.undesignated first.1))) := by
  refine ⟨Datum.readAsDesignated_iff, ?_⟩
  intro undesignated straight rows columns rowEntries columnEntries listed also before indices after
    split sound
  obtain ⟨first, member, unread, kept, refused⟩ :=
    ConeList.readBoth_undesignated listed also split sound undesignated straight
  refine ⟨first, member, unread, kept, refused, ?_⟩
  rintro input rfl rfl ⟨sense, read⟩
  rw [ConicProblem.load, ConicProblem.read, read, refused]
  rfl

/-- One and a half designates nothing. -/
theorem Datum.strays_oneAndHalf : (Datum.real (.ofRat (3 / 2))).Strays :=
  .fraction (q := 3 / 2) (by decide +kernel) (by decide +kernel) (by norm_num) (by norm_num)

/-- A fraction is passed over, and what is refused is the value after it. -/
theorem undesignated_refused_absent : ConicProblem.load {
      objective := .absent, matrix := .absent, bounds := .absent
      rowCones := .list [.list [.real (.ofRat (3 / 2)), .list []]]
      variableCones := .list [.list [.absent, .integer 5]]
      sense := .sense .minimize } = .error (.cone (.undesignated .absent)) := by
  have undesignated : Datum.absent.Undesignated := fun kind designates => by
    cases designates.reads
  have straight : ¬ Datum.absent.Strays := by
    rintro ⟨⟨⟩⟩
    exact absurd rfl ‹_›
  have sound : ∀ other ∈ [(Datum.real (.ofRat (3 / 2)), Datum.list [])], ¬other.1.Breaks := by
    refine List.forall_mem_singleton.2 fun breaks => ?_
    have given : Cone.ofDatum (.real (.ofRat (3 / 2))) = .ok .nonneg :=
      Datum.ofDatum_real_eq_ok_iff.2 (by decide +kernel)
    obtain ⟨_, failed⟩ := breaks.error
    cases given.symm.trans failed
  obtain ⟨first, member, -, kept, -, loads⟩ := (undesignated_refused .absent).2 undesignated
    straight (.list [.list [.real (.ofRat (3 / 2)), .list []]]) (.list [.list [.absent, .integer 5]])
    [(.real (.ofRat (3 / 2)), .list [])] [(.absent, .integer 5)] ⟨_, rfl, rfl⟩ ⟨_, rfl, rfl⟩
    [(.real (.ofRat (3 / 2)), .list [])] (.integer 5) [] rfl sound
  obtain rfl | rfl : first = (.real (.ofRat (3 / 2)), .list []) ∨
      first = (.absent, .integer 5) := by
    simpa using member
  · exact absurd Datum.strays_oneAndHalf kept
  · exact loads _ rfl rfl ⟨_, rfl⟩

/-- One and a half is read as a half line, and an infinite number is refused for its size. -/
theorem fraction_misread :
    ((Datum.real (.ofRat (3 / 2))).Undesignated ∧
      Cone.ofDatum (.real (.ofRat (3 / 2))) = .ok .nonneg) ∧
    (Datum.real (.infinity false)).Undesignated ∧
      Cone.ofDatum (.real (.infinity false)) = .error (.data .tooLarge) := by
  have cut : (Binary64.ofRat (3 / 2)).truncate? = some 1 := by decide +kernel
  exact ⟨⟨Datum.strays_oneAndHalf.undesignated, Datum.ofDatum_real_eq_ok_iff.2 cut⟩,
    (Datum.Strays.broken (.infinite false)).undesignated, rfl⟩

end ConicForm
