import ConicForm.Proofs.ConeDesignation
import ConicForm.Proofs.ConicFeasibility
import ConicForm.Text.LowerCase

/-! The names of the kinds of cone as a language of texts: blanks, colons, then a word in letters of
either case with underscores anywhere in it, and blanks again. A text in this language is read as
the kind of its word and any other one is refused as it stands, so that a list of cones means the
same under every spelling. Only ASCII letters are lowered in a name; lowering all of Unicode would
read the same texts. -/
namespace ConicForm

namespace Text

variable {drop : Char → Bool} {text rest : List Char}

/-- The rest of a text once all leading characters of a class are gone. -/
def Leaves (drop : Char → Bool) (text rest : List Char) : Prop :=
  ∃ gone, text = gone ++ rest ∧ (∀ c ∈ gone, drop c) ∧ ∀ c ∈ rest.head?, ¬ drop c

/-- The same at both ends. -/
def LeavesBetween (drop : Char → Bool) (text rest : List Char) : Prop :=
  ∃ before after, text = before ++ (rest ++ after) ∧ (∀ c ∈ before, drop c) ∧
    (∀ c ∈ after, drop c) ∧ (∀ c ∈ rest.head?, ¬ drop c) ∧ ∀ c ∈ rest.getLast?, ¬ drop c

theorem dropWhile_of_head (kept : ∀ c ∈ rest.head?, ¬ drop c) : rest.dropWhile drop = rest := by
  cases rest with
  | nil => rfl
  | cons c rest => exact List.dropWhile_cons_of_neg (kept c rfl)

theorem leaves_iff : Leaves drop text rest ↔ text.dropWhile drop = rest := by
  constructor
  · rintro ⟨gone, rfl, dropped, kept⟩
    rw [List.dropWhile_append_of_pos dropped, dropWhile_of_head kept]
  · rintro rfl
    refine ⟨text.takeWhile drop, List.takeWhile_append_dropWhile.symm,
      fun c => List.mem_takeWhile_imp, fun c first dropped => ?_⟩
    have own := List.head?_dropWhile_not drop text
    rw [Option.mem_def.1 first] at own
    simp [dropped] at own

theorem leavesBetween_iff : LeavesBetween drop text rest ↔ trim drop text = rest := by
  constructor
  · rintro ⟨before, after, rfl, first, last, head, final⟩
    have backwards : ∀ c ∈ rest.reverse.head?, ¬ drop c := by rwa [List.head?_reverse]
    rw [trim, List.dropWhile_append_of_pos first]
    cases rest with
    -- with nothing left, what was taken for the end is dropped in front already
    | nil => simp [List.dropWhile_eq_nil_iff.2 last]
    | cons c rest =>
      rw [List.cons_append, List.dropWhile_cons_of_neg (head c rfl), ← List.cons_append,
        List.reverse_append, List.dropWhile_append_of_pos (by simpa using last),
        dropWhile_of_head backwards, List.reverse_reverse]
  · rintro rfl
    obtain ⟨before, split, first, head⟩ := leaves_iff.2 (rfl : text.dropWhile drop = _)
    obtain ⟨ending, splitBack, last, final⟩ :=
      leaves_iff.2 (rfl : (text.dropWhile drop).reverse.dropWhile drop = _)
    have inner : text.dropWhile drop = trim drop text ++ ending.reverse := by
      rw [← List.reverse_inj, splitBack, trim, List.reverse_append, List.reverse_reverse,
        List.reverse_reverse]
    refine ⟨before, ending.reverse, by rw [← inner, ← split], first, by simpa using last,
      fun c own => head c ?_, fun c own => final c ?_⟩
    · rw [inner, List.head?_append, Option.mem_def.1 own]
      rfl
    · rwa [trim, List.getLast?_reverse] at own

/-- What is left of a text without the blanks around it, and then without the colons in front. -/
def Remains (text : String) (rest : List Char) : Prop :=
  ∃ trimmed, LeavesBetween isBlank text.toList trimmed ∧ Leaves (· == ':') trimmed rest

theorem remains_iff {text : String} {rest : List Char} :
    Remains text rest ↔ bare text = rest := by
  simp [Remains, leavesBetween_iff, leaves_iff, bare]

theorem toLower_of_foreign {c : Char} (foreign : 0x80 ≤ c.toNat) : c.toLower = c := by
  refine Char.toLower_eq_of_not_isUpper fun upper => ?_
  have last : c.toNat ≤ 90 := (of_decide_eq_true upper).2
  omega

theorem toLower_eq_underscore_iff {c : Char} : c.toLower = '_' ↔ c = '_' := by
  by_cases ascii : c.toNat < 0x80
  · have all : ∀ n < 0x80, (Char.ofNat n).toLower = '_' ↔ Char.ofNat n = '_' := by decide
    have own := all c.toNat ascii
    rwa [Char.ofNat_toNat] at own
  · rw [toLower_of_foreign (Nat.le_of_not_lt ascii)]

end Text

namespace Cone

open ConicForm.Text (Remains Lowers)

/-- The words that name a kind. -/
inductive Word : String → Cone → Prop
  | zero : Word "zero" .zero
  | nonneg : Word "nonneg" .nonneg
  | nonpos : Word "nonpos" .nonpos
  | secondOrder : Word "soc" .secondOrder
  | semidefinite : Word "sdp" .semidefinite
  | positiveSemidefinite : Word "psd" .semidefinite
  | expPrimal : Word "expprimal" .expPrimal
  | expDual : Word "expdual" .expDual
  | free : Word "free" .free
  | rotatedSecondOrder : Word "socrotated" .rotatedSecondOrder

theorem mem_names_iff {word : String} {kind : Cone} : (word, kind) ∈ names ↔ Word word kind := by
  constructor
  · intro member
    simp only [names, List.mem_cons, Prod.mk.injEq, List.not_mem_nil, or_false] at member
    rcases member with ⟨rfl, rfl⟩ | ⟨rfl, rfl⟩ | ⟨rfl, rfl⟩ | ⟨rfl, rfl⟩ | ⟨rfl, rfl⟩ | ⟨rfl, rfl⟩ |
      ⟨rfl, rfl⟩ | ⟨rfl, rfl⟩ | ⟨rfl, rfl⟩ | ⟨rfl, rfl⟩
    all_goals constructor
  · intro word
    cases word <;> decide

/-- No word has a letter that is also the small letter of a foreign capital. -/
theorem Word.plain {letters : List Char} {kind : Cone} (word : Word (String.ofList letters) kind) :
    ∀ c ∈ letters, c.toNat < 0x80 ∧ c ≠ 'k' := by
  have all {name : String} (own : Word name kind) :
      ∀ c ∈ name.toList, c.toNat < 0x80 ∧ c ≠ 'k' := by
    cases own <;> simp
  have own := all word
  rwa [String.toList_ofList] at own

/-- A text is a word in letters of either case with underscores anywhere, behind colons and between
blanks. -/
def Spells (text : String) (kind : Cone) : Prop :=
  ∃ rest, Remains text rest ∧
    Word (String.ofList ((rest.filter (· != '_')).map Char.toLower)) kind

theorem spells_iff_of_remains {text : String} {rest : List Char} (remains : Remains text rest)
    {kind : Cone} : Spells text kind ↔
      Word (String.ofList ((rest.filter (· != '_')).map Char.toLower)) kind := by
  constructor
  · rintro ⟨other, also, word⟩
    rwa [← Text.remains_iff.1 remains, Text.remains_iff.1 also]
  · exact fun word => ⟨rest, remains, word⟩

theorem names_iff_spells {text : String} {kind : Cone} : Names text kind ↔ Spells text kind := by
  have kept (c : Char) : (c.toLower != '_') = (c != '_') := by
    rw [Bool.eq_iff_iff, bne_iff_ne, bne_iff_ne, Ne, Text.toLower_eq_underscore_iff]
  rw [spells_iff_of_remains (Text.remains_iff.2 rfl), ← mem_names_iff, Names, Text.name,
    List.filter_map]
  simp only [Function.comp_def, kept]

/-- For a word it makes no difference whether foreign letters are lowered as well. -/
theorem word_lowered_iff {letters lowered : List Char} (lowers : Lowers letters lowered)
    {kind : Cone} :
    Word (String.ofList lowered) kind ↔ Word (String.ofList (letters.map Char.toLower)) kind := by
  constructor
  · intro word
    rwa [← lowers.eq_of_ascii (lowers.ascii word.plain)]
  · intro word
    have ascii : ∀ c ∈ letters, c.toNat < 0x80 := by
      refine fun c member => Nat.lt_of_not_le fun foreign => ?_
      have plain := (word.plain _ (List.mem_map_of_mem member)).1
      rw [Text.toLower_of_foreign foreign] at plain
      omega
    rwa [lowers.eq_of_ascii ascii]

/-- A text is read as the kind that it spells and is otherwise refused as it stands. The case of
foreign letters makes no difference to that, and none of them can be part of a name. -/
structure ReadAsSpelled (text : String) : Prop where
  reads : ∀ kind, Cone.ofDatum (.text text) = .ok kind ↔ Spells text kind
  refuses : (∀ kind, ¬ Spells text kind) →
    Cone.ofDatum (.text text) = .error (.cone (.undesignated (.text text)))
  lowerable : ∃ rest lowered, Remains text rest ∧ Lowers (rest.filter (· != '_')) lowered
  lowered : ∀ rest, Remains text rest → ∀ lowered, Lowers (rest.filter (· != '_')) lowered →
    ∀ kind, Spells text kind ↔ Word (String.ofList lowered) kind
  foreign : ∀ rest, Remains text rest → ∀ lowered, Lowers (rest.filter (· != '_')) lowered →
    (∃ c ∈ rest ++ lowered, 0x80 ≤ c.toNat) →
      Cone.ofDatum (.text text) = .error (.cone (.undesignated (.text text)))

theorem ofDatum_text (text : String) : Cone.ofDatum (.text text) =
    (ofName? text).elim (.error (.cone (.undesignated (.text text)))) .ok := rfl

theorem readAsSpelled (text : String) : ReadAsSpelled text := by
  have reads (kind : Cone) : Cone.ofDatum (.text text) = .ok kind ↔ Spells text kind := by
    rw [← names_iff_spells, ← ofName?_eq_some_iff, ofDatum_text]
    cases ofName? text <;> simp
  have refuses (none : ∀ kind, ¬ Spells text kind) :
      Cone.ofDatum (.text text) = .error (.cone (.undesignated (.text text))) := by
    rw [ofDatum_text]
    cases found : ofName? text with
    | none => rfl
    | some kind => exact absurd (names_iff_spells.1 (ofName?_eq_some_iff.1 found)) (none kind)
  obtain ⟨lowered, lowers⟩ := Text.exists_lowers ((Text.bare text).filter (· != '_'))
  refine ⟨reads, refuses, ⟨_, lowered, Text.remains_iff.2 rfl, lowers⟩,
    fun rest remains lowered lowers kind => ?_, ?_⟩
  · rw [spells_iff_of_remains remains, word_lowered_iff lowers]
  · rintro rest remains lowered lowers ⟨c, member, foreign⟩
    refine refuses fun kind spells => ?_
    have word := (word_lowered_iff lowers).2 ((spells_iff_of_remains remains).1 spells)
    have ascii : c.toNat < 0x80 := by
      rcases List.mem_append.1 member with member | member
      · by_cases underscore : c = '_'
        · rw [underscore]
          decide
        · exact lowers.ascii word.plain c (List.mem_filter.2 ⟨member, bne_iff_ne.2 underscore⟩)
      · exact (word.plain c member).1
    omega

end Cone

namespace ConeList

/-- Another list with the same indices, in which every cone is given in some way that is read as the
same kind. -/
def Respells [Machine] (cones other : Datum) : Prop :=
  ∃ entries others, Lists cones entries ∧ Lists other others ∧
    List.Forall₂ (fun entry spelled : Datum × Datum => spelled.2 = entry.2 ∧
      ∃ kind, Cone.ofDatum entry.1 = .ok kind ∧ Cone.ofDatum spelled.1 = .ok kind) entries others

theorem Respells.readKinds_eq [Machine] {cones other : Datum} (respells : Respells cones other) :
    readKinds other = readKinds cones := by
  obtain ⟨entries, others, listed, also, alike⟩ := respells
  rw [readKinds_of_lists listed, readKinds_of_lists also]
  clear listed also
  induction alike with
  | nil => rfl
  | cons own _ ih =>
    obtain ⟨indices, kind, first, second⟩ := own
    rw [List.mapM_cons, List.mapM_cons, first, second, indices, ih]

end ConeList

/-- A text is read as a cone exactly if it spells one of the ten names, and a list of cones is read,
and a problem loaded, alike under every spelling of the cones. -/
theorem read_by_spelling [Machine] :
    (∀ text, Cone.ReadAsSpelled text) ∧
    ∀ (input : ConicProblem.Input) (rows columns : Datum),
      ConeList.Respells input.rowCones rows → ConeList.Respells input.variableCones columns →
        ConeList.readBoth rows columns = ConeList.readBoth input.rowCones input.variableCones ∧
        ConicProblem.load { input with rowCones := rows, variableCones := columns } =
          ConicProblem.load input := by
  refine ⟨Cone.readAsSpelled, fun input rows columns respelled also => ?_⟩
  have read : ConeList.readBoth rows columns =
      ConeList.readBoth input.rowCones input.variableCones := by
    rw [ConeList.readBoth, respelled.readKinds_eq, also.readKinds_eq]
    rfl
  refine ⟨read, ?_⟩
  simp only [ConicProblem.load, ConicProblem.read, read]

/-- The problem whose variables change places, with its cones named in other ways. -/
def ConicProblem.Input.respelled : ConicProblem.Input :=
  { swapped with
    rowCones := .list [.list [.text " :Non_Pos", .list [.integer 1]]]
    variableCones := .list [.list [.integer 7, .list [.integer 0]],
      .list [.text "NONNEG", .list [.integer 1]]] }

/-- A name that begins with a foreign s is refused. -/
theorem read_by_spelling_names : (∃ form, ConicProblem.load .respelled = .ok form ∧ form.n = 2) ∧
    Cone.ofDatum (.text "ſoc") = .error (.cone (.undesignated (.text "ſoc"))) := by
  obtain ⟨texts, lists⟩ := read_by_spelling
  have rows : ConeList.Respells ConicProblem.Input.swapped.rowCones
      ConicProblem.Input.respelled.rowCones :=
    ⟨[(.cone .nonpos, .list [.integer 1])], [(.text " :Non_Pos", .list [.integer 1])],
      ⟨_, rfl, rfl⟩, ⟨_, rfl, rfl⟩, .cons ⟨rfl, .nonpos, rfl, rfl⟩ .nil⟩
  have columns : ConeList.Respells ConicProblem.Input.swapped.variableCones
      ConicProblem.Input.respelled.variableCones :=
    ⟨[(.cone .free, .list [.integer 0]), (.cone .nonneg, .list [.integer 1])],
      [(.integer 7, .list [.integer 0]), (.text "NONNEG", .list [.integer 1])],
      ⟨_, rfl, rfl⟩, ⟨_, rfl, rfl⟩,
      .cons ⟨rfl, .free, rfl, rfl⟩ (.cons ⟨rfl, .nonneg, rfl, rfl⟩ .nil)⟩
  have same : ConicProblem.load .respelled = ConicProblem.load .swapped :=
    (lists .swapped _ _ rows columns).2
  obtain ⟨form, loaded, size⟩ := ConicProblem.load_swapped
  refine ⟨⟨form, same.trans loaded, size⟩, ?_⟩
  obtain ⟨rest, lowered, remains, lowers⟩ := (texts "ſoc").lowerable
  obtain rfl : Text.bare "ſoc" = rest := Text.remains_iff.1 remains
  have foreign : 'ſ' ∈ Text.bare "ſoc" ++ lowered := List.mem_append_left _ (by decide)
  exact (texts "ſoc").foreign _ remains lowered lowers ⟨'ſ', foreign, by decide⟩

end ConicForm
