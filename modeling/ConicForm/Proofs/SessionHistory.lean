import ConicForm.Proofs.SessionSteps

/-! Whole runs of a session. After any uses, in any order and whether they succeed or fail, what is
held is told by the history alone: the form of the last load that was accepted, and the solution of
the last solve that succeeded after it. -/
namespace ConicForm

namespace Options

theorem mem_names_onto {given base : Options} {name : String} :
    name ∈ names (given.onto base) ↔ name ∈ names base ∨ name ∈ names given := by
  simp only [names, onto, List.map_append, List.mem_append, List.mem_map, List.mem_filter]
  constructor
  · rintro (⟨option, ⟨stored, _⟩, rfl⟩ | own)
    · exact Or.inl ⟨option, stored, rfl⟩
    · exact Or.inr own
  · rintro (⟨option, stored, rfl⟩ | own)
    · by_cases replaced : option.1 ∈ given.map Prod.fst
      · exact Or.inr (List.mem_map.1 replaced)
      · exact Or.inl ⟨option, ⟨stored, by simpa using replaced⟩, rfl⟩
    · exact Or.inr own

/-- Putting options over the defaults once more changes nothing. -/
theorem onto_onto (given base : Options) : (given.onto base).onto base = given.onto base := by
  have replaced :
      base.filter (fun option => !(names (given.onto base)).contains option.1) = [] := by
    rw [List.filter_eq_nil_iff]
    intro option stored
    have named : option.1 ∈ names (given.onto base) :=
      mem_names_onto.2 (Or.inl (List.mem_map_of_mem stored))
    simpa using named
  rw [onto, replaced, List.nil_append]

theorem lookup_eq_none_iff {options : Options} {name : String} :
    options.lookup name = none ↔ name ∉ names options := by
  simp only [List.lookup_eq_none_iff, names, List.mem_map, not_exists, not_and]
  refine forall₂_congr fun option _ => ?_
  rw [bne_iff_ne, ne_comm]

theorem lookup_filter_names {base : Options} {kept : List String} {name : String}
    (fresh : name ∉ kept) :
    (base.filter fun option => !kept.contains option.1).lookup name = base.lookup name := by
  induction base with
  | nil => rfl
  | cons option rest ih =>
    obtain ⟨key, value⟩ := option
    by_cases own : name = key
    · subst own
      simp [fresh]
    · have other : (name == key) = false := by simpa using own
      by_cases dropped : key ∈ kept
      · simpa [dropped, List.lookup_cons, other] using ih
      · simpa [dropped, List.lookup_cons, other] using ih

/-- A name has the value that is given for it, and its default if none is given. -/
theorem lookup_onto (given base : Options) (name : String) :
    (given.onto base).lookup name = (given.lookup name).or (base.lookup name) := by
  rw [onto, lookup_append]
  cases found : given.lookup name with
  | none =>
    have fresh := lookup_eq_none_iff.1 found
    rw [lookup_filter_names fresh, Option.or_none, Option.none_or]
  | some value =>
    have named : name ∈ names given := by
      by_contra fresh
      rw [lookup_eq_none_iff.2 fresh] at found
      cases found
    have dropped : (base.filter fun option => !(names given).contains option.1).lookup name =
        none := by
      rw [lookup_eq_none_iff]
      intro kept
      obtain ⟨option, stored, rfl⟩ := List.mem_map.1 kept
      simp [named] at stored
    rw [dropped, Option.none_or, Option.some_or]

theorem clashes_eq_false_iff {options : Options} {reserved : List String} :
    options.clashes reserved = false ↔ ∀ name ∈ names options, name ∉ reserved := by
  simp [clashes]

/-- The defaults clash with nothing that the options do not clash with. -/
theorem clashes_onto_defaults {options : Options} {reserved : List String}
    (clear : options.clashes reserved = false) (free : defaults.clashes reserved = false) :
    (options.onto defaults).clashes reserved = false := by
  rw [clashes_eq_false_iff] at clear free ⊢
  intro name member
  rcases mem_names_onto.1 member with byDefault | given
  · exact free name byDefault
  · exact clear name given

/-- The names that no option of a session can have: the session and the form have them as arguments,
and the solver its data. -/
def reservedNames : List String := "self" :: "form" :: dataNames

end Options

namespace Session

/-- What a session can be asked for. -/
inductive Question where
  | form
  | status
  | objective
  | solution

/-- Anything that is done with a session. -/
inductive Use where
  | step (step : Step)
  | ask (question : Question)

namespace Use

/-- The use is a load that is accepted. -/
def Loads [Machine] (use : Use) (form : StandardForm) : Prop :=
  ∃ given, use = .step (.load given) ∧ given.standardForm = .ok form

/-- The use is a solve that succeeds on a form. -/
def Solves [Machine] (use : Use) (form : StandardForm) (solution : Solution) : Prop :=
  ∃ reply, use = .step (.solve reply) ∧ reply.toSolution form = .ok solution

end Use

/-- The form of the last load that was accepted. -/
def LoadedLast [Machine] (history : List Use) (form : StandardForm) : Prop :=
  ∃ earlier use later, history = earlier ++ use :: later ∧ use.Loads form ∧
    ∀ other ∈ later, ∀ form, ¬other.Loads form

/-- The solution of the last solve that succeeded, if no load was accepted after it. -/
def SolvedLast [Machine] (history : List Use) (solution : Solution) : Prop :=
  ∃ earlier use later form, history = earlier ++ use :: later ∧ LoadedLast earlier form ∧
    use.Solves form solution ∧ ∀ other ∈ later, (∀ form, ¬other.Loads form) ∧
      ∀ solution, ¬other.Solves form solution

/-- Asking changes nothing. -/
def apply [Machine] (session : Session) : Use → Session
  | .step step => session.step step
  | .ask _ => session

def after [Machine] (session : Session) (history : List Use) : Session :=
  history.foldl apply session

theorem Use.Loads.unique [Machine] {use : Use} {form other : StandardForm} (loads : use.Loads form)
    (also : use.Loads other) : form = other := by
  obtain ⟨given, rfl, accepted⟩ := loads
  obtain ⟨same, step, acceptedToo⟩ := also
  cases step
  rw [accepted] at acceptedToo
  exact Except.ok.inj acceptedToo

theorem Use.Solves.unique [Machine] {use : Use} {form : StandardForm} {solution other : Solution}
    (solves : use.Solves form solution) (also : use.Solves form other) : solution = other := by
  obtain ⟨reply, rfl, succeeds⟩ := solves
  obtain ⟨same, step, succeedsToo⟩ := also
  cases step
  rw [succeeds] at succeedsToo
  exact Except.ok.inj succeedsToo

theorem Use.not_loads_of_solves [Machine] {use : Use} {form other : StandardForm}
    {solution : Solution} (solves : use.Solves form solution) : ¬use.Loads other := by
  rintro ⟨given, same, _⟩
  obtain ⟨reply, rfl, _⟩ := solves
  cases same

/-- A history that ends with a load that is accepted, or else had one before its last use. -/
theorem loadedLast_snoc_iff [Machine] {history : List Use} {use : Use} {form : StandardForm} :
    LoadedLast (history ++ [use]) form ↔
      use.Loads form ∨ (∀ form, ¬use.Loads form) ∧ LoadedLast history form := by
  constructor
  · rintro ⟨earlier, last, later, split, loads, none⟩
    rcases List.eq_nil_or_concat later with rfl | ⟨between, final, rfl⟩
    · obtain ⟨rfl, same⟩ := List.append_inj' split rfl
      cases same
      exact Or.inl loads
    · have parts : history ++ [use] = (earlier ++ last :: between) ++ [final] := by
        rw [split]
        simp
      obtain ⟨rfl, same⟩ := List.append_inj' parts rfl
      cases same
      exact Or.inr ⟨none use (by simp), earlier, last, between, rfl, loads,
        fun other member => none other (by simp [member])⟩
  · rintro (loads | ⟨refused, earlier, last, later, rfl, loads, none⟩)
    · exact ⟨history, use, [], by simp, loads, by simp⟩
    · refine ⟨earlier, last, later ++ [use], by simp, loads, fun other member => ?_⟩
      rcases List.mem_append.1 member with before | own
      · exact none other before
      · rw [List.mem_singleton.1 own]
        exact refused

/-- Nothing that is loaded last changes while nothing is loaded. -/
theorem loadedLast_append [Machine] {history later : List Use} {form : StandardForm}
    (none : ∀ other ∈ later, ∀ form, ¬other.Loads form) :
    LoadedLast (history ++ later) form ↔ LoadedLast history form := by
  induction later using List.reverseRecOn with
  | nil => simp
  | append_singleton later use ih =>
    have refused := none use (by simp)
    have earlier := ih fun other member => none other (by simp [member])
    rw [← List.append_assoc, loadedLast_snoc_iff, earlier]
    simp [refused]

theorem LoadedLast.unique [Machine] {history : List Use} {form other : StandardForm}
    (loaded : LoadedLast history form) (also : LoadedLast history other) : form = other := by
  induction history using List.reverseRecOn with
  | nil =>
    obtain ⟨earlier, use, later, split, _⟩ := loaded
    simp at split
  | append_singleton history use ih =>
    rw [loadedLast_snoc_iff] at loaded also
    rcases loaded with loads | ⟨refused, loaded⟩
    · rcases also with loadsToo | ⟨refused, _⟩
      · exact loads.unique loadsToo
      · exact absurd loads (refused form)
    · rcases also with loadsToo | ⟨_, also⟩
      · exact absurd loadsToo (refused other)
      · exact ih loaded also

/-- A form that is solved is still the one loaded last, as long as nothing is loaded later. -/
theorem loadedLast_solves_append [Machine] {history later : List Use} {use : Use}
    {form : StandardForm}
    {solution : Solution} (loaded : LoadedLast history form) (solves : use.Solves form solution)
    (none : ∀ other ∈ later, ∀ form, ¬other.Loads form) :
    LoadedLast (history ++ use :: later) form := by
  rw [loadedLast_append]
  · exact loaded
  · intro other member
    rcases List.mem_cons.1 member with rfl | inLater
    · exact fun form => Use.not_loads_of_solves solves
    · exact none other inLater

/-- A history that ends with a solve that succeeds, or else had one that nothing has replaced. -/
theorem solvedLast_snoc_iff [Machine] {history : List Use} {use : Use} {solution : Solution} :
    SolvedLast (history ++ [use]) solution ↔
      (∃ form, LoadedLast history form ∧ use.Solves form solution) ∨
        SolvedLast history solution ∧ (∀ form, ¬use.Loads form) ∧
          ∀ form, LoadedLast history form → ∀ other, ¬use.Solves form other := by
  constructor
  · rintro ⟨earlier, last, later, form, split, loaded, solves, none⟩
    rcases List.eq_nil_or_concat later with rfl | ⟨between, final, rfl⟩
    · obtain ⟨rfl, same⟩ := List.append_inj' split rfl
      cases same
      exact Or.inl ⟨form, loaded, solves⟩
    · have parts : history ++ [use] = (earlier ++ last :: between) ++ [final] := by
        rw [split]
        simp
      obtain ⟨rfl, same⟩ := List.append_inj' parts rfl
      cases same
      have still : LoadedLast (earlier ++ last :: between) form :=
        loadedLast_solves_append loaded solves
          fun other member => (none other (by simp [member])).1
      refine Or.inr ⟨⟨earlier, last, between, form, rfl, loaded, solves,
        fun other member => none other (by simp [member])⟩, (none use (by simp)).1, ?_⟩
      intro other holds
      rw [holds.unique still]
      exact (none use (by simp)).2
  · rintro (⟨form, loaded, solves⟩ | ⟨⟨earlier, last, later, form, rfl, loaded, solves, none⟩,
      refused, failed⟩)
    · exact ⟨history, use, [], form, by simp, loaded, solves, by simp⟩
    · have still := loadedLast_solves_append loaded solves
        fun other member => (none other member).1
      refine ⟨earlier, last, later ++ [use], form, by simp, loaded, solves, fun other member => ?_⟩
      rcases List.mem_append.1 member with before | own
      · exact none other before
      · rw [List.mem_singleton.1 own]
        exact ⟨refused, failed form still⟩

theorem apply_of_loads [Machine] {use : Use} {form : StandardForm} (loads : use.Loads form)
    (session : Session) :
    session.apply use = { session with form := some form, solution := none } := by
  obtain ⟨given, rfl, accepted⟩ := loads
  rw [apply, step, load_eq, accepted, accept]

section Clear

variable {session : Session} (clear : session.options.clashes ["form"] = false)
  (free : session.options.clashes Options.dataNames = false)
include clear free

/-- A session that holds a form calls the solver on it, once, with the options of the session. -/
theorem solve_of_form [Machine] {form : StandardForm} (holds : session.form = some form)
    (reply : Reply) :
    session.solve reply = (session.keep ⟨some (form.call session.options), reply.toSolution form⟩,
      ⟨some (form.call session.options), reply.toSolution form⟩) := by
  rw [solve, holds]
  simp [StandardForm.solve, clear, free]

theorem apply_of_solves [Machine] {use : Use} {form : StandardForm} {solution : Solution}
    (holds : session.form = some form) (solves : use.Solves form solution) :
    session.apply use = { session with solution := some solution } := by
  obtain ⟨reply, rfl, succeeds⟩ := solves
  rw [apply, step, solve_of_form clear free holds, keep, succeeds]

/-- A use that neither loads nor solves anything changes nothing. -/
theorem apply_of_neither [Machine] {use : Use} (refused : ∀ form, ¬use.Loads form)
    (failed : ∀ form, session.form = some form → ∀ solution, ¬use.Solves form solution) :
    session.apply use = session := by
  cases use with
  | ask question => rfl
  | step step =>
    cases step with
    | load given =>
      rw [apply, Session.step, load_eq]
      exact form_accept_of_refused
        (fun form accepted => refused form ⟨given, rfl, accepted⟩) session
    | solve reply =>
      cases holds : session.form with
      | none => rw [apply, Session.step, solve, holds]
      | some form =>
        rw [apply, Session.step, solve_of_form clear free holds, keep]
        cases outcome : reply.toSolution form with
        | error fault => rfl
        | ok solution => exact absurd ⟨reply, rfl, outcome⟩ (failed form holds solution)
    | solveApart options reply => rfl

end Clear

theorem options_apply [Machine] (session : Session) (use : Use) :
    (session.apply use).options = session.options := by
  cases use with
  | step step => exact options_step session step
  | ask => rfl

theorem options_after [Machine] (session : Session) (history : List Use) :
    (session.after history).options = session.options := by
  induction history generalizing session with
  | nil => rfl
  | cons use rest ih =>
    rw [after, List.foldl_cons]
    exact (ih _).trans (options_apply session use)

/-- What a session holds after a history. -/
structure Holds [Machine] (session : Session) (history : List Use) : Prop where
  form : ∀ form, session.form = some form ↔ LoadedLast history form
  solution : ∀ solution, session.solution = some solution ↔ SolvedLast history solution

theorem holds_start [Machine] (options : Options) : Holds ⟨options, none, none⟩ [] where
  form := fun form => by simp [LoadedLast]
  solution := fun solution => by simp [SolvedLast]

/-- A use that loads nothing leaves the form of the history. -/
theorem Holds.form_snoc [Machine] {session : Session} {history : List Use}
    (holds : session.Holds history) {use : Use} (refused : ∀ form, ¬use.Loads form)
    (form : StandardForm) : session.form = some form ↔ LoadedLast (history ++ [use]) form := by
  rw [loadedLast_append (List.forall_mem_singleton.2 refused)]
  exact holds.form form

/-- After a load that is accepted it does not matter what was held before. -/
theorem holds_of_loads [Machine] (session : Session) (history : List Use) {use : Use}
    {form : StandardForm} (loads : use.Loads form) :
    (session.apply use).Holds (history ++ [use]) := by
  rw [apply_of_loads loads]
  constructor
  · intro other
    rw [loadedLast_snoc_iff, Option.some.injEq]
    constructor
    · rintro rfl
      exact Or.inl loads
    · rintro (also | ⟨refused, _⟩)
      · exact loads.unique also
      · exact absurd loads (refused form)
  · intro solution
    rw [solvedLast_snoc_iff]
    simp only [reduceCtorEq, false_iff]
    rintro (⟨_, _, solves⟩ | ⟨_, refused, _⟩)
    · exact Use.not_loads_of_solves solves loads
    · exact refused form loads

section Clear

variable {session : Session} {history : List Use}
  (clear : session.options.clashes ["form"] = false)
  (free : session.options.clashes Options.dataNames = false) {use : Use}
include clear free

/-- A solve that succeeds keeps the form and replaces the solution. -/
theorem Holds.apply_solves [Machine] (holds : session.Holds history) {form : StandardForm}
    {solution : Solution} (held : session.form = some form) (solves : use.Solves form solution) :
    (session.apply use).Holds (history ++ [use]) := by
  have last := (holds.form form).1 held
  rw [apply_of_solves clear free held solves]
  constructor
  · exact holds.form_snoc fun other => Use.not_loads_of_solves solves
  · intro other
    rw [solvedLast_snoc_iff, Option.some.injEq]
    constructor
    · rintro rfl
      exact Or.inl ⟨form, last, solves⟩
    · rintro (⟨same, lastToo, solvesToo⟩ | ⟨_, _, failed⟩)
      · obtain rfl := lastToo.unique last
        exact solves.unique solvesToo
      · exact absurd solves (failed form last solution)

/-- Any other use leaves everything as it is. -/
theorem Holds.apply_neither [Machine] (holds : session.Holds history)
    (refused : ∀ form, ¬use.Loads form)
    (failed : ∀ form, session.form = some form → ∀ solution, ¬use.Solves form solution) :
    (session.apply use).Holds (history ++ [use]) := by
  rw [apply_of_neither clear free refused failed]
  constructor
  · exact holds.form_snoc refused
  · intro solution
    rw [solvedLast_snoc_iff, holds.solution solution]
    constructor
    · intro solvedLast
      exact Or.inr ⟨solvedLast, refused,
        fun form loaded => failed form ((holds.form form).2 loaded)⟩
    · rintro (⟨form, loaded, solves⟩ | ⟨solvedLast, _⟩)
      · exact absurd solves (failed form ((holds.form form).2 loaded) solution)
      · exact solvedLast

/-- One more use leaves a session with what the longer history tells. -/
theorem Holds.apply [Machine] (holds : session.Holds history) (use : Use) :
    (session.apply use).Holds (history ++ [use]) := by
  by_cases loaded : ∃ form, use.Loads form
  · obtain ⟨form, loads⟩ := loaded
    exact holds_of_loads session history loads
  · by_cases solved : ∃ form solution, session.form = some form ∧ use.Solves form solution
    · obtain ⟨form, solution, held, solves⟩ := solved
      exact holds.apply_solves clear free held solves
    · exact holds.apply_neither clear free (not_exists.1 loaded)
        fun form held solution solves => solved ⟨form, solution, held, solves⟩

end Clear

theorem Holds.after [Machine] {options : Options} (clear : options.clashes ["form"] = false)
    (free : options.clashes Options.dataNames = false) (history : List Use) :
    (Session.after ⟨options, none, none⟩ history).Holds history := by
  induction history using List.reverseRecOn with
  | nil => exact holds_start options
  | append_singleton history use ih =>
    have step : Session.after ⟨options, none, none⟩ (history ++ [use]) =
        (Session.after ⟨options, none, none⟩ history).apply use := by
      simp [Session.after]
    rw [step]
    apply ih.apply
    · rw [options_after]
      exact clear
    · rw [options_after]
      exact free

end Session

/-- No reply means that a form has not been solved. -/
theorem Reply.status_ne_notSolved [Machine] {reply : Reply} {form : StandardForm}
    {solution : Solution}
    (means : reply.toSolution form = .ok solution) : solution.status ≠ .notSolved := by
  cases reply with
  | raised name => cases means
  | answered x info =>
    obtain ⟨items, _, means⟩ := Outcome.andThen_eq_ok_iff.1 means
    obtain ⟨flag, _, means⟩ := Outcome.andThen_eq_ok_iff.1 means
    cases x with
    | none => cases means
    | some x =>
      obtain ⟨values, _, means⟩ := Outcome.andThen_eq_ok_iff.1 means
      split at means
      · obtain ⟨restored, _, means⟩ := Outcome.andThen_eq_ok_iff.1 means
        obtain ⟨iterations, _, means⟩ := Outcome.andThen_eq_ok_iff.1 means
        cases means
        exact Status.ofFlag_ne_notSolved _
      · cases means

/-- The call has the data of the form, without equalities if there are none, and the options over
the defaults. -/
structure SolverCall.Describes (call : SolverCall) (form : StandardForm) (options : Options) :
    Prop where
  c : call.c = form.c
  G : call.G = form.G
  h : call.h = form.h
  dims : call.dims = form.dims
  noEqualities : form.p = 0 → call.equalities = none
  equalities : form.p ≠ 0 → call.equalities = some (form.A, form.b)
  options : ∀ name, call.options.lookup name =
    (options.lookup name).or (Options.defaults.lookup name)

theorem StandardForm.describes_call (form : StandardForm) (options : Options) :
    (form.call (options.onto Options.defaults)).Describes form options where
  c := rfl
  G := rfl
  h := rfl
  dims := rfl
  noEqualities := fun none => if_pos none
  equalities := fun some => if_neg some
  options := fun name => by
    rw [call, Options.onto_onto, Options.lookup_onto]

namespace Session

/-- What a session holds after a history, and what it answers then. -/
structure Follows [Machine] (session : Session) (options : Options) (history : List Use) :
    Prop extends session.Holds history where
  notSolved_iff : session.status = .notSolved ↔ session.solution = none
  unsolved : session.solution = none →
    session.objective = .error .notSolved ∧ session.solutionVector = .error .notSolved
  solved : ∀ solution, session.solution = some solution → session.status = solution.status ∧
    session.objective = .ok solution.objective ∧ session.solutionVector = .ok solution.x
  idle : session.form = none → ∀ reply,
    session.solve reply = (session, ⟨none, .error .nothingLoaded⟩)
  called : ∀ form, session.form = some form → ∀ reply, ∃ call : SolverCall,
    call.Describes form options ∧ (session.solve reply).2 = ⟨some call, reply.toSolution form⟩
  failed : ∀ reply fault, (session.solve reply).2.result = .error fault →
    (session.solve reply).1 = session
  raised : ∀ name, (session.solve (.raised name)).1 = session

/-- Take a session whose options hide nothing from the solver. After any history it holds the form
of the last load that was accepted, and the solution of the last solve that succeeded after it. It
is not solved exactly while it holds no solution, and then refuses to tell about one. It calls the
solver, once and on the form it holds, exactly if it holds one. What it holds is kept if a solve
fails, as it does if the solver raises anything. -/
theorem follows_history [Machine] {options : Options}
    (clear : options.clashes Options.reservedNames = false) :
    ∃ session, start options = .ok session ∧
      ∀ history, (session.after history).Follows options history := by
  have distinct (name : String) (named : name ∈ Options.names options) :
      name ∉ Options.reservedNames := Options.clashes_eq_false_iff.1 clear name named
  have clearOf {reserved : List String} (part : reserved ⊆ Options.reservedNames) :
      options.clashes reserved = false :=
    Options.clashes_eq_false_iff.2 fun name named member => distinct name named (part member)
  have started : start options = .ok ⟨options.onto Options.defaults, none, none⟩ := by
    rw [start, clearOf (by simp [Options.reservedNames])]
    rfl
  have clearForm : (options.onto Options.defaults).clashes ["form"] = false :=
    Options.clashes_onto_defaults (clearOf (by simp [Options.reservedNames])) rfl
  have clearData : (options.onto Options.defaults).clashes Options.dataNames = false :=
    Options.clashes_onto_defaults
      (clearOf fun name member => List.mem_cons_of_mem _ (List.mem_cons_of_mem _ member)) rfl
  refine ⟨_, started, fun history => ?_⟩
  have holds := Holds.after clearForm clearData history
  have kept := options_after ⟨options.onto Options.defaults, none, none⟩ history
  generalize Session.after ⟨options.onto Options.defaults, none, none⟩ history = session
    at holds kept
  refine ⟨holds, ?_, fun none => ?_, fun solution held => ?_, fun none reply => ?_,
    fun form holdsForm reply => ?_, fun _ _ => solve_of_error, session.solve_raised⟩
  · cases held : session.solution with
    | none => simp [status, held]
    | some solution =>
      obtain ⟨_, _, _, _, _, _, ⟨reply, _, means⟩, _⟩ := (holds.solution solution).1 held
      simp [status, held, Reply.status_ne_notSolved means]
  · simp [objective, solutionVector, Session.held, none, Except.map]
  · simp [status, objective, solutionVector, Session.held, held, Except.map]
  · rw [solve, none]
  · refine ⟨form.call session.options, by rw [kept]; exact form.describes_call options, ?_⟩
    rw [solve_of_form (by rw [kept]; exact clearForm) (by rw [kept]; exact clearData) holdsForm]

end Session

/-- One variable that is at least one, and its own objective. -/
def Given.atLeastOne (sense : Datum) : Given :=
  .linear {
    matrix := .list [.list [.integer 1]]
    columnLower := .list [.real (.infinity true)]
    columnUpper := .list [.real (.infinity false)]
    objective := .list [.integer 1]
    rowLower := .list [.integer 1]
    rowUpper := .list [.real (.infinity false)]
    sense }

namespace Session

/-- A solution outlasts a load that is refused and a solver that raises something. -/
def outlasting : List Use :=
  [.step (.load (.atLeastOne (.text "minimize"))),
    .step (.solve (.answered (some (.list [.integer 1]))
      (some (.record [("exitFlag", .integer 0)])))),
    .step (.load (.atLeastOne (.text "upwards"))), .step (.solve (.raised "ArithmeticError")),
    .ask .solution]

theorem follows_history_verbose :
    Options.clashes [("verbose", .truth true)] Options.reservedNames = false ∧
    (∀ form, (Given.atLeastOne (.text "upwards")).standardForm ≠ .ok form) ∧
    ∃ session, start [("verbose", .truth true)] = .ok session ∧
      (∀ history, (session.after history).Follows [("verbose", .truth true)] history) ∧
      ∃ form solution, LoadedLast outlasting form ∧ SolvedLast outlasting solution ∧
        (session.after outlasting).status = .optimal ∧
        (session.after outlasting).objective = .ok .one ∧
        (session.after outlasting).solutionVector = .ok [.one] := by
  obtain ⟨session, started, follows⟩ := @follows_history _ [("verbose", .truth true)] rfl
  have refused : (Given.atLeastOne (.text "upwards")).standardForm.toOption.isNone := by
    decide +kernel
  have holds := follows outlasting
  obtain ⟨form, loaded⟩ : ∃ form, (session.after outlasting).form = some form := by
    cases started
    exact Option.isSome_iff_exists.1 (by decide +kernel)
  obtain ⟨solution, solved, parts⟩ : ∃ solution,
      (session.after outlasting).solution = some solution ∧
        (solution.status, solution.objective, solution.x) = (.optimal, .one, [.one]) := by
    cases started
    exact Option.map_eq_some_iff.1 (by decide +kernel)
  simp only [Prod.mk.injEq] at parts
  obtain ⟨status, objective, vector⟩ := holds.solved solution solved
  refine ⟨rfl, fun form accepted => ?_, session, started, follows, form, solution,
    (holds.form form).1 loaded, (holds.solution solution).1 solved, ?_, ?_, ?_⟩
  · rw [accepted] at refused
    cases refused
  · rw [status, parts.1]
  · rw [objective, parts.2.1]
  · rw [vector, parts.2.2]

end Session
end ConicForm
