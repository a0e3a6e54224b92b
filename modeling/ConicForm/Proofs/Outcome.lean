import Mathlib

/-! Chains of readings: what a chain gives is given by its links, one after the other. -/
namespace ConicForm.Outcome

variable {ε : Type u} {α : Type v} {β : Type w}

theorem bind_eq_ok_iff {first : Except ε α} {next : α → Except ε β} {result : β} :
    first.bind next = .ok result ↔ ∃ value, first = .ok value ∧ next value = .ok result := by
  cases first <;> simp [Except.bind]

theorem bind_eq_error_iff {first : Except ε α} {next : α → Except ε β} {cause : ε} :
    first.bind next = .error cause ↔
      first = .error cause ∨ ∃ value, first = .ok value ∧ next value = .error cause := by
  cases first <;> simp [Except.bind]

theorem map_eq_ok_iff {first : Except ε α} {f : α → β} {result : β} :
    first.map f = .ok result ↔ ∃ value, first = .ok value ∧ f value = result := by
  cases first <;> simp [Except.map]

theorem map_eq_error_iff {first : Except ε α} {f : α → β} {cause : ε} :
    first.map f = .error cause ↔ first = .error cause := by
  cases first <;> simp [Except.map]

theorem mapError_eq_ok_iff {first : Except ε α} {f : ε → β} {value : α} :
    first.mapError f = .ok value ↔ first = .ok value := by
  cases first <;> simp [Except.mapError]

/-- The same for a chain that is written step by step. -/
theorem andThen_eq_ok_iff {α β : Type v} {first : Except ε α} {next : α → Except ε β}
    {result : β} :
    (first >>= next) = .ok result ↔ ∃ value, first = .ok value ∧ next value = .ok result :=
  bind_eq_ok_iff

/-- Reading a list gives the items that are read one by one. -/
theorem mapM_eq_ok_iff {α β : Type v} {f : α → Except ε β} {items : List α} {results : List β} :
    items.mapM f = .ok results ↔
      items.Forall₂ (fun item result => f item = .ok result) results := by
  induction items generalizing results with
  | nil => simp [pure, Except.pure, eq_comm]
  | cons item items ih =>
    simp only [List.mapM_cons, andThen_eq_ok_iff, List.forall₂_cons_left_iff, ← ih, pure,
      Except.pure, Except.ok.injEq]
    constructor
    · rintro ⟨value, read, values, rest, rfl⟩
      exact ⟨value, values, read, rest, rfl⟩
    · rintro ⟨value, values, read, rest, rfl⟩
      exact ⟨value, read, values, rest, rfl⟩

/-- The same for readings that fail without a fault. -/
theorem mapM_eq_some_iff {f : α → Option β} {items : List α} {results : List β} :
    items.mapM f = some results ↔
      items.Forall₂ (fun item result => f item = some result) results := by
  induction items generalizing results with
  | nil => simp [eq_comm]
  | cons item items ih =>
    simp only [List.mapM_cons, Option.pure_def, Option.bind_eq_bind, Option.bind_eq_some_iff,
      Option.some.injEq, List.forall₂_cons_left_iff, ← ih]
    constructor
    · rintro ⟨value, own, values, later, rfl⟩
      exact ⟨value, values, own, later, rfl⟩
    · rintro ⟨value, values, own, later, rfl⟩
      exact ⟨value, own, values, later, rfl⟩

theorem isSome_of_mapM {f : α → Option β} {items : List α} {results : List β}
    (read : items.mapM f = some results) : ∀ item ∈ items, (f item).isSome := by
  have each := mapM_eq_some_iff.1 read
  clear read
  induction each with
  | nil => simp
  | cons own _ ih => exact List.forall_mem_cons.2 ⟨by simp [own], ih⟩

theorem exists_mem_of_mapM {f : α → Option β} {items : List α} {results : List β}
    (read : items.mapM f = some results) :
    ∀ result ∈ results, ∃ item ∈ items, f item = some result := by
  have each := mapM_eq_some_iff.1 read
  clear read
  induction each with
  | nil => simp
  | @cons item _ _ _ own _ ih =>
    refine List.forall_mem_cons.2 ⟨⟨item, List.mem_cons_self, own⟩, fun result member => ?_⟩
    obtain ⟨source, stored, same⟩ := ih result member
    exact ⟨source, List.mem_cons_of_mem _ stored, same⟩

/-- Where the items are known that can be read, and what is read from each of them, so are the
lists. -/
theorem mapM_eq_ok_iff_forall {α β : Type v} {f : α → Except ε β} {good : α → Prop} {g : α → β}
    {items : List α} {results : List β}
    (each : ∀ item ∈ items, ∀ value, f item = .ok value ↔ good item ∧ value = g item) :
    items.mapM f = .ok results ↔ (∀ item ∈ items, good item) ∧ results = items.map g := by
  rw [mapM_eq_ok_iff]
  induction items generalizing results with
  | nil => simp
  | cons item items ih =>
    have later {results : List β} : _ ↔ _ := @ih results fun other member =>
      each other (List.mem_cons_of_mem _ member)
    simp only [List.forall₂_cons_left_iff, each item List.mem_cons_self, later,
      List.forall_mem_cons, List.map_cons]
    constructor
    · rintro ⟨value, values, ⟨own, rfl⟩, ⟨rest, rfl⟩, rfl⟩
      exact ⟨⟨own, rest⟩, rfl⟩
    · rintro ⟨⟨own, rest⟩, rfl⟩
      exact ⟨_, _, ⟨own, rfl⟩, ⟨rest, rfl⟩, rfl⟩

/-- Reading a list fails like an item that cannot be read. -/
theorem exists_mem_of_mapM_error {α β : Type v} {f : α → Except ε β} {items : List α}
    (unread : ∃ item ∈ items, ∀ value, f item ≠ .ok value) :
    ∃ item ∈ items, ∃ cause, f item = .error cause ∧ items.mapM f = .error cause := by
  induction items with
  | nil => simp at unread
  | cons item items ih =>
    rw [List.mapM_cons]
    cases own : f item with
    | error cause => exact ⟨item, List.mem_cons_self, cause, own, rfl⟩
    | ok value =>
      obtain ⟨other, member, fails⟩ := unread
      have later : other ∈ items := by
        refine (List.mem_cons.1 member).resolve_left ?_
        rintro rfl
        exact fails value own
      obtain ⟨first, stored, cause, failed, rest⟩ := ih ⟨other, later, fails⟩
      refine ⟨first, List.mem_cons_of_mem _ stored, cause, failed, ?_⟩
      rw [rest]
      rfl

/-- Two lists that are read in turn fail like both of them together. -/
theorem mapM_andThen_eq_error {α β γ : Type v} {f : α → Except ε β} {first second : List α}
    {cause : ε} (failed : (first ++ second).mapM f = .error cause)
    (next : List β → List β → Except ε γ) :
    (first.mapM f >>= fun results => second.mapM f >>= next results) = .error cause := by
  rw [List.mapM_append] at failed
  cases before : first.mapM f with
  | error other =>
    rw [before] at failed
    obtain rfl := Except.error.inj failed
    rfl
  | ok results =>
    rw [before] at failed
    cases after : second.mapM f with
    | error other =>
      rw [after] at failed
      obtain rfl := Except.error.inj failed
      rfl
    | ok rest =>
      rw [after] at failed
      cases failed

/-- A reading that gives something succeeds. -/
theorem exists_of_isSome {outcome : Except ε α} (given : outcome.toOption.isSome) :
    ∃ value, outcome = .ok value := by
  cases outcome with
  | error => cases given
  | ok value => exact ⟨value, rfl⟩

/-- What is known of the value of a reading settles that it succeeds. -/
theorem exists_of_toOption_map {outcome : Except ε α} {f : α → β} {result : β}
    (given : outcome.toOption.map f = some result) :
    ∃ value, outcome = .ok value ∧ f value = result := by
  cases outcome with
  | error => cases given
  | ok value => exact ⟨value, rfl, Option.some.inj given⟩

end ConicForm.Outcome
