import ConicForm.ConicProblem
import ConicForm.Proofs.Arrangement
import ConicForm.Proofs.ConeReading
import ConicForm.Proofs.MatrixReading

/-! Which class of fault a step can fail with. As long as what is given is of the right type, each
step of loading a conic problem fails with one class only. -/
namespace ConicForm

/-- The classes of faults that are explained by a message about the problem. -/
inductive Refusal where
  | length
  | constraint
  | cone
  | index
deriving DecidableEq

def Fault.refusal? : Fault → Option Refusal
  | .length _ => some .length
  | .constraint _ => some .constraint
  | .cone _ => some .cone
  | .index _ => some .index
  | _ => none

namespace Outcome

variable {α : Type u} {β : Type u} {refusal : Refusal}

/-- A step fails with a fault of a class. -/
def Refused (refusal : Refusal) (outcome : Except Fault α) : Prop :=
  ∃ fault, outcome = .error fault ∧ fault.refusal? = some refusal

/-- If a step fails, then with a fault of a class. -/
def OnlyRefused (refusal : Refusal) (outcome : Except Fault α) : Prop :=
  ∀ fault, outcome = .error fault → fault.refusal? = some refusal

theorem OnlyRefused.refused {outcome : Except Fault α} (only : OnlyRefused refusal outcome)
    (fails : ∀ value, outcome ≠ .ok value) : Refused refusal outcome := by
  cases same : outcome with
  | error fault => exact ⟨fault, rfl, only fault same⟩
  | ok value => exact absurd same (fails value)

theorem Refused.bind {first : Except Fault α} (refused : Refused refusal first)
    (next : α → Except Fault β) : Refused refusal (first >>= next) := by
  obtain ⟨fault, rfl, same⟩ := refused
  exact ⟨fault, rfl, same⟩

theorem onlyRefused_ok (value : α) : OnlyRefused refusal (.ok value : Except Fault α) := by
  intro fault failed
  cases failed

theorem onlyRefused_error {fault : Fault} (same : fault.refusal? = some refusal) :
    OnlyRefused refusal (.error fault : Except Fault α) := by
  rintro _ ⟨⟩
  exact same

theorem OnlyRefused.bind {first : Except Fault α} {next : α → Except Fault β}
    (only : OnlyRefused refusal first)
    (later : ∀ value, first = .ok value → OnlyRefused refusal (next value)) :
    OnlyRefused refusal (first >>= next) := by
  cases same : first with
  | error fault =>
    rintro _ ⟨⟩
    exact only fault same
  | ok value => exact later value same

theorem OnlyRefused.map {first : Except Fault α} (only : OnlyRefused refusal first) (f : α → β) :
    OnlyRefused refusal (first.map f) := by
  cases same : first with
  | error fault =>
    rintro _ ⟨⟩
    exact only fault same
  | ok value => exact onlyRefused_ok _

theorem OnlyRefused.mapM {f : α → Except Fault β} {items : List α}
    (each : ∀ item ∈ items, OnlyRefused refusal (f item)) :
    OnlyRefused refusal (items.mapM f) := by
  induction items with
  | nil => exact onlyRefused_ok _
  | cons item items ih =>
    rw [List.mapM_cons]
    have later := ih fun other member => each other (List.mem_cons_of_mem _ member)
    exact (each item List.mem_cons_self).bind fun _ _ => later.bind fun _ _ => onlyRefused_ok _

/-- A step fails because a value is too large to be taken in, or memory is. -/
def Unread (outcome : Except Fault α) : Prop :=
  ∃ cause, outcome = .error (.data cause) ∧ (cause = .malformed ∨ cause = .outOfMemory)

theorem Unread.bind {first : Except Fault α} (unread : Unread first)
    (next : α → Except Fault β) : Unread (first >>= next) := by
  obtain ⟨cause, rfl, known⟩ := unread
  exact ⟨cause, rfl, known⟩

theorem Unread.not_refused {outcome : Except Fault α} (unread : Unread outcome) :
    ¬Refused refusal outcome := by
  obtain ⟨cause, rfl, _⟩ := unread
  rintro ⟨_, ⟨⟩, same⟩
  cases same

/-- A step fails because a list would be too long to be made, or for memory. -/
def Short (outcome : Except Fault α) : Prop :=
  ∃ cause, outcome = .error (.data cause) ∧ (cause = .tooLarge ∨ cause = .outOfMemory)

theorem Short.bind {first : Except Fault α} (short : Short first) (next : α → Except Fault β) :
    Short (first.bind next) := by
  obtain ⟨cause, rfl, own⟩ := short
  exact ⟨cause, rfl, own⟩

theorem Short.map {first : Except Fault α} (short : Short first) (f : α → β) :
    Short (first.map f) := by
  obtain ⟨cause, rfl, own⟩ := short
  exact ⟨cause, rfl, own⟩

/-- A verdict is right about a step: it names the class of the fault, or there is none. -/
def Decides (verdict : Option Refusal) (outcome : Except Fault α) : Prop :=
  match verdict with
  | some refusal => Refused refusal outcome
  | none => ∃ value, outcome = .ok value

/-- A step that can fail with one class only is decided by what it accepts. -/
theorem OnlyRefused.decides {outcome : Except Fault α} {good : Prop} [Decidable good]
    (only : OnlyRefused refusal outcome) (accepts : (∃ value, outcome = .ok value) ↔ good) :
    Decides (if ¬good then some refusal else none) outcome := by
  by_cases holds : good
  · rw [if_neg (not_not.2 holds)]
    exact accepts.2 holds
  · rw [if_pos holds]
    exact only.refused fun value given => holds (accepts.1 ⟨value, given⟩)

/-- Where a verdict is right about the first step, one about what follows completes it. -/
theorem Decides.or {first : Except Fault α} {next : α → Except Fault β}
    {early later : Option Refusal} (decided : Decides early first)
    (decides : ∀ value, first = .ok value → Decides later (next value)) :
    Decides (early.or later) (first >>= next) := by
  cases early with
  | some refusal => exact Refused.bind decided next
  | none =>
    obtain ⟨value, rfl⟩ := decided
    exact decides value rfl

/-- The first step decides if it can fail with one class only; otherwise the verdict is that of what
follows. -/
theorem Decides.bind {first : Except Fault α} {next : α → Except Fault β} {good : Prop}
    [Decidable good] {later : Option Refusal} (only : OnlyRefused refusal first)
    (accepts : (∃ value, first = .ok value) ↔ good)
    (decides : ∀ value, first = .ok value → Decides later (next value)) :
    Decides (if ¬good then some refusal else later) (first >>= next) := by
  have decided := (only.decides accepts).or decides
  rwa [apply_ite (Option.or · later), Option.some_or, Option.none_or] at decided

end Outcome

open Outcome (OnlyRefused)

/-- A fault whose message can be written is raised as it is. -/
theorem Outcome.onlyRefused_raised {α : Type u} {refusal : Refusal} {fault : Fault}
    (writable : fault.isWritable) (same : fault.refusal? = some refusal) :
    OnlyRefused refusal (.error fault.raised : Except Fault α) := by
  rw [Fault.raised_eq writable]
  exact onlyRefused_error same

theorem Datum.isWritable_integer {n : ℤ} : (integer n).isWritable ↔ Capacity.Writable n := by
  simp [isWritable]

theorem Datum.onlyRefused_toIndex {d : Datum} (writable : d.isWritable) :
    OnlyRefused .index d.toIndex := by
  unfold Datum.toIndex
  split
  · exact Outcome.onlyRefused_ok _
  · exact Outcome.onlyRefused_raised writable rfl

namespace VariableOrder

theorem onlyRefused_assign (owner : Indexed) (count : ℕ) (seen : List ℕ) {indices : List ℤ}
    (writable : ∀ index ∈ indices, Capacity.Writable index) :
    OnlyRefused .index (assign owner count seen indices) := by
  induction indices generalizing seen with
  | nil => exact Outcome.onlyRefused_ok _
  | cons index indices ih =>
    obtain ⟨own, others⟩ := List.forall_mem_cons.1 writable
    unfold assign
    by_cases inside : 0 ≤ index ∧ index < (count : ℤ)
    · rw [if_pos inside]
      by_cases repeated : index.toNat ∈ seen
      · rw [if_pos repeated]
        exact Outcome.onlyRefused_error rfl
      · rw [if_neg repeated]
        exact ih _ others
    · rw [if_neg inside]
      exact Outcome.onlyRefused_raised (Datum.isWritable_integer.2 own) rfl

/-- An index outside that has too many digits cannot be reported. -/
theorem assign_overlong {owner : Indexed} {count : ℕ} {seen : List ℕ} {index : ℤ}
    {indices : List ℤ} (outside : ¬(0 ≤ index ∧ index < (count : ℤ)))
    (overlong : ¬Capacity.Writable index) :
    assign owner count seen (index :: indices) = .error (.data .malformed) := by
  rw [assign, if_neg outside]
  exact congrArg Except.error
    (Fault.raised_eq_malformed fun written => overlong (Datum.isWritable_integer.1 written))

/-- All indices of some entries can be written. -/
def WritableIndices (entries : List ConeEntry) : Prop :=
  ∀ index ∈ listed entries, Capacity.Writable index

theorem onlyRefused_assignAll {entries : List ConeEntry}
    (segments : ∀ entry ∈ entries, hasSegment entry.1) (writable : WritableIndices entries)
    (count : ℕ) (seen : List ℕ) : OnlyRefused .index (assignAll count seen entries) := by
  induction entries generalizing seen with
  | nil => exact Outcome.onlyRefused_ok _
  | cons entry entries ih =>
    obtain ⟨own, others⟩ := List.forall_mem_append.1 writable
    have later (seen : List ℕ) := ih (fun other member =>
      segments other (List.mem_cons_of_mem _ member)) others seen
    refine (onlyRefused_assign .vars count seen own).bind fun seen _ => ?_
    rw [if_pos (segments entry List.mem_cons_self)]
    exact later seen

/-- Of kinds that have segments, only the indices can be refused. -/
theorem onlyRefused_arrange {entries : List ConeEntry}
    (segments : ∀ entry ∈ entries, hasSegment entry.1) (writable : WritableIndices entries)
    (count : ℕ) : OnlyRefused .index (arrange entries count) := by
  refine (onlyRefused_assignAll segments writable count []).bind fun seen _ => ?_
  unfold complete
  split
  · exact Outcome.onlyRefused_ok _
  · exact Outcome.onlyRefused_error rfl

end VariableOrder
end ConicForm
