import Mathlib.Tactic

/-!
Runs of a machine given by a total step function. `run` is the state after a
list of events, and `Along C` says that the condition `C` holds of every event
together with the state that the event finds. The rules below carry an
invariant along a run and turn a fact about one step into one about all steps.
-/
namespace UBoot.Runs
universe u v

section
variable {State : Type u} {Event : Type v} (step : State → Event → State)

def run (s : State) (events : List Event) : State := events.foldl step s

/-- Every event of the list finds a state in which `C` holds of it. -/
def Along (C : State → Event → Prop) : State → List Event → Prop
  | _, [] => True
  | s, e :: rest => C s e ∧ Along C (step s e) rest

/-- Conditions that can be decided on a step can be decided along a run. -/
def decideAlong {C : State → Event → Prop} (decide_step : ∀ s e, Decidable (C s e)) :
    ∀ (s : State) (events : List Event), Decidable (Along step C s events)
  | _, [] => .isTrue trivial
  | s, e :: rest => @instDecidableAnd _ _ (decide_step s e) (decideAlong decide_step (step s e) rest)

instance {C : State → Event → Prop} [decide_step : ∀ s e, Decidable (C s e)] (s : State) (events : List Event) :
    Decidable (Along step C s events) := decideAlong step decide_step s events

@[simp] theorem run_nil (s : State) : run step s [] = s := rfl
@[simp] theorem run_cons (s : State) (e : Event) (rest : List Event) :
    run step s (e :: rest) = run step (step s e) rest := rfl
theorem run_append (s : State) (first second : List Event) :
    run step s (first ++ second) = run step (run step s first) second :=
  List.foldl_append

variable {step}

theorem along_append {C : State → Event → Prop} {s : State} {first second : List Event} :
    Along step C s (first ++ second) ↔ Along step C s first ∧ Along step C (run step s first) second := by
  induction first generalizing s with
  | nil => simp [Along]
  | cons e rest ih => simp [Along,ih,and_assoc]

theorem along_and {A B : State → Event → Prop} {s : State} {events : List Event} :
    Along step (fun s e => A s e ∧ B s e) s events ↔ Along step A s events ∧ Along step B s events := by
  induction events generalizing s with
  | nil => simp [Along]
  | cons e rest ih => simp only [Along,ih]; tauto

/-- A condition that holds in every state holds along every run. -/
theorem along_of_forall {C : State → Event → Prop} (all : ∀ s e, C s e) :
    ∀ (s : State) (events : List Event), Along step C s events
  | _, [] => trivial
  | s, e :: rest => ⟨all s e,along_of_forall all (step s e) rest⟩

/-- A condition on the events alone. -/
theorem along_of_mem {C : State → Event → Prop} {s : State} {events : List Event} (all : ∀ e ∈ events, ∀ s, C s e) :
    Along step C s events := by
  induction events generalizing s with
  | nil => trivial
  | cons e rest ih => exact ⟨all e List.mem_cons_self s,ih fun e' later => all e' (List.mem_cons_of_mem _ later)⟩

variable {Inv : State → Prop} {C P : State → Event → Prop}

/-- What one step keeps, a run keeps. -/
theorem invariant (keeps : ∀ s e, Inv s → C s e → Inv (step s e)) {s : State} {events : List Event}
    (start : Inv s) (along : Along step C s events) : Inv (run step s events) := by
  induction events generalizing s with
  | nil => exact start
  | cons e rest ih => exact ih (keeps s e start along.1) along.2

/-- A property of single steps that follows from the invariant and the
    condition holds along the run. -/
theorem along_of_invariant (keeps : ∀ s e, Inv s → C s e → Inv (step s e))
    (gives : ∀ s e, Inv s → C s e → P s e) {s : State} {events : List Event}
    (start : Inv s) (along : Along step C s events) : Along step P s events := by
  induction events generalizing s with
  | nil => trivial
  | cons e rest ih => exact ⟨gives s e start along.1,ih (keeps s e start along.1) along.2⟩

/-- What relates two machines step by step relates their runs. -/
theorem simulation {State' : Type*} {step' : State' → Event → State'} {R : State → State' → Prop}
    (keeps : ∀ s t e, R s t → C s e → R (step s e) (step' t e)) {s : State} {t : State'} {events : List Event}
    (start : R s t) (along : Along step C s events) : R (run step s events) (run step' t events) := by
  induction events generalizing s t with
  | nil => exact start
  | cons e rest ih => exact ih (keeps s t e start along.1) along.2

/-- Where the invariant makes the property of a step equivalent to the
    condition, a run has the property throughout exactly when it meets the
    condition throughout. -/
theorem along_iff (keeps : ∀ s e, Inv s → C s e → Inv (step s e))
    (same : ∀ s e, Inv s → (P s e ↔ C s e)) {s : State} {events : List Event} (start : Inv s) :
    Along step P s events ↔ Along step C s events := by
  induction events generalizing s with
  | nil => exact Iff.rfl
  | cons e rest ih =>
    simp only [Along,same s e start]
    exact and_congr_right (fun holds => ih (keeps s e start holds))

end
end UBoot.Runs
