import Mathlib.Tactic.Common

/-!
Runs of a transition system, given by a relation from a state and an action to the
next state. A run is written as its moves, each the action taken and the state it
led to. An invariant that every step meeting a condition keeps holds along every run
whose steps all meet it (`always_of_kept`); when every other step breaks the property
at once, the condition is also necessary (`always_iff_each`).
-/
namespace SimpOS.Runs
universe u v
variable {State : Type u} {Action : Type v}

/-- The moves follow the step relation from the given state on. -/
def Run (step : State → Action → State → Prop) : State → List (Action × State) → Prop
  | _, [] => True
  | s, (a, t) :: rest => step s a t ∧ Run step t rest
/-- Every step's action meets the condition in the state it is taken in. -/
def Each (condition : State → Action → Prop) : State → List (Action × State) → Prop
  | _, [] => True
  | s, (a, t) :: rest => condition s a ∧ Each condition t rest
/-- The property holds in the first state and after every move. -/
def Always (property : State → Prop) : State → List (Action × State) → Prop
  | s, [] => property s
  | s, (_, t) :: rest => property s ∧ Always property t rest
/-- The state a run ends in. -/
def final : State → List (Action × State) → State
  | s, [] => s
  | _, (_, t) :: rest => final t rest

variable {step : State → Action → State → Prop} {condition : State → Action → Prop}
  {property invariant : State → Prop}

theorem Always.head {s : State} {moves : List (Action × State)} (always : Always property s moves) :
    property s := by
  cases moves with
  | nil => exact always
  | cons move rest => exact always.1
theorem Always.final {s : State} {moves : List (Action × State)} (always : Always property s moves) :
    property (final s moves) := by
  induction moves generalizing s with
  | nil => exact always
  | cons move rest ih => exact ih always.2
theorem Always.mono {s : State} {moves : List (Action × State)} (always : Always invariant s moves)
    (sub : ∀ t, invariant t → property t) : Always property s moves := by
  induction moves generalizing s with
  | nil => exact sub s always
  | cons move rest ih => exact ⟨sub s always.1, ih always.2⟩

theorem each_true {s : State} {moves : List (Action × State)} : Each (fun _ _ => True) s moves := by
  induction moves generalizing s with
  | nil => trivial
  | cons move rest ih => exact ⟨trivial,ih⟩

theorem run_with_each {s : State} {moves : List (Action × State)} (run : Run step s moves) (each : Each condition s moves) :
    Run (fun s a t => step s a t ∧ condition s a) s moves := by
  induction moves generalizing s with
  | nil => trivial
  | cons move rest ih => exact ⟨⟨run.1,each.1⟩,ih run.2 each.2⟩

theorem run_append {s : State} {first second : List (Action × State)} :
    Run step s (first ++ second) ↔ Run step s first ∧ Run step (final s first) second := by
  induction first generalizing s with
  | nil => exact ⟨fun run => ⟨trivial,run⟩,And.right⟩
  | cons move rest ih =>
    constructor
    · rintro ⟨step,run⟩
      exact ⟨⟨step,(ih.mp run).1⟩,(ih.mp run).2⟩
    · rintro ⟨⟨step,run⟩,after⟩
      exact ⟨step,ih.mpr ⟨run,after⟩⟩
theorem final_append {s : State} {first second : List (Action × State)} :
    final s (first ++ second) = final (final s first) second := by
  induction first generalizing s with
  | nil => rfl
  | cons move rest ih => exact ih
theorem run_earlier {s : State} {before moves : List (Action × State)} (run : Run step s moves)
    (initial : before <+: moves) : Run step s before := by
  obtain ⟨rest,rfl⟩ := initial
  exact (run_append.mp run).1

/-- An invariant kept by every step that meets the condition holds along every run
    whose steps all meet it. -/
theorem always_of_kept
    (kept : ∀ s a t, invariant s → step s a t → condition s a → invariant t)
    {s : State} {moves : List (Action × State)} (start : invariant s) (run : Run step s moves)
    (each : Each condition s moves) : Always invariant s moves := by
  induction moves generalizing s with
  | nil => exact start
  | cons move rest ih => exact ⟨start, ih (kept s move.1 move.2 start run.1 each.1) run.2 each.2⟩

/-- What the steps from states with the invariant do, every step of such a run does. -/
theorem run_of_kept {related : State → Action → State → Prop}
    (kept : ∀ s a t, invariant s → step s a t → condition s a → invariant t)
    (does : ∀ s a t, invariant s → step s a t → condition s a → related s a t)
    {s : State} {moves : List (Action × State)} (start : invariant s) (run : Run step s moves)
    (each : Each condition s moves) : Run related s moves := by
  induction moves generalizing s with
  | nil => trivial
  | cons move rest ih =>
    exact ⟨does s move.1 move.2 start run.1 each.1, ih (kept s move.1 move.2 start run.1 each.1) run.2 each.2⟩

/-- Where a step that misses the condition ends in a state without the property, the
    condition at every step is exactly what the property along the run needs. -/
theorem always_iff_each (invariant : State → Prop)
    (kept : ∀ s a t, invariant s → step s a t → condition s a → invariant t)
    (sub : ∀ s, invariant s → property s)
    (broken : ∀ s a t, invariant s → step s a t → property t → condition s a)
    {s : State} {moves : List (Action × State)} (start : invariant s) (run : Run step s moves) :
    Always property s moves ↔ Each condition s moves := by
  constructor
  · intro always
    induction moves generalizing s with
    | nil => trivial
    | cons move rest ih =>
      have met : condition s move.1 := broken s move.1 move.2 start run.1 always.2.head
      exact ⟨met, ih (kept s move.1 move.2 start run.1 met) run.2 always.2⟩
  · intro each
    exact (always_of_kept kept start run each).mono sub

/-- Where a step does what it should exactly if it meets the condition, so does a run. -/
theorem run_iff_each {related : State → Action → State → Prop} (invariant : State → Prop)
    (kept : ∀ s a t, invariant s → step s a t → invariant t)
    (does : ∀ s a t, invariant s → step s a t → (related s a t ↔ condition s a))
    {s : State} {moves : List (Action × State)} (start : invariant s) (run : Run step s moves) :
    Run related s moves ↔ Each condition s moves := by
  induction moves generalizing s with
  | nil => exact Iff.rfl
  | cons move rest ih =>
    exact and_congr (does s move.1 move.2 start run.1) (ih (kept s move.1 move.2 start run.1) run.2)

end SimpOS.Runs
