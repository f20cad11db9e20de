import Mathlib.Data.List.Rotate
import SimpOS.TaskList

/-!
The turns of the tasks. Behind the last task of the list `task_get_next` comes to the head again, so
that as many switches as there are tasks give every task one turn.
-/
namespace SimpOS.RoundRobin
open SimpOS.LinkedLists SimpOS.Runs SimpOS.TaskList

/-! ### Going around a list -/

section
universe u
variable {α : Type u} {after : α → α} {l : List α}

/-- The nodes that n steps from a node come to. -/
def turns (after : α → α) : Nat → α → List α
  | 0, _ => []
  | n + 1, t => after t :: turns after n (after t)

theorem turns_length (after : α → α) (n : Nat) : ∀ t, (turns after n t).length = n := by
  induction n with
  | zero => exact fun t => rfl
  | succ n ih => exact fun t => congrArg (· + 1) (ih _)

/-- Every node of the list is followed by the one after it, and the last by the first. -/
def Around (after : α → α) (l : List α) : Prop :=
  ∀ (i : Nat) (inside : i < l.length) (next : (i + 1) % l.length < l.length), after l[i] = l[(i + 1) % l.length]

theorem turns_getElem (around : Around after l) (n : Nat) : ∀ {i j : Nat} (inside : i < l.length)
    (within : j < (turns after n l[i]).length) (place : (j + (i + 1)) % l.length < l.length),
    (turns after n l[i])[j] = l[(j + (i + 1)) % l.length] := by
  induction n with
  | zero => exact fun inside within => absurd within (Nat.not_lt_zero _)
  | succ n ih =>
    intro i j inside within place
    have positive : 0 < l.length := by omega
    have next := around i inside (Nat.mod_lt _ positive)
    cases j with
    | zero =>
      simp only [turns,List.getElem_cons_zero,next,Nat.zero_add]
    | succ j =>
      simp only [turns,List.getElem_cons_succ,next]
      have position : (j + ((i + 1) % l.length + 1)) % l.length = (j + 1 + (i + 1)) % l.length := by
        rw [show j + ((i + 1) % l.length + 1) = j + 1 + (i + 1) % l.length by omega,Nat.add_mod_mod]
      rw [ih (Nat.mod_lt _ positive) (by rw [turns_length] at within ⊢; omega) (Nat.mod_lt _ positive)]
      simp only [position]

/-- A whole round comes to every node of the list, in its order. -/
theorem turns_round (around : Around after l) {i : Nat} (inside : i < l.length) :
    turns after l.length l[i] = l.rotate (i + 1) := by
  refine List.ext_getElem (by rw [turns_length,List.length_rotate]) fun j within within' => ?_
  rw [List.getElem_rotate,turns_getElem around _ inside within]

end

/-! ### The tasks -/

inductive Move
  | new (task : Nat)
  | next

/-- A task is created in memory no live task occupies, or the scheduler goes on to the next one. -/
def Follows (s : TaskState) : Move → TaskState → Prop
  | .new task, t => Step s (.new task) t
  | .next, t => s.tasks.current_task ≠ 0 ∧ t = ⟨task_switch s.tasks (task_get_next s.tasks),s.live⟩

/-- The tasks that were created, in order. -/
def created : List (Move × TaskState) → List Nat
  | [] => []
  | (.new task, _) :: moves => task :: created moves
  | (.next, _) :: moves => created moves

/-- The current tasks after each of n switches to the next one. -/
def visited : Nat → Tasks → List Nat
  | 0, _ => []
  | n + 1, s => task_get_next s :: visited n (task_switch s (task_get_next s))
/-- The tasks' state after n switches. -/
def switched : Nat → Tasks → Tasks
  | 0, s => s
  | n + 1, s => switched n (task_switch s (task_get_next s))

/-- From the current task on, as many switches as there are tasks give each of them one turn, and the
    last one to the task they started from. -/
structure RoundCovers (s : Tasks) (tasks : List Nat) : Prop where
  each : (visited tasks.length s).Perm tasks
  returns : (switched tasks.length s).current_task = s.current_task

/-- The task behind a task. -/
def after (s : Tasks) (t : Nat) : Nat := if (s.task t).next = 0 then s.task_head else (s.task t).next

theorem visited_turns (n : Nat) : ∀ s, visited n s = turns (after s) n s.current_task := by
  induction n with
  | zero => exact fun s => rfl
  | succ n ih => exact fun s => congrArg (task_get_next s :: ·) (ih (task_switch s (task_get_next s)))

theorem switched_current (n : Nat) : ∀ s, (switched n s).current_task = ((visited n s).getLast?).getD s.current_task := by
  induction n with
  | zero => exact fun s => rfl
  | succ n ih =>
    intro s
    have rest := ih (task_switch s (task_get_next s))
    rw [switched,visited,rest,List.getLast?_cons]
    rfl

section
variable {s t : TaskState}

/-- The task behind a live one is the one after it in the list. -/
theorem live_around (inv : Invariant s) : Around (after s.tasks) s.live := by
  intro i inside place
  have split : s.live = s.live.take i ++ s.live[i] :: s.live.drop (i + 1) := by
    rw [List.cons_getElem_drop_succ,List.take_append_drop]
  have segment := inv.segment
  rw [split] at segment
  have next : (s.tasks.task s.live[i]).next = (s.live.drop (i + 1)).headD 0 := segment.next_eq
  unfold after
  rw [next]
  by_cases last : i + 1 < s.live.length
  · have head : (s.live.drop (i + 1)).headD 0 = s.live[i + 1] := by
      rw [← List.cons_getElem_drop_succ,List.headD_cons]
    have nonnull : s.live[i + 1] ≠ 0 := fun null => inv.nonnull (null ▸ List.getElem_mem _)
    rw [head,if_neg nonnull]
    simp only [Nat.mod_eq_of_lt last]
  · have full : i + 1 = s.live.length := by omega
    rw [List.drop_eq_nil_of_le (by omega),List.headD_nil,if_pos rfl,inv.head]
    simp only [full,Nat.mod_self]
    rw [List.headD_eq_head?_getD,List.head?_eq_getElem?,List.getElem?_eq_getElem (by omega),Option.getD_some]

/-- The current task is a live one as soon as there is one. -/
structure Turning (s : TaskState) : Prop extends Invariant s where
  running : s.live ≠ [] → s.tasks.current_task ≠ 0

theorem Turning.current_live (turning : Turning s) (some : s.live ≠ []) : s.tasks.current_task ∈ s.live :=
  turning.current.resolve_left (turning.running some)

private theorem Turning.new {task : Nat} (turning : Turning s) (step : Step s (.new task) t) : Turning t := by
  refine ⟨invariant_new turning.toInvariant step,fun _ => ?_⟩
  obtain ⟨nonzero,_,rfl⟩ := step
  have head := turning.head
  dsimp only
  unfold task_new
  dsimp only
  by_cases empty : s.tasks.task_head = 0
  · rw [if_pos empty]
    exact nonzero
  · rw [if_neg empty]
    refine turning.running fun none => empty ?_
    rw [head,none]
    rfl

private theorem Turning.next (turning : Turning s) (some : s.tasks.current_task ≠ 0) :
    Turning ⟨task_switch s.tasks (task_get_next s.tasks),s.live⟩ := by
  have member : s.tasks.current_task ∈ s.live := turning.current.resolve_left some
  obtain ⟨i,inside,here⟩ := List.getElem_of_mem member
  have next := live_around turning.toInvariant i inside (Nat.mod_lt _ (by omega))
  have live : task_get_next s.tasks ∈ s.live := by
    have goes : task_get_next s.tasks = after s.tasks s.tasks.current_task := rfl
    rw [goes,← here,next]
    exact List.getElem_mem _
  exact ⟨invariant_switch turning.toInvariant ⟨live,rfl⟩,fun _ null => turning.nonnull (null ▸ live)⟩

theorem Turning.round (turning : Turning s) (member : s.tasks.current_task ∈ s.live) : RoundCovers s.tasks s.live := by
  obtain ⟨i,inside,here⟩ := List.getElem_of_mem member
  have round : visited s.live.length s.tasks = s.live.rotate (i + 1) := by
    rw [visited_turns,← here]
    exact turns_round (live_around turning.toInvariant) inside
  refine ⟨by rw [round]; exact List.rotate_perm ..,?_⟩
  have last : (s.live.length - 1 + (i + 1)) % s.live.length = i := by
    rw [show s.live.length - 1 + (i + 1) = s.live.length + i by omega,Nat.add_mod_left,Nat.mod_eq_of_lt inside]
  rw [switched_current,round,List.getLast?_eq_getElem?,List.length_rotate,List.getElem?_rotate (by omega),last,
    List.getElem?_eq_getElem inside,Option.getD_some,here]

end

private theorem final_live (moves : List (Move × TaskState)) : ∀ {s : TaskState}, Run Follows s moves →
    (final s moves).live = s.live ++ created moves := by
  induction moves with
  | nil => exact fun _ => (List.append_nil _).symm
  | cons move rest ih =>
    intro s run
    obtain ⟨move,t⟩ := move
    obtain ⟨follows,run⟩ := run
    rw [final,ih run]
    cases move with
    | new task =>
      obtain ⟨_,_,rfl⟩ := follows
      exact List.append_assoc ..
    | next =>
      obtain ⟨_,rfl⟩ := follows
      rfl

private theorem turning_along {moves : List (Move × TaskState)} {task : Nat → Task}
    (run : Run Follows ⟨⟨task,0,0,0⟩,[]⟩ moves) : Turning (final ⟨⟨task,0,0,0⟩,[]⟩ moves) := by
  have kept : ∀ (s : TaskState) (move : Move) (t : TaskState), Turning s → Follows s move t → True → Turning t := by
    intro s move t turning follows _
    cases move with
    | new task => exact turning.new follows
    | next =>
      obtain ⟨some,rfl⟩ := follows
      exact turning.next some
  have start : Turning ⟨⟨task,0,0,0⟩,[]⟩ :=
    ⟨⟨List.nodup_nil,List.not_mem_nil,trivial,rfl,rfl,.inl rfl⟩,fun some => absurd rfl some⟩
  exact (always_of_kept kept start run each_true).final

/-- After any run that creates tasks and switches between them, the tasks are all different, one of them is
    current, and from whichever is, a round gives every task one turn. -/
theorem round_robin {moves : List (Move × TaskState)} {task : Nat → Task} (run : Run Follows ⟨⟨task,0,0,0⟩,[]⟩ moves) :
    (created moves).Nodup ∧
    (created moves ≠ [] → (final ⟨⟨task,0,0,0⟩,[]⟩ moves).tasks.current_task ∈ created moves) ∧
    ∀ current ∈ created moves,
      RoundCovers (task_switch (final ⟨⟨task,0,0,0⟩,[]⟩ moves).tasks current) (created moves) := by
  have turning := turning_along run
  have live := final_live moves run
  rw [List.nil_append] at live
  generalize final ⟨⟨task,0,0,0⟩,[]⟩ moves = s at turning live
  rw [← live]
  refine ⟨turning.nodup,turning.current_live,fun current member => ?_⟩
  have chosen : Turning ⟨task_switch s.tasks current,s.live⟩ :=
    ⟨invariant_switch turning.toInvariant ⟨member,rfl⟩,fun _ null => turning.nonnull (null ▸ member)⟩
  exact chosen.round member

/-- Two tasks and a switch between them. -/
theorem round_robin_two : ∃ moves : List (Move × TaskState),
    moves.map Prod.fst = [.new 0x01000000,.next,.new 0x01800000,.next] ∧ created moves = [0x01000000,0x01800000] ∧
    Run Follows ⟨⟨fun _ => ⟨0,0⟩,0,0,0⟩,[]⟩ moves ∧
    RoundCovers (task_switch (final ⟨⟨fun _ => ⟨0,0⟩,0,0,0⟩,[]⟩ moves).tasks 0x01800000) [0x01000000,0x01800000] := by
  have run : Run Follows ⟨⟨fun _ => ⟨0,0⟩,0,0,0⟩,[]⟩ [(.new 0x01000000,⟨_,_⟩),(.next,⟨_,_⟩),(.new 0x01800000,⟨_,_⟩),
      (.next,⟨_,_⟩)] := ⟨⟨by decide,by decide,rfl⟩,⟨by decide,rfl⟩,⟨by decide,by decide,rfl⟩,⟨by decide,rfl⟩,trivial⟩
  exact ⟨_,rfl,rfl,run,(round_robin run).2.2 0x01800000 (by decide)⟩

end SimpOS.RoundRobin
