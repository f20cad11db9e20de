import SimpOS.LinkedLists
import SimpOS.Runs

/-!
The task list of `task/task.c`: tasks by address, with null 0, and the pointers
`task_head`, `task_tail` and `current_task`. Creating a task appends it; freeing one
repairs the `next` of the task before it but never the `prev` of the task after it.
-/
namespace SimpOS.TaskList
open SimpOS.LinkedLists SimpOS.Runs

/-- The links of `struct task`. -/
structure Task where
  next : Nat
  prev : Nat
deriving DecidableEq, Repr

/-- The memory of the tasks and the list's own variables. -/
structure Tasks where
  task : Nat → Task
  task_head : Nat
  task_tail : Nat
  current_task : Nat

/-- The stores `t->next = v` and `t->prev = v`. -/
def Tasks.setNext (s : Tasks) (t v : Nat) : Tasks := { s with task := Function.update s.task t ⟨v, (s.task t).prev⟩ }
def Tasks.setPrev (s : Tasks) (t v : Nat) : Tasks := { s with task := Function.update s.task t ⟨(s.task t).next, v⟩ }

def task_get_next (s : Tasks) : Nat :=
  if (s.task s.current_task).next = 0 then s.task_head
  else (s.task s.current_task).next

def task_list_remove (s : Tasks) (task : Nat) : Tasks :=
  let s := if (s.task task).prev ≠ 0 then s.setNext (s.task task).prev (s.task task).next else s
  let s := if task = s.task_head then { s with task_head := (s.task task).next } else s
  let s := if task = s.task_tail then { s with task_tail := (s.task task).prev } else s
  if task = s.current_task then { s with current_task := task_get_next s } else s

/-- The list after `task_free`; the page directory and the task itself go back to the heap. -/
def task_free (s : Tasks) (task : Nat) : Tasks := task_list_remove s task

/-- The list after a `task_new` that succeeds with the zeroed block `kzalloc` returned. -/
def task_new (s : Tasks) (task : Nat) : Tasks :=
  let s := { s with task := Function.update s.task task ⟨0, 0⟩ }
  if s.task_head = 0 then { s with task_head := task, task_tail := task, current_task := task }
  else
    let s := s.setNext s.task_tail task
    let s := s.setPrev task s.task_tail
    { s with task_tail := task }

def task_switch (s : Tasks) (task : Nat) : Tasks := { s with current_task := task }

section
variable (s : Tasks) (t v x : Nat)

@[simp] theorem setNext_next : ((s.setNext t v).task x).next = if x = t then v else (s.task x).next := by
  by_cases same : x = t <;> simp [Tasks.setNext,same]
@[simp] theorem setNext_prev : ((s.setNext t v).task x).prev = (s.task x).prev := by
  by_cases same : x = t <;> simp [Tasks.setNext,same]
@[simp] theorem setPrev_next : ((s.setPrev t v).task x).next = (s.task x).next := by
  by_cases same : x = t <;> simp [Tasks.setPrev,same]
@[simp] theorem setPrev_prev : ((s.setPrev t v).task x).prev = if x = t then v else (s.task x).prev := by
  by_cases same : x = t <;> simp [Tasks.setPrev,same]
@[simp] theorem setNext_task_head : (s.setNext t v).task_head = s.task_head := rfl
@[simp] theorem setNext_task_tail : (s.setNext t v).task_tail = s.task_tail := rfl
@[simp] theorem setNext_current_task : (s.setNext t v).current_task = s.current_task := rfl
@[simp] theorem setPrev_task_head : (s.setPrev t v).task_head = s.task_head := rfl
@[simp] theorem setPrev_current_task : (s.setPrev t v).current_task = s.current_task := rfl

/-- The memory a removal leaves: the `next` of the task before is written, and no `prev`. -/
theorem task_list_remove_task : (task_list_remove s t).task =
    (if (s.task t).prev ≠ 0 then s.setNext (s.task t).prev (s.task t).next else s).task := by
  simp only [task_list_remove,apply_ite Tasks.task,ite_self]
theorem task_list_remove_next : ((task_list_remove s t).task x).next =
    if (s.task t).prev ≠ 0 ∧ x = (s.task t).prev then (s.task t).next else (s.task x).next := by
  rw [task_list_remove_task]
  by_cases before : (s.task t).prev = 0 <;> simp [before]
theorem task_list_remove_prev : ((task_list_remove s t).task x).prev = (s.task x).prev := by
  rw [task_list_remove_task]
  by_cases before : (s.task t).prev = 0 <;> simp [before]
private theorem removed_own_next (apart : t ≠ (s.task t).prev) :
    ((if (s.task t).prev ≠ 0 then (s.setNext (s.task t).prev (s.task t).next).task else s.task) t).next =
      (s.task t).next := by
  by_cases before : (s.task t).prev = 0 <;> simp [before,apart]
theorem task_list_remove_head (apart : t ≠ (s.task t).prev) : (task_list_remove s t).task_head =
    if t = s.task_head then (s.task t).next else s.task_head := by
  simp only [task_list_remove,apply_ite Tasks.task_head,apply_ite Tasks.task,setNext_task_head,ite_self,
    removed_own_next s t apart]
theorem task_list_remove_tail : (task_list_remove s t).task_tail =
    if t = s.task_tail then (s.task t).prev else s.task_tail := by
  have own := task_list_remove_prev s t t
  rw [task_list_remove_task] at own
  simp only [task_list_remove,apply_ite Tasks.task_tail,apply_ite Tasks.task,setNext_task_tail,ite_self] at own ⊢
  rw [own]
theorem task_list_remove_current (apart : t ≠ (s.task t).prev) : (task_list_remove s t).current_task =
    if t = s.current_task then
      if (s.task t).next = 0 then (task_list_remove s t).task_head else (s.task t).next
    else s.current_task := by
  simp only [task_list_remove,task_get_next,apply_ite Tasks.current_task,apply_ite Tasks.task,
    apply_ite Tasks.task_head,setNext_current_task,setNext_task_head,ite_self]
  by_cases current : t = s.current_task
  · simp only [← current,if_true,removed_own_next s t apart]
  · simp only [current,if_false]

end

/-- The list with the live tasks in the order they were created. -/
structure TaskState where
  tasks : Tasks
  live : List Nat

inductive TaskCall
  | new (task : Nat)
  | free (task : Nat)
  | switch (task : Nat)

/-- A task is created in memory no live task occupies, a live one is freed, or the
    scheduler makes a live one current. -/
def Step (s : TaskState) : TaskCall → TaskState → Prop
  | .new task, t => task ≠ 0 ∧ task ∉ s.live ∧ t = ⟨task_new s.tasks task,s.live ++ [task]⟩
  | .free task, t => task ∈ s.live ∧ t = ⟨task_free s.tasks task,s.live.erase task⟩
  | .switch task, t => task ∈ s.live ∧ t = ⟨task_switch s.tasks task,s.live⟩

/-- Following `next` from the head visits the live tasks in creation order and ends at the
    tail, `prev` is its inverse, and the current task is null or live. -/
structure ListCorrect (s : TaskState) : Prop where
  visits : Visits (fun t => (s.tasks.task t).next) 0 s.tasks.task_head s.live
  tail : s.tasks.task_tail = s.live.getLastD 0
  first : s.tasks.task_head ≠ 0 → (s.tasks.task s.tasks.task_head).prev = 0
  inverse : ∀ t ∈ s.live, (s.tasks.task t).next ≠ 0 → (s.tasks.task (s.tasks.task t).next).prev = t
  current : s.tasks.current_task = 0 ∨ s.tasks.current_task ∈ s.live

structure Invariant (s : TaskState) : Prop where
  nodup : s.live.Nodup
  nonnull : 0 ∉ s.live
  segment : Segment (fun t => (s.tasks.task t).next) (fun t => (s.tasks.task t).prev) 0 0 s.live
  head : s.tasks.task_head = s.live.headD 0
  tail : s.tasks.task_tail = s.live.getLastD 0
  current : s.tasks.current_task = 0 ∨ s.tasks.current_task ∈ s.live

private theorem Invariant.correct {s : TaskState} (inv : Invariant s) : ListCorrect s := by
  refine ⟨?_,inv.tail,fun nonempty => ?_,inv.segment.inverse,inv.current⟩
  · rw [inv.head]
    exact inv.segment.visits inv.nonnull
  · have segment := inv.segment
    rw [inv.head] at nonempty ⊢
    cases live : s.live with
    | nil => exact absurd (by rw [live]; rfl) nonempty
    | cons head rest =>
      rw [live] at segment
      exact segment.1

theorem invariant_new {s t : TaskState} {task : Nat} (inv : Invariant s) (step : Step s (.new task) t) :
    Invariant t := by
  obtain ⟨nonzero,fresh,rfl⟩ := step
  have nodup : (s.live ++ [task]).Nodup := by
    rw [List.nodup_append]
    refine ⟨inv.nodup,by simp,?_⟩
    rintro x member y single rfl
    exact fresh (List.mem_singleton.mp single ▸ member)
  have nonnull : 0 ∉ s.live ++ [task] := by
    simp only [List.mem_append,List.mem_singleton,not_or]
    exact ⟨inv.nonnull,Ne.symm nonzero⟩
  rcases List.eq_nil_or_concat' s.live with empty | ⟨front,last,live⟩
  · have head : s.tasks.task_head = 0 := by rw [inv.head,empty]; rfl
    have created : task_new s.tasks task = ⟨Function.update s.tasks.task task ⟨0,0⟩,task,task,task⟩ := by
      simp only [task_new,head,if_true]
    refine ⟨nodup,nonnull,?_,?_,?_,.inr ?_⟩
    · simp [created,empty,Segment]
    · simp [created,empty]
    · simp [created,empty]
    · simp [created,empty]
  · have tail : s.tasks.task_tail = last := by rw [inv.tail,live]; simp
    have head : s.tasks.task_head ≠ 0 := by
      have first := inv.head
      rw [live] at first
      have inside : s.tasks.task_head ∈ s.live := by
        rw [first,live]
        cases front <;> simp
      exact fun null => inv.nonnull (null ▸ inside)
    have old : last ∉ front ∧ last ≠ task ∧ task ∉ front := by
      have distinct := inv.nodup
      rw [live] at distinct fresh
      simp only [List.mem_append,List.mem_singleton,not_or] at fresh
      exact ⟨fun member => (List.nodup_append.mp distinct).2.2 last member last (by simp) rfl,Ne.symm fresh.2,fresh.1⟩
    obtain ⟨lastFront,lastTask,taskFront⟩ := old
    have segment := inv.segment
    rw [live,segment_concat] at segment
    obtain ⟨before,lastPrev,_⟩ := segment
    -- the links after the call
    have next : ∀ x, ((task_new s.tasks task).task x).next =
        if x = last then task else if x = task then 0 else (s.tasks.task x).next := by
      intro x
      by_cases same : x = task <;> simp [task_new,head,tail,same]
    have prev : ∀ x, ((task_new s.tasks task).task x).prev =
        if x = task then last else (s.tasks.task x).prev := by
      intro x
      by_cases same : x = task <;> simp [task_new,head,tail,same]
    refine ⟨nodup,nonnull,?_,?_,?_,?_⟩
    · simp only [live,segment_concat,next,prev]
      refine ⟨⟨(segment_congr (fun x member => ?_) (fun x member => ?_)).mpr before,?_,by simp⟩,by simp,by simp [Ne.symm lastTask]⟩
      · have notLast : x ≠ last := fun same => lastFront (same ▸ member)
        have notTask : x ≠ task := fun same => taskFront (same ▸ member)
        simp [notLast,notTask]
      · have notTask : x ≠ task := fun same => taskFront (same ▸ member)
        simp [notTask]
      · simpa [lastTask] using lastPrev
    · have kept : (task_new s.tasks task).task_head = s.tasks.task_head := by simp [task_new,head]
      rw [kept,inv.head,live]
      cases front <;> rfl
    · simp [task_new,head]
    · have kept : (task_new s.tasks task).current_task = s.tasks.current_task := by
        simp [task_new,head]
      rw [kept]
      exact inv.current.imp_right fun member => List.mem_append_left _ member

theorem invariant_free {s t : TaskState} {task : Nat} (inv : Invariant s) (step : Step s (.free task) t)
    (last : task = s.tasks.task_tail) : Invariant t := by
  obtain ⟨member,rfl⟩ := step
  obtain ⟨front,live⟩ : ∃ front, s.live = front ++ [task] := by
    rcases List.eq_nil_or_concat' s.live with empty | ⟨front,x,live⟩
    · rw [empty] at member
      cases member
    · have tail := inv.tail
      rw [live,List.getLastD_concat,← last] at tail
      exact ⟨front,tail ▸ live⟩
  have nodup := inv.nodup
  have nonnull := inv.nonnull
  have segment := inv.segment
  have head := inv.head
  have current := inv.current
  rw [live] at nodup nonnull head current
  rw [live,segment_concat] at segment
  obtain ⟨before,taskPrev,taskNext⟩ := segment
  have outside : task ∉ front := fun inside => (List.nodup_append.mp nodup).2.2 task inside task (by simp) rfl
  have rest : s.live.erase task = front := by
    rw [live,List.erase_append_right _ outside]
    simp
  have zero : task ≠ 0 := fun same => nonnull (by simp [same])
  have next := task_list_remove_next s.tasks task
  have prev := task_list_remove_prev s.tasks task
  have tail := task_list_remove_tail s.tasks task
  rw [if_pos last] at tail
  rw [← task_free] at tail
  rcases List.eq_nil_or_concat' front with rfl | ⟨first,w,rfl⟩
  · have single : (s.tasks.task task).prev = 0 := taskPrev
    have apart : task ≠ (s.tasks.task task).prev := single ▸ zero
    have newHead := task_list_remove_head s.tasks task apart
    have newCurrent := task_list_remove_current s.tasks task apart
    have own : task = s.tasks.task_head := head.symm
    rw [if_pos own,taskNext] at newHead
    rw [newHead,taskNext,if_pos rfl] at newCurrent
    rw [rest]
    refine ⟨List.nodup_nil,List.not_mem_nil,trivial,newHead,tail.trans single,.inl ?_⟩
    rcases current with none | here
    · exact newCurrent.trans (by rw [none,if_neg zero])
    · rw [if_pos (List.mem_singleton.mp here).symm] at newCurrent
      exact newCurrent
  · rw [segment_concat] at before
    obtain ⟨inner,wPrev,_⟩ := before
    have wInside : w ∈ first ++ [w] := by simp
    have single : (s.tasks.task task).prev = w := by rw [taskPrev]; simp
    have wZero : w ≠ 0 := fun same => nonnull (by simp [same])
    have wTask : task ≠ w := fun same => outside (same ▸ wInside)
    have wFirst : w ∉ first := fun inside =>
      (List.nodup_append.mp (List.nodup_append.mp nodup).1).2.2 w inside w (by simp) rfl
    have apart : task ≠ (s.tasks.task task).prev := single ▸ wTask
    have newHead := task_list_remove_head s.tasks task apart
    have newCurrent := task_list_remove_current s.tasks task apart
    have headInside : s.tasks.task_head ∈ first ++ [w] := by
      rw [head]
      cases first <;> simp
    have kept : task ≠ s.tasks.task_head := fun same => outside (same ▸ headInside)
    rw [if_neg kept] at newHead
    rw [newHead,taskNext,if_pos rfl] at newCurrent
    rw [rest]
    refine ⟨(List.nodup_append.mp nodup).1,fun inside => nonnull (List.mem_append_left _ inside),?_,?_,?_,?_⟩
    · simp only [task_free,segment_concat,next,prev,single,taskNext]
      refine ⟨(segment_congr (fun x member => ?_) (fun _ _ => rfl)).mpr inner,wPrev,by simp [wZero]⟩
      have other : x ≠ w := fun same => wFirst (same ▸ member)
      simp [other]
    · rw [task_free,newHead,head]
      cases first <;> rfl
    · rw [tail,single]
      simp
    · rw [task_free,newCurrent]
      by_cases here : task = s.tasks.current_task
      · rw [if_pos here]
        exact .inr headInside
      · rw [if_neg here]
        rcases current with none | inside
        · exact .inl none
        · simp only [List.mem_append,List.mem_singleton] at inside ⊢
          exact .inr (inside.resolve_right (Ne.symm here))

theorem invariant_switch {s t : TaskState} {task : Nat} (inv : Invariant s) (step : Step s (.switch task) t) :
    Invariant t := by
  obtain ⟨member,rfl⟩ := step
  exact ⟨inv.nodup,inv.nonnull,inv.segment,inv.head,inv.tail,.inr member⟩

/-- The task after a freed one keeps a `prev` that refers to it. -/
private theorem free_last {s t : TaskState} {task : Nat} (inv : Invariant s) (step : Step s (.free task) t)
    (correct : ListCorrect t) : task = s.tasks.task_tail := by
  obtain ⟨member,rfl⟩ := step
  by_contra other
  obtain ⟨front,after,live⟩ := List.append_of_mem member
  have segment := inv.segment
  have nodup := inv.nodup
  rw [live] at segment nodup
  have next := segment.next_eq
  cases after with
  | nil =>
    have tail := inv.tail
    rw [live,List.getLastD_concat] at tail
    exact other tail.symm
  | cons second more =>
  have next : (s.tasks.task task).next = second := next
  have inside : second ∈ s.live := by simp [live]
  have nonzero : (s.tasks.task task).next ≠ 0 := fun null => inv.nonnull (null ▸ next ▸ inside)
  have different : second ≠ task := by
    rintro rfl
    simp [List.nodup_append] at nodup
  have stale : ((task_free s.tasks task).task (s.tasks.task task).next).prev = task := by
    rw [task_free,task_list_remove_prev]
    exact inv.segment.inverse task member nonzero
  have taskZero : task ≠ 0 := fun same => inv.nonnull (same ▸ member)
  have gone : task ∉ s.live.erase task := inv.nodup.not_mem_erase
  have left : (s.tasks.task task).next ∈ s.live.erase task := by
    rw [next]
    exact (List.mem_erase_of_ne different).mpr inside
  rcases correct.visits.before _ left with head | ⟨w,wInside,link⟩
  · have first := correct.first (by rw [← head]; exact nonzero)
    rw [← head,stale] at first
    exact taskZero first
  · have inverse := correct.inverse w wInside (by simp only [] at link; rw [link]; exact nonzero)
    simp only [] at link
    rw [link,stale] at inverse
    exact gone (inverse ▸ wInside)

/-- The list stays correct in exactly the runs that free the last task of the list only. -/
theorem task_list_correct_iff (moves : List (TaskCall × TaskState)) (task : Nat → Task)
    (run : Run Step ⟨⟨task,0,0,0⟩,[]⟩ moves) :
    Always ListCorrect ⟨⟨task,0,0,0⟩,[]⟩ moves ↔
      Each (fun s call => ∀ task, call = .free task → task = s.tasks.task_tail) ⟨⟨task,0,0,0⟩,[]⟩ moves := by
  refine always_iff_each Invariant ?_ (fun s inv => inv.correct) ?_ ?_ run
  · intro s call t inv step last
    cases call with
    | new task => exact invariant_new inv step
    | free task => exact invariant_free inv step (last task rfl)
    | switch task => exact invariant_switch inv step
  · rintro s call t inv step correct task rfl
    exact free_last inv step correct
  · exact ⟨List.nodup_nil,List.not_mem_nil,trivial,rfl,rfl,.inl rfl⟩

/-- Tasks at 0x01000000, 0x01800000 and 0x02000000 are created and the middle one freed. -/
theorem task_list_stale : ∃ moves : List (TaskCall × TaskState),
    moves.map Prod.fst = [.new 0x01000000,.new 0x01800000,.new 0x02000000,.free 0x01800000] ∧
    Run Step ⟨⟨fun _ => ⟨0,0⟩,0,0,0⟩,[]⟩ moves ∧ ¬ Always ListCorrect ⟨⟨fun _ => ⟨0,0⟩,0,0,0⟩,[]⟩ moves := by
  refine ⟨[(_,⟨_,_⟩),(_,⟨_,_⟩),(_,⟨_,_⟩),(_,⟨_,_⟩)],rfl,⟨⟨by decide,by decide,rfl⟩,⟨by decide,by decide,rfl⟩,
    ⟨by decide,by decide,rfl⟩,⟨by decide,rfl⟩,trivial⟩,fun always => ?_⟩
  have inverse := always.final.inverse 0x01000000 (by decide) (by decide)
  revert inverse
  decide

/-- The last task created is freed. -/
theorem task_list_correct_last : ∃ moves : List (TaskCall × TaskState),
    moves.map Prod.fst = [.new 0x01000000,.new 0x01800000,.free 0x01800000] ∧
    Run Step ⟨⟨fun _ => ⟨0,0⟩,0,0,0⟩,[]⟩ moves ∧ Always ListCorrect ⟨⟨fun _ => ⟨0,0⟩,0,0,0⟩,[]⟩ moves := by
  have run : Run Step ⟨⟨fun _ => ⟨0,0⟩,0,0,0⟩,[]⟩ [(.new 0x01000000,⟨_,_⟩),(.new 0x01800000,⟨_,_⟩),
      (.free 0x01800000,⟨_,_⟩)] := ⟨⟨by decide,by decide,rfl⟩,⟨by decide,by decide,rfl⟩,⟨by decide,rfl⟩,trivial⟩
  refine ⟨_,rfl,run,(task_list_correct_iff _ _ run).mpr ⟨?_,?_,?_,trivial⟩⟩
  · exact fun task same => (nomatch same)
  · exact fun task same => (nomatch same)
  · rintro task same
    cases same
    decide

end SimpOS.TaskList
