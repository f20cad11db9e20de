import SimpOS.Traps

/-!
The task list beside the table of processes. While the task that ends is the last of the list, the list
has exactly the tasks of the processes in the table; a load adds a task that has not run yet, and leaves
the others as they are.
-/
namespace SimpOS.OrderedTasks
open SimpOS.Machine SimpOS.Strings SimpOS.KernelHeap SimpOS.LinkedLists SimpOS.TaskList SimpOS.PageDirectories
open SimpOS.Processes SimpOS.ProcessLoads SimpOS.ProcessCalls SimpOS.CurrentProcess SimpOS.FatSystem SimpOS.Traps

variable {φ : Type}

/-! ### New tasks -/

/-- The registers of a new task: it starts at an address with an empty stack. -/
def entered (ip : Nat) : Registers :=
  { Registers.zero with ip := ip, ss := USER_DATA_SEGMENT, cs := USER_CODE_SEGMENT, esp := SIMPOS_PROGRAM_VIRTUAL_STACK_ADDRESS_START }

section
variable {services : FileServices φ} {filename : CString} {s t u v w : World φ} {p x y slot out : Nat} {res : Int}

theorem setTask_self (s : World φ) (x : Nat) (set : TaskFields → TaskFields) : (s.setTask x set).task x = set (s.task x) :=
  Function.update_self _ _ _

theorem task_init_entered {page_directory : Nat} {k : Kernel} (made : paging_new_4gb s.kernel 5 = (page_directory,k))
    (some : page_directory ≠ 0) : ∃ u ip, task_init x p s = (0,u) ∧ (u.task x).registers = entered ip := by
  rw [task_init]
  split
  next directory k' same =>
  have result : (directory,k') = (page_directory,k) := same.symm.trans made
  clear made same
  cases result
  dsimp only
  rw [if_neg some]
  exact ⟨_,_,rfl,by rw [setTask_self]; rfl⟩

theorem task_new_entered (room : TaskRoom s.kernel x) : ∃ u ip, Processes.task_new p s = (x,u) ∧ (u.task x).registers = entered ip := by
  obtain ⟨task,some,directory⟩ := room
  rw [Processes.task_new]
  split
  next ptr v granted =>
  have block : ptr = x := (congrArg Prod.fst granted).symm.trans task
  have kernel : v = { s with kernel := (KernelHeap.kzalloc s.kernel 64).2 } := (congrArg Prod.snd granted).symm
  clear granted
  subst block kernel
  rw [if_neg some]
  obtain ⟨u,ip,init,registers⟩ :=
    task_init_entered (p := p) (x := ptr) (s := { s with kernel := (KernelHeap.kzalloc s.kernel 64).2 })
      (Prod.mk.eta (p := paging_new_4gb (KernelHeap.kzalloc s.kernel 64).2 5)).symm directory
  rw [init]
  dsimp only
  rw [if_neg (fun other => other rfl)]
  exact ⟨_,ip,rfl,registers⟩

theorem process_attach_entered (room : TaskRoom s.kernel x) :
    ∃ ip, ((process_attach filename p slot s).2.task x).registers = entered ip := by
  have high := kzalloc_lt s.kernel 64
  rw [room.task] at high
  obtain ⟨u,ip,made,registers⟩ := task_new_entered (p := p)
    (s := s.setProcess p fun v => { v with filename := filename.take (SIMPOS_MAX_PATH - 1), id := slot })
    ⟨room.task,room.some,room.directory⟩
  rw [process_attach_made made (i32_ne_zero room.some high)]
  obtain ⟨kept,_⟩ := process_map_memory_same p (u.setProcess p fun v => { v with task := x })
  exact ⟨ip,by rw [kept.task]; exact registers⟩

theorem process_load_out_result (res : Int) (process process_out : Nat) (s : World φ) :
    (process_load_out res process process_out s).1 = res := by
  unfold process_load_out
  split_ifs <;> rfl

/-- The task of a program that has been loaded is new. -/
theorem process_load_entered {wanted : Nat → Prop}
    (granted : (∃ i, FirstFree s.processes i) → process_block s ≠ 0 → TaskGranted services filename s wanted)
    (ran : process_load services filename s = .ok (0,out,w)) : ∃ ip, (w.task (w.process out).task).registers = entered ip := by
  unfold process_load at ran
  dsimp only at ran
  rcases get_free_slot_cases s with ⟨slot,first,found⟩ | ⟨_,full⟩
  · rw [found,if_neg (by omega)] at ran
    have block : s.kzalloc 9364 = (process_block s,(s.kzalloc 9364).2) := Prod.mk.eta.symm
    have prepared_of := granted ⟨slot,first⟩
    rcases load_for_slot_block block first.free first.below ran with ⟨_,error,_⟩ | ⟨null,res₁,v,prepared,outcome⟩
    · exact absurd error (by decide)
    rcases outcome with ⟨failed,result⟩ | ⟨loaded,res₂,u,attach,outcome⟩
    · have error := congrArg Prod.fst result
      rw [process_load_out_result] at error
      dsimp only at error
      omega
    · obtain ⟨x,room,_⟩ := prepared_of null res₁ v prepared loaded
      have attached : Attached (process_block s) x slot v (process_attach filename (process_block s) slot v).2 ∧ _ :=
        process_attach_room room
      obtain ⟨ip,registers⟩ : ∃ ip, ((process_attach filename (process_block s) slot v).2.task x).registers = entered ip :=
        process_attach_entered room
      rw [attach] at attached registers
      rcases outcome with ⟨failed,result⟩ | ⟨_,result⟩
      · have error := congrArg Prod.fst result
        rw [process_load_out_result] at error
        dsimp only at error
        have task := failed.resolve_left (by omega)
        rw [attached.1.own] at task
        exact absurd task room.some
      · cases result
        exact ⟨ip,by rw [attached.1.own]; exact registers⟩
  · rw [full,if_pos (by decide)] at ran
    cases ran

/-! ### The task list and the table -/

/-- The list has the tasks of the processes in the table, each with its process; the current task and the
    process that gets the keys are among them. -/
structure Ordered (s : World φ) (ts : List Nat) : Prop where
  tasks : TaskList.Invariant ⟨s.links,ts⟩
  current : task_current s ∈ ts
  own : ∀ i, s.processes i ≠ 0 → (s.process (s.processes i)).id = i ∧ (s.process (s.processes i)).task ∈ ts ∧
    (s.task (s.process (s.processes i)).task).process = s.processes i
  owner : ∀ x ∈ ts, ∃ i, s.processes i ≠ 0 ∧ (s.process (s.processes i)).task = x
  keys : ∃ i, s.processes i ≠ 0 ∧ s.processes i = s.current_process

/-- The tables say the same of processes and tasks. -/
structure SameTasks (s t : World φ) : Prop where
  processes : t.processes = s.processes
  current_process : t.current_process = s.current_process
  id : ∀ p, (t.process p).id = (s.process p).id
  task : ∀ p, (t.process p).task = (s.process p).task
  process : ∀ x, (t.task x).process = (s.task x).process
  links : t.links = s.links

theorem sameTasks_only (only : OnlyProcess p s t) : SameTasks s t := by
  have kept : ∀ q, (t.process q).id = (s.process q).id ∧ (t.process q).task = (s.process q).task := by
    intro q
    by_cases own : q = p
    · rw [own]
      exact ⟨only.id,only.own⟩
    · rw [only.others q own]
      exact ⟨rfl,rfl⟩
  exact ⟨only.processes,only.current_process,fun q => (kept q).1,fun q => (kept q).2,fun x => by rw [only.task],only.links⟩

variable {ts : List Nat}

theorem Ordered.same (ordered : Ordered s ts) (same : SameTasks s t) : Ordered t ts := by
  obtain ⟨tasks,current,own,owner,keys⟩ := ordered
  refine ⟨?_,?_,fun i taken => ?_,fun x member => ?_,?_⟩
  · rw [same.links]
    exact tasks
  · unfold task_current
    rw [same.links]
    exact current
  · rw [same.processes] at taken ⊢
    rw [same.id,same.task,same.process]
    exact own i taken
  · obtain ⟨i,taken,task⟩ := owner x member
    refine ⟨i,?_,?_⟩
    · rw [same.processes]
      exact taken
    · rw [same.processes,same.task]
      exact task
  · rw [same.processes,same.current_process]
    exact keys

/-- The task of a process in the table. -/
def Live (x : Nat) (s : World φ) : Prop := ∃ i, s.processes i ≠ 0 ∧ (s.process (s.processes i)).task = x

theorem Ordered.live_iff (ordered : Ordered s ts) : Live x s ↔ x ∈ ts := by
  constructor
  · rintro ⟨i,taken,rfl⟩
    exact (ordered.own i taken).2.1
  · exact ordered.owner x

theorem Ordered.nonempty (ordered : Ordered s ts) : ts ≠ [] := List.ne_nil_of_mem ordered.current

/-- A task that no process in the table has is not in the list. -/
theorem Ordered.fresh (ordered : Ordered s ts) (unused : ∀ i, s.processes i ≠ 0 → (s.process (s.processes i)).task ≠ x) :
    x ∉ ts := by
  intro member
  obtain ⟨i,taken,task⟩ := ordered.owner x member
  exact unused i taken task

/-- What a handler does: the tasks that stay keep what they have, new ones have not run yet, and it comes
    back to the task that called it or switches. -/
structure Handled (s : World φ) (ts : List Nat) (outcome : Outcome) (t : World φ) (us : List Nat) : Prop where
  ordered : Ordered t us
  kept : ∀ x ∈ ts, x ∈ us → t.task x = s.task x
  made : ∀ x ∈ us, x ∉ ts → ∃ ip, (t.task x).registers = entered ip
  back : outcome ≠ .switched → task_current t = task_current s

variable {us : List Nat} {outcome : Outcome}

theorem Handled.refl (ordered : Ordered s ts) (outcome : Outcome) : Handled s ts outcome s ts :=
  ⟨ordered,fun _ _ _ => rfl,fun _ member fresh => absurd member fresh,fun _ => rfl⟩

theorem Handled.only (handled : Handled s ts outcome t us) (only : OnlyProcess p t u) : Handled s ts outcome u us := by
  refine ⟨handled.ordered.same (sameTasks_only only),fun x old new => ?_,fun x new fresh => ?_,fun back => ?_⟩
  · rw [only.task]
    exact handled.kept x old new
  · rw [only.task]
    exact handled.made x new fresh
  · unfold task_current
    rw [only.links]
    exact handled.back back

theorem Handled.value (handled : Handled s ts (.result 0) t us) (outcome : Outcome) : Handled s ts outcome t us :=
  ⟨handled.ordered,handled.kept,handled.made,fun _ => handled.back (by simp)⟩

/-- What comes before a handler's work changes the world but not the tasks. -/
theorem Handled.before (same : SameTables s t) (handled : Handled t ts outcome u us) : Handled s ts outcome u us := by
  obtain ⟨ordered,kept,made,back⟩ := handled
  refine ⟨ordered,?_,made,?_⟩
  · rw [← same.task]
    exact kept
  · unfold task_current at back ⊢
    rw [← same.links]
    exact back

/-- One of the tasks in the list is switched to. -/
theorem Handled.switch (handled : Handled s ts outcome t us) (member : x ∈ us) : Handled s ts .switched (task_switch x t) us := by
  obtain ⟨⟨tasks,_,own,owner,keys⟩,kept,made,_⟩ := handled
  refine ⟨⟨?_,member,own,owner,keys⟩,kept,made,fun back => absurd rfl back⟩
  exact invariant_switch tasks (show TaskList.Step _ (.switch x) _ from ⟨member,rfl⟩)

/-! ### Loading -/

/-- A load that fails leaves the tasks in the list. -/
theorem Ordered.load_failed (ordered : Ordered s ts) (others : ∀ i, s.processes i ≠ 0 → s.processes i ≠ p)
    (failed : LoadFailed (fun x => x ≠ 0 ∧ ∀ i, s.processes i ≠ 0 → (s.process (s.processes i)).task ≠ x) p s w) :
    Handled s ts (.result 0) w ts := by
  have kept : TaskList.Invariant ⟨w.links,ts⟩ ∧ w.links.current_task = s.links.current_task ∧ ∀ x ∈ ts, w.task x = s.task x := by
    rcases failed.tasks with ⟨tasks,links⟩ | ⟨x,⟨nonzero,unused⟩,tasks,links⟩
    · rw [links]
      exact ⟨ordered.tasks,rfl,fun x _ => congrFun tasks x⟩
    · have fresh := ordered.fresh unused
      obtain ⟨inv,current⟩ := relinked ordered.tasks ordered.nonempty nonzero fresh ordered.current
      rw [links]
      exact ⟨inv,current,fun y member => tasks y fun same => fresh (same ▸ member)⟩
  obtain ⟨inv,current,tasks⟩ := kept
  refine ⟨⟨inv,?_,fun i taken => ?_,fun x member => ?_,?_⟩,fun x member _ => tasks x member,
    fun x member fresh => absurd member fresh,fun _ => current⟩
  · unfold task_current
    rw [current]
    exact ordered.current
  · rw [failed.processes] at taken ⊢
    rw [failed.others _ (others i taken)]
    obtain ⟨id,member,process⟩ := ordered.own i taken
    exact ⟨id,member,by rw [tasks _ member]; exact process⟩
  · obtain ⟨i,taken,task⟩ := ordered.owner x member
    refine ⟨i,by rw [failed.processes]; exact taken,?_⟩
    rw [failed.processes,failed.others _ (others i taken)]
    exact task
  · rw [failed.processes,failed.current_process]
    exact ordered.keys

/-- A program that has been loaded has its task at the end of the list. -/
theorem Ordered.loaded (ordered : Ordered s ts) (nonzero : p ≠ 0) (others : ∀ i, s.processes i ≠ p) (some : x ≠ 0)
    (unused : ∀ i, s.processes i ≠ 0 → (s.process (s.processes i)).task ≠ x) (free : s.processes slot = 0)
    (loaded : Loaded p x slot s w) (registers : ∃ ip, (w.task x).registers = entered ip) :
    Handled s ts (.result 0) w (ts ++ [x]) := by
  have fresh := ordered.fresh unused
  obtain ⟨inv,current⟩ := linked ordered.tasks ordered.nonempty some fresh
  rw [← loaded.links] at inv current
  have tasks : ∀ y ∈ ts, w.task y = s.task y := fun y member => loaded.tasks y fun same => fresh (same ▸ member)
  refine ⟨⟨inv,?_,fun i taken => ?_,fun y member => ?_,?_⟩,fun y member _ => tasks y member,fun y member old => ?_,fun _ => current⟩
  · unfold task_current
    rw [current]
    exact List.mem_append_left _ ordered.current
  · rw [loaded.processes,Function.update_apply] at taken ⊢
    split_ifs at taken ⊢ with new
    · rw [loaded.id,loaded.own]
      exact ⟨new.symm,List.mem_append_right _ List.mem_cons_self,loaded.process⟩
    · rw [loaded.others _ (others i)]
      obtain ⟨id,member,process⟩ := ordered.own i taken
      exact ⟨id,List.mem_append_left _ member,by rw [tasks _ member]; exact process⟩
  · rcases List.mem_append.mp member with old | new
    · obtain ⟨i,taken,task⟩ := ordered.owner y old
      have apart : i ≠ slot := fun same => taken (same ▸ free)
      refine ⟨i,?_,?_⟩
      · rw [loaded.processes,Function.update_of_ne apart]
        exact taken
      · rw [loaded.processes,Function.update_of_ne apart,loaded.others _ (others i)]
        exact task
    · cases List.mem_singleton.mp new
      refine ⟨slot,?_,?_⟩
      · rw [loaded.processes,Function.update_self]
        exact nonzero
      · rw [loaded.processes,Function.update_self]
        exact loaded.own
  · obtain ⟨i,taken,keys⟩ := ordered.keys
    have apart : i ≠ slot := fun same => taken (same ▸ free)
    refine ⟨i,?_⟩
    rw [loaded.processes,loaded.current_process,Function.update_of_ne apart]
    exact ⟨taken,keys⟩
  · rcases List.mem_append.mp member with inside | new
    · exact absurd inside old
    · cases List.mem_singleton.mp new
      exact registers

/-- Of a load with a switch the list is left, or has the new task at its end. -/
theorem Ordered.load_switch (ordered : Ordered s ts) (granted : LoadGranted services filename s)
    (ran : process_load_switch services filename s = .ok (res,out,w)) :
    (res < 0 ∧ Handled s ts (.result 0) w ts) ∨
    (res = 0 ∧ Handled s ts (.result 0) w (ts ++ [(w.process out).task])) := by
  obtain ⟨v,loaded,rfl⟩ := process_load_switch_ok ran
  have wanted : (∃ i, FirstFree s.processes i) → process_block s ≠ 0 → TaskGranted services filename s
      fun x => x ≠ 0 ∧ ∀ i, s.processes i ≠ 0 → (s.process (s.processes i)).task ≠ x := by
    intro slot some r y prepared passed
    obtain ⟨x,room,unused⟩ := (granted slot some).2 r y prepared passed
    exact ⟨x,room,room.some,unused⟩
  rcases process_load_cases rfl wanted loaded with ⟨failed,kept⟩ | ⟨rfl,rfl,some,slot,x,first,⟨nonzero,unused⟩,done⟩
  · rw [if_neg (by omega)]
    refine .inl ⟨failed,?_⟩
    rcases kept with rfl | ⟨free,kept⟩
    · exact .refl ordered _
    · refine ordered.load_failed (fun i taken same => ?_) kept
      exact (granted free (same ▸ taken)).1 i same
  · obtain ⟨ip,registers⟩ := process_load_entered wanted loaded
    rw [done.own] at registers
    rw [if_pos rfl]
    have others := (granted ⟨slot,first⟩ some).1
    have handled := ordered.loaded some others nonzero unused first.free done ⟨ip,registers⟩
    have own : ((process_switch (process_block s) v).process (process_block s)).task = x := done.own
    rw [own]
    obtain ⟨⟨tasks,current,own,owner,_⟩,kept,made,back⟩ := handled
    have registered : v.processes slot = process_block s := by
      rw [done.processes,Function.update_self]
    exact .inr ⟨rfl,⟨tasks,current,own,owner,slot,by rw [← registered] at some; exact some,registered⟩,kept,made,back⟩

/-! ### Ends -/

/-- The task that runs is the last of the list. -/
def RunsLast (s : World φ) : Prop := s.links.current_task = s.links.task_tail

/-- From the first task the list is gone through. -/
theorem next_inside {links : Tasks} (inv : TaskList.Invariant ⟨links,ts⟩) (nonempty : ts ≠ [])
    (first : links.current_task = ts.headD 0) : task_get_next links ∈ ts := by
  cases ts with
  | nil => exact absurd rfl nonempty
  | cons x rest =>
    have following : (links.task x).next = rest.headD 0 := inv.segment.2.1
    have head : links.task_head = x := inv.head
    unfold task_get_next
    rw [first,show (x :: rest).headD 0 = x from rfl,following,head]
    cases rest with
    | nil => simp
    | cons y more =>
      have some : y ≠ 0 := fun null => inv.nonnull (null ▸ by simp)
      simp [some]

/-- The end of the last task of the list leaves the others, one of which goes on. -/
theorem Ordered.ends (ordered : Ordered s ts) (last : RunsLast s) (ran : idt_handle_exception s = .ok w) :
    ∃ us, Handled s ts .switched w us ∧ task_current s ∉ us := by
  obtain ⟨tasks,current,own,owner,keys⟩ := ordered
  obtain ⟨x,runs⟩ : ∃ x, task_current s = x := ⟨_,rfl⟩
  rw [runs] at current ⊢
  obtain ⟨front,rfl⟩ : ∃ front, ts = front ++ [x] := by
    have tail : s.links.task_tail = ts.getLastD 0 := tasks.tail
    have ends : ts.getLastD 0 = x := by
      rw [← tail,← last]
      exact runs
    rcases List.eq_nil_or_concat' ts with rfl | ⟨front,y,rfl⟩
    · exact absurd current List.not_mem_nil
    · rw [List.getLastD_concat] at ends
      exact ⟨front,by rw [ends]⟩
  have nonzero : x ≠ 0 := fun null => tasks.nonnull (null ▸ current)
  have outside : x ∉ front := fun inside =>
    (List.nodup_append.mp tasks.nodup).2.2 x inside x List.mem_cons_self rfl
  -- the process that ends, and its slot
  obtain ⟨slot,taken,task⟩ := owner x current
  obtain ⟨id,_,process⟩ := own slot taken
  rw [task] at process
  have apart : ∀ i, i ≠ slot → s.processes i ≠ 0 → s.processes i ≠ s.processes slot := by
    intro i other taken' same
    have id' := (own i taken').1
    rw [same,id] at id'
    exact other id'.symm
  unfold idt_handle_exception at ran
  rw [runs,process] at ran
  obtain ⟨v,terminated,ran⟩ := bind_ok ran
  rcases process_terminate_cases (s.processes slot) s with ⟨v',terminated',after⟩ | ⟨_,_,panics⟩
  swap
  · rw [panics] at terminated
    cases terminated
  rw [terminated] at terminated'
  cases terminated'
  rw [id] at after
  obtain ⟨inv,now⟩ := unlinked tasks
  rw [if_pos (show x = s.links.current_task from runs.symm)] at now
  have links : v.links = task_list_remove s.links x := by
    rw [after.links,task,if_pos nonzero]
  rw [← links] at inv now
  have left : ∀ i, i ≠ slot → v.processes i = s.processes i := by
    intro i other
    rw [after.processes,Function.update_of_ne other]
  have gone : v.processes slot = 0 := by
    rw [after.processes,Function.update_self]
  have keys' : ∃ i, v.processes i ≠ 0 ∧ v.processes i = v.current_process := by
    have moved := after.current_process
    split_ifs at moved with same
    · obtain ⟨i,first,moved⟩ := moved
      have registered := first.taken
      rw [← after.processes] at registered moved
      exact ⟨i,registered,moved.symm⟩
    · obtain ⟨i,taken',keys⟩ := keys
      have other : i ≠ slot := fun here => same (here ▸ keys.symm)
      refine ⟨i,?_⟩
      rw [left i other,moved]
      exact ⟨taken',keys⟩
  have own' : ∀ i, v.processes i ≠ 0 → (v.process (v.processes i)).id = i ∧ (v.process (v.processes i)).task ∈ front ∧
      (v.task (v.process (v.processes i)).task).process = v.processes i := by
    intro i registered
    have other : i ≠ slot := by
      rintro rfl
      exact registered gone
    rw [left i other] at registered ⊢
    rw [after.others _ (apart i other registered),after.tasks]
    obtain ⟨id',member,process'⟩ := own i registered
    refine ⟨id',?_,process'⟩
    rcases List.mem_append.mp member with inside | same
    · exact inside
    · rw [List.mem_singleton.mp same,process] at process'
      exact absurd process'.symm (apart i other registered)
  have owner' : ∀ y ∈ front, ∃ i, v.processes i ≠ 0 ∧ (v.process (v.processes i)).task = y := by
    intro y member
    obtain ⟨i,taken',task'⟩ := owner y (List.mem_append_left _ member)
    have other : i ≠ slot := by
      rintro rfl
      rw [task] at task'
      exact outside (task' ▸ member)
    refine ⟨i,?_⟩
    rw [left i other,after.others _ (apart i other taken')]
    exact ⟨taken',task'⟩
  obtain ⟨i,registered,served⟩ := keys'
  have next := next_inside inv (List.ne_nil_of_mem (own' i registered).2.1) now
  unfold task_next at ran
  dsimp only at ran
  split_ifs at ran
  cases ran
  have switched : TaskList.Invariant ⟨(task_switch (task_get_next v.links) v).links,front⟩ :=
    invariant_switch inv (show TaskList.Step _ (.switch (task_get_next v.links)) _ from ⟨next,rfl⟩)
  refine ⟨front,⟨⟨switched,next,own',owner',⟨i,registered,served⟩⟩,fun y _ _ => ?_,fun y member fresh => ?_,fun back => absurd rfl back⟩,outside⟩
  · exact congrFun after.tasks y
  · exact absurd (List.mem_append_left _ member) fresh

end

end SimpOS.OrderedTasks
