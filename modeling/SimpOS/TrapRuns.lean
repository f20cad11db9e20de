import SimpOS.OrderedTasks

/-!
Runs of programs and traps. A program that has been switched away from goes on with the registers it had,
whatever is loaded and ends in between, and every program runs in user mode with interrupts on.
-/
namespace SimpOS.TrapRuns
open SimpOS.Machine SimpOS.Strings SimpOS.TaskList SimpOS.Processes SimpOS.ProcessLoads SimpOS.ProcessCalls SimpOS.Keyboard
open SimpOS.TrapStubs (framed)
open SimpOS.Extents (Extent)
open SimpOS.BinaryLoads SimpOS.KeyboardDriver SimpOS.InterruptTables SimpOS.CurrentProcess SimpOS.Traps SimpOS.OrderedTasks SimpOS.Runs

variable {φ : Type}

section
variable {services : FileServices φ} {s t u v w : World φ} {p x y : Nat} {res : Int} {ts us : List Nat} {outcome : Outcome}

/-! ### The commands -/

theorem load_start_eq (services : FileServices φ) (s : World φ) : Traps.process_load_start services s =
    if (copied s).1 < 0 then .ok (Outcome.result 0,(copied s).2.2)
    else process_load_switch services ([48,58,47] ++ (copied s).2.1) (copied s).2.2 >>= fun (res,process,v) =>
      if res < 0 then .ok (Outcome.result 0,v) else .ok (Outcome.switched,task_switch (v.process process).task v) := rfl

/-- `process_load_start` is the command of interrupt 0x80 with the way it ends. -/
theorem process_load_start_world (services : FileServices φ) (s : World φ) :
    (process_load_start services s).map Prod.snd = isr80h_command6_process_load_start services s := by
  rw [load_start_eq,process_load_start_eq]
  split_ifs
  · rfl
  · cases process_load_switch services ([48,58,47] ++ (copied s).2.1) (copied s).2.2 with
    | error stop => rfl
    | ok loaded =>
      obtain ⟨res,process,v⟩ := loaded
      change Except.map Prod.snd (if res < 0 then _ else _) = if res < 0 then _ else _
      split_ifs <;> rfl

theorem process_load_start_cases (ran : process_load_start services s = .ok (outcome,w)) :
    (outcome = .result 0 ∧ w = (copied s).2.2) ∨
    ∃ res process v, process_load_switch services ([48,58,47] ++ (copied s).2.1) (copied s).2.2 = .ok (res,process,v) ∧
      ((res < 0 ∧ outcome = .result 0 ∧ w = v) ∨
        (0 ≤ res ∧ outcome = .switched ∧ w = task_switch (v.process process).task v)) := by
  rw [load_start_eq] at ran
  split_ifs at ran
  · cases ran
    exact .inl ⟨rfl,rfl⟩
  · obtain ⟨⟨res,process,v⟩,loaded,ran⟩ := bind_ok ran
    refine .inr ⟨res,process,v,loaded,?_⟩
    dsimp only at ran
    split_ifs at ran with failed
    · cases ran
      exact .inl ⟨failed,rfl,rfl⟩
    · cases ran
      exact .inr ⟨Int.not_lt.mp failed,rfl,rfl⟩

theorem load_start_handled (ordered : Ordered s ts) (granted : Granted services s .process_load_start)
    (ran : Traps.process_load_start services s = .ok (outcome,w)) : ∃ us, Handled s ts outcome w us := by
  have same := copy_string_from_task_same (task_current s) (task_get_stack_item (task_current s) 0 s) SIMPOS_MAX_PATH s
  change SameTables s (copied s).2.2 at same
  have copies : Ordered (copied s).2.2 ts := ordered.same (sameTasks_only (same.only 0))
  rcases process_load_start_cases ran with ⟨rfl,rfl⟩ | ⟨res,process,v,loaded,outcome⟩
  · exact ⟨ts,.before same (.refl copies _)⟩
  · have lists : ∃ us, Handled s ts (.result 0) v us ∧ (0 ≤ res → (v.process process).task ∈ us) := by
      rcases copies.load_switch granted loaded with ⟨failed,handled⟩ | ⟨_,handled⟩
      · exact ⟨ts,.before same handled,fun passed => absurd failed (by omega)⟩
      · exact ⟨_,.before same handled,fun _ => List.mem_append_right _ List.mem_cons_self⟩
    obtain ⟨us,handled,member⟩ := lists
    rcases outcome with ⟨_,rfl,rfl⟩ | ⟨passed,rfl,rfl⟩
    · exact ⟨us,handled⟩
    · exact ⟨us,handled.switch (member passed)⟩

theorem invoke_handled (ordered : Ordered s ts) (granted : Granted services s .invoke_system_command)
    (ran : Traps.invoke_system_command services s = .ok (outcome,w)) : ∃ us, Handled s ts outcome w us := by
  unfold Traps.invoke_system_command at ran
  obtain ⟨⟨res,v⟩,invoked,ran⟩ := bind_ok ran
  cases ran
  rcases invoke_ok invoked with ⟨rfl,rfl,_⟩ | ⟨has,res₁,process,v₁,loaded,outcome⟩
  · exact ⟨ts,.refl ordered _⟩
  rcases ordered.load_switch (granted has) loaded with ⟨failed,handled⟩ | ⟨zero,handled⟩
  · rcases outcome with ⟨_,rfl,rfl⟩ | ⟨passed,_⟩
    · exact ⟨ts,handled.value _⟩
    · omega
  · rcases outcome with ⟨failed,_⟩ | ⟨_,res₂,u,injected,outcome⟩
    · omega
    have only := process_inject_arguments_only injected
    have own : (u.process process).task = (v₁.process process).task := only.own
    have filled := handled.only only
    rcases outcome with ⟨_,rfl,rfl⟩ | ⟨_,rfl,rfl⟩
    · exact ⟨_,filled.value _⟩
    · rw [if_neg (Int.lt_irrefl 0),own]
      exact ⟨_,filled.switch (List.mem_append_right _ List.mem_cons_self)⟩

theorem process_free_only (p ptr : Nat) (s : World φ) : OnlyProcess p s (process_free p ptr s) := by
  unfold process_free
  rcases ProcessMemory.process_free s.kernel (s.memoryOf p) ptr with ⟨k,after⟩
  have kernel : SameTables s (s.withKernel k) := ⟨rfl,rfl,rfl,rfl,rfl⟩
  exact (kernel.only p).trans (onlyProcess_set (s.withKernel k) p fun _ => ⟨rfl,rfl⟩)

theorem keyboard_pop_only (s : World φ) : OnlyProcess (s.task s.links.current_task).process s (keyboard_pop s).2 := by
  unfold keyboard_pop
  dsimp only
  split_ifs
  · exact (SameTables.refl s).only _
  · exact (SameTables.refl s).only _
  · dsimp only
    apply onlyProcess_set
    exact fun _ => ⟨rfl,rfl⟩

theorem keyboard_push_only (c : UInt8) (s : World φ) : OnlyProcess s.current_process s (keyboard_push c s) := by
  unfold keyboard_push
  dsimp only
  split_ifs
  · exact (SameTables.refl s).only _
  · exact (SameTables.refl s).only _
  · apply onlyProcess_set
    exact fun _ => ⟨rfl,rfl⟩

theorem keyboard_interrupt_only (behind scancode : UInt8) (desk : Desk φ) :
    ∃ p, OnlyProcess p desk.world (classic_keyboard_handle_interrupt behind scancode desk).world := by
  unfold classic_keyboard_handle_interrupt
  dsimp only
  split_ifs
  all_goals first
    | exact ⟨0,(SameTables.refl desk.world).only 0⟩
    | exact ⟨_,keyboard_push_only _ desk.world⟩

/-- Loads get their blocks, and a program that ends is the last of the list. -/
def Orderly (services : FileServices φ) (s : World φ) : Command → Prop
  | .isr80h_command6_process_load_start => Granted services s .process_load_start
  | .isr80h_command7_invoke_system_command => Granted services s .invoke_system_command
  | .isr80h_command9_exit => RunsLast s
  | _ => True

theorem command_handled {buf : CString} {system system' : System φ} {command : Command} (ordered : Ordered system.world ts)
    (orderly : Orderly services system.world command)
    (ran : command_func services buf system command = .ok (outcome,system')) :
    ∃ us, Handled system.world ts outcome system'.world us := by
  have plain : ∀ {p : Nat} {w : World φ} {v : Nat}, OnlyProcess p system.world w → ∃ us, Handled system.world ts (.result v) w us :=
    fun only => ⟨ts,(Handled.refl ordered _).only only⟩
  cases command with
  | isr80h_command0_sum =>
    cases ran
    exact ⟨ts,.refl ordered _⟩
  | isr80h_command1_print =>
    cases ran
    have same : SameTables system.world (isr80h_command1_print buf system).world :=
      copy_string_from_task_same (task_current system.world) (task_get_stack_item (task_current system.world) 0 system.world)
        1024 system.world
    exact plain (same.only 0)
  | isr80h_command2_getkey =>
    cases ran
    exact plain (keyboard_pop_only system.world)
  | isr80h_command3_putchar =>
    cases ran
    exact ⟨ts,.refl ordered _⟩
  | isr80h_command4_malloc =>
    cases ran
    exact plain (process_malloc_only _)
  | isr80h_command5_free =>
    cases ran
    exact plain (process_free_only _ _ _)
  | isr80h_command6_process_load_start =>
    obtain ⟨⟨outcome,w⟩,loaded,ran⟩ := bind_ok ran
    cases ran
    exact load_start_handled ordered orderly loaded
  | isr80h_command7_invoke_system_command =>
    obtain ⟨⟨outcome,w⟩,invoked,ran⟩ := bind_ok ran
    cases ran
    exact invoke_handled ordered orderly invoked
  | isr80h_command8_get_program_arguments =>
    cases ran
    have same : SameTables system.world (isr80h_command8_get_program_arguments system.world) := ⟨rfl,rfl,rfl,rfl,rfl⟩
    exact plain (same.only 0)
  | isr80h_command9_exit =>
    obtain ⟨w,ended,ran⟩ := bind_ok ran
    cases ran
    obtain ⟨us,handled,_⟩ := ordered.ends orderly ended
    exact ⟨us,handled⟩

/-! ### The traps -/

/-- Saving the state writes the registers of the task that runs. -/
theorem task_current_save_state_ok {frame : Registers} (ran : task_current_save_state frame s = .ok t) :
    t = s.setTask (task_current s) fun task => { task with registers := frame } := by
  unfold task_current_save_state at ran
  split_ifs at ran
  exact (Except.ok.inj ran).symm

theorem setTask_other (set : TaskFields → TaskFields) (other : y ≠ x) : (s.setTask x set).task y = s.task y :=
  Function.update_of_ne other _ _

theorem saved_same (frame : Registers) (x : Nat) : SameTasks s (s.setTask x fun task => { task with registers := frame }) := by
  refine ⟨rfl,rfl,fun _ => rfl,fun _ => rfl,fun y => ?_,rfl⟩
  by_cases own : y = x
  · rw [own,setTask_self]
  · rw [setTask_other _ own]

/-- What a trap does: the task that ran has its registers, where anything has happened, and the others theirs. -/
structure Trapped (s : World φ) (ts : List Nat) (cpu : Registers) (outcome : Outcome) (t : World φ) (us : List Nat) : Prop where
  ordered : Ordered t us
  saved : task_current s ∈ us → (t.task (task_current s)).registers = cpu ∨ SameTables s t
  kept : ∀ x ∈ ts, x ∈ us → x ≠ task_current s → t.task x = s.task x
  made : ∀ x ∈ us, x ∉ ts → ∃ ip, (t.task x).registers = entered ip
  back : outcome ≠ .switched → task_current t = task_current s

theorem trapped_of_handled {frame cpu : Registers} (ordered : Ordered s ts)
    (handled : Handled (s.setTask (task_current s) fun task => { task with registers := frame }) ts outcome t us)
    (same : task_current s ∈ us → frame = cpu) : Trapped s ts cpu outcome t us := by
  refine ⟨handled.ordered,fun stays => .inl ?_,fun x old new other => ?_,handled.made,handled.back⟩
  · rw [handled.kept _ ordered.current stays,setTask_self]
    exact same stays
  · rw [handled.kept x old new,setTask_other _ other]

theorem handler_trapped {buf : CString} {number : Int} {frame : Registers} {system system' : System φ}
    (ordered : Ordered system.world ts)
    (orderly : ∀ world, task_current_save_state frame system.world = .ok world →
      ∀ command, isr80h_command isr80h_commands number = some command → Orderly services world command)
    (ran : isr80h_handler services buf number frame system = .ok (outcome,system')) :
    ∃ us, Trapped system.world ts frame outcome system'.world us := by
  obtain ⟨world,saved,ran⟩ := bind_ok ran
  have kept := orderly world saved
  obtain rfl := task_current_save_state_ok saved
  have still : Ordered (system.setWorld _).world ts := ordered.same (saved_same frame (task_current system.world))
  unfold isr80h_handle_command at ran
  cases found : isr80h_command isr80h_commands number with
  | none =>
    rw [found] at ran
    cases ran
    exact ⟨ts,trapped_of_handled ordered (.refl still _) fun _ => rfl⟩
  | some command =>
    rw [found] at ran
    obtain ⟨us,handled⟩ := command_handled still (kept command found) ran
    exact ⟨us,trapped_of_handled ordered handled fun _ => rfl⟩

theorem interrupt_callbacks_eq (n : Nat) : interrupt_callbacks n =
    if n < 0x20 then some .idt_handle_exception else if n = 0x21 then some .classic_keyboard_handle_interrupt else none := by
  unfold interrupt_callbacks
  rw [idt_register_interrupt_callback,if_neg (by decide)]
  dsimp only
  rw [Function.update_apply,register_exceptions_eq _ _ n 0x20 (by decide)]
  by_cases key : n = 0x21
  · simp [key]
  · rw [if_neg key,if_neg (show ¬n = Int.toNat 0x21 from key)]

theorem interrupt_trapped {behind scancode : UInt8} {interrupt : Nat} {error : Option Nat} {cpu : Registers}
    {system system' : System φ} (ordered : Ordered system.world ts) (exception : error ≠ none → interrupt < 0x20)
    (orderly : interrupt < 0x20 → RunsLast system.world)
    (ran : interrupt_handler behind scancode interrupt (framed error cpu) system = .ok (outcome,system')) :
    ∃ us, Trapped system.world ts cpu outcome system'.world us := by
  unfold interrupt_handler at ran
  rw [interrupt_callbacks_eq] at ran
  by_cases fault : interrupt < 0x20
  · rw [if_pos fault] at ran
    obtain ⟨world,saved,ran⟩ := bind_ok ran
    obtain rfl := task_current_save_state_ok saved
    have still : Ordered _ ts := ordered.same (saved_same (framed error cpu) (task_current system.world))
    obtain ⟨w,ended,ran⟩ := bind_ok ran
    cases ran
    obtain ⟨us,handled,gone⟩ := still.ends (orderly fault) ended
    exact ⟨us,trapped_of_handled ordered handled fun stays => absurd stays gone⟩
  · rw [if_neg fault] at ran
    by_cases key : interrupt = 0x21
    · rw [if_pos key] at ran
      obtain ⟨world,saved,ran⟩ := bind_ok ran
      obtain rfl := task_current_save_state_ok saved
      have still : Ordered _ ts := ordered.same (saved_same (framed error cpu) (task_current system.world))
      cases ran
      have none : error = none := by
        by_contra some
        exact fault (exception some)
      subst none
      obtain ⟨p,only⟩ := keyboard_interrupt_only behind scancode (system.setWorld
        (system.world.setTask (task_current system.world) fun task => { task with registers := framed none cpu })).desk
      exact ⟨ts,trapped_of_handled ordered ((Handled.refl still _).only only) fun _ => rfl⟩
    · rw [if_neg key] at ran
      cases ran
      exact ⟨ts,ordered,fun _ => .inr (.refl _),fun _ _ _ _ => rfl,fun _ member fresh => absurd member fresh,fun _ => rfl⟩

/-! ### Runs -/

/-- What is asked of the writes, the loads and the programs that end in a run. -/
structure Regular (services : FileServices φ) (own : φ → List Extent) (m : Machine φ) (e : Event) : Prop where
  apart : Apart own m e
  asked : ∀ buf, e = .system_call buf → ∀ world, task_current_save_state m.cpu m.world = .ok world →
    ∀ command, isr80h_command isr80h_commands (i32 m.cpu.eax) = some command → Orderly services world command
  fault : ∀ interrupt error scancode, e = .interrupt interrupt error scancode → interrupt < 0x20 → RunsLast m.world

/-- A program runs in its own segments with interrupts on. -/
structure InUserMode (cpu : Registers) : Prop where
  cs : cpu.cs = USER_CODE_SEGMENT
  ss : cpu.ss = USER_DATA_SEGMENT
  interrupts : cpu.flags.testBit 9 = true

/-- A step goes on with the registers of a task, or leaves the program in its segments. -/
structure Moved (m : Machine φ) (ts : List Nat) (n : Machine φ) (us : List Nat) (outcome : Outcome) : Prop where
  trapped : Trapped m.world ts m.cpu outcome n.world us
  switched : outcome = .switched → n.cpu = Traps.task_return (n.world.task (task_current n.world)).registers
  returned : outcome ≠ .switched → InUserMode m.cpu → InUserMode n.cpu

variable {own : φ → List Extent} {behind : UInt8} {m n : Machine φ} {e : Event}

/-- What a step does once its handler has done its work. -/
theorem moved_of_resume {returned : Nat → Registers} {system : System φ} (trapped : Trapped m.world ts m.cpu outcome system.world us)
    (user : ∀ v, InUserMode m.cpu → InUserMode (returned v)) : Moved m ts (.resume returned (outcome,system)) us outcome := by
  cases outcome with
  | result v => exact ⟨trapped,fun switched => absurd switched (by simp),fun _ => user v⟩
  | switched => exact ⟨trapped,fun _ => rfl,fun back => absurd rfl back⟩

theorem of_map_ok {ε α β : Type} {x : Except ε α} {f : α → β} {b : β} (ran : x.map f = .ok b) : ∃ a, x = .ok a ∧ f a = b := by
  cases x with
  | error stop => cases ran
  | ok a => exact ⟨a,rfl,Except.ok.inj ran⟩

theorem step_moved (ordered : Ordered m.world ts) (regular : Regular services own m e) (step : Step services own behind m e n) :
    ∃ us outcome, Moved m ts n us outcome := by
  have step := step regular.apart
  cases e with
  | compute written =>
    obtain ⟨⟨memory,_,system⟩,cs,ss,interrupts⟩ := step
    have same : SameTables m.world n.world := by
      unfold Machine.world
      rw [system]
      exact ⟨rfl,rfl,rfl,rfl,rfl⟩
    have still := ordered.same (sameTasks_only (same.only 0))
    refine ⟨ts,.result 0,⟨still,fun _ => .inr same,fun x _ _ _ => congrFun same.task x,fun _ member fresh => absurd member fresh,
      fun _ => ?_⟩,fun switched => absurd switched (by simp),fun _ user => ⟨cs.trans user.cs,ss.trans user.ss,interrupts.trans user.interrupts⟩⟩
    unfold task_current
    rw [same.links]
  | system_call buf =>
    obtain ⟨⟨outcome,system⟩,ran,rfl⟩ := of_map_ok step
    obtain ⟨us,trapped⟩ := handler_trapped ordered (regular.asked buf rfl) ran
    exact ⟨us,outcome,moved_of_resume trapped fun v user => ⟨user.cs,user.ss,user.interrupts⟩⟩
  | interrupt interrupt error scancode =>
    obtain ⟨exception,step⟩ := step
    obtain ⟨⟨outcome,system⟩,ran,rfl⟩ := of_map_ok step
    obtain ⟨us,trapped⟩ := interrupt_trapped ordered exception (regular.fault interrupt error scancode rfl) ran
    exact ⟨us,outcome,moved_of_resume trapped fun _ user => user⟩

variable {moves : List (Event × Machine φ)} {registers : Registers}

/-- While a task is switched away from, its registers stay as they were saved. -/
theorem kept_away (ordered : Ordered m.world ts) (run : Run (Step services own behind) m moves) (each : Each (Regular services own) m moves)
    (away : Always (fun n => task_current n.world ≠ x ∧ Live x n.world) m moves) (saved : (m.world.task x).registers = registers) :
    ∃ us, Ordered (final m moves).world us ∧ ((final m moves).world.task x).registers = registers := by
  induction moves generalizing m ts with
  | nil => exact ⟨ts,ordered,saved⟩
  | cons move rest ih =>
    obtain ⟨e,n⟩ := move
    obtain ⟨us,outcome,moved⟩ := step_moved ordered each.1 run.1
    obtain ⟨apart,live⟩ := away.1
    have next := away.2.head
    refine ih moved.trapped.ordered run.2 each.2 away.2 ?_
    rw [moved.trapped.kept x (ordered.live_iff.mp live) (moved.trapped.ordered.live_iff.mp next.2) apart.symm]
    exact saved

/-- All tasks of the list have registers of programs. -/
structure Confined (m : Machine φ) : Prop where
  listed : ∃ ts, Ordered m.world ts ∧ ∀ x ∈ ts, (m.world.task x).registers.cs = USER_CODE_SEGMENT ∧
    (m.world.task x).registers.ss = USER_DATA_SEGMENT
  cpu : InUserMode m.cpu

theorem returned_user (cs : registers.cs = USER_CODE_SEGMENT) (ss : registers.ss = USER_DATA_SEGMENT) :
    InUserMode (Traps.task_return registers) := by
  refine ⟨cs,ss,?_⟩
  unfold Traps.task_return
  rw [Nat.testBit_or,show Nat.testBit 0x200 9 = true by decide,Bool.or_true]

theorem Confined.step (confined : Confined m) (step : Step services own behind m e n) (regular : Regular services own m e) : Confined n := by
  obtain ⟨⟨ts,ordered,listed⟩,user⟩ := confined
  obtain ⟨us,outcome,moved⟩ := step_moved ordered regular step
  have kept : ∀ x ∈ us, (n.world.task x).registers.cs = USER_CODE_SEGMENT ∧ (n.world.task x).registers.ss = USER_DATA_SEGMENT := by
    intro x member
    by_cases old : x ∈ ts
    · by_cases runs : x = task_current m.world
      · subst runs
        rcases moved.trapped.saved member with saved | same
        · rw [saved]
          exact ⟨user.cs,user.ss⟩
        · rw [same.task]
          exact listed _ old
      · rw [moved.trapped.kept x old member runs]
        exact listed x old
    · obtain ⟨ip,new⟩ := moved.trapped.made x member old
      rw [new]
      exact ⟨rfl,rfl⟩
  refine ⟨⟨us,moved.trapped.ordered,kept⟩,?_⟩
  by_cases switched : outcome = .switched
  · rw [moved.switched switched]
    obtain ⟨cs,ss⟩ := kept _ moved.trapped.ordered.current
    exact returned_user cs ss
  · exact moved.returned switched user

/-! ### From the start -/

theorem ordered_of_stacked {front : List (Nat × Nat)} (stacked : Stacked s front p x) : Ordered s (front.map Prod.snd ++ [x]) := by
  have last : (p,x) ∈ front ++ [(p,x)] := List.mem_append_right _ List.mem_cons_self
  have listed : ∀ {q y : Nat}, (q,y) ∈ front ++ [(p,x)] → y ∈ front.map Prod.snd ++ [x] := by
    intro q y member
    have inside := List.mem_map_of_mem (f := Prod.snd) member
    rw [List.map_append] at inside
    exact inside
  refine ⟨stacked.tasks,?_,fun i taken => ?_,fun y member => ?_,?_⟩
  · unfold task_current
    rw [stacked.current.2]
    exact listed last
  · have inside := (stacked.taken_iff i).mp taken
    have below : i < (front ++ [(p,x)]).length := by
      rw [List.length_append]
      exact inside
    obtain ⟨⟨q,y⟩,entry⟩ : ∃ e, (front ++ [(p,x)])[i]? = some e := ⟨_,List.getElem?_eq_getElem below⟩
    have slot : s.processes i = q := by
      rw [stacked.slots,entry]
      rfl
    have member := List.mem_of_getElem? entry
    obtain ⟨task,process⟩ := stacked.task q y member
    rw [slot,task,process]
    exact ⟨stacked.id i q y entry,listed member,rfl⟩
  · have inside : y ∈ (front ++ [(p,x)]).map Prod.snd := by
      rw [List.map_append]
      exact member
    obtain ⟨⟨q,z⟩,entry,rfl⟩ := List.mem_map.mp inside
    obtain ⟨i,slot⟩ := stacked.mem_slot entry
    refine ⟨i,?_⟩
    rw [slot]
    exact ⟨stacked.nonzero q z entry,(stacked.task q z entry).1⟩
  · obtain ⟨i,slot⟩ := stacked.mem_slot last
    refine ⟨i,?_⟩
    rw [slot,stacked.current.1]
    exact ⟨stacked.nonzero p x last,rfl⟩

/-- The machine when `kernel_main` has started the shell. -/
structure Started (services : FileServices φ) (m : Machine φ) : Prop where
  booted : ∃ boot, NoPrograms boot ∧ LoadGranted services shell boot ∧ start_shell services boot = .ok m.world
  cpu : m.cpu = Traps.task_return (m.world.task (task_current m.world)).registers

theorem Started.confined (started : Started services m) : Confined m := by
  obtain ⟨⟨boot,empty,granted,ran⟩,cpu⟩ := started
  obtain ⟨p,x,stacked⟩ := empty.stacked granted ran
  have ordered := ordered_of_stacked stacked
  have runs : task_current m.world = x := stacked.current.2
  have entry : ∃ ip, (m.world.task x).registers = entered ip := by
    unfold start_shell at ran
    obtain ⟨⟨res,out,v⟩,switched,ran⟩ := bind_ok ran
    change (if res ≠ 0 then _ else task_run_first_ever_task v) = _ at ran
    split_ifs at ran with failed
    rw [not_not] at failed
    subst failed
    obtain ⟨u,loaded,rfl⟩ := process_load_switch_ok switched
    have wanted : (∃ i, FirstFree boot.processes i) → process_block boot ≠ 0 → TaskGranted services shell boot fun x => x ≠ 0 := by
      intro slot some r y prepared passed
      obtain ⟨x,room,_⟩ := (granted slot some).2 r y prepared passed
      exact ⟨x,room,room.some⟩
    obtain ⟨ip,entry⟩ := process_load_entered wanted loaded
    rw [if_pos rfl] at ran
    unfold task_run_first_ever_task at ran
    split_ifs at ran
    have world := Except.ok.inj ran
    obtain ⟨own,_⟩ := stacked.task p x List.mem_cons_self
    have keys := stacked.current.1
    rw [← world] at own keys ⊢
    obtain rfl : out = p := keys
    exact ⟨ip,by rw [← own]; exact entry⟩
  obtain ⟨ip,entry⟩ := entry
  refine ⟨⟨_,ordered,fun y member => ?_⟩,?_⟩
  · cases List.mem_singleton.mp member
    rw [entry]
    exact ⟨rfl,rfl⟩
  · rw [cpu,runs,entry]
    exact returned_user rfl rfl

theorem Confined.run (confined : Confined m) (run : Run (Step services own behind) m moves) (each : Each (Regular services own) m moves) :
    Always Confined m moves := always_of_kept (fun _ _ _ confined step regular => confined.step step regular) confined run each

theorem each_append {condition : Machine φ → Event → Prop} {first second : List (Event × Machine φ)} :
    Each condition m (first ++ second) ↔ Each condition m first ∧ Each condition (final m first) second := by
  induction first generalizing m with
  | nil => simp [Each,final]
  | cons move rest ih => simp [Each,final,ih,and_assoc]

end

variable {services : FileServices φ} {own : φ → List Extent} {behind : UInt8} {start : Machine φ} {moves : List (Event × Machine φ)}

section
variable {s : World Unit} {live : List Extents.Extent} {front : List (Nat × Nat)} {p t : Nat}

/-- The world in which a command runs. -/
abbrev saved (frame : Registers) (s : World φ) : World φ :=
  s.setTask (task_current s) fun task => { task with registers := frame }

theorem saved_ok {s : World φ} {frame : Registers} (runs : task_current s ≠ 0) :
    task_current_save_state frame s = .ok (saved frame s) := if_neg runs

theorem isr80h_handler_ok {command : Command} {outcome : Outcome} {frame : Registers} {number : Int} {s system : System φ}
    (runs : task_current s.world ≠ 0) (found : isr80h_command isr80h_commands number = some command)
    (ran : command_func services [] (s.setWorld (saved frame s.world)) command = .ok (outcome,system)) :
    isr80h_handler services [] number frame s = .ok (outcome,system) := by
  unfold isr80h_handler
  rw [saved_ok runs]
  change isr80h_handle_command services [] number _ = _
  unfold isr80h_handle_command
  rw [found]
  exact ran

theorem stacked_saved (stacked : Stacked s front p t) (frame : Registers) : Stacked (saved frame s) front p t := by
  obtain ⟨slots,below,nonzero,id,task,tasks,current⟩ := stacked
  refine ⟨slots,below,nonzero,id,fun q u member => ?_,tasks,current⟩
  obtain ⟨own,process⟩ := task q u member
  exact ⟨own,((saved_same frame (task_current s)).process u).trans process⟩

/-- The program that runs puts the number of a command in its register. -/
def asks (m : Machine φ) (eax : Nat) : Machine φ := { m with cpu := { m.cpu with eax := eax } }

theorem asks_step (m : Machine φ) (eax : Nat) : Step services own behind m (.compute fun _ => False) (asks m eax) := by
  refine fun _ => ⟨⟨m.world.kernel.memory,fun _ _ => rfl,?_⟩,rfl,rfl,rfl⟩
  rfl

theorem asks_regular (m : Machine φ) : Regular services own m (.compute fun _ => False) :=
  ⟨fun _ write => absurd write not_false,fun _ other => by simp at other,fun _ _ _ other => by simp at other⟩

/-- A command that answers nothing needs what is asked of it only. -/
theorem regular_of_asked {m : Machine φ} {command : Command} (found : isr80h_command isr80h_commands (i32 m.cpu.eax) = some command)
    (silent : ∀ (world : World φ) b, ¬answered world command b) (orderly : Orderly services (saved m.cpu m.world) command) :
    Regular services own m (.system_call []) := by
  refine ⟨fun world _ other asked b written => ?_,fun _ _ world kept other asked => ?_,fun _ _ _ other => by simp at other⟩
  · rw [found] at asked
    cases asked
    exact absurd written (silent world b)
  · rw [found] at asked
    cases asked
    obtain rfl := task_current_save_state_ok kept
    exact orderly

theorem running (stacked : Stacked s front p t) : task_current s ≠ 0 := by
  obtain ⟨_,current⟩ := stacked.current
  unfold task_current
  rw [current]
  exact fun null => stacked.tasks.nonnull (null ▸ List.mem_append_right _ List.mem_cons_self)

/-- The program that runs is the last of the list. -/
theorem runs_last (stacked : Stacked s front p t) : RunsLast s := by
  have tail : s.links.task_tail = (front.map Prod.snd ++ [t]).getLastD 0 := stacked.tasks.tail
  rw [List.getLastD_concat] at tail
  exact stacked.current.2.trans tail.symm

/-- While there is room a program can start another. -/
theorem load_step {m : Machine Unit} (housed : Housed live m.world front p t) (few : taken live + 1036 < 6400) (slot : front.length + 1 < 12)
    (number : m.cpu.eax = 6) : ∃ n q x live', Step zeroFiles (fun _ => []) behind m (.system_call []) n ∧
      Regular zeroFiles (fun _ => []) m (.system_call []) ∧ Housed live' n.world (front ++ [(p,t)]) q x := by
  obtain ⟨stacked,held,laid⟩ := housed
  have runs := running stacked
  have found : isr80h_command isr80h_commands (i32 m.cpu.eax) = some .isr80h_command6_process_load_start := by
    rw [number]
    rfl
  have before : Housed live (saved m.cpu m.world) front p t := ⟨stacked_saved stacked m.cpu,held,laid⟩
  obtain ⟨w,q,x,live',ran,granted,after,_⟩ := before.start few slot
  rw [← process_load_start_world] at ran
  obtain ⟨⟨outcome,w'⟩,started,same⟩ := of_map_ok ran
  obtain rfl : w' = w := same
  have regular : Regular zeroFiles (fun _ => []) m (.system_call []) := regular_of_asked found (fun _ _ => id) granted
  have handled : isr80h_handler zeroFiles [] (i32 m.cpu.eax) m.cpu m.system = .ok (outcome,m.system.setWorld w') := by
    refine isr80h_handler_ok runs found ?_
    change process_load_start zeroFiles (saved m.cpu m.world) >>= _ = _
    rw [started]
    rfl
  refine ⟨.resume (fun v => { m.cpu with eax := v }) (outcome,m.system.setWorld w'),q,x,live',?_,regular,?_⟩
  · intro _
    change (isr80h_handler zeroFiles [] (i32 m.cpu.eax) m.cpu m.system).map _ = _
    rw [handled]
    rfl
  · cases outcome <;> exact after

theorem exit_step {m : Machine Unit} {q x : Nat} (stacked : Stacked m.world [(q,x)] p t) (number : m.cpu.eax = 9) :
    ∃ n, Step zeroFiles (fun _ => []) behind m (.system_call []) n ∧ Regular zeroFiles (fun _ => []) m (.system_call []) ∧
      task_current n.world = x := by
  have runs := running stacked
  have found : isr80h_command isr80h_commands (i32 m.cpu.eax) = some .isr80h_command9_exit := by
    rw [number]
    rfl
  have before := stacked_saved stacked m.cpu
  obtain ⟨w,ran,_,current,_⟩ := before.exit
  have regular : Regular zeroFiles (fun _ => []) m (.system_call []) := regular_of_asked found (fun _ _ => id) (runs_last before)
  have handled : isr80h_handler zeroFiles [] (i32 m.cpu.eax) m.cpu m.system = .ok (.switched,m.system.setWorld w) := by
    refine isr80h_handler_ok runs found ?_
    change isr80h_command9_exit (saved m.cpu m.world) >>= _ = _
    rw [show isr80h_command9_exit (saved m.cpu m.world) = .ok w from ran]
    rfl
  refine ⟨.resume (fun v => { m.cpu with eax := v }) (.switched,m.system.setWorld w),fun _ => ?_,regular,current⟩
  change (isr80h_handler zeroFiles [] (i32 m.cpu.eax) m.cpu m.system).map _ = _
  rw [handled]
  rfl

/-- The shell asks for a program, which asks for its end. -/
def shellMoves (start u v : Machine Unit) : List (Event × Machine Unit) :=
  [(.compute fun _ => False,asks start 6),(.system_call [],u),(.compute fun _ => False,asks u 9),(.system_call [],v)]

/-- The shell starts a program, which ends. -/
theorem shell_run : ∃ (start u v : Machine Unit), Started zeroFiles start ∧
    Run (Traps.Step zeroFiles (fun _ => []) 0) start (shellMoves start u v) ∧
    Each (Regular zeroFiles (fun _ => [])) start (shellMoves start u v) ∧
    task_current u.world ≠ task_current start.world ∧ Live (task_current start.world) u.world ∧
    task_current v.world = task_current start.world := by
  obtain ⟨w₀,p,t,live,granted,started,housed,count⟩ := boot_started
  obtain ⟨start,world,cpu⟩ : ∃ start : Machine Unit, start.world = w₀ ∧
      start.cpu = Traps.task_return (start.world.task (task_current start.world)).registers :=
    ⟨⟨⟨⟨w₀,0⟩,⟨fun _ => 0,0,0,[]⟩⟩,Traps.task_return (w₀.task (task_current w₀)).registers⟩,rfl,rfl⟩
  subst world
  obtain ⟨u,q,x,live',loads,asked,above⟩ := @load_step 0 live [] p t (asks start 6) housed (by omega) (by decide) rfl
  obtain ⟨v,ends,ended,current⟩ := @exit_step 0 _ _ (asks u 9) _ _ above.stacked rfl
  have runs : task_current start.world = t := housed.stacked.current.2
  have away : task_current u.world = x := above.stacked.current.2
  have apart : x ≠ t := by
    rintro rfl
    exact (List.nodup_append.mp above.stacked.tasks.nodup).2.2 x List.mem_cons_self x List.mem_cons_self rfl
  refine ⟨start,u,v,⟨⟨bootWorld,⟨fun _ => rfl,rfl,rfl,rfl⟩,granted,started⟩,cpu⟩,
    ⟨asks_step start 6,loads,asks_step u 9,ends,trivial⟩,⟨asks_regular start,asked,asks_regular u,ended,trivial⟩,?_,?_,?_⟩
  · rw [runs,away]
    exact apart
  · rw [runs]
    exact (ordered_of_stacked above.stacked).live_iff.mpr List.mem_cons_self
  · exact current.trans runs.symm

end

end SimpOS.TrapRuns
