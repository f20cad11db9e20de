import SimpOS.Processes

/-!
What loading and releasing a process do to the tables: to the slots, to the records of the
processes and tasks, and to the links between the tasks. What they do to files and memory is
left open here.
-/
namespace SimpOS.ProcessLoads
open SimpOS.Machine SimpOS.Memory SimpOS.Strings SimpOS.Paging SimpOS.KernelHeap SimpOS.PageDirectories SimpOS.AddressSpaces
open SimpOS.ElfLoader SimpOS.ElfMapping SimpOS.TaskList SimpOS.FatSystem SimpOS.Processes

variable {φ : Type}

theorem bind_ok {ε α β : Type} {x : Except ε α} {f : α → Except ε β} {b : β} (ran : x >>= f = .ok b) :
    ∃ a, x = .ok a ∧ f a = .ok b := by
  cases x with
  | error stop => cases ran
  | ok a => exact ⟨a,rfl,ran⟩

theorem bind_of_ok {ε α β : Type} {x : Except ε α} {a : α} (f : α → Except ε β) (result : x = .ok a) : x >>= f = f a := by
  rw [result]
  rfl

/-! ### What the calls leave as it was -/

/-- Only files, ELF files and the kernel's memory have changed. -/
structure SameTables (s t : World φ) : Prop where
  processes : t.processes = s.processes
  current_process : t.current_process = s.current_process
  process : t.process = s.process
  task : t.task = s.task
  links : t.links = s.links

/-- Besides, the process p may have changed, but not its task. -/
structure OnlyProcess (p : Nat) (s t : World φ) : Prop where
  processes : t.processes = s.processes
  current_process : t.current_process = s.current_process
  others : ∀ q, q ≠ p → t.process q = s.process q
  own : (t.process p).task = (s.process p).task
  id : (t.process p).id = (s.process p).id
  task : t.task = s.task
  links : t.links = s.links

section
variable {s t u : World φ} {p : Nat}

theorem SameTables.refl (s : World φ) : SameTables s s := ⟨rfl,rfl,rfl,rfl,rfl⟩
theorem SameTables.trans (first : SameTables s t) (second : SameTables t u) : SameTables s u :=
  ⟨second.processes.trans first.processes,second.current_process.trans first.current_process,
    second.process.trans first.process,second.task.trans first.task,second.links.trans first.links⟩
theorem SameTables.only (same : SameTables s t) (p : Nat) : OnlyProcess p s t :=
  ⟨same.processes,same.current_process,fun q _ => congrFun same.process q,
    congrArg Process.task (congrFun same.process p),congrArg Process.id (congrFun same.process p),same.task,same.links⟩
theorem OnlyProcess.trans (first : OnlyProcess p s t) (second : OnlyProcess p t u) : OnlyProcess p s u :=
  ⟨second.processes.trans first.processes,second.current_process.trans first.current_process,
    fun q other => (second.others q other).trans (first.others q other),second.own.trans first.own,
    second.id.trans first.id,second.task.trans first.task,second.links.trans first.links⟩
theorem onlyProcess_set (s : World φ) (p : Nat) {set : Process → Process}
    (kept : ∀ v, (set v).task = v.task ∧ (set v).id = v.id) : OnlyProcess p s (s.setProcess p set) := by
  refine ⟨rfl,rfl,fun q other => ?_,?_,?_,rfl,rfl⟩
  · exact Function.update_of_ne other _ _
  · simp only [World.setProcess,Function.update_self,kept]
  · simp only [World.setProcess,Function.update_self,kept]

theorem onFiles_same {α : Type} {call : φ → Kernel → Except Stop (α × φ × Kernel)} {result : α}
    (ran : s.onFiles call = .ok (result,t)) : SameTables s t := by
  unfold World.onFiles at ran
  cases answer : call s.files s.kernel with
  | error stop =>
    rw [answer] at ran
    cases ran
  | ok outcome =>
    rw [answer] at ran
    cases ran
    exact ⟨rfl,rfl,rfl,rfl,rfl⟩

private theorem kfree_same (s : World φ) (ptr : Nat) : SameTables s (s.kfree ptr) := ⟨rfl,rfl,rfl,rfl,rfl⟩
private theorem kzalloc_same (s : World φ) (size : Nat) : SameTables s (s.kzalloc size).2 := ⟨rfl,rfl,rfl,rfl,rfl⟩
private theorem setElf_same (s : World φ) (elf_file : Nat) (set : ElfFile → ElfFile) :
    SameTables s (s.setElf elf_file set) := ⟨rfl,rfl,rfl,rfl,rfl⟩

private theorem elf_file_free_same (elf_file : Nat) (s : World φ) : SameTables s (elf_file_free elf_file s) := by
  unfold elf_file_free
  dsimp only
  split_ifs
  · exact (kfree_same s _).trans (kfree_same _ _)
  · exact kfree_same s _

private theorem elf_close_same (elf_file : Nat) (s : World φ) : SameTables s (elf_close elf_file s) := by
  unfold elf_close
  split_ifs
  · exact .refl s
  · exact (kfree_same s _).trans (kfree_same _ _)

end

section
variable {services : FileServices φ} {filename : CString} {s t : World φ} {p : Nat} {res : Int}

private theorem elf_load_opened_same {elf_file : Nat} {fd : Int}
    (ran : elf_load_opened services elf_file fd s = .ok (res,t)) : SameTables s t := by
  unfold elf_load_opened at ran
  obtain ⟨⟨⟨res₁,file_size⟩,u⟩,stat,ran⟩ := bind_ok ran
  have first := onFiles_same stat
  dsimp only at ran
  split_ifs at ran with failed
  · cases ran
    exact first
  unfold elf_load_file at ran
  have second := first.trans (kzalloc_same u file_size)
  generalize u.kzalloc file_size = allocated at ran second
  obtain ⟨elf_memory,v⟩ := allocated
  dsimp only at ran
  obtain ⟨⟨count,w⟩,read,ran⟩ := bind_ok ran
  have third := (second.trans (setElf_same v elf_file _)).trans (onFiles_same read)
  dsimp only at ran
  split_ifs at ran with short
  · cases ran
    exact third
  · cases ran
    exact third.trans (setElf_same w elf_file _)

theorem elf_load_same {file_out : Nat} (ran : elf_load services filename s = .ok (res,file_out,t)) : SameTables s t := by
  unfold elf_load at ran
  have first := kzalloc_same s 132
  generalize s.kzalloc 132 = allocated at ran first
  obtain ⟨elf_file,s₁⟩ := allocated
  dsimp only at ran first
  have zeroed : SameTables s (if elf_file ≠ 0 then s₁.setElf elf_file fun _ => ⟨0,0,0,0,0⟩ else s₁) := by
    split_ifs
    · exact first.trans (setElf_same s₁ elf_file _)
    · exact first
  generalize (if elf_file ≠ 0 then s₁.setElf elf_file fun _ => ⟨0,0,0,0,0⟩ else s₁) = s₂ at ran zeroed
  obtain ⟨⟨fd,u⟩,opened,ran⟩ := bind_ok ran
  have second := zeroed.trans (onFiles_same opened)
  dsimp only at ran
  split_ifs at ran with missing
  · cases ran
    exact second
  obtain ⟨⟨res₁,v⟩,loaded,ran⟩ := bind_ok ran
  have third := second.trans (elf_load_opened_same loaded)
  obtain ⟨⟨closed,w⟩,close,ran⟩ := bind_ok ran
  have fourth := onFiles_same close
  cases ran
  refine third.trans (SameTables.trans ?_ fourth)
  dsimp only
  split_ifs
  · exact elf_file_free_same elf_file v
  · exact .refl v

theorem process_load_binary_only (ran : process_load_binary services filename p s = .ok (res,t)) : OnlyProcess p s t := by
  unfold process_load_binary at ran
  obtain ⟨⟨fd,u⟩,opened,ran⟩ := bind_ok ran
  have first := onFiles_same opened
  dsimp only at ran
  split_ifs at ran with missing
  · cases ran
    exact first.only p
  obtain ⟨⟨⟨res₁,file_size⟩,v⟩,stat,ran⟩ := bind_ok ran
  have second := first.trans (onFiles_same stat)
  have allocated := second.trans (kzalloc_same v file_size)
  generalize v.kzalloc file_size = granted at ran allocated
  obtain ⟨program_data_ptr,v₁⟩ := granted
  dsimp only at ran allocated
  split_ifs at ran with failed null
  · obtain ⟨⟨_,w⟩,close,ran⟩ := bind_ok ran
    cases ran
    exact (second.trans (onFiles_same close)).only p
  · obtain ⟨⟨_,w⟩,close,ran⟩ := bind_ok ran
    cases ran
    exact (allocated.trans (onFiles_same close)).only p
  · obtain ⟨⟨count,w⟩,read,ran⟩ := bind_ok ran
    have third := allocated.trans (onFiles_same read)
    dsimp only at ran
    split_ifs at ran with short
    · obtain ⟨⟨_,x⟩,close,ran⟩ := bind_ok ran
      cases ran
      exact ((third.trans (onFiles_same close)).trans (kfree_same x _)).only p
    · obtain ⟨⟨_,x⟩,close,ran⟩ := bind_ok ran
      cases ran
      refine ((third.only p).trans (onlyProcess_set w p ?_)).trans ((onFiles_same close).only p)
      exact fun _ => ⟨rfl,rfl⟩

theorem process_load_data_only (ran : process_load_data services filename p s = .ok (res,t)) : OnlyProcess p s t := by
  unfold process_load_data process_load_elf at ran
  obtain ⟨⟨res₁,u⟩,elf,ran⟩ := bind_ok ran
  obtain ⟨⟨res₂,elf_file,v⟩,loaded,elf⟩ := bind_ok elf
  have first := (elf_load_same loaded).only p
  have second : OnlyProcess p s u := by
    dsimp only at elf
    split_ifs at elf
    · cases elf
      exact first
    · cases elf
      exact first.trans (onlyProcess_set v p fun _ => ⟨rfl,rfl⟩)
  dsimp only at ran
  split_ifs at ran
  · exact second.trans (process_load_binary_only ran)
  · cases ran
    exact second

theorem process_prepare_only (ran : process_prepare services filename p s = .ok (res,t)) : OnlyProcess p s t := by
  unfold process_prepare at ran
  obtain ⟨⟨res₁,u⟩,data,ran⟩ := bind_ok ran
  have first := process_load_data_only data
  have allocated := first.trans ((kzalloc_same u SIMPOS_USER_PROGRAM_STACK_SIZE).only p)
  dsimp only at ran
  generalize u.kzalloc SIMPOS_USER_PROGRAM_STACK_SIZE = granted at ran allocated
  obtain ⟨stack,v⟩ := granted
  dsimp only at ran allocated
  have second : OnlyProcess p s (v.setProcess p fun v => { v with stack := stack }) :=
    allocated.trans (onlyProcess_set v p fun _ => ⟨rfl,rfl⟩)
  split_ifs at ran
  · cases ran
    exact first
  · cases ran
    exact second
  · cases ran
    exact second

end

/-! ### The task of a process -/

section
variable {s u : World φ} {p t : Nat}

theorem paging_map_to_results (m : Bytes) (directory : Paging4gbChunk) (virt phys phys_end flags : Nat) :
    (paging_map_to m directory virt phys phys_end flags).1 = 0 ∨
      (paging_map_to m directory virt phys phys_end flags).1 = -EINVARG := by
  by_cases accepted : Mappable virt phys phys_end
  · exact .inl (paging_map_to_result m directory flags accepted)
  · rw [paging_map_to_refused accepted]
    exact .inr rfl

private theorem paging_map_chunk_same (s : World φ) (page_directory virt phys phys_end flags : Nat) :
    SameTables s (paging_map_chunk s page_directory virt phys phys_end flags).2 := ⟨rfl,rfl,rfl,rfl,rfl⟩

private theorem paging_map_chunk_result (s : World φ) (page_directory virt phys phys_end flags : Nat) :
    (paging_map_chunk s page_directory virt phys phys_end flags).1 = 0 ∨
      (paging_map_chunk s page_directory virt phys phys_end flags).1 = -EINVARG := by
  have result := paging_map_to_results s.kernel.memory (s.chunk page_directory) virt phys phys_end flags
  unfold paging_map_chunk
  generalize paging_map_to s.kernel.memory (s.chunk page_directory) virt phys phys_end flags = mapped at result ⊢
  exact result

private theorem process_map_stack_same (p : Nat) (s : World φ) : SameTables s (process_map_stack p s).2 := by
  unfold process_map_stack
  exact paging_map_chunk_same ..

private theorem process_map_program_same (p : Nat) (s : World φ) : SameTables s (process_map_program p s).2 := by
  unfold process_map_program
  cases (s.process p).filetype with
  | ELF => exact ⟨rfl,rfl,rfl,rfl,rfl⟩
  | BINARY =>
    unfold process_map_binary
    exact paging_map_chunk_same ..

theorem process_map_program_result (p : Nat) (s : World φ) :
    (process_map_program p s).1 = 0 ∨ (process_map_program p s).1 = -EINVARG := by
  unfold process_map_program
  cases (s.process p).filetype with
  | ELF => exact process_map_elf_result ..
  | BINARY =>
    unfold process_map_binary
    exact paging_map_chunk_result ..

theorem process_map_memory_same (p : Nat) (s : World φ) : SameTables s (process_map_memory p s).2 ∧
    ((process_map_memory p s).1 = 0 ∨ (process_map_memory p s).1 < 0) := by
  have same := process_map_program_same p s
  have result := process_map_program_result p s
  unfold process_map_memory
  generalize process_map_program p s = mapped at same result
  obtain ⟨res,t⟩ := mapped
  dsimp only at same result ⊢
  by_cases failed : res < 0
  · rw [if_pos failed]
    exact ⟨same,.inr failed⟩
  · rw [if_neg failed]
    refine ⟨same.trans (process_map_stack_same p t),.inl ?_⟩
    rcases result with zero | error
    · exact zero
    · rw [error] at failed
      exact absurd (by decide) failed

/-- The process p has got the task t and the slot's number. -/
structure Attached (p t slot : Nat) (s u : World φ) : Prop where
  processes : u.processes = s.processes
  current_process : u.current_process = s.current_process
  others : ∀ q, q ≠ p → u.process q = s.process q
  id : (u.process p).id = slot
  own : (u.process p).task = t
  tasks : ∀ x, x ≠ t → u.task x = s.task x
  process : (u.task t).process = p
  links : u.links = TaskList.task_new s.links t

theorem Attached.same {slot : Nat} {v : World φ} (attached : Attached p t slot s u) (same : SameTables u v) :
    Attached p t slot s v :=
  ⟨same.processes.trans attached.processes,same.current_process.trans attached.current_process,
    fun q other => (congrFun same.process q).trans (attached.others q other),
    (congrArg Process.id (congrFun same.process p)).trans attached.id,
    (congrArg Process.task (congrFun same.process p)).trans attached.own,
    fun x other => (congrFun same.task x).trans (attached.tasks x other),
    (congrArg TaskFields.process (congrFun same.task t)).trans attached.process,
    same.links.trans attached.links⟩

/-- The blocks of a task and of its page directory are there. -/
structure TaskRoom (k : Kernel) (t : Nat) : Prop where
  task : (KernelHeap.kzalloc k 64).1 = t
  some : t ≠ 0
  directory : (paging_new_4gb (KernelHeap.kzalloc k 64).2 5).1 ≠ 0

theorem kzalloc_lt (k : Kernel) (size : Nat) : (KernelHeap.kzalloc k size).1 < 4294967296 := by
  have granted : (HeapBlocks.heap_malloc k.kernel_heap size).1 < 4294967296 := by
    unfold HeapBlocks.heap_malloc HeapBlocks.heap_malloc_blocks
    dsimp only
    split_ifs
    · omega
    · exact u32_lt _
  unfold KernelHeap.kzalloc kmalloc
  dsimp only
  split_ifs
  · omega
  · exact granted

theorem i32_ne_zero {t : Nat} (some : t ≠ 0) (high : t < 4294967296) : i32 t ≠ 0 := by
  unfold i32
  omega

private theorem task_init_made {page_directory : Nat} {k : Kernel} (made : paging_new_4gb s.kernel 5 = (page_directory,k))
    (some : page_directory ≠ 0) : ∃ u : World φ, task_init t p s = (0,u) ∧
    u.processes = s.processes ∧ u.current_process = s.current_process ∧ u.process = s.process ∧
    (∀ x, x ≠ t → u.task x = s.task x) ∧ (u.task t).process = p ∧
    u.links = { s.links with task := Function.update s.links.task t ⟨0,0⟩ } ∧ u.kernel = k ∧
    (u.task t).page_directory = page_directory ∧ u.elf_file = s.elf_file ∧ u.files = s.files := by
  rw [task_init]
  split
  next directory k' same =>
  have result : (directory,k') = (page_directory,k) := same.symm.trans made
  clear made same
  cases result
  dsimp only
  rw [if_neg some]
  refine ⟨_,rfl,rfl,rfl,rfl,fun x other => ?_,?_,rfl,rfl,?_,rfl,rfl⟩
  · simp only [World.setTask,World.withKernel,Function.update_of_ne other]
  · simp only [World.setTask,World.withKernel,Function.update_self]
  · simp only [World.setTask,World.withKernel,Function.update_self]

/-- A task that has room for its blocks is made and linked in. -/
theorem task_new_room (room : TaskRoom s.kernel t) : ∃ u : World φ, Processes.task_new p s = (t,u) ∧
    u.processes = s.processes ∧ u.current_process = s.current_process ∧ u.process = s.process ∧
    (∀ x, x ≠ t → u.task x = s.task x) ∧ (u.task t).process = p ∧ u.links = TaskList.task_new s.links t ∧
    u.kernel = (paging_new_4gb (KernelHeap.kzalloc s.kernel 64).2 5).2 ∧
    (u.task t).page_directory = (paging_new_4gb (KernelHeap.kzalloc s.kernel 64).2 5).1 ∧ u.elf_file = s.elf_file ∧
    u.files = s.files := by
  obtain ⟨task,some,directory⟩ := room
  rw [Processes.task_new]
  split
  next ptr v granted =>
  have block : ptr = t := (congrArg Prod.fst granted).symm.trans task
  have kernel : v = { s with kernel := (KernelHeap.kzalloc s.kernel 64).2 } := (congrArg Prod.snd granted).symm
  clear granted
  subst block kernel
  rw [if_neg some]
  obtain ⟨u,init,processes,current,process,tasks,own,links,rest⟩ :=
    task_init_made (p := p) (t := ptr) (s := { s with kernel := (KernelHeap.kzalloc s.kernel 64).2 })
      (Prod.mk.eta (p := paging_new_4gb (KernelHeap.kzalloc s.kernel 64).2 5)).symm directory
  rw [init]
  dsimp only
  rw [if_neg (fun other => other rfl)]
  refine ⟨_,rfl,processes,current,process,tasks,own,?_,rest⟩
  rw [links]
  simp only [TaskList.task_new,Function.update_idem]

theorem process_attach_made {filename : CString} {slot : Nat}
    (made : Processes.task_new p (s.setProcess p fun v =>
      { v with filename := filename.take (SIMPOS_MAX_PATH - 1), id := slot }) = (t,u)) (some : i32 t ≠ 0) :
    process_attach filename p slot s = process_map_memory p (u.setProcess p fun v => { v with task := t }) := by
  rw [process_attach]
  split
  next task w same =>
  have result : (task,w) = (t,u) := same.symm.trans made
  clear same made
  cases result
  exact if_neg some

theorem process_attach_room {filename : CString} {slot : Nat} (room : TaskRoom s.kernel t) :
    Attached p t slot s (process_attach filename p slot s).2 ∧
    ((process_attach filename p slot s).1 = 0 ∨ (process_attach filename p slot s).1 < 0) := by
  have high := kzalloc_lt s.kernel 64
  rw [room.task] at high
  obtain ⟨u,made,processes,current,process,tasks,own,links,_⟩ := task_new_room (p := p)
    (s := s.setProcess p fun v => { v with filename := filename.take (SIMPOS_MAX_PATH - 1), id := slot })
    ⟨room.task,room.some,room.directory⟩
  rw [process_attach_made made (i32_ne_zero room.some high)]
  clear made
  obtain ⟨kept,result⟩ := process_map_memory_same p (u.setProcess p fun v => { v with task := t })
  have attached : Attached p t slot s (u.setProcess p fun v => { v with task := t }) := by
    refine ⟨processes,current,fun q other => ?_,?_,?_,tasks,own,links⟩
    · simp only [World.setProcess,process,Function.update_of_ne other]
    · simp only [World.setProcess,process,Function.update_self]
    · simp only [World.setProcess,Function.update_self]
  exact ⟨attached.same kept,result⟩

end

/-! ### Releasing a process -/

/-- The process p has been released: of the tables only its own record and the links may have changed. -/
structure Released (p : Nat) (s u : World φ) : Prop where
  processes : u.processes = s.processes
  current_process : u.current_process = s.current_process
  others : ∀ q, q ≠ p → u.process q = s.process q
  tasks : u.task = s.task
  links : u.links = if (s.process p).task ≠ 0 then task_list_remove s.links (s.process p).task else s.links

section
variable {s u : World φ} {p : Nat}

private theorem process_free_program_data_same (p : Nat) (s : World φ) : SameTables s (process_free_program_data p s) := by
  unfold process_free_program_data
  dsimp only
  split_ifs
  · exact .refl s
  · cases (s.process p).filetype with
    | ELF => exact elf_close_same _ s
    | BINARY => exact kfree_same s _

private theorem terminate_allocations_only (p : Nat) (s : World φ) : OnlyProcess p s (s.process_terminate_allocations p) := by
  unfold World.process_terminate_allocations
  rcases ProcessMemory.process_terminate_allocations s.kernel (s.memoryOf p) with ⟨k,after⟩
  have kernel : SameTables s (s.withKernel k) := ⟨rfl,rfl,rfl,rfl,rfl⟩
  exact (kernel.only p).trans (onlyProcess_set (s.withKernel k) p fun _ => ⟨rfl,rfl⟩)

private theorem task_free_tables (t : Nat) (s : World φ) :
    (Processes.task_free t s).processes = s.processes ∧ (Processes.task_free t s).current_process = s.current_process ∧
    (Processes.task_free t s).process = s.process ∧ (Processes.task_free t s).task = s.task ∧
    (Processes.task_free t s).links = task_list_remove s.links t := by
  unfold Processes.task_free
  generalize paging_free_4gb s.kernel (s.task t).page_directory = k
  exact ⟨rfl,rfl,rfl,rfl,rfl⟩

theorem process_free_process_released (p : Nat) (s : World φ) : Released p s (process_free_process p s) := by
  have second := (terminate_allocations_only p s).trans ((process_free_program_data_same p (s.process_terminate_allocations p)).only p)
  unfold process_free_process
  dsimp only
  generalize process_free_program_data p (s.process_terminate_allocations p) = t at second ⊢
  have third : OnlyProcess p s (if (t.process p).stack ≠ 0 then
      (t.kfree (t.process p).stack).setProcess p fun v => { v with stack := 0 } else t) := by
    split_ifs
    · exact (second.trans ((kfree_same t _).only p)).trans (onlyProcess_set _ p fun _ => ⟨rfl,rfl⟩)
    · exact second
  generalize (if (t.process p).stack ≠ 0 then
      (t.kfree (t.process p).stack).setProcess p fun v => { v with stack := 0 } else t) = w at third ⊢
  rw [third.own]
  by_cases task : (s.process p).task ≠ 0
  · rw [if_pos task]
    obtain ⟨processes,current,process,tasks,links⟩ := task_free_tables (s.process p).task w
    generalize Processes.task_free (s.process p).task w = x at processes current process tasks links ⊢
    refine ⟨processes.trans third.processes,current.trans third.current_process,fun q other => ?_,tasks.trans third.task,?_⟩
    · exact ((Function.update_of_ne other _ _).trans (congrFun process q)).trans (third.others q other)
    · rw [if_pos task,← third.links]
      exact links
  · rw [if_neg task]
    refine ⟨third.processes,third.current_process,third.others,third.task,?_⟩
    rw [if_neg task]
    exact third.links

end

/-! ### Slots -/

/-- The slot i is the lowest one without a process. -/
structure FirstFree (processes : Nat → Nat) (i : Nat) : Prop where
  below : i < SIMPOS_MAX_PROCESSES
  free : processes i = 0
  first : ∀ j, j < i → processes j ≠ 0
/-- The slot i is the lowest one with a process. -/
structure FirstTaken (processes : Nat → Nat) (i : Nat) : Prop where
  below : i < SIMPOS_MAX_PROCESSES
  taken : processes i ≠ 0
  first : ∀ j, j < i → processes j = 0

theorem FirstFree.unique {processes : Nat → Nat} {i j : Nat} (first : FirstFree processes i) (second : FirstFree processes j) :
    i = j := by
  rcases Nat.lt_trichotomy i j with below | same | above
  · exact absurd first.free (second.first i below)
  · exact same
  · exact absurd second.free (first.first j above)

theorem get_free_slot_loop_cases (processes : Nat → Nat) (remaining : Nat) : ∀ i, (∀ j, j < i → processes j ≠ 0) →
    (∃ j, j < i + remaining ∧ processes j = 0 ∧ (∀ k, k < j → processes k ≠ 0) ∧
      process_get_free_slot_loop processes remaining i = (j : Int)) ∨
    (∀ j, j < i + remaining → processes j ≠ 0) ∧ process_get_free_slot_loop processes remaining i = -EISTKN := by
  induction remaining with
  | zero => exact fun i before => .inr ⟨before,rfl⟩
  | succ remaining ih =>
    intro i before
    unfold process_get_free_slot_loop
    by_cases free : processes i = 0
    · rw [if_pos free]
      exact .inl ⟨i,by omega,free,before,rfl⟩
    · rw [if_neg free]
      have next : ∀ j, j < i + 1 → processes j ≠ 0 := fun j below => by
        rcases Nat.lt_succ_iff_lt_or_eq.mp below with earlier | rfl
        · exact before j earlier
        · exact free
      have rest := ih (i+1) next
      rw [show i + 1 + remaining = i + (remaining + 1) by omega] at rest
      exact rest

theorem get_free_slot_cases (s : World φ) :
    (∃ i, FirstFree s.processes i ∧ process_get_free_slot s = (i : Int)) ∨
    (∀ i, i < SIMPOS_MAX_PROCESSES → s.processes i ≠ 0) ∧ process_get_free_slot s = -EISTKN := by
  rcases get_free_slot_loop_cases s.processes SIMPOS_MAX_PROCESSES 0 (fun j none => absurd none (Nat.not_lt_zero j)) with
    ⟨i,below,free,first,slot⟩ | ⟨taken,full⟩
  · exact .inl ⟨i,⟨by omega,free,first⟩,slot⟩
  · exact .inr ⟨fun i below => taken i (by omega),full⟩

theorem switch_to_any_loop_cases (processes : Nat → Nat) (remaining : Nat) : ∀ i, (∀ j, j < i → processes j = 0) →
    (∃ j, j < i + remaining ∧ processes j ≠ 0 ∧ (∀ k, k < j → processes k = 0) ∧
      process_switch_to_any_loop processes remaining i = some (processes j)) ∨
    (∀ j, j < i + remaining → processes j = 0) ∧ process_switch_to_any_loop processes remaining i = none := by
  induction remaining with
  | zero => exact fun i before => .inr ⟨before,rfl⟩
  | succ remaining ih =>
    intro i before
    unfold process_switch_to_any_loop
    by_cases taken : processes i ≠ 0
    · rw [if_pos taken]
      exact .inl ⟨i,by omega,taken,before,rfl⟩
    · rw [if_neg taken]
      have next : ∀ j, j < i + 1 → processes j = 0 := fun j below => by
        rcases Nat.lt_succ_iff_lt_or_eq.mp below with earlier | rfl
        · exact before j earlier
        · exact not_not.mp taken
      have rest := ih (i+1) next
      rw [show i + 1 + remaining = i + (remaining + 1) by omega] at rest
      exact rest

theorem switch_to_any_cases (s : World φ) :
    (∃ i, FirstTaken s.processes i ∧ process_switch_to_any s = .ok (process_switch (s.processes i) s)) ∨
    (∀ i, i < SIMPOS_MAX_PROCESSES → s.processes i = 0) ∧ process_switch_to_any s = .error .panic := by
  unfold process_switch_to_any
  rcases switch_to_any_loop_cases s.processes SIMPOS_MAX_PROCESSES 0 (fun j none => absurd none (Nat.not_lt_zero j)) with
    ⟨i,below,taken,first,found⟩ | ⟨empty,none⟩
  · rw [found]
    exact .inl ⟨i,⟨by omega,taken,first⟩,rfl⟩
  · rw [none]
    exact .inr ⟨fun i below => empty i (by omega),rfl⟩

/-! ### Loading -/

/-- The block for the process that is loaded next, and the kernel with its record cleared. -/
def process_block (s : World φ) : Nat := (s.kzalloc 9364).1
def process_cleared (s : World φ) : World φ := (s.kzalloc 9364).2.setProcess (process_block s) fun _ => .zero

/-- With the program and the stack there, the task gets its blocks, and it is as wanted. -/
def TaskGranted (services : FileServices φ) (filename : CString) (s : World φ) (wanted : Nat → Prop) : Prop :=
  ∀ res v, process_prepare services filename (process_block s) (process_cleared s) = .ok (res,v) → 0 ≤ res →
    ∃ t, TaskRoom v.kernel t ∧ wanted t

/-- What a load that fails leaves: at most the records of the new process and its task have
    changed, and the links are those of before, or the task was linked in and taken out again. -/
structure LoadFailed (wanted : Nat → Prop) (p : Nat) (s w : World φ) : Prop where
  processes : w.processes = s.processes
  current_process : w.current_process = s.current_process
  others : ∀ q, q ≠ p → w.process q = s.process q
  tasks : (w.task = s.task ∧ w.links = s.links) ∨
    ∃ t, wanted t ∧ (∀ x, x ≠ t → w.task x = s.task x) ∧ w.links = task_list_remove (TaskList.task_new s.links t) t

/-- The process p with the task t has been loaded and registered in a slot. -/
structure Loaded (p t slot : Nat) (s w : World φ) : Prop where
  processes : w.processes = Function.update s.processes slot p
  current_process : w.current_process = s.current_process
  others : ∀ q, q ≠ p → w.process q = s.process q
  id : (w.process p).id = slot
  own : (w.process p).task = t
  tasks : ∀ x, x ≠ t → w.task x = s.task x
  process : (w.task t).process = p
  links : w.links = TaskList.task_new s.links t

section
variable {services : FileServices φ} {filename : CString} {s u v w : World φ} {p t slot out : Nat} {res : Int}
  {wanted : Nat → Prop}

private theorem released_failed (attached : Attached p t slot s u) (some : t ≠ 0) (is_wanted : wanted t)
    (released : Released p u w) : LoadFailed wanted p s w := by
  refine ⟨released.processes.trans attached.processes,released.current_process.trans attached.current_process,
    fun q other => (released.others q other).trans (attached.others q other),
    .inr ⟨t,is_wanted,fun x other => (congrFun released.tasks x).trans (attached.tasks x other),?_⟩⟩
  rw [released.links,attached.own,if_pos some,attached.links]

/-- A load for a free slot fails with an error or registers the process. -/
theorem load_for_slot_block {s₁ : World φ} (block : s.kzalloc 9364 = (p,s₁)) (free : s.processes slot = 0)
    (below : slot < SIMPOS_MAX_PROCESSES)
    (ran : process_load_for_slot services filename slot s = .ok (res,out,w)) :
    (p = 0 ∧ res = -ENOMEM ∧ w = s₁) ∨
    p ≠ 0 ∧ ∃ res₁ v, process_prepare services filename p (s₁.setProcess p fun _ => .zero) = .ok (res₁,v) ∧
      ((res₁ < 0 ∧ (res,out,w) = process_load_out res₁ p 0 v) ∨
        0 ≤ res₁ ∧ ∃ res₂ u, process_attach filename p slot v = (res₂,u) ∧
          (((res₂ < 0 ∨ (u.process p).task = 0) ∧ (res,out,w) = process_load_out res₂ p 0 u) ∨
            ¬(res₂ < 0 ∨ (u.process p).task = 0) ∧
              (res,out,w) = (res₂,p,{ u with processes := Function.update u.processes slot p }))) := by
  have empty : ¬process_get s slot ≠ 0 := by
    unfold process_get
    rw [if_neg (by omega),Int.toNat_natCast]
    exact not_not.mpr free
  unfold process_load_for_slot at ran
  rw [if_neg empty,block] at ran
  change (if p = 0 then _ else _) = _ at ran
  by_cases null : p = 0
  · rw [if_pos null] at ran
    cases ran
    exact .inl ⟨null,rfl,rfl⟩
  · rw [if_neg null] at ran
    refine .inr ⟨null,?_⟩
    obtain ⟨⟨res₁,v⟩,prepared,ran⟩ := bind_ok ran
    refine ⟨res₁,v,prepared,?_⟩
    change (if res₁ < 0 then _ else _) = _ at ran
    by_cases failed : res₁ < 0
    · rw [if_pos failed] at ran
      exact .inl ⟨failed,(Except.ok.inj ran).symm⟩
    · rw [if_neg failed,Int.toNat_natCast] at ran
      refine .inr ⟨by omega,?_⟩
      generalize process_attach filename p slot v = attached at ran
      obtain ⟨res₂,u⟩ := attached
      refine ⟨res₂,u,rfl,?_⟩
      change (if res₂ < 0 ∨ (u.process p).task = 0 then _ else _) = _ at ran
      by_cases failed₂ : res₂ < 0 ∨ (u.process p).task = 0
      · rw [if_pos failed₂] at ran
        exact .inl ⟨failed₂,(Except.ok.inj ran).symm⟩
      · rw [if_neg failed₂] at ran
        exact .inr ⟨failed₂,(Except.ok.inj ran).symm⟩

private theorem block_only {s₁ : World φ} (block : s.kzalloc 9364 = (p,s₁)) :
    s₁.processes = s.processes ∧ s₁.current_process = s.current_process ∧ s₁.process = s.process ∧
    s₁.task = s.task ∧ s₁.links = s.links := by
  obtain rfl : (s.kzalloc 9364).2 = s₁ := congrArg Prod.snd block
  exact ⟨rfl,rfl,rfl,rfl,rfl⟩

/-- A load for a free slot fails with an error or registers the process. -/
theorem load_for_slot_cases {p : Nat} (new : process_block s = p) (free : s.processes slot = 0) (below : slot < SIMPOS_MAX_PROCESSES)
    (granted : p ≠ 0 → TaskGranted services filename s wanted)
    (ran : process_load_for_slot services filename slot s = .ok (res,out,w)) :
    (res < 0 ∧ LoadFailed wanted p s w) ∨ (res = 0 ∧ out = p ∧ p ≠ 0 ∧ ∃ t, wanted t ∧ Loaded p t slot s w) := by
  have block : s.kzalloc 9364 = (p,(s.kzalloc 9364).2) := by
    rw [← new]
    exact Prod.mk.eta.symm
  have prepared_of := granted
  unfold TaskGranted process_cleared at prepared_of
  rw [new] at prepared_of
  generalize (s.kzalloc 9364).2 = s₁ at block prepared_of
  obtain ⟨processes,current,process,tasks,links⟩ := block_only block
  rcases load_for_slot_block block free below ran with ⟨_,rfl,rfl⟩ | ⟨null,res₁,v,prepared,outcome⟩
  · exact .inl ⟨by decide,processes,current,fun q _ => congrFun process q,.inl ⟨tasks,links⟩⟩
  · have only : OnlyProcess p (s₁.setProcess p fun _ => .zero) v := process_prepare_only prepared
    have own : (v.process p).task = 0 := by
      rw [only.own]
      simp only [World.setProcess,Function.update_self,Process.zero]
    have others : ∀ q, q ≠ p → v.process q = s.process q := fun q other =>
      (only.others q other).trans ((Function.update_of_ne other _ _).trans (congrFun process q))
    rcases outcome with ⟨failed,result⟩ | ⟨loaded,res₂,u,attach,outcome⟩
    · unfold process_load_out at result
      rw [if_pos failed,if_neg (not_not.mpr own)] at result
      cases result
      exact .inl ⟨failed,only.processes.trans processes,only.current_process.trans current,others,
        .inl ⟨only.task.trans tasks,only.links.trans links⟩⟩
    · obtain ⟨t,room,is_wanted⟩ := prepared_of null res₁ v prepared loaded
      obtain ⟨attached,result₂⟩ : Attached p t slot v (process_attach filename p slot v).2 ∧
          ((process_attach filename p slot v).1 = 0 ∨ (process_attach filename p slot v).1 < 0) := process_attach_room room
      rw [attach] at attached result₂
      dsimp only at attached result₂
      have made : Attached p t slot s u := by
        refine ⟨attached.processes.trans (only.processes.trans processes),
          attached.current_process.trans (only.current_process.trans current),
          fun q other => (attached.others q other).trans (others q other),attached.id,attached.own,
          fun x other => (attached.tasks x other).trans (congrFun (only.task.trans tasks) x),attached.process,?_⟩
        rw [attached.links,only.links]
        exact congrArg (TaskList.task_new · t) links
      have has_task : (u.process p).task ≠ 0 := by
        rw [made.own]
        exact room.some
      rcases outcome with ⟨failed,result⟩ | ⟨passed,result⟩
      · have failed : res₂ < 0 := failed.resolve_right has_task
        unfold process_load_out at result
        rw [if_pos failed,if_pos has_task] at result
        cases result
        exact .inl ⟨failed,released_failed made room.some is_wanted (process_free_process_released p u)⟩
      · rw [not_or] at passed
        cases result
        refine .inr ⟨result₂.resolve_right passed.1,rfl,null,t,is_wanted,?_⟩
        exact ⟨congrArg (Function.update · slot _) made.processes,made.current_process,made.others,made.id,made.own,
          made.tasks,made.process,made.links⟩

/-- A load comes back without a free slot, fails, or registers the process in the lowest free slot. -/
theorem process_load_cases {p : Nat} (new : process_block s = p)
    (granted : (∃ i, FirstFree s.processes i) → p ≠ 0 → TaskGranted services filename s wanted)
    (ran : process_load services filename s = .ok (res,out,w)) :
    (res < 0 ∧ (w = s ∨ (∃ i, FirstFree s.processes i) ∧ LoadFailed wanted p s w)) ∨
    (res = 0 ∧ out = p ∧ p ≠ 0 ∧ ∃ slot t, FirstFree s.processes slot ∧ wanted t ∧ Loaded p t slot s w) := by
  unfold process_load at ran
  dsimp only at ran
  rcases get_free_slot_cases s with ⟨slot,first,found⟩ | ⟨_,full⟩
  · rw [found,if_neg (by omega)] at ran
    rcases load_for_slot_cases new first.free first.below (granted ⟨slot,first⟩) ran with
      ⟨failed,kept⟩ | ⟨zero,pointer,some,t,is_wanted,loaded⟩
    · exact .inl ⟨failed,.inr ⟨⟨slot,first⟩,kept⟩⟩
    · exact .inr ⟨zero,pointer,some,slot,t,first,is_wanted,loaded⟩
  · rw [full,if_pos (by decide)] at ran
    cases ran
    exact .inl ⟨by decide,.inl rfl⟩

theorem process_load_switch_ok (ran : process_load_switch services filename s = .ok (res,out,w)) :
    ∃ v, process_load services filename s = .ok (res,out,v) ∧ w = if res = 0 then process_switch out v else v := by
  unfold process_load_switch at ran
  obtain ⟨⟨res₁,out₁,v⟩,loaded,ran⟩ := bind_ok ran
  change (if res₁ = 0 then _ else _) = _ at ran
  by_cases zero : res₁ = 0
  · rw [if_pos zero] at ran
    cases ran
    exact ⟨_,loaded,(if_pos zero).symm⟩
  · rw [if_neg zero] at ran
    cases ran
    exact ⟨_,loaded,(if_neg zero).symm⟩

end

/-! ### Terminating -/

/-- What is left when the process p of a slot has been terminated. -/
structure Terminated (p slot : Nat) (s w : World φ) : Prop where
  processes : w.processes = Function.update s.processes slot 0
  current_process : if s.current_process = p then
      ∃ i, FirstTaken (Function.update s.processes slot 0) i ∧ w.current_process = Function.update s.processes slot 0 i
    else w.current_process = s.current_process
  others : ∀ q, q ≠ p → w.process q = s.process q
  tasks : w.task = s.task
  links : w.links = if (s.process p).task ≠ 0 then task_list_remove s.links (s.process p).task else s.links

private theorem map_ok {ε α β : Type} (f : α → β) (a : α) : (Except.ok a : Except ε α).map f = .ok (f a) := rfl

private theorem terminated_of_released {p slot : Nat} {s x w : World φ} (released : Released p x w)
    (processes : x.processes = Function.update s.processes slot 0)
    (current : if s.current_process = p then ∃ i, FirstTaken (Function.update s.processes slot 0) i ∧
        x.current_process = Function.update s.processes slot 0 i
      else x.current_process = s.current_process)
    (same : x.process = s.process ∧ x.task = s.task ∧ x.links = s.links) : Terminated p slot s w := by
  obtain ⟨process,tasks,links⟩ := same
  refine ⟨released.processes.trans processes,?_,fun q other => (released.others q other).trans (congrFun process q),
    released.tasks.trans tasks,?_⟩
  · rw [released.current_process]
    exact current
  · rw [released.links,process,links]

theorem process_terminate_cases (p : Nat) (s : World φ) :
    (∃ w, process_terminate p s = .ok w ∧ Terminated p (s.process p).id s w) ∨
    s.current_process = p ∧ (∀ i, i < SIMPOS_MAX_PROCESSES → Function.update s.processes (s.process p).id 0 i = 0) ∧
      process_terminate p s = .error .panic := by
  unfold process_terminate process_unlink
  dsimp only
  by_cases current : s.current_process = p
  · rw [if_pos current]
    rcases switch_to_any_cases { s with processes := Function.update s.processes (s.process p).id 0x00 } with
      ⟨i,taken,switched⟩ | ⟨empty,panics⟩
    · rw [switched,map_ok]
      refine .inl ⟨_,rfl,terminated_of_released (process_free_process_released p _) rfl ?_ ⟨rfl,rfl,rfl⟩⟩
      rw [if_pos current]
      exact ⟨i,taken,rfl⟩
    · rw [panics]
      exact .inr ⟨current,empty,rfl⟩
  · rw [if_neg current,map_ok]
    refine .inl ⟨_,rfl,terminated_of_released (process_free_process_released p _) rfl ?_ ⟨rfl,rfl,rfl⟩⟩
    rw [if_neg current]

end SimpOS.ProcessLoads
