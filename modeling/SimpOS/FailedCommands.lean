import SimpOS.FailedLoads
import SimpOS.ProgramArguments

/-!
System commands that fail. The process is registered, linked in and current before its arguments are
copied, and nothing of that is undone when a copy cannot be had; a load that fails behind the block
of its process has changed the heap as it is.
-/
namespace SimpOS.FailedCommands
open SimpOS.Machine SimpOS.Memory SimpOS.Strings SimpOS.Extents SimpOS.HeapLayout SimpOS.KernelHeap SimpOS.FatSystem SimpOS.TaskMemory
open SimpOS.Processes SimpOS.ProcessLoads SimpOS.ProcessCalls SimpOS.FailedLoads

variable {φ : Type}

/-- The caller's list of arguments as the kernel finds it, and the file it names. -/
def arguments (s : World φ) : Nat := task_virtual_address_to_physical (task_current s) (task_get_stack_item (task_current s) 0 s) s
def path (s : World φ) : CString := [48, 58, 47] ++ string_at kernel_page s.kernel.memory (arguments s) (SIMPOS_MAX_PATH - 1)
/-- There is a list, and it names a file. -/
def Named (s : World φ) : Prop := arguments s ≠ 0 ∧ s.kernel.memory (arguments s) ≠ 0x00

/-- The process with its i-th argument copied into str. -/
def copied (argv i current str : Nat) (s : World φ) : World φ :=
  store32 (s.withKernel { s.kernel with memory := strncpy kernel_page s.kernel.memory str current 512 }) (offset argv (4 * i)) str

/-- One of the arguments from current on gets no memory. -/
def CopyRefused (process argv : Nat) : Nat → Nat → Nat → World φ → Prop
  | 0, _, _, _ => False
  | remaining + 1, i, current, s =>
    let (argument_str, t) := s.process_malloc process 512
    current ≠ 0 ∧ (argument_str = 0 ∨ argument_str ≠ 0 ∧ CopyRefused process argv remaining (i + 1)
      (command_argument_next (copied argv i current argument_str t).kernel.memory current) (copied argv i current argument_str t))

/-- The arguments can be counted, and then the vector or one of them gets no memory. -/
def ArgumentsRefused (process root_argument : Nat) (s : World φ) : Prop :=
  ∃ argc, process_count_command_arguments s.kernel.memory root_argument = some argc ∧
    (argc = 0 ∨ (s.process_malloc process (u32 (4 * argc))).1 = 0 ∨
      CopyRefused process (s.process_malloc process (u32 (4 * argc))).1 4294967296 0 root_argument
        (s.process_malloc process (u32 (4 * argc))).2)

/-- A step fails that makes the call come back with an error: the program's data or stack cannot be had, the mapping of the
    program is refused, or the process that has been loaded gets no memory for its arguments. -/
inductive FailedInvocation (services : FileServices φ) (s : World φ) (slot : Nat) : Prop
  | prepare {res : Int} {v : World φ} :
    process_prepare services (path s) (process_block s) (process_cleared s) = .ok (res,v) → res < 0 → FailedInvocation services s slot
  | program {v : World φ} : Prepared services (path s) s v → Refused (path s) s slot v → FailedInvocation services s slot
  | inject {process : Nat} {v : World φ} : process_load services (path s) s = .ok (0,process,v) →
    ArgumentsRefused process (arguments s) (process_switch process v) → FailedInvocation services s slot

/-- A call that comes back with an error changes nothing. -/
def CommandAtomic (services : FileServices φ) (s : World φ) : Prop :=
  ∀ res w, isr80h_command7_invoke_system_command services s = .ok (res,w) → res ≠ 0 → Unchanged (fun _ => ()) s w

section
variable {services : FileServices φ} {own : φ → Int → Prop} {s v w : World φ} {process slot : Nat} {res : Int} {live : List Extent}

private theorem process_malloc_processes (s : World φ) (process size : Nat) :
    (s.process_malloc process size).2.processes = s.processes := by
  unfold World.process_malloc
  generalize ProcessMemory.process_malloc s.kernel (s.memoryOf process) size = granted
  rfl

/-- The copying fails where one of the arguments gets no memory; it never touches the slots. -/
private theorem inject_loop_result (argv remaining : Nat) : ∀ (i current : Nat) (s : World φ),
    process_inject_arguments_loop process argv remaining i current s = .ok (res,w) →
    w.processes = s.processes ∧ (res = 0 ∨ res < 0 ∧ CopyRefused process argv remaining i current s) := by
  induction remaining with
  | zero =>
    intro i current s ran
    cases ran
  | succ remaining ih =>
    intro i current s ran
    rw [process_inject_arguments_loop] at ran
    rw [CopyRefused]
    have same := process_malloc_processes s process 512
    generalize s.process_malloc process 512 = granted at ran same ⊢
    obtain ⟨argument_str,t⟩ := granted
    dsimp only at ran same ⊢
    by_cases last : current = 0
    · rw [if_pos last] at ran
      cases ran
      exact ⟨rfl,.inl rfl⟩
    rw [if_neg last] at ran
    by_cases null : argument_str = 0
    · rw [if_pos null] at ran
      cases ran
      exact ⟨same,.inr ⟨by decide,last,.inl null⟩⟩
    · rw [if_neg null] at ran
      obtain ⟨kept,zero | ⟨failed,refused⟩⟩ := ih _ _ (copied argv i current argument_str t) ran
      · exact ⟨kept.trans same,.inl zero⟩
      · exact ⟨kept.trans same,.inr ⟨failed,last,.inr ⟨null,refused⟩⟩⟩

private theorem inject_loop_refused (argv remaining : Nat) : ∀ (i current : Nat) (s : World φ),
    CopyRefused process argv remaining i current s →
    ∃ res w, process_inject_arguments_loop process argv remaining i current s = .ok (res,w) ∧ res < 0 := by
  induction remaining with
  | zero =>
    intro i current s refused
    exact refused.elim
  | succ remaining ih =>
    intro i current s refused
    rw [process_inject_arguments_loop]
    rw [CopyRefused] at refused
    generalize s.process_malloc process 512 = granted at refused ⊢
    obtain ⟨argument_str,t⟩ := granted
    dsimp only at refused ⊢
    obtain ⟨more,null | ⟨some,refused⟩⟩ := refused
    · rw [if_neg more,if_pos null]
      exact ⟨_,_,rfl,by decide⟩
    · rw [if_neg more,if_neg some]
      exact ih _ _ (copied argv i current argument_str t) refused

theorem inject_result {root_argument : Nat} (ran : process_inject_arguments process root_argument s = .ok (res,w)) :
    w.processes = s.processes ∧ (res = 0 ∨ res < 0 ∧ ArgumentsRefused process root_argument s) := by
  unfold process_inject_arguments at ran
  unfold ArgumentsRefused
  rcases counted : process_count_command_arguments s.kernel.memory root_argument with _ | argc
  · rw [counted] at ran
    cases ran
  rw [counted] at ran
  dsimp only at ran
  by_cases none : argc = 0
  · rw [if_pos none] at ran
    cases ran
    exact ⟨rfl,.inr ⟨by decide,argc,rfl,.inl none⟩⟩
  rw [if_neg none] at ran
  have same := process_malloc_processes s process (u32 (4 * argc))
  generalize granted : s.process_malloc process (u32 (4 * argc)) = argv at ran same
  obtain ⟨argv,t⟩ := argv
  dsimp only at ran same
  by_cases null : argv = 0
  · rw [if_pos null] at ran
    cases ran
    exact ⟨same,.inr ⟨by decide,argc,rfl,.inr (.inl ((congrArg Prod.fst granted).trans null))⟩⟩
  · rw [if_neg null] at ran
    obtain ⟨⟨res₁,u⟩,copied,ran⟩ := bind_ok ran
    obtain ⟨kept,outcome⟩ := inject_loop_result argv _ _ _ _ copied
    dsimp only at ran
    by_cases failed : res₁ < 0
    · rw [if_pos failed] at ran
      cases ran
      obtain zero | ⟨_,refused⟩ := outcome
      · omega
      · refine ⟨kept.trans same,.inr ⟨failed,argc,rfl,.inr (.inr ?_)⟩⟩
        rw [granted]
        exact refused
    · rw [if_neg failed] at ran
      cases ran
      obtain zero | ⟨negative,_⟩ := outcome
      · exact ⟨kept.trans same,.inl zero⟩
      · exact absurd negative failed

theorem inject_refused {root_argument : Nat} (refused : ArgumentsRefused process root_argument s) :
    ∃ res w, process_inject_arguments process root_argument s = .ok (res,w) ∧ res < 0 := by
  obtain ⟨argc,counted,refused⟩ := refused
  unfold process_inject_arguments
  rw [counted]
  dsimp only
  by_cases none : argc = 0
  · rw [if_pos none]
    exact ⟨_,_,rfl,by decide⟩
  rw [if_neg none]
  have refused := refused.resolve_left none
  generalize s.process_malloc process (u32 (4 * argc)) = argv at refused ⊢
  obtain ⟨argv,t⟩ := argv
  dsimp only at refused ⊢
  by_cases null : argv = 0
  · rw [if_pos null]
    exact ⟨_,_,rfl,by decide⟩
  · rw [if_neg null]
    obtain ⟨res,w,copied,failed⟩ := inject_loop_refused argv _ _ _ _ (refused.resolve_left null)
    rw [copied]
    refine ⟨res,w,?_,failed⟩
    exact if_pos failed

/-! ### The call -/

theorem command_loads (named : Named s) : isr80h_command7_invoke_system_command services s = (do
    let (res, process, s') ← process_load_switch services (path s) s
    if res < 0 then return (res, s')
    let (res, s') ← process_inject_arguments process (arguments s) s'
    if res < 0 then return (res, s')
    return (0, task_switch (s'.process process).task s')) := by
  unfold isr80h_command7_invoke_system_command
  dsimp only
  exact if_neg (not_or.mpr named)

theorem command_unnamed (unnamed : ¬Named s) :
    isr80h_command7_invoke_system_command services s = .ok (-EINVARG,s) := by
  unfold Named at unnamed
  rw [not_and_or,not_not,not_not] at unnamed
  unfold isr80h_command7_invoke_system_command
  dsimp only
  exact if_pos unnamed

/-- A load that has begun fails where a step of the invocation does. -/
private theorem load_result {out : Nat} (begun : Begun s slot) (ran : process_load services (path s) s = .ok (res,out,w)) :
    (res < 0 ∧ ((∃ res v, process_prepare services (path s) (process_block s) (process_cleared s) = .ok (res,v) ∧ res < 0) ∨
      ∃ v, Prepared services (path s) s v ∧ Refused (path s) s slot v)) ∨
    res = 0 ∧ w.processes = Function.update w.processes slot (process_block s) := by
  obtain ⟨res₁,v,prepared,⟨failed,result⟩ | ⟨loaded,res₂,u,attach,outcome⟩⟩ := load_begun begun ran
  · refine .inl ⟨?_,.inl ⟨res₁,v,prepared,failed⟩⟩
    rw [load_out_result result]
    exact failed
  · obtain ⟨task,⟨refused,failed⟩ | ⟨accepted,zero⟩⟩ := attach_result (path s) s v slot attach
    · refine .inl ⟨?_,.inr ⟨v,⟨res₁,prepared,loaded⟩,refused⟩⟩
      rcases outcome with ⟨_,result⟩ | ⟨passed,_⟩
      · rw [load_out_result result]
        exact failed
      · exact absurd (.inl failed) passed
    · rcases outcome with ⟨failed | missing,_⟩ | ⟨_,result⟩
      · omega
      · exact absurd missing task
      · cases result
        refine .inr ⟨zero,?_⟩
        rw [Function.update_idem]

/-- An invocation none of whose steps fails is atomic, and so is one that does not get as far as a block for its process. -/
private theorem atomic_of_no_failure (laid : Laid s.kernel.kernel_heap live)
    (none : ¬(Named s ∧ ∃ slot, Begun s slot ∧ FailedInvocation services s slot)) : CommandAtomic services s := by
  intro res w ran failed
  by_cases named : Named s
  · rw [command_loads named] at ran
    obtain ⟨⟨res₁,out,t⟩,loaded,ran⟩ := bind_ok ran
    obtain ⟨v,load,rfl⟩ := process_load_switch_ok loaded
    dsimp only at ran
    by_cases begun : ∃ slot, Begun s slot
    · obtain ⟨slot,begun⟩ := begun
      obtain ⟨_,⟨res,v,prepared,negative⟩ | ⟨v,prepared,refused⟩⟩ | ⟨rfl,_⟩ := load_result begun load
      · exact absurd ⟨named,slot,begun,.prepare prepared negative⟩ none
      · exact absurd ⟨named,slot,begun,.program prepared refused⟩ none
      · rw [if_pos rfl,if_neg (by decide)] at ran
        obtain ⟨⟨res₂,x⟩,injected,ran⟩ := bind_ok ran
        obtain ⟨_,rfl | ⟨_,refused⟩⟩ := inject_result injected
        · cases ran
          exact absurd rfl failed
        · exact absurd ⟨named,slot,begun,.inject load refused⟩ none
    · obtain ⟨negative,rfl⟩ := load_idle laid (fun slot first => begun ⟨slot,first⟩) load
      rw [if_pos negative,if_neg (by omega)] at ran
      cases ran
      exact .refl _ _
  · rw [command_unnamed named] at ran
    cases ran
    exact .refl _ _

/-- A load that fails makes the call fail with what it has left behind. -/
private theorem not_atomic_of_load (named : Named s)
    (changed : ∃ res out w, process_load services (path s) s = .ok (res,out,w) ∧ res < 0 ∧ HeapChanged s w) :
    ¬CommandAtomic services s := by
  intro atomic
  obtain ⟨res,out,w,load,failed,b,low,high,differ⟩ := changed
  refine differ ((atomic res w ?_ (by omega)).heap b low high)
  rw [command_loads named]
  unfold process_load_switch
  rw [load]
  change (if res = 0 then _ else _) >>= _ = _
  rw [if_neg (by omega)]
  change (if res < 0 then _ else _) = _
  rw [if_pos failed]
  rfl

/-- Where the process that has been loaded gets no memory for its arguments, it keeps its slot. -/
private theorem not_atomic_of_inject {v : World φ} (named : Named s) (begun : Begun s slot)
    (load : process_load services (path s) s = .ok (0,process,v))
    (refused : ArgumentsRefused process (arguments s) (process_switch process v)) : ¬CommandAtomic services s := by
  intro atomic
  obtain ⟨res,w,injected,failed⟩ := inject_refused refused
  have kept : w.processes = v.processes := (inject_result injected).1
  obtain ⟨negative,_⟩ | ⟨_,loaded⟩ := load_result begun load
  · exact absurd negative (by decide)
  have same : w.processes = s.processes := by
    refine (atomic res w ?_ (by omega)).processes
    rw [command_loads named]
    unfold process_load_switch
    rw [load]
    change process_inject_arguments process (arguments s) (process_switch process v) >>= _ = _
    rw [injected]
    change (if res < 0 then _ else _) = _
    rw [if_pos failed]
    rfl
  have own : v.processes slot = process_block s := by
    rw [loaded,Function.update_self]
  rw [← kept,same,begun.1.free] at own
  exact begun.2 own.symm

/-- An invocation is atomic when its arguments are refused, when there is no slot or no block for its process, or when
    none of its steps behind that fails; and when one fails, it is not. -/
theorem command_atomic_when (laid : Laid s.kernel.kernel_heap live) :
    (¬(Named s ∧ ∃ slot, Begun s slot ∧ FailedInvocation services s slot) → CommandAtomic services s) ∧
    ∀ own, Orderly services own (path s) s → (Named s ∧ ∃ slot, Begun s slot ∧ FailedInvocation services s slot) →
      ¬CommandAtomic services s := by
  refine ⟨atomic_of_no_failure laid,?_⟩
  rintro own orderly ⟨named,slot,begun,fails⟩
  cases fails with
  | @prepare res v prepared failed =>
    exact not_atomic_of_load named (failed_load_changed orderly laid begun (.inl ⟨res,v,prepared,failed⟩))
  | @program v prepared refused =>
    exact not_atomic_of_load named (failed_load_changed orderly laid begun (.inr ⟨v,prepared,refused⟩))
  | inject load refused => exact not_atomic_of_inject named begun load refused

end

/-! ### A task that invokes a program the disk does not have -/

/-- The task has the address of the program's name on its stack, and the kernel's heap has a block of its own. -/
def invokeWorld : World Unit :=
  { ProgramArguments.callWorld 0x1001 with
    kernel := ⟨wordMemory (ProgramArguments.callWord 0x1001), usedKernel.kernel_heap⟩ }
def invokeFull : World Unit := { invokeWorld with processes := fun _ => 1 }

private theorem invoke_named : Named invokeWorld := by
  have pointer : task_get_stack_item (task_current invokeWorld) 0 invokeWorld = 0x1001 :=
    ProgramArguments.call_pointer (by decide)
  have place : arguments invokeWorld = 0x6001 := by
    unfold arguments
    rw [pointer]
    exact (ProgramArguments.call_translate (by decide)).trans (by decide)
  unfold Named
  rw [place]
  exact ⟨by decide,by decide⟩

private theorem invoke_begun : Begun invokeWorld 0 :=
  ⟨⟨by decide,rfl,fun j none => absurd none (Nat.not_lt_zero j)⟩,(used_blocks (s := invokeWorld) used_laid).1⟩

/-- When the program is missing, the block for its process is not given back. -/
theorem invoke_missing_kept : ¬CommandAtomic noFiles invokeWorld := by
  obtain ⟨t,prepared⟩ := noFiles_prepare (path invokeWorld) (process_block invokeWorld) (process_cleared invokeWorld)
  exact not_atomic_of_load invoke_named (failed_load_changed (noFiles_orderly _ used_laid) used_laid invoke_begun
    (.inl ⟨_,t,prepared,by decide⟩))

/-- Without a free slot an invocation is atomic, and without the program it is not. -/
theorem command_atomic_full : CommandAtomic noFiles invokeFull ∧ ¬CommandAtomic noFiles invokeWorld := by
  refine ⟨(command_atomic_when (s := invokeFull) used_laid).1 ?_,
    (command_atomic_when (s := invokeWorld) used_laid).2 _ (noFiles_orderly _ used_laid) ⟨invoke_named,0,invoke_begun,?_⟩⟩
  · rintro ⟨_,slot,begun,_⟩
    exact absurd begun.1.free Nat.one_ne_zero
  · obtain ⟨t,prepared⟩ := noFiles_prepare (path invokeWorld) (process_block invokeWorld) (process_cleared invokeWorld)
    exact .prepare prepared (by decide)

end SimpOS.FailedCommands
