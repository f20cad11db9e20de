import SimpOS.ProcessCalls
import SimpOS.BinaryLoads

/-!
The current process and the process of the current task over whole runs of the system calls
that load programs, exits and exceptions. While they are the same the programs are a stack: each
was loaded by the one below it, and the topmost one runs. An exit goes on with the process of the
lowest slot, but with the second task of the list where there is one.
-/
namespace SimpOS.CurrentProcess
open SimpOS.Machine SimpOS.Strings SimpOS.KernelHeap SimpOS.LinkedLists SimpOS.TaskList SimpOS.TaskMemory SimpOS.Processes
open SimpOS.ProcessLoads SimpOS.BinaryLoads SimpOS.ProcessCalls SimpOS.Runs

variable {φ : Type}

/-- The process that gets the keys is the one that reads them. -/
def Matched (s : World φ) : Prop := s.current_process = (s.task (task_current s)).process

inductive SystemCall
  | process_load_start
  | invoke_system_command
  | exit
  | exception

/-- One call of the program that runs, after which a program runs again. -/
def Step (services : FileServices φ) (s : World φ) : SystemCall → World φ → Prop
  | .process_load_start, t => isr80h_command6_process_load_start services s = .ok t
  | .invoke_system_command, t => ∃ res, isr80h_command7_invoke_system_command services s = .ok (res,t)
  | .exit, t => isr80h_command9_exit s = .ok t
  | .exception, t => idt_handle_exception s = .ok t

/-- What a load asks for: the process's block, where it is granted, is that of no process in the
    table, and a task that it comes to gets its blocks, its own being the task of no process there. -/
def LoadGranted (services : FileServices φ) (filename : CString) (s : World φ) : Prop :=
  (∃ i, FirstFree s.processes i) → process_block s ≠ 0 → (∀ i, s.processes i ≠ process_block s) ∧
    TaskGranted services filename s fun t => ∀ i, s.processes i ≠ 0 → (s.process (s.processes i)).task ≠ t

/-- What the first call copies, and the arguments of the second one with the path in them. -/
def copied (s : World φ) : Int × CString × World φ :=
  copy_string_from_task (task_current s) (task_get_stack_item (task_current s) 0 s) SIMPOS_MAX_PATH s
def passed (s : World φ) : Nat :=
  task_virtual_address_to_physical (task_current s) (task_get_stack_item (task_current s) 0 s) s
def passedPath (s : World φ) : CString := [48,58,47] ++ string_at kernel_page s.kernel.memory (passed s) (SIMPOS_MAX_PATH - 1)
def HasArguments (s : World φ) : Prop := passed s ≠ 0 ∧ s.kernel.memory (passed s) ≠ 0x00

def Granted (services : FileServices φ) (s : World φ) : SystemCall → Prop
  | .process_load_start => LoadGranted services ([48,58,47] ++ (copied s).2.1) (copied s).2.2
  | .invoke_system_command => HasArguments s → LoadGranted services (passedPath s) s
  | .exit => True
  | .exception => True

/-- The slots that are taken. -/
def registered (s : World φ) : Finset Nat := (Finset.range SIMPOS_MAX_PROCESSES).filter fun i => s.processes i ≠ 0

/-- Arguments of a program that has been loaded can be copied, and a program that ends has one
    other program at most beside it. -/
def Matching (services : FileServices φ) (s : World φ) : SystemCall → Prop
  | .process_load_start => True
  | .invoke_system_command => HasArguments s → ∀ process v, process_load_switch services (passedPath s) s = .ok (0,process,v) →
      ∀ res w, process_inject_arguments process (passed s) v = .ok (res,w) → 0 ≤ res
  | .exit => (registered s).card ≤ 2
  | .exception => (registered s).card ≤ 2

/-- The programs in the order in which they were loaded, the one that runs last, each with its
    task: they have the lowest slots, and the task list has their tasks. -/
structure Stacked (s : World φ) (front : List (Nat × Nat)) (p t : Nat) : Prop where
  slots : ∀ i, s.processes i = (((front ++ [(p,t)])[i]?).map Prod.fst).getD 0
  below : front.length < SIMPOS_MAX_PROCESSES
  nonzero : ∀ q u, (q,u) ∈ front ++ [(p,t)] → q ≠ 0
  id : ∀ i q u, (front ++ [(p,t)])[i]? = some (q,u) → (s.process q).id = i
  task : ∀ q u, (q,u) ∈ front ++ [(p,t)] → (s.process q).task = u ∧ (s.task u).process = q
  tasks : TaskList.Invariant ⟨s.links,front.map Prod.snd ++ [t]⟩
  current : s.current_process = p ∧ s.links.current_task = t

section
variable {services : FileServices φ} {s u v w : World φ} {front : List (Nat × Nat)} {p t q : Nat} {filename : CString}

theorem Stacked.matched (stacked : Stacked s front p t) : Matched s := by
  obtain ⟨process,task⟩ := stacked.current
  unfold Matched task_current
  rw [process,task]
  exact (stacked.task p t (List.mem_append_right _ List.mem_cons_self)).2.symm

theorem Stacked.same (stacked : Stacked s front p t) (same : SameTables s u) : Stacked u front p t := by
  obtain ⟨slots,below,nonzero,id,task,tasks,current⟩ := stacked
  refine ⟨?_,below,nonzero,?_,?_,?_,?_⟩
  · rw [same.processes]
    exact slots
  · rw [same.process]
    exact id
  · rw [same.process,same.task]
    exact task
  · rw [same.links]
    exact tasks
  · rw [same.current_process,same.links]
    exact current

/-- A process in the table is one of the programs. -/
theorem Stacked.mem_slot (stacked : Stacked s front p t) {q x : Nat} (member : (q,x) ∈ front ++ [(p,t)]) :
    ∃ i, s.processes i = q := by
  obtain ⟨i,inside⟩ := List.mem_iff_getElem?.mp member
  exact ⟨i,by rw [stacked.slots,inside]; rfl⟩

theorem Stacked.taken_iff (stacked : Stacked s front p t) (i : Nat) : s.processes i ≠ 0 ↔ i < front.length + 1 := by
  have length : (front ++ [(p,t)]).length = front.length + 1 := List.length_append
  rw [stacked.slots,← length]
  constructor
  · intro taken
    by_contra above
    rw [List.getElem?_eq_none (Nat.not_lt.mp above)] at taken
    exact taken rfl
  · intro inside
    rw [List.getElem?_eq_getElem inside]
    exact stacked.nonzero _ _ (List.getElem_mem inside)

/-- A slot that is taken has one of the programs. -/
theorem Stacked.slot_mem (stacked : Stacked s front p t) {i : Nat} (taken : s.processes i ≠ 0) :
    ∃ q x, (q,x) ∈ front ++ [(p,t)] ∧ s.processes i = q := by
  have inside : i < (front ++ [(p,t)]).length := by
    rw [List.length_append]
    exact (stacked.taken_iff i).mp taken
  refine ⟨_,_,List.getElem_mem inside,?_⟩
  rw [stacked.slots,List.getElem?_eq_getElem inside]
  rfl

/-- The lowest free slot is the one above the stack. -/
theorem Stacked.free (stacked : Stacked s front p t) {slot : Nat} (first : FirstFree s.processes slot) :
    slot = front.length + 1 := by
  rcases Nat.lt_trichotomy slot (front.length + 1) with below | same | above
  · exact absurd first.free ((stacked.taken_iff slot).mpr below)
  · exact same
  · exact absurd ((stacked.taken_iff _).mp (first.first _ above)) (Nat.lt_irrefl _)

theorem Stacked.count (stacked : Stacked s front p t) : (registered s).card = front.length + 1 := by
  have range : registered s = Finset.range (front.length + 1) := by
    ext i
    unfold registered
    rw [Finset.mem_filter,Finset.mem_range,Finset.mem_range,stacked.taken_iff]
    have below := stacked.below
    omega
  rw [range,Finset.card_range]

/-! ### The task list -/

variable {links : Tasks} {ts : List Nat} {x : Nat}

theorem head_nonzero (inv : TaskList.Invariant ⟨links,ts⟩) (nonempty : ts ≠ []) : links.task_head ≠ 0 := by
  have head : links.task_head = ts.headD 0 := inv.head
  have nonnull : 0 ∉ ts := inv.nonnull
  cases ts with
  | nil => exact absurd rfl nonempty
  | cons first rest =>
    rw [head]
    exact fun null => nonnull (null ▸ List.mem_cons_self)

/-- A task that is linked in leaves the current one, where there is one. -/
theorem linked (inv : TaskList.Invariant ⟨links,ts⟩) (nonempty : ts ≠ []) (nonzero : x ≠ 0) (fresh : x ∉ ts) :
    TaskList.Invariant ⟨TaskList.task_new links x,ts ++ [x]⟩ ∧ (TaskList.task_new links x).current_task = links.current_task := by
  refine ⟨invariant_new inv (show TaskList.Step _ (.new x) _ from ⟨nonzero,fresh,rfl⟩),?_⟩
  simp [TaskList.task_new,head_nonzero inv nonempty]

private theorem last_segment {front : List Nat} (inv : TaskList.Invariant ⟨links,front ++ [x]⟩) :
    (links.task x).prev = front.getLastD 0 ∧ (links.task x).next = 0 := by
  have segment := inv.segment
  dsimp only at segment
  rw [segment_concat] at segment
  exact segment.2

private theorem last_apart {front : List Nat} (inv : TaskList.Invariant ⟨links,front ++ [x]⟩) : x ≠ (links.task x).prev := by
  rw [(last_segment inv).1]
  have nodup : (front ++ [x]).Nodup := inv.nodup
  have nonnull : 0 ∉ front ++ [x] := inv.nonnull
  rcases List.eq_nil_or_concat' front with rfl | ⟨more,last,rfl⟩
  · exact fun same => nonnull (same ▸ List.mem_cons_self)
  · rw [List.getLastD_concat]
    intro same
    have apart := (List.nodup_append.mp nodup).2.2 last (List.mem_append_right _ List.mem_cons_self) x List.mem_cons_self
    exact apart same.symm

/-- The last task is taken out; where it was the current one, the first takes its place. -/
theorem unlinked {front : List Nat} (inv : TaskList.Invariant ⟨links,front ++ [x]⟩) :
    TaskList.Invariant ⟨task_list_remove links x,front⟩ ∧
    (task_list_remove links x).current_task = if x = links.current_task then front.headD 0 else links.current_task := by
  have tail : x = links.task_tail := by
    have last := inv.tail
    dsimp only at last
    rw [last,List.getLastD_concat]
  have outside : x ∉ front := fun inside =>
    (List.nodup_append.mp inv.nodup).2.2 x inside x List.mem_cons_self rfl
  have rest : (front ++ [x]).erase x = front := by
    rw [List.erase_append_right _ outside]
    simp
  have freed := invariant_free inv (show TaskList.Step _ (.free x) _ from ⟨List.mem_append_right _ List.mem_cons_self,rfl⟩) tail
  dsimp only at freed
  rw [rest] at freed
  refine ⟨freed,?_⟩
  have head : (task_list_remove links x).task_head = front.headD 0 := freed.head
  rw [task_list_remove_current links x (last_apart inv),(last_segment inv).2,if_pos rfl,head]

/-- A task that is linked in and taken out again leaves no trace. -/
theorem relinked (inv : TaskList.Invariant ⟨links,ts⟩) (nonempty : ts ≠ []) (nonzero : x ≠ 0) (fresh : x ∉ ts)
    (current : links.current_task ∈ ts) : TaskList.Invariant ⟨task_list_remove (TaskList.task_new links x) x,ts⟩ ∧
    (task_list_remove (TaskList.task_new links x) x).current_task = links.current_task := by
  obtain ⟨made,same⟩ := linked inv nonempty nonzero fresh
  obtain ⟨freed,kept⟩ := unlinked made
  refine ⟨freed,?_⟩
  rw [kept,same,if_neg]
  rintro rfl
  exact fresh current

/-! ### Loading -/

variable {res : Int} {out : Nat}

private theorem Stacked.current_mem (stacked : Stacked s front p t) : s.links.current_task ∈ front.map Prod.snd ++ [t] := by
  rw [stacked.current.2]
  exact List.mem_append_right _ List.mem_cons_self

private theorem Stacked.fresh_task (stacked : Stacked s front p t)
    (unused : ∀ i, s.processes i ≠ 0 → (s.process (s.processes i)).task ≠ x) : x ∉ front.map Prod.snd ++ [t] := by
  intro inside
  have listed : x ∈ (front ++ [(p,t)]).map Prod.snd := by
    rw [List.map_append]
    exact inside
  obtain ⟨⟨q,y⟩,member,rfl⟩ := List.mem_map.mp listed
  obtain ⟨i,slot⟩ := stacked.mem_slot member
  have nonzero := stacked.nonzero q y member
  refine unused i (by rw [slot]; exact nonzero) ?_
  rw [slot]
  exact (stacked.task q y member).1

/-- A load that fails leaves the stack. -/
private theorem Stacked.failed (stacked : Stacked s front p t) (others : ∀ i, s.processes i ≠ 0 → s.processes i ≠ q)
    (failed : LoadFailed (fun x => x ≠ 0 ∧ ∀ i, s.processes i ≠ 0 → (s.process (s.processes i)).task ≠ x) q s w) :
    Stacked w front p t := by
  have process : ∀ r y, (r,y) ∈ front ++ [(p,t)] → w.process r = s.process r := by
    intro r y member
    obtain ⟨i,slot⟩ := stacked.mem_slot member
    exact failed.others r (slot ▸ others i (by rw [slot]; exact stacked.nonzero r y member))
  have links : TaskList.Invariant ⟨w.links,front.map Prod.snd ++ [t]⟩ ∧ w.links.current_task = s.links.current_task ∧
      ∀ r y, (r,y) ∈ front ++ [(p,t)] → w.task y = s.task y := by
    rcases failed.tasks with ⟨tasks,same⟩ | ⟨x,⟨nonzero,unused⟩,tasks,same⟩
    · rw [same]
      exact ⟨stacked.tasks,rfl,fun r y _ => congrFun tasks y⟩
    · have fresh := stacked.fresh_task unused
      obtain ⟨inv,current⟩ := relinked stacked.tasks (by simp) nonzero fresh stacked.current_mem
      rw [same]
      refine ⟨inv,current,fun r y member => tasks y ?_⟩
      rintro rfl
      have listed := List.mem_map_of_mem (f := Prod.snd) member
      rw [List.map_append] at listed
      exact fresh listed
  obtain ⟨inv,current,tasks⟩ := links
  refine ⟨?_,stacked.below,stacked.nonzero,fun i r y inside => ?_,fun r y member => ?_,inv,?_⟩
  · rw [failed.processes]
    exact stacked.slots
  · rw [process r y (List.mem_of_getElem? inside)]
    exact stacked.id i r y inside
  · rw [process r y member,tasks r y member]
    exact stacked.task r y member
  · rw [failed.current_process,current]
    exact stacked.current

/-- A program that has been loaded is put on the stack when its task is switched to. -/
private theorem Stacked.push (stacked : Stacked s front p t) {slot : Nat} (nonzero : q ≠ 0) (others : ∀ i, s.processes i ≠ q)
    (some : x ≠ 0) (unused : ∀ i, s.processes i ≠ 0 → (s.process (s.processes i)).task ≠ x)
    (first : FirstFree s.processes slot) (loaded : Loaded q x slot s w) :
    Stacked (task_switch x (process_switch q w)) (front ++ [(p,t)]) q x ∧ w.links.current_task = t := by
  have fresh := stacked.fresh_task unused
  obtain ⟨inv,current⟩ := linked stacked.tasks (by simp) some fresh
  have place := stacked.free first
  have length : (front ++ [(p,t)]).length = slot := by rw [place,List.length_append]; rfl
  have process : ∀ r y, (r,y) ∈ front ++ [(p,t)] → w.process r = s.process r := by
    intro r y member
    obtain ⟨i,at_slot⟩ := stacked.mem_slot member
    exact loaded.others r (at_slot ▸ others i)
  have tasks : ∀ r y, (r,y) ∈ front ++ [(p,t)] → w.task y = s.task y := by
    intro r y member
    refine loaded.tasks y ?_
    rintro rfl
    have listed := List.mem_map_of_mem (f := Prod.snd) member
    rw [List.map_append] at listed
    exact fresh listed
  refine ⟨⟨fun i => ?_,?_,fun r y member => ?_,fun i r y inside => ?_,fun r y member => ?_,?_,rfl,rfl⟩,?_⟩
  · change w.processes i = _
    rw [loaded.processes,Function.update_apply]
    split_ifs with new
    · rw [new,← length,List.getElem?_concat_length]
      rfl
    · rw [stacked.slots]
      generalize front ++ [(p,t)] = whole at length ⊢
      rw [List.getElem?_append]
      split_ifs with inside
      · rfl
      · rw [List.getElem?_eq_none (Nat.not_lt.mp inside),List.getElem?_eq_none (by rw [List.length_singleton]; omega)]
  · rw [length]
    exact first.below
  · rcases List.mem_append.mp member with old | new
    · exact stacked.nonzero r y old
    · cases List.mem_singleton.mp new
      exact nonzero
  · rw [List.getElem?_append] at inside
    change (w.process r).id = i
    split_ifs at inside with old
    · rw [process r y (List.mem_of_getElem? inside)]
      exact stacked.id i r y inside
    · have new := List.mem_singleton.mp (List.mem_of_getElem? inside)
      have last := (List.getElem?_eq_some_iff.mp inside).1
      rw [List.length_singleton] at last
      cases new
      rw [loaded.id]
      omega
  · change (w.process r).task = y ∧ (w.task y).process = r
    rcases List.mem_append.mp member with old | new
    · rw [process r y old,tasks r y old]
      exact stacked.task r y old
    · cases List.mem_singleton.mp new
      exact ⟨loaded.own,loaded.process⟩
  · rw [List.map_append,← loaded.links] at *
    refine invariant_switch inv (show TaskList.Step _ (.switch x) _ from ⟨List.mem_append_right _ List.mem_cons_self,rfl⟩)
  · rw [loaded.links,current]
    exact stacked.current.2

/-- Of a load with a switch the stack is left, or has the new program on it once its task is switched to. -/
private theorem Stacked.load_switch (stacked : Stacked s front p t) (granted : LoadGranted services filename s)
    (ran : process_load_switch services filename s = .ok (res,out,w)) :
    (res < 0 ∧ Stacked w front p t) ∨ (res = 0 ∧ w.current_process = out ∧ out ≠ p ∧
      Stacked (task_switch (w.process out).task w) (front ++ [(p,t)]) out (w.process out).task ∧ w.links.current_task = t) := by
  obtain ⟨v,loaded,rfl⟩ := process_load_switch_ok ran
  have wanted : (∃ i, FirstFree s.processes i) → process_block s ≠ 0 → TaskGranted services filename s
      fun x => x ≠ 0 ∧ ∀ i, s.processes i ≠ 0 → (s.process (s.processes i)).task ≠ x := by
    intro slot some r y prepared passed
    obtain ⟨x,room,unused⟩ := (granted slot some).2 r y prepared passed
    exact ⟨x,room,room.some,unused⟩
  rcases process_load_cases rfl wanted loaded with ⟨failed,kept⟩ | ⟨rfl,rfl,some,slot,x,first,⟨nonzero,unused⟩,done⟩
  · rw [if_neg (by omega)]
    refine .inl ⟨failed,?_⟩
    rcases kept with rfl | ⟨free,kept⟩
    · exact stacked
    · refine stacked.failed (fun i taken same => ?_) kept
      exact (granted free (same ▸ taken)).1 i same
  · rw [if_pos rfl]
    have others := (granted ⟨slot,first⟩ some).1
    obtain ⟨pushed,current⟩ := stacked.push some others nonzero unused first done
    have own : ((process_switch (process_block s) v).process (process_block s)).task = x := done.own
    rw [own]
    refine .inr ⟨rfl,rfl,fun same => ?_,pushed,current⟩
    obtain ⟨i,there⟩ := stacked.mem_slot (List.mem_append_right front List.mem_cons_self)
    exact others i (there.trans same.symm)

/-! ### The arguments -/

theorem process_malloc_only (size : Nat) : OnlyProcess p s (s.process_malloc p size).2 := by
  unfold World.process_malloc
  rcases ProcessMemory.process_malloc s.kernel (s.memoryOf p) size with ⟨ptr,k,after⟩
  have kernel : SameTables s (s.withKernel k) := ⟨rfl,rfl,rfl,rfl,rfl⟩
  change OnlyProcess p s ((s.withKernel k).setProcess p fun v => { v with allocations := after.allocations })
  exact (kernel.only p).trans (onlyProcess_set (s.withKernel k) p fun _ => ⟨rfl,rfl⟩)

private theorem inject_loop_only {argv : Nat} (remaining : Nat) : ∀ (i current : Nat) (s : World φ),
    process_inject_arguments_loop p argv remaining i current s = .ok (res,w) → OnlyProcess p s w := by
  induction remaining with
  | zero => exact fun i current s ran => absurd ran (by simp [process_inject_arguments_loop])
  | succ remaining ih =>
    intro i current s ran
    unfold process_inject_arguments_loop at ran
    have only : OnlyProcess p s (s.process_malloc p 512).2 := process_malloc_only 512
    generalize s.process_malloc p 512 = granted at ran only
    obtain ⟨argument_str,v⟩ := granted
    dsimp only at ran only
    split_ifs at ran
    · cases ran
      exact (SameTables.refl _).only p
    · cases ran
      exact only
    · refine (only.trans ?_).trans (ih _ _ _ ran)
      apply SameTables.only
      exact ⟨rfl,rfl,rfl,rfl,rfl⟩

/-- Copying the arguments leaves everything of the tables but the process it is for. -/
theorem process_inject_arguments_only {root_argument : Nat} (ran : process_inject_arguments p root_argument s = .ok (res,w)) :
    OnlyProcess p s w := by
  unfold process_inject_arguments at ran
  cases counted : process_count_command_arguments s.kernel.memory root_argument with
  | none =>
    rw [counted] at ran
    cases ran
  | some argc =>
    rw [counted] at ran
    dsimp only at ran
    have only : OnlyProcess p s (s.process_malloc p (u32 (4 * argc))).2 := process_malloc_only _
    generalize s.process_malloc p (u32 (4 * argc)) = granted at ran only
    obtain ⟨argv,v⟩ := granted
    dsimp only at ran only
    split_ifs at ran
    · cases ran
      exact (SameTables.refl _).only p
    · cases ran
      exact only
    · obtain ⟨⟨res₁,u⟩,looped,ran⟩ := bind_ok ran
      have filled := only.trans (inject_loop_only _ _ _ _ looped)
      dsimp only at ran
      split_ifs at ran
      · cases ran
        exact filled
      · cases ran
        exact filled.trans (onlyProcess_set u p fun _ => ⟨rfl,rfl⟩)

/-! ### The calls -/

theorem copy_string_from_task_same (task virtual max : Nat) (s : World φ) :
    SameTables s (copy_string_from_task task virtual max s).2.2 := by
  unfold copy_string_from_task
  by_cases large : max ≥ Paging.PAGING_PAGE_SIZE
  · rw [if_pos large]
    exact .refl s
  · rw [if_neg large]
    have block : SameTables s (s.kzalloc max).2 := ⟨rfl,rfl,rfl,rfl,rfl⟩
    generalize s.kzalloc max = granted at block ⊢
    obtain ⟨tmp,v⟩ := granted
    refine SameTables.trans block ?_
    dsimp only
    split_ifs
    · exact .refl v
    · exact ⟨rfl,rfl,rfl,rfl,rfl⟩
    · exact ⟨rfl,rfl,rfl,rfl,rfl⟩

theorem process_load_start_eq (s : World φ) : isr80h_command6_process_load_start services s =
    if (copied s).1 < 0 then .ok (copied s).2.2
    else process_load_switch services ([48,58,47] ++ (copied s).2.1) (copied s).2.2 >>= fun (res,process,v) =>
      if res < 0 then .ok v else .ok (task_switch (v.process process).task v) := rfl

theorem process_load_start_ok (ran : isr80h_command6_process_load_start services s = .ok w) :
    w = (copied s).2.2 ∨ ∃ res process v, process_load_switch services ([48,58,47] ++ (copied s).2.1) (copied s).2.2 = .ok (res,process,v) ∧
      w = if res < 0 then v else task_switch (v.process process).task v := by
  rw [process_load_start_eq] at ran
  split_ifs at ran
  · cases ran
    exact .inl rfl
  · obtain ⟨⟨res,process,v⟩,loaded,ran⟩ := bind_ok ran
    refine .inr ⟨res,process,v,loaded,?_⟩
    dsimp only at ran
    split_ifs at ran ⊢
    · cases ran
      rfl
    · cases ran
      rfl

theorem invoke_ok (ran : isr80h_command7_invoke_system_command services s = .ok (res,w)) :
    (res = -EINVARG ∧ w = s ∧ ¬HasArguments s) ∨ HasArguments s ∧ ∃ res₁ process v,
      process_load_switch services (passedPath s) s = .ok (res₁,process,v) ∧
      ((res₁ < 0 ∧ res = res₁ ∧ w = v) ∨ 0 ≤ res₁ ∧ ∃ res₂ u, process_inject_arguments process (passed s) v = .ok (res₂,u) ∧
        ((res₂ < 0 ∧ res = res₂ ∧ w = u) ∨ (0 ≤ res₂ ∧ res = 0 ∧ w = task_switch (u.process process).task u))) := by
  unfold isr80h_command7_invoke_system_command at ran
  change (if passed s = 0 ∨ s.kernel.memory (passed s) = 0x00 then _ else _) = _ at ran
  by_cases none : passed s = 0 ∨ s.kernel.memory (passed s) = 0x00
  · rw [if_pos none] at ran
    cases ran
    exact .inl ⟨rfl,rfl,fun has => none.elim has.1 has.2⟩
  · rw [if_neg none] at ran
    rw [not_or] at none
    refine .inr ⟨none,?_⟩
    obtain ⟨⟨res₁,process,v⟩,loaded,ran⟩ := bind_ok ran
    refine ⟨res₁,process,v,loaded,?_⟩
    dsimp only at ran
    split_ifs at ran with failed
    · cases ran
      exact .inl ⟨failed,rfl,rfl⟩
    · obtain ⟨⟨res₂,u⟩,injected,ran⟩ := bind_ok ran
      refine .inr ⟨by omega,res₂,u,injected,?_⟩
      dsimp only at ran
      split_ifs at ran with short
      · cases ran
        exact .inl ⟨short,rfl,rfl⟩
      · cases ran
        exact .inr ⟨by omega,rfl,rfl⟩

private theorem Stacked.process_load_start (stacked : Stacked s front p t)
    (granted : Granted services s .process_load_start) (ran : isr80h_command6_process_load_start services s = .ok w) :
    ∃ front' q x, Stacked w front' q x := by
  have copied := stacked.same (copy_string_from_task_same (task_current s) (task_get_stack_item (task_current s) 0 s) SIMPOS_MAX_PATH s)
  rcases process_load_start_ok ran with rfl | ⟨res,process,v,loaded,rfl⟩
  · exact ⟨front,p,t,copied⟩
  · rcases copied.load_switch granted loaded with ⟨failed,left⟩ | ⟨zero,_,_,pushed,_⟩
    · rw [if_pos failed]
      exact ⟨front,p,t,left⟩
    · rw [if_neg (by omega)]
      exact ⟨_,_,_,pushed⟩

private theorem Stacked.only (stacked : Stacked s front p t) (only : OnlyProcess q s u) : Stacked u front p t := by
  have kept : ∀ r, (u.process r).id = (s.process r).id ∧ (u.process r).task = (s.process r).task := by
    intro r
    by_cases own : r = q
    · rw [own]
      exact ⟨only.id,only.own⟩
    · rw [only.others r own]
      exact ⟨rfl,rfl⟩
  obtain ⟨slots,below,nonzero,id,task,tasks,current⟩ := stacked
  refine ⟨?_,below,nonzero,fun i r y inside => (kept r).1.trans (id i r y inside),fun r y member => ?_,?_,?_⟩
  · rw [only.processes]
    exact slots
  · rw [(kept r).2,only.task]
    exact task r y member
  · rw [only.links]
    exact tasks
  · rw [only.current_process,only.links]
    exact current

/-- Where the arguments of a loaded program cannot be copied, it is left current without its task. -/
private theorem Stacked.invoke {call : SystemCall} (stacked : Stacked s front p t) (isInvoke : call = .invoke_system_command)
    (granted : Granted services s call) (ran : isr80h_command7_invoke_system_command services s = .ok (res,w)) :
    (Matching services s call → ∃ front' q x, Stacked w front' q x) ∧ (Matched w → Matching services s call) := by
  subst isInvoke
  rcases invoke_ok ran with ⟨_,rfl,none⟩ | ⟨has,res₁,process,v,loaded,outcome⟩
  · exact ⟨fun _ => ⟨front,p,t,stacked⟩,fun _ has => absurd has none⟩
  · rcases stacked.load_switch (granted has) loaded with ⟨failed,left⟩ | ⟨zero,current,other,pushed,task⟩
    · rcases outcome with ⟨_,_,rfl⟩ | ⟨passed,_⟩
      · refine ⟨fun _ => ⟨front,p,t,left⟩,fun _ _ process' v' loaded' => ?_⟩
        rw [loaded] at loaded'
        cases loaded'
        omega
      · omega
    · rcases outcome with ⟨failed,_⟩ | ⟨_,res₂,u,injected,outcome⟩
      · omega
      · have only := process_inject_arguments_only injected
        rcases outcome with ⟨failed,_,rfl⟩ | ⟨passed,_,rfl⟩
        · constructor
          · intro matching
            have ok := matching has process v (zero ▸ loaded) res₂ w injected
            omega
          · intro matched
            have below : (v.task t).process = p := (pushed.task p t (by simp)).2
            unfold Matched task_current at matched
            rw [only.current_process,only.links,only.task,current,task,below] at matched
            exact absurd matched other
        · refine ⟨fun _ => ⟨front ++ [(p,t)],process,(u.process process).task,?_⟩,fun _ _ process' v' loaded' res' w' injected' => ?_⟩
          · have moved : OnlyProcess process (task_switch (v.process process).task v) (task_switch (v.process process).task u) :=
              ⟨only.processes,only.current_process,only.others,only.own,only.id,only.task,congrArg (TaskList.task_switch · _) only.links⟩
            rw [only.own]
            exact pushed.only moved
          · rw [loaded] at loaded'
            cases loaded'
            rw [injected] at injected'
            cases injected'
            exact passed

/-! ### Exits -/

/-- The slots when the topmost program is gone. -/
private theorem Stacked.slots_below (stacked : Stacked s front p t) (i : Nat) :
    Function.update s.processes (s.process p).id 0 i = ((front[i]?).map Prod.fst).getD 0 := by
  rw [stacked.id _ p t List.getElem?_concat_length,Function.update_apply,stacked.slots,List.getElem?_append]
  split_ifs with last inside
  · rw [last,List.getElem?_eq_none (Nat.le_refl _)]
    rfl
  · rfl
  · rw [List.getElem?_eq_none (by rw [List.length_singleton]; omega),List.getElem?_eq_none (Nat.not_lt.mp inside)]

theorem Stacked.own (stacked : Stacked s front p t) : (s.task (task_current s)).process = p := by
  unfold task_current
  rw [stacked.current.2]
  exact (stacked.task p t (List.mem_append_right _ List.mem_cons_self)).2

/-- The only program cannot end. -/
private theorem Stacked.exit_only (stacked : Stacked s [] p t) : idt_handle_exception s = .error .panic := by
  unfold idt_handle_exception
  rw [stacked.own]
  rcases process_terminate_cases p s with ⟨v,_,after⟩ | ⟨_,_,panics⟩
  · have now := after.current_process
    rw [if_pos stacked.current.1] at now
    obtain ⟨i,first,_⟩ := now
    have taken := first.taken
    rw [stacked.slots_below] at taken
    exact absurd rfl taken
  · rw [panics]
    rfl

/-- The end of the topmost program: the process of the lowest slot is current then, and the task
    that follows the first one. -/
theorem Stacked.exit {x : Nat} {rest : List (Nat × Nat)} (stacked : Stacked s ((q,x) :: rest) p t) :
    ∃ w, idt_handle_exception s = .ok w ∧ w.current_process = q ∧ w.links.current_task = (rest.map Prod.snd).headD x ∧
      (∀ r y, (r,y) ∈ (q,x) :: rest → (w.task y).process = r) ∧ (rest = [] → Stacked w [] q x) := by
  have top : (p,t) ∈ ((q,x) :: rest) ++ [(p,t)] := List.mem_append_right _ List.mem_cons_self
  have some : q ≠ 0 := stacked.nonzero q x List.mem_cons_self
  rcases process_terminate_cases p s with ⟨v,terminated,after⟩ | ⟨_,empty,_⟩
  · have zero : t ≠ 0 := fun null => stacked.tasks.nonnull (null ▸ List.mem_append_right _ List.mem_cons_self)
    obtain ⟨inv,current⟩ := unlinked stacked.tasks
    rw [if_pos stacked.current.2.symm] at current
    have links : v.links = task_list_remove s.links t := by
      rw [after.links,(stacked.task p t top).1,if_pos zero]
    rw [← links] at inv current
    have now := after.current_process
    rw [if_pos stacked.current.1] at now
    obtain ⟨i,first,now⟩ := now
    have lowest : i = 0 := by
      by_contra above
      have empty := first.first 0 (by omega)
      rw [stacked.slots_below] at empty
      exact some empty
    rw [lowest,stacked.slots_below] at now
    have following : (v.links.task x).next = (rest.map Prod.snd).headD 0 := inv.segment.2.1
    have head : v.links.task_head = x := inv.head
    have next : task_get_next v.links = (rest.map Prod.snd).headD x ∧ task_get_next v.links ≠ 0 := by
      unfold task_get_next
      rw [current,show (List.map Prod.snd ((q,x) :: rest)).headD 0 = x from rfl,following,head]
      cases rest with
      | nil => exact ⟨rfl,fun null => inv.nonnull (null ▸ List.mem_cons_self)⟩
      | cons second more =>
        have second_nonzero : second.2 ≠ 0 := fun null => inv.nonnull (null ▸ by simp)
        exact ⟨if_neg second_nonzero,(if_neg second_nonzero).trans_ne second_nonzero⟩
    refine ⟨task_switch (task_get_next v.links) v,?_,now,next.1,fun r y member => ?_,fun single => ?_⟩
    · unfold idt_handle_exception
      rw [stacked.own,terminated]
      exact if_neg next.2
    · change (v.task y).process = r
      rw [after.tasks]
      exact (stacked.task r y (List.mem_append_left _ member)).2
    · subst single
      have other : q ≠ p := by
        rintro rfl
        have low := stacked.id 0 q x rfl
        rw [stacked.id _ q t List.getElem?_concat_length] at low
        simp at low
      refine ⟨fun j => ?_,by decide,fun r y member => ?_,fun j r y inside => ?_,fun r y member => ?_,?_,now,next.1⟩
      · change v.processes j = _
        rw [after.processes,stacked.slots_below]
        rfl
      · cases List.mem_singleton.mp member
        exact some
      · change (v.process r).id = j
        cases List.mem_singleton.mp (List.mem_of_getElem? inside)
        rw [after.others q other]
        have below : j < [(q,x)].length := (List.getElem?_eq_some_iff.mp inside).1
        exact stacked.id j q x ((List.getElem?_append_left below).trans inside)
      · change (v.process r).task = y ∧ (v.task y).process = r
        cases List.mem_singleton.mp member
        rw [after.others q other,after.tasks]
        exact stacked.task q x List.mem_cons_self
      · rw [next.1]
        exact invariant_switch inv (show TaskList.Step _ (.switch x) _ from ⟨List.mem_cons_self,rfl⟩)
  · have bottom := empty 0 (by decide)
    rw [stacked.slots_below] at bottom
    exact absurd bottom some

/-- The end of a program keeps the match exactly while there is one other program at most. -/
private theorem Stacked.exit_matched (stacked : Stacked s front p t) (ran : idt_handle_exception s = .ok w) :
    ((registered s).card ≤ 2 → ∃ front' q x, Stacked w front' q x) ∧ (Matched w → (registered s).card ≤ 2) := by
  cases front with
  | nil =>
    rw [stacked.exit_only] at ran
    cases ran
  | cons bottom rest =>
  obtain ⟨q,x⟩ := bottom
  obtain ⟨w',result,current,task,tasks,single⟩ := stacked.exit
  rw [ran] at result
  cases result
  rw [stacked.count,List.length_cons]
  constructor
  · intro few
    have none : rest = [] := List.length_eq_zero_iff.mp (by omega)
    exact ⟨[],q,x,single none⟩
  · intro matched
    cases rest with
    | nil => exact Nat.le_refl 2
    | cons second more =>
      obtain ⟨r,y⟩ := second
      unfold Matched task_current at matched
      rw [current,task,show (w.task ((((r,y) :: more).map Prod.snd).headD x)).process = r from tasks r y (by simp)] at matched
      have low := stacked.id 0 q x rfl
      have high := stacked.id 1 r y rfl
      rw [matched,high] at low
      exact absurd low (by decide)

/-! ### The start -/

/-- No program has been loaded yet. -/
structure NoPrograms (s : World φ) : Prop where
  processes : ∀ i, s.processes i = 0
  task_head : s.links.task_head = 0
  task_tail : s.links.task_tail = 0
  current_task : s.links.current_task = 0

def shell : CString := [48,58,47,115,104,101,108,108,46,101,108,102]

theorem NoPrograms.stacked (empty : NoPrograms s) (granted : LoadGranted services shell s)
    (started : start_shell services s = .ok w) : ∃ p t, Stacked w [] p t := by
  unfold start_shell at started
  obtain ⟨⟨res,out,v⟩,ran,started⟩ := bind_ok started
  change (if res ≠ 0 then _ else task_run_first_ever_task v) = _ at started
  split_ifs at started with passed
  rw [not_not] at passed
  subst passed
  obtain ⟨u,loaded,rfl⟩ := process_load_switch_ok ran
  rw [if_pos rfl] at started
  have wanted : (∃ i, FirstFree s.processes i) → process_block s ≠ 0 → TaskGranted services shell s fun x => x ≠ 0 := by
    intro slot some r y prepared passed
    obtain ⟨x,room,_⟩ := (granted slot some).2 r y prepared passed
    exact ⟨x,room,room.some⟩
  rcases process_load_cases rfl wanted loaded with ⟨failed,_⟩ | ⟨_,rfl,some,slot,x,first,nonzero,done⟩
  · exact absurd failed (Int.lt_irrefl 0)
  have lowest : slot = 0 := by
    by_contra above
    exact first.first 0 (by omega) (empty.processes 0)
  subst lowest
  have none : TaskList.Invariant ⟨s.links,[]⟩ :=
    ⟨List.nodup_nil,List.not_mem_nil,trivial,empty.task_head,empty.task_tail,.inl empty.current_task⟩
  have inv := invariant_new none (show TaskList.Step _ (.new x) _ from ⟨nonzero,List.not_mem_nil,rfl⟩)
  rw [← done.links] at inv
  have head : u.links.task_head = x := inv.head
  unfold task_run_first_ever_task at started
  split_ifs at started
  cases started
  refine ⟨process_block s,x,fun i => ?_,by decide,fun r y member => ?_,fun i r y inside => ?_,fun r y member => ?_,?_,rfl,head⟩
  · change u.processes i = _
    rw [done.processes,Function.update_apply]
    split_ifs with here
    · rw [here]
      rfl
    · rw [empty.processes,List.getElem?_eq_none (by rw [List.length_append]; simp; omega)]
      rfl
  · cases List.mem_singleton.mp member
    exact some
  · have last : i < 1 := (List.getElem?_eq_some_iff.mp inside).1
    cases List.mem_singleton.mp (List.mem_of_getElem? inside)
    change (u.process (process_block s)).id = i
    rw [done.id]
    omega
  · cases List.mem_singleton.mp member
    exact ⟨done.own,done.process⟩
  · change TaskList.Invariant ⟨TaskList.task_switch u.links u.links.task_head,[x]⟩
    rw [head]
    exact invariant_switch inv (show TaskList.Step _ (.switch x) _ from ⟨List.mem_cons_self,rfl⟩)

end

/-- In a run in which loads get their blocks, the current process is that of the current task
    throughout exactly when every program that is invoked gets its arguments and none ends with two
    others beside it. -/
theorem current_process_iff {services : FileServices φ} {boot start : World φ} (empty : NoPrograms boot)
    (granted : LoadGranted services shell boot) (started : start_shell services boot = .ok start)
    {moves : List (SystemCall × World φ)} (run : Run (Step services) start moves) (each : Each (Granted services) start moves) :
    Always Matched start moves ↔ Each (Matching services) start moves := by
  have together : Run (fun s call t => Step services s call t ∧ Granted services s call) start moves :=
    run_with_each run each
  obtain ⟨p,t,stacked⟩ := empty.stacked granted started
  have kept : ∀ s call w, (∃ front p t, Stacked s front p t) → Step services s call w ∧ Granted services s call →
      (Matching services s call → ∃ front p t, Stacked w front p t) ∧ (Matched w → Matching services s call) := by
    rintro s call w ⟨front,p,t,stacked⟩ ⟨step,granted⟩
    cases call with
    | process_load_start => exact ⟨fun _ => stacked.process_load_start granted step,fun _ => trivial⟩
    | invoke_system_command =>
      obtain ⟨res,ran⟩ := step
      exact stacked.invoke rfl granted ran
    | exit => exact stacked.exit_matched step
    | exception => exact stacked.exit_matched step
  refine always_iff_each (fun s => ∃ front p t, Stacked s front p t) (fun s call w inv step => (kept s call w inv step).1)
    ?_ (fun s call w inv step => (kept s call w inv step).2) ⟨[],p,t,stacked⟩ together
  rintro s ⟨front,p,t,stacked⟩
  exact stacked.matched

/-! ### Programs from a disk of zeros -/

section
variable {s w : World Unit} {live : List Extents.Extent} {front : List (Nat × Nat)} {p t : Nat}

/-- The processes and tasks of the stack are in live blocks. -/
structure Housed (live : List Extents.Extent) (s : World Unit) (front : List (Nat × Nat)) (p t : Nat) : Prop where
  stacked : Stacked s front p t
  held : ∀ q u, (q,u) ∈ front ++ [(p,t)] → Held live q ∧ Held live u
  laid : Laid s.kernel.kernel_heap live

/-- A string is copied while a block is left. -/
theorem copied_room (laid : Laid s.kernel.kernel_heap live) (few : taken live < 25600) :
    ∃ live', (copied s).1 = 0 ∧ Laid (copied s).2.2.kernel.kernel_heap live' ∧ taken live' = taken live + 1 ∧ ∀ e ∈ live, e ∈ live' := by
  obtain ⟨b,k,granted,free,_,laid'⟩ := kzalloc_few SIMPOS_MAX_PATH laid (by decide) (by decide) few
  have block : s.kzalloc SIMPOS_MAX_PATH = (blockAddress b,s.withKernel k) := by
    rw [World.kzalloc,granted]
    rfl
  unfold copied copy_string_from_task
  rw [if_neg (by decide),block]
  dsimp only
  rw [if_neg (blockAddress_pos b).ne',Paging.paging_set_aligned (blockAddress_aligned b)]
  dsimp only
  rw [if_neg (Int.lt_irrefl 0)]
  refine ⟨⟨b,1⟩ :: live,rfl,laid',?_,fun e member => List.mem_cons_of_mem _ member⟩
  rw [taken_cons,Nat.add_comm]

/-- While there is room another program can be started. -/
theorem Housed.start (housed : Housed live s front p t) (few : taken live + 1036 < 6400) (slot : front.length + 1 < 12) :
    ∃ w q x live', isr80h_command6_process_load_start zeroFiles s = .ok w ∧ Granted zeroFiles s .process_load_start ∧
      Housed live' w (front ++ [(p,t)]) q x ∧ taken live' = taken live + 1036 := by
  obtain ⟨live₁,passed,laid,count,more⟩ := copied_room housed.laid (by omega)
  have same := copy_string_from_task_same (task_current s) (task_get_stack_item (task_current s) 0 s) SIMPOS_MAX_PATH s
  change SameTables s (copied s).2.2 at same
  have stacked := housed.stacked.same same
  obtain ⟨path,read⟩ : ∃ path : CString, path = [48,58,47] ++ (copied s).2.1 := ⟨_,rfl⟩
  have one : HeapLayout.blocks 32 = 1 := by decide
  have first : FirstFree (copied s).2.2.processes (front.length + 1) := by
    refine ⟨slot,?_,fun j below => (stacked.taken_iff j).mpr below⟩
    by_contra taken
    exact absurd ((stacked.taken_iff _).mp taken) (Nat.lt_irrefl _)
  obtain ⟨q,x,v,live',fresh,count'⟩ := process_load_binary_file (zeroFiles_binary path) (by decide) (by decide) laid
    (by rw [one]; change _ < 6400; omega) first
  have others : ∀ i, (copied s).2.2.processes i ≠ 0 → Held live₁ ((copied s).2.2.processes i) ∧
      Held live₁ ((copied s).2.2.process ((copied s).2.2.processes i)).task := by
    intro i taken
    obtain ⟨r,y,member,there⟩ := stacked.slot_mem taken
    rw [there,(stacked.task r y member).1]
    exact ⟨(housed.held r y member).1.mono more,(housed.held r y member).2.mono more⟩
  have granted : LoadGranted zeroFiles path (copied s).2.2 := by
    intro _ _
    rw [fresh.block]
    refine ⟨fun i same => ?_,fun res u prepared ok => ?_⟩
    · exact fresh.process (same ▸ (others i (same ▸ fresh.some)).1)
    · obtain ⟨y,room,rfl⟩ := fresh.granted res u prepared ok
      exact ⟨y,room,fun i taken same => fresh.task (same ▸ (others i taken).2)⟩
  have loaded : process_load_switch zeroFiles path (copied s).2.2 = .ok (0,q,process_switch q v) := by
    unfold process_load_switch
    rw [fresh.ran]
    rfl
  rcases stacked.load_switch granted loaded with ⟨failed,_⟩ | ⟨_,_,_,pushed,_⟩
  · exact absurd failed (Int.lt_irrefl 0)
  have own : ((process_switch q v).process q).task = x := fresh.loaded.own
  rw [own] at pushed
  refine ⟨task_switch x (process_switch q v),q,x,live',?_,by rw [read] at granted; exact granted,⟨pushed,fun r y member => ?_,fresh.laid⟩,by omega⟩
  · rw [read] at loaded
    rw [process_load_start_eq,passed,if_neg (Int.lt_irrefl 0),bind_of_ok _ loaded]
    change Except.ok (task_switch ((process_switch q v).process q).task _) = _
    rw [own]
  · rcases List.mem_append.mp member with old | new
    · have held := housed.held r y old
      exact ⟨fresh.held.2.2 r (held.1.mono more),fresh.held.2.2 y (held.2.mono more)⟩
    · cases List.mem_singleton.mp new
      exact ⟨fresh.held.1,fresh.held.2.1⟩

/-- The shell is started when the kernel comes up. -/
theorem boot_started : ∃ start p t live, LoadGranted zeroFiles shell bootWorld ∧ start_shell zeroFiles bootWorld = .ok start ∧
    Housed live start [] p t ∧ taken live = 1035 := by
  have one : HeapLayout.blocks 32 = 1 := by decide
  obtain ⟨p,t,v,live,fresh,count⟩ := process_load_binary_file (zeroFiles_binary shell) (by decide) (by decide)
    bootWorld_laid (by rw [one]; decide) bootWorld_slot
  have empty : NoPrograms bootWorld := ⟨fun _ => rfl,rfl,rfl,rfl⟩
  have granted : LoadGranted zeroFiles shell bootWorld := by
    intro _ some
    refine ⟨fun i same => some same.symm,fun res u prepared ok => ?_⟩
    obtain ⟨y,room,_⟩ := fresh.granted res u prepared ok
    exact ⟨y,room,fun i taken => absurd rfl taken⟩
  have linked : v.links = TaskList.task_new ⟨fun _ => ⟨0,0⟩,0,0,0⟩ t := fresh.loaded.links
  have task : t ≠ 0 := by
    obtain ⟨b,_,rfl⟩ := fresh.held.2.1
    exact (blockAddress_pos b).ne'
  have started : start_shell zeroFiles bootWorld = .ok (task_switch t (process_switch p v)) := by
    have loaded : process_load_switch zeroFiles shell bootWorld = .ok (0,p,process_switch p v) := by
      unfold process_load_switch
      rw [fresh.ran]
      rfl
    unfold start_shell
    refine (bind_of_ok _ loaded).trans ((if_neg (not_not.mpr rfl)).trans ?_)
    unfold task_run_first_ever_task
    change (if v.links.current_task = 0 then _ else Except.ok (task_switch v.links.task_head _)) = _
    rw [linked]
    exact if_neg task
  obtain ⟨q,x,stacked⟩ := empty.stacked granted started
  obtain ⟨process,current⟩ := stacked.current
  cases process
  cases current
  refine ⟨_,p,t,live,granted,started,⟨stacked,fun r y member => ?_,fresh.laid⟩,?_⟩
  · cases List.mem_singleton.mp member
    exact ⟨fresh.held.1,fresh.held.2.1⟩
  · rw [count,one]
    rfl

/-- The shell starts a program, which ends. -/
theorem current_process_one_program : ∃ (start : World Unit) (moves : List (SystemCall × World Unit)),
    start_shell zeroFiles bootWorld = .ok start ∧ moves.map Prod.fst = [.process_load_start,.exit] ∧
    Run (Step zeroFiles) start moves ∧ Always Matched start moves := by
  obtain ⟨start,p,t,live,granted,started,housed,count⟩ := boot_started
  obtain ⟨v,q,x,live',loads,asked,above,_⟩ := housed.start (by omega) (by decide)
  obtain ⟨w,ends,_⟩ := above.stacked.exit
  have run : Run (Step zeroFiles) start [(.process_load_start,v),(.exit,w)] := ⟨loads,ends,trivial⟩
  have few : Matching zeroFiles v .exit := (above.stacked.count.le : (registered v).card ≤ 2)
  exact ⟨start,_,started,rfl,run,
    (current_process_iff ⟨fun _ => rfl,rfl,rfl,rfl⟩ granted started run ⟨asked,trivial,trivial⟩).mpr ⟨trivial,few,trivial⟩⟩

/-- Of three programs the last one ends: the keys go to the first then, and the second one runs. -/
theorem current_process_two_programs : ∃ (start : World Unit) (moves : List (SystemCall × World Unit)),
    start_shell zeroFiles bootWorld = .ok start ∧ moves.map Prod.fst = [.process_load_start,.process_load_start,.exit] ∧
    Run (Step zeroFiles) start moves ∧ ¬Always Matched start moves := by
  obtain ⟨start,p,t,live,granted,started,housed,count⟩ := boot_started
  obtain ⟨u,q,x,live',loads,_,above,count'⟩ := housed.start (by omega) (by decide)
  obtain ⟨v,r,y,live'',loads',_,top,_⟩ := above.start (by omega) (by simp)
  obtain ⟨w,ends,_⟩ := top.stacked.exit
  refine ⟨start,[(.process_load_start,u),(.process_load_start,v),(.exit,w)],started,rfl,⟨loads,loads',ends,trivial⟩,fun always => ?_⟩
  have few := (top.stacked.exit_matched ends).2 always.final
  rw [top.stacked.count] at few
  exact absurd few (by simp)

end

end SimpOS.CurrentProcess
