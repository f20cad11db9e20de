import SimpOS.BinaryLoads
import SimpOS.LoadLeaks

/-!
Loads that fail. Up to the process's own block nothing has happened yet; from then on the exit of
the load gives back what it has taken only where the process has its task, and neither a task that
cannot be had nor a stack that cannot be mapped makes the load fail.
-/
namespace SimpOS.FailedLoads
open SimpOS.Machine SimpOS.Strings SimpOS.Extents SimpOS.HeapBlocks SimpOS.HeapLayout SimpOS.KernelHeap SimpOS.LinkedLists
open SimpOS.Memory SimpOS.AddressSpaces SimpOS.PageDirectories SimpOS.TaskList SimpOS.OpenLeaks SimpOS.FatSystem
open SimpOS.Processes SimpOS.ProcessLoads SimpOS.LoadLeaks

variable {φ δ : Type}

/-- The tasks that are linked from the head on. -/
def Linked (links : Tasks) (tasks : List Nat) : Prop := Visits (fun t => (links.task t).next) 0 links.task_head tasks

/-- What a load that fails should leave; the table of the descriptors is part of the file layer's state. -/
structure Unchanged (file_descriptors : φ → δ) (s w : World φ) : Prop where
  heap : ∀ i : Int, 0 ≤ i → i < s.kernel.kernel_heap.table.total →
    w.kernel.kernel_heap.table.entries i = s.kernel.kernel_heap.table.entries i
  files : file_descriptors w.files = file_descriptors s.files
  processes : w.processes = s.processes
  tasks : ∀ tasks, Linked w.links tasks ↔ Linked s.links tasks
  current_task : w.links.current_task = s.links.current_task
  current_process : w.current_process = s.current_process

/-- An entry of the heap's table is not what it was. -/
def HeapChanged (s w : World φ) : Prop := ∃ b : Int, 0 ≤ b ∧ b < s.kernel.kernel_heap.table.total ∧
  w.kernel.kernel_heap.table.entries b ≠ s.kernel.kernel_heap.table.entries b

/-- There is a slot, and a block for the process. -/
def Begun (s : World φ) (slot : Nat) : Prop := FirstFree s.processes slot ∧ process_block s ≠ 0

section
variable (services : FileServices φ) (filename : CString) (s : World φ)

/-- The program and its stack have been prepared. -/
def Prepared (v : World φ) : Prop :=
  ∃ res, process_prepare services filename (process_block s) (process_cleared s) = .ok (res,v) ∧ 0 ≤ res

/-- The process with what `task_new` returns, as it is when its memory comes to be mapped. -/
def withTask (slot : Nat) (v : World φ) : World φ :=
  let (task, u) := Processes.task_new (process_block s)
    (v.setProcess (process_block s) fun v => { v with filename := filename.take (SIMPOS_MAX_PATH - 1), id := slot })
  u.setProcess (process_block s) fun v => { v with task := task }

/-- The mapping of the program is refused. -/
def Refused (slot : Nat) (v : World φ) : Prop := (process_map_program (process_block s) (withTask filename s slot v)).1 < 0

/-- The kernel with the record for the ELF file, where there is a block for it. -/
def withRecord (s : World φ) : World φ :=
  let (elf_file, s) := s.kzalloc 132
  if elf_file ≠ 0 then s.setElf elf_file fun _ => ⟨0, 0, 0, 0, 0⟩ else s

/-- The file is opened and its size is known, but there is no room to read it to. -/
def NoImage (s : World φ) : Prop :=
  ∃ fd u res file_size v, (withRecord s).onFiles (services.fopen filename [114]) = .ok (fd,u) ∧ 0 < fd ∧
    u.onFiles (services.fstat fd) = .ok ((res,file_size),v) ∧ 0 ≤ res ∧ (v.kzalloc file_size).1 = 0

/-- A step behind the process's block fails: the data or the stack cannot be had, the record or the image
    of the ELF file gets no block, nor the task or its directory, or the mapping of the program or of the stack is refused. -/
inductive FailedStep (slot : Nat) : Prop
  | prepare {res : Int} {v : World φ} :
    process_prepare services filename (process_block s) (process_cleared s) = .ok (res,v) → res < 0 → FailedStep slot
  | record {res : Int} {v : World φ} :
    process_prepare services filename (process_block s) (process_cleared s) = .ok (res,v) →
    ((process_cleared s).kzalloc 132).1 = 0 → FailedStep slot
  | image {res : Int} {v : World φ} :
    process_prepare services filename (process_block s) (process_cleared s) = .ok (res,v) →
    NoImage services filename (process_cleared s) → FailedStep slot
  | task {v : World φ} : Prepared services filename s v → (∀ t, ¬TaskRoom v.kernel t) → FailedStep slot
  | program {v : World φ} : Prepared services filename s v → Refused filename s slot v → FailedStep slot
  | stack {v : World φ} : Prepared services filename s v → ¬Refused filename s slot v →
    (process_map_stack (process_block s) (process_map_program (process_block s) (withTask filename s slot v)).2).1 < 0 →
    FailedStep slot

/-- A step fails, the first two of them included. -/
def Fails : Prop := (∀ slot, ¬Begun s slot) ∨ ∃ slot, Begun s slot ∧ FailedStep services filename s slot

/-- A load that fails changes nothing, and it fails where one of its steps does. -/
def LoadAtomic (file_descriptors : φ → δ) : Prop :=
  ∀ res out w, process_load services filename s = .ok (res,out,w) →
    (res ≠ 0 → Unchanged file_descriptors s w) ∧ (Fails services filename s → res ≠ 0)

end

/-! ### A load without a failing step -/

section
variable {services : FileServices φ} {filename : CString} {s u v w : World φ} {p slot out : Nat} {res : Int}

theorem Unchanged.refl (file_descriptors : φ → δ) (s : World φ) : Unchanged file_descriptors s s :=
  ⟨fun _ _ _ => rfl,rfl,rfl,fun _ => Iff.rfl,rfl,rfl⟩

theorem kzalloc_refused {k : Kernel} {live : List Extent} {size : Nat} (laid : Laid k.kernel_heap live)
    (null : (KernelHeap.kzalloc k size).1 = 0) : KernelHeap.kzalloc k size = (0,k) := by
  unfold KernelHeap.kzalloc kmalloc at null ⊢
  rcases heap_malloc_kernel laid size with ⟨_,refused⟩ | ⟨b,_,_,granted,_⟩
  · rw [refused]
    rfl
  · rw [granted] at null
    dsimp only at null
    rw [if_neg (blockAddress_pos b).ne'] at null
    exact absurd null (blockAddress_pos b).ne'

private theorem block_refused {live : List Extent} (laid : Laid s.kernel.kernel_heap live) (null : process_block s = 0) :
    s.kzalloc 9364 = (0,s) := by
  unfold World.kzalloc
  rw [kzalloc_refused laid null]

theorem load_out_result {given : Nat} {failed : Int} (result : (res,out,w) = process_load_out failed p given v) : res = failed := by
  have same : (process_load_out failed p given v).1 = failed := by
    unfold process_load_out
    split_ifs <;> rfl
  rw [← same,← result]

/-- What the exit does to a load that has failed without a task. -/
private theorem load_out_bare (failed : res < 0) (own : (v.process p).task = 0) : process_load_out res p 0 v = (res,0,v) := by
  unfold process_load_out
  rw [if_pos failed,if_neg (not_not.mpr own)]

/-- A load without a slot or without a block comes back at once. -/
theorem load_idle {live : List Extent} (laid : Laid s.kernel.kernel_heap live) (idle : ∀ slot, ¬Begun s slot)
    (ran : process_load services filename s = .ok (res,out,w)) : res < 0 ∧ w = s := by
  unfold process_load at ran
  dsimp only at ran
  rcases get_free_slot_cases s with ⟨slot,first,found⟩ | ⟨_,full⟩
  · have null : process_block s = 0 := by
      by_contra some
      exact idle slot ⟨first,some⟩
    rw [found,if_neg (by omega)] at ran
    rcases load_for_slot_block (block_refused laid null) first.free first.below ran with ⟨_,rfl,rfl⟩ | ⟨some,_⟩
    · exact ⟨by decide,rfl⟩
    · exact absurd rfl some
  · rw [full,if_pos (by decide)] at ran
    cases ran
    exact ⟨by decide,rfl⟩

/-- A load that has begun, with what it does from its block on. -/
theorem load_begun (begun : Begun s slot) (ran : process_load services filename s = .ok (res,out,w)) :
    ∃ res₁ v, process_prepare services filename (process_block s) (process_cleared s) = .ok (res₁,v) ∧
      ((res₁ < 0 ∧ (res,out,w) = process_load_out res₁ (process_block s) 0 v) ∨
        0 ≤ res₁ ∧ ∃ res₂ u, process_attach filename (process_block s) slot v = (res₂,u) ∧
          (((res₂ < 0 ∨ (u.process (process_block s)).task = 0) ∧ (res,out,w) = process_load_out res₂ (process_block s) 0 u) ∨
            ¬(res₂ < 0 ∨ (u.process (process_block s)).task = 0) ∧ (res,out,w) = (res₂,process_block s,
              { u with processes := Function.update u.processes slot (process_block s) }))) := by
  obtain ⟨first,some⟩ := begun
  unfold process_load at ran
  dsimp only at ran
  rcases get_free_slot_cases s with ⟨slot',first',found⟩ | ⟨taken,_⟩
  · obtain rfl := first.unique first'
    rw [found,if_neg (by omega)] at ran
    have block : s.kzalloc 9364 = (process_block s,(s.kzalloc 9364).2) := rfl
    rcases load_for_slot_block block first.free first.below ran with
      ⟨null,_⟩ | ⟨_,rest⟩
    · exact absurd null some
    · exact rest
  · exact absurd first.free (taken slot first.below)

private theorem task_init_results (task p : Nat) (v : World φ) :
    (task_init task p v).1 = 0 ∨ (task_init task p v).1 = -Machine.EIO := by
  rw [task_init]
  split
  next page_directory k made =>
  clear made
  dsimp only
  by_cases null : page_directory = 0
  · rw [if_pos null]
    exact .inr rfl
  · rw [if_neg null]
    exact .inl rfl

/-- What `task_new` returns is never taken for an error. -/
private theorem task_new_some (p : Nat) (v : World φ) : i32 (Processes.task_new p v).1 ≠ 0 := by
  have block := kzalloc_lt v.kernel 64
  rw [Processes.task_new]
  split
  next task u granted =>
  have same : (KernelHeap.kzalloc v.kernel 64).1 = task := congrArg Prod.fst granted
  rw [same] at block
  by_cases null : task = 0
  · rw [if_pos null]
    exact show i32 (ERROR (-ENOMEM)) ≠ 0 by decide
  · rw [if_neg null]
    split
    next res x made =>
    rcases task_init_results task p u with zero | failed
    · rw [made] at zero
      rw [if_neg (not_not.mpr zero)]
      exact i32_ne_zero null block
    · rw [made] at failed
      obtain rfl : res = -Machine.EIO := failed
      rw [if_pos (by decide)]
      exact show i32 (ERROR (-Machine.EIO)) ≠ 0 by decide

/-- A process gets some task, and then its memory is mapped. -/
private theorem attach_maps (filename : CString) (s v : World φ) (slot : Nat) :
    process_attach filename (process_block s) slot v = process_map_memory (process_block s) (withTask filename s slot v) ∧
    ((withTask filename s slot v).process (process_block s)).task ≠ 0 := by
  have some := task_new_some (process_block s) (v.setProcess (process_block s) fun v =>
    { v with filename := filename.take (SIMPOS_MAX_PATH - 1), id := slot })
  unfold withTask
  generalize made : Processes.task_new (process_block s) (v.setProcess (process_block s) fun v =>
    { v with filename := filename.take (SIMPOS_MAX_PATH - 1), id := slot }) = new at some
  obtain ⟨task,u⟩ := new
  refine ⟨process_attach_made made some,?_⟩
  dsimp only at some ⊢
  simp only [World.setProcess,Function.update_self]
  rintro rfl
  exact some rfl

/-- The load of a process that has been prepared fails where the mapping of the program is refused, and only there. -/
theorem attach_result (filename : CString) (s v : World φ) (slot : Nat) {res₂ : Int}
    (attach : process_attach filename (process_block s) slot v = (res₂,u)) :
    (u.process (process_block s)).task ≠ 0 ∧
      (Refused filename s slot v ∧ res₂ < 0 ∨ ¬Refused filename s slot v ∧ res₂ = 0) := by
  obtain ⟨maps,some⟩ := attach_maps filename s v slot
  obtain ⟨same,_⟩ := process_map_memory_same (process_block s) (withTask filename s slot v)
  have program := process_map_program_result (process_block s) (withTask filename s slot v)
  rw [maps] at attach
  rw [attach] at same
  dsimp only at same
  rw [same.process]
  refine ⟨some,?_⟩
  unfold Refused
  unfold process_map_memory at attach
  generalize process_map_program (process_block s) (withTask filename s slot v) = mapped at attach program
  obtain ⟨res,x⟩ := mapped
  dsimp only at attach program ⊢
  by_cases refused : res < 0
  · rw [if_pos refused] at attach
    cases attach
    exact .inl ⟨refused,refused⟩
  · rw [if_neg refused] at attach
    obtain rfl : res = res₂ := congrArg Prod.fst attach
    refine .inr ⟨refused,program.resolve_right ?_⟩
    rintro rfl
    exact refused (by decide)

/-- A load that succeeds has prepared the program and attached its process, which it puts in the table. -/
theorem load_attached (begun : Begun s slot) (ran : process_load services filename s = .ok (res,out,w)) (loaded : 0 ≤ res) :
    ∃ res₁ v u, process_prepare services filename (process_block s) (process_cleared s) = .ok (res₁,v) ∧ 0 ≤ res₁ ∧
      process_attach filename (process_block s) slot v = (res,u) ∧ res = 0 ∧ out = process_block s ∧
      w = { u with processes := Function.update u.processes slot (process_block s) } := by
  obtain ⟨res₁,v,prepared,⟨failed,result⟩ | ⟨passed,res₂,u,attach,outcome⟩⟩ := load_begun begun ran
  · have same := load_out_result result
    omega
  obtain ⟨task,mapped⟩ := attach_result filename s v slot attach
  obtain ⟨failed | missing,result⟩ | ⟨accepted,result⟩ := outcome
  · have same := load_out_result result
    omega
  · exact absurd missing task
  · cases result
    exact ⟨res₁,v,u,prepared,passed,attach,by omega,rfl,rfl⟩

/-- A load that does not get to its block, or none of whose steps fails, is atomic. -/
private theorem atomic_of_no_failure {live : List Extent} (file_descriptors : φ → δ) (laid : Laid s.kernel.kernel_heap live)
    (none : ¬∃ slot, Begun s slot ∧ FailedStep services filename s slot) :
    LoadAtomic services filename s file_descriptors := by
  intro res out w ran
  by_cases begun : ∃ slot, Begun s slot
  · obtain ⟨slot,begun⟩ := begun
    have zero : res = 0 := by
      obtain ⟨res₁,v,prepared,⟨failed,_⟩ | ⟨loaded,res₂,u,attach,outcome⟩⟩ := load_begun begun ran
      · exact absurd ⟨slot,begun,.prepare prepared failed⟩ none
      · obtain ⟨task,⟨refused,_⟩ | ⟨_,zero⟩⟩ := attach_result filename s v slot attach
        · exact absurd ⟨slot,begun,.program ⟨res₁,prepared,loaded⟩ refused⟩ none
        · rcases outcome with ⟨failed | missing,_⟩ | ⟨_,result⟩
          · omega
          · exact absurd missing task
          · exact (congrArg Prod.fst result).trans zero
    refine ⟨fun failed => absurd zero failed,?_⟩
    rintro (idle | fails)
    · exact absurd begun (idle slot)
    · exact absurd fails none
  · obtain ⟨failed,rfl⟩ := load_idle laid (fun slot first => begun ⟨slot,first⟩) ran
    exact ⟨fun _ => .refl file_descriptors w,fun _ => by omega⟩

/-! ### A load with a failing step -/

private theorem load_for_slot_ends {s₁ v : World φ} {res₁ : Int} (block : s.kzalloc 9364 = (p,s₁)) (some : p ≠ 0)
    (free : s.processes slot = 0) (below : slot < SIMPOS_MAX_PROCESSES)
    (prepared : process_prepare services filename p (s₁.setProcess p fun _ => .zero) = .ok (res₁,v)) :
    ∃ ended, process_load_for_slot services filename slot s = .ok ended := by
  have empty : ¬process_get s slot ≠ 0 := by
    unfold process_get
    rw [if_neg (by omega),Int.toNat_natCast]
    exact not_not.mpr free
  unfold process_load_for_slot
  rw [if_neg empty,block]
  change ∃ ended, (if p = 0 then _ else _) = _
  rw [if_neg some,bind_of_ok _ prepared]
  change ∃ ended, (if res₁ < 0 then _ else _) = _
  by_cases failed : res₁ < 0
  · rw [if_pos failed]
    exact ⟨_,rfl⟩
  · rw [if_neg failed]
    generalize process_attach filename p (slot : Int).toNat v = attached
    obtain ⟨res₂,u⟩ := attached
    change ∃ ended, (if res₂ < 0 ∨ (u.process p).task = 0 then _ else _) = _
    by_cases failed₂ : res₂ < 0 ∨ (u.process p).task = 0
    · rw [if_pos failed₂]
      exact ⟨_,rfl⟩
    · rw [if_neg failed₂]
      exact ⟨_,rfl⟩

/-- A load goes through once the program has been prepared or has failed to be. -/
private theorem load_ends {v : World φ} (begun : Begun s slot)
    (prepared : process_prepare services filename (process_block s) (process_cleared s) = .ok (res,v)) :
    ∃ res out w, process_load services filename s = .ok (res,out,w) := by
  obtain ⟨first,some⟩ := begun
  obtain ⟨slot',first',found⟩ | ⟨taken,_⟩ := get_free_slot_cases s
  · obtain rfl := first.unique first'
    have block : s.kzalloc 9364 = (process_block s,(s.kzalloc 9364).2) := rfl
    obtain ⟨⟨res,out,w⟩,ended⟩ := load_for_slot_ends block some first.free first.below prepared
    unfold process_load
    dsimp only
    rw [found,if_neg (by omega),ended]
    exact ⟨res,out,w,rfl⟩
  · exact absurd first.free (taken slot first.below)

/-- A load with a failing step that returns 0 is not atomic. -/
private theorem not_atomic_of_zero (begun : Begun s slot) (fails : FailedStep services filename s slot)
    (ran : process_load services filename s = .ok (0,out,w)) (file_descriptors : φ → δ) :
    ¬LoadAtomic services filename s file_descriptors :=
  fun atomic => (atomic 0 out w ran).2 (.inr ⟨slot,begun,fails⟩) rfl

/-- A failing step goes unnoticed where the program has been prepared and its mapping is not refused. -/
private theorem unnoticed {v : World φ} (begun : Begun s slot) (prepared : Prepared services filename s v)
    (accepted : ¬Refused filename s slot v) (fails : FailedStep services filename s slot) (file_descriptors : φ → δ) :
    ¬LoadAtomic services filename s file_descriptors := by
  obtain ⟨res₁,prepared,loaded⟩ := prepared
  obtain ⟨res,out,w,ran⟩ := load_ends begun prepared
  suffices zero : res = 0 by
    rw [zero] at ran
    exact not_atomic_of_zero begun fails ran file_descriptors
  obtain ⟨res₁',v',prepared',outcome⟩ := load_begun begun ran
  cases prepared.symm.trans prepared'
  rcases outcome with ⟨failed,_⟩ | ⟨_,res₂,u,attach,outcome⟩
  · omega
  · obtain ⟨task,⟨refused,_⟩ | ⟨_,zero⟩⟩ := attach_result filename s v slot attach
    · exact absurd refused accepted
    · rcases outcome with ⟨failed | missing,_⟩ | ⟨_,result⟩
      · omega
      · exact absurd missing task
      · exact (congrArg Prod.fst result).trans zero

end

section
variable {services : FileServices φ} {own : φ → Int → Prop} {filename : CString} {s t u v : World φ} {slot : Nat}
  {res : Int} {b : Int} {live : List Extent}

/-- The process's block was free, and stays taken. -/
private theorem process_block_pinned (laid : Laid s.kernel.kernel_heap live)
    (used : ¬FreeBlock s.kernel.kernel_heap 0) (some : process_block s ≠ 0) :
    ∃ b, 0 ≤ b ∧ b < 25600 ∧ FreeBlock s.kernel.kernel_heap b ∧ Pinned b (process_cleared s).kernel.kernel_heap := by
  have total := laid.total_eq
  have few : requestBlocks 9364 = 3 := requestBlocks_eq (by decide)
  have heap : (process_cleared s).kernel.kernel_heap = (heap_malloc s.kernel.kernel_heap 9364).2 := by
    unfold process_cleared World.kzalloc KernelHeap.kzalloc kmalloc World.setProcess
    dsimp only
    split_ifs <;> rfl
  rcases heap_malloc_kernel laid 9364 with ⟨_,refused⟩ | ⟨b,_,free,granted,laid₁⟩
  · have null : process_block s = 0 := by
      unfold process_block World.kzalloc KernelHeap.kzalloc kmalloc
      rw [refused]
      rfl
    exact absurd null some
  · have taken : FreeBlock s.kernel.kernel_heap b :=
      (freeBlock_iff laid.layout free.low (by have := free.high; omega)).mpr free.uncovered
    have behind : b ≠ 0 := by
      rintro rfl
      exact used taken
    have low := free.low
    rw [few,withGranted,if_neg (by decide)] at laid₁
    rw [heap,granted,few]
    exact ⟨b,low,free.high,taken,pinned_of_laid laid₁ (by omega)⟩

private theorem Stays.changed {w : World φ} (stays : Stays own b w) (laid : Laid s.kernel.kernel_heap live)
    (free : FreeBlock s.kernel.kernel_heap b) : HeapChanged s w := by
  refine ⟨b,Int.le_of_lt stays.pinned.low,by rw [laid.total_eq]; exact stays.pinned.high,fun same => ?_⟩
  exact stays.pinned.taken ((congrArg heap_get_entry_type same).trans free)

/-- When the program cannot be prepared, the load fails and keeps its block. -/
private theorem block_kept (layer : Housekeeping services own) (laid : Laid s.kernel.kernel_heap live)
    (apart : ∀ b, FreeBlock s.kernel.kernel_heap b → ¬own s.files b) (used : ¬FreeBlock s.kernel.kernel_heap 0) {slot : Nat}
    (begun : Begun s slot) (record : ((process_cleared s).kzalloc 132).1 ≠ 0)
    (prepared : process_prepare services filename (process_block s) (process_cleared s) = .ok (res,t)) (failed : res < 0) :
    ∃ res out w, process_load services filename s = .ok (res,out,w) ∧ res < 0 ∧ HeapChanged s w := by
  obtain ⟨b,low,high,free,pinned⟩ := process_block_pinned laid used begun.2
  have files : (process_cleared s).files = s.files := rfl
  have zero : (process_cleared s).process (process_block s) = .zero := by
    simp only [process_cleared,World.setProcess,Function.update_self]
  have other : ¬own (process_cleared s).files b := by
    rw [files]
    exact apart b free
  have stays : Stays own b t := (process_prepare_stays layer ⟨pinned,other⟩ record zero prepared).stays
  have bare : (t.process (process_block s)).task = 0 := by
    rw [(process_prepare_only prepared).own]
    simp only [process_cleared,World.setProcess,Function.update_self,Process.zero]
  obtain ⟨res₁,out,w,ran⟩ := load_ends begun prepared
  obtain ⟨res₁',v,prepared',⟨_,result⟩ | ⟨loaded,_⟩⟩ := load_begun begun ran
  · cases prepared.symm.trans prepared'
    rw [load_out_bare failed bare] at result
    cases result
    exact ⟨res,0,t,ran,failed,Stays.changed stays laid free⟩
  · cases prepared.symm.trans prepared'
    omega

/-- The process with its task, before its memory is mapped: the block stays, and is none of the chunk's. -/
private theorem with_task_away (filename : CString) (slot : Nat) {t : Nat}
    (held : Held own b (process_block s) v) (room : TaskRoom v.kernel t) (laid : Laid v.kernel.kernel_heap live) :
    ∃ y chunk, y = withTask filename s slot v ∧ Held own b (process_block s) y ∧
      (y.process (process_block s)).task = t ∧ Away b t ∧ (y.task t).page_directory = chunk ∧ chunk + 4 ≤ 4294967296 ∧
      AddressSpace y.kernel.memory (read32 y.kernel.memory chunk) ∧ Outside y.kernel.memory chunk ∧
      ChunkAway b y.kernel.memory chunk := by
  have pinned := held.stays.pinned
  have total := laid.total_eq
  have covered : Covered live b := by
    by_contra uncovered
    exact pinned.taken ((freeBlock_iff laid.layout (Int.le_of_lt pinned.low) (by rw [total]; exact pinned.high)).mpr uncovered)
  obtain ⟨x,made,_,_,process,_,_,_,kernel,directory,records,files⟩ := task_new_room (p := process_block s)
    (s := v.setProcess (process_block s) fun v => { v with filename := filename.take (SIMPOS_MAX_PATH - 1), id := slot })
    ⟨room.task,room.some,room.directory⟩
  have away := (pinned.kzalloc 64).2
  have pinned₁ := (pinned.kzalloc 64).1
  rw [room.task] at away
  have task := room.task
  have success := room.directory
  change x.kernel = (paging_new_4gb (KernelHeap.kzalloc v.kernel 64).2 5).2 at kernel
  change (x.task t).page_directory = (paging_new_4gb (KernelHeap.kzalloc v.kernel 64).2 5).1 at directory
  rcases kzalloc_single laid (by decide : 0 < 64) (by decide) with ⟨_,refused⟩ | ⟨c',k₁,granted,took⟩
  · rw [refused] at task
    exact absurd task.symm room.some
  · rw [granted] at kernel directory success pinned₁
    rcases new : paging_new_4gb k₁ 5 with ⟨chunk,k₂⟩
    rw [new] at kernel directory success
    dsimp only at kernel directory success pinned₁
    obtain ⟨tables,d,c,named,low,high,created⟩ := PageMapping.paging_new_4gb_made took.laid new success
    have pinned₂ := new_4gb_pinned pinned₁ new
    have page := blockAddress_high high
    have fresh : ∀ i ∈ tables ++ [d,c], Away b (blockAddress i) := by
      intro i listed
      have free := (laid_singles created.laid).2 i listed
      refine away_block pinned free.low free.high ?_
      rintro rfl
      obtain ⟨e,member,inside⟩ := covered
      exact free.uncovered ⟨e,List.mem_cons_of_mem _ member,inside⟩
    have space := created.space
    rw [← named] at space
    refine ⟨x.setProcess (process_block s) fun v => { v with task := t },chunk,?_,?_,?_,away,directory,by omega,?_,?_,?_⟩
    · unfold withTask
      rw [made]
    · have stays : Stays own b (x.setProcess (process_block s) fun v => { v with task := t }) := by
        refine ⟨?_,?_⟩
        · change Pinned b x.kernel.kernel_heap
          rw [kernel]
          exact pinned₂
        · change ¬own x.files b
          rw [files]
          exact held.stays.other
      have own_process : (x.setProcess (process_block s) fun v => { v with task := t }).process (process_block s) =
          { v.process (process_block s) with filename := filename.take (SIMPOS_MAX_PATH - 1), id := slot, task := t } := by
        simp only [World.setProcess,Function.update_self,process]
      have own_records : (x.setProcess (process_block s) fun v => { v with task := t }).elf_file = v.elf_file := records
      refine ⟨stays,?_,?_,?_,?_⟩
      · rw [own_process]
        exact held.ptr
      · rw [own_process,own_records]
        exact held.elf_memory
      · rw [own_process]
        exact held.stack
      · rw [own_process]
        exact held.allocations
    · simp only [World.setProcess,Function.update_self]
    · change AddressSpace x.kernel.memory (read32 x.kernel.memory chunk)
      rw [kernel]
      exact space.1
    · change Outside x.kernel.memory chunk
      rw [kernel]
      exact space.2
    · change ChunkAway b x.kernel.memory chunk
      rw [kernel]
      have directory := created.directory
      have length := created.length
      rw [← named] at directory
      exact ⟨tables,d,c,named,length,directory,created.table,fresh⟩

/-- The release of a process whose mapping is refused does not reach the block. -/
private theorem refused_released {t : Nat} (held : Held own b (process_block s) v)
    (process : Away b (process_block s)) (room : TaskRoom v.kernel t) (laid : Laid v.kernel.kernel_heap live) (refused : Refused filename s slot v) {res₂ : Int}
    (attach : process_attach filename (process_block s) slot v = (res₂,u)) :
    Stays own b (process_free_process (process_block s) u) := by
  obtain ⟨y,chunk,new,held₁,own_task,away,own_chunk,high,space,outside,chunkAway⟩ :=
    with_task_away filename slot held room laid
  rw [(attach_maps filename s v slot).1,← new] at attach
  unfold Refused at refused
  rw [← new] at refused
  have same := (process_map_memory_same (process_block s) y).1
  have stops : process_map_memory (process_block s) y = process_map_program (process_block s) y := by
    unfold process_map_memory
    generalize process_map_program (process_block s) y = mapped at refused
    obtain ⟨res,x⟩ := mapped
    exact if_pos refused
  obtain ⟨after,heap,records,files⟩ := refused_chunk high (by rw [own_task]; exact own_chunk) space outside chunkAway refused
  rw [← stops,attach] at after heap records files
  rw [attach] at same
  dsimp only at same after heap records files
  have stays : Stays own b u := ⟨by rw [heap]; exact held₁.stays.pinned,by rw [files]; exact held₁.stays.other⟩
  refine process_free_process_stays (held₁.same stays same.process records) process ?_ ?_
  · rw [same.process,own_task]
    exact away
  · rw [same.process,same.task,own_task,own_chunk]
    exact after

end

/-! ### Loads that are atomic -/

/-- The file layer keeps to its own blocks but leaves one behind for each file it opens, the heap's first block is taken
    and there is one for the record of an ELF file; and where the mapping of the program is refused, the
    process has its task and the heap is in order. -/
structure Orderly (services : FileServices φ) (own : φ → Int → Prop) (filename : CString) (s : World φ) : Prop where
  keeps : Housekeeping services own
  leak : OpensLeak services own
  apart : ∀ b, FreeBlock s.kernel.kernel_heap b → ¬own s.files b
  used : ¬FreeBlock s.kernel.kernel_heap 0
  record : ((process_cleared s).kzalloc 132).1 ≠ 0
  mapped : ∀ slot v, Prepared services filename s v → Refused filename s slot v →
    (∃ t, TaskRoom v.kernel t) ∧ ∃ live, Laid v.kernel.kernel_heap live

section
variable {services : FileServices φ} {own : φ → Int → Prop} {filename : CString} {s t v : World φ} {slot : Nat}
  {live : List Extent}

private theorem cleared_laid (laid : Laid s.kernel.kernel_heap live) :
    (process_cleared s).kernel.kernel_heap.start_address = SIMPOS_HEAP_ADDRESS ∧
    (process_cleared s).kernel.kernel_heap.table.total = 25600 := by
  have heap : (process_cleared s).kernel.kernel_heap = (heap_malloc s.kernel.kernel_heap 9364).2 :=
    (kzalloc_heap s.kernel 9364).1
  rw [heap]
  rcases heap_malloc_kernel laid 9364 with ⟨_,refused⟩ | ⟨b,_,_,granted,laid₁⟩
  · rw [refused]
    exact ⟨laid.start_address,laid.total_eq⟩
  · rw [granted]
    exact ⟨laid₁.start_address,laid₁.total_eq⟩

/-- When the mapping of the program is refused, what opening its file has left behind stays. -/
private theorem leak_kept (orderly : Orderly services own filename s) (laid : Laid s.kernel.kernel_heap live)
    (begun : Begun s slot) (prepared : Prepared services filename s v) (refused : Refused filename s slot v) :
    ∃ res out w, process_load services filename s = .ok (res,out,w) ∧ res < 0 ∧ HeapChanged s w := by
  obtain ⟨⟨t,room⟩,live₁,laid₁⟩ := orderly.mapped slot v prepared refused
  obtain ⟨res₁,prepared,loaded⟩ := prepared
  obtain ⟨start,total⟩ := cleared_laid laid
  have zero : (process_cleared s).process (process_block s) = .zero := by
    simp only [process_cleared,World.setProcess,Function.update_self]
  obtain ⟨b,free,held⟩ := process_prepare_leaks orderly.keeps orderly.leak start total orderly.record zero prepared loaded
  obtain ⟨free,process⟩ : FreeBlock s.kernel.kernel_heap b ∧ Away b (process_block s) :=
    kzalloc_free laid.start_address laid.total_eq held.stays.pinned.low (by decide) free
  obtain ⟨res,out,w,ran⟩ := load_ends begun prepared
  obtain ⟨res₁',v',prepared',outcome⟩ := load_begun begun ran
  cases prepared.symm.trans prepared'
  rcases outcome with ⟨failed,_⟩ | ⟨_,res₂,u,attach,outcome⟩
  · omega
  · have stays := refused_released held process room laid₁ refused attach
    obtain ⟨task,⟨_,failed⟩ | ⟨accepted,_⟩⟩ := attach_result filename s v slot attach
    · rcases outcome with ⟨_,result⟩ | ⟨passed,_⟩
      · unfold process_load_out at result
        rw [if_pos failed,if_pos task] at result
        cases result
        exact ⟨_,_,_,ran,failed,Stays.changed stays laid free⟩
      · exact absurd (.inl failed) passed
    · exact absurd refused accepted

/-- A load that comes back with an error although it has begun has changed the heap. -/
theorem failed_load_changed (orderly : Orderly services own filename s) (laid : Laid s.kernel.kernel_heap live)
    (begun : Begun s slot) (fails : (∃ res v, process_prepare services filename (process_block s) (process_cleared s) =
      .ok (res,v) ∧ res < 0) ∨ ∃ v, Prepared services filename s v ∧ Refused filename s slot v) :
    ∃ res out w, process_load services filename s = .ok (res,out,w) ∧ res < 0 ∧ HeapChanged s w := by
  rcases fails with ⟨res,v,prepared,failed⟩ | ⟨v,prepared,refused⟩
  · exact block_kept orderly.keeps laid orderly.apart orderly.used begun orderly.record prepared failed
  · exact leak_kept orderly laid begun prepared refused

private theorem not_atomic_of_changed (file_descriptors : φ → δ)
    (changed : ∃ res out w, process_load services filename s = .ok (res,out,w) ∧ res < 0 ∧ HeapChanged s w) :
    ¬LoadAtomic services filename s file_descriptors := by
  intro atomic
  obtain ⟨res,out,w,ran,failed,b,low,high,differ⟩ := changed
  exact differ (((atomic res out w ran).1 (by omega)).heap b low high)

/-- A load is atomic when it does not get as far as a block for its process, or none of its steps behind
    that fails. When one fails and the load returns 0, it is not; nor is it when it returns an error. -/
theorem load_atomic_when (file_descriptors : φ → δ) (laid : Laid s.kernel.kernel_heap live) :
    ((¬∃ slot, Begun s slot ∧ FailedStep services filename s slot) → LoadAtomic services filename s file_descriptors) ∧
    (∀ slot out w, Begun s slot → FailedStep services filename s slot →
      process_load services filename s = .ok (0,out,w) → ¬LoadAtomic services filename s file_descriptors) ∧
    ∀ own, Orderly services own filename s → (∃ slot, Begun s slot ∧ FailedStep services filename s slot) →
      ¬LoadAtomic services filename s file_descriptors := by
  refine ⟨atomic_of_no_failure file_descriptors laid,?_,?_⟩
  · intro slot out w begun fails ran
    exact not_atomic_of_zero begun fails ran file_descriptors
  rintro own orderly ⟨slot,begun,fails⟩
  -- what goes wrong once the program has been prepared
  have prepared_fails : ∀ v, Prepared services filename s v → ¬LoadAtomic services filename s file_descriptors := by
    intro v prepared
    by_cases refused : Refused filename s slot v
    · exact not_atomic_of_changed file_descriptors (failed_load_changed orderly laid begun (.inr ⟨v,prepared,refused⟩))
    · exact unnoticed begun prepared refused fails file_descriptors
  have comes_back : ∀ res v, process_prepare services filename (process_block s) (process_cleared s) = .ok (res,v) →
      ¬LoadAtomic services filename s file_descriptors := by
    intro res v prepared
    by_cases failed : res < 0
    · exact not_atomic_of_changed file_descriptors (failed_load_changed orderly laid begun (.inl ⟨res,v,prepared,failed⟩))
    · exact prepared_fails v ⟨res,prepared,Int.not_lt.mp failed⟩
  cases fails with
  | prepare prepared _ => exact comes_back _ _ prepared
  | record prepared _ => exact comes_back _ _ prepared
  | image prepared _ => exact comes_back _ _ prepared
  | task prepared _ => exact prepared_fails _ prepared
  | program prepared _ => exact prepared_fails _ prepared
  | stack prepared _ _ => exact prepared_fails _ prepared

end

/-! ### A disk without files -/

def noFiles : FileServices Unit where
  fopen _ _ files k := .ok (0, files, k)
  fstat _ files k := .ok ((0, 0), files, k)
  fread _ _ _ _ files k := .ok (0, files, k)
  fclose _ files k := .ok (0, files, k)

/-- The kernel with a block of its own, and without a free slot. -/
def usedKernel : Kernel := ⟨fun _ => 0, heap_mark_blocks_taken (kernel_heap_init fun _ => 0) 0 1⟩
def usedWorld : World Unit := { BinaryLoads.bootWorld with kernel := usedKernel }
def fullWorld : World Unit := { usedWorld with processes := fun _ => 1 }

theorem used_laid : Laid usedKernel.kernel_heap [⟨0,1⟩] := by
  have empty := kernel_heap_init_laid fun _ => 0
  refine ⟨rfl,rfl,layout_taken empty.layout (by decide) (by decide) (by decide) fun i inside high => ?_⟩
  rw [mem_mk] at inside
  rw [freeBlock_iff empty.layout inside.1 high]
  rintro ⟨e,member,_⟩
  cases member

theorem noFiles_prepare (filename : CString) (p : Nat) (s : World Unit) :
    ∃ t, process_prepare noFiles filename p s = .ok (-Machine.EIO,t) := by
  unfold process_prepare process_load_data process_load_elf elf_load
  generalize s.kzalloc 132 = granted
  obtain ⟨elf_file,t⟩ := granted
  exact ⟨_,rfl⟩

private theorem noFiles_housekeeping : Housekeeping noFiles fun _ _ => False := by
  refine ⟨?_,?_,?_,?_⟩
  · rintro _ _ files k result files' k' ⟨⟩ b pinned other
    exact ⟨pinned,other⟩
  · rintro _ files k result files' k' ⟨⟩ b pinned other
    exact ⟨pinned,other⟩
  · rintro _ _ _ _ files k result files' k' ⟨⟩ b pinned other
    exact ⟨pinned,other⟩
  · rintro _ files k result files' k' ⟨⟩ b pinned other
    exact ⟨pinned,other⟩

section
variable {s : World Unit}

theorem used_blocks (laid : Laid s.kernel.kernel_heap [⟨0,1⟩]) :
    process_block s ≠ 0 ∧ ((process_cleared s).kzalloc 132).1 ≠ 0 := by
  obtain ⟨b,k,granted,_,_,laid⟩ := BinaryLoads.kzalloc_few (k := s.kernel) 9364 laid (by decide) (by decide) (by decide)
  obtain ⟨c,k',granted',_⟩ := BinaryLoads.kzalloc_few (k := k) 132 laid (by decide) (by decide)
    (by rw [BinaryLoads.taken_cons]; exact show 3 + 1 < 25600 / 1 by decide)
  have pointer : process_block s = blockAddress b := by
    unfold process_block World.kzalloc
    exact congrArg Prod.fst granted
  have record : ((process_cleared s).kzalloc 132).1 = blockAddress c := by
    unfold process_cleared World.kzalloc World.setProcess
    exact (congrArg (fun k => (KernelHeap.kzalloc k 132).1) (congrArg Prod.snd granted)).trans (congrArg Prod.fst granted')
  rw [pointer,record]
  exact ⟨(blockAddress_pos b).ne',(blockAddress_pos c).ne'⟩

theorem noFiles_orderly (filename : CString) (laid : Laid s.kernel.kernel_heap [⟨0,1⟩]) :
    Orderly noFiles (fun _ _ => False) filename s := by
  refine ⟨noFiles_housekeeping,?_,fun _ _ => not_false,?_,(used_blocks laid).2,?_⟩
  · rintro _ _ files k fd files' k' ⟨⟩ opened
    exact absurd rfl opened
  · intro free
    exact (freeBlock_iff laid.layout (Int.le_refl 0) (by rw [laid.total_eq]; decide)).mp free ⟨_,List.mem_cons_self,by rw [mem_mk]; omega⟩
  · rintro slot v ⟨res,prepared,positive⟩
    obtain ⟨t,failed⟩ := noFiles_prepare filename (process_block s) (process_cleared s)
    cases prepared.symm.trans failed
    exact absurd positive (by decide)

end

private theorem used_begun : Begun usedWorld 0 :=
  ⟨⟨by decide,rfl,fun j none => absurd none (Nat.not_lt_zero j)⟩,(used_blocks (s := usedWorld) used_laid).1⟩

/-- When the file is missing, the block for the process is not given back. -/
theorem load_missing_kept : ¬LoadAtomic noFiles [48,58,47,97] usedWorld id := by
  obtain ⟨t,prepared⟩ := noFiles_prepare [48,58,47,97] (process_block usedWorld) (process_cleared usedWorld)
  exact not_atomic_of_changed id (failed_load_changed (noFiles_orderly _ used_laid) used_laid used_begun
    (.inl ⟨_,t,prepared,by decide⟩))

/-- Without a free slot a load is atomic, and without the file it is not. -/
theorem load_atomic_full :
    LoadAtomic noFiles [48,58,47,97] fullWorld id ∧ ¬LoadAtomic noFiles [48,58,47,97] usedWorld id := by
  refine ⟨(load_atomic_when id used_laid).1 ?_,(load_atomic_when id used_laid).2.2 _ (noFiles_orderly _ used_laid) ?_⟩
  · rintro ⟨slot,begun,_⟩
    exact absurd begun.1.free Nat.one_ne_zero
  · obtain ⟨t,failed⟩ := noFiles_prepare [48,58,47,97] (process_block usedWorld) (process_cleared usedWorld)
    exact ⟨0,used_begun,.prepare failed (by decide)⟩

end SimpOS.FailedLoads
