import SimpOS.ProcessMemory
import SimpOS.Runs

/-!
What `process_free` does for a pointer that the process does not own. The slots hold no pointers but
live ones, so that only the null pointer, which stands for an empty slot, is found without being
owned; and the heap takes it for a block that lies below its table.
-/
namespace SimpOS.ProcessFrees
open SimpOS.Machine SimpOS.Memory SimpOS.Extents SimpOS.HeapBlocks SimpOS.HeapLayout SimpOS.Paging SimpOS.AddressSpaces
open SimpOS.KernelHeap SimpOS.ProcessMemory SimpOS.Runs

/-! ### Runs of one process -/

/-- The kernel, a process, and the pointers that have been returned to the process and not freed since. -/
structure OwnerState where
  kernel : Kernel
  process : Process
  live : Nat → Prop

inductive OwnerCall
  | malloc (size : Nat)
  | free (ptr : Nat)
  | other

/-- A call of the process, with any size or pointer, or anything that the rest of the kernel does
    with memory and the heap's table. -/
def Step (s : OwnerState) : OwnerCall → OwnerState → Prop
  | .malloc size, t => t = ⟨(process_malloc s.kernel s.process size).2.1,(process_malloc s.kernel s.process size).2.2,
      fun p => s.live p ∨ (p ≠ 0 ∧ p = (process_malloc s.kernel s.process size).1)⟩
  | .free ptr, t => t = ⟨(process_free s.kernel s.process ptr).1,(process_free s.kernel s.process ptr).2,
      fun p => s.live p ∧ p ≠ ptr⟩
  | .other, t => t.process = s.process ∧ t.live = s.live ∧
      t.kernel.kernel_heap.start_address = s.kernel.kernel_heap.start_address ∧
      t.kernel.kernel_heap.table.total = s.kernel.kernel_heap.table.total

/-- The heap is the kernel's, and the slots are empty but for slot 1, which may hold a live pointer. -/
structure Owned (s : OwnerState) : Prop where
  start : s.kernel.kernel_heap.start_address = SIMPOS_HEAP_ADDRESS
  total : s.kernel.kernel_heap.table.total = 25600
  others : ∀ j < 1024, j ≠ 1 → s.process.allocations j = ⟨0,0⟩
  slot : s.process.allocations 1 = ⟨0,0⟩ ∨ ∃ ptr size, s.process.allocations 1 = ⟨ptr,size⟩ ∧ ptr ≠ 0 ∧ s.live ptr ∧
    Mappable ptr ptr (paging_align_address (offset ptr size))

private theorem kzalloc_geometry (k : Kernel) (size : Nat) : (kzalloc k size).2.kernel_heap.start_address = k.kernel_heap.start_address ∧
    (kzalloc k size).2.kernel_heap.table.total = k.kernel_heap.table.total := by
  have heap : (heap_malloc k.kernel_heap size).2.start_address = k.kernel_heap.start_address ∧
      (heap_malloc k.kernel_heap size).2.table.total = k.kernel_heap.table.total := by
    simp only [heap_malloc,heap_malloc_blocks]
    split_ifs
    · exact ⟨rfl,rfl⟩
    · exact ⟨rfl,rfl⟩
  rw [kzalloc,kmalloc]
  dsimp only
  split_ifs
  · exact heap
  · exact heap

/-- A request leaves the slots as they were, or returns the pointer that it notes in slot 1. -/
private theorem process_malloc_slot (k : Kernel) (process : Process) (size : Nat) :
    ((process_malloc k process size).2.1.kernel_heap.start_address = k.kernel_heap.start_address ∧
      (process_malloc k process size).2.1.kernel_heap.table.total = k.kernel_heap.table.total) ∧
    ((process_malloc k process size).2.2 = process ∨ ∃ ptr, ptr ≠ 0 ∧ (process_malloc k process size).1 = ptr ∧
      (process_malloc k process size).2.2.allocations = Function.update process.allocations 1 ⟨ptr,size⟩ ∧
      Mappable ptr ptr (paging_align_address (offset ptr size))) := by
  have geometry := kzalloc_geometry k size
  rw [process_malloc,process_find_free_allocation_index_correct]
  generalize kzalloc k size = granted at geometry ⊢
  obtain ⟨p,k'⟩ := granted
  dsimp only at geometry ⊢
  by_cases null : p = 0
  · rw [if_pos null]
    exact ⟨geometry,.inl rfl⟩
  · rw [if_neg null]
    by_cases empty : ∃ j < 1024, (process.allocations j).ptr = 0
    · rw [if_pos empty,if_neg (by decide)]
      by_cases accepted : Mappable p p (paging_align_address (offset p size))
      · rw [paging_map_to_result _ _ _ accepted,if_neg (Int.lt_irrefl 0)]
        exact ⟨geometry,.inr ⟨p,null,rfl,rfl,accepted⟩⟩
      · rw [paging_map_to_refused accepted,if_pos (show (-EINVARG : Int) < 0 by decide)]
        exact ⟨geometry,.inl rfl⟩
    · rw [if_neg empty,if_pos (by decide)]
      exact ⟨geometry,.inl rfl⟩

private theorem process_free_geometry (k : Kernel) (process : Process) (ptr : Nat) :
    (process_free k process ptr).1.kernel_heap.start_address = k.kernel_heap.start_address ∧
    (process_free k process ptr).1.kernel_heap.table.total = k.kernel_heap.table.total := by
  rcases process_free_cases k process ptr with ⟨result,_⟩ | ⟨_,_,_,⟨_,result⟩ | ⟨_,result⟩⟩
  · rw [result]
    exact ⟨rfl,rfl⟩
  · rw [result]
    exact ⟨rfl,rfl⟩
  · rw [result]
    exact ⟨rfl,rfl⟩

private theorem Owned.malloc {s : OwnerState} (owned : Owned s) (size : Nat) :
    Owned ⟨(process_malloc s.kernel s.process size).2.1,(process_malloc s.kernel s.process size).2.2,
      fun p => s.live p ∨ (p ≠ 0 ∧ p = (process_malloc s.kernel s.process size).1)⟩ := by
  obtain ⟨⟨start,total⟩,same | ⟨ptr,nonnull,pointer,slots,accepted⟩⟩ :=
    process_malloc_slot s.kernel s.process size
  · refine ⟨start.trans owned.start,total.trans owned.total,?_,?_⟩
    · simp only [same]
      exact owned.others
    · simp only [same]
      rcases owned.slot with empty | ⟨ptr,size',holds,nonnull,live,accepted⟩
      · exact .inl empty
      · exact .inr ⟨ptr,size',holds,nonnull,.inl live,accepted⟩
  · refine ⟨start.trans owned.start,total.trans owned.total,fun j below other => ?_,.inr ⟨ptr,size,?_,nonnull,?_,accepted⟩⟩
    · simp only [slots,Function.update_of_ne other]
      exact owned.others j below other
    · simp only [slots,Function.update_self]
    · exact .inr ⟨nonnull,pointer.symm⟩

private theorem Owned.free {s : OwnerState} (owned : Owned s) (ptr : Nat) :
    Owned ⟨(process_free s.kernel s.process ptr).1,(process_free s.kernel s.process ptr).2,fun p => s.live p ∧ p ≠ ptr⟩ := by
  obtain ⟨start,total⟩ := process_free_geometry s.kernel s.process ptr
  refine ⟨start.trans owned.start,total.trans owned.total,?_,?_⟩
  · intro j below other
    have empty := owned.others j below other
    rcases process_free_cases s.kernel s.process ptr with ⟨result,_⟩ | ⟨_,_,_,⟨_,result⟩ | ⟨_,result⟩⟩
    · simp only [result]
      exact empty
    · simp only [result]
      exact empty
    · simp only [result]
      rw [remove_process_allocation_allocations _ _ _ below,empty]
      split_ifs <;> rfl
  · rcases owned.slot with empty | ⟨p,size,holds,nonnull,live,accepted⟩
    · left
      rcases process_free_cases s.kernel s.process ptr with ⟨result,_⟩ | ⟨_,_,_,⟨_,result⟩ | ⟨_,result⟩⟩
      · simp only [result,empty]
      · simp only [result,empty]
      · simp only [result]
        rw [remove_process_allocation_allocations _ _ _ (by decide),empty]
        split_ifs <;> rfl
    · by_cases same : p = ptr
      · subst same
        left
        -- only slot 1 holds a pointer, so the lookup finds it there
        rcases process_free_cases s.kernel s.process p with ⟨_,absent⟩ | ⟨j,below,found,⟨refused,_⟩ | ⟨_,result⟩⟩
        · exact absurd (by rw [holds]) (absent 1 (by decide))
        · by_cases one : j = 1
          · rw [one,holds] at refused
            exact absurd accepted refused
          · rw [owned.others j below one] at found
            exact absurd found.symm nonnull
        · simp only [result]
          rw [remove_process_allocation_allocations _ _ _ (by decide),holds,if_pos rfl]
      · refine .inr ⟨p,size,?_,nonnull,⟨live,same⟩,accepted⟩
        rcases process_free_cases s.kernel s.process ptr with ⟨result,_⟩ | ⟨_,_,_,⟨_,result⟩ | ⟨_,result⟩⟩
        · simp only [result,holds]
        · simp only [result,holds]
        · simp only [result]
          rw [remove_process_allocation_allocations _ _ _ (by decide),holds,if_neg same]

private theorem Owned.step {s t : OwnerState} {call : OwnerCall} (owned : Owned s) (step : Step s call t) : Owned t := by
  cases call with
  | malloc size =>
    obtain rfl := step
    exact owned.malloc size
  | free ptr =>
    obtain rfl := step
    exact owned.free ptr
  | other =>
    obtain ⟨process,live,start,total⟩ := step
    refine ⟨start.trans owned.start,total.trans owned.total,?_,?_⟩
    · rw [process]
      exact owned.others
    · rw [process,live]
      exact owned.slot

theorem owned_final {s : OwnerState} {moves : List (OwnerCall × OwnerState)} (owned : Owned s)
    (run : Run Step s moves) : Owned (final s moves) :=
  (always_of_kept (fun _ _ _ owned step _ => owned.step step) owned run each_true).final

/-! ### Pointers that are not owned -/

/-- Freeing the pointer leaves the heap's table and the memory around it, all other memory, which has
    the process's pages, and the slots as they were. -/
structure Untouched (k : Kernel) (process : Process) (ptr : Nat) : Prop where
  heap : ∀ i, (process_free k process ptr).1.kernel_heap.table.entries i = k.kernel_heap.table.entries i
  memory : (process_free k process ptr).1.memory = k.memory
  allocations : ∀ j < 1024, (process_free k process ptr).2.allocations j = process.allocations j

section
variable {s : OwnerState} {ptr : Nat}

private theorem untouched_foreign (owned : Owned s) (foreign : ¬ s.live ptr) (nonnull : ptr ≠ 0) :
    Untouched s.kernel s.process ptr := by
  rcases process_free_cases s.kernel s.process ptr with ⟨result,_⟩ | ⟨j,below,found,_⟩
  · exact ⟨fun i => by rw [result],by rw [result],fun j _ => by rw [result]⟩
  · by_cases one : j = 1
    · subst one
      rcases owned.slot with empty | ⟨p,size,holds,_,live,_⟩
      · rw [empty] at found
        exact absurd found.symm nonnull
      · rw [holds] at found
        exact absurd (found ▸ live) foreign
    · rw [owned.others j below one] at found
      exact absurd found.symm nonnull

/-- The null pointer is found in the first slot that is empty, and the heap frees from below its table on. -/
private theorem process_free_null (owned : Owned s) : process_free s.kernel s.process 0 =
    (⟨s.kernel.memory,heap_mark_blocks_free s.kernel.kernel_heap (-4096)⟩,remove_process_allocation s.process 0) := by
  have zero := owned.others 0 (by decide) (by decide)
  have found : process_get_allocation_addr s.process 0 = some 0 := by
    rw [process_get_allocation_addr,SIMPOS_MAX_PROGRAM_ALLOCATIONS,process_get_allocation_addr_loop,zero,if_pos rfl]
  have block : heap_address_to_block s.kernel.kernel_heap 0 = -4096 := by
    rw [heap_address_to_block,owned.start]
    decide
  have rounded : paging_align_address (offset 0 0) = 0 := by decide
  simp only [process_free,found,zero,rounded,paging_map_to_empty s.kernel.memory s.process.page_directory 0 (show 0 % 4096 = 0 by decide),
    Int.lt_irrefl,if_false,kfree,heap_free,block]

private theorem untouched_null_iff (owned : Owned s) :
    Untouched s.kernel s.process 0 ↔ s.kernel.kernel_heap.table.entries (-4096) = 0 := by
  have total := owned.total
  have below : (-4096 : Int) < s.kernel.kernel_heap.table.total := by omega
  have freed := process_free_null owned
  constructor
  · intro untouched
    have kept := untouched.heap (-4096)
    rw [freed] at kept
    exact kept.symm.trans (heap_mark_blocks_free_first below)
  · intro clear
    refine ⟨fun i => ?_,by rw [freed],fun j inside => ?_⟩
    · have heap : (process_free s.kernel s.process 0).1.kernel_heap = heap_mark_blocks_free s.kernel.kernel_heap (-4096) := by
        rw [freed]
      rw [heap,heap_mark_blocks_free_single below (by rw [clear]; rfl)]
      split_ifs with here
      · rw [here,clear]
      · rfl
    · have slots : (process_free s.kernel s.process 0).2 = remove_process_allocation s.process 0 := by rw [freed]
      rw [slots,remove_process_allocation_allocations _ _ _ inside]
      split_ifs with null
      · by_cases one : j = 1
        · subst one
          rcases owned.slot with empty | ⟨p,size,holds,nonnull,_⟩
          · rw [empty]
          · rw [holds] at null
            exact absurd null nonnull
        · exact (owned.others j inside one).symm
      · rfl

private theorem untouched_iff (owned : Owned s) (foreign : ¬ s.live ptr) :
    Untouched s.kernel s.process ptr ↔ ptr ≠ 0 ∨ s.kernel.kernel_heap.table.entries (-4096) = 0 := by
  by_cases null : ptr = 0
  · rw [null,untouched_null_iff owned]
    exact ⟨.inr,fun holds => holds.resolve_left fun nonnull => nonnull rfl⟩
  · exact ⟨fun _ => .inl null,fun _ => untouched_foreign owned foreign null⟩

end

theorem owned_loaded {kernel : Kernel} {process : Process} (start : kernel.kernel_heap.start_address = SIMPOS_HEAP_ADDRESS)
    (total : kernel.kernel_heap.table.total = 25600) (empty : ∀ j < 1024, process.allocations j = ⟨0,0⟩) :
    Owned ⟨kernel,process,fun _ => False⟩ :=
  ⟨start,total,fun j below _ => empty j below,.inl (empty 1 (by decide))⟩

/-- In every state of a process, freeing a pointer that is not one of its live ones changes nothing
    exactly when the pointer is not null, or the byte 4096 below the heap's table is zero. -/
theorem process_free_foreign_iff {kernel : Kernel} {process : Process}
    (start : kernel.kernel_heap.start_address = SIMPOS_HEAP_ADDRESS) (total : kernel.kernel_heap.table.total = 25600)
    (empty : ∀ j < 1024, process.allocations j = ⟨0,0⟩) {moves : List (OwnerCall × OwnerState)}
    (run : Run Step ⟨kernel,process,fun _ => False⟩ moves) {s : OwnerState}
    (reached : s = final ⟨kernel,process,fun _ => False⟩ moves) {ptr : Nat} (foreign : ¬ s.live ptr) :
    Untouched s.kernel s.process ptr ↔ ptr ≠ 0 ∨ s.kernel.kernel_heap.table.entries (-4096) = 0 := by
  have owned := owned_final (owned_loaded start total empty) run
  rw [← reached] at owned
  exact untouched_iff owned foreign

/-- A process just loaded, on a kernel with this byte below its heap's table. -/
def emptyProcess : Process := ⟨fun _ => ⟨0,0⟩,⟨0⟩⟩
def byteKernel (below : UInt8) : Kernel := ⟨fun _ => 0,kernel_heap_init fun i => if i = -4096 then below else 0⟩

/-- What a request of two blocks leads to. -/
def grantedState : OwnerState :=
  ⟨(process_malloc (byteKernel 0) emptyProcess 5000).2.1,(process_malloc (byteKernel 0) emptyProcess 5000).2.2,
    fun p => False ∨ (p ≠ 0 ∧ p = (process_malloc (byteKernel 0) emptyProcess 5000).1)⟩
/-- A pointer into the second block frees nothing. -/
theorem process_free_foreign_inside : Untouched grantedState.kernel grantedState.process
    ((process_malloc (byteKernel 0) emptyProcess 5000).1 + 4096) := by
  have run : Run Step ⟨byteKernel 0,emptyProcess,fun _ => False⟩ [(.malloc 5000,grantedState)] := ⟨rfl,trivial⟩
  refine (process_free_foreign_iff rfl rfl (fun _ _ => rfl) run rfl ?_).mpr (.inl (Nat.succ_ne_zero _))
  rintro (never | ⟨_,same⟩)
  · exact never
  · omega

/-- Freeing the null pointer clears a byte below the heap's table. -/
theorem process_free_foreign_null : Run Step ⟨byteKernel 1,emptyProcess,fun _ => False⟩ [] ∧
    ¬ Untouched (byteKernel 1) emptyProcess 0 := by
  have owned : Owned ⟨byteKernel 1,emptyProcess,fun _ => False⟩ := owned_loaded rfl rfl fun _ _ => rfl
  refine ⟨trivial,fun untouched => ?_⟩
  have clear := (untouched_null_iff owned).mp untouched
  exact absurd clear (by decide)

end SimpOS.ProcessFrees
