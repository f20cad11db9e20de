import SimpOS.KernelHeap
import SimpOS.AddressSpaces

/-!
The allocations a process makes through `task/process.c`: each request is served from
the kernel's heap, mapped into the process's page directory and noted in a slot of its
`allocations`. A process is the part of `struct process` these functions use; its page
directory is that of its task.
-/
namespace SimpOS.ProcessMemory
open SimpOS.Machine SimpOS.Memory SimpOS.Extents SimpOS.HeapBlocks SimpOS.Paging SimpOS.AddressSpaces SimpOS.KernelHeap

structure ProcessAllocation where
  ptr : Nat
  size : Nat
deriving DecidableEq, Repr

structure Process where
  allocations : Nat → ProcessAllocation
  page_directory : Paging4gbChunk

def process_find_free_allocation_index_loop (process : Process) : Nat → Nat → Int
  | 0, _ => -ENOMEM
  | remaining + 1, i =>
    if (process.allocations i).ptr = 0 then 1
    else process_find_free_allocation_index_loop process remaining (i + 1)
def process_find_free_allocation_index (process : Process) : Int :=
  process_find_free_allocation_index_loop process SIMPOS_MAX_PROGRAM_ALLOCATIONS 0

def remove_process_allocation_loop (ptr : Nat) : Nat → Nat → Process → Process
  | 0, _, process => process
  | remaining + 1, i, process =>
    let process := if (process.allocations i).ptr = ptr then
      { process with allocations := Function.update process.allocations i ⟨0x00, 0⟩ } else process
    remove_process_allocation_loop ptr remaining (i + 1) process
def remove_process_allocation (process : Process) (ptr : Nat) : Process :=
  remove_process_allocation_loop ptr SIMPOS_MAX_PROGRAM_ALLOCATIONS 0 process

def process_get_allocation_addr_loop (process : Process) (addr : Nat) : Nat → Nat → Option Nat
  | 0, _ => none
  | remaining + 1, i =>
    if (process.allocations i).ptr = addr then some i
    else process_get_allocation_addr_loop process addr remaining (i + 1)
/-- The slot the returned pointer points to. -/
def process_get_allocation_addr (process : Process) (addr : Nat) : Option Nat :=
  process_get_allocation_addr_loop process addr SIMPOS_MAX_PROGRAM_ALLOCATIONS 0

def process_free (k : Kernel) (process : Process) (ptr : Nat) : Kernel × Process :=
  match process_get_allocation_addr process ptr with
  | none => (k, process)
  | some i =>
    let allocation := process.allocations i
    let (res, memory) := paging_map_to k.memory process.page_directory allocation.ptr allocation.ptr
      (paging_align_address (offset allocation.ptr allocation.size)) 0x00
    let k := { k with memory := memory }
    if res < 0 then (k, process)
    else (kfree k ptr, remove_process_allocation process ptr)

/-- The pointer returned, with the kernel and the process as the call leaves them. -/
def process_malloc (k : Kernel) (process : Process) (size : Nat) : Nat × Kernel × Process :=
  let (ptr, k) := kzalloc k size
  if ptr = 0 then (0, k, process)
  else
    let index := process_find_free_allocation_index process
    if index < 0 then (0, kfree k ptr, process)
    else
      let (res, memory) := paging_map_to k.memory process.page_directory ptr ptr
        (paging_align_address (offset ptr size)) (PAGING_IS_WRITEABLE ||| PAGING_IS_PRESENT ||| PAGING_ACCESS_FROM_ALL)
      let k := { k with memory := memory }
      if res < 0 then (0, kfree k ptr, process)
      else (ptr, k, { process with allocations := Function.update process.allocations index.toNat ⟨ptr, size⟩ })

def process_terminate_allocations_loop : Nat → Nat → Kernel → Process → Kernel × Process
  | 0, _, k, process => (k, process)
  | remaining + 1, i, k, process =>
    let (k, process) := if (process.allocations i).ptr ≠ 0 then process_free k process (process.allocations i).ptr
      else (k, process)
    process_terminate_allocations_loop remaining (i + 1) k process
def process_terminate_allocations (k : Kernel) (process : Process) : Kernel × Process :=
  process_terminate_allocations_loop SIMPOS_MAX_PROGRAM_ALLOCATIONS 0 k process

/-! ### What each function does -/

section
variable {process : Process}

/-- The index found is always slot 1, whichever slot is empty. -/
private theorem process_find_free_allocation_index_loop_correct (remaining : Nat) :
    ∀ i, process_find_free_allocation_index_loop process remaining i =
      if ∃ j < i + remaining, i ≤ j ∧ (process.allocations j).ptr = 0 then 1 else -ENOMEM := by
  induction remaining with
  | zero =>
    intro i
    rw [process_find_free_allocation_index_loop,if_neg]
    rintro ⟨j,below,low,_⟩
    omega
  | succ remaining ih =>
    intro i
    rw [process_find_free_allocation_index_loop]
    by_cases empty : (process.allocations i).ptr = 0
    · rw [if_pos empty,if_pos ⟨i,by omega,Nat.le_refl i,empty⟩]
    · have same : (∃ j < i + 1 + remaining, i + 1 ≤ j ∧ (process.allocations j).ptr = 0) ↔
          ∃ j < i + (remaining + 1), i ≤ j ∧ (process.allocations j).ptr = 0 := by
        constructor
        · rintro ⟨j,below,low,null⟩
          exact ⟨j,by omega,by omega,null⟩
        · rintro ⟨j,below,low,null⟩
          have moved : j ≠ i := fun at_i => empty (at_i ▸ null)
          exact ⟨j,by omega,by omega,null⟩
      rw [if_neg empty,ih]
      simp only [same]
theorem process_find_free_allocation_index_correct (process : Process) :
    process_find_free_allocation_index process =
      if ∃ j < 1024, (process.allocations j).ptr = 0 then 1 else -ENOMEM := by
  rw [process_find_free_allocation_index,process_find_free_allocation_index_loop_correct]
  simp

private theorem process_get_allocation_addr_loop_none {addr : Nat} (remaining : Nat) :
    ∀ i, process_get_allocation_addr_loop process addr remaining i = none →
      ∀ j, i ≤ j → j < i + remaining → (process.allocations j).ptr ≠ addr := by
  induction remaining with
  | zero =>
    intro i _ j low below
    omega
  | succ remaining ih =>
    intro i missing j low below
    rw [process_get_allocation_addr_loop] at missing
    by_cases here : (process.allocations i).ptr = addr
    · rw [if_pos here] at missing
      cases missing
    · rw [if_neg here] at missing
      by_cases same : j = i
      · exact same ▸ here
      · exact ih (i + 1) missing j (by omega) (by omega)
private theorem process_get_allocation_addr_loop_some {addr slot : Nat} (remaining : Nat) :
    ∀ i, process_get_allocation_addr_loop process addr remaining i = some slot →
      i ≤ slot ∧ slot < i + remaining ∧ (process.allocations slot).ptr = addr := by
  induction remaining with
  | zero =>
    intro i found
    cases found
  | succ remaining ih =>
    intro i found
    rw [process_get_allocation_addr_loop] at found
    by_cases here : (process.allocations i).ptr = addr
    · rw [if_pos here] at found
      cases found
      exact ⟨Nat.le_refl slot,by omega,here⟩
    · rw [if_neg here] at found
      obtain ⟨low,below,same⟩ := ih (i + 1) found
      exact ⟨by omega,by omega,same⟩

/-- The lookup answers a slot with the pointer, or nothing when no slot has it. -/
theorem process_get_allocation_addr_cases (process : Process) (addr : Nat) :
    (process_get_allocation_addr process addr = none ∧ ∀ j < 1024, (process.allocations j).ptr ≠ addr) ∨
    ∃ slot < 1024, process_get_allocation_addr process addr = some slot ∧ (process.allocations slot).ptr = addr := by
  rcases found : process_get_allocation_addr process addr with _ | slot
  · exact .inl ⟨rfl,fun j below => process_get_allocation_addr_loop_none 1024 0 found j (by omega) (by omega)⟩
  · obtain ⟨_,below,same⟩ := process_get_allocation_addr_loop_some 1024 0 found
    exact .inr ⟨slot,by omega,rfl,same⟩

private theorem remove_process_allocation_loop_correct (ptr : Nat) (remaining : Nat) :
    ∀ (i : Nat) (process : Process),
      (remove_process_allocation_loop ptr remaining i process).page_directory = process.page_directory ∧
      ∀ j, (remove_process_allocation_loop ptr remaining i process).allocations j =
        if i ≤ j ∧ j < i + remaining ∧ (process.allocations j).ptr = ptr then ⟨0x00,0⟩ else process.allocations j := by
  induction remaining with
  | zero =>
    intro i process
    refine ⟨rfl,fun j => ?_⟩
    rw [remove_process_allocation_loop,if_neg (by omega)]
  | succ remaining ih =>
    intro i process
    rw [remove_process_allocation_loop]
    by_cases here : (process.allocations i).ptr = ptr
    · simp only [here,if_true]
      refine ⟨(ih (i + 1) _).1,fun j => ?_⟩
      rw [(ih (i + 1) _).2]
      by_cases same : j = i
      · subst same
        simp [here]
      · have bounds : (i + 1 ≤ j ∧ j < i + 1 + remaining ∧ (process.allocations j).ptr = ptr) ↔
            (i ≤ j ∧ j < i + (remaining + 1) ∧ (process.allocations j).ptr = ptr) := by omega
        simp only [Function.update_of_ne same,bounds]
    · simp only [here,if_false]
      refine ⟨(ih (i + 1) _).1,fun j => ?_⟩
      have bounds : (i + 1 ≤ j ∧ j < i + 1 + remaining ∧ (process.allocations j).ptr = ptr) ↔
          (i ≤ j ∧ j < i + (remaining + 1) ∧ (process.allocations j).ptr = ptr) := by
        constructor
        · rintro ⟨low,below,same⟩
          exact ⟨by omega,by omega,same⟩
        · rintro ⟨low,below,same⟩
          have moved : j ≠ i := fun at_i => here (at_i ▸ same)
          exact ⟨by omega,by omega,same⟩
      rw [(ih (i + 1) process).2]
      simp only [bounds]

/-- Every slot with the pointer is emptied. -/
theorem remove_process_allocation_allocations (process : Process) (ptr j : Nat) (inside : j < 1024) :
    (remove_process_allocation process ptr).allocations j =
      if (process.allocations j).ptr = ptr then ⟨0x00,0⟩ else process.allocations j := by
  rw [remove_process_allocation,(remove_process_allocation_loop_correct ptr _ 0 process).2]
  simp [inside]
@[simp] theorem remove_process_allocation_page_directory (process : Process) (ptr : Nat) :
    (remove_process_allocation process ptr).page_directory = process.page_directory :=
  (remove_process_allocation_loop_correct ptr _ 0 process).1

end

/-- The process can take a request granted from block b: it has an empty slot, and the
    request's pages can be mapped. -/
def Acceptable (process : Process) (b : Int) (size : Nat) : Prop :=
  (∃ j < 1024, (process.allocations j).ptr = 0) ∧
    Mappable (blockAddress b) (blockAddress b) (paging_align_address (offset (blockAddress b) size))

theorem acceptable_of_null {process : Process} {b : Int} {size : Nat}
    (null : ∃ j < 1024, (process.allocations j).ptr = 0) (fits : blockAddress b + size ≤ 0xFFFFF000) :
    Acceptable process b size := by
  have aligned := blockAddress_aligned b
  refine ⟨null,?_⟩
  rw [offset_of_lt (by omega),paging_align_address_eq fits]
  exact ⟨aligned,aligned,by omega,by omega⟩

/-- A request is refused with nothing changed, or served from a free block on: then it is
    either taken back or noted in slot 1. -/
theorem process_malloc_cases {k : Kernel} {live : List Extent} (laid : Laid k.kernel_heap live) (process : Process)
    (size : Nat) :
    (heap_get_start_block k.kernel_heap (requestBlocks size) < 0 ∧ process_malloc k process size = (0,k,process)) ∨
    ∃ b heap, heap_get_start_block k.kernel_heap (requestBlocks size) = b ∧ FreeAt live b ∧
      heap = heap_mark_blocks_taken k.kernel_heap b (requestBlocks size) ∧
      Laid heap (withGranted b (requestBlocks size) live) ∧
      ((¬ Acceptable process b size ∧ process_malloc k process size =
        (0,⟨memset k.memory (blockAddress b) 0x00 size,heap_free heap (blockAddress b)⟩,process)) ∨
      Acceptable process b size ∧ process_malloc k process size = (blockAddress b,
        ⟨(paging_map_to (memset k.memory (blockAddress b) 0x00 size) process.page_directory (blockAddress b)
          (blockAddress b) (paging_align_address (offset (blockAddress b) size)) 7).2,heap⟩,
        { process with allocations := Function.update process.allocations 1 ⟨blockAddress b,size⟩ })) := by
  rcases heap_malloc_kernel laid size with ⟨search,refused⟩ | ⟨b,search,free,granted,laid'⟩
  · left
    refine ⟨search,?_⟩
    simp only [process_malloc,kzalloc,kmalloc,refused,if_true]
  · refine .inr ⟨b,_,search,free,rfl,laid',?_⟩
    have nonnull : blockAddress b ≠ 0 := by have := blockAddress_pos b; omega
    simp only [process_malloc,kzalloc,kmalloc,granted,nonnull,if_false]
    rw [process_find_free_allocation_index_correct]
    by_cases empty : ∃ j < 1024, (process.allocations j).ptr = 0
    · simp only [empty,if_true]
      by_cases accepted : Mappable (blockAddress b) (blockAddress b)
          (paging_align_address (offset (blockAddress b) size))
      · right
        refine ⟨⟨empty,accepted⟩,?_⟩
        simp only [paging_map_to_result _ _ _ accepted,Int.lt_irrefl,if_false,show ¬ (1 : Int) < 0 by decide]
        rfl
      · left
        refine ⟨fun acceptable => accepted acceptable.2,?_⟩
        simp only [paging_map_to_refused accepted]
        rfl
    · left
      refine ⟨fun acceptable => empty acceptable.1,?_⟩
      simp only [empty,if_false]
      rfl

/-- A request the process can take is served from the block the search finds. -/
theorem process_malloc_served {k : Kernel} {live : List Extent} (laid : Laid k.kernel_heap live) {process : Process}
    {size : Nat} {b : Int} (low : 0 ≤ b) (search : heap_get_start_block k.kernel_heap (requestBlocks size) = b)
    (acceptable : Acceptable process b size) :
    FreeAt live b ∧ Laid (heap_mark_blocks_taken k.kernel_heap b (requestBlocks size))
      (withGranted b (requestBlocks size) live) ∧
    process_malloc k process size = (blockAddress b,
      ⟨(paging_map_to (memset k.memory (blockAddress b) 0x00 size) process.page_directory (blockAddress b)
        (blockAddress b) (paging_align_address (offset (blockAddress b) size)) 7).2,
        heap_mark_blocks_taken k.kernel_heap b (requestBlocks size)⟩,
      { process with allocations := Function.update process.allocations 1 ⟨blockAddress b,size⟩ }) := by
  rcases process_malloc_cases laid process size with
    ⟨missing,_⟩ | ⟨b',heap,found,free,rfl,laid',⟨refused,_⟩ | ⟨_,granted⟩⟩
  · omega
  · obtain rfl := search.symm.trans found
    exact absurd acceptable refused
  · obtain rfl := search.symm.trans found
    exact ⟨free,laid',granted⟩

/-- A release of an address no slot has does nothing; otherwise it unmaps the pages of a
    slot with that address and, when they could be unmapped, hands the address to the heap. -/
theorem process_free_cases (k : Kernel) (process : Process) (ptr : Nat) :
    (process_free k process ptr = (k,process) ∧ ∀ j < 1024, (process.allocations j).ptr ≠ ptr) ∨
    ∃ slot < 1024, (process.allocations slot).ptr = ptr ∧
      ((¬ Mappable ptr ptr (paging_align_address (offset ptr (process.allocations slot).size)) ∧
        process_free k process ptr = (k,process)) ∨
      Mappable ptr ptr (paging_align_address (offset ptr (process.allocations slot).size)) ∧
        process_free k process ptr = (⟨(paging_map_to k.memory process.page_directory ptr ptr
          (paging_align_address (offset ptr (process.allocations slot).size)) 0).2,heap_free k.kernel_heap ptr⟩,
          remove_process_allocation process ptr)) := by
  rcases process_get_allocation_addr_cases process ptr with ⟨missing,absent⟩ | ⟨slot,inside,found,same⟩
  · left
    exact ⟨by simp only [process_free,missing],absent⟩
  · refine .inr ⟨slot,inside,same,?_⟩
    by_cases accepted : Mappable ptr ptr (paging_align_address (offset ptr (process.allocations slot).size))
    · right
      refine ⟨accepted,?_⟩
      simp only [process_free,found,same,paging_map_to_result _ _ _ accepted,Int.lt_irrefl,if_false]
      rfl
    · left
      refine ⟨accepted,?_⟩
      simp only [process_free,found,same,paging_map_to_refused accepted]
      rfl

end SimpOS.ProcessMemory
