import SimpOS.HeapExhaustion
import SimpOS.KernelHeap

/-!
What a request of any size gets from the kernel's heap. The rounding of a size to blocks makes a
request of no blocks out of size 0 and out of the sizes whose sum wraps, and the search answers that,
like a request that no run has room for, with the last free blocks of the table.
-/
namespace SimpOS.HeapRequests
open SimpOS.Machine SimpOS.Memory SimpOS.Extents SimpOS.HeapBlocks SimpOS.HeapLayout SimpOS.HeapExhaustion SimpOS.KernelHeap

/-- The blocks of an extent have just been marked for the caller of `kzalloc`, from its pointer on and
    enough for its size; what is cleared lies in them; and freeing the pointer later, while they are as
    they were marked, frees nothing else. -/
structure OwnBlocks (k k' : Kernel) (size p : Nat) (e : Extent) : Prop where
  inside : 0 ≤ e.first ∧ e.first + e.count ≤ k.kernel_heap.table.total
  positive : 1 ≤ e.count
  room : size ≤ 4096 * e.count
  pointer : p = heap_block_to_address k.kernel_heap e.first
  marked : ∀ i ∈ e, FreeBlock k.kernel_heap i ∧ ¬ FreeBlock k'.kernel_heap i
  cleared : ∀ x, k'.memory x ≠ k.memory x → p ≤ x ∧ x < p + 4096 * e.count
  freed : ∀ later : Heap, later.start_address = k.kernel_heap.start_address →
    later.table.total = k.kernel_heap.table.total →
    (∀ i ∈ e, later.table.entries i = k'.kernel_heap.table.entries i) →
    ∀ i, i ∉ e → (heap_free later p).table.entries i = later.table.entries i

/-- A request that gets a pointer gets blocks of its own for it. -/
def Owns (k : Kernel) (size : Nat) : Prop :=
  (heap_malloc k.kernel_heap size).1 ≠ 0 → ∃ e, OwnBlocks k (kzalloc k size).2 size (heap_malloc k.kernel_heap size).1 e

section
variable {k : Kernel} {size : Nat}

private theorem kzalloc_heap (k : Kernel) (size : Nat) : (kzalloc k size).2.kernel_heap = (heap_malloc k.kernel_heap size).2 := by
  rw [kzalloc,kmalloc]
  dsimp only
  split_ifs <;> rfl

/-- A release of the pointer to a chain stops where the chain does. -/
private theorem heap_free_chain {later : Heap} {e : Extent} (low : 0 ≤ e.first) (near : e.first < 524288)
    (chain : ∀ i ∈ e, later.table.entries i = chainEntry e i) (positive : 1 ≤ e.count) {i : Int} (outside : i ∉ e) :
    (heap_free later (heap_block_to_address later e.first)).table.entries i = later.table.entries i := by
  rw [heap_free,heap_address_to_block_correct later low near]
  rcases heap_mark_blocks_free_cases later e.first i with kept | ⟨⟨above,_,linked⟩,_⟩
  · exact kept
  · rw [mem_def] at outside
    have last : e.first + e.count - 1 ∈ e := by rw [mem_def]; omega
    have next := linked (e.first + e.count - 1) (by omega) (by omega)
    rw [chain _ last] at next
    exact absurd ((chainEntry_last e _).mpr (by omega)) next

/-- A request that a run has room for gets blocks of its own. -/
private theorem owns_run (start : k.kernel_heap.start_address = SIMPOS_HEAP_ADDRESS) (total : k.kernel_heap.table.total = 25600)
    (low : 1 ≤ size) (room : ∃ a, FreeRun k.kernel_heap (blocks size) a) : Owns k size := by
  intro pointer
  obtain ⟨a,aLow,aHigh,_⟩ := room
  have most : blocks size ≤ 25600 := by omega
  have high : size ≤ 0xFFFFF000 := by unfold blocks at most; omega
  have positive : 1 ≤ blocks size := by unfold blocks; omega
  have enough : size ≤ 4096 * blocks size := by unfold blocks; omega
  rcases @heap_malloc_cases k.kernel_heap size low high with ⟨b,⟨⟨bLow,fits,free⟩,_⟩,result⟩ | ⟨none,_⟩ | ⟨none,_⟩
  · rw [total] at fits
    have place : heap_block_to_address k.kernel_heap b = blockAddress b := heap_block_to_address_kernel start bLow (by unfold blocks at fits; omega)
    have marks : ∀ i ∈ Extent.mk b (blocks size), (kzalloc k size).2.kernel_heap.table.entries i = chainEntry ⟨b,blocks size⟩ i := by
      intro i inside
      rw [kzalloc_heap,result,heap_mark_blocks_taken_correct,if_pos inside]
    have address : (heap_malloc k.kernel_heap size).1 = blockAddress b := by rw [result,place]
    refine ⟨⟨b,blocks size⟩,⟨bLow,by rw [total]; exact fits⟩,positive,enough,by rw [result],
      fun i inside => ⟨free i inside,fun stillFree => ?_⟩,fun x changed => ?_,fun later laterStart _ same i outside => ?_⟩
    · rw [FreeBlock,marks i inside] at stillFree
      exact chainEntry_taken _ _ stillFree
    · rw [address]
      rw [kzalloc,kmalloc] at changed
      dsimp only at changed
      rw [if_neg pointer,address] at changed
      dsimp only at changed
      have bound : blockAddress b + size ≤ 4294967296 := by
        simp only [blockAddress,SIMPOS_HEAP_ADDRESS]
        unfold blocks at fits
        omega
      rw [memset_apply bound] at changed
      split_ifs at changed with cleared
      · exact ⟨cleared.1,by dsimp only; omega⟩
      · exact absurd rfl changed
    · have sameAddress : heap_block_to_address k.kernel_heap b = heap_block_to_address later b := by
        rw [heap_block_to_address,heap_block_to_address,laterStart]
      rw [result,sameAddress]
      exact heap_free_chain bLow (show b < 524288 by unfold blocks at fits; omega) (fun j inside => (same j inside).trans (marks j inside))
        positive outside
  · exact absurd ⟨a,aLow,aHigh,‹_›⟩ none
  · exact absurd ⟨a,aLow,aHigh,‹_›⟩ none

private theorem requestBlocks_none (outside : ¬ (1 ≤ size ∧ size ≤ 0xFFFFF000)) (bound : size < 4294967296) :
    requestBlocks size = 0 := by
  by_cases zero : size = 0
  · rw [zero,requestBlocks_zero]
  · rw [requestBlocks,heap_align_value_to_upper_wraps (by omega) bound,Nat.zero_div]

/-- A request of no blocks is answered with the heap as it was, unless the last block is taken. -/
private theorem heap_malloc_none (none : requestBlocks size = 0) :
    (∃ b : Int, 0 ≤ b ∧ b < k.kernel_heap.table.total ∧ FreeBlock k.kernel_heap (k.kernel_heap.table.total - 1) ∧
      heap_malloc k.kernel_heap size = (heap_block_to_address k.kernel_heap b,k.kernel_heap)) ∨
    (k.kernel_heap.table.total = 0 ∨ ¬ FreeBlock k.kernel_heap (k.kernel_heap.table.total - 1)) ∧
      heap_malloc k.kernel_heap size = (0,k.kernel_heap) := by
  have search := heap_get_start_block_correct k.kernel_heap 0
  have request : heap_malloc k.kernel_heap size = heap_malloc_blocks k.kernel_heap 0 := by
    rw [← none]
    rfl
  rw [request,heap_malloc_blocks]
  generalize heap_get_start_block k.kernel_heap 0 = b at search
  cases search with
  | run positive _ _ => exact absurd positive (Nat.lt_irrefl 0)
  | tail low below free _ =>
    refine .inl ⟨b,low,below,free _ (by omega) (by omega),?_⟩
    rw [if_neg (Int.not_lt.mpr low),heap_mark_blocks_taken_zero]
  | full last _ => exact .inr ⟨last,rfl⟩

/-- Without room, the pointer that a free last block gives is not to blocks of its own. -/
private theorem not_owns (start : k.kernel_heap.start_address = SIMPOS_HEAP_ADDRESS) (total : k.kernel_heap.table.total = 25600)
    (bound : size < 4294967296) (last : FreeBlock k.kernel_heap 25599)
    (noRoom : ¬ (1 ≤ size ∧ ∃ a, FreeRun k.kernel_heap (blocks size) a)) : ¬ Owns k size := by
  have address : ∀ {b : Int}, 0 ≤ b → b < 25600 → heap_block_to_address k.kernel_heap b = blockAddress b := fun low high =>
    heap_block_to_address_kernel start low high
  intro owns
  by_cases ranged : 1 ≤ size ∧ size ≤ 0xFFFFF000
  · rcases @heap_malloc_cases k.kernel_heap size ranged.1 ranged.2 with ⟨b,run,_⟩ | ⟨none,_,b,low,below,free,result⟩ | ⟨_,taken,_⟩
    · exact noRoom ⟨ranged.1,b,run.1⟩
    · rw [total] at below
      have pointer : (heap_malloc k.kernel_heap size).1 = blockAddress b := by rw [result,address low below]
      obtain ⟨e,own⟩ := owns (by rw [pointer]; exact (blockAddress_pos b).ne')
      obtain ⟨eLow,eHigh⟩ := own.inside
      have positive := own.positive
      have room := own.room
      have same := own.pointer
      rw [total] at eHigh
      rw [pointer,address eLow (by omega),blockAddress_inj low eLow] at same
      -- the caller's blocks would be a run with room for the request
      refine none ⟨b,low,by rw [total]; unfold blocks; omega,fun i inside => (own.marked i ?_).1⟩
      rw [mem_mk] at inside
      unfold blocks at inside
      rw [mem_def]
      omega
    · rw [total] at taken
      rcases taken with empty | taken
      · omega
      · exact taken last
  · rcases heap_malloc_none (k := k) (requestBlocks_none ranged bound) with ⟨b,low,below,_,result⟩ | ⟨taken,_⟩
    · rw [total] at below
      have pointer : (heap_malloc k.kernel_heap size).1 = blockAddress b := by rw [result,address low below]
      obtain ⟨e,own⟩ := owns (by rw [pointer]; exact (blockAddress_pos b).ne')
      have positive := own.positive
      obtain ⟨free,taken⟩ := own.marked e.first (by rw [mem_def]; omega)
      refine taken ?_
      rw [FreeBlock,kzalloc_heap,result]
      exact free
    · rw [total] at taken
      rcases taken with empty | taken
      · omega
      · exact taken last

/-- With the last block taken, a request that no run has room for is refused. -/
private theorem refused_of_taken (total : k.kernel_heap.table.total = 25600) (bound : size < 4294967296)
    (last : ¬ FreeBlock k.kernel_heap 25599) (noRoom : ¬ (1 ≤ size ∧ ∃ a, FreeRun k.kernel_heap (blocks size) a)) :
    (heap_malloc k.kernel_heap size).1 = 0 := by
  by_cases ranged : 1 ≤ size ∧ size ≤ 0xFFFFF000
  · rcases @heap_malloc_cases k.kernel_heap size ranged.1 ranged.2 with ⟨b,run,_⟩ | ⟨_,⟨_,free⟩,_⟩ | ⟨_,_,result⟩
    · exact absurd ⟨ranged.1,b,run.1⟩ noRoom
    · rw [total] at free
      exact absurd free last
    · rw [result]
  · rcases heap_malloc_none (k := k) (requestBlocks_none ranged bound) with ⟨_,_,_,free,_⟩ | ⟨_,result⟩
    · rw [total] at free
      exact absurd free last
    · rw [result]

/-- A pointer that the kernel's heap gives is to blocks of the caller's own exactly when a run has
    room for a request that is not empty, or else the last block is taken. -/
theorem heap_malloc_owns_iff (start : k.kernel_heap.start_address = SIMPOS_HEAP_ADDRESS)
    (total : k.kernel_heap.table.total = 25600) (bound : size < 4294967296) :
    Owns k size ↔ (1 ≤ size ∧ ∃ a, FreeRun k.kernel_heap (blocks size) a) ∨ ¬ FreeBlock k.kernel_heap 25599 := by
  constructor
  · intro owns
    by_contra neither
    rw [not_or,not_not] at neither
    exact not_owns start total bound neither.2 neither.1 owns
  · intro holds
    by_cases room : 1 ≤ size ∧ ∃ a, FreeRun k.kernel_heap (blocks size) a
    · exact owns_run start total room.1 room.2
    · intro pointer
      exact absurd (refused_of_taken total bound (holds.resolve_left room) room) pointer

end

/-- A request of two blocks in a heap just created. -/
theorem heap_malloc_owns_kernel : Owns ⟨fun _ => 0,HeapRuns.kernelHeap⟩ 5000 := by
  have create : heap_create ⟨⟨fun _ => 0,0⟩,0⟩ SIMPOS_HEAP_ADDRESS (SIMPOS_HEAP_ADDRESS + SIMPOS_HEAP_SIZE_BYTES)
      ⟨fun _ => 0,25600⟩ = (0,HeapRuns.kernelHeap) := rfl
  exact (heap_malloc_owns_iff rfl rfl (by decide)).mpr (.inl ⟨by decide,0,HeapRuns.created_run create (by decide)⟩)

/-- A heap just created answers a request of no bytes and one of nearly 2^32 bytes with a pointer to
    blocks that it has not marked. -/
theorem heap_malloc_owns_nothing : ¬ Owns ⟨fun _ => 0,HeapRuns.kernelHeap⟩ 0 ∧
    ¬ Owns ⟨fun _ => 0,HeapRuns.kernelHeap⟩ 0xFFFFFFFF := by
  have last : FreeBlock HeapRuns.kernelHeap 25599 := by decide
  refine ⟨not_owns rfl rfl (by decide) last fun room => absurd room.1 (by decide),
    not_owns rfl rfl (by decide) last fun room => ?_⟩
  obtain ⟨_,a,low,high,_⟩ := room
  have total : HeapRuns.kernelHeap.table.total = 25600 := rfl
  have count : blocks 0xFFFFFFFF = 1048576 := by decide
  dsimp only at high
  rw [total,count] at high
  omega

end SimpOS.HeapRequests
