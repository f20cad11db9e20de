import SimpOS.FlatBinaries
import SimpOS.BinaryLoads
import SimpOS.ProcessCalls

/-!
What `copy_string_from_task` leaves behind. The block that it copies the string through is given
back where the entry of its page cannot be restored, and that does not happen: the block stays taken.
-/
namespace SimpOS.TaskStrings
open SimpOS.Machine SimpOS.Memory SimpOS.Extents SimpOS.Paging SimpOS.HeapBlocks SimpOS.HeapLayout SimpOS.HeapExhaustion
open SimpOS.KernelHeap SimpOS.PageDirectories SimpOS.PageMapping SimpOS.TaskMemory SimpOS.Processes SimpOS.ProcessCalls
open SimpOS.BinaryLoads SimpOS.FlatBinaries

variable {φ : Type}

/-- The call leaves the task's pages and the heap's table as they were, and its copy is the string up
    to its end or to max - 1 bytes. -/
structure NoTrace (task virtual max : Nat) (s : World φ) : Prop where
  entries : ∀ v, v % 4096 = 0 → v < 4294967296 →
    paging_get (copy_string_from_task task virtual max s).2.2.kernel.memory (task_directory s task) v =
      paging_get s.kernel.memory (task_directory s task) v
  heap : (copy_string_from_task task virtual max s).2.2.kernel.kernel_heap.table.entries = s.kernel.kernel_heap.table.entries
  copy : (copy_string_from_task task virtual max s).1 = 0 → (copy_string_from_task task virtual max s).2.1 =
    string_at (task_page (task_directory s task)) s.kernel.memory virtual (max - 1)

section
variable {s : World φ} {task virtual max : Nat}

/-- With a free block the smallest request has a run. -/
private theorem run_of_free (low : 1 ≤ max) (high : max < 4096) {i : Int} (above : 0 ≤ i)
    (below : i < s.kernel.kernel_heap.table.total) (free : FreeBlock s.kernel.kernel_heap i) :
    FreeRun s.kernel.kernel_heap (blocks max) i := by
  have one : blocks max = 1 := by unfold blocks; omega
  rw [one]
  refine ⟨above,by omega,fun j inside => ?_⟩
  rw [mem_mk] at inside
  exact (show j = i by omega) ▸ free

/-- The copy is made, and the block that it went through stays marked. -/
private theorem copy_string_from_task_heap (task virtual : Nat) (start : s.kernel.kernel_heap.start_address = SIMPOS_HEAP_ADDRESS)
    (total : s.kernel.kernel_heap.table.total = 25600) (low : 1 ≤ max) (high : max < 4096)
    (free : ∃ i : Int, 0 ≤ i ∧ i < 25600 ∧ FreeBlock s.kernel.kernel_heap i) :
    (copy_string_from_task task virtual max s).1 = 0 ∧ ∃ b : Int, FreeBlock s.kernel.kernel_heap b ∧
      ¬ FreeBlock (copy_string_from_task task virtual max s).2.2.kernel.kernel_heap b := by
  obtain ⟨i,above,below,free⟩ := free
  have run := run_of_free low high above (by omega) free
  rcases @heap_malloc_cases s.kernel.kernel_heap max low (by omega) with ⟨b,⟨⟨bLow,fits,all⟩,_⟩,result⟩ | ⟨none,_⟩ | ⟨none,_⟩
  · have one : blocks max = 1 := by unfold blocks; omega
    rw [one] at result fits all
    rw [total] at fits
    have place := heap_block_to_address_kernel start bLow (by omega : b < 25600)
    rw [place] at result
    have pointer := (blockAddress_pos b).ne'
    have block : s.kzalloc max = (blockAddress b,s.withKernel
        ⟨memset s.kernel.memory (blockAddress b) 0x00 max,heap_mark_blocks_taken s.kernel.kernel_heap b 1⟩) := by
      rw [World.kzalloc,kzalloc,kmalloc,result]
      dsimp only
      rw [if_neg pointer]
      rfl
    unfold copy_string_from_task
    rw [if_neg (by simp only [PAGING_PAGE_SIZE]; omega),block]
    dsimp only
    rw [if_neg pointer]
    rw [paging_set_aligned (blockAddress_aligned b)]
    dsimp only
    rw [if_neg (Int.lt_irrefl 0)]
    refine ⟨rfl,b,all b (mem_mk.mpr (by omega)),fun stillFree => ?_⟩
    have entry := heap_mark_blocks_taken_correct s.kernel.kernel_heap b 1 b
    rw [if_pos (mem_mk.mpr (by omega))] at entry
    exact chainEntry_taken _ _ ((congrArg heap_get_entry_type entry).symm.trans stillFree)
  · exact absurd ⟨i,run⟩ none
  · exact absurd ⟨i,run⟩ none

private theorem NoTrace.free (noTrace : NoTrace task virtual max s) {b : Int} (free : FreeBlock s.kernel.kernel_heap b) :
    FreeBlock (copy_string_from_task task virtual max s).2.2.kernel.kernel_heap b := by
  rw [FreeBlock,noTrace.heap]
  exact free

/-- Whatever the task and its string, a call that gets a block leaves the block taken. -/
theorem copy_string_from_task_trace (start : s.kernel.kernel_heap.start_address = SIMPOS_HEAP_ADDRESS)
    (total : s.kernel.kernel_heap.table.total = 25600) (low : 1 ≤ max) (high : max < 4096)
    (free : ∃ i : Int, 0 ≤ i ∧ i < 25600 ∧ FreeBlock s.kernel.kernel_heap i) : ¬ NoTrace task virtual max s := by
  intro noTrace
  obtain ⟨_,b,was,marked⟩ := copy_string_from_task_heap task virtual start total low high free
  exact marked (noTrace.free was)

end

/-- A task that has just got its pages leaves blocks free. -/
private theorem new_task : ∃ t : World Unit, task_init 0x03000000 0x04000000 (flatWorld 5000) = (0,t) ∧
    t.kernel.kernel_heap.start_address = SIMPOS_HEAP_ADDRESS ∧ t.kernel.kernel_heap.table.total = 25600 ∧
    ∃ i : Int, 0 ≤ i ∧ i < 25600 ∧ FreeBlock t.kernel.kernel_heap i := by
  have laid : Laid (flatWorld 5000).kernel.kernel_heap [] := kernel_heap_init_laid _
  have room : 1026 ≤ freeBlocks (flatWorld 5000).kernel.kernel_heap := by
    rw [freeBlocks_empty laid]
    decide
  obtain ⟨t,init⟩ := task_init_room 0x03000000 0x04000000 laid room
  obtain ⟨chunk,k,made,success,rfl,_⟩ := task_init_success init
  obtain ⟨tables,d,c,_,_,_,created⟩ := paging_new_4gb_made laid made success
  have least := freeBlocks_least created.laid
  have count : taken ((tables ++ [d,c]).map single) = 1026 := by
    rw [taken_singles,List.length_append,created.length]
    rfl
  rw [List.append_nil,show (((tables ++ [d,c]).map single).map Extent.count).sum = 1026 from count] at least
  obtain ⟨i,member⟩ := Finset.card_pos.mp (show 0 < freeBlocks t.kernel.kernel_heap by omega)
  rw [Finset.mem_filter,Finset.mem_range,created.laid.total_eq] at member
  exact ⟨t,init,created.laid.start_address,created.laid.total_eq,i,by omega,by omega,member.2⟩

theorem copy_string_from_task_trace_new : ∃ t, task_init 0x03000000 0x04000000 (flatWorld 5000) = (0,t) ∧
    ¬ NoTrace 0x03000000 0x400000 SIMPOS_MAX_PATH t := by
  obtain ⟨t,init,start,total,free⟩ := new_task
  exact ⟨t,init,copy_string_from_task_trace start total (by decide) (by decide) free⟩

/-- A path is copied from a task that has just got its pages, and the block stays taken. -/
theorem copy_string_from_task_keeps : ∃ t, task_init 0x03000000 0x04000000 (flatWorld 5000) = (0,t) ∧
    (copy_string_from_task 0x03000000 0x400000 SIMPOS_MAX_PATH t).1 = 0 ∧
    ¬ NoTrace 0x03000000 0x400000 SIMPOS_MAX_PATH t := by
  obtain ⟨t,init,start,total,free⟩ := new_task
  obtain ⟨copied,b,was,marked⟩ := @copy_string_from_task_heap _ t SIMPOS_MAX_PATH
    0x03000000 0x400000 start total (by decide) (by decide) free
  exact ⟨t,init,copied,fun noTrace => marked (noTrace.free was)⟩

end SimpOS.TaskStrings
