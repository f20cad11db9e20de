import SimpOS.HeapRuns

/-!
What the allocator answers when no run of free blocks is long enough. The search keeps the
start of the last free blocks when it comes to the end of the table, however few they are,
so that a request is refused only where the last block is taken.
-/
namespace SimpOS.HeapExhaustion
open SimpOS.Machine SimpOS.Extents SimpOS.HeapBlocks SimpOS.HeapLayout SimpOS.HeapRuns

/-- The lowest run of n free blocks starts at block b. -/
def LowestRun (heap : Heap) (n : Nat) (b : Int) : Prop := FreeRun heap n b ∧ ∀ a, a < b → ¬FreeRun heap n a

/-- A request is served from the lowest run that has room for it or refused, and nothing is
    written past the table. -/
structure Served (heap : Heap) (size : Nat) : Prop where
  granted : (heap_malloc heap size).1 ≠ 0 ↔ ∃ a, FreeRun heap (blocks size) a
  lowest : ∀ b, LowestRun heap (blocks size) b → (heap_malloc heap size).1 = heap_block_to_address heap b
  refused : (¬∃ a, FreeRun heap (blocks size) a) → (heap_malloc heap size).2 = heap
  inside : ∀ i, heap.table.total ≤ i → (heap_malloc heap size).2.table.entries i = heap.table.entries i

theorem LowestRun.unique {heap : Heap} {n : Nat} {a b : Int} (first : LowestRun heap n a) (second : LowestRun heap n b) :
    a = b := by
  rcases Int.lt_trichotomy a b with below | same | above
  · exact absurd first.1 (second.2 a below)
  · exact same
  · exact absurd second.1 (first.2 b above)

section
variable {heap : Heap} {size : Nat}

theorem heap_malloc_request (high : size ≤ 0xFFFFF000) : heap_malloc heap size = heap_malloc_blocks heap (blocks size) := by
  simp only [heap_malloc,heap_align_value_to_upper_blocks high]

/-- The answer in each of the three outcomes of the search. -/
theorem heap_malloc_cases (low : 1 ≤ size) (high : size ≤ 0xFFFFF000) :
    (∃ b, LowestRun heap (blocks size) b ∧
      heap_malloc heap size = (heap_block_to_address heap b,heap_mark_blocks_taken heap b (blocks size))) ∨
    (¬∃ a, FreeRun heap (blocks size) a) ∧ (heap.table.total ≠ 0 ∧ FreeBlock heap (heap.table.total - 1)) ∧
      (∃ b : Int, 0 ≤ b ∧ b < heap.table.total ∧ FreeBlock heap b ∧
        heap_malloc heap size = (heap_block_to_address heap b,heap_mark_blocks_taken heap b (blocks size))) ∨
    (¬∃ a, FreeRun heap (blocks size) a) ∧ (heap.table.total = 0 ∨ ¬FreeBlock heap (heap.table.total - 1)) ∧
      heap_malloc heap size = (0,heap) := by
  have positive : 0 < blocks size := by unfold blocks; omega
  have search := heap_get_start_block_correct heap (blocks size)
  rw [heap_malloc_request high,heap_malloc_blocks]
  generalize heap_get_start_block heap (blocks size) = b at search
  cases search with
  | run _ found first =>
    have start : ¬b < 0 := Int.not_lt.mpr found.1
    exact .inl ⟨b,⟨found,first⟩,by simp only [start,if_false]⟩
  | tail above below free noRun =>
    have start : ¬b < 0 := Int.not_lt.mpr above
    have none : ¬∃ a, FreeRun heap (blocks size) a := by
      rintro ⟨a,run⟩
      exact noRun positive a run
    refine .inr (.inl ⟨none,⟨by omega,free _ (by omega) (by omega)⟩,b,above,below,free b (Int.le_refl b) below,?_⟩)
    simp only [start,if_false]
  | full last noRun => exact .inr (.inr ⟨by rintro ⟨a,run⟩; exact noRun positive a run,last,rfl⟩)

/-- Marking changes the entry of a free block it starts at. -/
theorem marked_changed {b : Int} (low : 1 ≤ size) (free : FreeBlock heap b) :
    heap_mark_blocks_taken heap b (blocks size) ≠ heap := by
  intro same
  have entry := heap_mark_blocks_taken_correct heap b (blocks size) b
  rw [same,if_pos (mem_mk.mpr (by unfold blocks; omega))] at entry
  unfold FreeBlock at free
  rw [entry] at free
  exact chainEntry_taken _ _ free

/-- A request is served or refused as it should be exactly when the lowest run, where there is
    one, has an address, and where there is none the last block of the table is taken. -/
theorem heap_malloc_served_iff (low : 1 ≤ size) (high : size ≤ 0xFFFFF000) :
    Served heap size ↔
      (∀ b, LowestRun heap (blocks size) b → heap_block_to_address heap b ≠ 0) ∧
      ((∃ a, FreeRun heap (blocks size) a) ∨ heap.table.total = 0 ∨ ¬FreeBlock heap (heap.table.total - 1)) := by
  have outcome := @heap_malloc_cases heap size low high
  constructor
  · intro served
    refine ⟨fun b run => ?_,?_⟩
    · rw [← served.lowest b run]
      exact served.granted.mpr ⟨b,run.1⟩
    · rcases outcome with ⟨b,run,_⟩ | ⟨none,_,b,_,_,free,result⟩ | ⟨_,last,_⟩
      · exact .inl ⟨b,run.1⟩
      · have kept := served.refused none
        rw [result] at kept
        exact absurd kept (marked_changed low free)
      · exact .inr last
  · rintro ⟨address,last⟩
    rcases outcome with ⟨b,run,result⟩ | ⟨none,⟨some,free⟩,_⟩ | ⟨none,_,result⟩
    · refine ⟨⟨fun _ => ⟨b,run.1⟩,fun _ => ?_⟩,fun c other => ?_,fun none => absurd ⟨b,run.1⟩ none,fun i outside => ?_⟩
      · rw [result]
        exact address b run
      · rw [result,other.unique run]
      · have fits := run.1.2.1
        rw [result,heap_mark_blocks_taken_correct,if_neg]
        rw [mem_mk]
        omega
    · rcases last with run | empty | taken
      · exact absurd run none
      · exact absurd empty some
      · exact absurd free taken
    · refine ⟨⟨fun pointer => ?_,fun run => absurd run none⟩,fun c run => absurd ⟨c,run.1⟩ none,fun _ => ?_,fun i _ => ?_⟩
      · rw [result] at pointer
        exact absurd rfl pointer
      · rw [result]
      · rw [result]

end

theorem heap_malloc_served_kernel : Served kernelHeap 5000 := by
  have create : heap_create ⟨⟨fun _ => 0,0⟩,0⟩ SIMPOS_HEAP_ADDRESS (SIMPOS_HEAP_ADDRESS + SIMPOS_HEAP_SIZE_BYTES)
      ⟨fun _ => 0,25600⟩ = (0,kernelHeap) := rfl
  have run : FreeRun kernelHeap (blocks 5000) 0 := created_run create (by decide)
  refine (heap_malloc_served_iff (by decide) (by decide)).mpr ⟨fun b first => ?_,.inl ⟨0,run⟩⟩
  have lowest : LowestRun kernelHeap (blocks 5000) 0 := ⟨run,fun a below found => absurd found.1 (Int.not_le.mpr below)⟩
  rw [first.unique lowest]
  decide

/-- A request of one block more than the kernel's heap has is granted, past the end of the table. -/
theorem heap_malloc_overruns :
    (¬∃ a, FreeRun kernelHeap (blocks 104861696) a) ∧ (heap_malloc kernelHeap 104861696).1 ≠ 0 ∧
    (heap_malloc kernelHeap 104861696).2.table.entries 25600 ≠ kernelHeap.table.entries 25600 := by
  have total : kernelHeap.table.total = 25600 := rfl
  have count : blocks 104861696 = 25601 := by decide
  have clear : ∀ i, kernelHeap.table.entries i = 0 := by
    intro i
    show (if 0 ≤ i ∧ i < ((25600 : Nat) : Int) then (0 : UInt8) else 0) = 0
    split_ifs <;> rfl
  have none : ¬∃ a, FreeRun kernelHeap (blocks 104861696) a := by
    rintro ⟨a,low,high,_⟩
    rw [count,total] at high
    omega
  refine ⟨none,?_⟩
  rcases @heap_malloc_cases kernelHeap 104861696 (by decide) (by decide) with
    ⟨b,run,_⟩ | ⟨_,_,b,low,below,_,result⟩ | ⟨_,last,_⟩
  · exact absurd ⟨b,run.1⟩ none
  · rw [total] at below
    rw [result,heap_mark_blocks_taken_correct,count,clear,if_pos (mem_mk.mpr (by omega))]
    refine ⟨?_,chainEntry_ne_free _ _⟩
    have start : kernelHeap.start_address = 16777216 := rfl
    simp only [heap_block_to_address,start,u32,SIMPOS_HEAP_BLOCK_SIZE]
    omega
  · rcases last with empty | taken
    · exact absurd (total.symm.trans empty) (by decide)
    · exact absurd (by rw [FreeBlock,clear]; decide) taken

end SimpOS.HeapExhaustion
