import SimpOS.HeapBlocks
import SimpOS.Runs

/-!
The heap table as a map of live extents: the table entries of an extent are its chain,
and every other entry is free. Marking adds one extent and freeing removes one, whatever
the neighbours are. An extent handed out from the free blocks at the end of the table
may reach past the last entry; only its entries inside the table are spoken about.
-/
namespace SimpOS.HeapLayout
open SimpOS.Machine SimpOS.Extents SimpOS.HeapBlocks

/-- The blocks a request of the given size takes. -/
def blocks (size : Nat) : Nat := (size + 4095) / 4096
/-- The table entry of block i of an extent: first block marked, every block but the last
    linked to the next. -/
def chainEntry (e : Extent) (i : Int) : UInt8 :=
  (if i = e.first then HEAP_BLOCK_TABLE_ENTRY_TAKEN ||| HEAP_BLOCK_IS_FIRST else HEAP_BLOCK_TABLE_ENTRY_TAKEN)
    ||| (if i + 1 = e.first + e.count then 0 else HEAP_BLOCK_HAS_NEXT)

/-- The table describes exactly the live extents. -/
structure Layout (heap : Heap) (live : List Extent) : Prop where
  disjoint : live.Pairwise Apart
  start : ∀ e ∈ live, 0 ≤ e.first ∧ e.first < heap.table.total ∧ 0 < e.count
  chain : ∀ e ∈ live, ∀ i ∈ e, i < heap.table.total → heap.table.entries i = chainEntry e i
  free : ∀ i : Int, 0 ≤ i → i < heap.table.total → ¬ Covered live i →
    heap.table.entries i = HEAP_BLOCK_TABLE_ENTRY_FREE

theorem chainEntry_taken (e : Extent) (i : Int) : heap_get_entry_type (chainEntry e i) ≠ HEAP_BLOCK_TABLE_ENTRY_FREE := by
  unfold chainEntry
  split <;> split <;> decide
theorem chainEntry_ne_free (e : Extent) (i : Int) : chainEntry e i ≠ HEAP_BLOCK_TABLE_ENTRY_FREE := by
  unfold chainEntry
  split <;> split <;> decide
theorem chainEntry_last (e : Extent) (i : Int) :
    chainEntry e i &&& HEAP_BLOCK_HAS_NEXT = 0 ↔ i + 1 = e.first + e.count := by
  unfold chainEntry
  split <;> split <;> simp_all <;> decide

/-- A block counts as free for the search exactly when no live extent has it. -/
theorem freeBlock_iff {heap : Heap} {live : List Extent} (layout : Layout heap live) {i : Int}
    (low : 0 ≤ i) (high : i < heap.table.total) : FreeBlock heap i ↔ ¬ Covered live i := by
  constructor
  · rintro free ⟨e,member,inside⟩
    rw [FreeBlock,layout.chain e member i inside high] at free
    exact chainEntry_taken e i free
  · intro uncovered
    rw [FreeBlock,layout.free i low high uncovered]
    decide

private theorem heap_mark_blocks_taken_loop_correct (end_block : Int) (remaining : Nat) :
    ∀ (i : Int) (entry : UInt8) (entries : Int → UInt8) (j : Int),
      heap_mark_blocks_taken_loop end_block remaining i entry entries j =
        if j = i ∧ 0 < remaining then entry
        else if i < j ∧ j < i + remaining then
          HEAP_BLOCK_TABLE_ENTRY_TAKEN ||| (if j = end_block then 0 else HEAP_BLOCK_HAS_NEXT)
        else entries j := by
  induction remaining with
  | zero =>
    intro i entry entries j
    rw [heap_mark_blocks_taken_loop,if_neg (by omega),if_neg (by omega)]
  | succ remaining ih =>
    intro i entry entries j
    rw [heap_mark_blocks_taken_loop,ih]
    by_cases here : j = i
    · subst here
      rw [if_neg (by omega),if_neg (by omega),Function.update_self,if_pos ⟨rfl,by omega⟩]
    · by_cases next : j = i + 1 ∧ 0 < remaining
      · obtain ⟨rfl,positive⟩ := next
        have inside : i < i + 1 ∧ i + 1 < i + (remaining + 1 : Nat) := by omega
        have last : (i ≠ end_block - 1) ↔ ¬ i + 1 = end_block := by omega
        simp only [positive,inside,here,last,and_self,false_and,if_true,if_false]
        by_cases atEnd : i + 1 = end_block
        · simp only [atEnd,not_true_eq_false,if_true,if_false]; rfl
        · simp only [atEnd,not_false_eq_true,if_true,if_false]
      · have same : (i + 1 < j ∧ j < i + 1 + remaining) ↔ (i < j ∧ j < i + (remaining + 1 : Nat)) := by omega
        simp only [next,here,same,false_and,if_false,Function.update_of_ne here]

/-- Marking writes the chain of the extent and nothing else. -/
theorem heap_mark_blocks_taken_correct (heap : Heap) (b : Int) (n : Nat) (j : Int) :
    (heap_mark_blocks_taken heap b n).table.entries j =
      if j ∈ Extent.mk b n then chainEntry ⟨b,n⟩ j else heap.table.entries j := by
  have length : (b + n - 1 + 1 - b).toNat = n := by omega
  simp only [heap_mark_blocks_taken,length,heap_mark_blocks_taken_loop_correct,mem_mk,chainEntry]
  by_cases first : j = b ∧ 0 < n
  · have inside : b ≤ j ∧ j < b + n := by omega
    have last : (n > 1) ↔ ¬ (j + 1 = b + n) := by omega
    rw [if_pos first,if_pos inside,if_pos first.1]
    by_cases single : j + 1 = b + n <;> simp [last,single]
  · by_cases later : b < j ∧ j < b + n
    · have inside : b ≤ j ∧ j < b + n := by omega
      have last : (j = b + n - 1) ↔ (j + 1 = b + n) := by omega
      have notFirst : ¬ j = b := by omega
      simp only [later,inside,notFirst,last,and_self,if_true,false_and,if_false]
    · have outside : ¬ (b ≤ j ∧ j < b + n) := by omega
      simp only [first,later,outside,if_false]

@[simp] theorem heap_mark_blocks_taken_total (heap : Heap) (b : Int) (n : Nat) :
    (heap_mark_blocks_taken heap b n).table.total = heap.table.total := rfl
@[simp] theorem heap_mark_blocks_taken_start_address (heap : Heap) (b : Int) (n : Nat) :
    (heap_mark_blocks_taken heap b n).start_address = heap.start_address := rfl
@[simp] theorem heap_mark_blocks_free_total (heap : Heap) (b : Int) :
    (heap_mark_blocks_free heap b).table.total = heap.table.total := rfl
@[simp] theorem heap_mark_blocks_free_start_address (heap : Heap) (b : Int) :
    (heap_mark_blocks_free heap b).start_address = heap.start_address := rfl

private theorem heap_mark_blocks_free_loop_chain (e : Extent) (total : Int) (remaining : Nat) :
    ∀ (i : Int) (entries : Int → UInt8), i ∈ e → i + remaining = total →
      (∀ j ∈ e, i ≤ j → j < total → entries j = chainEntry e j) →
      ∀ j, heap_mark_blocks_free_loop remaining i entries j =
        if i ≤ j ∧ j ∈ e ∧ j < total then HEAP_BLOCK_TABLE_ENTRY_FREE else entries j := by
  induction remaining with
  | zero =>
    intro i entries inside atEnd chain j
    rw [heap_mark_blocks_free_loop,if_neg (by omega)]
  | succ remaining ih =>
    intro i entries inside atEnd chain j
    have here := chain i inside (Int.le_refl i) (by omega)
    rw [mem_def] at inside
    rw [heap_mark_blocks_free_loop]
    by_cases last : i + 1 = e.first + e.count
    · rw [if_pos (by rw [here]; exact (chainEntry_last e i).mpr last)]
      by_cases same : j = i
      · subst same
        rw [Function.update_self,if_pos ⟨Int.le_refl j,by rw [mem_def]; omega,by omega⟩]
      · rw [Function.update_of_ne same,if_neg (by rw [mem_def]; omega)]
    · rw [if_neg (by rw [here]; exact fun h => last ((chainEntry_last e i).mp h))]
      have chain' : ∀ k ∈ e, i + 1 ≤ k → k < total →
          Function.update entries i HEAP_BLOCK_TABLE_ENTRY_FREE k = chainEntry e k := by
        intro k inE above below
        rw [Function.update_of_ne (by omega)]
        exact chain k inE (by omega) below
      rw [ih (i + 1) _ (by rw [mem_def]; omega) (by omega) chain' j]
      by_cases same : j = i
      · subst same
        rw [if_neg (by omega),Function.update_self,if_pos ⟨Int.le_refl j,by rw [mem_def]; omega,by omega⟩]
      · rw [Function.update_of_ne same]
        by_cases freed : i + 1 ≤ j ∧ j ∈ e ∧ j < total
        · rw [if_pos freed,if_pos ⟨by omega,freed.2⟩]
        · rw [if_neg freed,if_neg (fun h => freed ⟨by omega,h.2⟩)]

/-- Freeing from the first block of a live extent clears the entries of that extent
    inside the table and nothing else. -/
theorem heap_mark_blocks_free_chain {heap : Heap} {live : List Extent} (layout : Layout heap live)
    {e : Extent} (member : e ∈ live) (j : Int) :
    (heap_mark_blocks_free heap e.first).table.entries j =
      if j ∈ e ∧ j < heap.table.total then HEAP_BLOCK_TABLE_ENTRY_FREE else heap.table.entries j := by
  have start := layout.start e member
  have freed := heap_mark_blocks_free_loop_chain e heap.table.total (heap.table.total - e.first).toNat e.first
    heap.table.entries (by rw [mem_def]; omega) (by omega) (fun k inE _ below => layout.chain e member k inE below) j
  have drop : (e.first ≤ j ∧ j ∈ e ∧ j < heap.table.total) ↔ (j ∈ e ∧ j < heap.table.total) :=
    ⟨fun h => h.2,fun h => ⟨h.1.1,h⟩⟩
  simpa only [heap_mark_blocks_free,drop] using freed

/-- Freeing from a block without the link flag clears that one entry. -/
theorem heap_mark_blocks_free_single {heap : Heap} {b : Int} (below : b < heap.table.total)
    (unlinked : heap.table.entries b &&& HEAP_BLOCK_HAS_NEXT = 0) (j : Int) :
    (heap_mark_blocks_free heap b).table.entries j =
      if j = b then HEAP_BLOCK_TABLE_ENTRY_FREE else heap.table.entries j := by
  obtain ⟨remaining,length⟩ : ∃ remaining, (heap.table.total - b).toNat = remaining + 1 :=
    ⟨(heap.table.total - b).toNat - 1,by omega⟩
  simp only [heap_mark_blocks_free,length,heap_mark_blocks_free_loop,unlinked,if_true,Function.update_apply]

/-- The entries of the table that a release from block b walks over, each linked to the next. -/
def FreedFrom (heap : Heap) (b i : Int) : Prop :=
  b ≤ i ∧ i < heap.table.total ∧ ∀ j, b ≤ j → j < i → heap.table.entries j &&& HEAP_BLOCK_HAS_NEXT ≠ 0

private theorem heap_mark_blocks_free_loop_cases (remaining : Nat) :
    ∀ (i : Int) (entries : Int → UInt8) (j : Int), heap_mark_blocks_free_loop remaining i entries j = entries j ∨
      (i ≤ j ∧ j < i + remaining ∧ (∀ k, i ≤ k → k < j → entries k &&& HEAP_BLOCK_HAS_NEXT ≠ 0) ∧
        heap_mark_blocks_free_loop remaining i entries j = HEAP_BLOCK_TABLE_ENTRY_FREE) := by
  induction remaining with
  | zero => exact fun i entries j => .inl rfl
  | succ remaining ih =>
    intro i entries j
    rw [heap_mark_blocks_free_loop]
    by_cases here : j = i
    · subst here
      refine .inr ⟨Int.le_refl j,by omega,fun k low below => by omega,?_⟩
      by_cases last : entries j &&& HEAP_BLOCK_HAS_NEXT = 0
      · rw [if_pos last,Function.update_self]
      · rw [if_neg last]
        rcases ih (j + 1) (Function.update entries j HEAP_BLOCK_TABLE_ENTRY_FREE) j with kept | ⟨low,_⟩
        · rw [kept,Function.update_self]
        · omega
    · by_cases last : entries i &&& HEAP_BLOCK_HAS_NEXT = 0
      · rw [if_pos last]
        exact .inl (Function.update_of_ne here ..)
      · rw [if_neg last]
        rcases ih (i + 1) (Function.update entries i HEAP_BLOCK_TABLE_ENTRY_FREE) j with
          kept | ⟨low,high,linked,freed⟩
        · rw [kept]
          exact .inl (Function.update_of_ne here ..)
        · refine .inr ⟨by omega,by omega,fun k kLow kBelow => ?_,freed⟩
          by_cases start : k = i
          · exact start ▸ last
          · have next := linked k (by omega) kBelow
            rwa [Function.update_of_ne start] at next

/-- Whatever the table holds, a release frees entries it walks over and keeps the others. -/
theorem heap_mark_blocks_free_cases (heap : Heap) (b i : Int) :
    (heap_mark_blocks_free heap b).table.entries i = heap.table.entries i ∨
    (FreedFrom heap b i ∧ (heap_mark_blocks_free heap b).table.entries i = HEAP_BLOCK_TABLE_ENTRY_FREE) := by
  rcases heap_mark_blocks_free_loop_cases (heap.table.total - b).toNat b heap.table.entries i with
    kept | ⟨low,high,linked,freed⟩
  · exact .inl kept
  · exact .inr ⟨⟨low,by omega,linked⟩,freed⟩

/-- A release always frees the entry it starts at. -/
theorem heap_mark_blocks_free_first {heap : Heap} {b : Int} (below : b < heap.table.total) :
    (heap_mark_blocks_free heap b).table.entries b = HEAP_BLOCK_TABLE_ENTRY_FREE := by
  obtain ⟨remaining,length⟩ : ∃ remaining, (heap.table.total - b).toNat = remaining + 1 :=
    ⟨(heap.table.total - b).toNat - 1,by omega⟩
  simp only [heap_mark_blocks_free,length,heap_mark_blocks_free_loop]
  split_ifs
  · exact Function.update_self ..
  · rcases heap_mark_blocks_free_loop_cases remaining (b + 1)
      (Function.update heap.table.entries b HEAP_BLOCK_TABLE_ENTRY_FREE) b with kept | ⟨low,_⟩
    · rw [kept,Function.update_self]
    · omega

/-- The extent the search finds joins the live ones. -/
theorem layout_taken {heap : Heap} {live : List Extent} (layout : Layout heap live) {n : Nat} {b : Int}
    (positive : 0 < n) (low : 0 ≤ b) (high : b < heap.table.total)
    (free : ∀ i ∈ Extent.mk b n, i < heap.table.total → FreeBlock heap i) :
    Layout (heap_mark_blocks_taken heap b n) (⟨b,n⟩ :: live) := by
  have apart : ∀ e ∈ live, Apart ⟨b,n⟩ e := by
    intro e member i inNew inOld
    have start := layout.start e member
    -- extents that meet past the table also meet at its last block
    obtain ⟨k,inNew,inOld,below⟩ : ∃ k, k ∈ Extent.mk b n ∧ k ∈ e ∧ k < heap.table.total := by
      by_cases below : i < heap.table.total
      · exact ⟨i,inNew,inOld,below⟩
      · rw [mem_mk] at inNew
        rw [mem_def] at inOld
        exact ⟨heap.table.total - 1,by rw [mem_mk]; omega,by rw [mem_def]; omega,by omega⟩
    have above : 0 ≤ k := by rw [mem_mk] at inNew; omega
    exact (freeBlock_iff layout above below).mp (free k inNew below) ⟨e,member,inOld⟩
  refine ⟨List.pairwise_cons.mpr ⟨apart,layout.disjoint⟩,?_,?_,?_⟩
  · intro e member
    rcases List.mem_cons.mp member with rfl | old
    · exact ⟨low,high,positive⟩
    · exact layout.start e old
  · intro e member i inside below
    rw [heap_mark_blocks_taken_correct]
    rcases List.mem_cons.mp member with rfl | old
    · rw [if_pos inside]
    · rw [if_neg (fun inNew => apart e old i inNew inside)]
      exact layout.chain e old i inside below
  · intro i above below uncovered
    rw [covered_cons,not_or] at uncovered
    rw [heap_mark_blocks_taken_correct,if_neg uncovered.1]
    exact layout.free i above below uncovered.2

/-- Freeing a live extent takes exactly it off the map. -/
theorem layout_freed {heap : Heap} {live : List Extent} (layout : Layout heap live) {e : Extent}
    (member : e ∈ live) : Layout (heap_mark_blocks_free heap e.first) (live.erase e) := by
  have rest : ∀ other ∈ live.erase e, other ∈ live := fun other => List.mem_of_mem_erase
  refine ⟨layout.disjoint.sublist List.erase_sublist,fun other h => layout.start other (rest other h),?_,?_⟩
  · intro other erased i inside below
    have kept := (covered_erase layout.disjoint member i).mp ⟨other,erased,inside⟩
    rw [heap_mark_blocks_free_chain layout member,if_neg (fun h => kept.2 h.1)]
    exact layout.chain other (rest other erased) i inside below
  · intro i above below uncovered
    rw [covered_erase layout.disjoint member] at uncovered
    rw [heap_mark_blocks_free_chain layout member]
    by_cases inside : i ∈ e
    · rw [if_pos ⟨inside,below⟩]
    · rw [if_neg (fun h => inside h.1)]
      exact layout.free i above below (fun covered => uncovered ⟨covered,inside⟩)

/-- The answer of an allocation of n blocks that is granted from block b on: the blocks are
    free as far as the table reaches, and they fit whenever some run of n blocks exists. -/
structure Granted (heap : Heap) (n : Nat) (b : Int) : Prop where
  low : 0 ≤ b
  high : b < heap.table.total
  first : FreeBlock heap b
  free : ∀ i ∈ Extent.mk b n, i < heap.table.total → FreeBlock heap i
  fits : 0 < n → ∀ a, FreeRun heap n a → FreeRun heap n b

/-- An allocation is refused, with the heap as it was, or granted and marked. -/
theorem heap_malloc_blocks_cases (heap : Heap) (n : Nat) :
    (heap_get_start_block heap n < 0 ∧ heap_malloc_blocks heap n = (0,heap) ∧ (0 < n → ∀ a, ¬ FreeRun heap n a)) ∨
    ∃ b, heap_get_start_block heap n = b ∧ Granted heap n b ∧
      heap_malloc_blocks heap n = (heap_block_to_address heap b,heap_mark_blocks_taken heap b n) := by
  have search := heap_get_start_block_correct heap n
  rw [heap_malloc_blocks]
  generalize heap_get_start_block heap n = b at search
  cases search with
  | run positive found lowest =>
    obtain ⟨low,fits,all⟩ := found
    refine .inr ⟨b,rfl,⟨low,by omega,all b (mem_mk.mpr (by omega)),fun i inside _ => all i inside,
      fun _ _ _ => ⟨low,fits,all⟩⟩,?_⟩
    simp only [show ¬ b < 0 by omega,if_false]
  | tail low high free noRun =>
    refine .inr ⟨b,rfl,⟨low,high,free b (Int.le_refl b) high,fun i inside below => ?_,
      fun positive a run => absurd run (noRun positive a)⟩,?_⟩
    · exact free i (mem_mk.mp inside).1 below
    · simp only [show ¬ b < 0 by omega,if_false]
  | full last noRun =>
    exact .inl ⟨by decide,rfl,noRun⟩

/-- The lowest run is the one taken. -/
theorem heap_malloc_blocks_first {heap : Heap} {n : Nat} {b : Int} (positive : 0 < n) (run : FreeRun heap n b)
    (lowest : ∀ a, a < b → ¬ FreeRun heap n a) :
    heap_malloc_blocks heap n = (heap_block_to_address heap b,heap_mark_blocks_taken heap b n) := by
  have search := heap_get_start_block_correct heap n
  rw [heap_malloc_blocks]
  generalize heap_get_start_block heap n = c at search
  cases search with
  | run _ found first =>
    have same : c = b := by
      rcases Int.lt_trichotomy c b with below | same | above
      · exact absurd found (lowest c below)
      · exact same
      · exact absurd run (first b above)
    subst same
    simp only [show ¬ c < 0 by have := found.1; omega,if_false]
  | tail _ _ _ noRun => exact absurd run (noRun positive b)
  | full _ noRun => exact absurd run (noRun positive b)

theorem heap_mark_blocks_taken_zero (heap : Heap) (b : Int) : heap_mark_blocks_taken heap b 0 = heap := by
  have same : (heap_mark_blocks_taken heap b 0).table.entries = heap.table.entries := by
    funext j
    rw [heap_mark_blocks_taken_correct,if_neg (by rw [mem_mk]; omega)]
  exact congrArg (fun entries => Heap.mk ⟨entries,heap.table.total⟩ heap.start_address) same

/-- The rounding is exact for every request the 32-bit sum does not overflow. -/
theorem heap_align_value_to_upper_blocks {size : Nat} (bound : size ≤ 0xFFFFF000) :
    heap_align_value_to_upper size / SIMPOS_HEAP_BLOCK_SIZE = blocks size := by
  simp only [heap_align_value_to_upper,blocks,u32,SIMPOS_HEAP_BLOCK_SIZE]
  split <;> omega
/-- Above that the rounded size wraps to zero. -/
theorem heap_align_value_to_upper_wraps {size : Nat} (low : 0xFFFFF000 < size) (high : size < 4294967296) :
    heap_align_value_to_upper size = 0 := by
  simp only [heap_align_value_to_upper,u32,SIMPOS_HEAP_BLOCK_SIZE]
  split <;> omega

/-- A block's address leads back to the block while the distance fits in an `int`. -/
theorem heap_address_to_block_correct (heap : Heap) {b : Int} (low : 0 ≤ b) (near : b < 524288) :
    heap_address_to_block heap (heap_block_to_address heap b) = b := by
  have distance : i32 ((heap_block_to_address heap b : Int) - heap.start_address) = b * 4096 := by
    simp only [heap_block_to_address,i32,u32,SIMPOS_HEAP_BLOCK_SIZE]
    omega
  rw [heap_address_to_block,distance]
  exact Int.mul_tdiv_cancel b (by decide)

end SimpOS.HeapLayout
