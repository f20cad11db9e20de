import SimpOS.HeapLayout
import SimpOS.Memory
import Mathlib.Data.Finset.Card

/-!
The kernel's heap of `memory/heap/kernel_heap.c` together with the physical memory it
hands out, and what a request and a release do to the map of its live extents.
-/
namespace SimpOS.KernelHeap
open SimpOS.Machine SimpOS.Memory SimpOS.Extents SimpOS.HeapBlocks SimpOS.HeapLayout

structure Kernel where
  memory : Bytes
  kernel_heap : Heap

/-- The heap over the memory its table's entries occupy. -/
def kernel_heap_init (entries : Int → UInt8) : Heap :=
  let total_table_entries := SIMPOS_HEAP_SIZE_BYTES / SIMPOS_HEAP_BLOCK_SIZE
  (heap_create ⟨⟨entries, total_table_entries⟩, 0⟩ SIMPOS_HEAP_ADDRESS (SIMPOS_HEAP_ADDRESS + SIMPOS_HEAP_SIZE_BYTES)
    ⟨entries, total_table_entries⟩).2

def kmalloc (k : Kernel) (size : Nat) : Nat × Kernel :=
  let (ptr, heap) := heap_malloc k.kernel_heap size
  (ptr, { k with kernel_heap := heap })

def kzalloc (k : Kernel) (size : Nat) : Nat × Kernel :=
  let (ptr, k) := kmalloc k size
  if ptr = 0 then (0, k)
  else (ptr, { k with memory := memset k.memory ptr 0x00 size })

def kfree (k : Kernel) (ptr : Nat) : Kernel := { k with kernel_heap := heap_free k.kernel_heap ptr }

/-- The blocks `heap_malloc` looks for: none when rounding the size up passes 2^32. -/
def requestBlocks (size : Nat) : Nat := heap_align_value_to_upper size / SIMPOS_HEAP_BLOCK_SIZE

/-- The kernel's heap region with the given live extents. -/
structure Laid (heap : Heap) (live : List Extent) : Prop where
  start_address : heap.start_address = SIMPOS_HEAP_ADDRESS
  total : heap.table.total = SIMPOS_HEAP_SIZE_BYTES / SIMPOS_HEAP_BLOCK_SIZE
  layout : Layout heap live

/-- The address of a block of the kernel's heap. -/
def blockAddress (b : Int) : Nat := SIMPOS_HEAP_ADDRESS + 4096 * b.toNat

section
variable {heap : Heap} {live : List Extent}

theorem Laid.total_eq (laid : Laid heap live) : heap.table.total = 25600 := laid.total
theorem Laid.first_nonneg (laid : Laid heap live) {e : Extent} (member : e ∈ live) : 0 ≤ e.first :=
  (laid.layout.start e member).1
theorem Laid.perm (laid : Laid heap live) {live' : List Extent} (same : live.Perm live') : Laid heap live' := by
  obtain ⟨start,total,layout⟩ := laid
  refine ⟨start,total,same.pairwise layout.disjoint (fun apart => apart.symm),
    fun e member => layout.start e (same.mem_iff.mpr member),
    fun e member => layout.chain e (same.mem_iff.mpr member),fun i low high uncovered => ?_⟩
  refine layout.free i low high fun covered => uncovered ?_
  obtain ⟨e,member,inside⟩ := covered
  exact ⟨e,same.mem_iff.mp member,inside⟩

theorem heap_block_to_address_kernel (start : heap.start_address = SIMPOS_HEAP_ADDRESS) {b : Int} (low : 0 ≤ b)
    (high : b < 25600) : heap_block_to_address heap b = blockAddress b := by
  simp only [heap_block_to_address,blockAddress,start,SIMPOS_HEAP_ADDRESS,SIMPOS_HEAP_BLOCK_SIZE,u32]
  omega
theorem heap_address_to_block_kernel (start : heap.start_address = SIMPOS_HEAP_ADDRESS) {b : Int} (low : 0 ≤ b)
    (high : b < 25600) : heap_address_to_block heap (blockAddress b) = b := by
  rw [← heap_block_to_address_kernel start low high]
  exact heap_address_to_block_correct heap low (by omega)

/-- A block the search may hand out: inside the table and in no live extent. -/
structure FreeAt (live : List Extent) (b : Int) : Prop where
  low : 0 ≤ b
  high : b < 25600
  uncovered : ¬ Covered live b

/-- The live extents with a request of n blocks granted from block b. -/
def withGranted (b : Int) (n : Nat) (live : List Extent) : List Extent := if n = 0 then live else ⟨b,n⟩ :: live

/-- A request is refused, or granted from a free block on. -/
theorem heap_malloc_kernel (laid : Laid heap live) (size : Nat) :
    (heap_get_start_block heap (requestBlocks size) < 0 ∧ heap_malloc heap size = (0,heap)) ∨
    ∃ b, heap_get_start_block heap (requestBlocks size) = b ∧ FreeAt live b ∧
      heap_malloc heap size = (blockAddress b,heap_mark_blocks_taken heap b (requestBlocks size)) ∧
      Laid (heap_mark_blocks_taken heap b (requestBlocks size)) (withGranted b (requestBlocks size) live) := by
  have total := laid.total_eq
  rcases heap_malloc_blocks_cases heap (requestBlocks size) with ⟨search,refused,_⟩ | ⟨b,search,granted,result⟩
  · exact .inl ⟨search,refused⟩
  · have low := granted.low
    have high := granted.high
    have address := heap_block_to_address_kernel laid.start_address low (by omega)
    refine .inr ⟨b,search,⟨low,by omega,(freeBlock_iff laid.layout low high).mp granted.first⟩,?_,?_⟩
    · rw [← address]
      exact result
    · by_cases none : requestBlocks size = 0
      · rw [withGranted,if_pos none,none,heap_mark_blocks_taken_zero]
        exact laid
      · rw [withGranted,if_neg none]
        exact ⟨laid.start_address,laid.total,layout_taken laid.layout (by omega) low high granted.free⟩

/-- Releasing a live extent by its address. -/
theorem heap_free_live (laid : Laid heap live) {e : Extent} (member : e ∈ live) :
    Laid (heap_free heap (blockAddress e.first)) (live.erase e) := by
  have start := laid.layout.start e member
  have total := laid.total_eq
  rw [heap_free,heap_address_to_block_kernel laid.start_address start.1 (by omega)]
  exact ⟨laid.start_address,laid.total,layout_freed laid.layout member⟩

theorem heap_free_perm {e : Extent} {rest : List Extent} (laid : Laid heap live) (same : live.Perm (e :: rest)) :
    Laid (heap_free heap (blockAddress e.first)) rest := by
  have freed := heap_free_live (laid.perm same) (List.mem_cons_self ..)
  rwa [List.erase_cons_head] at freed

/-- Releasing a block that is free already changes nothing. -/
theorem heap_free_free (laid : Laid heap live) {b : Int} (free : FreeAt live b) :
    heap_free heap (blockAddress b) = heap := by
  have total := laid.total_eq
  have low := free.low
  have high := free.high
  have entry : heap.table.entries b = HEAP_BLOCK_TABLE_ENTRY_FREE :=
    laid.layout.free b low (by omega) free.uncovered
  have same : (heap_free heap (blockAddress b)).table.entries = heap.table.entries := by
    funext i
    rw [heap_free,heap_address_to_block_kernel laid.start_address low high,
      heap_mark_blocks_free_single (by omega) (by rw [entry]; rfl)]
    by_cases here : i = b
    · rw [if_pos here,here,entry]
    · rw [if_neg here]
  exact congrArg (fun entries => Heap.mk ⟨entries,heap.table.total⟩ heap.start_address) same

/-- Releasing a granted request leaves the extents that were live before it. -/
theorem heap_free_granted {b : Int} {n : Nat} (laid : Laid heap (withGranted b n live)) (free : FreeAt live b) :
    Laid (heap_free heap (blockAddress b)) live := by
  by_cases none : n = 0
  · rw [withGranted,if_pos none] at laid
    rw [heap_free_free laid free]
    exact laid
  · rw [withGranted,if_neg none] at laid
    exact heap_free_perm (e := ⟨b,n⟩) laid (List.Perm.refl _)

/-- A release whose walk meets no taken block changes no entry of the table. -/
theorem heap_free_idle (laid : Laid heap live) {ptr : Nat}
    (idle : ∀ i, 0 ≤ i → FreedFrom heap (heap_address_to_block heap ptr) i → FreeBlock heap i) :
    Laid (heap_free heap ptr) live := by
  have same : ∀ i : Int, 0 ≤ i → i < heap.table.total →
      (heap_free heap ptr).table.entries i = heap.table.entries i := by
    intro i low high
    rcases heap_mark_blocks_free_cases heap (heap_address_to_block heap ptr) i with kept | ⟨walked,freed⟩
    · exact kept
    · have uncovered := (freeBlock_iff laid.layout low high).mp (idle i low walked)
      rw [laid.layout.free i low high uncovered]
      exact freed
  refine ⟨laid.start_address,laid.total,laid.layout.disjoint,laid.layout.start,fun e member i inside high => ?_,
    fun i low high uncovered => ?_⟩
  · have start := (laid.layout.start e member).1
    have low : 0 ≤ i := by rw [mem_def] at inside; omega
    rw [same i low high]
    exact laid.layout.chain e member i inside high
  · rw [same i low high]
    exact laid.layout.free i low high uncovered

/-- Two maps of the same extents have the same entries in the table. -/
theorem Laid.entries_eq {heap' : Heap} (laid : Laid heap live) (laid' : Laid heap' live) {i : Int}
    (low : 0 ≤ i) (high : i < heap.table.total) : heap'.table.entries i = heap.table.entries i := by
  have total := laid.total_eq
  have total' := laid'.total_eq
  by_cases covered : Covered live i
  · obtain ⟨e,member,inside⟩ := covered
    rw [laid.layout.chain e member i inside high,laid'.layout.chain e member i inside (by omega)]
  · rw [laid.layout.free i low high covered,laid'.layout.free i low (by omega) covered]

/-- The release frees the request's own blocks and no other entry of the table. -/
theorem entries_released {heap' : Heap} {b : Int} {n : Nat} (laid : Laid heap (withGranted b n live))
    (laid' : Laid heap' live) {i : Int} (low : 0 ≤ i) (high : i < heap.table.total) :
    heap'.table.entries i =
      if i ∈ Extent.mk b n then HEAP_BLOCK_TABLE_ENTRY_FREE else heap.table.entries i := by
  have total := laid.total_eq
  have total' := laid'.total_eq
  by_cases none : n = 0
  · rw [withGranted,if_pos none] at laid
    rw [if_neg (by rw [mem_mk]; omega)]
    exact laid.entries_eq laid' low high
  · rw [withGranted,if_neg none] at laid
    have apart := (List.pairwise_cons.mp laid.layout.disjoint).1
    by_cases own : i ∈ Extent.mk b n
    · rw [if_pos own]
      refine laid'.layout.free i low (by omega) ?_
      rintro ⟨e,member,inside⟩
      exact apart e member i own inside
    · rw [if_neg own]
      by_cases covered : Covered live i
      · obtain ⟨e,member,inside⟩ := covered
        rw [laid.layout.chain e (List.mem_cons_of_mem _ member) i inside high,
          laid'.layout.chain e member i inside (by omega)]
      · have uncovered : ¬ Covered (⟨b,n⟩ :: live) i := by
          rw [covered_cons]
          rintro (inOwn | inLive)
          · exact own inOwn
          · exact covered inLive
        rw [laid.layout.free i low high uncovered,laid'.layout.free i low (by omega) covered]

end

/-- The kernel's heap starts with no extent live. -/
theorem kernel_heap_init_laid (entries : Int → UInt8) : Laid (kernel_heap_init entries) [] := by
  refine ⟨rfl,rfl,.nil,fun e member => (nomatch member),fun e member => (nomatch member),?_⟩
  intro i low high _
  exact if_pos ⟨low,high⟩

theorem blockAddress_aligned (b : Int) : blockAddress b % 4096 = 0 := by
  simp only [blockAddress,SIMPOS_HEAP_ADDRESS]
  omega
theorem blockAddress_pos (b : Int) : 0 < blockAddress b := by
  simp only [blockAddress,SIMPOS_HEAP_ADDRESS]
  omega
theorem blockAddress_high {b : Int} (high : b < 25600) : blockAddress b + 4096 ≤ 4294967296 := by
  simp only [blockAddress,SIMPOS_HEAP_ADDRESS]
  omega
theorem blockAddress_inj {a b : Int} (lowA : 0 ≤ a) (lowB : 0 ≤ b) : blockAddress a = blockAddress b ↔ a = b := by
  simp only [blockAddress,SIMPOS_HEAP_ADDRESS]
  omega
theorem requestBlocks_eq {size : Nat} (bound : size ≤ 0xFFFFF000) : requestBlocks size = blocks size :=
  heap_align_value_to_upper_blocks bound
theorem requestBlocks_zero : requestBlocks 0 = 0 := by decide
theorem requestBlocks_page : requestBlocks 4096 = 1 := by decide

/-! ### Requests of one block -/

/-- The number of blocks the table has free. -/
def freeBlocks (heap : Heap) : Nat := ((Finset.range heap.table.total).filter fun i => FreeBlock heap (i : Nat)).card

theorem requestBlocks_single {size : Nat} (positive : 0 < size) (small : size ≤ 4096) : requestBlocks size = 1 := by
  rw [requestBlocks_eq (by omega),blocks]
  omega

section
variable {live : List Extent}

/-- One block goes over to the extent of a request, and nothing else. -/
structure Took (k k' : Kernel) (live : List Extent) (b : Int) : Prop where
  free : FreeAt live b
  laid : Laid k'.kernel_heap (⟨b,1⟩ :: live)
  count : freeBlocks k'.kernel_heap + 1 = freeBlocks k.kernel_heap
  frame : ∀ x, ¬ (blockAddress b ≤ x ∧ x < blockAddress b + 4096) → k'.memory x = k.memory x

theorem freeBlocks_taken {heap heap' : Heap} {b : Int} (laid : Laid heap live) (free : FreeAt live b)
    (laid' : Laid heap' (⟨b,1⟩ :: live)) : freeBlocks heap' + 1 = freeBlocks heap := by
  obtain ⟨low,high,uncovered⟩ := free
  have total := laid.total_eq
  have total' := laid'.total_eq
  have own : b.toNat ∈ (Finset.range heap.table.total).filter fun i => FreeBlock heap (i : Nat) := by
    rw [Finset.mem_filter,Finset.mem_range,Int.toNat_of_nonneg low]
    exact ⟨by omega,(freeBlock_iff laid.layout low (by omega)).mpr uncovered⟩
  have rest : (Finset.range heap'.table.total).filter (fun i => FreeBlock heap' (i : Nat)) =
      ((Finset.range heap.table.total).filter fun i => FreeBlock heap (i : Nat)).erase b.toNat := by
    ext i
    rw [Finset.mem_erase,Finset.mem_filter,Finset.mem_filter,Finset.mem_range,Finset.mem_range,total,total']
    have other : (i : Int) ∈ Extent.mk b 1 ↔ i = b.toNat := by rw [mem_mk]; omega
    constructor
    · rintro ⟨below,free'⟩
      rw [freeBlock_iff laid'.layout (by omega) (by omega),covered_cons,other,not_or] at free'
      exact ⟨free'.1,below,(freeBlock_iff laid.layout (by omega) (by omega)).mpr free'.2⟩
    · rintro ⟨different,below,old⟩
      rw [freeBlock_iff laid.layout (by omega) (by omega)] at old
      refine ⟨below,?_⟩
      rw [freeBlock_iff laid'.layout (by omega) (by omega),covered_cons,other,not_or]
      exact ⟨different,old⟩
  rw [freeBlocks,rest,freeBlocks]
  exact Finset.card_erase_add_one own

/-- With nothing live every block is free. -/
theorem freeBlocks_empty {heap : Heap} (laid : Laid heap []) : freeBlocks heap = 25600 := by
  have total := laid.total_eq
  have all : ∀ i ∈ Finset.range heap.table.total, FreeBlock heap (i : Nat) := by
    intro i inside
    rw [Finset.mem_range] at inside
    refine (freeBlock_iff laid.layout (by omega) (by omega)).mpr ?_
    rintro ⟨e,member,_⟩
    cases member
  rw [freeBlocks,Finset.filter_true_of_mem all,Finset.card_range,total]

theorem covered_card (live : List Extent) (n : Nat) :
    ((Finset.range n).filter fun i => Covered live (i : Nat)).card ≤ (live.map Extent.count).sum := by
  induction live with
  | nil => simp [Covered]
  | cons e live ih =>
    have split : (Finset.range n).filter (fun i => Covered (e :: live) (i : Nat)) ⊆
        (Finset.range e.count).image (fun j : Nat => (e.first + j).toNat) ∪
          (Finset.range n).filter fun i => Covered live (i : Nat) := by
      intro i member
      rw [Finset.mem_filter,covered_cons] at member
      obtain ⟨below,inside | covered⟩ := member
      · rw [mem_def] at inside
        refine Finset.mem_union_left _ (Finset.mem_image.mpr ⟨(i - e.first).toNat,?_,?_⟩)
        · rw [Finset.mem_range]
          omega
        · omega
      · exact Finset.mem_union_right _ (Finset.mem_filter.mpr ⟨below,covered⟩)
    have own : ((Finset.range e.count).image fun j : Nat => (e.first + j).toNat).card ≤ e.count :=
      Finset.card_image_le.trans (Finset.card_range _).le
    calc ((Finset.range n).filter fun i => Covered (e :: live) (i : Nat)).card
      _ ≤ _ := Finset.card_le_card split
      _ ≤ _ := Finset.card_union_le _ _
      _ ≤ e.count + (live.map Extent.count).sum := Nat.add_le_add own ih
      _ = ((e :: live).map Extent.count).sum := by rw [List.map_cons,List.sum_cons]

/-- The live extents take no more blocks than they have. -/
theorem freeBlocks_least {heap : Heap} (laid : Laid heap live) :
    25600 ≤ freeBlocks heap + (live.map Extent.count).sum := by
  have total := laid.total_eq
  have taken : (Finset.range heap.table.total).filter (fun i => ¬ FreeBlock heap (i : Nat)) ⊆
      (Finset.range heap.table.total).filter fun i => Covered live (i : Nat) := by
    intro i member
    rw [Finset.mem_filter,Finset.mem_range] at member
    refine Finset.mem_filter.mpr ⟨Finset.mem_range.mpr member.1,?_⟩
    by_contra uncovered
    exact member.2 ((freeBlock_iff laid.layout (by omega) (by omega)).mpr uncovered)
  have all : ((Finset.range heap.table.total).filter fun i => FreeBlock heap (i : Nat)).card +
      ((Finset.range heap.table.total).filter fun i => ¬ FreeBlock heap (i : Nat)).card =
      (Finset.range heap.table.total).card := Finset.card_filter_add_card_filter_not _
  have few := (Finset.card_le_card taken).trans (covered_card live heap.table.total)
  rw [Finset.card_range,total] at all
  rw [total] at few
  unfold freeBlocks
  rw [total]
  omega

/-- A request of one block at most is refused only when no block is free. -/
theorem kzalloc_single {k : Kernel} {size : Nat} (laid : Laid k.kernel_heap live) (positive : 0 < size)
    (small : size ≤ 4096) :
    (freeBlocks k.kernel_heap = 0 ∧ kzalloc k size = (0,k)) ∨
    ∃ b k', kzalloc k size = (blockAddress b,k') ∧ Took k k' live b := by
  have one := requestBlocks_single positive small
  have total := laid.total_eq
  rcases heap_malloc_kernel laid size with ⟨search,refused⟩ | ⟨b,_,free,granted,laid'⟩
  · refine .inl ⟨?_,by rw [kzalloc,kmalloc,refused]; rfl⟩
    rw [freeBlocks,Finset.card_eq_zero,Finset.filter_eq_empty_iff]
    intro i inside freeHere
    rw [Finset.mem_range] at inside
    rw [one] at search
    have run : FreeRun k.kernel_heap 1 i := by
      refine ⟨by omega,by omega,fun j inJ => ?_⟩
      rw [mem_mk] at inJ
      have same : j = i := by omega
      exact same ▸ freeHere
    rcases heap_malloc_blocks_cases k.kernel_heap 1 with ⟨_,_,noRun⟩ | ⟨c,found,granted,_⟩
    · exact noRun (by decide) i run
    · have low := granted.low
      omega
  · rw [one] at granted laid'
    have laid' : Laid (heap_mark_blocks_taken k.kernel_heap b 1) (⟨b,1⟩ :: live) := laid'
    have pointer : blockAddress b ≠ 0 := by have := blockAddress_pos b; omega
    have high := blockAddress_high free.high
    refine .inr ⟨b,⟨memset k.memory (blockAddress b) 0x00 size,heap_mark_blocks_taken k.kernel_heap b 1⟩,?_,free,
      laid',freeBlocks_taken laid free laid',fun x outside => ?_⟩
    · rw [kzalloc,kmalloc,granted]
      exact if_neg pointer
    · show memset k.memory (blockAddress b) 0x00 size x = k.memory x
      rw [memset_apply (by omega),if_neg]
      exact fun inside => outside ⟨inside.1,by omega⟩

/-- Giving a block back to the heap. -/
theorem kfree_single {k : Kernel} {b : Int} (laid : Laid k.kernel_heap (⟨b,1⟩ :: live)) :
    Laid (kfree k (blockAddress b)).kernel_heap live ∧
    freeBlocks (kfree k (blockAddress b)).kernel_heap = freeBlocks k.kernel_heap + 1 := by
  have freed : Laid (heap_free k.kernel_heap (blockAddress b)) live :=
    heap_free_perm (e := ⟨b,1⟩) laid (List.Perm.refl _)
  have start := laid.layout.start _ (List.mem_cons_self ..)
  have total := laid.total_eq
  have apart := (List.pairwise_cons.mp laid.layout.disjoint).1
  have free : FreeAt live b := by
    refine ⟨start.1,by have := start.2.1; simp only at this; omega,?_⟩
    rintro ⟨e,member,inside⟩
    exact apart e member b (by rw [mem_mk]; omega) inside
  exact ⟨freed,(freeBlocks_taken freed free laid).symm⟩

end
end SimpOS.KernelHeap
