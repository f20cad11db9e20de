import SimpOS.HeapLayout

/-!
Whole runs of the allocator: from `heap_create` on, through any sequence of requests
that fit and releases of pointers still held, the table represents exactly the held
allocations. A release works while the pointer lies less than 2 GiB above the start
address, because `heap_address_to_block` takes the distance as an `int`.
-/
namespace SimpOS.HeapRuns
open SimpOS.Machine SimpOS.Extents SimpOS.HeapBlocks SimpOS.HeapLayout SimpOS.Runs

/-- A pointer that `heap_malloc` returned and the size it was asked for. -/
structure Held where
  ptr : Nat
  size : Nat
deriving DecidableEq, Repr

/-- The heap with the allocations returned and not freed since. -/
structure HeapState where
  heap : Heap
  held : List Held

inductive HeapCall
  | malloc (size : Nat)
  | free (allocation : Held)

/-- The blocks an allocation stands for: from the block of its pointer on, as many as its
    size needs. -/
def extentOf (start_address : Nat) (a : Held) : Extent :=
  ⟨u32 ((a.ptr : Int) - start_address) / SIMPOS_HEAP_BLOCK_SIZE,blocks a.size⟩
/-- The extents of all held allocations. -/
def HeapState.live (s : HeapState) : List Extent := s.held.map (extentOf s.heap.start_address)

/-- A call of `heap_malloc` for which enough consecutive blocks are free, or of `heap_free`
    with a held pointer. -/
def Step (s : HeapState) : HeapCall → HeapState → Prop
  | .malloc size, t => 1 ≤ size ∧ size ≤ 0xFFFFF000 ∧ (∃ a, FreeRun s.heap (blocks size) a) ∧
      t = ⟨(heap_malloc s.heap size).2,⟨(heap_malloc s.heap size).1,size⟩ :: s.held⟩
  | .free a, t => a ∈ s.held ∧ t = ⟨heap_free s.heap a.ptr,s.held.erase a⟩

/-- The held allocations occupy disjoint ranges of blocks inside the table at the addresses
    returned, with the chain of each in its entries and every other entry free. -/
structure Represented (s : HeapState) : Prop where
  address : ∀ a ∈ s.held, a.ptr =
    u32 (s.heap.start_address + (extentOf s.heap.start_address a).first * SIMPOS_HEAP_BLOCK_SIZE)
  inside : ∀ e ∈ s.live, 0 ≤ e.first ∧ e.first + e.count ≤ s.heap.table.total
  disjoint : s.live.Pairwise Apart
  chain : ∀ e ∈ s.live, ∀ i ∈ e, s.heap.table.entries i = chainEntry e i
  free : ∀ i : Int, 0 ≤ i → i < s.heap.table.total → ¬ Covered s.live i →
    s.heap.table.entries i = HEAP_BLOCK_TABLE_ENTRY_FREE

/-- Freeing the allocation clears exactly its entries. -/
def Released (heap : Heap) (a : Held) : Prop :=
  ∀ i, (heap_free heap a.ptr).table.entries i =
    if i ∈ extentOf heap.start_address a then HEAP_BLOCK_TABLE_ENTRY_FREE else heap.table.entries i

/-- The pointer lies less than 2 GiB above the start address. -/
def Near (heap : Heap) (a : Held) : Prop := u32 ((a.ptr : Int) - heap.start_address) < 2147483648

instance (heap : Heap) (a : Held) : Decidable (Near heap a) := inferInstanceAs (Decidable (_ < _))

/-- The block of a pointer the allocator returned. -/
theorem extentOf_block (heap : Heap) (size : Nat) {b : Int} (low : 0 ≤ b) (high : b < 1048576) :
    extentOf heap.start_address ⟨heap_block_to_address heap b,size⟩ = ⟨b,blocks size⟩ := by
  simp only [extentOf,heap_block_to_address,u32,SIMPOS_HEAP_BLOCK_SIZE,Extent.mk.injEq,and_true]
  omega

/-- What every step keeps: the table is the layout of the held extents, and is short enough
    for a block number to fit an address. -/
private structure Invariant (s : HeapState) : Prop where
  short : s.heap.table.total < 1048576
  address : ∀ a ∈ s.held,
    a.ptr = heap_block_to_address s.heap (extentOf s.heap.start_address a).first
  inside : ∀ e ∈ s.live, e.first + e.count ≤ s.heap.table.total
  layout : Layout s.heap s.live

private theorem Invariant.represented {s : HeapState} (inv : Invariant s) : Represented s where
  address := inv.address
  inside e member := ⟨(inv.layout.start e member).1,inv.inside e member⟩
  disjoint := inv.layout.disjoint
  chain e member i inE := by
    have inside := inv.inside e member
    exact inv.layout.chain e member i inE (by rw [mem_def] at inE; omega)
  free := inv.layout.free

private theorem heap_address_to_block_held {s : HeapState} (inv : Invariant s) {a : Held} (held : a ∈ s.held)
    (near : Near s.heap a) :
    heap_address_to_block s.heap a.ptr = (extentOf s.heap.start_address a).first := by
  have start := inv.layout.start _ (List.mem_map_of_mem held)
  have first : (extentOf s.heap.start_address a).first < 524288 := by
    simp only [Near] at near
    simp only [extentOf,SIMPOS_HEAP_BLOCK_SIZE]
    omega
  conv_lhs => rw [inv.address a held]
  exact heap_address_to_block_correct s.heap start.1 first

private theorem released {s : HeapState} (inv : Invariant s) {a : Held} (held : a ∈ s.held)
    (near : Near s.heap a) : Released s.heap a := by
  intro i
  have member : extentOf s.heap.start_address a ∈ s.live := List.mem_map_of_mem held
  have inside := inv.inside _ member
  rw [heap_free,heap_address_to_block_held inv held near,heap_mark_blocks_free_chain inv.layout member]
  by_cases inE : i ∈ extentOf s.heap.start_address a
  · rw [if_pos ⟨inE,by rw [mem_def] at inE; omega⟩,if_pos inE]
  · rw [if_neg (fun h => inE h.1),if_neg inE]

private theorem invariant_malloc {s t : HeapState} {size : Nat} (inv : Invariant s)
    (step : Step s (.malloc size) t) : Invariant t := by
  obtain ⟨low,high,⟨a,run⟩,rfl⟩ := step
  have positive : 0 < blocks size := by unfold blocks; omega
  have request : heap_malloc s.heap size = heap_malloc_blocks s.heap (blocks size) := by
    simp only [heap_malloc,heap_align_value_to_upper_blocks high]
  rw [request]
  rcases heap_malloc_blocks_cases s.heap (blocks size) with ⟨_,_,noRun⟩ | ⟨b,_,granted,result⟩
  · exact absurd run (noRun positive a)
  · obtain ⟨first,fits,all⟩ := granted.fits positive a run
    have short := inv.short
    have block := extentOf_block s.heap size granted.low (by omega)
    have live : HeapState.live ⟨heap_mark_blocks_taken s.heap b (blocks size),
        ⟨heap_block_to_address s.heap b,size⟩ :: s.held⟩ = ⟨b,blocks size⟩ :: s.live := by
      simp only [HeapState.live,List.map_cons,heap_mark_blocks_taken_start_address,block]
    rw [result]
    refine ⟨inv.short,?_,?_,?_⟩
    · intro x member
      rcases List.mem_cons.mp member with rfl | old
      · simp only [heap_mark_blocks_taken_start_address,block]
        rfl
      · exact inv.address x old
    · rw [live]
      intro e member
      rcases List.mem_cons.mp member with rfl | old
      · exact fits
      · exact inv.inside e old
    · rw [live]
      exact layout_taken inv.layout positive granted.low granted.high granted.free

/-- Two held allocations with the same extent are the same allocation. -/
private theorem extentOf_injective {s : HeapState} (inv : Invariant s) {x a : Held} (memX : x ∈ s.held)
    (memA : a ∈ s.held) (same : extentOf s.heap.start_address x = extentOf s.heap.start_address a) : x = a := by
  by_contra different
  have start := inv.layout.start _ (List.mem_map_of_mem memA)
  have disjoint : s.held.Pairwise (fun x y => Apart (extentOf s.heap.start_address x)
    (extentOf s.heap.start_address y)) := List.pairwise_map.mp inv.layout.disjoint
  have : Std.Symm (fun x y => Apart (extentOf s.heap.start_address x) (extentOf s.heap.start_address y)) :=
    ⟨fun _ _ => Apart.symm⟩
  have apart := disjoint.forall memX memA different
  rw [same] at apart
  have inside : (extentOf s.heap.start_address a).first ∈ extentOf s.heap.start_address a := by
    rw [mem_def]
    omega
  exact apart _ inside inside

private theorem invariant_free {s t : HeapState} {a : Held} (inv : Invariant s)
    (step : Step s (.free a) t) (near : Near s.heap a) : Invariant t := by
  obtain ⟨held,rfl⟩ := step
  have live : HeapState.live ⟨heap_free s.heap a.ptr,s.held.erase a⟩ =
      s.live.erase (extentOf s.heap.start_address a) :=
    map_erase_of_unique _ a s.held (fun x member same => extentOf_injective inv member held same)
  refine ⟨inv.short,fun x member => inv.address x (List.mem_of_mem_erase member),?_,?_⟩
  · rw [live]
    exact fun e member => inv.inside e (List.mem_of_mem_erase member)
  · rw [live,heap_free,heap_address_to_block_held inv held near]
    exact layout_freed inv.layout (List.mem_map_of_mem held)

private theorem invariant_create {heap : Heap} {ptr end_ptr : Nat} {table : HeapTable} {created : Heap}
    (create : heap_create heap ptr end_ptr table = (0,created)) : Invariant ⟨created,[]⟩ := by
  simp only [heap_create] at create
  split at create
  · cases create
  · split at create
    · rename_i negative
      have result : heap_validate_table ptr end_ptr table = 0 := congrArg Prod.fst create
      omega
    · have result : heap_validate_table ptr end_ptr table = 0 := congrArg Prod.fst create
      have total : table.total = u32 ((end_ptr : Int) - ptr) / SIMPOS_HEAP_BLOCK_SIZE := by
        by_contra mismatch
        simp [heap_validate_table,mismatch] at result
      obtain rfl := (Prod.mk.inj create).2
      refine ⟨?_,fun a member => (nomatch member),fun e member => (nomatch member),
        ⟨.nil,fun e member => (nomatch member),fun e member => (nomatch member),?_⟩⟩
      · have bound := u32_lt ((end_ptr : Int) - ptr)
        simp only [total,SIMPOS_HEAP_BLOCK_SIZE]
        omega
      · intro i above below _
        exact if_pos ⟨above,below⟩

/-- Every state of every run represents exactly the held allocations, and every held pointer
    less than 2 GiB above the start is released exactly. -/
theorem heap_runs_represented (heap : Heap) (ptr end_ptr : Nat) (table : HeapTable) (created : Heap)
    (create : heap_create heap ptr end_ptr table = (0,created)) (moves : List (HeapCall × HeapState))
    (run : Run Step ⟨created,[]⟩ moves)
    (near : Each (fun s call => ∀ a, call = .free a → Near s.heap a) ⟨created,[]⟩ moves) :
    Always (fun s => Represented s ∧ ∀ a ∈ s.held, Near s.heap a → Released s.heap a) ⟨created,[]⟩ moves := by
  have kept : ∀ s call t, Invariant s → Step s call t → (∀ a, call = .free a → Near s.heap a) → Invariant t := by
    intro s call t inv step near
    cases call with
    | malloc size => exact invariant_malloc inv step
    | free a => exact invariant_free inv step (near a rfl)
  exact (always_of_kept kept (invariant_create create) run near).mono
    fun s inv => ⟨inv.represented,fun a held near => released inv held near⟩

/-- In a heap just created every run of blocks is free. -/
theorem created_run {heap created : Heap} {ptr end_ptr : Nat} {table : HeapTable}
    (create : heap_create heap ptr end_ptr table = (0,created)) {n : Nat} (fits : n ≤ created.table.total) :
    FreeRun created n 0 := by
  refine ⟨Int.le_refl 0,by omega,fun i inside => ?_⟩
  rw [mem_mk] at inside
  have below : i < created.table.total := by omega
  rw [freeBlock_iff (invariant_create create).layout inside.1 below]
  rintro ⟨e,member,_⟩
  cases member

/-- The kernel's own heap as `kernel_heap_init` creates it. -/
def kernelHeap : Heap :=
  (heap_create ⟨⟨fun _ => 0,0⟩,0⟩ SIMPOS_HEAP_ADDRESS (SIMPOS_HEAP_ADDRESS + SIMPOS_HEAP_SIZE_BYTES)
    ⟨fun _ => 0,25600⟩).2
/-- A request of two blocks and its release. -/
def kernelMoves : List (HeapCall × HeapState) :=
  [(.malloc 5000,⟨(heap_malloc kernelHeap 5000).2,[⟨0x01000000,5000⟩]⟩),
   (.free ⟨0x01000000,5000⟩,⟨heap_free (heap_malloc kernelHeap 5000).2 0x01000000,[]⟩)]
theorem heap_runs_represented_kernel :
    Always (fun s => Represented s ∧ ∀ a ∈ s.held, Near s.heap a → Released s.heap a)
      ⟨kernelHeap,[]⟩ kernelMoves := by
  have create : heap_create ⟨⟨fun _ => 0,0⟩,0⟩ SIMPOS_HEAP_ADDRESS (SIMPOS_HEAP_ADDRESS + SIMPOS_HEAP_SIZE_BYTES)
      ⟨fun _ => 0,25600⟩ = (0,kernelHeap) := rfl
  refine heap_runs_represented _ _ _ _ kernelHeap create kernelMoves ?_ ?_
  · refine ⟨⟨by decide,by decide,⟨0,created_run create (by decide)⟩,?_⟩,⟨by simp,rfl⟩,trivial⟩
    rfl
  · refine ⟨fun a same => (nomatch same),?_,trivial⟩
    rintro a same
    cases same
    decide

/-- A heap over all but the last page of the address space. -/
def farHeap : Heap := (heap_create ⟨⟨fun _ => 0,0⟩,0⟩ 0 0xFFFFF000 ⟨fun _ => 0,1048575⟩).2
private theorem farHeap_create :
    heap_create ⟨⟨fun _ => 0,0⟩,0⟩ 0 0xFFFFF000 ⟨fun _ => 0,1048575⟩ = (0,farHeap) := rfl
/-- The heap after 2 GiB are taken from block 0 on, and after the next block is taken too. -/
private def farHalf : Heap := heap_mark_blocks_taken farHeap 0 524288
private def farFull : Heap := heap_mark_blocks_taken farHalf 524288 1

private theorem farHalf_entries (i : Int) :
    farHalf.table.entries i = if i ∈ Extent.mk 0 524288 then chainEntry ⟨0,524288⟩ i else 0 := by
  rw [farHalf,heap_mark_blocks_taken_correct]
  have zero : farHeap.table.entries i = 0 := by
    simp [farHeap,heap_create,heap_validate_alignment,heap_validate_table,memset_entries,u32]
  rw [zero]
private theorem farHalf_request : heap_malloc farHeap 0x80000000 = (0,farHalf) := by
  have lowest : ∀ a, a < 0 → ¬ FreeRun farHeap 524288 a := fun a below run => by
    have := run.1
    omega
  have first := heap_malloc_blocks_first (by decide) (created_run farHeap_create (by decide)) lowest
  exact first
private theorem farHalf_run : FreeRun farHalf 1 524288 := by
  refine ⟨by decide,by decide,fun i inside => ?_⟩
  rw [mem_mk] at inside
  rw [FreeBlock,farHalf_entries,if_neg (by rw [mem_mk]; omega)]
  rfl
private theorem farFull_request : heap_malloc farHalf 1 = (0x80000000,farFull) := by
  have lowest : ∀ a, a < 524288 → ¬ FreeRun farHalf 1 a := by
    rintro a below ⟨low,_,all⟩
    have free := all a (mem_mk.mpr (by omega))
    rw [FreeBlock,farHalf_entries,if_pos (mem_mk.mpr (by omega))] at free
    exact chainEntry_taken _ _ free
  have first := heap_malloc_blocks_first (by decide) farHalf_run lowest
  exact first
private theorem farFull_entries (i : Int) :
    farFull.table.entries i = if i ∈ Extent.mk 524288 1 then chainEntry ⟨524288,1⟩ i
      else if i ∈ Extent.mk 0 524288 then chainEntry ⟨0,524288⟩ i else 0 := by
  rw [farFull,heap_mark_blocks_taken_correct,farHalf_entries]

/-- Past 2 GiB a release goes to a block number below zero: the block stays taken. -/
theorem heap_runs_far_not_released :
    heap_create ⟨⟨fun _ => 0,0⟩,0⟩ 0 0xFFFFF000 ⟨fun _ => 0,1048575⟩ = (0,farHeap) ∧
    ∃ moves, Run Step ⟨farHeap,[]⟩ moves ∧
      ¬ Always (fun s => Represented s ∧ ∀ a ∈ s.held, Released s.heap a) ⟨farHeap,[]⟩ moves := by
  refine ⟨rfl,[(.malloc 0x80000000,⟨farHalf,[⟨0,0x80000000⟩]⟩),
    (.malloc 1,⟨farFull,[⟨0x80000000,1⟩,⟨0,0x80000000⟩]⟩)],⟨?_,?_,trivial⟩,?_⟩
  · exact ⟨by decide,by decide,⟨0,created_run farHeap_create (by decide)⟩,by rw [farHalf_request]⟩
  · exact ⟨by decide,by decide,⟨524288,farHalf_run⟩,by rw [farFull_request]⟩
  · intro always
    have cleared := always.final.2 ⟨0x80000000,1⟩ (by simp [final]) 524288
    rw [if_pos (by decide)] at cleared
    -- the distance 2^31 is the least int, so the freed block number is -524288
    have block : heap_address_to_block farFull 0x80000000 = -524288 := by decide
    have before : farFull.table.entries (-524288) = 0 := by rw [farFull_entries]; rfl
    have kept : (heap_free farFull 0x80000000).table.entries 524288 = chainEntry ⟨524288,1⟩ 524288 := by
      rw [heap_free,block,heap_mark_blocks_free_single (by decide) (by rw [before]; rfl),farFull_entries]
      rfl
    exact chainEntry_ne_free _ _ (kept.symm.trans cleared)

end SimpOS.HeapRuns
