import SimpOS.ProcessAllocations
import SimpOS.ProcessFrees
import SimpOS.IsolationRuns

/-!
What a process gets by `process_malloc` and gives back by a `process_free` that follows: the blocks of
the request are the pages that are mapped for it, however its size is rounded for either, and the
release finds the same range by the size that was noted.
-/
namespace SimpOS.ProcessGrants
open SimpOS.Machine SimpOS.Memory SimpOS.Extents SimpOS.HeapBlocks SimpOS.HeapLayout SimpOS.Paging SimpOS.AddressSpaces
open SimpOS.KernelHeap SimpOS.ProcessMemory SimpOS.Runs SimpOS.ProcessFrees
open SimpOS.ProcessAllocations (OnlySlot1 process_free_slot)
open SimpOS.Isolation (USER_WRITABLE blockOf blockOf_mem request_pages identity_mapped)
open SimpOS.IsolationRuns (twoProcesses twoProcesses_loaded nearlyFull_free)

/-- The page is one of those that the size touches from the pointer on. -/
def Within (p size v : Nat) : Prop := p ≤ v ∧ v < p + 4096 * blocks size
instance (p size v : Nat) : Decidable (Within p size v) := inferInstanceAs (Decidable (_ ∧ _))

/-- Exactly the request's pages are mapped onto themselves for the process to use, and they are the
    blocks that were free and are taken. -/
structure Grants (k k' : Kernel) (directory size p : Nat) : Prop where
  pointer : p ≠ 0 ∧ p % 4096 = 0
  mapped : ∀ v, v % 4096 = 0 → v < 4294967296 → paging_get k'.memory directory v =
    if Within p size v then v ||| USER_WRITABLE else paging_get k.memory directory v
  taken : ∀ i : Int, 0 ≤ i → i < 25600 →
    ((FreeBlock k.kernel_heap i ∧ ¬ FreeBlock k'.kernel_heap i) ↔ Within p size (blockAddress i))

/-- The request's pages are not present, and all else is as before the request, but for the slot that
    it was noted in, which is empty. -/
structure Revokes (k k' : Kernel) (process process' : Process) (size p : Nat) : Prop where
  absent : ∀ v, v % 4096 = 0 → v < 4294967296 → Within p size v →
    paging_get k'.memory process.page_directory.directory_entry v &&& PAGING_IS_PRESENT = 0
  others : ∀ v, v % 4096 = 0 → v < 4294967296 → ¬ Within p size v →
    paging_get k'.memory process.page_directory.directory_entry v =
      paging_get k.memory process.page_directory.directory_entry v
  heap : ∀ i : Int, 0 ≤ i → i < 25600 → k'.kernel_heap.table.entries i = k.kernel_heap.table.entries i
  slots : ∃ slot < 1024, process'.allocations slot = ⟨0,0⟩ ∧
    ∀ j < 1024, j ≠ slot → process'.allocations j = process.allocations j

section
variable {k : Kernel} {process : Process} {live : List Extent} {size : Nat}

/-- A request that a run has room for is granted from a run. -/
private theorem search_run (total : k.kernel_heap.table.total = 25600) (positive : 1 ≤ size)
    (room : ∃ a, FreeRun k.kernel_heap (blocks size) a) : requestBlocks size = blocks size ∧ 0 < blocks size ∧
    ∃ b, heap_get_start_block k.kernel_heap (blocks size) = b ∧ 0 ≤ b ∧ b + blocks size ≤ 25600 ∧
      FreeRun k.kernel_heap (blocks size) b := by
  obtain ⟨a,run⟩ := room
  have fits := run.2.1
  have some : 0 < blocks size := by unfold blocks; omega
  have most : size ≤ 0xFFFFF000 := by unfold blocks at fits; have := run.1; omega
  refine ⟨requestBlocks_eq most,some,?_⟩
  rcases heap_malloc_blocks_cases k.kernel_heap (blocks size) with ⟨_,_,noRun⟩ | ⟨b,search,granted,_⟩
  · exact absurd run (noRun some a)
  · have found := granted.fits some a run
    have inside := found.2.1
    exact ⟨b,search,granted.low,by omega,found⟩

/-- The blocks from b on are those whose pages are within the request. -/
private theorem within_block {b i : Int} (low : 0 ≤ b) (above : 0 ≤ i) :
    Within (blockAddress b) size (blockAddress i) ↔ i ∈ Extent.mk b (blocks size) := by
  rw [mem_mk]
  simp only [Within,blockAddress,SIMPOS_HEAP_ADDRESS]
  omega

/-- An identity mapping of the request's pages. -/
private theorem within_mapped {m m' : Bytes} {directory p flags : Nat} (aligned : p % 4096 = 0)
    (high : p + 4096 * blocks size < 4294967296) (low : flags < 4096)
    (remapped : Remapped m m' directory (fun w => if above p w < 4096 * blocks size then p + above p w + flags
      else paging_get m directory w)) {v : Nat} (vAligned : v % 4096 = 0) (vHigh : v < 4294967296) :
    paging_get m' directory v = if Within p size v then v ||| flags else paging_get m directory v := by
  rw [remapped.entries v vAligned vHigh]
  by_cases within : Within p size v
  · have distance : above p v = v - p := by
      unfold Within at within
      unfold above u32
      omega
    have near : v - p < 4096 * blocks size := by unfold Within at within; omega
    rw [distance,if_pos near,if_pos within,or_flags vAligned low]
    unfold Within at within
    omega
  · have far : ¬ above p v < 4096 * blocks size := by
      unfold Within at within
      unfold above u32
      omega
    rw [if_neg far,if_neg within]

private theorem present_of_aligned {v : Nat} (aligned : v % 4096 = 0) : v &&& PAGING_IS_PRESENT = 0 := by
  have low : v &&& PAGING_IS_PRESENT = v % 2 := Nat.and_two_pow_sub_one_eq_mod v 1
  rw [low]
  omega

/-- What clearing the granted blocks leaves of the directory. -/
private theorem cleared_unchanged (space : AddressSpace k.memory process.page_directory.directory_entry)
    (inside : ∀ x, InSpace k.memory process.page_directory.directory_entry x → Covered live (blockOf x)) {b : Int}
    (low : 0 ≤ b) (fits : blockAddress b + size ≤ 4294967296) {heap : Heap} (laid : Laid heap (⟨b,blocks size⟩ :: live)) :
    Unchanged k.memory (memset k.memory (blockAddress b) 0x00 size) process.page_directory.directory_entry := by
  refine space.agree fun x own => ?_
  obtain ⟨e,member,inE⟩ := inside x own
  rw [memset_apply fits,if_neg]
  rintro ⟨above,below⟩
  have apart := (List.pairwise_cons.mp laid.layout.disjoint).1 e member
  exact apart _ ((blockOf_mem low).mpr ⟨above,by unfold blocks; omega⟩) inE

/-- The release of a request just granted: m is the memory with its blocks cleared, m' with its pages mapped. -/
private theorem revoked {m m' : Bytes} {heap : Heap} {b : Int} (laid : Laid k.kernel_heap live)
    (remapped : Remapped m m' process.page_directory.directory_entry (fun w =>
      if above (blockAddress b) w < 4096 * blocks size then blockAddress b + above (blockAddress b) w + 7
      else paging_get m process.page_directory.directory_entry w))
    (aligned : blockAddress b % 4096 = 0) (high : blockAddress b + 4096 * blocks size < 4294967296)
    (nonnull : blockAddress b ≠ 0) (others : ∀ j < 1024, j ≠ 1 → process.allocations j = ⟨0,0⟩)
    (accepted : Mappable (blockAddress b) (blockAddress b) (paging_align_address (offset (blockAddress b) size)))
    (ends : paging_align_address (offset (blockAddress b) size) = blockAddress b + 4096 * blocks size)
    (laid' : Laid heap (withGranted b (blocks size) live)) (free : FreeAt live b)
    (cleared : ∀ v, v % 4096 = 0 → v < 4294967296 → paging_get m process.page_directory.directory_entry v =
      paging_get k.memory process.page_directory.directory_entry v) :
    Revokes k (process_free ⟨m',heap⟩ { process with
      allocations := Function.update process.allocations 1 ⟨blockAddress b,size⟩ } (blockAddress b)).1 process
      (process_free ⟨m',heap⟩ { process with
        allocations := Function.update process.allocations 1 ⟨blockAddress b,size⟩ } (blockAddress b)).2 size (blockAddress b) := by
  obtain ⟨process',new⟩ : ∃ process', process' = { process with
    allocations := Function.update process.allocations 1 ⟨blockAddress b,size⟩ } := ⟨_,rfl⟩
  rw [← new]
  have slot : process'.allocations 1 = ⟨blockAddress b,size⟩ := by simp only [new,Function.update_self]
  have rest : ∀ j < 1024, j ≠ 1 → process'.allocations j = process.allocations j := by
    intro j below other
    simp only [new,Function.update_of_ne other]
  have directory : process'.page_directory = process.page_directory := by rw [new]
  have only : OnlySlot1 process' := fun j below other => by rw [rest j below other,others j below other]
  have freed := process_free_slot ⟨m',heap⟩ nonnull only slot accepted
  obtain ⟨m'',same,remapped'⟩ := identity_mapped 0 remapped.space aligned high (by decide)
  rw [ends,directory,same] at freed
  have laid'' : Laid (heap_free heap (blockAddress b)) live := heap_free_granted laid' free
  have total := laid.total_eq
  rw [freed]
  dsimp only
  refine ⟨fun v vAligned vHigh within => ?_,fun v vAligned vHigh outside => ?_,
    fun i low below => laid.entries_eq laid'' low (by omega),1,by decide,?_,fun j below other => ?_⟩
  · dsimp only
    rw [within_mapped aligned high (by decide) remapped' vAligned vHigh,if_pos within,Nat.or_zero]
    exact present_of_aligned vAligned
  · dsimp only
    rw [within_mapped aligned high (by decide) remapped' vAligned vHigh,if_neg outside,
      within_mapped aligned high (by decide) remapped vAligned vHigh,if_neg outside,cleared v vAligned vHigh]
  · rw [remove_process_allocation_allocations _ _ _ (by decide),slot,if_pos rfl]
  · rw [remove_process_allocation_allocations _ _ _ below,rest j below other,others j below other,if_neg nonnull.symm]

private theorem granted_revoked (laid : Laid k.kernel_heap live)
    (space : AddressSpace k.memory process.page_directory.directory_entry)
    (inside : ∀ x, InSpace k.memory process.page_directory.directory_entry x → Covered live (blockOf x))
    (others : ∀ j < 1024, j ≠ 1 → process.allocations j = ⟨0,0⟩) (positive : 1 ≤ size)
    (room : ∃ a, FreeRun k.kernel_heap (blocks size) a) :
    ∃ p k' process', process_malloc k process size = (p,k',process') ∧
      Grants k k' process.page_directory.directory_entry size p ∧
      Revokes k (process_free k' process' p).1 process (process_free k' process' p).2 size p := by
  obtain ⟨request,some,b,search,low,high,run⟩ := search_run laid.total_eq positive room
  have last : blockAddress b + 4096 * blocks size ≤ 0x07400000 := by
    simp only [blockAddress,SIMPOS_HEAP_ADDRESS]
    omega
  have bytes : blockAddress b + size ≤ 0x07400000 := by unfold blocks at last; omega
  have aligned := blockAddress_aligned b
  have nonnull := (blockAddress_pos b).ne'
  have acceptable : Acceptable process b size :=
    acceptable_of_null ⟨0,by decide,by rw [others 0 (by decide) (by decide)]⟩ (by omega)
  obtain ⟨free,laid',result⟩ := process_malloc_served laid low (by rw [request]; exact search) acceptable
  have ends := ((request_pages (by omega)).2 acceptable.2).1
  rw [request] at laid' result ends
  rw [withGranted,if_neg (by omega)] at laid'
  have cleared := cleared_unchanged space inside low (by omega) laid'
  obtain ⟨m',same,remapped⟩ := identity_mapped 7 cleared.space aligned (by omega : blockAddress b + 4096 * blocks size < 4294967296)
    (by decide)
  rw [ends,same] at result
  refine ⟨_,_,_,result,⟨⟨nonnull,aligned⟩,fun v vAligned vHigh => ?_,fun i iLow iHigh => ?_⟩,?_⟩
  · rw [within_mapped aligned (by omega) (by decide) remapped vAligned vHigh,cleared.entries v vAligned vHigh]
    rfl
  · rw [within_block low iLow]
    have entry := heap_mark_blocks_taken_correct k.kernel_heap b (blocks size) i
    unfold FreeBlock
    dsimp only
    rw [entry]
    constructor
    · rintro ⟨was,now⟩
      by_contra outside
      rw [if_neg outside] at now
      exact now was
    · intro own
      rw [if_pos own]
      exact ⟨run.2.2 i own,chainEntry_taken _ _⟩
  · exact revoked laid remapped aligned (by omega) nonnull others acceptable.2 ends
      (by rw [withGranted,if_neg (by omega)]; exact laid') free (fun v vAligned vHigh => cleared.entries v vAligned vHigh)

/-- In every state of a process, a request that some run of free blocks has room for is granted its own
    pages, and freeing the pointer next takes them back. -/
theorem process_malloc_free_exact {kernel : Kernel} {process : Process}
    (start : kernel.kernel_heap.start_address = SIMPOS_HEAP_ADDRESS) (total : kernel.kernel_heap.table.total = 25600)
    (empty : ∀ j < 1024, process.allocations j = ⟨0,0⟩) {moves : List (OwnerCall × OwnerState)}
    (run : Run Step ⟨kernel,process,fun _ => False⟩ moves) {s : OwnerState}
    (reached : s = final ⟨kernel,process,fun _ => False⟩ moves) {live : List Extent} (laid : Laid s.kernel.kernel_heap live)
    (space : AddressSpace s.kernel.memory s.process.page_directory.directory_entry)
    (inside : ∀ x, InSpace s.kernel.memory s.process.page_directory.directory_entry x → Covered live (blockOf x))
    {size : Nat} (positive : 1 ≤ size) (room : ∃ a, FreeRun s.kernel.kernel_heap (blocks size) a) :
    ∃ p k' process', process_malloc s.kernel s.process size = (p,k',process') ∧
      Grants s.kernel k' s.process.page_directory.directory_entry size p ∧
      Revokes s.kernel (process_free k' process' p).1 s.process (process_free k' process' p).2 size p := by
  have owned := owned_final (owned_loaded start total empty) run
  rw [← reached] at owned
  exact granted_revoked laid space inside owned.others positive room

end

/-- The last page of the heap is granted to the first of two processes and taken back. -/
theorem process_malloc_free_page : ∃ p k' process',
    process_malloc twoProcesses.kernel (twoProcesses.processes false) 4096 = (p,k',process') ∧
    Grants twoProcesses.kernel k' (twoProcesses.directory false) 4096 p ∧
    Revokes twoProcesses.kernel (process_free k' process' p).1 (twoProcesses.processes false)
      (process_free k' process' p).2 4096 p := by
  have loaded := twoProcesses_loaded
  have one : blocks 4096 = 1 := by decide
  have room : FreeRun twoProcesses.kernel.kernel_heap (blocks 4096) 25599 := by
    rw [one]
    refine ⟨by decide,by rw [loaded.laid.total_eq]; decide,fun i inside => ?_⟩
    rw [mem_mk] at inside
    exact (nearlyFull_free (by omega) (by omega)).mpr (by omega)
  have run : Run Step ⟨twoProcesses.kernel,twoProcesses.processes false,fun _ => False⟩ [] := trivial
  exact process_malloc_free_exact loaded.laid.start_address loaded.laid.total_eq (loaded.empty false) run rfl loaded.laid
    (loaded.placed.space false) (loaded.placed.inside false) (by decide) ⟨25599,room⟩

end SimpOS.ProcessGrants
