import SimpOS.Isolation

/-!
Every mix of `malloc` and `free` calls that meets the conditions keeps the processes
apart, whatever the table, the slots and the directories have become by then. A `free`
that misses them gives a block back to the heap while another process still maps it.
-/
namespace SimpOS.IsolationRuns
open SimpOS.Machine SimpOS.Memory SimpOS.Extents SimpOS.HeapBlocks SimpOS.HeapLayout SimpOS.Paging SimpOS.AddressSpaces
  SimpOS.KernelHeap SimpOS.ProcessMemory SimpOS.Runs SimpOS.Isolation

variable {ι : Type} {start s : System ι} {fixed : List Extent} {taken : List (ι × Extent)}

/-- Filling a request's bytes leaves every directory and table alone. -/
private theorem owned_zeroed (owned : Owned start fixed taken s) {heap : Heap} {b : Int} {size : Nat} (low : 0 ≤ b)
    (laid : Laid heap (withGranted b (requestBlocks size) (taken.map Prod.snd ++ fixed)))
    (fits : blockAddress b + size ≤ 4294967296) (i : ι) :
    Unchanged s.kernel.memory (memset s.kernel.memory (blockAddress b) 0x00 size) (s.directory i) := by
  refine (owned.placed.space i).agree fun x inside => ?_
  obtain ⟨f,memF,inF⟩ := owned.placed.inside i x inside
  rw [memset_apply fits,if_neg]
  rintro ⟨above,below⟩
  have bytes := (request_pages fits).1
  have positive : requestBlocks size ≠ 0 := by omega
  rw [withGranted,if_neg positive] at laid
  have apart := (List.pairwise_cons.mp laid.layout.disjoint).1 f (List.mem_append_right _ memF)
  exact apart _ ((blockOf_mem low).mpr ⟨above,by omega⟩) inF

/-- The records still agree where only bytes outside every directory changed and the table
    still has the same extents. -/
theorem owned_unchanged (owned : Owned start fixed taken s) {kernel : Kernel}
    (laid : Laid kernel.kernel_heap (taken.map Prod.snd ++ fixed))
    (unchanged : ∀ i, Unchanged s.kernel.memory kernel.memory (s.directory i)) :
    Owned start fixed taken ⟨kernel,s.processes⟩ := by
  refine ⟨laid,⟨fun i => (unchanged i).space,fun i x inside => ?_,fun i j different x inI inJ => ?_⟩,
    fun i v writable => ?_,owned.slots⟩
  · exact owned.placed.inside i x ((unchanged i).inSpace.mp inside)
  · exact owned.placed.apart i j different x ((unchanged i).inSpace.mp inI) ((unchanged j).inSpace.mp inJ)
  · obtain ⟨before,same⟩ := userWritable_unchanged (unchanged i) writable
    have grounds := owned.writable i v before
    rw [← same] at grounds
    exact grounds

/-- The system after process i's memory was mapped and its slots changed. -/
private theorem owned_mapped [DecidableEq ι] (owned : Owned start fixed taken s) {i : ι} {memory : Bytes} {heap : Heap}
    {process : Process} {taken' : List (ι × Extent)} {entry : Nat → Nat}
    (same : process.page_directory = (s.processes i).page_directory)
    (remapped : Remapped s.kernel.memory memory (s.directory i) entry)
    (laid : Laid heap (taken'.map Prod.snd ++ fixed))
    (kept : ∀ j e, j ≠ i → (j,e) ∈ taken → (j,e) ∈ taken')
    (writable : ∀ v, UserWritable memory (s.directory i) v →
      Grounds start fixed taken' i v (frame memory (s.directory i) v))
    (slots : ∀ j < 1024, process.allocations j ≠ ⟨0,0⟩ → j = 1 ∧ Noted taken' i (process.allocations j)) :
    Owned start fixed taken' ⟨⟨memory,heap⟩,Function.update s.processes i process⟩ := by
  have others : ∀ j, j ≠ i → Unchanged s.kernel.memory memory (s.directory j) := fun j different =>
    remapped.other (owned.placed.space j) fun x inside inTables =>
      owned.placed.apart j i different x inside (.inr inTables)
  have directory : ∀ j, System.directory ⟨⟨memory,heap⟩,Function.update s.processes i process⟩ j = s.directory j := by
    intro j
    by_cases own : j = i
    · subst own
      simp only [System.directory,Function.update_self,same]
    · simp only [System.directory,Function.update_of_ne own]
  have spaces : ∀ j, AddressSpace memory (s.directory j) ∧
      ∀ x, InSpace memory (s.directory j) x ↔ InSpace s.kernel.memory (s.directory j) x := by
    intro j
    by_cases own : j = i
    · subst own
      exact ⟨remapped.space,fun x => remapped.inSpace⟩
    · exact ⟨(others j own).space,fun x => (others j own).inSpace⟩
  refine ⟨laid,⟨fun j => ?_,fun j x inside => ?_,fun j k different x inJ inK => ?_⟩,fun j v => ?_,fun j n inside => ?_⟩
  · rw [directory]
    exact (spaces j).1
  · rw [directory] at inside
    exact owned.placed.inside j x (((spaces j).2 x).mp inside)
  · rw [directory] at inJ inK
    exact owned.placed.apart j k different x (((spaces j).2 x).mp inJ) (((spaces k).2 x).mp inK)
  · rw [directory]
    intro allowed
    by_cases own : j = i
    · subst own
      exact writable v allowed
    · obtain ⟨before,place⟩ := userWritable_unchanged (others j own) allowed
      have grounds := owned.writable j v before
      rw [← place] at grounds
      rcases grounds with first | ⟨identity,e,memE,inE⟩
      · exact .inl first
      · exact .inr ⟨identity,e,kept j e own memE,inE⟩
  · by_cases own : j = i
    · subst own
      simp only [Function.update_self]
      exact slots n inside
    · simp only [Function.update_of_ne own]
      intro used
      obtain ⟨one,b,address,low,high,pages,below,noted⟩ := owned.slots j n inside used
      exact ⟨one,b,address,low,high,pages,below,fun positive => kept j _ own (noted positive)⟩

/-- A `malloc` call that stays inside the address space keeps the records in agreement. -/
theorem owned_malloc [DecidableEq ι] (owned : Owned start fixed taken s) (i : ι) {size : Nat}
    (fits : Fits s.kernel.kernel_heap size) :
    ∃ taken', Owned start fixed taken' ⟨(process_malloc s.kernel (s.processes i) size).2.1,
      Function.update s.processes i (process_malloc s.kernel (s.processes i) size).2.2⟩ := by
  rcases process_malloc_cases owned.laid (s.processes i) size with
    ⟨_,refused⟩ | ⟨b,heap,search,free,_,laid,⟨_,taken_back⟩ | ⟨⟨_,accepted⟩,granted⟩⟩
  · rw [refused]
    refine ⟨taken,?_⟩
    rw [Function.update_eq_self]
    exact owned
  · rw [Fits,search] at fits
    have inside := fits.resolve_left (Int.not_lt.mpr free.low)
    rw [taken_back]
    refine ⟨taken,?_⟩
    rw [Function.update_eq_self]
    exact owned_unchanged owned (heap_free_granted laid free) (owned_zeroed owned free.low laid inside)
  · rw [Fits,search] at fits
    have inside := fits.resolve_left (Int.not_lt.mpr free.low)
    obtain ⟨pages,high⟩ := (request_pages inside).2 accepted
    have zeroed := owned_zeroed owned free.low laid inside
    rw [pages] at granted
    generalize memset s.kernel.memory (blockAddress b) 0x00 size = m at zeroed granted
    have before : Owned start fixed taken ⟨⟨m,s.kernel.kernel_heap⟩,s.processes⟩ := owned_unchanged owned owned.laid zeroed
    obtain ⟨memory,result,remapped⟩ : ∃ m', (paging_map_to m (s.processes i).page_directory (blockAddress b)
        (blockAddress b) (blockAddress b + 4096 * requestBlocks size) 7).2 = m' ∧
        Remapped m m' (s.directory i) _ :=
      identity_mapped 7 (zeroed i).space (blockAddress_aligned b) high (by decide)
    rw [result] at granted
    rw [granted]
    refine ⟨if requestBlocks size = 0 then taken else (i,⟨b,requestBlocks size⟩) :: taken,
      owned_mapped before rfl remapped ?_ ?_ ?_ ?_⟩
    · by_cases none : requestBlocks size = 0
      · rw [withGranted,if_pos none] at laid
        rw [if_pos none]
        exact laid
      · rw [withGranted,if_neg none] at laid
        rw [if_neg none]
        exact laid
    · intro j e _ member
      split_ifs
      · exact member
      · exact List.mem_cons_of_mem _ member
    · intro v allowed
      change Grounds _ _ _ i v (frame memory (s.directory i) v)
      rcases userWritable_mapped (blockAddress_aligned b) high (by decide) remapped allowed with
        ⟨_,low,below,place⟩ | ⟨_,writable,place⟩
      · rw [place,if_neg (by omega)]
        exact .inr ⟨rfl,_,List.mem_cons_self ..,(blockOf_mem free.low).mpr ⟨low,below⟩⟩
      · rw [place]
        rcases before.writable i v writable with first | ⟨identity,e,memE,inE⟩
        · exact .inl first
        · refine .inr ⟨identity,e,?_,inE⟩
          split_ifs
          · exact memE
          · exact List.mem_cons_of_mem _ memE
    · intro j below used
      by_cases one : j = 1
      · subst one
        simp only [Function.update_self]
        refine ⟨trivial,b,rfl,free.low,free.high,pages,high,fun positive => ?_⟩
        have some : requestBlocks size ≠ 0 := Nat.pos_iff_ne_zero.mp positive
        rw [if_neg some]
        exact List.mem_cons_self ..
      · simp only [Function.update_of_ne one] at used
        exact absurd (owned.slots i j below used).1 one

/-- What a slot with the freed pointer stands for. -/
private theorem owned_slot (owned : Owned start fixed taken s) (i : ι) {ptr slot : Nat} (below : slot < 1024)
    (same : ((s.processes i).allocations slot).ptr = ptr) (backed : Backed s.kernel.kernel_heap (s.processes i) ptr) :
    ∃ n, paging_align_address (offset ptr ((s.processes i).allocations slot).size) = ptr + 4096 * n ∧
      ptr + 4096 * n < 4294967296 ∧ ptr % 4096 = 0 ∧
      ((∃ b, ptr = blockAddress b ∧ 0 ≤ b ∧ (i,Extent.mk b n) ∈ taken ∧
        ∀ j < 1024, (s.processes i).allocations j ≠ ⟨0,0⟩ → ((s.processes i).allocations j).ptr = ptr) ∨
      ∀ b, 0 ≤ b → FreedFrom s.kernel.kernel_heap (heap_address_to_block s.kernel.kernel_heap ptr) b →
        FreeBlock s.kernel.kernel_heap b) := by
  by_cases used : (s.processes i).allocations slot = ⟨0,0⟩
  · have null : ptr = 0 := by rw [← same,used]
    refine ⟨0,by rw [used,null]; rfl,by omega,by omega,.inr ?_⟩
    refine (backed slot below same).resolve_left ?_
    rw [used]
    decide
  · obtain ⟨one,b,address,low,_,pages,high,noted⟩ := owned.slots i slot below used
    rw [same] at address pages high
    refine ⟨_,pages,high,by rw [address]; exact blockAddress_aligned b,?_⟩
    rcases backed slot below same with positive | idle
    · refine .inl ⟨b,address,low,noted positive,fun j inside other => ?_⟩
      rw [(owned.slots i j inside other).1,← one,same]
    · exact .inr idle

/-- A `free` call of a backed pointer keeps the records in agreement. -/
theorem owned_free [DecidableEq ι] (owned : Owned start fixed taken s) (i : ι) {ptr : Nat}
    (backed : Backed s.kernel.kernel_heap (s.processes i) ptr) :
    ∃ taken', Owned start fixed taken' ⟨(process_free s.kernel (s.processes i) ptr).1,
      Function.update s.processes i (process_free s.kernel (s.processes i) ptr).2⟩ := by
  rcases process_free_cases s.kernel (s.processes i) ptr with
    ⟨unknown,_⟩ | ⟨slot,below,same,⟨_,refused⟩ | ⟨_,freed⟩⟩
  · rw [unknown]
    refine ⟨taken,?_⟩
    rw [Function.update_eq_self]
    exact owned
  · rw [refused]
    refine ⟨taken,?_⟩
    rw [Function.update_eq_self]
    exact owned
  · obtain ⟨n,pages,high,aligned,cases⟩ := owned_slot owned i below same backed
    rw [pages] at freed
    obtain ⟨memory,result,remapped⟩ : ∃ m', (paging_map_to s.kernel.memory (s.processes i).page_directory ptr
        ptr (ptr + 4096 * n) 0).2 = m' ∧ Remapped s.kernel.memory m' (s.directory i) _ :=
      identity_mapped 0 (owned.placed.space i) aligned high (by decide)
    rw [result] at freed
    simp only [freed]
    -- the pages unmapped are exactly those of the extent released
    have left : ∀ v, UserWritable memory (s.directory i) v → ¬ (ptr ≤ v ∧ v < ptr + 4096 * n) ∧
        Grounds start fixed taken i v (frame memory (s.directory i) v) := by
      intro v allowed
      rcases userWritable_mapped aligned high (by decide) remapped allowed with ⟨flags,_⟩ | ⟨outside,writable,place⟩
      · cases flags
      · rw [place]
        exact ⟨outside,owned.writable i v writable⟩
    have slots : ∀ j < 1024, (remove_process_allocation (s.processes i) ptr).allocations j ≠ ⟨0,0⟩ →
        (s.processes i).allocations j ≠ ⟨0,0⟩ ∧ ((s.processes i).allocations j).ptr ≠ ptr ∧
        (remove_process_allocation (s.processes i) ptr).allocations j = (s.processes i).allocations j := by
      intro j inside used
      rw [remove_process_allocation_allocations _ _ _ inside] at used ⊢
      split_ifs at used ⊢ with here
      · exact absurd rfl used
      · exact ⟨used,here,rfl⟩
    have directory := remove_process_allocation_page_directory (s.processes i) ptr
    generalize remove_process_allocation (s.processes i) ptr = process at slots directory ⊢
    rcases cases with ⟨b,rfl,low,member,only⟩ | idle
    · have released := heap_free_perm owned.laid (((List.perm_cons_erase member).map Prod.snd).append_right fixed)
      refine ⟨taken.erase (i,⟨b,n⟩),owned_mapped owned directory remapped released ?_ ?_ ?_⟩
      · intro j e other inTaken
        exact (List.mem_erase_of_ne (fun equal => other (congrArg Prod.fst equal))).mpr inTaken
      · intro v allowed
        obtain ⟨outside,first | ⟨identity,e,memE,inE⟩⟩ := left v allowed
        · exact .inl first
        · refine .inr ⟨identity,e,(List.mem_erase_of_ne ?_).mpr memE,inE⟩
          rintro equal
          cases equal
          rw [identity,blockOf_mem low] at inE
          exact outside inE
      · intro j inside used
        obtain ⟨before,different,_⟩ := slots j inside used
        exact absurd (only j inside before) different
    · refine ⟨taken,owned_mapped owned directory remapped
        (heap_free_idle owned.laid idle) (fun _ _ _ inTaken => inTaken) (fun v allowed => (left v allowed).2) fun j inside used => ?_⟩
      obtain ⟨before,_,kept⟩ := slots j inside used
      rw [kept]
      exact owned.slots i j inside before

/-- Processes stay isolated through every run of sound calls. -/
theorem isolation_runs [DecidableEq ι] (start : System ι) (fixed : List Extent) (loaded : Loaded fixed start)
    (moves : List (SystemCall ι × System ι)) (run : Run Step start moves) (sound : Each Sound start moves) :
    Always (Isolated start) start moves := by
  have kept : ∀ s call t, (∃ taken, Owned start fixed taken s) → Step s call t → Sound s call →
      ∃ taken, Owned start fixed taken t := by
    rintro s call t ⟨taken,owned⟩ step met
    cases call with
    | malloc i size =>
      obtain ⟨high,rfl⟩ := step
      simp only [isr80h_command4_malloc,u32_i32 high]
      exact owned_malloc owned i met
    | free i ptr =>
      obtain ⟨_,rfl⟩ := step
      exact owned_free owned i met
  refine (always_of_kept kept ⟨[],loaded.owned⟩ run sound).mono ?_
  rintro s ⟨taken,owned⟩
  exact owned.isolated

/-- A request for nothing and one for a page are given the same block where the lowest free
    block is also the first of those that end the table; freeing the first frees the page. -/
theorem isolation_broken [DecidableEq ι] (loaded : Loaded fixed start) {i j : ι} (different : i ≠ j) {b : Int}
    (low : 0 ≤ b) (nothing : heap_get_start_block start.kernel.kernel_heap (requestBlocks 0) = b)
    (page : heap_get_start_block start.kernel.kernel_heap (requestBlocks 4096) = b)
    (word : read32 start.kernel.memory (offset (start.directory j) (4 * (blockAddress b / 4194304))) &&&
      USER_WRITABLE = USER_WRITABLE) :
    ∃ moves : List (SystemCall ι × System ι),
      moves.map Prod.fst = [.malloc i 0,.malloc j 4096,.free i (blockAddress b)] ∧ Run Step start moves ∧
      ¬ Always (Isolated start) start moves := by
  have aligned := blockAddress_aligned b
  have positive := blockAddress_pos b
  have null : ∀ i, ∃ n < 1024, ((start.processes i).allocations n).ptr = 0 := fun i =>
    ⟨0,by decide,by rw [loaded.empty i 0 (by decide)]⟩
  have free : FreeAt fixed b := by
    rcases heap_malloc_kernel loaded.laid 0 with ⟨missing,_⟩ | ⟨b',found,free,_⟩
    · omega
    · exact (nothing.symm.trans found) ▸ free
  have high : blockAddress b + 4096 < 0xFFFFF000 := by
    have := free.high
    simp only [blockAddress,SIMPOS_HEAP_ADDRESS]
    omega
  have align_none : paging_align_address (offset (blockAddress b) 0) = blockAddress b := by
    rw [offset_of_lt (by omega),paging_align_address_eq (by omega)]
    omega
  have align_one : paging_align_address (offset (blockAddress b) 4096) = blockAddress b + 4096 * 1 := by
    rw [offset_of_lt (by omega),paging_align_address_eq (by omega)]
    omega
  -- the request for nothing leaves the kernel as it is and notes the block in slot 1
  have empty : process_malloc start.kernel (start.processes i) 0 = (blockAddress b,start.kernel,
      { start.processes i with allocations := Function.update (start.processes i).allocations 1 ⟨blockAddress b,0⟩ }) := by
    obtain ⟨_,_,served⟩ := process_malloc_served loaded.laid low nothing (acceptable_of_null (null i) (by omega))
    rw [requestBlocks_zero,heap_mark_blocks_taken_zero,align_none,paging_map_to_empty _ _ _ aligned] at served
    exact served
  obtain ⟨first,update⟩ : ∃ process : Process, process = { start.processes i with
    allocations := Function.update (start.processes i).allocations 1 ⟨blockAddress b,0⟩ } := ⟨_,rfl⟩
  rw [← update] at empty
  have slot : ∀ n < 1024, (first.allocations n).ptr = blockAddress b → first.allocations n = ⟨blockAddress b,0⟩ := by
    intro n inside same
    subst update
    by_cases one : n = 1
    · simp only [one,Function.update_self]
    · simp only [Function.update_of_ne one] at same
      rw [loaded.empty i n inside] at same
      exact absurd same (Nat.ne_of_lt positive)
  have noted : (first.allocations 1).ptr = blockAddress b := by
    subst update
    simp only [Function.update_self]
  -- the request for a page maps the block for the second process
  obtain ⟨_,taken,granted⟩ := process_malloc_served loaded.laid low page (acceptable_of_null (null j) (by omega))
  rw [align_one] at granted
  have zeroed := owned_zeroed loaded.owned low taken (by omega)
  generalize memset start.kernel.memory (blockAddress b) 0x00 4096 = m at zeroed granted
  generalize heap_mark_blocks_taken start.kernel.kernel_heap b (requestBlocks 4096) = heap at taken granted
  obtain ⟨memory,result,remapped⟩ : ∃ m', (paging_map_to m (start.processes j).page_directory (blockAddress b)
      (blockAddress b) (blockAddress b + 4096 * 1) 7).2 = m' ∧ Remapped m m' (start.directory j) _ :=
    identity_mapped 7 (zeroed j).space aligned (by omega) (by decide)
  rw [result] at granted
  obtain ⟨second,update'⟩ : ∃ process : Process, process = { start.processes j with
    allocations := Function.update (start.processes j).allocations 1 ⟨blockAddress b,4096⟩ } := ⟨_,rfl⟩
  rw [← update'] at granted
  -- freeing the first process's slot releases the block and unmaps nothing
  have freed : process_free ⟨memory,heap⟩ first (blockAddress b) =
      (⟨memory,heap_free heap (blockAddress b)⟩,remove_process_allocation first (blockAddress b)) := by
    rcases process_free_cases ⟨memory,heap⟩ first (blockAddress b) with
      ⟨_,absent⟩ | ⟨n,inside,same,⟨refused,_⟩ | ⟨_,freed⟩⟩
    · exact absurd noted (absent 1 (by decide))
    · rw [slot n inside same,align_none] at refused
      exact absurd ⟨aligned,aligned,aligned,Nat.le_refl _⟩ refused
    · rw [slot n inside same,align_none,paging_map_to_empty _ _ _ aligned] at freed
      exact freed
  generalize remove_process_allocation first (blockAddress b) = last at freed
  have step : Step start (.malloc i 0) ⟨start.kernel,Function.update start.processes i first⟩ := by
    refine ⟨by decide,?_⟩
    simp only [isr80h_command4_malloc,u32_i32 (show 0 < 4294967296 by decide),empty]
  have step' : Step ⟨start.kernel,Function.update start.processes i first⟩ (.malloc j 4096)
      ⟨⟨memory,heap⟩,Function.update (Function.update start.processes i first) j second⟩ := by
    refine ⟨by decide,?_⟩
    simp only [isr80h_command4_malloc,u32_i32 (show 4096 < 4294967296 by decide),
      Function.update_of_ne (Ne.symm different),granted]
  have step'' : Step ⟨⟨memory,heap⟩,Function.update (Function.update start.processes i first) j second⟩
      (.free i (blockAddress b)) ⟨⟨memory,heap_free heap (blockAddress b)⟩,
        Function.update (Function.update (Function.update start.processes i first) j second) i last⟩ := by
    refine ⟨by omega,?_⟩
    simp only [isr80h_command5_free,Function.update_of_ne different,Function.update_self,freed]
  refine ⟨[(_,_),(_,_),(_,_)],rfl,⟨step,step',step'',trivial⟩,fun always => ?_⟩
  have isolated := always.final
  have released := heap_free_granted taken free
  have inside : b < ((heap_free heap (blockAddress b)).table.total : Int) := by
    rw [released.total_eq]
    exact free.high
  have unmarked : FreeBlock (heap_free heap (blockAddress b)) b :=
    (freeBlock_iff released.layout low inside).mpr free.uncovered
  have directory : System.directory ⟨⟨memory,heap_free heap (blockAddress b)⟩,
      Function.update (Function.update (Function.update start.processes i first) j second) i last⟩ j =
      start.directory j := by
    simp only [System.directory,Function.update_of_ne (Ne.symm different),Function.update_self,update']
  refine isolated.free j b low inside unmarked ?_
  simp only [final,directory]
  have mapped := remapped.entries (blockAddress b) aligned (by omega)
  have start_of : above (blockAddress b) (blockAddress b) = 0 := by unfold above u32; omega
  rw [if_pos (by omega),start_of] at mapped
  refine ⟨blockAddress b,⟨aligned,by omega,?_,?_⟩,?_⟩
  · rw [remapped.words _ (by omega),(zeroed j).words _ (by omega)]
    exact word
  · rw [mapped,and_user_writable]
    omega
  · rw [frame,mapped,and_page (by omega)]
    omega

/-! ### Two processes on a nearly full heap -/

/-- The words of two directories with their tables, in blocks 0 to 1024 and 1025 to 2049:
    every page mapped to itself for reading only. -/
private def directoryWord (a : Nat) : Nat :=
  let block := (a - SIMPOS_HEAP_ADDRESS) / 4096
  let index := a % 4096 / 4
  if block % 1025 = 0 then SIMPOS_HEAP_ADDRESS + 4096 * (block + 1 + index) + 7
  else ((block % 1025 - 1) * 1024 + index) * 4096 + 5
private def twoDirectories : Bytes := wordMemory directoryWord
private def processOf (second : Bool) : Process :=
  ⟨fun _ => ⟨0,0⟩,⟨if second then blockAddress 1025 else blockAddress 0⟩⟩
/-- Every block but the last is taken. -/
private def nearlyFull : Heap := heap_mark_blocks_taken (kernel_heap_init fun _ => 0) 0 25599
def twoProcesses : System Bool := ⟨⟨twoDirectories,nearlyFull⟩,processOf⟩

private theorem nearlyFull_laid : Laid nearlyFull [⟨0,25599⟩] := by
  have empty := kernel_heap_init_laid fun _ => 0
  refine ⟨rfl,rfl,layout_taken empty.layout (by decide) (by decide) (by decide) fun i inside high => ?_⟩
  rw [mem_mk] at inside
  rw [freeBlock_iff empty.layout inside.1 high]
  rintro ⟨e,member,_⟩
  cases member

private theorem directoryOf (second : Bool) :
    ∃ base, (base = 0 ∨ base = 1025) ∧ twoProcesses.directory second = SIMPOS_HEAP_ADDRESS + 4096 * base ∧
      (second = true ↔ base = 1025) := by
  cases second with
  | false => exact ⟨0,.inl rfl,rfl,by decide⟩
  | true => exact ⟨1025,.inr rfl,rfl,by decide⟩

private theorem word_directory {base i : Nat} (which : base = 0 ∨ base = 1025) (inside : i < 1024) :
    read32 twoDirectories (offset (SIMPOS_HEAP_ADDRESS + 4096 * base) (4 * i)) =
      SIMPOS_HEAP_ADDRESS + 4096 * (base + 1 + i) + 7 := by
  have place : offset (SIMPOS_HEAP_ADDRESS + 4096 * base) (4 * i) = 16777216 + 4096 * base + 4 * i := by
    simp only [SIMPOS_HEAP_ADDRESS]
    exact offset_of_lt (by omega)
  have word : directoryWord (16777216 + 4096 * base + 4 * i) = 16777216 + 4096 * (base + 1 + i) + 7 := by
    simp only [directoryWord,SIMPOS_HEAP_ADDRESS]
    rw [if_pos (by omega)]
    omega
  simp only [SIMPOS_HEAP_ADDRESS] at place ⊢
  rw [place,twoDirectories,read32_wordMemory (by omega) (by omega) (by omega),word]

private theorem table_directory {base i : Nat} (which : base = 0 ∨ base = 1025) (inside : i < 1024) :
    pageTable twoDirectories (SIMPOS_HEAP_ADDRESS + 4096 * base) i = SIMPOS_HEAP_ADDRESS + 4096 * (base + 1 + i) := by
  rw [pageTable,word_directory which inside]
  simp only [SIMPOS_HEAP_ADDRESS]
  rw [and_page (by omega)]
  omega

private theorem entry_directory {base v : Nat} (which : base = 0 ∨ base = 1025) (aligned : v % 4096 = 0)
    (high : v < 4294967296) : paging_get twoDirectories (SIMPOS_HEAP_ADDRESS + 4096 * base) v = v + 5 := by
  have word : directoryWord (16777216 + 4096 * (base + 1 + v / 4194304) + 4 * (v % 4194304 / 4096)) = v + 5 := by
    simp only [directoryWord,SIMPOS_HEAP_ADDRESS]
    rw [if_neg (by omega)]
    omega
  rw [paging_get_aligned _ _ aligned,table_directory which (by omega)]
  simp only [SIMPOS_HEAP_ADDRESS]
  rw [twoDirectories,read32_wordMemory (by omega) (by omega) (by omega),word]

private theorem inSpace_directory {base x : Nat} (which : base = 0 ∨ base = 1025)
    (inside : InSpace twoDirectories (SIMPOS_HEAP_ADDRESS + 4096 * base) x) :
    SIMPOS_HEAP_ADDRESS + 4096 * base ≤ x ∧ x < SIMPOS_HEAP_ADDRESS + 4096 * (base + 1025) := by
  rcases inside with ⟨low,high⟩ | ⟨i,below,bounds⟩
  · exact ⟨low,Nat.lt_of_lt_of_le high (by omega)⟩
  · rw [table_directory which below] at bounds
    omega

theorem twoProcesses_loaded : Loaded [⟨0,25599⟩] twoProcesses := by
  refine ⟨nearlyFull_laid,⟨fun second => ?_,fun second x inside => ?_,fun i j different x inI inJ => ?_⟩,?_,fun _ _ _ => rfl⟩
  · obtain ⟨base,which,directory,_⟩ := directoryOf second
    rw [directory]
    refine ⟨?_,?_,fun i inside => ?_,fun i insideI j insideJ same => ?_⟩
    · simp only [SIMPOS_HEAP_ADDRESS]
      omega
    · simp only [SIMPOS_HEAP_ADDRESS]
      omega
    · rw [show twoProcesses.kernel.memory = twoDirectories from rfl,table_directory which inside]
      omega
    · rw [show twoProcesses.kernel.memory = twoDirectories from rfl,table_directory which insideI,
        table_directory which insideJ] at same
      omega
  · obtain ⟨base,which,directory,_⟩ := directoryOf second
    rw [directory] at inside
    have bounds := inSpace_directory which inside
    refine ⟨_,List.mem_singleton_self _,?_⟩
    simp only [mem_mk,blockOf,SIMPOS_HEAP_ADDRESS,SIMPOS_HEAP_BLOCK_SIZE] at bounds ⊢
    omega
  · obtain ⟨base,which,directory,second⟩ := directoryOf i
    obtain ⟨base',which',directory',second'⟩ := directoryOf j
    rw [directory] at inI
    rw [directory'] at inJ
    have bounds := inSpace_directory which inI
    have bounds' := inSpace_directory which' inJ
    refine different (Bool.eq_iff_iff.mpr ?_)
    rw [second,second']
    omega
  · rintro second p ⟨v,⟨aligned,high,_,entry⟩,_⟩
    obtain ⟨base,which,directory,_⟩ := directoryOf second
    have value := entry_directory which aligned high
    rw [directory,show twoProcesses.kernel.memory = twoDirectories from rfl,value,and_user_writable] at entry
    omega

theorem nearlyFull_free {b : Int} (low : 0 ≤ b) (high : b < 25600) : FreeBlock nearlyFull b ↔ b = 25599 := by
  rw [freeBlock_iff nearlyFull_laid.layout low high]
  constructor
  · intro uncovered
    by_contra other
    exact uncovered ⟨_,List.mem_singleton_self _,mem_mk.mpr (by omega)⟩
  · rintro rfl ⟨e,member,inside⟩
    obtain rfl := List.mem_singleton.mp member
    revert inside
    decide
private theorem nearlyFull_search {n : Nat} (small : n ≤ 1) : heap_get_start_block nearlyFull n = 25599 := by
  have search := heap_get_start_block_correct nearlyFull n
  have total : (nearlyFull.table.total : Int) = 25600 := rfl
  generalize heap_get_start_block nearlyFull n = b at search
  cases search with
  | run positive found _ =>
    obtain ⟨low,fits,all⟩ := found
    exact (nearlyFull_free low (by omega)).mp (all b (mem_mk.mpr (by omega)))
  | tail low high free _ => exact (nearlyFull_free low (by omega)).mp (free b (Int.le_refl b) high)
  | full last _ =>
    rcases last with empty | taken
    · omega
    · exact absurd ((nearlyFull_free (by omega) (by omega)).mpr (by omega)) taken

private theorem blockAddress_last : blockAddress 25599 = 0x073FF000 := by decide
private theorem last_search : heap_get_start_block twoProcesses.kernel.kernel_heap (requestBlocks 4096) = 25599 := by
  rw [requestBlocks_page]
  exact nearlyFull_search (Nat.le_refl 1)

/-- A request for the last page and its release, by the first of two processes. -/
theorem isolation_runs_page : ∃ moves : List (SystemCall Bool × System Bool),
    moves.map Prod.fst = [.malloc false 4096,.free false 0x073FF000] ∧ Run Step twoProcesses moves ∧
    Always (Isolated twoProcesses) twoProcesses moves := by
  have acceptable : Acceptable (twoProcesses.processes false) 25599 4096 :=
    acceptable_of_null ⟨0,by decide,rfl⟩ (by rw [blockAddress_last]; decide)
  obtain ⟨_,_,served⟩ := process_malloc_served (k := twoProcesses.kernel) nearlyFull_laid (by decide) last_search acceptable
  rw [blockAddress_last] at served
  obtain ⟨kernel,process,slot,others,served⟩ : ∃ kernel process, process.allocations 1 = ⟨0x073FF000,4096⟩ ∧
      (∀ n < 1024, n ≠ 1 → process.allocations n = ⟨0,0⟩) ∧
      process_malloc twoProcesses.kernel (twoProcesses.processes false) 4096 = (0x073FF000,kernel,process) := by
    refine ⟨_,_,?_,fun n _ other => ?_,served⟩
    · simp only [Function.update_self]
    · simp only [Function.update_of_ne other]
      rfl
  have step : Step twoProcesses (.malloc false 4096) ⟨kernel,Function.update twoProcesses.processes false process⟩ := by
    refine ⟨by decide,?_⟩
    simp only [isr80h_command4_malloc,u32_i32 (show 4096 < 4294967296 by decide),served]
  obtain ⟨last,step'⟩ : ∃ last, Step ⟨kernel,Function.update twoProcesses.processes false process⟩
      (.free false 0x073FF000) last := ⟨_,Nat.lt_of_lt_of_le (by decide) (Nat.le_refl _),rfl⟩
  have run : Run Step twoProcesses [(.malloc false 4096,_),(.free false 0x073FF000,last)] := ⟨step,step',trivial⟩
  refine ⟨_,rfl,run,isolation_runs twoProcesses _ twoProcesses_loaded _ run ⟨.inr ?_,?_,trivial⟩⟩
  · rw [last_search,blockAddress_last]
    decide
  · intro n inside same
    left
    simp only [Function.update_self] at same ⊢
    by_cases one : n = 1
    · rw [one,slot]
      decide
    · rw [others n inside one] at same
      cases same

/-- A page one process is mapped is freed by another that was given the same block for a
    request of no bytes. -/
theorem isolation_breach : Loaded [⟨0,25599⟩] twoProcesses ∧ ∃ moves : List (SystemCall Bool × System Bool),
    moves.map Prod.fst = [.malloc false 0,.malloc true 4096,.free false 0x073FF000] ∧
    Run Step twoProcesses moves ∧ ¬ Always (Isolated twoProcesses) twoProcesses moves := by
  refine ⟨twoProcesses_loaded,?_⟩
  rw [← blockAddress_last]
  refine isolation_broken twoProcesses_loaded (by decide) (by decide) ?_ last_search ?_
  · rw [requestBlocks_zero]
    exact nearlyFull_search (Nat.zero_le 1)
  · obtain ⟨base,which,directory,_⟩ := directoryOf true
    rw [and_user_writable,blockAddress_last,directory]
    have word := word_directory (i := 0x073FF000 / 4194304) which (by decide)
    rw [show twoProcesses.kernel.memory = twoDirectories from rfl,word]
    simp only [SIMPOS_HEAP_ADDRESS]
    omega

end SimpOS.IsolationRuns
