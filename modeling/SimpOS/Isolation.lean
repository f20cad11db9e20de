import SimpOS.ProcessMemory
import SimpOS.Runs

/-!
Who may write which physical page while processes call `malloc` and `free`. A process's
page directory gives it the pages it was loaded with and the blocks the heap took for
its own allocations; these stay its own through every mix of calls, except where a slot
of a request that took no block is freed.
-/
namespace SimpOS.Isolation
open SimpOS.Machine SimpOS.Memory SimpOS.Extents SimpOS.HeapBlocks SimpOS.HeapLayout SimpOS.Paging SimpOS.AddressSpaces
  SimpOS.KernelHeap SimpOS.ProcessMemory SimpOS.Runs

/-- The system calls, on the item they take from the caller's stack. -/
def isr80h_command4_malloc (k : Kernel) (process : Process) (stack_item : Nat) : Nat × Kernel × Process :=
  let size := u32 (i32 stack_item)
  process_malloc k process size
def isr80h_command5_free (k : Kernel) (process : Process) (stack_item : Nat) : Kernel × Process :=
  process_free k process stack_item

/-- The kernel with the live processes. -/
structure System (ι : Type) where
  kernel : Kernel
  processes : ι → Process

inductive SystemCall (ι : Type)
  | malloc (caller : ι) (size : Nat)
  | free (caller : ι) (ptr : Nat)

variable {ι : Type}

/-- One process makes one system call, with any 32-bit argument. -/
def Step [DecidableEq ι] (s : System ι) : SystemCall ι → System ι → Prop
  | .malloc i size, t => size < 4294967296 ∧
      t = ⟨(isr80h_command4_malloc s.kernel (s.processes i) size).2.1,
        Function.update s.processes i (isr80h_command4_malloc s.kernel (s.processes i) size).2.2⟩
  | .free i ptr, t => ptr < 4294967296 ∧
      t = ⟨(isr80h_command5_free s.kernel (s.processes i) ptr).1,
        Function.update s.processes i (isr80h_command5_free s.kernel (s.processes i) ptr).2⟩

def System.directory (s : System ι) (i : ι) : Nat := (s.processes i).page_directory.directory_entry

def USER_WRITABLE : Nat := PAGING_IS_PRESENT ||| PAGING_IS_WRITEABLE ||| PAGING_ACCESS_FROM_ALL
/-- User code may write the page at v: both words the processor walks allow it. -/
def UserWritable (m : Bytes) (directory v : Nat) : Prop :=
  v % 4096 = 0 ∧ v < 4294967296 ∧
    read32 m (offset directory (4 * (v / 4194304))) &&& USER_WRITABLE = USER_WRITABLE ∧
    paging_get m directory v &&& USER_WRITABLE = USER_WRITABLE
/-- The physical page behind the page at v. -/
def frame (m : Bytes) (directory v : Nat) : Nat := paging_get m directory v &&& 0xfffff000
/-- The physical page p is user-writable in the directory. -/
def Reaches (m : Bytes) (directory p : Nat) : Prop := ∃ v, UserWritable m directory v ∧ frame m directory v = p

/-- The heap block an address lies in. -/
def blockOf (x : Nat) : Int := ((x : Int) - SIMPOS_HEAP_ADDRESS) / SIMPOS_HEAP_BLOCK_SIZE

/-- No call gives two processes a page, and no free block is within a process's reach. -/
structure Isolated (start s : System ι) : Prop where
  shared : ∀ i j p, i ≠ j → Reaches s.kernel.memory (s.directory i) p → Reaches s.kernel.memory (s.directory j) p →
    Reaches start.kernel.memory (start.directory i) p ∧ Reaches start.kernel.memory (start.directory j) p
  free : ∀ i (b : Int), 0 ≤ b → b < s.kernel.kernel_heap.table.total → FreeBlock s.kernel.kernel_heap b →
    ¬ Reaches s.kernel.memory (s.directory i) (blockAddress b)

/-- The processes' directories and tables lie in kernel blocks, apart from each other. -/
structure Placed (fixed : List Extent) (s : System ι) : Prop where
  space : ∀ i, AddressSpace s.kernel.memory (s.directory i)
  inside : ∀ i x, InSpace s.kernel.memory (s.directory i) x → Covered fixed (blockOf x)
  apart : ∀ i j, i ≠ j → ∀ x, InSpace s.kernel.memory (s.directory i) x → ¬ InSpace s.kernel.memory (s.directory j) x

/-- Processes as loading leaves them: their directories and the pages they may write lie in
    blocks taken in the heap or below it, and no allocation has been made. -/
structure Loaded (fixed : List Extent) (s : System ι) : Prop where
  laid : Laid s.kernel.kernel_heap fixed
  placed : Placed fixed s
  writable : ∀ i p, Reaches s.kernel.memory (s.directory i) p → p < SIMPOS_HEAP_ADDRESS ∨ Covered fixed (blockOf p)
  empty : ∀ i, ∀ j < 1024, (s.processes i).allocations j = ⟨0,0⟩

/-- The request's pointer and size stay inside the address space. -/
def Fits (heap : Heap) (size : Nat) : Prop :=
  heap_get_start_block heap (requestBlocks size) < 0 ∨
    blockAddress (heap_get_start_block heap (requestBlocks size)) + size ≤ 4294967296
/-- Every slot with the pointer took blocks, or the release of the pointer meets no taken block. -/
def Backed (heap : Heap) (process : Process) (ptr : Nat) : Prop :=
  ∀ j < 1024, (process.allocations j).ptr = ptr → 0 < requestBlocks (process.allocations j).size ∨
    ∀ b, 0 ≤ b → FreedFrom heap (heap_address_to_block heap ptr) b → FreeBlock heap b
/-- The condition under which a call keeps the processes apart. -/
def Sound (s : System ι) : SystemCall ι → Prop
  | .malloc _ size => Fits s.kernel.kernel_heap size
  | .free i ptr => Backed s.kernel.kernel_heap (s.processes i) ptr

/-! ### Entries -/

theorem and_user_writable (x : Nat) : x &&& USER_WRITABLE = USER_WRITABLE ↔ x % 8 = 7 := by
  have low : x &&& USER_WRITABLE = x % 8 := Nat.and_two_pow_sub_one_eq_mod x 3
  rw [low]
  rfl
theorem userWritable_unchanged {m m' : Bytes} {directory : Nat} (unchanged : Unchanged m m' directory) {v : Nat}
    (writable : UserWritable m' directory v) :
    UserWritable m directory v ∧ frame m' directory v = frame m directory v := by
  obtain ⟨aligned,high,word,entry⟩ := writable
  have same := unchanged.entries v aligned high
  rw [unchanged.words _ (by omega)] at word
  rw [same] at entry
  exact ⟨⟨aligned,high,word,entry⟩,by rw [frame,same,frame]⟩

theorem blockOf_mem {x : Nat} {b : Int} {n : Nat} (low : 0 ≤ b) :
    blockOf x ∈ Extent.mk b n ↔ blockAddress b ≤ x ∧ x < blockAddress b + 4096 * n := by
  simp only [mem_mk,blockOf,blockAddress,SIMPOS_HEAP_ADDRESS,SIMPOS_HEAP_BLOCK_SIZE]
  omega

/-- The blocks of a request that stays inside the address space are those its bytes and its
    mapped pages lie in. -/
theorem request_pages {b : Int} {size : Nat} (fits : blockAddress b + size ≤ 4294967296) :
    size ≤ 4096 * requestBlocks size ∧
    (Mappable (blockAddress b) (blockAddress b) (paging_align_address (offset (blockAddress b) size)) →
      paging_align_address (offset (blockAddress b) size) = blockAddress b + 4096 * requestBlocks size ∧
      blockAddress b + 4096 * requestBlocks size < 4294967296) := by
  have aligned := blockAddress_aligned b
  have above : 0x01000000 ≤ blockAddress b := by
    simp only [blockAddress,SIMPOS_HEAP_ADDRESS]
    omega
  have count : requestBlocks size = blocks size := requestBlocks_eq (by omega)
  rw [count]
  unfold blocks
  refine ⟨by omega,fun accepted => ?_⟩
  obtain ⟨_,_,_,forward⟩ := accepted
  by_cases last : blockAddress b + size ≤ 0xFFFFF000
  · rw [offset_of_lt (by omega),paging_align_address_eq last]
    omega
  · exfalso
    have wraps : paging_align_address (offset (blockAddress b) size) = 0 := by
      by_cases full : blockAddress b + size = 4294967296
      · have zero : offset (blockAddress b) size = 0 := by unfold offset u32; omega
        rw [zero]
        rfl
      · rw [offset_of_lt (by omega)]
        exact paging_align_address_wraps (by omega) (by omega)
    omega

/-- Mapping n pages onto themselves. -/
theorem identity_mapped {m : Bytes} {directory : Paging4gbChunk} {ptr n : Nat} (flags : Nat)
    (space : AddressSpace m directory.directory_entry) (aligned : ptr % 4096 = 0) (high : ptr + 4096 * n < 4294967296)
    (low : flags < 4096) :
    ∃ m', (paging_map_to m directory ptr ptr (ptr + 4096 * n) flags).2 = m' ∧
      Remapped m m' directory.directory_entry (fun w => if above ptr w < 4096 * n then ptr + above ptr w + flags
        else paging_get m directory.directory_entry w) := by
  obtain ⟨m',mapped,remapped⟩ := paging_map_to_correct flags space
    (show Mappable ptr ptr (ptr + 4096 * n) from ⟨aligned,aligned,by omega,by omega⟩) (by omega) high low
  rw [Nat.add_sub_cancel_left] at remapped
  exact ⟨m',by rw [mapped],remapped⟩

/-- After a range of pages is mapped onto itself, a user-writable page is one of the range,
    where its flags allow it, or was user-writable before with the same frame. -/
theorem userWritable_mapped {m m' : Bytes} {directory ptr length flags : Nat} (aligned : ptr % 4096 = 0)
    (high : ptr + length < 4294967296) (low : flags < 4096)
    (remapped : Remapped m m' directory (fun w => if above ptr w < length then ptr + above ptr w + flags
      else paging_get m directory w)) {v : Nat} (writable : UserWritable m' directory v) :
    (flags % 8 = 7 ∧ ptr ≤ v ∧ v < ptr + length ∧ frame m' directory v = v) ∨
    (¬ (ptr ≤ v ∧ v < ptr + length) ∧ UserWritable m directory v ∧ frame m' directory v = frame m directory v) := by
  obtain ⟨vAligned,vHigh,word,entry⟩ := writable
  rw [remapped.words _ (by omega)] at word
  have value := remapped.entries v vAligned vHigh
  rw [value] at entry
  have range : above ptr v < length ↔ ptr ≤ v ∧ v < ptr + length := by
    unfold above u32
    omega
  by_cases inside : ptr ≤ v ∧ v < ptr + length
  · have place : ptr + above ptr v = v := by unfold above u32; omega
    rw [if_pos (range.mpr inside),place] at entry value
    rw [and_user_writable] at entry
    left
    refine ⟨?_,inside.1,inside.2,?_⟩
    · omega
    · rw [frame,value,and_page (by omega)]
      omega
  · rw [if_neg (fun h => inside (range.mp h))] at entry value
    exact .inr ⟨inside,⟨vAligned,vHigh,word,entry⟩,by rw [frame,value,frame]⟩

/-! ### What the calls keep -/

section
variable {start s : System ι} {fixed : List Extent} {taken : List (ι × Extent)}

/-- Why a process may write the page p at v: it could at the start, in memory no call hands
    out, or p is at its own address in an extent taken for the process. -/
def Grounds (start : System ι) (fixed : List Extent) (taken : List (ι × Extent)) (i : ι) (v p : Nat) : Prop :=
  (Reaches start.kernel.memory (start.directory i) p ∧ (p < SIMPOS_HEAP_ADDRESS ∨ Covered fixed (blockOf p))) ∨
  (p = v ∧ ∃ e, (i,e) ∈ taken ∧ blockOf p ∈ e)

/-- What a slot stands for: an extent taken for the process, or a request without blocks. -/
def Noted (taken : List (ι × Extent)) (i : ι) (a : ProcessAllocation) : Prop :=
  ∃ b, a.ptr = blockAddress b ∧ 0 ≤ b ∧ b < 25600 ∧
    paging_align_address (offset a.ptr a.size) = a.ptr + 4096 * requestBlocks a.size ∧
    a.ptr + 4096 * requestBlocks a.size < 4294967296 ∧
    (0 < requestBlocks a.size → (i,Extent.mk b (requestBlocks a.size)) ∈ taken)

/-- The three records of ownership agree: the heap's table, the slots and the directories. -/
structure Owned (start : System ι) (fixed : List Extent) (taken : List (ι × Extent)) (s : System ι) : Prop where
  laid : Laid s.kernel.kernel_heap (taken.map Prod.snd ++ fixed)
  placed : Placed fixed s
  writable : ∀ i v, UserWritable s.kernel.memory (s.directory i) v →
    Grounds start fixed taken i v (frame s.kernel.memory (s.directory i) v)
  slots : ∀ i, ∀ j < 1024, (s.processes i).allocations j ≠ ⟨0,0⟩ → j = 1 ∧ Noted taken i ((s.processes i).allocations j)

theorem Owned.apart (owned : Owned start fixed taken s) {i j : ι} {e e' : Extent} (memE : (i,e) ∈ taken)
    (memE' : (j,e') ∈ taken) (different : (i,e) ≠ (j,e')) : Apart e e' := by
  have disjoint := (List.pairwise_append.mp owned.laid.layout.disjoint).1
  have pairs : taken.Pairwise (fun x y => Apart x.2 y.2) := List.pairwise_map.mp disjoint
  have : Std.Symm (fun x y : ι × Extent => Apart x.2 y.2) := ⟨fun _ _ => Apart.symm⟩
  exact pairs.forall memE memE' different
theorem Owned.apart_fixed (owned : Owned start fixed taken s) {i : ι} {e : Extent} (memE : (i,e) ∈ taken) {x : Int}
    (inE : x ∈ e) : ¬ Covered fixed x := by
  rintro ⟨f,memF,inF⟩
  have apart := (List.pairwise_append.mp owned.laid.layout.disjoint).2.2
  exact apart e (List.mem_map.mpr ⟨(i,e),memE,rfl⟩) f memF x inE inF
theorem Owned.above_heap (owned : Owned start fixed taken s) {i : ι} {e : Extent} (memE : (i,e) ∈ taken) {p : Nat}
    (inE : blockOf p ∈ e) : SIMPOS_HEAP_ADDRESS ≤ p := by
  have first := owned.laid.layout.start e (List.mem_append_left _ (List.mem_map.mpr ⟨(i,e),memE,rfl⟩))
  simp only [mem_def,blockOf,SIMPOS_HEAP_ADDRESS,SIMPOS_HEAP_BLOCK_SIZE] at inE ⊢
  omega

/-- Agreeing records isolate the processes. -/
theorem Owned.isolated (owned : Owned start fixed taken s) : Isolated start s := by
  constructor
  · rintro i j p different ⟨v,writable,rfl⟩ ⟨w,writable',same⟩
    have groundsI := owned.writable i v writable
    have groundsJ := owned.writable j w writable'
    rw [same] at groundsJ
    rcases groundsI with ⟨first,place⟩ | ⟨_,e,memE,inE⟩
    · rcases groundsJ with ⟨second,_⟩ | ⟨_,e',memE',inE'⟩
      · exact ⟨first,second⟩
      · rcases place with below | covered
        · exact absurd below (Nat.not_lt.mpr (owned.above_heap memE' inE'))
        · exact absurd covered (owned.apart_fixed memE' inE')
    · rcases groundsJ with ⟨_,below | covered⟩ | ⟨_,e',memE',inE'⟩
      · exact absurd below (Nat.not_lt.mpr (owned.above_heap memE inE))
      · exact absurd covered (owned.apart_fixed memE inE)
      · exact absurd inE' (owned.apart memE memE' (fun same => different (congrArg Prod.fst same)) _ inE)
  · rintro i b low high free ⟨v,writable,place⟩
    have grounds := owned.writable i v writable
    rw [place] at grounds
    have uncovered := (freeBlock_iff owned.laid.layout low high).mp free
    have block : blockOf (blockAddress b) = b := by
      simp only [blockOf,blockAddress,SIMPOS_HEAP_ADDRESS,SIMPOS_HEAP_BLOCK_SIZE]
      omega
    rw [Grounds,block] at grounds
    rcases grounds with ⟨_,below | ⟨f,memF,inF⟩⟩ | ⟨_,e,memE,inE⟩
    · simp only [blockAddress,SIMPOS_HEAP_ADDRESS] at below
      omega
    · exact uncovered ⟨f,List.mem_append_right _ memF,inF⟩
    · exact uncovered ⟨e,List.mem_append_left _ (List.mem_map.mpr ⟨(i,e),memE,rfl⟩),inE⟩

theorem Loaded.owned (loaded : Loaded fixed s) : Owned s fixed [] s := by
  refine ⟨loaded.laid,loaded.placed,fun i v writable => ?_,fun i j inside used => absurd (loaded.empty i j inside) used⟩
  exact .inl ⟨⟨v,writable,rfl⟩,loaded.writable i _ ⟨v,writable,rfl⟩⟩

end

end SimpOS.Isolation
