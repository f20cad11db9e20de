import SimpOS.PageMapping
import SimpOS.Processes

/-!
The address space of a flat binary: the identity map that `task_init` makes, with the
program's pages and the stack's laid over it by `process_map_memory`. Both overlays end
where `paging_align_address` puts the end of their buffer, which is address 0 for a buffer
that reaches into the last page.
-/
namespace SimpOS.FlatBinaries
open SimpOS.Machine SimpOS.Memory SimpOS.Extents SimpOS.Paging SimpOS.AddressSpaces SimpOS.KernelHeap SimpOS.PageDirectories
open SimpOS.PageMapping SimpOS.Processes

/-- A process with a flat binary in a buffer of whole pages, and a stack in another. -/
structure FlatBinary (v : Process) : Prop where
  filetype : v.filetype = .BINARY
  positive : 1 ≤ v.size
  size : v.size < 4294967296
  ptr : v.ptr % 4096 = 0 ∧ v.ptr < 4294967296
  stack : v.stack % 4096 = 0 ∧ v.stack < 4294967296

/-- The directory has the program and the stack where they belong, present, writeable and for the
    user, and leads every other page to itself, present and for the user to read. -/
structure FlatSpace (m : Bytes) (directory : Nat) (v : Process) : Prop where
  program : ∀ i < (v.size + 4095) / 4096,
    paging_get m directory (SIMPOS_PROGRAM_VIRTUAL_ADDRESS + 4096 * i) = (v.ptr + 4096 * i) ||| 7
  stack : ∀ i < 4, paging_get m directory (SIMPOS_PROGRAM_VIRTUAL_STACK_ADDRESS_END + 4096 * i) = (v.stack + 4096 * i) ||| 7
  others : ∀ page, page % 4096 = 0 → page < 4294967296 →
    (∀ i < (v.size + 4095) / 4096, page ≠ SIMPOS_PROGRAM_VIRTUAL_ADDRESS + 4096 * i) →
    (∀ i < 4, page ≠ SIMPOS_PROGRAM_VIRTUAL_STACK_ADDRESS_END + 4096 * i) → paging_get m directory page = page ||| 5

/-- The buffers end before the last page of the address space, and the program's pages do not go
    round its end. -/
def Fits (v : Process) : Prop :=
  v.ptr + v.size ≤ 0xFFFFF000 ∧ v.stack + 16384 ≤ 0xFFFFF000 ∧ v.size ≤ 0xFFC00000

/-! ### One overlay -/

section
variable {m : Bytes} {directory : Paging4gbChunk} {virt ptr size : Nat}

/-- The end of a buffer of whole pages, rounded up: behind its pages, or nowhere behind its start. -/
private theorem buffer_end (aligned : ptr % 4096 = 0) (high : ptr < 4294967296) (positive : 1 ≤ size)
    (bound : size < 4294967296) :
    (ptr + size ≤ 0xFFFFF000 ∧ paging_align_address (offset ptr size) = ptr + 4096 * ((size + 4095) / 4096)) ∨
    (0xFFFFF000 < ptr + size ∧ paging_align_address (offset ptr size) ≤ ptr) := by
  by_cases fits : ptr + size ≤ 0xFFFFF000
  · refine .inl ⟨fits,?_⟩
    rw [offset_of_lt (by omega),paging_align_address_eq fits]
    omega
  · refine .inr ⟨Nat.lt_of_not_le fits,?_⟩
    by_cases last : ptr + size < 4294967296
    · rw [offset_of_lt last,paging_align_address_wraps (by omega) last]
      exact Nat.zero_le ptr
    · have wraps : offset ptr size = ptr + size - 4294967296 := by
        unfold offset u32
        omega
      rw [wraps,paging_align_address_eq (by omega)]
      omega

private theorem above_page {i : Nat} (below : 4096 * i < 4294967296) : above virt (virt + 4096 * i) = 4096 * i := by
  unfold above u32
  omega
private theorem above_inside {page count : Nat} (virtAligned : virt % 4096 = 0) (aligned : page % 4096 = 0)
    (high : page < 4294967296) (fits : virt + 4096 * count ≤ 4294967296) (inside : above virt page < 4096 * count) :
    ∃ i < count, page = virt + 4096 * i := by
  unfold above u32 at inside
  exact ⟨(page - virt) / 4096,by omega,by omega⟩

/-- Laying a buffer of whole pages over a directory: its pages are mapped, or nothing is. -/
theorem overlay (directory : Paging4gbChunk) (virt size : Nat) (space : AddressSpace m directory.directory_entry) (virtAligned : virt % 4096 = 0)
    (virtHigh : virt < 4294967296) (aligned : ptr % 4096 = 0) (high : ptr < 4294967296) (positive : 1 ≤ size)
    (bound : size < 4294967296) :
    (ptr + size ≤ 0xFFFFF000 ∧
      (paging_map_to m directory virt ptr (paging_align_address (offset ptr size)) 7).1 = 0 ∧
      Remapped m (paging_map_to m directory virt ptr (paging_align_address (offset ptr size)) 7).2 directory.directory_entry
        (fun w => if above virt w < 4096 * ((size + 4095) / 4096) then ptr + above virt w + 7
          else paging_get m directory.directory_entry w)) ∨
    (0xFFFFF000 < ptr + size ∧ (paging_map_to m directory virt ptr (paging_align_address (offset ptr size)) 7).2 = m) := by
  rcases buffer_end aligned high positive bound with ⟨fits,stop⟩ | ⟨wraps,stop⟩
  · left
    have accepted : Mappable virt ptr (ptr + 4096 * ((size + 4095) / 4096)) :=
      ⟨virtAligned,aligned,by omega,Nat.le_add_right ..⟩
    obtain ⟨m',mapped,remapped⟩ := paging_map_to_correct 7 space accepted virtHigh (by omega) (by decide)
    rw [Nat.add_sub_cancel_left] at remapped
    rw [stop,mapped]
    exact ⟨fits,rfl,remapped⟩
  · right
    refine ⟨wraps,?_⟩
    rcases Nat.lt_or_eq_of_le stop with backward | empty
    · rw [paging_map_to_refused fun accepted => Nat.not_lt.mpr accepted.2.2.2 backward]
    · rw [empty]
      simp only [paging_map_to,PAGING_PAGE_SIZE,virtAligned,aligned,ne_eq,not_true_eq_false,if_false,Nat.lt_irrefl,
        Nat.sub_self]
      rfl

end

/-! ### Both overlays -/

/-- What `process_map_memory` does to memory for a flat binary in the directory of a chunk. -/
def map_flat (m : Bytes) (chunk : Nat) (v : Process) : Bytes :=
  let (res, m) := paging_map_to m ⟨read32 m chunk⟩ SIMPOS_PROGRAM_VIRTUAL_ADDRESS v.ptr
    (paging_align_address (offset v.ptr v.size)) 7
  if res < 0 then m
  else (paging_map_to m ⟨read32 m chunk⟩ SIMPOS_PROGRAM_VIRTUAL_STACK_ADDRESS_END v.stack
    (paging_align_address (offset v.stack SIMPOS_USER_PROGRAM_STACK_SIZE)) 7).2

section
variable {m : Bytes} {chunk : Nat} {v : Process}

private theorem program_start : SIMPOS_PROGRAM_VIRTUAL_ADDRESS = 0x400000 := rfl
theorem stack_end : SIMPOS_PROGRAM_VIRTUAL_STACK_ADDRESS_END = 0x3FB000 := rfl

/-- The first page of the program, the first of the stack and page 0 tell whether a space is flat. -/
private theorem FlatSpace.samples {directory : Nat} (flat : FlatBinary v) (space : FlatSpace m directory v) :
    paging_get m directory SIMPOS_PROGRAM_VIRTUAL_ADDRESS % 8 = 7 ∧
    paging_get m directory SIMPOS_PROGRAM_VIRTUAL_STACK_ADDRESS_END % 8 = 7 ∧ paging_get m directory 0 = 5 := by
  have positive := flat.positive
  have program := space.program 0 (by omega)
  have stack := space.stack 0 (by decide)
  have first := space.others 0 rfl (by decide) (fun i _ => by rw [program_start]; omega) fun i _ => by
    rw [stack_end]
    omega
  have ptrAligned := flat.ptr.1
  have stackAligned := flat.stack.1
  rw [Nat.mul_zero,Nat.add_zero,Nat.add_zero,or_flags (by omega) (by decide)] at program stack
  rw [program,stack,first]
  exact ⟨by omega,by omega,rfl⟩

/-- The entries behind the two overlays. -/
private def flatEntry (v : Process) (page : Nat) : Nat :=
  if above SIMPOS_PROGRAM_VIRTUAL_STACK_ADDRESS_END page < 16384 then
    v.stack + above SIMPOS_PROGRAM_VIRTUAL_STACK_ADDRESS_END page + 7
  else if above SIMPOS_PROGRAM_VIRTUAL_ADDRESS page < 4096 * ((v.size + 4095) / 4096) then
    v.ptr + above SIMPOS_PROGRAM_VIRTUAL_ADDRESS page + 7
  else page ||| 5

private theorem flatSpace_of_entries {directory : Nat} (flat : FlatBinary v) (fits : Fits v)
    (entries : ∀ page, page % 4096 = 0 → page < 4294967296 → paging_get m directory page = flatEntry v page) :
    FlatSpace m directory v := by
  obtain ⟨ptrFits,stackFits,round⟩ := fits
  have ptrAligned := flat.ptr.1
  have stackAligned := flat.stack.1
  have start := program_start
  have stop := stack_end
  constructor
  · intro i inside
    have apart : ¬ above SIMPOS_PROGRAM_VIRTUAL_STACK_ADDRESS_END (SIMPOS_PROGRAM_VIRTUAL_ADDRESS + 4096 * i) < 16384 := by
      intro near
      obtain ⟨j,few,same⟩ := @above_inside _ _ 4 rfl (by omega) (by omega) (by omega) near
      omega
    rw [entries _ (by omega) (by omega),flatEntry,if_neg apart,above_page (by omega),if_pos (by omega),
      or_flags (by omega) (by decide)]
  · intro i inside
    rw [entries _ (by omega) (by omega),flatEntry,above_page (by omega),if_pos (by omega),or_flags (by omega) (by decide)]
  · intro page aligned high notProgram notStack
    rw [entries page aligned high,flatEntry,if_neg,if_neg]
    · intro inside
      obtain ⟨i,few,same⟩ := above_inside rfl aligned high (by omega) inside
      exact notProgram i few same
    · intro inside
      obtain ⟨i,few,same⟩ := @above_inside _ _ 4 rfl aligned high (by omega) inside
      exact notStack i few same

/-- The samples of the entries when an overlay goes wrong. -/
private theorem flat_entries_round {page : Nat} (round : 0xFFC00000 < v.size) (zero : page = 0)
    (aligned : v.ptr % 4096 = 0) : flatEntry v page % 8 = 7 := by
  subst zero
  have apart : ¬ above SIMPOS_PROGRAM_VIRTUAL_STACK_ADDRESS_END 0 < 16384 := by decide
  have place : above SIMPOS_PROGRAM_VIRTUAL_ADDRESS 0 = 4290772992 := by decide
  rw [flatEntry,if_neg apart,place,if_pos (by omega)]
  omega

/-- A mapping leaves the word alone that names the directory. -/
theorem chunk_kept {m' : Bytes} {entry : Nat → Nat} (high : chunk + 4 ≤ 4294967296) (outside : Outside m chunk)
    (remapped : Remapped m m' (read32 m chunk) entry) : read32 m' chunk = read32 m chunk :=
  read32_congr high fun x low below => remapped.frame x (outside x low below)

/-- With both buffers mapped over the identity only the program can go wrong, when its pages go round to page 0. -/
private theorem both_overlays_iff {directory : Nat} (flat : FlatBinary v) (ptrFits : v.ptr + v.size ≤ 0xFFFFF000)
    (stackFits : v.stack + 16384 ≤ 0xFFFFF000)
    (entries : ∀ page, page % 4096 = 0 → page < 4294967296 → paging_get m directory page = flatEntry v page) :
    FlatSpace m directory v ↔ Fits v := by
  constructor
  · intro holds
    obtain ⟨_,_,first⟩ := holds.samples flat
    by_contra misfit
    have round : 0xFFC00000 < v.size := by
      unfold Fits at misfit
      omega
    have sample := flat_entries_round round rfl flat.ptr.1
    rw [← entries 0 rfl (by decide),first] at sample
    cases sample
  · exact fun fits => flatSpace_of_entries flat fits entries

/-- With the program alone mapped the stack is missing, or the program's pages lie over it and page 0. -/
private theorem program_overlay_misses {directory : Nat} (flat : FlatBinary v)
    (entries : ∀ page, page % 4096 = 0 → page < 4294967296 → paging_get m directory page =
      if above SIMPOS_PROGRAM_VIRTUAL_ADDRESS page < 4096 * ((v.size + 4095) / 4096) then
        v.ptr + above SIMPOS_PROGRAM_VIRTUAL_ADDRESS page + 7 else page ||| 5) : ¬ FlatSpace m directory v := by
  intro holds
  have aligned := flat.ptr.1
  obtain ⟨_,stack,first⟩ := holds.samples flat
  rw [entries _ rfl (by decide)] at stack first
  by_cases round : 0xFFC00000 < v.size
  · have place : above SIMPOS_PROGRAM_VIRTUAL_ADDRESS 0 = 4290772992 := by decide
    rw [place,if_pos (by omega)] at first
    omega
  · have place : above SIMPOS_PROGRAM_VIRTUAL_ADDRESS SIMPOS_PROGRAM_VIRTUAL_STACK_ADDRESS_END = 4294946816 := by decide
    rw [place,if_neg (by omega)] at stack
    exact absurd stack (by decide)

/-- With the program unmapped its first page is its own, whether the stack is mapped or not. -/
private theorem program_unmapped (flat : FlatBinary v) (high : chunk + 4 ≤ 4294967296)
    (space : AddressSpace m (read32 m chunk)) (outside : Outside m chunk)
    (identity : ∀ page, page % 4096 = 0 → page < 4294967296 → paging_get m (read32 m chunk) page = page ||| 5)
    {m' : Bytes} (stack : (paging_map_to m ⟨read32 m chunk⟩ SIMPOS_PROGRAM_VIRTUAL_STACK_ADDRESS_END v.stack
      (paging_align_address (offset v.stack SIMPOS_USER_PROGRAM_STACK_SIZE)) 7).2 = m') :
    paging_get m' (read32 m' chunk) SIMPOS_PROGRAM_VIRTUAL_ADDRESS = 0x400005 := by
  rcases overlay ⟨read32 m chunk⟩ SIMPOS_PROGRAM_VIRTUAL_STACK_ADDRESS_END SIMPOS_USER_PROGRAM_STACK_SIZE
      space rfl (by decide) flat.stack.1 flat.stack.2 (by decide) (by decide) with ⟨_,_,remapped⟩ | ⟨_,kept⟩
  · rw [stack] at remapped
    rw [chunk_kept high outside remapped,remapped.entries _ rfl (by decide),if_neg (by decide),identity _ rfl (by decide)]
    rfl
  · rw [kept] at stack
    subst stack
    rw [identity _ rfl (by decide)]
    rfl

/-- Mapping a flat binary over the identity gives its address space exactly when the buffers fit. -/
theorem map_flat_iff (flat : FlatBinary v) (high : chunk + 4 ≤ 4294967296) (space : AddressSpace m (read32 m chunk))
    (outside : Outside m chunk)
    (identity : ∀ page, page % 4096 = 0 → page < 4294967296 → paging_get m (read32 m chunk) page = page ||| 5) :
    FlatSpace (map_flat m chunk v) (read32 (map_flat m chunk v) chunk) v ↔ Fits v := by
  rw [map_flat]
  rcases overlay ⟨read32 m chunk⟩ SIMPOS_PROGRAM_VIRTUAL_ADDRESS v.size space rfl (by decide)
      flat.ptr.1 flat.ptr.2 flat.positive flat.size with ⟨ptrFits,result,remapped⟩ | ⟨wraps,kept⟩
  · generalize paging_map_to m ⟨read32 m chunk⟩ SIMPOS_PROGRAM_VIRTUAL_ADDRESS v.ptr
      (paging_align_address (offset v.ptr v.size)) 7 = mapped at result remapped
    obtain ⟨res,m₁⟩ := mapped
    dsimp only at result remapped ⊢
    have word := chunk_kept high outside remapped
    have program : ∀ page, page % 4096 = 0 → page < 4294967296 → paging_get m₁ (read32 m chunk) page =
        if above SIMPOS_PROGRAM_VIRTUAL_ADDRESS page < 4096 * ((v.size + 4095) / 4096) then
          v.ptr + above SIMPOS_PROGRAM_VIRTUAL_ADDRESS page + 7 else page ||| 5 := by
      intro page aligned below
      rw [remapped.entries page aligned below,identity page aligned below]
    rw [result,if_neg (Int.lt_irrefl 0),word]
    rcases overlay ⟨read32 m chunk⟩ SIMPOS_PROGRAM_VIRTUAL_STACK_ADDRESS_END SIMPOS_USER_PROGRAM_STACK_SIZE
        remapped.space rfl (by decide) flat.stack.1 flat.stack.2 (by decide)
        (by decide) with ⟨stackFits,_,remapped'⟩ | ⟨wraps,kept⟩
    · generalize (paging_map_to m₁ ⟨read32 m chunk⟩ SIMPOS_PROGRAM_VIRTUAL_STACK_ADDRESS_END v.stack
        (paging_align_address (offset v.stack SIMPOS_USER_PROGRAM_STACK_SIZE)) 7).2 = m₂ at remapped' ⊢
      rw [chunk_kept high outside (remapped.trans remapped')]
      refine both_overlays_iff flat ptrFits stackFits fun page aligned below => ?_
      rw [remapped'.entries page aligned below,program page aligned below]
      rfl
    · rw [kept,word]
      exact iff_of_false (program_overlay_misses flat program) fun fits => absurd fits.2.1 (Nat.not_le.mpr wraps)
  · refine iff_of_false (fun holds => ?_) fun fits => absurd fits.1 (Nat.not_le.mpr wraps)
    generalize paging_map_to m ⟨read32 m chunk⟩ SIMPOS_PROGRAM_VIRTUAL_ADDRESS v.ptr
      (paging_align_address (offset v.ptr v.size)) 7 = mapped at kept holds
    obtain ⟨res,m₁⟩ := mapped
    dsimp only at kept holds
    subst kept
    have program := (holds.samples flat).1
    by_cases failed : res < 0
    · rw [if_pos failed,identity _ rfl (by decide)] at program
      cases program
    · rw [if_neg failed,program_unmapped flat high space outside identity rfl] at program
      cases program

end

/-! ### The task of a flat binary -/

section
variable {φ : Type} {s t : World φ} {task process : Nat}

theorem task_init_success (init : task_init task process s = (0,t)) :
    ∃ chunk k, paging_new_4gb s.kernel 5 = (chunk,k) ∧ chunk ≠ 0 ∧ t.kernel = k ∧ t.process = s.process ∧
      (t.task task).page_directory = chunk ∧
      (t.task task).registers.esp = SIMPOS_PROGRAM_VIRTUAL_STACK_ADDRESS_START := by
  rw [task_init] at init
  split at init
  next chunk k made =>
  dsimp only at init
  by_cases null : chunk = 0
  · rw [if_pos null] at init
    have code : -Machine.EIO = 0 := congrArg Prod.fst init
    exact absurd code (by decide)
  · rw [if_neg null] at init
    have state := congrArg Prod.snd init
    dsimp only at state
    subst state
    refine ⟨chunk,k,made,null,rfl,rfl,?_,?_⟩
    · simp only [World.setTask,World.withKernel,Function.update_self]
    · simp only [World.setTask,World.withKernel,Function.update_self]

theorem process_map_memory_flat (t : World φ) (process : Nat) (filetype : (t.process process).filetype = .BINARY) :
    (process_map_memory process t).2.kernel.memory =
      map_flat t.kernel.memory (t.task (t.process process).task).page_directory (t.process process) ∧
    (process_map_memory process t).2.task = t.task := by
  obtain ⟨res,m,mapped⟩ : ∃ res m, paging_map_to t.kernel.memory
      (t.chunk (t.task (t.process process).task).page_directory) SIMPOS_PROGRAM_VIRTUAL_ADDRESS (t.process process).ptr
      (paging_align_address (offset (t.process process).ptr (t.process process).size)) 7 = (res,m) := ⟨_,_,rfl⟩
  have program : process_map_program process t = (res,t.withKernel { t.kernel with memory := m }) := by
    have flags : PAGING_IS_PRESENT ||| PAGING_ACCESS_FROM_ALL ||| PAGING_IS_WRITEABLE = 7 := rfl
    rw [process_map_program,filetype]
    simp only [process_map_binary,paging_map_chunk,flags,mapped]
  have flat : map_flat t.kernel.memory (t.task (t.process process).task).page_directory (t.process process) =
      if res < 0 then m else (paging_map_to m ⟨read32 m (t.task (t.process process).task).page_directory⟩
        SIMPOS_PROGRAM_VIRTUAL_STACK_ADDRESS_END (t.process process).stack
        (paging_align_address (offset (t.process process).stack SIMPOS_USER_PROGRAM_STACK_SIZE)) 7).2 := by
    rw [World.chunk] at mapped
    rw [map_flat,mapped]
  rw [process_map_memory,program,flat]
  dsimp only
  by_cases failed : res < 0
  · rw [if_pos failed,if_pos failed]
    exact ⟨rfl,rfl⟩
  · rw [if_neg failed,if_neg failed]
    exact ⟨rfl,rfl⟩

private theorem flat_space_iff {u : World φ} {live : List Extent} (laid : Laid s.kernel.kernel_heap live)
    (flat : FlatBinary (s.process process)) (init : task_init task process s = (0,t))
    (mapped : u = (process_map_memory process (t.setProcess process fun v => { v with task := task })).2) :
    (u.task task).registers.esp = SIMPOS_PROGRAM_VIRTUAL_STACK_ADDRESS_START ∧
    (FlatSpace u.kernel.memory (u.chunk (u.task task).page_directory).directory_entry (s.process process) ↔
      Fits (s.process process)) := by
  obtain ⟨chunk,k,made,success,rfl,processes,directory,esp⟩ := task_init_success init
  obtain ⟨tables,d,c,rfl,cLow,cHigh,created⟩ := paging_new_4gb_made laid made success
  have cPage := blockAddress_high cHigh
  obtain ⟨v,own⟩ : ∃ v, v = { s.process process with task := task } := ⟨_,rfl⟩
  have same : (t.setProcess process fun v => { v with task := task }).process process = v := by
    simp only [World.setProcess,Function.update_self,own,processes]
  have flatOwn : FlatBinary v := by
    rw [own]
    exact ⟨flat.filetype,flat.positive,flat.size,flat.ptr,flat.stack⟩
  obtain ⟨memory,tasks⟩ := process_map_memory_flat (t.setProcess process fun v => { v with task := task }) process
    (by rw [same]; exact flatOwn.filetype)
  have taskSame : (t.setProcess process fun v => { v with task := task }).task = t.task := rfl
  have kernel : (t.setProcess process fun v => { v with task := task }).kernel = t.kernel := rfl
  have ownTask : v.task = task := by rw [own]
  rw [← mapped,taskSame] at tasks
  rw [← mapped,same,ownTask,taskSame,kernel,directory] at memory
  have whole := map_flat_iff flatOwn (by omega) created.space.1 created.space.2 fun page aligned high =>
    paging_new_4gb_identity laid made success aligned high
  have spaceSame : ∀ m d, FlatSpace m d v ↔ FlatSpace m d (s.process process) := by
    intro m d
    rw [own]
    exact ⟨fun space => ⟨space.program,space.stack,space.others⟩,fun space => ⟨space.program,space.stack,space.others⟩⟩
  have fitsSame : Fits v ↔ Fits (s.process process) := by
    rw [own]
    exact Iff.rfl
  rw [spaceSame,fitsSame,← memory] at whole
  rw [tasks,World.chunk,directory]
  exact ⟨esp,whole⟩

/-- After `task_init` and `process_map_memory` a flat binary has its address space, with the stack
    pointer just behind the stack, exactly when its buffers end before the last page and its pages
    do not go round the address space. -/
theorem flat_binary_space_iff {u : World φ} {live : List Extent} (laid : Laid s.kernel.kernel_heap live)
    (flat : FlatBinary (s.process process)) (init : task_init task process s = (0,t))
    (mapped : u = (process_map_memory process (t.setProcess process fun v => { v with task := task })).2) :
    (FlatSpace u.kernel.memory (u.chunk (u.task task).page_directory).directory_entry (s.process process) ∧
      (u.task task).registers.esp = SIMPOS_PROGRAM_VIRTUAL_STACK_ADDRESS_END + SIMPOS_USER_PROGRAM_STACK_SIZE) ↔
    Fits (s.process process) := by
  obtain ⟨esp,space⟩ := flat_space_iff laid flat init mapped
  rw [esp]
  exact ⟨fun holds => space.mp holds.1,fun fits => ⟨space.mpr fits,rfl⟩⟩

theorem task_init_room (task process : Nat) {live : List Extent} (laid : Laid s.kernel.kernel_heap live)
    (room : 1026 ≤ freeBlocks s.kernel.kernel_heap) : ∃ t : World φ, task_init task process s = (0,t) := by
  obtain ⟨tables,d,c,k,made,_⟩ := paging_new_4gb_created laid room 5
  have nonnull : blockAddress c ≠ 0 := by have := blockAddress_pos c; omega
  rw [task_init]
  split
  next chunk k' same =>
  obtain ⟨rfl,rfl⟩ := Prod.mk.inj (same.symm.trans made)
  dsimp only
  rw [if_neg nonnull]
  exact ⟨_,rfl⟩

end

/-- A kernel just started with one process, whose binary of this size lies at the start of the heap. -/
def flatProcess (size : Nat) : Process := { Process.zero with
  filetype := .BINARY, ptr := 0x01000000, size := size, stack := 0x02000000 }
def flatWorld (size : Nat) : World Unit :=
  ⟨fun _ => 0,0,fun _ => flatProcess size,fun _ => .zero,⟨fun _ => ⟨0,0⟩,0,0,0⟩,fun _ => ⟨0,0,0,0,0⟩,(),
    ⟨fun _ => 0,kernel_heap_init fun _ => 0⟩⟩

private theorem flatWorld_laid (size : Nat) : Laid (flatWorld size).kernel.kernel_heap [] := kernel_heap_init_laid _
private theorem flatWorld_init (size : Nat) : ∃ t, task_init 0x03000000 0x04000000 (flatWorld size) = (0,t) := by
  refine task_init_room _ _ (flatWorld_laid size) ?_
  rw [freeBlocks_empty (flatWorld_laid size)]
  decide

theorem flat_binary_space_small : ∃ t u, task_init 0x03000000 0x04000000 (flatWorld 5000) = (0,t) ∧
    u = (process_map_memory 0x04000000 (t.setProcess 0x04000000 fun v => { v with task := 0x03000000 })).2 ∧
    FlatSpace u.kernel.memory (u.chunk (u.task 0x03000000).page_directory).directory_entry (flatProcess 5000) := by
  obtain ⟨t,init⟩ := flatWorld_init 5000
  have flat : FlatBinary (flatProcess 5000) := ⟨rfl,by decide,by decide,by decide,by decide⟩
  refine ⟨t,_,init,rfl,?_⟩
  exact ((flat_binary_space_iff (flatWorld_laid 5000) flat init rfl).mpr (by unfold Fits; decide)).1

/-- The end of a binary of 0xFF000000 bytes is rounded up to address 0, and nothing is mapped. -/
theorem flat_binary_space_wraps : ∃ t u, task_init 0x03000000 0x04000000 (flatWorld 0xFF000000) = (0,t) ∧
    FlatBinary (flatProcess 0xFF000000) ∧
    u = (process_map_memory 0x04000000 (t.setProcess 0x04000000 fun v => { v with task := 0x03000000 })).2 ∧
    ¬ FlatSpace u.kernel.memory (u.chunk (u.task 0x03000000).page_directory).directory_entry
      (flatProcess 0xFF000000) := by
  obtain ⟨t,init⟩ := flatWorld_init 0xFF000000
  have flat : FlatBinary (flatProcess 0xFF000000) := ⟨rfl,by decide,by decide,by decide,by decide⟩
  refine ⟨t,_,init,flat,rfl,fun holds => ?_⟩
  have fits : Fits (flatProcess 0xFF000000) := (flat_space_iff (flatWorld_laid _) flat init rfl).2.mp holds
  exact absurd fits.1 (by decide)

end SimpOS.FlatBinaries
