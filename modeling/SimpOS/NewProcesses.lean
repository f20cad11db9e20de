import SimpOS.LoadFrames

/-!
The address space of a process that has just been loaded. Its directory, its tables and its task get
blocks of their own, and mapping the program and the stack writes to the tables only.
-/
namespace SimpOS.NewProcesses
open SimpOS.Machine SimpOS.Strings SimpOS.Memory SimpOS.Extents SimpOS.Paging SimpOS.HeapBlocks SimpOS.HeapLayout SimpOS.KernelHeap
open SimpOS.AddressSpaces SimpOS.PageDirectories SimpOS.PageMapping SimpOS.ElfMapping SimpOS.Isolation SimpOS.FlatBinaries
open SimpOS.TaskMemory SimpOS.FatSystem SimpOS.Processes SimpOS.ProcessLoads SimpOS.LoadFrames

variable {φ : Type}

/-- An address below the heap or in a live extent. -/
abbrev Settled (live : List Extent) (x : Nat) : Prop := Guarded (fun _ => False) live x

section
variable {k k' : Kernel} {live : List Extent} {x : Nat}

theorem blockOf_inBlock {b : Int} (low : 0 ≤ b) : InBlock b x ↔ blockOf x = b := by
  unfold InBlock
  simp only [blockOf,blockAddress,SIMPOS_HEAP_ADDRESS,SIMPOS_HEAP_BLOCK_SIZE]
  omega

/-- A settled address is in no block that is free. -/
theorem settled_not_free {b : Int} (free : FreeAt live b) (settled : Settled live x) : ¬InBlock b x := by
  intro inside
  have block := (blockOf_inBlock free.low).mp inside
  rcases settled with ⟨below,_⟩ | covered
  · have low := inside.1
    simp only [blockAddress,SIMPOS_HEAP_ADDRESS] at low below
    omega
  · exact free.uncovered (block ▸ covered)

/-- A new directory is made in blocks that were free. -/
theorem paging_new_4gb_kept (laid : Laid k.kernel_heap live) (flags : UInt8) (made : (paging_new_4gb k flags).1 ≠ 0)
    (settled : Settled live x) : (paging_new_4gb k flags).2.memory x = k.memory x := by
  have room := paging_new_4gb_room laid flags made
  have small := flags.toNat_lt
  rcases kzalloc_single laid (by decide : 0 < 4 * PAGING_TOTAL_ENTRIES_PER_TABLE) (by decide) with
    ⟨full,_⟩ | ⟨d,k₁,granted,took⟩
  · omega
  have count := took.count
  have dPage := blockAddress_high took.free.high
  obtain ⟨n,entries⟩ : ∃ n, n = PAGING_TOTAL_ENTRIES_PER_TABLE := ⟨_,rfl⟩
  have thousand : n = 1024 := entries
  obtain ⟨tables,length,filled⟩ := paging_new_4gb_tables_filled took.free.low took.free.high small n
    (single d :: live) 0 0 k₁ took.laid (by omega) (by omega) (List.mem_cons_self ..)
  obtain ⟨k₂,filling⟩ : ∃ k₂, paging_new_4gb_tables (blockAddress d) flags.toNat n 0 0 k₁ = k₂ := ⟨_,rfl⟩
  rw [filling] at filled
  have count' := filled.count
  rcases kzalloc_single filled.laid (by decide : 0 < 4) (by decide) with ⟨full,_⟩ | ⟨c,k₃,granted',took'⟩
  · omega
  have cPage := blockAddress_high took'.free.high
  have inDirectory := settled_not_free took.free settled
  have settled₁ : Settled (single d :: live) x := settled.mono fun e member => List.mem_cons_of_mem _ member
  have settled₂ : Settled (tables.map single ++ single d :: live) x :=
    settled₁.mono fun e member => List.mem_append_right _ member
  have inChunk := settled_not_free took'.free settled₂
  rw [paging_new_4gb_eq granted,← entries,filling,paging_new_4gb_chunk,granted']
  dsimp only
  rw [write32_apply (by omega),if_neg fun written => inChunk ⟨written.1,by omega⟩,took'.frame x inChunk]
  rw [filled.frame x (fun words => inDirectory ⟨by omega,by omega⟩) fun t member =>
    settled_not_free (filled.table_free member) settled₁]
  exact took.frame x inDirectory

end

/-! ### A process with a directory of its own -/

/-- The chunk of a process's task, and the directory it points to. -/
def chunkOf (p : Nat) (s : World φ) : Nat := (s.task (s.process p).task).page_directory
def directoryOf (p : Nat) (s : World φ) : Nat := read32 s.kernel.memory (chunkOf p s)

/-- What translates the addresses of the process lies in extents that were there before the process took `more`, and
    its first slot is empty. -/
structure Housed (p : Nat) (fixed more : List Extent) (s : World φ) : Prop where
  laid : Laid s.kernel.kernel_heap (more ++ fixed)
  space : AddressSpace s.kernel.memory (directoryOf p s)
  inside : ∀ x, InSpace s.kernel.memory (directoryOf p s) x → Covered fixed (blockOf x)
  chunk : ∀ x, chunkOf p s ≤ x → x < chunkOf p s + 4 → Covered fixed (blockOf x)
  outside : Outside s.kernel.memory (chunkOf p s)
  high : chunkOf p s + 4 ≤ 4294967296
  empty : ((s.process p).allocations 0).ptr = 0

section
variable {s t u v : World φ} {p slot : Nat} {live : List Extent}

private theorem paging_map_chunk_kernel (s : World φ) (page_directory virt phys phys_end flags : Nat) :
    (paging_map_chunk s page_directory virt phys phys_end flags).2.kernel =
      ⟨(paging_map_to s.kernel.memory (s.chunk page_directory) virt phys phys_end flags).2,s.kernel.kernel_heap⟩ ∧
    (paging_map_chunk s page_directory virt phys phys_end flags).2.files = s.files := ⟨rfl,rfl⟩

/-- Mapping the program writes to the tables only. -/
private theorem process_map_program_remapped (bare : Bare (s.process p)) (space : AddressSpace s.kernel.memory (directoryOf p s)) :
    (∃ entry, Remapped s.kernel.memory (process_map_program p s).2.kernel.memory (directoryOf p s) entry) ∧
      (process_map_program p s).2.kernel.kernel_heap = s.kernel.kernel_heap ∧ (process_map_program p s).2.files = s.files ∧
      (process_map_program p s).2.process = s.process ∧ (process_map_program p s).2.task = s.task := by
  unfold process_map_program
  cases (s.process p).filetype with
  | ELF => exact ⟨⟨_,@process_map_elf_remapped ⟨directoryOf p s⟩ _ _ space⟩,rfl,rfl,rfl,rfl⟩
  | BINARY =>
    obtain ⟨entry,remapped⟩ := paging_map_to_remapped ⟨directoryOf p s⟩
      (paging_align_address (offset (s.process p).ptr (s.process p).size)) space (by decide : SIMPOS_PROGRAM_VIRTUAL_ADDRESS < _)
      bare.ptr (by decide : PAGING_IS_PRESENT ||| PAGING_ACCESS_FROM_ALL ||| PAGING_IS_WRITEABLE < _)
    exact ⟨⟨entry,remapped⟩,rfl,rfl,rfl,rfl⟩

/-- Mapping the program and the stack writes to the tables only. -/
private theorem process_map_memory_remapped (bare : Bare (s.process p)) (space : AddressSpace s.kernel.memory (directoryOf p s))
    (outside : Outside s.kernel.memory (chunkOf p s)) (high : chunkOf p s + 4 ≤ 4294967296) :
    (∃ entry, Remapped s.kernel.memory (process_map_memory p s).2.kernel.memory (directoryOf p s) entry) ∧
      (process_map_memory p s).2.kernel.kernel_heap = s.kernel.kernel_heap ∧ (process_map_memory p s).2.files = s.files := by
  obtain ⟨⟨entry,remapped⟩,heap,files,process,tasks⟩ := process_map_program_remapped bare space
  unfold process_map_memory
  generalize process_map_program p s = mapped at remapped heap files process tasks
  obtain ⟨res,t⟩ := mapped
  dsimp only at remapped heap files process tasks ⊢
  by_cases failed : res < 0
  · rw [if_pos failed]
    exact ⟨⟨entry,remapped⟩,heap,files⟩
  rw [if_neg failed]
  have chunk : chunkOf p t = chunkOf p s := by
    unfold chunkOf
    rw [process,tasks]
  have same : directoryOf p t = directoryOf p s := by
    unfold directoryOf
    rw [chunk]
    exact chunk_kept high outside remapped
  have space' : AddressSpace t.kernel.memory (directoryOf p t) := same ▸ remapped.space
  obtain ⟨entry',remapped'⟩ := paging_map_to_remapped ⟨directoryOf p t⟩
    (paging_align_address (offset (t.process p).stack SIMPOS_USER_PROGRAM_STACK_SIZE)) space'
    (by decide : SIMPOS_PROGRAM_VIRTUAL_STACK_ADDRESS_END < _) (process ▸ bare.stack)
    (by decide : PAGING_IS_PRESENT ||| PAGING_ACCESS_FROM_ALL ||| PAGING_IS_WRITEABLE < _)
  dsimp only at remapped'
  unfold process_map_stack
  dsimp only
  obtain ⟨kernel,rest⟩ := paging_map_chunk_kernel t (t.task (t.process p).task).page_directory
    SIMPOS_PROGRAM_VIRTUAL_STACK_ADDRESS_END (t.process p).stack
    (paging_align_address (offset (t.process p).stack SIMPOS_USER_PROGRAM_STACK_SIZE))
    (PAGING_IS_PRESENT ||| PAGING_ACCESS_FROM_ALL ||| PAGING_IS_WRITEABLE)
  rw [kernel,rest]
  rw [same] at remapped'
  have chunk' : t.chunk (t.task (t.process p).task).page_directory = ⟨directoryOf p s⟩ := by
    rw [← same]
    rfl
  rw [chunk']
  exact ⟨⟨entry',remapped.trans remapped'⟩,heap,files⟩

/-- The directory and the tables that were made lie in blocks of their own. -/
private theorem created_inside {k : Kernel} {tables : List Int} {d c : Int} (created : Created k live tables d c) {x : Nat} :
    (InTables k.memory (blockAddress d) x → ∃ b ∈ tables, InBlock b x) ∧
      (InSpace k.memory (blockAddress d) x → ∃ b ∈ tables ++ [d,c], InBlock b x) := by
  have tabled : InTables k.memory (blockAddress d) x → ∃ b ∈ tables, InBlock b x := by
    rintro ⟨i,inside,bounds⟩
    have found : tables[i]? = some (tables.get ⟨i,by rw [created.length]; exact inside⟩) := List.getElem?_eq_getElem _
    rw [created.table i _ found] at bounds
    exact ⟨_,List.mem_of_getElem? found,bounds⟩
  refine ⟨tabled,?_⟩
  rintro (inDirectory | inTables)
  · exact ⟨d,List.mem_append_right _ (List.mem_cons_self ..),inDirectory⟩
  · obtain ⟨b,member,inside⟩ := tabled inTables
    exact ⟨b,List.mem_append_left _ member,inside⟩

/-- The world y in which the memory of the process comes to be mapped: its directory leads every address to itself, and
    what was settled in s is as it was. -/
structure Mapping (p t slot : Nat) (filename : CString) (live : List Extent) (s y : World φ) (tables : List Int) (c' d c : Int) :
    Prop where
  record : y.process p = { s.process p with filename := filename.take (SIMPOS_MAX_PATH - 1), id := slot, task := t }
  files : y.files = s.files
  elf_file : y.elf_file = s.elf_file
  created : Created y.kernel (⟨c',1⟩ :: live) tables d c
  chunk : chunkOf p y = blockAddress c
  page : blockAddress c + 4096 ≤ 4294967296
  kept : ∀ x, Settled live x → y.kernel.memory x = s.kernel.memory x
  identity : ∀ page, page % 4096 = 0 → page < 4294967296 → paging_get y.kernel.memory (directoryOf p y) page = page ||| 5

/-- A process that gets its task gets its memory mapped. -/
theorem process_attach_mapping {t : Nat} (filename : CString) (p slot : Nat) (laid : Laid s.kernel.kernel_heap live)
    (room : TaskRoom s.kernel t) : ∃ y tables c' d c, process_attach filename p slot s = process_map_memory p y ∧
      Mapping p t slot filename live s y tables c' d c := by
  have high := kzalloc_lt s.kernel 64
  rw [room.task] at high
  obtain ⟨x,same⟩ : ∃ x, x = s.setProcess p fun v => { v with filename := filename.take (SIMPOS_MAX_PATH - 1), id := slot } :=
    ⟨_,rfl⟩
  have kernel : x.kernel = s.kernel := by
    rw [same]
    rfl
  have record : x.process p = { s.process p with filename := filename.take (SIMPOS_MAX_PATH - 1), id := slot } := by
    rw [same]
    simp only [World.setProcess,Function.update_self]
  obtain ⟨v,made,_,_,process,_,_,_,kernel',directory,elf_file,files⟩ := task_new_room (p := p) (s := x) (kernel ▸ room)
  rw [kernel] at kernel' directory
  rw [same] at made files elf_file
  have attach := process_attach_made made (i32_ne_zero room.some high)
  obtain ⟨y,named⟩ : ∃ y, y = v.setProcess p fun v => { v with task := t } := ⟨_,rfl⟩
  rw [← named] at attach
  have own : y.process p = { s.process p with filename := filename.take (SIMPOS_MAX_PATH - 1), id := slot, task := t } := by
    rw [named]
    simp only [World.setProcess,Function.update_self,process,record]
  have kernel_y : y.kernel = v.kernel := by
    rw [named]
    rfl
  have chunk_y : chunkOf p y = (v.task t).page_directory := by
    unfold chunkOf
    rw [own,named]
    rfl
  have task := room.task
  have success := room.directory
  rcases kzalloc_single laid (by decide : 0 < 64) (by decide) with ⟨_,refused⟩ | ⟨c',k₁,granted,took⟩
  · rw [refused] at task
    exact absurd task.symm room.some
  rw [granted] at kernel' directory success
  dsimp only at kernel' directory success
  obtain ⟨tables,d,c,pointer,low,below,created⟩ := paging_new_4gb_made took.laid Prod.mk.eta.symm success
  have identity := fun page aligned high => @paging_new_4gb_identity k₁ _ _ _ 5 took.laid Prod.mk.eta.symm success page aligned high
  have kept : ∀ x, Settled live x → (paging_new_4gb k₁ 5).2.memory x = s.kernel.memory x := fun x settled =>
    (paging_new_4gb_kept took.laid 5 success (settled.mono fun e member => List.mem_cons_of_mem _ member)).trans
      (took.frame _ (settled_not_free took.free settled))
  rw [← kernel',← kernel_y] at created kept identity
  rw [← directory,← chunk_y] at pointer identity
  have page := blockAddress_high below
  exact ⟨y,tables,c',d,c,attach,own,by rw [named]; exact files,by rw [named]; exact elf_file,created,pointer,by omega,kept,
    fun page aligned high => identity page aligned high⟩

/-- A process that gets its task has a directory of its own, and what was settled stays where it was. -/
theorem process_attach_housed {filename : CString} {t : Nat} (laid : Laid s.kernel.kernel_heap live) (room : TaskRoom s.kernel t)
    (bare : Bare (s.process p)) {res : Int} (attach : process_attach filename p slot s = (res,u)) :
    ∃ grabbed, Housed p (grabbed ++ live) [] u ∧ u.files = s.files ∧
      ∀ x, Settled live x → u.kernel.memory x = s.kernel.memory x ∧ ¬InTables u.kernel.memory (directoryOf p u) x := by
  obtain ⟨y,tables,c',d,c,maps,mapping⟩ := process_attach_mapping filename p slot laid room
  rw [maps] at attach
  have bare' : Bare (y.process p) := by
    rw [mapping.record]
    exact ⟨bare.ptr,bare.stack,bare.allocations⟩
  have created := mapping.created
  have pointer := mapping.chunk
  have page := mapping.page
  have kept := mapping.kept
  have space := created.space
  have named_directory : directoryOf p y = blockAddress d := by
    unfold directoryOf
    rw [pointer]
    exact created.directory
  rw [← pointer] at space
  obtain ⟨⟨entry,remapped⟩,heap,files'⟩ := process_map_memory_remapped bare' space.1 space.2 (by omega)
  have tables_same := (process_map_memory_same p y).1
  rw [attach] at remapped heap files' tables_same
  dsimp only at remapped heap files' tables_same
  have chunk_u : chunkOf p u = chunkOf p y := by
    unfold chunkOf
    rw [tables_same.process,tables_same.task]
  have directory_u : directoryOf p u = directoryOf p y := by
    unfold directoryOf
    rw [chunk_u]
    exact chunk_kept (by omega) space.2 remapped
  have inside := fun x => @created_inside _ _ _ _ _ created x
  rw [← named_directory] at inside
  have singles : ∀ {x : Nat} {b : Int}, b ∈ tables ++ [d,c] → InBlock b x →
      Covered ((tables ++ [d,c]).map single ++ [⟨c',1⟩] ++ live) (blockOf x) := by
    intro x b member inBlock
    have free := (laid_singles created.laid).2 b member
    refine ⟨single b,List.mem_append_left _ (List.mem_append_left _ (List.mem_map_of_mem member)),?_⟩
    exact mem_single.mpr ((blockOf_inBlock free.low).mp inBlock)
  refine ⟨(tables ++ [d,c]).map single ++ [⟨c',1⟩],⟨?_,?_,?_,?_,?_,?_,?_⟩,?_,?_⟩
  · rw [heap,List.nil_append,List.append_assoc]
    exact created.laid
  · rw [directory_u]
    exact remapped.space
  · intro x inSpace
    rw [directory_u,remapped.inSpace] at inSpace
    obtain ⟨b,member,inBlock⟩ := (inside x).2 inSpace
    exact singles member inBlock
  · intro x first last
    rw [chunk_u,pointer] at first last
    exact singles (List.mem_append_right _ (List.mem_cons_of_mem _ (List.mem_cons_self ..))) ⟨first,by omega⟩
  · intro x first last inTables
    rw [chunk_u] at first last
    change InTables u.kernel.memory (directoryOf p u) x at inTables
    rw [directory_u,remapped.inTables] at inTables
    exact space.2 x first last inTables
  · rw [chunk_u,pointer]
    omega
  · rw [tables_same.process]
    exact bare'.allocations 0
  · exact files'.trans mapping.files
  · intro x settled
    have apart : ¬InTables y.kernel.memory (directoryOf p y) x := by
      intro inTables
      obtain ⟨b,member,inBlock⟩ := (inside x).1 inTables
      have free := (laid_singles created.laid).2 b (List.mem_append_left _ member)
      exact settled_not_free free (settled.mono fun e member => List.mem_cons_of_mem _ member) inBlock
    refine ⟨(remapped.frame x apart).trans (kept x settled),?_⟩
    rw [directory_u,remapped.inTables]
    exact apart

end

/-! ### Writes beside it -/

/-- Where the process's pages lead an address. -/
def leads (p : Nat) (s : World φ) (v : Nat) : Nat := paging_get_physical_address s.kernel.memory (directoryOf p s) v

section
variable {s t : World φ} {p : Nat} {fixed more : List Extent}

theorem physical_eq (m : Bytes) (directory : Nat) {v : Nat} (high : v < 4294967296) :
    paging_get_physical_address m directory v = offset (paging_get m directory (v - v % 4096) &&& 0xfffff000) (v % 4096) := by
  have page : paging_align_to_lower_page v = v - v % 4096 := by
    unfold paging_align_to_lower_page
    rfl
  have difference : u32 ((v : Int) - (v - v % 4096 : Nat)) = v % 4096 := by
    unfold u32
    omega
  unfold paging_get_physical_address
  rw [page]
  dsimp only
  rw [difference]

/-- The bytes of an extent that was taken after the directory was made translate no address. -/
theorem Housed.apart (housed : Housed p fixed more s) {e : Extent} (member : e ∈ more) {x : Nat} (inside : blockOf x ∈ e) :
    ¬InSpace s.kernel.memory (directoryOf p s) x ∧ ¬(chunkOf p s ≤ x ∧ x < chunkOf p s + 4) := by
  have disjoint := (List.pairwise_append.mp housed.laid.layout.disjoint).2.2 e member
  constructor
  · intro inSpace
    obtain ⟨other,member',within⟩ := housed.inside x inSpace
    exact disjoint other member' _ inside within
  · intro inChunk
    obtain ⟨other,member',within⟩ := housed.chunk x inChunk.1 inChunk.2
    exact disjoint other member' _ inside within

/-- Writes that miss what translates the process's addresses. -/
theorem Housed.write (housed : Housed p fixed more s) (tables : t.process p = s.process p ∧ t.task = s.task)
    (heap : t.kernel.kernel_heap = s.kernel.kernel_heap)
    (same : ∀ x, InSpace s.kernel.memory (directoryOf p s) x ∨ (chunkOf p s ≤ x ∧ x < chunkOf p s + 4) →
      t.kernel.memory x = s.kernel.memory x) :
    Housed p fixed more t ∧ (∀ x, InTables t.kernel.memory (directoryOf p t) x ↔ InTables s.kernel.memory (directoryOf p s) x) ∧
      ∀ v, v < 4294967296 → leads p t v = leads p s v := by
  have chunk : chunkOf p t = chunkOf p s := by
    unfold chunkOf
    rw [tables.1,tables.2]
  have directory : directoryOf p t = directoryOf p s := by
    unfold directoryOf
    rw [chunk]
    exact read32_congr housed.high fun x low below => same x (.inr ⟨low,below⟩)
  have unchanged := housed.space.agree fun x inside => same x (.inl inside)
  have tabled : ∀ x, InTables t.kernel.memory (directoryOf p t) x ↔ InTables s.kernel.memory (directoryOf p s) x := by
    intro x
    rw [directory]
    refine exists_congr fun i => and_congr_right fun inside => ?_
    rw [pageTable,unchanged.words i inside,pageTable]
  refine ⟨⟨?_,?_,?_,?_,?_,?_,?_⟩,tabled,?_⟩
  · rw [heap]
    exact housed.laid
  · rw [directory]
    exact unchanged.space
  · intro x inside
    rw [directory,unchanged.inSpace] at inside
    exact housed.inside x inside
  · rw [chunk]
    exact housed.chunk
  · intro x low below inTables
    rw [chunk] at low below
    exact housed.outside x low below ((tabled x).mp inTables)
  · rw [chunk]
    exact housed.high
  · rw [tables.1]
    exact housed.empty
  · intro v high
    unfold leads
    rw [directory,physical_eq _ _ high,physical_eq _ _ high,unchanged.entries _ (by omega) (by omega)]

end

end SimpOS.NewProcesses
