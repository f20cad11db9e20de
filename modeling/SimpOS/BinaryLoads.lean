import SimpOS.HeapExhaustion
import SimpOS.ProcessLoads

/-!
Loading a program that is no ELF file while the heap has few live blocks. Where there is a free
slot every request is granted, so that the load succeeds, and none of its blocks is one that
was live before.
-/
namespace SimpOS.BinaryLoads
open SimpOS.Machine SimpOS.Memory SimpOS.Extents SimpOS.Strings SimpOS.Paging SimpOS.KernelHeap SimpOS.HeapBlocks SimpOS.HeapLayout
open SimpOS.HeapRuns SimpOS.HeapExhaustion SimpOS.PageDirectories SimpOS.AddressSpaces SimpOS.ElfLoader SimpOS.FatSystem
open SimpOS.Processes SimpOS.ProcessLoads

/-! ### Room in the heap -/

/-- The blocks of the live extents. -/
def taken (live : List Extent) : Nat := (live.map Extent.count).sum

/-- The address is that of a live block. -/
def Held (live : List Extent) (x : Nat) : Prop := ∃ b, Covered live b ∧ x = blockAddress b

section
variable {heap : Heap} {k : Kernel} {live : List Extent} {n size : Nat}

theorem taken_cons (e : Extent) (live : List Extent) : taken (e :: live) = e.count + taken live := by
  rw [taken,taken,List.map_cons,List.sum_cons]
theorem taken_append (first second : List Extent) : taken (first ++ second) = taken first + taken second := by
  rw [taken,taken,taken,List.map_append,List.sum_append]
theorem taken_singles (blocks : List Int) : taken (blocks.map single) = blocks.length := by
  induction blocks with
  | nil => rfl
  | cons b blocks ih => rw [List.map_cons,taken_cons,ih,List.length_cons,Nat.add_comm,single]

theorem freeAt_not_held {b : Int} (laid : Laid heap live) (free : FreeAt live b) : ¬Held live (blockAddress b) := by
  rintro ⟨a,covered,same⟩
  obtain ⟨e,member,inside⟩ := covered
  have low := laid.first_nonneg member
  rw [mem_def] at inside
  rw [blockAddress_inj free.low (by omega)] at same
  subst same
  exact free.uncovered ⟨e,member,mem_def.mpr inside⟩

theorem held_cons (live : List Extent) {b : Int} (positive : 0 < n) : Held (⟨b,n⟩ :: live) (blockAddress b) :=
  ⟨b,⟨⟨b,n⟩,List.mem_cons_self,mem_mk.mpr (by omega)⟩,rfl⟩

theorem Held.mono {live' : List Extent} {x : Nat} (held : Held live x) (more : ∀ e ∈ live, e ∈ live') : Held live' x := by
  obtain ⟨b,⟨e,member,inside⟩,same⟩ := held
  exact ⟨b,⟨e,more e member,inside⟩,same⟩

/-- The table has 25600 / n places of n blocks, and a live block is in one of them at most: where
    fewer blocks are live, one of the places is free. -/
theorem free_run_of_few (laid : Laid heap live) (positive : 0 < n) (few : taken live < 25600 / n) : ∃ a, FreeRun heap n a := by
  by_contra none
  have total := laid.total_eq
  have hit : Set.SurjOn (fun i : Nat => i / n) ((Finset.range 25600).filter fun i => Covered live (i : Nat))
      (Finset.range (25600 / n)) := by
    intro j inside
    rw [Finset.mem_coe,Finset.mem_range] at inside
    have last : n * (j + 1) ≤ 25600 := (Nat.mul_le_mul_left n inside).trans (Nat.mul_div_le 25600 n)
    rw [Nat.mul_succ] at last
    by_contra missed
    refine none ⟨(n * j : Nat),by omega,by omega,fun i within => ?_⟩
    rw [mem_mk] at within
    refine (freeBlock_iff laid.layout (by omega) (by omega)).mpr fun covered => missed ⟨i.toNat,?_,?_⟩
    · rw [Finset.mem_coe,Finset.mem_filter,Finset.mem_range,Int.toNat_of_nonneg (by omega)]
      exact ⟨by omega,covered⟩
    · exact Nat.div_eq_of_lt_le (by rw [Nat.mul_comm]; omega) (by rw [Nat.mul_comm,Nat.mul_succ]; omega)
  have places := Finset.card_le_card_of_surjOn _ hit
  have blocks := covered_card live 25600
  rw [Finset.card_range] at places
  unfold taken at few
  omega

/-- With few live blocks a request is granted. -/
theorem kzalloc_few (size : Nat) (laid : Laid k.kernel_heap live) (low : 1 ≤ size) (high : size ≤ 0xFFFFF000)
    (few : taken live < 25600 / blocks size) :
    ∃ b k', KernelHeap.kzalloc k size = (blockAddress b,k') ∧ FreeAt live b ∧ b + blocks size ≤ 25600 ∧
      Laid k'.kernel_heap (⟨b,blocks size⟩ :: live) := by
  have positive : 0 < blocks size := by unfold blocks; omega
  have total := laid.total_eq
  have run := free_run_of_few laid positive few
  rcases heap_malloc_kernel laid size with ⟨_,refused⟩ | ⟨b,search,free,granted,laid'⟩
  · rcases @heap_malloc_cases k.kernel_heap size low high with ⟨b,first,result⟩ | ⟨none,_⟩ | ⟨none,_⟩
    · have address := heap_block_to_address_kernel laid.start_address first.1.1 (by have := first.1.2.1; omega)
      have pointer := blockAddress_pos b
      rw [refused,address] at result
      have null := congrArg Prod.fst result
      dsimp only at null
      omega
    · exact absurd run none
    · exact absurd run none
  · have none : requestBlocks size ≠ 0 := by rw [requestBlocks_eq high]; omega
    rw [withGranted,if_neg none] at laid'
    have pointer : blockAddress b ≠ 0 := (blockAddress_pos b).ne'
    rw [requestBlocks_eq high] at granted laid' search
    refine ⟨b,⟨memset k.memory (blockAddress b) 0x00 size,heap_mark_blocks_taken k.kernel_heap b (blocks size)⟩,?_,free,?_,laid'⟩
    · rw [KernelHeap.kzalloc,kmalloc,granted]
      exact if_neg pointer
    · obtain ⟨a,run⟩ := run
      have start := heap_get_start_block_correct k.kernel_heap (blocks size)
      rw [search] at start
      cases start with
      | run _ found _ => have := found.2.1; omega
      | tail _ _ _ noRun => exact absurd run (noRun positive a)
      | full _ noRun => exact absurd run (noRun positive a)

end

/-! ### The program's data -/

/-- A file that can be read and is no ELF file; the heap is as before when it has been read. -/
structure BinaryFile {φ : Type} (services : FileServices φ) (filename : CString) (size : Nat) : Prop where
  opens : ∀ files k, ∃ fd files', 0 < fd ∧ services.fopen filename [114] files k = .ok (fd,files',k)
  stat : ∀ fd files k, 0 < fd → ∃ files', services.fstat fd files k = .ok ((0,size),files',k)
  reads : ∀ ptr fd files k, 0 < fd → ptr + size ≤ 4294967296 → ∃ files' memory,
    services.fread ptr size 1 fd files k = .ok (1,files',⟨memory,k.kernel_heap⟩) ∧ elf_validate_loaded memory ptr = -EINFORMAT
  closes : ∀ fd files k, 0 < fd → ∃ res files', services.fclose fd files k = .ok (res,files',k)

section
variable {φ : Type} {services : FileServices φ} {filename : CString} {size : Nat} {s : World φ} {p : Nat} {live : List Extent}

/-- The process p has a binary of the given size in blocks of the heap. -/
structure HasBinary (p size : Nat) (v : World φ) : Prop where
  filetype : (v.process p).filetype = .BINARY
  size_eq : (v.process p).size = size
  ptr : ∃ b : Int, 0 ≤ b ∧ b + blocks size ≤ 25600 ∧ (v.process p).ptr = blockAddress b

/-- Besides the file layer's state, the kernel is the given one and nothing has changed. -/
private structure Filed (k : Kernel) (s u : World φ) : Prop where
  kernel : u.kernel = k
  elf_file : u.elf_file = s.elf_file
  process : u.process = s.process

private theorem onFiles_ok {α : Type} {call : φ → Kernel → Except Stop (α × φ × Kernel)} {result : α} {files : φ} {k : Kernel}
    (answer : call s.files s.kernel = .ok (result,files,k)) : ∃ u, s.onFiles call = .ok (result,u) ∧ Filed k s u := by
  refine ⟨{ s with files := files, kernel := k },?_,rfl,rfl,rfl⟩
  rw [World.onFiles,answer]
  rfl

private theorem world_kzalloc (size : Nat) (laid : Laid s.kernel.kernel_heap live) (low : 1 ≤ size) (high : size ≤ 0xFFFFF000)
    (few : taken live < 25600 / blocks size) : ∃ b u, s.kzalloc size = (blockAddress b,u) ∧ FreeAt live b ∧
      b + blocks size ≤ 25600 ∧ Laid u.kernel.kernel_heap (⟨b,blocks size⟩ :: live) ∧ Filed u.kernel s u := by
  obtain ⟨b,k,granted,free,fits,laid⟩ := kzalloc_few size laid low high few
  refine ⟨b,s.withKernel k,?_,free,fits,laid,rfl,rfl,rfl⟩
  rw [World.kzalloc,granted]
  rfl

private theorem kfree_laid {b : Int} {n : Nat} (laid : Laid s.kernel.kernel_heap (⟨b,n⟩ :: live)) :
    Laid (s.kfree (blockAddress b)).kernel.kernel_heap live := heap_free_perm (e := ⟨b,n⟩) laid (List.Perm.refl _)

/-- The bytes of a granted request have addresses. -/
private theorem granted_high {b : Int} (low : 0 ≤ b) (fits : b + blocks size ≤ 25600) : blockAddress b + size ≤ 4294967296 := by
  unfold blocks at fits
  simp only [blockAddress,SIMPOS_HEAP_ADDRESS]
  omega

section
variable (file : BinaryFile services filename size) (low : 1 ≤ size) (high : size ≤ 0xFFFFF000)
include file low high

/-- The file is read and then refused. -/
private theorem elf_load_file_binary (laid : Laid s.kernel.kernel_heap live) (few : taken live < 25600 / blocks size)
    (elf_file : Nat) {fd : Int} (opened : 0 < fd) :
    ∃ w b, elf_load_file services elf_file size fd s = .ok (-EINFORMAT,w) ∧ (w.elf_file elf_file).elf_memory = blockAddress b ∧
      Laid w.kernel.kernel_heap (⟨b,blocks size⟩ :: live) ∧ w.process = s.process := by
  obtain ⟨b,u,granted,free,fits,laid,filed⟩ := world_kzalloc size laid low high few
  unfold elf_load_file
  rw [granted]
  dsimp only
  obtain ⟨elf,same⟩ : ∃ elf, elf = u.setElf elf_file fun v => { v with elf_memory := blockAddress b } := ⟨_,rfl⟩
  rw [← same]
  have memory : (elf.elf_file elf_file).elf_memory = blockAddress b := by
    rw [same]
    simp only [World.setElf,Function.update_self]
  have process : elf.process = s.process := by
    rw [same]
    exact filed.process
  have heap : elf.kernel = u.kernel := by rw [same]; rfl
  rw [← heap] at laid
  obtain ⟨files,bytes,read,refused⟩ := file.reads (blockAddress b) fd elf.files elf.kernel opened (granted_high free.low fits)
  obtain ⟨v,read,after⟩ := onFiles_ok read
  rw [bind_of_ok _ read]
  dsimp only
  rw [if_neg (by decide)]
  have kernel : v.kernel.memory = bytes := by rw [after.kernel]
  have own : (v.elf_file elf_file).elf_memory = blockAddress b := by rw [after.elf_file,memory]
  have checked : elf_process_loaded v.kernel.memory (v.elf_file elf_file) = (-EINFORMAT,v.elf_file elf_file) := by
    unfold elf_process_loaded
    rw [kernel,show elf_header (v.elf_file elf_file) = blockAddress b from own,refused]
    rfl
  rw [checked]
  refine ⟨_,b,rfl,?_,?_,after.process.trans process⟩
  · simp only [World.setElf,Function.update_self]
    exact own
  · rw [show (v.setElf elf_file fun _ => v.elf_file elf_file).kernel = v.kernel from rfl,after.kernel]
    exact laid

private theorem elf_load_opened_binary (laid : Laid s.kernel.kernel_heap live) (few : taken live < 25600 / blocks size)
    (elf_file : Nat) {fd : Int} (opened : 0 < fd) :
    ∃ w b, elf_load_opened services elf_file fd s = .ok (-EINFORMAT,w) ∧ (w.elf_file elf_file).elf_memory = blockAddress b ∧
      Laid w.kernel.kernel_heap (⟨b,blocks size⟩ :: live) ∧ w.process = s.process := by
  obtain ⟨files,answer⟩ := file.stat fd s.files s.kernel opened
  obtain ⟨u,stat,filed⟩ := onFiles_ok answer
  unfold elf_load_opened
  rw [bind_of_ok _ stat]
  dsimp only
  rw [if_neg (by decide)]
  rw [← filed.kernel] at laid
  obtain ⟨w,b,result,memory,laid,process⟩ := elf_load_file_binary file low high laid few elf_file opened
  exact ⟨w,b,result,memory,laid,process.trans filed.process⟩

/-- The file is refused as an ELF file, with its two blocks given back. -/
theorem elf_load_binary (laid : Laid s.kernel.kernel_heap live) (few : taken live + 1 < 25600 / max 1 (blocks size)) :
    ∃ w, elf_load services filename s = .ok (-EINFORMAT,0,w) ∧ Laid w.kernel.kernel_heap live ∧ w.process = s.process := by
  have one : taken live < 25600 / blocks 132 := by
    have := few.trans_le (Nat.div_le_div_left (le_max_left 1 (blocks size)) (by decide))
    rw [show blocks 132 = 1 by decide]
    omega
  obtain ⟨a,u,granted,free,_,laid₁,filed⟩ := world_kzalloc 132 laid (by decide) (by decide) one
  rw [show blocks 132 = 1 by decide] at laid₁
  have few₁ : taken (⟨a,1⟩ :: live) < 25600 / blocks size := by
    rw [taken_cons,Nat.add_comm]
    exact few.trans_le (Nat.div_le_div_left (le_max_right 1 (blocks size)) (by unfold blocks; omega))
  unfold elf_load
  rw [granted]
  dsimp only
  rw [if_pos (blockAddress_pos a).ne']
  obtain ⟨elf,same⟩ : ∃ elf, elf = u.setElf (blockAddress a) fun _ => ⟨0,0,0,0,0⟩ := ⟨_,rfl⟩
  rw [← same]
  have process : elf.process = s.process := by rw [same]; exact filed.process
  have heap : elf.kernel = u.kernel := by rw [same]; rfl
  rw [← heap] at laid₁
  obtain ⟨fd,files,opened,answer⟩ := file.opens elf.files elf.kernel
  obtain ⟨v,opening,after⟩ := onFiles_ok answer
  rw [bind_of_ok _ opening]
  dsimp only
  rw [if_neg (by omega)]
  rw [← after.kernel] at laid₁
  obtain ⟨x,b,loaded,memory,laid₂,process₂⟩ := elf_load_opened_binary file low high laid₁ few₁ (blockAddress a) opened
  rw [bind_of_ok _ loaded]
  dsimp only
  rw [if_pos (by decide),if_pos (by decide)]
  have freed : Laid (elf_file_free (blockAddress a) x).kernel.kernel_heap live := by
    unfold elf_file_free
    rw [memory,if_pos (blockAddress_pos b).ne']
    exact kfree_laid (kfree_laid laid₂)
  have kept : (elf_file_free (blockAddress a) x).process = x.process := by
    unfold elf_file_free
    dsimp only
    split_ifs
    · rfl
    · rfl
  generalize elf_file_free (blockAddress a) x = y at freed kept
  obtain ⟨closed,files,answer⟩ := file.closes fd y.files y.kernel opened
  obtain ⟨w,closing,last⟩ := onFiles_ok answer
  rw [bind_of_ok _ closing]
  refine ⟨w,rfl,?_,?_⟩
  · rw [last.kernel]
    exact freed
  · rw [last.process,kept,process₂,after.process,process]

/-- The program's data is read into a block of its own. -/
private theorem process_load_binary_binary (laid : Laid s.kernel.kernel_heap live) (few : taken live < 25600 / blocks size) :
    ∃ (w : World φ) (b : Int), process_load_binary services filename p s = .ok (0,w) ∧ 0 ≤ b ∧ b + blocks size ≤ 25600 ∧
      (w.process p).filetype = .BINARY ∧ (w.process p).size = size ∧ (w.process p).ptr = blockAddress b ∧
      Laid w.kernel.kernel_heap (⟨b,blocks size⟩ :: live) := by
  obtain ⟨fd,files,opened,answer⟩ := file.opens s.files s.kernel
  obtain ⟨v,opening,after⟩ := onFiles_ok answer
  unfold process_load_binary
  rw [bind_of_ok _ opening]
  dsimp only
  rw [if_neg (by omega)]
  rw [← after.kernel] at laid
  obtain ⟨files,answer⟩ := file.stat fd v.files v.kernel opened
  obtain ⟨u,stat,filed⟩ := onFiles_ok answer
  rw [bind_of_ok _ stat]
  dsimp only
  rw [if_neg (not_not.mpr rfl)]
  rw [← filed.kernel] at laid
  obtain ⟨b,x,granted,free,fits,laid,_⟩ := world_kzalloc size laid low high few
  rw [granted]
  dsimp only
  rw [if_neg (blockAddress_pos b).ne']
  obtain ⟨files,bytes,answer,_⟩ := file.reads (blockAddress b) fd x.files x.kernel opened (granted_high free.low fits)
  obtain ⟨y,read,filed⟩ := onFiles_ok answer
  rw [bind_of_ok _ read]
  dsimp only
  rw [if_neg (not_not.mpr rfl)]
  obtain ⟨z,same⟩ : ∃ z, z = y.setProcess p fun v => { v with filetype := .BINARY, ptr := blockAddress b, size := size } := ⟨_,rfl⟩
  rw [← same]
  have own : z.process p = { y.process p with filetype := .BINARY, ptr := blockAddress b, size := size } := by
    rw [same]
    simp only [World.setProcess,Function.update_self]
  have kernel : z.kernel.kernel_heap = x.kernel.kernel_heap := by
    rw [same,show (y.setProcess p _).kernel = y.kernel from rfl,filed.kernel]
  obtain ⟨closed,files,answer⟩ := file.closes fd z.files z.kernel opened
  obtain ⟨w,closing,last⟩ := onFiles_ok answer
  rw [bind_of_ok _ closing]
  refine ⟨w,b,rfl,free.low,fits,?_,?_,?_,?_⟩
  · rw [last.process,own]
  · rw [last.process,own]
  · rw [last.process,own]
  · rw [last.kernel,kernel]
    exact laid

/-- The binary and its stack get their blocks. -/
theorem process_prepare_binary (laid : Laid s.kernel.kernel_heap live)
    (few : taken live + blocks size + 1 < 25600 / max 4 (blocks size)) :
    ∃ w data stack, process_prepare services filename p s = .ok (0,w) ∧ HasBinary p size w ∧
      Laid w.kernel.kernel_heap (⟨stack,4⟩ :: ⟨data,blocks size⟩ :: live) := by
  have positive : 0 < blocks size := by unfold blocks; omega
  have most : 25600 / max 4 (blocks size) ≤ 25600 / max 1 (blocks size) :=
    Nat.div_le_div_left (max_le_max_right _ (by decide)) (by omega)
  have most' : 25600 / max 4 (blocks size) ≤ 25600 / blocks size := Nat.div_le_div_left (le_max_right _ _) positive
  have most'' : 25600 / max 4 (blocks size) ≤ 25600 / 4 := Nat.div_le_div_left (le_max_left _ _) (by decide)
  obtain ⟨u,refused,laid,_⟩ := elf_load_binary file low high laid (by omega)
  obtain ⟨v,data,loaded,start,fits,filetype,size_eq,ptr,laid⟩ := process_load_binary_binary (p := p) file low high laid (by omega)
  have stacked : taken (⟨data,blocks size⟩ :: live) < 25600 / blocks SIMPOS_USER_PROGRAM_STACK_SIZE := by
    rw [taken_cons,show blocks SIMPOS_USER_PROGRAM_STACK_SIZE = 4 by decide]
    dsimp only
    omega
  obtain ⟨stack,w,granted,free,_,laid,filed⟩ := world_kzalloc SIMPOS_USER_PROGRAM_STACK_SIZE laid (by decide) (by decide) stacked
  have program : process_load_data services filename p s = .ok (0,v) := by
    have elf : process_load_elf services filename p s = .ok (-EINFORMAT,u) := by
      unfold process_load_elf
      rw [bind_of_ok _ refused]
      rfl
    unfold process_load_data
    rw [bind_of_ok _ elf]
    exact loaded
  refine ⟨w.setProcess p fun v => { v with stack := blockAddress stack },data,stack,?_,?_,laid⟩
  · unfold process_prepare
    rw [bind_of_ok _ program]
    dsimp only
    rw [if_neg (by decide),granted]
    exact if_neg (blockAddress_pos stack).ne'
  · have own : (w.setProcess p fun v => { v with stack := blockAddress stack }).process p =
        { v.process p with stack := blockAddress stack } := by
      simp only [World.setProcess,Function.update_self,filed.process]
    refine ⟨?_,?_,data,start,fits,?_⟩
    · rw [own]
      exact filetype
    · rw [own]
      exact size_eq
    · rw [own]
      exact ptr

end

/-! ### The task -/

/-- With few live blocks a task gets its blocks. -/
theorem task_room_few {k : Kernel} (laid : Laid k.kernel_heap live) (few : taken live + 1027 ≤ 25600) :
    ∃ t live', FreeAt live t ∧ TaskRoom k (blockAddress t) ∧
      Laid (paging_new_4gb (KernelHeap.kzalloc k 64).2 5).2.kernel_heap live' ∧ taken live' = taken live + 1027 ∧
      ∀ e ∈ ⟨t,1⟩ :: live, e ∈ live' := by
  obtain ⟨t,k₁,granted,free,_,laid₁⟩ := kzalloc_few 64 laid (by decide) (by decide)
    (by rw [show blocks 64 = 1 by decide]; omega)
  rw [show blocks 64 = 1 by decide] at laid₁
  have room := freeBlocks_least laid₁
  rw [show ((⟨t,1⟩ :: live).map Extent.count).sum = taken (⟨t,1⟩ :: live) from rfl,taken_cons] at room
  dsimp only at room
  obtain ⟨tables,d,c,k₂,made,created⟩ := paging_new_4gb_created laid₁ (by omega) 5
  refine ⟨t,(tables ++ [d,c]).map single ++ ⟨t,1⟩ :: live,free,⟨?_,(blockAddress_pos t).ne',?_⟩,?_,?_,
    fun e member => List.mem_append_right _ member⟩
  · rw [granted]
  · rw [granted,made]
    exact (blockAddress_pos c).ne'
  · rw [granted,made]
    exact created.laid
  · rw [taken_append,taken_singles,taken_cons,List.length_append,created.length]
    dsimp only [List.length]
    omega

private theorem paging_map_chunk_heap (s : World φ) (page_directory virt phys phys_end flags : Nat) :
    (paging_map_chunk s page_directory virt phys phys_end flags).2.kernel.kernel_heap = s.kernel.kernel_heap := rfl

/-- The pages of a binary can be mapped: it starts at a page, and its last page has an end. -/
private theorem binary_mappable (binary : HasBinary p size s) (positive : 0 < size) :
    Mappable SIMPOS_PROGRAM_VIRTUAL_ADDRESS (s.process p).ptr (paging_align_address (offset (s.process p).ptr (s.process p).size)) := by
  obtain ⟨b,low,fits,ptr⟩ := binary.ptr
  have aligned := blockAddress_aligned b
  have high : blockAddress b + 4096 * blocks size ≤ 4294967296 - 4096 := by
    simp only [blockAddress,SIMPOS_HEAP_ADDRESS]
    omega
  have whole : size ≤ 4096 * blocks size := by unfold blocks; omega
  rw [binary.size_eq,ptr,offset_of_lt (by omega)]
  unfold paging_align_address u32
  simp only [PAGING_PAGE_SIZE]
  refine ⟨by decide,aligned,?_,?_⟩
  · split_ifs <;> omega
  · split_ifs <;> omega

private theorem paging_map_chunk_mappable {virt phys phys_end : Nat} (s : World φ) (page_directory flags : Nat)
    (accepted : Mappable virt phys phys_end) : (paging_map_chunk s page_directory virt phys phys_end flags).1 = 0 := by
  have result := paging_map_to_result s.kernel.memory (s.chunk page_directory) flags accepted
  unfold paging_map_chunk
  generalize paging_map_to s.kernel.memory (s.chunk page_directory) virt phys phys_end flags = answer at result ⊢
  exact result

/-- A binary is mapped, and the heap stays. -/
private theorem process_map_memory_binary (binary : HasBinary p size s) (positive : 0 < size) :
    (process_map_memory p s).1 = 0 ∧ (process_map_memory p s).2.kernel.kernel_heap = s.kernel.kernel_heap := by
  have mapped : (process_map_program p s).1 = 0 ∧ (process_map_program p s).2.kernel.kernel_heap = s.kernel.kernel_heap := by
    unfold process_map_program
    rw [binary.filetype]
    unfold process_map_binary
    exact ⟨paging_map_chunk_mappable s _ _ (binary_mappable binary positive),paging_map_chunk_heap ..⟩
  unfold process_map_memory
  generalize process_map_program p s = answer at mapped ⊢
  obtain ⟨res,t⟩ := answer
  obtain ⟨zero,heap⟩ := mapped
  dsimp only at zero heap ⊢
  rw [if_neg (by omega)]
  refine ⟨zero,?_⟩
  unfold process_map_stack
  rw [paging_map_chunk_heap]
  exact heap

/-- With few live blocks a binary gets its task, and is mapped. -/
private theorem process_attach_binary (filename : CString) (slot : Nat) (binary : HasBinary p size s) (positive : 0 < size)
    (laid : Laid s.kernel.kernel_heap live) (few : taken live + 1027 ≤ 25600) :
    ∃ t u live', FreeAt live t ∧ TaskRoom s.kernel (blockAddress t) ∧ process_attach filename p slot s = (0,u) ∧
      Attached p (blockAddress t) slot s u ∧ (u.process p).filetype = .BINARY ∧ Laid u.kernel.kernel_heap live' ∧
      taken live' = taken live + 1027 ∧ ∀ e ∈ ⟨t,1⟩ :: live, e ∈ live' := by
  obtain ⟨t,live',free,room,laid',count,more⟩ := task_room_few laid few
  have attached : Attached p (blockAddress t) slot s (process_attach filename p slot s).2 := (process_attach_room room).1
  have high := kzalloc_lt s.kernel 64
  rw [room.task] at high
  obtain ⟨x,same⟩ : ∃ x, x = s.setProcess p fun v => { v with filename := filename.take (SIMPOS_MAX_PATH - 1), id := slot } :=
    ⟨_,rfl⟩
  have heap : x.kernel = s.kernel := by
    rw [same]
    rfl
  have records : x.process p = { s.process p with filename := filename.take (SIMPOS_MAX_PATH - 1), id := slot } := by
    rw [same]
    simp only [World.setProcess,Function.update_self]
  obtain ⟨v,made,_,_,process,_,_,_,kernel,_⟩ := task_new_room (p := p) (s := x) (heap ▸ room)
  rw [heap] at kernel
  rw [same] at made
  have result := process_attach_made made (i32_ne_zero room.some high)
  have own : HasBinary p size (v.setProcess p fun v => { v with task := blockAddress t }) := by
    have same : (v.setProcess p fun v => { v with task := blockAddress t }).process p =
        { s.process p with filename := filename.take (SIMPOS_MAX_PATH - 1), id := slot, task := blockAddress t } := by
      simp only [World.setProcess,Function.update_self,process,records]
    refine ⟨?_,?_,?_⟩
    · rw [same]
      exact binary.filetype
    · rw [same]
      exact binary.size_eq
    · rw [same]
      exact binary.ptr
  obtain ⟨zero,heap⟩ := process_map_memory_binary own positive
  have kept := (process_map_memory_same p (v.setProcess p fun v => { v with task := blockAddress t })).1.process
  rw [result] at attached
  generalize process_map_memory p (v.setProcess p fun v => { v with task := blockAddress t }) = mapped at *
  obtain ⟨res,u⟩ := mapped
  dsimp only at zero heap attached kept
  subst zero
  refine ⟨t,u,live',free,room,result,attached,by rw [kept]; exact own.filetype,?_,count,more⟩
  rw [heap]
  change Laid v.kernel.kernel_heap live'
  rw [kernel]
  exact laid'

/-! ### The load -/

/-- A load that succeeds with blocks that were free before, and the extents that are live then. -/
structure LoadedFresh (services : FileServices φ) (filename : CString) (live live' : List Extent) (p t slot : Nat) (s w : World φ) :
    Prop where
  ran : process_load services filename s = .ok (0,p,w)
  block : process_block s = p
  some : p ≠ 0
  granted : TaskGranted services filename s (· = t)
  loaded : Loaded p t slot s w
  binary : (w.process p).filetype = .BINARY
  process : ¬Held live p
  task : ¬Held live t
  apart : p ≠ t
  held : Held live' p ∧ Held live' t ∧ ∀ x, Held live x → Held live' x
  laid : Laid w.kernel.kernel_heap live'

private theorem load_for_slot_ok {slot t : Nat} {s₁ v u : World φ} (block : s.kzalloc 9364 = (p,s₁)) (some : p ≠ 0)
    (first : FirstFree s.processes slot)
    (prepared : process_prepare services filename p (s₁.setProcess p fun _ => .zero) = .ok (0,v))
    (attach : process_attach filename p slot v = (0,u)) (task : (u.process p).task = t) (has_task : t ≠ 0) :
    process_load services filename s = .ok (0,p,{ u with processes := Function.update u.processes slot p }) := by
  have found : process_get_free_slot s = (slot : Int) := by
    rcases get_free_slot_cases s with ⟨i,other,found⟩ | ⟨full,_⟩
    · rw [found,other.unique first]
    · exact absurd first.free (full slot first.below)
  have empty : ¬process_get s slot ≠ 0 := by
    unfold process_get
    rw [if_neg (by have := first.below; omega),Int.toNat_natCast]
    exact not_not.mpr first.free
  unfold process_load
  dsimp only
  rw [found,if_neg (by omega)]
  unfold process_load_for_slot
  rw [if_neg empty,block]
  change (if p = 0 then _ else _) = _
  rw [if_neg some,bind_of_ok _ prepared]
  change (if (0 : Int) < 0 then _ else _) = _
  rw [if_neg (Int.lt_irrefl 0),Int.toNat_natCast,attach]
  change (if (0 : Int) < 0 ∨ (u.process p).task = 0 then _ else _) = _
  rw [if_neg (by rw [task]; omega)]
  rfl

private theorem block_fresh {heap : HeapBlocks.Heap} {b : Int} {older : List Extent} (laid : Laid heap older) (free : FreeAt older b)
    (more : ∀ e ∈ live, e ∈ older) : ¬Held live (blockAddress b) :=
  fun held => freeAt_not_held laid free (held.mono more)

/-- With few live blocks a binary is loaded into the lowest free slot. -/
theorem process_load_binary_file {slot : Nat} (file : BinaryFile services filename size) (low : 1 ≤ size) (high : size ≤ 0xFFFFF000)
    (laid : Laid s.kernel.kernel_heap live) (few : taken live + blocks size + 1034 < 25600 / max 4 (blocks size))
    (first : FirstFree s.processes slot) : ∃ p t w live', LoadedFresh services filename live live' p t slot s w ∧
      taken live' = taken live + blocks size + 1034 := by
  have most : 25600 / max 4 (blocks size) ≤ 25600 / 4 := Nat.div_le_div_left (le_max_left _ _) (by decide)
  have three : blocks 9364 = 3 := by decide
  obtain ⟨b,s₁,block,free,_,laid₁,filed⟩ := world_kzalloc 9364 laid (by decide) (by decide) (by rw [three]; omega)
  rw [three] at laid₁
  have some := (blockAddress_pos b).ne'
  obtain ⟨v,data,stack,prepared,binary,laid₂⟩ := process_prepare_binary (s := s₁.setProcess (blockAddress b) fun _ => .zero)
    (p := blockAddress b) file low high laid₁ (by rw [taken_cons]; dsimp only; omega)
  have count : taken (⟨stack,4⟩ :: ⟨data,blocks size⟩ :: ⟨b,3⟩ :: live) = taken live + blocks size + 7 := by
    rw [taken_cons,taken_cons,taken_cons]
    dsimp only
    omega
  obtain ⟨t,u,live',task,room,attach,attached,flat,laid₃,count',more⟩ := process_attach_binary filename slot
    binary low laid₂ (by omega)
  have ran := load_for_slot_ok block some first prepared attach attached.own room.some
  have new : process_block s = blockAddress b := congrArg Prod.fst block
  have cleared : process_cleared s = s₁.setProcess (blockAddress b) fun _ => .zero := by
    unfold process_cleared
    rw [new]
    exact congrArg (fun w : World φ => w.setProcess (blockAddress b) fun _ => .zero) (congrArg Prod.snd block)
  have granted : TaskGranted services filename s (· = blockAddress t) := by
    intro res w result _
    rw [new,cleared,prepared] at result
    cases result
    exact ⟨_,room,rfl⟩
  have older : ∀ e ∈ live, e ∈ (⟨stack,4⟩ :: ⟨data,blocks size⟩ :: ⟨b,3⟩ :: live : List Extent) := fun e member =>
    List.mem_cons_of_mem _ (List.mem_cons_of_mem _ (List.mem_cons_of_mem _ member))
  have process : Held (⟨stack,4⟩ :: ⟨data,blocks size⟩ :: ⟨b,3⟩ :: live) (blockAddress b) :=
    (held_cons live (by decide : 0 < 3)).mono fun e member => List.mem_cons_of_mem _ (List.mem_cons_of_mem _ member)
  have kept : ∀ x, Held (⟨stack,4⟩ :: ⟨data,blocks size⟩ :: ⟨b,3⟩ :: live) x → Held live' x := fun x held =>
    held.mono fun e member => more e (List.mem_cons_of_mem _ member)
  refine ⟨blockAddress b,blockAddress t,_,live',⟨ran,new,some,granted,?_,flat,freeAt_not_held laid free,block_fresh laid₂ task older,
    fun same => freeAt_not_held laid₂ task (same ▸ process),⟨kept _ process,?_,fun x held => kept x (held.mono older)⟩,laid₃⟩,?_⟩
  · rcases process_load_cases new (fun _ _ => granted) ran with ⟨failed,_⟩ | ⟨_,_,_,i,_,other,rfl,loaded⟩
    · exact absurd failed (Int.lt_irrefl 0)
    · exact other.unique first ▸ loaded
  · exact (held_cons _ Nat.one_pos).mono more
  · rw [count',count]

end

/-! ### The first program -/

/-- A disk on which every file has 32 zero bytes. -/
def zeroFiles : FileServices Unit where
  fopen _ _ files k := .ok (1, files, k)
  fstat _ files k := .ok ((0, 32), files, k)
  fread ptr _ _ _ files k := .ok (1, files, { k with memory := memset k.memory ptr 0x00 32 })
  fclose _ files k := .ok (0, files, k)

/-- The kernel before any program has been loaded. -/
def bootWorld : World Unit where
  processes _ := 0
  current_process := 0
  process _ := .zero
  task _ := .zero
  links := ⟨fun _ => ⟨0, 0⟩, 0, 0, 0⟩
  elf_file _ := ⟨0, 0, 0, 0, 0⟩
  files := ()
  kernel := ⟨fun _ => 0, kernel_heap_init fun _ => 0⟩

theorem zeros_refused {m : Bytes} {ptr : Nat} (high : ptr + 32 ≤ 4294967296) :
    elf_validate_loaded (memset m ptr 0x00 32) ptr = -EINFORMAT := by
  have zero : ∀ i, i < 32 → memset m ptr 0x00 32 (offset ptr i) = 0 := fun i inside => by
    rw [offset_of_lt (by omega),memset_apply high,if_pos (by omega)]
  have type : e_type (memset m ptr 0x00 32) ptr = 0 := by
    unfold e_type read16
    rw [offset_offset,zero 16 (by decide),zero (16+1) (by decide)]
    rfl
  have refused : elf_is_executable (memset m ptr 0x00 32) ptr = false := by
    unfold elf_is_executable
    rw [type]
    rfl
  unfold elf_validate_loaded
  rw [refused]
  simp

theorem zeroFiles_binary (filename : CString) : BinaryFile zeroFiles filename 32 where
  opens _ _ := ⟨1,_,by decide,rfl⟩
  stat _ _ _ _ := ⟨_,rfl⟩
  reads _ _ _ _ _ high := ⟨_,_,rfl,zeros_refused high⟩
  closes _ _ _ _ := ⟨0,_,rfl⟩

theorem bootWorld_laid : Laid bootWorld.kernel.kernel_heap [] := kernel_heap_init_laid _
theorem bootWorld_slot : FirstFree bootWorld.processes 0 := ⟨by decide,rfl,fun j none => absurd none (Nat.not_lt_zero j)⟩

end SimpOS.BinaryLoads
