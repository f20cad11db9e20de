import SimpOS.FlatBinaries
import SimpOS.OpenLeaks
import SimpOS.ProcessAllocations
import SimpOS.ProcessLoads

/-!
Blocks that a load leaves behind. A block that is pinned when a load begins stays so while the program
is prepared, and so does the one that opening the program's file has taken for good; the release of the
process gives back neither, as it releases only what the load has taken since.
-/
namespace SimpOS.LoadLeaks
open SimpOS.Machine SimpOS.Strings SimpOS.Extents SimpOS.HeapBlocks SimpOS.HeapLayout SimpOS.KernelHeap SimpOS.Memory
open SimpOS.Paging SimpOS.AddressSpaces SimpOS.PageDirectories SimpOS.OpenLeaks SimpOS.ElfLoader SimpOS.FatSystem
open SimpOS.Processes SimpOS.ProcessLoads

variable {φ : Type}

/-- The call gives back no block but one of the file layer's own. -/
def Leaves {α : Type} (own : φ → Int → Prop) (call : φ → Kernel → Except Stop (α × φ × Kernel)) : Prop :=
  ∀ files k result files' k', call files k = .ok (result,files',k') → ∀ b, Pinned b k.kernel_heap → ¬own files b →
    Pinned b k'.kernel_heap ∧ ¬own files' b

/-- What the file layer keeps in the heap it gives back itself, and nothing else. -/
structure Housekeeping (services : FileServices φ) (own : φ → Int → Prop) : Prop where
  fopen : ∀ filename mode, Leaves own (services.fopen filename mode)
  fstat : ∀ fd, Leaves own (services.fstat fd)
  fread : ∀ ptr size nmemb fd, Leaves own (services.fread ptr size nmemb fd)
  fclose : ∀ fd, Leaves own (services.fclose fd)

/-- An open that succeeds leaves behind a block that was free, for good. -/
def OpensLeak (services : FileServices φ) (own : φ → Int → Prop) : Prop :=
  ∀ filename mode files k fd files' k', services.fopen filename mode files k = .ok (fd,files',k') → fd ≠ 0 →
    ∃ b, FreeBlock k.kernel_heap b ∧ Pinned b k'.kernel_heap ∧ ¬own files' b

/-! ### A block that stays -/

/-- The block is taken, and none of the file layer's. -/
structure Stays (own : φ → Int → Prop) (b : Int) (s : World φ) : Prop where
  pinned : Pinned b s.kernel.kernel_heap
  other : ¬own s.files b

section
variable {services : FileServices φ} {own : φ → Int → Prop} {filename : CString} {s t : World φ} {p : Nat} {res : Int}
  {b : Int}

private theorem Stays.onFiles {α : Type} {call : φ → Kernel → Except Stop (α × φ × Kernel)} {result : α}
    (stays : Stays own b s) (leaves : Leaves own call) (ran : s.onFiles call = .ok (result,t)) :
    Stays own b t ∧ t.elf_file = s.elf_file := by
  unfold World.onFiles at ran
  cases answer : call s.files s.kernel with
  | error stop =>
    rw [answer] at ran
    cases ran
  | ok outcome =>
    obtain ⟨r,files,k⟩ := outcome
    rw [answer] at ran
    cases ran
    obtain ⟨pinned,other⟩ := leaves _ _ _ _ _ answer b stays.pinned stays.other
    exact ⟨⟨pinned,other⟩,rfl⟩
private theorem Stays.kzalloc (stays : Stays own b s) (size : Nat) :
    Stays own b (s.kzalloc size).2 ∧ Away b (s.kzalloc size).1 := by
  obtain ⟨pinned,away⟩ := stays.pinned.kzalloc size
  exact ⟨⟨pinned,stays.other⟩,away⟩
private theorem Stays.kfree (stays : Stays own b s) {ptr : Nat} (away : Away b ptr) : Stays own b (s.kfree ptr) :=
  ⟨stays.pinned.kfree away,stays.other⟩
private theorem Stays.setElf (stays : Stays own b s) (elf_file : Nat) (set : ElfFile → ElfFile) :
    Stays own b (s.setElf elf_file set) := ⟨stays.pinned,stays.other⟩
private theorem Stays.setProcess (stays : Stays own b s) (p : Nat) (set : Process → Process) :
    Stays own b (s.setProcess p set) := ⟨stays.pinned,stays.other⟩

private theorem elf_process_pheaders_loop_memory (m : Bytes) (header remaining : Nat) :
    ∀ (i : Nat) (res : Int) (elf_file : ElfFile), (elf_process_pheaders_loop m header remaining i res elf_file).2.elf_memory = elf_file.elf_memory := by
  induction remaining with
  | zero => exact fun i res elf_file => rfl
  | succ remaining ih =>
    intro i res elf_file
    have one : (elf_process_pheader elf_file (elf32_phdr m (elf_program_header m header i))).2.elf_memory =
        elf_file.elf_memory := by
      unfold elf_process_pheader elf_process_phdr_pt_load
      dsimp only
      split_ifs <;> rfl
    rw [elf_process_pheaders_loop]
    generalize elf_process_pheader elf_file (elf32_phdr m (elf_program_header m header i)) = processed at one
    obtain ⟨res',elf_file'⟩ := processed
    dsimp only at one ⊢
    split_ifs
    · exact one
    · rw [ih,one]

theorem elf_process_loaded_memory (m : Bytes) (elf_file : ElfFile) :
    (elf_process_loaded m elf_file).2.elf_memory = elf_file.elf_memory := by
  unfold elf_process_loaded
  dsimp only
  split_ifs
  · rfl
  · exact elf_process_pheaders_loop_memory ..

private theorem elf_load_opened_stays (layer : Housekeeping services own) {elf_file : Nat} {fd : Int} (stays : Stays own b s)
    (away : Away b (s.elf_file elf_file).elf_memory) (ran : elf_load_opened services elf_file fd s = .ok (res,t)) :
    Stays own b t ∧ Away b (t.elf_file elf_file).elf_memory := by
  unfold elf_load_opened at ran
  obtain ⟨⟨⟨res₁,file_size⟩,u⟩,stat,ran⟩ := bind_ok ran
  obtain ⟨stays₁,records⟩ := stays.onFiles (layer.fstat fd) stat
  dsimp only at ran
  split_ifs at ran with failed
  · cases ran
    exact ⟨stays₁,by rw [records]; exact away⟩
  unfold elf_load_file at ran
  obtain ⟨stays₂,block⟩ := stays₁.kzalloc file_size
  generalize u.kzalloc file_size = granted at ran stays₂ block
  obtain ⟨elf_memory,v⟩ := granted
  dsimp only at ran stays₂ block
  obtain ⟨⟨count,w⟩,read,ran⟩ := bind_ok ran
  obtain ⟨stays₃,records₃⟩ := (stays₂.setElf elf_file fun v => { v with elf_memory := elf_memory }).onFiles
    (layer.fread elf_memory file_size 1 fd) read
  have memory : (w.elf_file elf_file).elf_memory = elf_memory := by
    rw [records₃]
    simp only [World.setElf,Function.update_self]
  dsimp only at ran
  split_ifs at ran with short
  · cases ran
    exact ⟨stays₃,by rw [memory]; exact block⟩
  · cases ran
    refine ⟨stays₃.setElf elf_file _,?_⟩
    simp only [World.setElf,Function.update_self]
    rw [elf_process_loaded_memory,memory]
    exact block

/-- From the open on: the block stays, and is neither the record's nor that of the file's image. -/
private theorem elf_load_rest (layer : Housekeeping services own) {elf_file : Nat} {fd closed : Int} {v : World φ}
    (stays : Stays own b s) (away : Away b elf_file) (zeroed : (s.elf_file elf_file).elf_memory = 0)
    (loaded : elf_load_opened services elf_file fd s = .ok (res,v))
    (close : (if res < 0 then elf_file_free elf_file v else v).onFiles (services.fclose fd) = .ok (closed,t)) :
    Stays own b t ∧ Away b elf_file ∧ Away b (t.elf_file elf_file).elf_memory := by
  obtain ⟨stays₁,memory⟩ := elf_load_opened_stays layer stays (by rw [zeroed]; exact away_null stays.pinned.low) loaded
  have freed : Stays own b (if res < 0 then elf_file_free elf_file v else v) ∧
      (if res < 0 then elf_file_free elf_file v else v).elf_file = v.elf_file := by
    by_cases failed : res < 0
    · rw [if_pos failed]
      unfold elf_file_free
      dsimp only
      split_ifs
      · exact ⟨(stays₁.kfree memory).kfree away,rfl⟩
      · exact ⟨stays₁.kfree away,rfl⟩
    · rw [if_neg failed]
      exact ⟨stays₁,rfl⟩
  obtain ⟨last,records⟩ := freed.1.onFiles (layer.fclose fd) close
  rw [records,freed.2]
  exact ⟨last,away,memory⟩

/-- An ELF file that cannot be opened, or the run from the open on. -/
theorem elf_load_cases {file_out : Nat} (record : (s.kzalloc 132).1 ≠ 0)
    (ran : elf_load services filename s = .ok (res,file_out,t)) :
    ∃ fd u, (((s.kzalloc 132).2.setElf (s.kzalloc 132).1 fun _ => ⟨0,0,0,0,0⟩).onFiles (services.fopen filename [114]) =
        .ok (fd,u)) ∧ (u.elf_file (s.kzalloc 132).1).elf_memory = 0 ∧
      ((res = -Machine.EIO ∧ t = u) ∨ 0 < fd ∧ file_out = (if res < 0 then 0 else (s.kzalloc 132).1) ∧ ∃ v closed,
        elf_load_opened services (s.kzalloc 132).1 fd u = .ok (res,v) ∧
        (if res < 0 then elf_file_free (s.kzalloc 132).1 v else v).onFiles (services.fclose fd) = .ok (closed,t)) := by
  unfold elf_load at ran
  generalize s.kzalloc 132 = granted at ran record ⊢
  obtain ⟨elf_file,s₁⟩ := granted
  dsimp only at ran record ⊢
  rw [if_pos record] at ran
  obtain ⟨⟨fd,u⟩,opened,ran⟩ := bind_ok ran
  have zeroed : (u.elf_file elf_file).elf_memory = 0 := by
    have same : u.elf_file = (s₁.setElf elf_file fun _ => ⟨0,0,0,0,0⟩).elf_file := by
      unfold World.onFiles at opened
      cases answer : services.fopen filename [114] (s₁.setElf elf_file fun _ => ⟨0,0,0,0,0⟩).files
          (s₁.setElf elf_file fun _ => ⟨0,0,0,0,0⟩).kernel with
      | error stop =>
        rw [answer] at opened
        cases opened
      | ok outcome =>
        rw [answer] at opened
        cases opened
        rfl
    rw [same]
    simp only [World.setElf,Function.update_self]
  refine ⟨fd,u,opened,zeroed,?_⟩
  dsimp only at ran
  split_ifs at ran with missing
  · cases ran
    exact .inl ⟨rfl,rfl⟩
  obtain ⟨⟨res₁,v⟩,loaded,ran⟩ := bind_ok ran
  obtain ⟨⟨closed,w⟩,close,ran⟩ := bind_ok ran
  cases ran
  exact .inr ⟨by omega,rfl,v,closed,loaded,close⟩

/-- The file that a load of an ELF file hands over, if it does, is away from the block. -/
structure FileAway (own : φ → Int → Prop) (b : Int) (res : Int) (file_out : Nat) (t : World φ) : Prop where
  stays : Stays own b t
  file : 0 ≤ res → Away b file_out ∧ Away b (t.elf_file file_out).elf_memory

private theorem elf_load_stays (layer : Housekeeping services own) {file_out : Nat} (stays : Stays own b s)
    (record : (s.kzalloc 132).1 ≠ 0) (ran : elf_load services filename s = .ok (res,file_out,t)) :
    FileAway own b res file_out t := by
  obtain ⟨stays₁,away⟩ := stays.kzalloc 132
  obtain ⟨fd,u,opened,zeroed,outcome⟩ := elf_load_cases record ran
  have stays₂ := ((stays₁.setElf (s.kzalloc 132).1 fun _ => ⟨0,0,0,0,0⟩).onFiles (layer.fopen filename [114]) opened).1
  rcases outcome with ⟨rfl,rfl⟩ | ⟨_,rfl,v,closed,loaded,close⟩
  · exact ⟨stays₂,fun positive => absurd positive (by decide)⟩
  · obtain ⟨stays₃,file⟩ := elf_load_rest layer stays₂ away zeroed loaded close
    refine ⟨stays₃,fun positive => ?_⟩
    rw [if_neg (by omega)]
    exact file

end

/-! ### A block that opening the file leaves behind -/

section
variable {k : Kernel} {b : Int} {size : Nat}

theorem kzalloc_heap (k : Kernel) (size : Nat) :
    (KernelHeap.kzalloc k size).2.kernel_heap = (heap_malloc k.kernel_heap size).2 ∧
    (KernelHeap.kzalloc k size).1 = (heap_malloc k.kernel_heap size).1 := by
  unfold KernelHeap.kzalloc kmalloc
  dsimp only
  by_cases null : (heap_malloc k.kernel_heap size).1 = 0
  · rw [if_pos null]
    exact ⟨rfl,null.symm⟩
  · rw [if_neg null]
    exact ⟨rfl,rfl⟩

/-- A block that is free behind a request was free before, and is not the one granted. -/
theorem kzalloc_free (start : k.kernel_heap.start_address = SIMPOS_HEAP_ADDRESS)
    (total : k.kernel_heap.table.total = 25600) (low : 0 < b) (some : requestBlocks size ≠ 0)
    (free : FreeBlock (KernelHeap.kzalloc k size).2.kernel_heap b) :
    FreeBlock k.kernel_heap b ∧ Away b (KernelHeap.kzalloc k size).1 := by
  obtain ⟨heap,pointer⟩ := kzalloc_heap k size
  rw [heap] at free
  rw [pointer]
  have request : heap_malloc k.kernel_heap size = heap_malloc_blocks k.kernel_heap (requestBlocks size) := rfl
  rw [request] at free ⊢
  rcases heap_malloc_blocks_cases k.kernel_heap (requestBlocks size) with ⟨_,refused,_⟩ | ⟨c,_,granted,marked⟩
  · rw [refused] at free ⊢
    exact ⟨free,away_null low⟩
  · have cLow := granted.low
    have cHigh := granted.high
    have back := heap_address_to_block_kernel start cLow (by omega : c < 25600)
    rw [marked] at free ⊢
    unfold FreeBlock at free ⊢
    dsimp only at free
    rw [heap_mark_blocks_taken_correct] at free
    by_cases inside : b ∈ Extent.mk c (requestBlocks size)
    · rw [if_pos inside] at free
      exact absurd free (chainEntry_taken _ _)
    · rw [if_neg inside] at free
      refine ⟨free,?_⟩
      dsimp only
      rw [heap_block_to_address_kernel start cLow (by omega)]
      unfold heap_address_to_block at back
      rw [start] at back
      unfold Away
      rw [back]
      rintro rfl
      exact inside (mem_mk.mpr (by omega))

end

section
variable {services : FileServices φ} {own : φ → Int → Prop} {filename : CString} {s t : World φ} {p : Nat} {res : Int}
  {b : Int}

/-- An ELF file that is read, or found to be none, has left a block behind that was free before. -/
private theorem elf_load_leaks (layer : Housekeeping services own) (leak : OpensLeak services own) {file_out : Nat}
    (start : s.kernel.kernel_heap.start_address = SIMPOS_HEAP_ADDRESS) (total : s.kernel.kernel_heap.table.total = 25600)
    (record : (s.kzalloc 132).1 ≠ 0) (ran : elf_load services filename s = .ok (res,file_out,t))
    (read : 0 ≤ res ∨ res = -EINFORMAT) : ∃ b, FreeBlock s.kernel.kernel_heap b ∧ FileAway own b res file_out t := by
  obtain ⟨fd,u,opened,zeroed,outcome⟩ := elf_load_cases record ran
  rcases outcome with ⟨rfl,_⟩ | ⟨positive,rfl,v,closed,loaded,close⟩
  · rcases read with read | format
    · exact absurd read (by decide)
    · exact absurd format (by decide)
  obtain ⟨b,free,stays⟩ : ∃ b, FreeBlock (s.kzalloc 132).2.kernel.kernel_heap b ∧ Stays own b u := by
    unfold World.onFiles at opened
    cases answer : services.fopen filename [114] ((s.kzalloc 132).2.setElf (s.kzalloc 132).1 fun _ => ⟨0,0,0,0,0⟩).files
        ((s.kzalloc 132).2.setElf (s.kzalloc 132).1 fun _ => ⟨0,0,0,0,0⟩).kernel with
    | error stop =>
      rw [answer] at opened
      cases opened
    | ok outcome =>
      obtain ⟨fd',files,k⟩ := outcome
      rw [answer] at opened
      cases opened
      obtain ⟨b,free,pinned,other⟩ := leak _ _ _ _ _ _ _ answer (by omega)
      exact ⟨b,free,pinned,other⟩
  obtain ⟨free,away⟩ : FreeBlock s.kernel.kernel_heap b ∧ Away b (s.kzalloc 132).1 :=
    kzalloc_free start total stays.pinned.low (by decide) free
  obtain ⟨stays₁,file⟩ := elf_load_rest layer stays away zeroed loaded close
  refine ⟨b,free,stays₁,fun positive => ?_⟩
  rw [if_neg (by omega)]
  exact file

/-- The block stays, and nothing that the process has taken is in it. -/
structure Held (own : φ → Int → Prop) (b : Int) (p : Nat) (v : World φ) : Prop where
  stays : Stays own b v
  ptr : Away b (v.process p).ptr
  elf_memory : (v.process p).filetype = .ELF → (v.process p).ptr ≠ 0 → Away b (v.elf_file (v.process p).ptr).elf_memory
  stack : Away b (v.process p).stack
  allocations : ∀ j, ((v.process p).allocations j).ptr = 0

private theorem held_zero (stays : Stays own b s) (zero : s.process p = .zero) : Held own b p s := by
  have null := away_null stays.pinned.low
  refine ⟨stays,?_,fun _ some => ?_,?_,fun j => ?_⟩
  · rw [zero]
    exact null
  · rw [zero] at some
    exact absurd rfl some
  · rw [zero]
    exact null
  · rw [zero]
    rfl

theorem Held.same {w : World φ} (held : Held own b p s) (stays : Stays own b w) (process : w.process = s.process)
    (records : w.elf_file = s.elf_file) : Held own b p w := by
  refine ⟨stays,?_,?_,?_,?_⟩
  · rw [process]
    exact held.ptr
  · rw [process,records]
    exact held.elf_memory
  · rw [process]
    exact held.stack
  · rw [process]
    exact held.allocations

private theorem process_load_binary_held (layer : Housekeeping services own) (held : Held own b p s)
    (ran : process_load_binary services filename p s = .ok (res,t)) : Held own b p t := by
  have kept : ∀ {α : Type} {u w : World φ} {call : φ → Kernel → Except Stop (α × φ × Kernel)} {result : α},
      Held own b p u → Leaves own call → u.onFiles call = .ok (result,w) → Held own b p w := by
    intro α u w call result held leaves ran
    obtain ⟨stays,records⟩ := held.stays.onFiles leaves ran
    exact held.same stays (onFiles_same ran).process records
  unfold process_load_binary at ran
  obtain ⟨⟨fd,u⟩,opened,ran⟩ := bind_ok ran
  have held₁ := kept held (layer.fopen filename [114]) opened
  dsimp only at ran
  split_ifs at ran with missing
  · cases ran
    exact held₁
  obtain ⟨⟨⟨res₁,file_size⟩,v⟩,stat,ran⟩ := bind_ok ran
  have held₂ := kept held₁ (layer.fstat fd) stat
  obtain ⟨stays₃,away⟩ := held₂.stays.kzalloc file_size
  have held₃ : Held own b p (v.kzalloc file_size).2 := held₂.same stays₃ rfl rfl
  generalize v.kzalloc file_size = granted at ran held₃ away
  obtain ⟨program_data_ptr,v₁⟩ := granted
  dsimp only at ran held₃ away
  split_ifs at ran with failed null
  · obtain ⟨⟨_,w⟩,close,ran⟩ := bind_ok ran
    have closed := kept held₂ (layer.fclose fd) close
    cases ran
    exact closed
  · obtain ⟨⟨_,w⟩,close,ran⟩ := bind_ok ran
    have closed := kept held₃ (layer.fclose fd) close
    cases ran
    exact closed
  · obtain ⟨⟨count,w⟩,read,ran⟩ := bind_ok ran
    have held₄ := kept held₃ (layer.fread program_data_ptr file_size 1 fd) read
    dsimp only at ran
    split_ifs at ran with short
    · obtain ⟨⟨_,x⟩,close,ran⟩ := bind_ok ran
      have closed := kept held₄ (layer.fclose fd) close
      cases ran
      exact closed.same (closed.stays.kfree away) rfl rfl
    · obtain ⟨⟨_,x⟩,close,ran⟩ := bind_ok ran
      have loaded : Held own b p (w.setProcess p fun v =>
          { v with filetype := .BINARY, ptr := program_data_ptr, size := file_size }) := by
        refine ⟨held₄.stays.setProcess p _,?_,fun elf => ?_,?_,fun j => ?_⟩
        · simp only [World.setProcess,Function.update_self]
          exact away
        · simp only [World.setProcess,Function.update_self] at elf
          cases elf
        · simp only [World.setProcess,Function.update_self]
          exact held₄.stack
        · simp only [World.setProcess,Function.update_self]
          exact held₄.allocations j
      have closed := kept loaded (layer.fclose fd) close
      cases ran
      exact closed

/-- What a program that is prepared has to do with a block away from its ELF file. -/
private theorem process_prepare_held (layer : Housekeeping services own) (zero : s.process p = .zero)
    (ran : process_prepare services filename p s = .ok (res,t)) :
    ∃ res₃ elf_file x, elf_load services filename s = .ok (res₃,elf_file,x) ∧ (0 ≤ res → 0 ≤ res₃ ∨ res₃ = -EINFORMAT) ∧
      ∀ b, FileAway own b res₃ elf_file x → Held own b p t := by
  unfold process_prepare process_load_data process_load_elf at ran
  obtain ⟨⟨res₁,u⟩,data,ran⟩ := bind_ok ran
  obtain ⟨⟨res₂,v⟩,elf,data⟩ := bind_ok data
  obtain ⟨⟨res₃,elf_file,x⟩,loaded,elf⟩ := bind_ok elf
  have process : x.process p = .zero := by
    rw [(elf_load_same loaded).process]
    exact zero
  dsimp only at elf data ran
  refine ⟨res₃,elf_file,x,loaded,fun prepared => ?_,fun b away => ?_⟩
  · by_contra other
    rw [not_or] at other
    rw [if_pos (by omega)] at elf
    cases elf
    rw [if_neg other.2] at data
    cases data
    rw [if_pos (by omega)] at ran
    cases ran
    exact other.1 prepared
  · have held : Held own b p u := by
      split_ifs at elf with failed
      · cases elf
        split_ifs at data with format
        · exact process_load_binary_held layer (held_zero away.stays process) data
        · cases data
          exact held_zero away.stays process
      · obtain ⟨ptr,memory⟩ := away.file (by omega)
        cases elf
        rw [if_neg (by intro format; rw [format] at failed; exact failed (by decide))] at data
        cases data
        refine ⟨away.stays.setProcess p _,?_,fun _ _ => ?_,?_,fun j => ?_⟩
        · simp only [World.setProcess,Function.update_self]
          exact ptr
        · simp only [World.setProcess,Function.update_self]
          exact memory
        · simp only [World.setProcess,Function.update_self]
          exact (held_zero away.stays process).stack
        · simp only [World.setProcess,Function.update_self]
          exact (held_zero away.stays process).allocations j
    obtain ⟨stays₄,stack⟩ := held.stays.kzalloc SIMPOS_USER_PROGRAM_STACK_SIZE
    have held₄ : Held own b p (u.kzalloc SIMPOS_USER_PROGRAM_STACK_SIZE).2 := held.same stays₄ rfl rfl
    generalize u.kzalloc SIMPOS_USER_PROGRAM_STACK_SIZE = granted at ran held₄ stack
    obtain ⟨stack_ptr,w⟩ := granted
    dsimp only at ran held₄ stack
    have held₅ : Held own b p (w.setProcess p fun v => { v with stack := stack_ptr }) := by
      refine ⟨held₄.stays.setProcess p _,?_,?_,?_,fun j => ?_⟩
      · simp only [World.setProcess,Function.update_self]
        exact held₄.ptr
      · simp only [World.setProcess,Function.update_self]
        exact held₄.elf_memory
      · simp only [World.setProcess,Function.update_self]
        exact stack
      · simp only [World.setProcess,Function.update_self]
        exact held₄.allocations j
    split_ifs at ran
    · cases ran
      exact held
    · cases ran
      exact held₅
    · cases ran
      exact held₅

/-- A block that is taken stays while a program is prepared, whether that fails or not. -/
theorem process_prepare_stays (layer : Housekeeping services own) (stays : Stays own b s) (record : (s.kzalloc 132).1 ≠ 0)
    (zero : s.process p = .zero) (ran : process_prepare services filename p s = .ok (res,t)) : Held own b p t := by
  obtain ⟨res₃,elf_file,x,loaded,_,held⟩ := process_prepare_held layer zero ran
  exact held b (elf_load_stays layer stays record loaded)

/-- A program that has been prepared has left a block behind that was free before. -/
theorem process_prepare_leaks (layer : Housekeeping services own) (leak : OpensLeak services own)
    (start : s.kernel.kernel_heap.start_address = SIMPOS_HEAP_ADDRESS) (total : s.kernel.kernel_heap.table.total = 25600)
    (record : (s.kzalloc 132).1 ≠ 0) (zero : s.process p = .zero)
    (ran : process_prepare services filename p s = .ok (res,t)) (prepared : 0 ≤ res) :
    ∃ b, FreeBlock s.kernel.kernel_heap b ∧ Held own b p t := by
  obtain ⟨res₃,elf_file,x,loaded,read,held⟩ := process_prepare_held layer zero ran
  obtain ⟨b,free,away⟩ := elf_load_leaks layer leak start total record loaded (read prepared)
  exact ⟨b,free,held b away⟩

end

/-! ### Releasing a process away from the block -/

/-- A chunk whose blocks, and those of its directory and tables, are not the block b. -/
def ChunkAway (b : Int) (m : Bytes) (chunk : Nat) : Prop :=
  ∃ tables d c, chunk = blockAddress c ∧ tables.length = 1024 ∧ read32 m chunk = blockAddress d ∧
    (∀ n t, tables[n]? = some t → pageTable m (blockAddress d) n = blockAddress t) ∧
    ∀ x ∈ tables ++ [d,c], Away b (blockAddress x)

section
variable {own : φ → Int → Prop} {s t : World φ} {p : Nat} {b : Int}

theorem away_block {heap : Heap} (pinned : Pinned b heap) {x : Int} (low : 0 ≤ x) (high : x < 25600)
    (other : x ≠ b) : Away b (blockAddress x) := by
  have back := heap_address_to_block_kernel pinned.start_address low high
  unfold heap_address_to_block at back
  rw [pinned.start_address] at back
  unfold Away
  rw [back]
  exact other

private theorem kfree_all_pinned (pointers : List Nat) : ∀ {k : Kernel}, Pinned b k.kernel_heap →
    (∀ a ∈ pointers, Away b a) → Pinned b (pointers.foldl kfree k).kernel_heap := by
  induction pointers with
  | nil => exact fun pinned _ => pinned
  | cons a pointers ih =>
    intro k pinned away
    rw [List.foldl_cons]
    exact ih (pinned.kfree (away a List.mem_cons_self)) fun a' member => away a' (List.mem_cons_of_mem a member)

private theorem free_4gb_pinned {k : Kernel} (pinned : Pinned b k.kernel_heap) {chunk : Nat}
    (away : ChunkAway b k.memory chunk) : Pinned b (paging_free_4gb k chunk).kernel_heap := by
  obtain ⟨tables,d,c,rfl,length,directory,table,away⟩ := away
  rw [paging_free_4gb_blocks length directory table]
  refine kfree_all_pinned _ pinned fun a member => ?_
  obtain ⟨x,listed,rfl⟩ := List.mem_map.mp member
  exact away x listed

private theorem terminate_allocations_none (null : ∀ j, ((s.process p).allocations j).ptr = 0) :
    s.process_terminate_allocations p = s := by
  have idle : ProcessMemory.process_terminate_allocations s.kernel (s.memoryOf p) = (s.kernel,s.memoryOf p) := by
    rw [ProcessMemory.process_terminate_allocations]
    rw [ProcessAllocations.terminate_null _ _ _ fun j _ _ => null j]
  unfold World.process_terminate_allocations
  rw [idle]
  have same : Function.update s.process p { s.process p with allocations := (s.memoryOf p).allocations } = s.process :=
    Function.update_eq_self p s.process
  unfold World.setProcess World.withKernel
  dsimp only
  rw [same]

private theorem free_program_data_held (held : Held own b p s) : Held own b p (process_free_program_data p s) ∧
    (process_free_program_data p s).kernel.memory = s.kernel.memory ∧ (process_free_program_data p s).task = s.task ∧
    (process_free_program_data p s).process = s.process := by
  unfold process_free_program_data
  dsimp only
  by_cases null : (s.process p).ptr = 0
  · rw [if_pos null]
    exact ⟨held,rfl,rfl,rfl⟩
  · rw [if_neg null]
    cases type : (s.process p).filetype with
    | BINARY => exact ⟨held.same (held.stays.kfree held.ptr) rfl rfl,rfl,rfl,rfl⟩
    | ELF =>
      unfold elf_close
      dsimp only
      rw [if_neg null]
      exact ⟨held.same ((held.stays.kfree (held.elf_memory type null)).kfree held.ptr) rfl rfl,rfl,rfl,rfl⟩

/-- Releasing a process none of whose blocks is b leaves b taken. -/
theorem process_free_process_stays (held : Held own b p s) (process : Away b p) (task : Away b (s.process p).task)
    (chunk : ChunkAway b s.kernel.memory (s.task (s.process p).task).page_directory) :
    Stays own b (process_free_process p s) := by
  unfold process_free_process
  dsimp only
  rw [terminate_allocations_none held.allocations]
  obtain ⟨held₁,memory₁,tasks₁,process₁⟩ := free_program_data_held held
  generalize process_free_program_data p s = t at held₁ memory₁ tasks₁ process₁ ⊢
  have second : Stays own b (if (t.process p).stack ≠ 0 then (t.kfree (t.process p).stack).setProcess p fun v => { v with stack := 0 }
        else t) ∧
      (if (t.process p).stack ≠ 0 then (t.kfree (t.process p).stack).setProcess p fun v => { v with stack := 0 }
        else t).kernel.memory = s.kernel.memory ∧
      (if (t.process p).stack ≠ 0 then (t.kfree (t.process p).stack).setProcess p fun v => { v with stack := 0 }
        else t).task = s.task ∧
      ((if (t.process p).stack ≠ 0 then (t.kfree (t.process p).stack).setProcess p fun v => { v with stack := 0 }
        else t).process p).task = (s.process p).task := by
    by_cases some : (t.process p).stack ≠ 0
    · rw [if_pos some]
      refine ⟨(held₁.stays.kfree held₁.stack).setProcess p _,memory₁,tasks₁,?_⟩
      simp only [World.setProcess,Function.update_self,World.kfree,process₁]
    · rw [if_neg some]
      exact ⟨held₁.stays,memory₁,tasks₁,by rw [process₁]⟩
  generalize (if (t.process p).stack ≠ 0 then (t.kfree (t.process p).stack).setProcess p fun v => { v with stack := 0 }
    else t) = u at second ⊢
  obtain ⟨stays₂,memory₂,tasks₂,own₂⟩ := second
  rw [← memory₂,← tasks₂,← own₂] at chunk
  rw [← own₂] at task
  by_cases some : (u.process p).task ≠ 0
  · rw [if_pos some]
    unfold Processes.task_free
    have freed := free_4gb_pinned stays₂.pinned chunk
    generalize paging_free_4gb u.kernel (u.task (u.process p).task).page_directory = k at freed ⊢
    exact ⟨(freed.kfree task).kfree process,stays₂.other⟩
  · rw [if_neg some]
    exact stays₂.kfree process

private theorem new_4gb_tables_pinned (directory flags remaining : Nat) : ∀ (i : Nat) (base : Int) {k : Kernel},
    Pinned b k.kernel_heap → Pinned b (paging_new_4gb_tables directory flags remaining i base k).kernel_heap := by
  induction remaining with
  | zero => exact fun i base k pinned => pinned
  | succ remaining ih =>
    intro i base k pinned
    rw [paging_new_4gb_tables]
    refine ih _ _ ?_
    have granted := (pinned.kzalloc (4 * PAGING_TOTAL_ENTRIES_PER_TABLE)).1
    unfold paging_new_4gb_table
    generalize KernelHeap.kzalloc k (4 * PAGING_TOTAL_ENTRIES_PER_TABLE) = taken at granted ⊢
    exact granted

theorem new_4gb_pinned {k k' : Kernel} {chunk : Nat} {flags : UInt8} (pinned : Pinned b k.kernel_heap)
    (made : paging_new_4gb k flags = (chunk,k')) : Pinned b k'.kernel_heap := by
  have granted := (pinned.kzalloc (4 * PAGING_TOTAL_ENTRIES_PER_TABLE)).1
  obtain ⟨directory,k₁,took⟩ : ∃ directory k₁,
      KernelHeap.kzalloc k (4 * PAGING_TOTAL_ENTRIES_PER_TABLE) = (directory,k₁) := ⟨_,_,rfl⟩
  obtain ⟨n,entries⟩ : ∃ n, n = PAGING_TOTAL_ENTRIES_PER_TABLE := ⟨_,rfl⟩
  rw [took] at granted
  rw [paging_new_4gb_eq took,← entries] at made
  have filled := new_4gb_tables_pinned directory flags.toNat n 0 0 granted
  generalize paging_new_4gb_tables directory flags.toNat n 0 0 k₁ = k₂ at filled made
  have last := (filled.kzalloc 4).1
  unfold paging_new_4gb_chunk at made
  generalize KernelHeap.kzalloc k₂ 4 = taken at last made
  obtain ⟨c,k₃⟩ := taken
  cases made
  exact last

/-- A mapping of the program that is refused leaves the chunk's blocks what they are. -/
theorem refused_chunk {chunk : Nat} (high : chunk + 4 ≤ 4294967296)
    (own : (s.task (s.process p).task).page_directory = chunk) (space : AddressSpace s.kernel.memory (read32 s.kernel.memory chunk)) (outside : Outside s.kernel.memory chunk)
    (away : ChunkAway b s.kernel.memory chunk) (refused : (process_map_program p s).1 < 0) :
    ChunkAway b (process_map_program p s).2.kernel.memory chunk ∧
      (process_map_program p s).2.kernel.kernel_heap = s.kernel.kernel_heap ∧
      (process_map_program p s).2.elf_file = s.elf_file ∧ (process_map_program p s).2.files = s.files := by
  unfold process_map_program at refused ⊢
  cases type : (s.process p).filetype with
  | ELF =>
    obtain ⟨tables,d,c,named,length,directory,table,apart⟩ := away
    have remapped := @ElfMapping.process_map_elf_remapped ⟨read32 s.kernel.memory chunk⟩ (s.elf_file (s.process p).ptr)
      s.kernel.memory space
    have kept := FlatBinaries.chunk_kept high outside remapped
    refine ⟨⟨tables,d,c,named,length,?_,fun n t found => ?_,apart⟩,rfl,rfl,rfl⟩
    · dsimp only [map_elf_file,World.withKernel,World.chunk]
      rw [own,kept,directory]
    · have inside : n < 1024 := by
        have := (List.getElem?_eq_some_iff.mp found).1
        omega
      have same := remapped.tables inside
      dsimp only at same
      rw [directory] at same
      dsimp only [map_elf_file,World.withKernel,World.chunk]
      rw [own,directory,same]
      exact table n t found
  | BINARY =>
    rw [type] at refused
    unfold process_map_binary paging_map_chunk at refused ⊢
    dsimp only at refused ⊢
    by_cases accepted : Mappable SIMPOS_PROGRAM_VIRTUAL_ADDRESS (s.process p).ptr
        (paging_align_address (offset (s.process p).ptr (s.process p).size))
    · have zero := AddressSpaces.paging_map_to_result s.kernel.memory (s.chunk (s.task (s.process p).task).page_directory)
        (PAGING_IS_PRESENT ||| PAGING_ACCESS_FROM_ALL ||| PAGING_IS_WRITEABLE) accepted
      rw [zero] at refused
      exact absurd refused (Int.lt_irrefl 0)
    · rw [paging_map_to_refused accepted]
      exact ⟨away,rfl,rfl,rfl⟩

end
end SimpOS.LoadLeaks
