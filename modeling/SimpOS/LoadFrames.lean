import SimpOS.FailedLoads
import SimpOS.Isolation

/-!
What loading a program leaves alone. The extents that others hold keep their blocks and their bytes
while the program's file is read and its memory is taken, since the load releases only what it has
taken itself and writes only to what it has taken.
-/
namespace SimpOS.LoadFrames
open SimpOS.Machine SimpOS.Strings SimpOS.Extents SimpOS.HeapBlocks SimpOS.HeapLayout SimpOS.KernelHeap SimpOS.Memory
open SimpOS.Isolation SimpOS.ElfLoader SimpOS.FatSystem SimpOS.Processes SimpOS.ProcessLoads SimpOS.LoadLeaks
open SimpOS.BinaryLoads (BinaryFile zeroFiles taken taken_cons kzalloc_few)

variable {φ : Type}

/-- An address that a call should leave alone: it is in an extent of others, or below the heap and not where
    the file layer works. -/
def Guarded (scratch : Nat → Prop) (held : List Extent) (x : Nat) : Prop :=
  (x < SIMPOS_HEAP_ADDRESS ∧ ¬scratch x) ∨ Covered held (blockOf x)

/-- The call takes and releases extents of its own only, and writes nothing of the others but what it is to fill. -/
def Keeps {α : Type} (own : φ → List Extent) (scratch filled : Nat → Prop) (call : φ → Kernel → Except Stop (α × φ × Kernel)) :
    Prop :=
  ∀ files k held result files' k', Laid k.kernel_heap (own files ++ held) → call files k = .ok (result,files',k') →
    (∃ left, Laid k'.kernel_heap (own files' ++ (left ++ held))) ∧
      ∀ x, Guarded scratch held x → ¬filled x → k'.memory x = k.memory x

/-- The file layer keeps to its own extents, and reads into the bytes that it is given. -/
structure Discreet (services : FileServices φ) (own : φ → List Extent) (scratch : Nat → Prop) : Prop where
  fopen : ∀ filename mode, Keeps own scratch (fun _ => False) (services.fopen filename mode)
  fstat : ∀ fd, Keeps own scratch (fun _ => False) (services.fstat fd)
  fread : ∀ ptr size nmemb fd, Keeps own scratch (fun x => ∃ j, j < size * nmemb ∧ x = offset ptr j)
    (services.fread ptr size nmemb fd)
  fclose : ∀ fd, Keeps own scratch (fun _ => False) (services.fclose fd)

/-- The size of a file that has bytes, and that the addresses behind the heap's have room for. -/
def Fits (size : Nat) : Prop := 0 < size ∧ size ≤ 0xF8C00000

/-! ### Requests beside extents of others -/

/-- A request that is granted has its bytes in an extent of its own. -/
structure Served (k k' : Kernel) (held : List Extent) (ptr size : Nat) (e : Extent) : Prop where
  low : 0 ≤ e.first
  start : ptr = blockAddress e.first
  fits : size ≤ 4096 * e.count
  high : ptr + size ≤ 0xFFFFF000
  laid : Laid k'.kernel_heap (e :: held)
  memory : ∀ x, blockOf x ∉ e → k'.memory x = k.memory x

section
variable {k : Kernel} {held : List Extent} {size : Nat}

theorem kzalloc_served (laid : Laid k.kernel_heap held) (low : 0 < size) (small : size ≤ 0xF8C00000) :
    KernelHeap.kzalloc k size = (0,k) ∨ ∃ e, e = ⟨blockOf (KernelHeap.kzalloc k size).1,requestBlocks size⟩ ∧
      Served k (KernelHeap.kzalloc k size).2 held (KernelHeap.kzalloc k size).1 size e := by
  rcases heap_malloc_kernel laid size with ⟨_,refused⟩ | ⟨b,_,free,granted,laid'⟩
  · left
    rw [KernelHeap.kzalloc,kmalloc,refused]
    rfl
  · right
    have pointer := (blockAddress_pos b).ne'
    have result : KernelHeap.kzalloc k size = (blockAddress b,
        ⟨memset k.memory (blockAddress b) 0x00 size,heap_mark_blocks_taken k.kernel_heap b (requestBlocks size)⟩) := by
      rw [KernelHeap.kzalloc,kmalloc,granted]
      exact if_neg pointer
    have count : requestBlocks size = blocks size := requestBlocks_eq (by omega)
    have some : requestBlocks size ≠ 0 := by
      rw [count]
      unfold blocks
      omega
    have bLow := free.low
    have bHigh := free.high
    have address : blockAddress b ≤ 0x01000000 + 4096 * 25599 := by
      simp only [blockAddress,SIMPOS_HEAP_ADDRESS]
      omega
    have whole : size ≤ 4096 * requestBlocks size := by
      rw [count]
      unfold blocks
      omega
    have block : blockOf (blockAddress b) = b := by
      simp only [blockOf,blockAddress,SIMPOS_HEAP_ADDRESS,SIMPOS_HEAP_BLOCK_SIZE]
      omega
    rw [withGranted,if_neg some] at laid'
    rw [result]
    refine ⟨⟨b,requestBlocks size⟩,by rw [block],bLow,rfl,whole,by omega,laid',fun x outside => ?_⟩
    rw [blockOf_mem bLow] at outside
    dsimp only
    rw [memset_apply (by omega),if_neg (by omega)]

/-- Addresses that are guarded lie in no extent beside those of the others. -/
theorem guarded_outside {heap : Heap} {scratch : Nat → Prop} {e : Extent} {x : Nat} (laid : Laid heap (e :: held))
    (guarded : Guarded scratch held x) : blockOf x ∉ e := by
  intro inside
  rcases guarded with ⟨below,_⟩ | ⟨other,member,within⟩
  · have low := laid.first_nonneg (List.mem_cons_self ..)
    rw [mem_def] at inside
    simp only [blockOf,SIMPOS_HEAP_ADDRESS,SIMPOS_HEAP_BLOCK_SIZE] at inside below
    omega
  · exact (List.pairwise_cons.mp laid.layout.disjoint).1 other member _ inside within

theorem Guarded.mono {scratch : Nat → Prop} {more : List Extent} {x : Nat} (guarded : Guarded scratch held x)
    (sub : ∀ e ∈ held, e ∈ more) : Guarded scratch more x := by
  rcases guarded with below | ⟨e,member,inside⟩
  · exact .inl below
  · exact .inr ⟨e,sub e member,inside⟩

end

/-- A call of the file layer changes its files and the kernel. -/
theorem onFiles_ok {α : Type} {s t : World φ} {call : φ → Kernel → Except Stop (α × φ × Kernel)} {result : α}
    (ran : s.onFiles call = .ok (result,t)) :
    ∃ files k, call s.files s.kernel = .ok (result,files,k) ∧ t = { s with files := files, kernel := k } := by
  unfold World.onFiles at ran
  cases answer : call s.files s.kernel with
  | error stop =>
    rw [answer] at ran
    cases ran
  | ok outcome =>
    obtain ⟨r,files,k⟩ := outcome
    rw [answer] at ran
    cases ran
    exact ⟨files,k,rfl,rfl⟩

/-! ### Steps that take extents and leave the others alone -/

/-- From s to t the extents `mine` have been taken, and perhaps others; what others hold is as it was. -/
def Grows (own : φ → List Extent) (scratch : Nat → Prop) (mine : List Extent) (s t : World φ) : Prop :=
  ∀ held, Laid s.kernel.kernel_heap (own s.files ++ held) →
    (∃ left, Laid t.kernel.kernel_heap (own t.files ++ (left ++ (mine ++ held)))) ∧
      ∀ x, Guarded scratch held x → t.kernel.memory x = s.kernel.memory x

section
variable {services : FileServices φ} {own : φ → List Extent} {scratch : Nat → Prop} {mine more : List Extent}
  {s t u v : World φ} {p size : Nat} {res : Int}

theorem Grows.same (kernel : t.kernel = s.kernel) (files : t.files = s.files) : Grows own scratch [] s t := by
  intro held laid
  rw [kernel,files]
  exact ⟨⟨[],laid⟩,fun _ _ => rfl⟩

theorem Grows.trans (first : Grows own scratch mine s t) (second : Grows own scratch more t u) :
    Grows own scratch (more ++ mine) s u := by
  intro held laid
  obtain ⟨⟨left,laid₁⟩,same⟩ := first held laid
  obtain ⟨⟨left',laid₂⟩,same'⟩ := second _ laid₁
  refine ⟨⟨left' ++ left,laid₂.perm ?_⟩,fun x guarded => ?_⟩
  · refine List.Perm.append_left _ ?_
    simp only [List.append_assoc]
    refine List.Perm.append_left _ ?_
    exact List.perm_append_comm_assoc ..
  · rw [same' x (guarded.mono fun e member => List.mem_append_right _ (List.mem_append_right _ member)),same x guarded]

/-- Extents that are no longer needed by name. -/
theorem Grows.forget (grows : Grows own scratch (mine ++ more) s t) : Grows own scratch more s t := by
  intro held laid
  obtain ⟨⟨left,laid₁⟩,same⟩ := grows held laid
  refine ⟨⟨left ++ mine,?_⟩,same⟩
  simpa only [List.append_assoc] using laid₁

theorem Grows.all (grows : Grows own scratch mine s t) : Grows own scratch [] s t :=
  @Grows.forget _ own scratch mine [] s t (by rwa [List.append_nil])

theorem Grows.then (first : Grows own scratch mine s t) (second : Grows own scratch [] t u) : Grows own scratch mine s u :=
  first.trans second

/-- Releasing an extent that was taken on the way. -/
theorem Grows.kfree {e : Extent} (grows : Grows own scratch (e :: mine) s t) :
    Grows own scratch mine s (t.kfree (blockAddress e.first)) := by
  intro held laid
  obtain ⟨⟨left,laid₁⟩,same⟩ := grows held laid
  refine ⟨⟨left,heap_free_perm laid₁ ?_⟩,same⟩
  have first : (own t.files ++ (left ++ (e :: mine ++ held))).Perm (e :: (own t.files ++ (left ++ (mine ++ held)))) := by
    rw [List.cons_append,← List.append_assoc,← List.append_assoc]
    exact List.perm_middle
  exact first

/-- The extent of a request. -/
def granted (s : World φ) (size : Nat) : Extent := ⟨blockOf (s.kzalloc size).1,requestBlocks size⟩

theorem Grows.kzalloc (low : 0 < size) (small : size ≤ 0xF8C00000) (some : (s.kzalloc size).1 ≠ 0) :
    Grows own scratch [granted s size] s (s.kzalloc size).2 := by
  intro held laid
  rcases kzalloc_served laid low small with refused | ⟨e,rfl,served⟩
  · exact absurd (congrArg Prod.fst refused) some
  · refine ⟨⟨[],served.laid.perm List.perm_middle.symm⟩,fun x guarded => ?_⟩
    exact served.memory x (guarded_outside served.laid (guarded.mono fun e member => List.mem_append_right _ member))

theorem Grows.refused (low : 0 < size) (small : size ≤ 0xF8C00000) (null : (s.kzalloc size).1 = 0) :
    Grows own scratch [] s (s.kzalloc size).2 := by
  intro held laid
  have kernel : (s.kzalloc size).2.kernel = (KernelHeap.kzalloc s.kernel size).2 := rfl
  rcases kzalloc_served laid low small with refused | ⟨e,_,served⟩
  · rw [kernel,refused]
    exact ⟨⟨[],laid⟩,fun _ _ => rfl⟩
  · exact absurd null (served.start ▸ (blockAddress_pos e.first).ne')

/-- A request, granted or not. -/
theorem Grows.request (low : 0 < size) (small : size ≤ 0xF8C00000) : Grows own scratch [] s (s.kzalloc size).2 := by
  by_cases null : (s.kzalloc size).1 = 0
  · exact .refused low small null
  · exact (Grows.kzalloc low small null).all

theorem granted_first (low : 0 < size) (small : size ≤ 0xF8C00000) {held : List Extent}
    (laid : Laid s.kernel.kernel_heap held) (some : (s.kzalloc size).1 ≠ 0) :
    (s.kzalloc size).1 = blockAddress (granted s size).first := by
  rcases kzalloc_served laid low small with refused | ⟨e,same,served⟩
  · exact absurd (congrArg Prod.fst refused) some
  · have first : (granted s size).first = e.first := by
      rw [same]
      rfl
    rw [first]
    exact served.start

theorem Grows.call {α : Type} {call : φ → Kernel → Except Stop (α × φ × Kernel)} {result : α}
    (keeps : Keeps own scratch (fun _ => False) call) (ran : s.onFiles call = .ok (result,t)) : Grows own scratch [] s t := by
  intro held laid
  obtain ⟨files,k,answer,rfl⟩ := onFiles_ok ran
  obtain ⟨taken,same⟩ := keeps _ _ held _ _ _ laid answer
  exact ⟨taken,fun x guarded => same x guarded not_false⟩

/-- A request whose bytes are read from a file. -/
theorem Grows.filled {fd count : Int} (layer : Discreet services own scratch) (low : 0 < size) (small : size ≤ 0xF8C00000)
    (some : (s.kzalloc size).1 ≠ 0) (kernel : u.kernel = (s.kzalloc size).2.kernel) (files : u.files = s.files)
    (ran : u.onFiles (services.fread (s.kzalloc size).1 size 1 fd) = .ok (count,t)) :
    Grows own scratch [granted s size] s t := by
  intro held laid
  rcases kzalloc_served laid low small with refused | ⟨e,same,served⟩
  · exact absurd (congrArg Prod.fst refused) some
  have e_eq : granted s size = e := same.symm
  have laid₁ : Laid u.kernel.kernel_heap (own u.files ++ e :: held) := by
    rw [kernel,files]
    exact served.laid.perm List.perm_middle.symm
  have start : (s.kzalloc size).1 = blockAddress e.first := served.start
  have high : (s.kzalloc size).1 + size ≤ 0xFFFFF000 := served.high
  obtain ⟨files',k,answer,rfl⟩ := onFiles_ok ran
  obtain ⟨⟨left,laid₂⟩,kept⟩ := layer.fread _ _ _ _ _ _ (e :: held) _ _ _ laid₁ answer
  refine ⟨⟨left,?_⟩,fun x guarded => ?_⟩
  · rw [e_eq]
    exact laid₂
  · have outside := guarded_outside served.laid (guarded.mono fun e member => List.mem_append_right _ member)
    have untouched : k.memory x = u.kernel.memory x := by
      refine kept x (guarded.mono fun e member => List.mem_cons_of_mem _ member) ?_
      rintro ⟨j,inside,rfl⟩
      refine outside ((blockOf_mem served.low).mpr ?_)
      rw [Nat.mul_one] at inside
      have fits := served.fits
      rw [offset_of_lt (by omega),start]
      omega
    change k.memory x = s.kernel.memory x
    rw [untouched,kernel]
    exact served.memory x outside

/-! ### The program's file -/

/-- The heap's table describes the file layer's extents and others. -/
def InOrder (own : φ → List Extent) (s : World φ) : Prop := ∃ held, Laid s.kernel.kernel_heap (own s.files ++ held)

theorem Grows.inOrder (grows : Grows own scratch mine s t) (order : InOrder own s) : InOrder own t := by
  obtain ⟨held,laid⟩ := order
  obtain ⟨⟨left,laid₁⟩,_⟩ := grows held laid
  exact ⟨_,laid₁⟩

/-- Releasing what a request was given. -/
theorem Grows.release (order : InOrder own s) (low : 0 < size) (small : size ≤ 0xF8C00000) (some : (s.kzalloc size).1 ≠ 0)
    (grows : Grows own scratch (granted s size :: mine) t u) :
    Grows own scratch mine t (u.kfree (s.kzalloc size).1) := by
  obtain ⟨held,laid⟩ := order
  rw [granted_first low small laid some]
  exact grows.kfree

/-- What a load of an ELF file has taken once the file has been looked at, when it is released by its record. -/
inductive Imaged (own : φ → List Extent) (scratch : Nat → Prop) (elf_file : Nat) (s v : World φ) : Prop
  | none : (v.elf_file elf_file).elf_memory = 0 → Grows own scratch [] s v → Imaged own scratch elf_file s v
  | image {u : World φ} {size : Nat} : InOrder own u → 0 < size → size ≤ 0xF8C00000 → (u.kzalloc size).1 ≠ 0 →
    (v.elf_file elf_file).elf_memory = (u.kzalloc size).1 → Grows own scratch [granted u size] s v →
    Imaged own scratch elf_file s v

theorem Imaged.all {elf_file : Nat} (imaged : Imaged own scratch elf_file s v) : Grows own scratch [] s v := by
  cases imaged with
  | none _ grows => exact grows
  | image _ _ _ _ _ grows => exact grows.all

private theorem elf_load_opened_imaged {elf_file : Nat} {fd : Int} (layer : Discreet services own scratch) (order : InOrder own s)
    (zeroed : (s.elf_file elf_file).elf_memory = 0)
    (image : ∀ res size v, s.onFiles (services.fstat fd) = .ok ((res,size),v) → 0 ≤ res → Fits size ∧ (v.kzalloc size).1 ≠ 0)
    (ran : elf_load_opened services elf_file fd s = .ok (res,t)) : Imaged own scratch elf_file s t := by
  unfold elf_load_opened at ran
  obtain ⟨⟨⟨res₁,file_size⟩,u⟩,stat,ran⟩ := bind_ok ran
  have asked : Grows own scratch [] s u := .call (layer.fstat fd) stat
  obtain ⟨files,k,_,same⟩ := onFiles_ok stat
  dsimp only at ran
  split_ifs at ran with failed
  · cases ran
    refine .none ?_ asked
    rw [same]
    exact zeroed
  obtain ⟨⟨low,small⟩,some⟩ := image _ _ _ stat (by omega)
  unfold elf_load_file at ran
  rcases granting : u.kzalloc file_size with ⟨elf_memory,v⟩
  rw [granting] at ran
  dsimp only at ran
  obtain ⟨⟨count,w⟩,read,ran⟩ := bind_ok ran
  have memory : elf_memory = (u.kzalloc file_size).1 := by rw [granting]
  have kernel : v = (u.kzalloc file_size).2 := by rw [granting]
  rw [memory,kernel] at read
  have filled : Grows own scratch [granted u file_size] u w := by
    refine Grows.filled layer low small some ?_ ?_ read
    · rfl
    · rfl
  obtain ⟨files',k',_,after⟩ := onFiles_ok read
  have own_memory : (w.elf_file elf_file).elf_memory = (u.kzalloc file_size).1 := by
    rw [after]
    simp only [World.setElf,Function.update_self]
  have taken : Grows own scratch [granted u file_size] s w := asked.trans filled
  dsimp only at ran
  split_ifs at ran with short
  · cases ran
    exact .image (asked.inOrder order) low small some own_memory taken
  · cases ran
    refine .image (asked.inOrder order) low small some ?_ (taken.then (.same rfl rfl))
    simp only [World.setElf,Function.update_self]
    rw [elf_process_loaded_memory,own_memory]

/-- A block for the record of an ELF file is there, and so is the memory for the image of a file that is opened as one,
    which has bytes. -/
structure ElfGranted (services : FileServices φ) (filename : CString) (s : World φ) : Prop where
  record : (s.kzalloc 132).1 ≠ 0
  image : ∀ fd u res size v, ((s.kzalloc 132).2.setElf (s.kzalloc 132).1 fun _ => ⟨0,0,0,0,0⟩).onFiles
    (services.fopen filename [114]) = .ok (fd,u) → 0 < fd → u.onFiles (services.fstat fd) = .ok ((res,size),v) → 0 ≤ res →
    Fits size ∧ (v.kzalloc size).1 ≠ 0

/-- The file has bytes when it is opened once more as a flat binary. -/
structure ProgramGranted (services : FileServices φ) (filename : CString) (p : Nat) (s : World φ) : Prop where
  elf : ElfGranted services filename s
  flat : ∀ res x fd u res' size v, process_load_elf services filename p s = .ok (res,x) →
    x.onFiles (services.fopen filename [114]) = .ok (fd,u) → u.onFiles (services.fstat fd) = .ok ((res',size),v) → 0 ≤ res' →
    Fits size

/-- A load of an ELF file, whether it succeeds or not. -/
theorem elf_load_grows {filename : CString} {file_out : Nat} (layer : Discreet services own scratch) (order : InOrder own s)
    (memory : ElfGranted services filename s) (ran : elf_load services filename s = .ok (res,file_out,t)) :
    Grows own scratch [] s t := by
  have record := memory.record
  have taken : Grows own scratch [granted s 132] s ((s.kzalloc 132).2.setElf (s.kzalloc 132).1 fun _ => ⟨0,0,0,0,0⟩) :=
    (Grows.kzalloc (by decide) (by decide) record).then (.same rfl rfl)
  obtain ⟨fd,u,opened,zeroed,outcome⟩ := elf_load_cases record ran
  have opening : Grows own scratch [granted s 132] s u := taken.then (.call (layer.fopen filename [114]) opened)
  rcases outcome with ⟨_,rfl⟩ | ⟨positive,_,v,closed,loaded,close⟩
  · exact opening.all
  have imaged : Imaged own scratch (s.kzalloc 132).1 u v := elf_load_opened_imaged layer (opening.inOrder order) zeroed
    (fun res size v stat => memory.image fd u res size v opened positive stat) loaded
  have closing : Grows own scratch [] (if res < 0 then elf_file_free (s.kzalloc 132).1 v else v) t := .call (layer.fclose fd) close
  refine Grows.then ?_ closing
  by_cases failed : res < 0
  · rw [if_pos failed]
    unfold elf_file_free
    cases imaged with
    | none null grows =>
      rw [if_neg (not_not.mpr null)]
      exact (opening.then grows).release order (by decide) (by decide) record
    | @image w size order' low small some own_memory grows =>
      rw [own_memory,if_pos some]
      have both : Grows own scratch (granted w size :: [granted s 132]) s v := opening.trans grows
      exact (both.release order' low small some).release order (by decide) (by decide) record
  · rw [if_neg failed]
    exact (opening.then imaged.all).all

private theorem elf_load_record {filename : CString} {file_out : Nat}
    (ran : elf_load services filename s = .ok (res,file_out,t)) : file_out < 4294967296 := by
  have pointer := kzalloc_lt s.kernel 132
  unfold elf_load at ran
  rcases granting : s.kzalloc 132 with ⟨elf_file,s₁⟩
  have address : elf_file = (s.kzalloc 132).1 := by rw [granting]
  rw [granting] at ran
  dsimp only at ran
  obtain ⟨⟨fd,u⟩,_,ran⟩ := bind_ok ran
  dsimp only at ran
  split_ifs at ran with missing
  · cases ran
    decide
  · obtain ⟨⟨res₁,v⟩,_,ran⟩ := bind_ok ran
    obtain ⟨⟨closed,w⟩,_,ran⟩ := bind_ok ran
    cases ran
    split_ifs
    · decide
    · rw [address]
      exact pointer

/-- The record of a process without allocations, whose pointers are 32-bit values. -/
structure Bare (v : Process) : Prop where
  ptr : v.ptr < 4294967296
  stack : v.stack < 4294967296
  allocations : ∀ j, (v.allocations j).ptr = 0

theorem bare_zero : Bare .zero := ⟨by decide,by decide,fun _ => rfl⟩

/-- A load of a flat binary, whether it succeeds or not. -/
private theorem process_load_binary_grows {filename : CString} (layer : Discreet services own scratch) (order : InOrder own s)
    (bare : Bare (s.process p)) (fits : ∀ fd u res size v, s.onFiles (services.fopen filename [114]) = .ok (fd,u) →
      u.onFiles (services.fstat fd) = .ok ((res,size),v) → 0 ≤ res → Fits size)
    (ran : process_load_binary services filename p s = .ok (res,t)) :
    Grows own scratch [] s t ∧ Bare (t.process p) := by
  have records : ∀ {α : Type} {call : φ → Kernel → Except Stop (α × φ × Kernel)} {result : α} {u v : World φ},
      u.onFiles call = .ok (result,v) → v.process = u.process := by
    intro α call result u v ran
    obtain ⟨_,_,_,rfl⟩ := onFiles_ok ran
    rfl
  unfold process_load_binary at ran
  obtain ⟨⟨fd,u⟩,opened,ran⟩ := bind_ok ran
  have opening : Grows own scratch [] s u := .call (layer.fopen filename [114]) opened
  have process := records opened
  dsimp only at ran
  split_ifs at ran with missing
  · cases ran
    exact ⟨opening,process ▸ bare⟩
  obtain ⟨⟨⟨res₁,file_size⟩,v⟩,stat,ran⟩ := bind_ok ran
  have asking : Grows own scratch [] s v := opening.then (.call (layer.fstat fd) stat)
  have process := (records stat).trans process
  dsimp only at ran
  by_cases failed : res₁ ≠ 0
  · rw [if_pos failed] at ran
    obtain ⟨⟨_,w⟩,close,ran⟩ := bind_ok ran
    cases ran
    exact ⟨asking.then (.call (layer.fclose fd) close),((records close).trans process) ▸ bare⟩
  rw [if_neg failed] at ran
  obtain ⟨low,small⟩ := fits _ _ _ _ _ opened stat (by omega)
  have pointer := kzalloc_lt v.kernel file_size
  rcases granting : v.kzalloc file_size with ⟨program_data_ptr,v₁⟩
  rw [granting] at ran
  dsimp only at ran
  have address : program_data_ptr = (v.kzalloc file_size).1 := by rw [granting]
  have kernel : v₁ = (v.kzalloc file_size).2 := by rw [granting]
  subst address kernel
  by_cases null : (v.kzalloc file_size).1 = 0
  · rw [if_pos null] at ran
    obtain ⟨⟨_,w⟩,close,ran⟩ := bind_ok ran
    cases ran
    have same : (v.kzalloc file_size).2.process = v.process := rfl
    exact ⟨(asking.then (.refused low small null)).then (.call (layer.fclose fd) close),
      (((records close).trans same).trans process) ▸ bare⟩
  rw [if_neg null] at ran
  obtain ⟨⟨count,w⟩,read,ran⟩ := bind_ok ran
  have filled : Grows own scratch [granted v file_size] s w :=
    asking.trans (Grows.filled layer low small null rfl rfl read)
  have process := (records read).trans process
  dsimp only at ran
  by_cases short : count ≠ 1
  · rw [if_pos short] at ran
    obtain ⟨⟨_,x⟩,close,ran⟩ := bind_ok ran
    cases ran
    have closing : Grows own scratch [granted v file_size] s x := filled.then (.call (layer.fclose fd) close)
    exact ⟨closing.release (asking.inOrder order) low small null,((records close).trans process) ▸ bare⟩
  · rw [if_neg short] at ran
    obtain ⟨⟨_,x⟩,close,ran⟩ := bind_ok ran
    cases ran
    have noted : Grows own scratch [] s (w.setProcess p fun u =>
        { u with filetype := .BINARY, ptr := (v.kzalloc file_size).1, size := file_size }) := filled.all.then (.same rfl rfl)
    refine ⟨noted.then (.call (layer.fclose fd) close),?_⟩
    rw [records close]
    simp only [World.setProcess,Function.update_self,process]
    exact ⟨pointer,bare.stack,bare.allocations⟩

/-- The program's data and its stack. -/
theorem process_prepare_grows {filename : CString} (layer : Discreet services own scratch) (order : InOrder own s)
    (bare : Bare (s.process p)) (memory : ProgramGranted services filename p s)
    (ran : process_prepare services filename p s = .ok (res,t)) : Grows own scratch [] s t ∧ Bare (t.process p) := by
  unfold process_prepare process_load_data process_load_elf at ran
  obtain ⟨⟨res₁,u⟩,data,ran⟩ := bind_ok ran
  obtain ⟨⟨res₂,v⟩,elf,data⟩ := bind_ok data
  have flat := fun fd u res' size w => memory.flat res₂ v fd u res' size w elf
  obtain ⟨⟨res₃,elf_file,x⟩,loaded,elf⟩ := bind_ok elf
  have first : Grows own scratch [] s x := elf_load_grows layer order memory.elf loaded
  have process : x.process = s.process := (elf_load_same loaded).process
  have record := elf_load_record loaded
  dsimp only at elf data ran
  have second : Grows own scratch [] s v ∧ Bare (v.process p) := by
    split_ifs at elf with failed
    · cases elf
      exact ⟨first,process ▸ bare⟩
    · cases elf
      refine ⟨first.then (.same rfl rfl),?_⟩
      simp only [World.setProcess,Function.update_self,process]
      exact ⟨record,bare.stack,bare.allocations⟩
  have third : Grows own scratch [] s u ∧ Bare (u.process p) := by
    split_ifs at data with format
    · obtain ⟨grows,bare'⟩ := process_load_binary_grows layer (second.1.inOrder order) second.2 flat data
      exact ⟨second.1.then grows,bare'⟩
    · cases data
      exact second
  have stacked : Grows own scratch [] u (u.kzalloc SIMPOS_USER_PROGRAM_STACK_SIZE).2 := .request (by decide) (by decide)
  have pointer := kzalloc_lt u.kernel SIMPOS_USER_PROGRAM_STACK_SIZE
  have same : (u.kzalloc SIMPOS_USER_PROGRAM_STACK_SIZE).2.process = u.process := rfl
  rcases granting : u.kzalloc SIMPOS_USER_PROGRAM_STACK_SIZE with ⟨stack,w⟩
  rw [granting] at ran stacked same
  have address : stack = (u.kzalloc SIMPOS_USER_PROGRAM_STACK_SIZE).1 := by rw [granting]
  have last : Grows own scratch [] s (w.setProcess p fun v => { v with stack := stack }) ∧
      Bare ((w.setProcess p fun v => { v with stack := stack }).process p) := by
    refine ⟨(third.1.then stacked).then (.same rfl rfl),?_⟩
    dsimp only at same
    simp only [World.setProcess,Function.update_self,same]
    exact ⟨third.2.ptr,by rw [address]; exact pointer,third.2.allocations⟩
  dsimp only at ran
  split_ifs at ran
  · cases ran
    exact third
  · cases ran
    exact last
  · cases ran
    exact last

end

/-! ### A program that gets its memory -/

section
variable {services : FileServices φ} {filename : CString} {size : Nat} {s u v : World φ}

/-- A file that is opened and asked for its size has it, and the heap is as before. -/
private theorem binary_asked {fd res : Int} {n : Nat} (file : BinaryFile services filename size)
    (opened : s.onFiles (services.fopen filename [114]) = .ok (fd,u)) (stat : u.onFiles (services.fstat fd) = .ok ((res,n),v)) :
    n = size ∧ v.kernel = s.kernel := by
  obtain ⟨_,_,open_answer,after⟩ := onFiles_ok opened
  obtain ⟨_,_,positive,open_result⟩ := file.opens s.files s.kernel
  cases open_result.symm.trans open_answer
  have same : u.kernel = s.kernel := by rw [after]
  obtain ⟨_,_,stat_answer,rfl⟩ := onFiles_ok stat
  obtain ⟨_,stat_result⟩ := file.stat fd u.files u.kernel positive
  cases stat_result.symm.trans stat_answer
  exact ⟨rfl,same⟩

/-- With few live blocks a binary file gets the memory that its load asks for. -/
theorem program_granted {live : List Extent} (file : BinaryFile services filename size) (fits : Fits size)
    (laid : Laid s.kernel.kernel_heap live) (few : taken live + blocks size + 1034 < 25600 / max 4 (blocks size)) :
    ProgramGranted services filename (process_block s) (process_cleared s) := by
  have four : 25600 / max 4 (blocks size) ≤ 25600 / 4 := Nat.div_le_div_left (le_max_left _ _) (by decide)
  have sized : 25600 / max 4 (blocks size) ≤ 25600 / blocks size := by
    have := fits.1
    exact Nat.div_le_div_left (le_max_right _ _) (by unfold blocks; omega)
  have high : size ≤ 0xFFFFF000 := Nat.le_trans fits.2 (by decide)
  have three : blocks 9364 = 3 := by decide
  have one : blocks 132 = 1 := by decide
  obtain ⟨b,k,granted,_,_,laid₁⟩ := kzalloc_few 9364 laid (by decide) (by decide) (by rw [three]; omega)
  have kernel : (process_cleared s).kernel = k := by
    unfold process_cleared World.kzalloc
    rw [granted]
    rfl
  obtain ⟨b₁,k₁,granted₁,_,_,laid₂⟩ := kzalloc_few 132 laid₁ (by decide) (by decide) (by rw [one,taken_cons]; dsimp only; omega)
  obtain ⟨b₂,k₂,granted₂,_,_,_⟩ := kzalloc_few size laid₂ fits.1 high (by rw [taken_cons,taken_cons]; dsimp only; omega)
  rw [← kernel] at granted₁
  refine ⟨⟨?_,fun fd u res n v opened _ stat _ => ?_⟩,fun res x fd u res' n v _ opened stat _ => ?_⟩
  · change (KernelHeap.kzalloc (process_cleared s).kernel 132).1 ≠ 0
    rw [granted₁]
    exact (blockAddress_pos b₁).ne'
  · obtain ⟨rfl,same⟩ := binary_asked file opened stat
    refine ⟨fits,?_⟩
    change (KernelHeap.kzalloc v.kernel n).1 ≠ 0
    rw [same]
    change (KernelHeap.kzalloc (KernelHeap.kzalloc (process_cleared s).kernel 132).2 n).1 ≠ 0
    rw [granted₁,granted₂]
    exact (blockAddress_pos b₂).ne'
  · obtain ⟨rfl,_⟩ := binary_asked file opened stat
    exact fits

end

/-- Files of 32 bytes take no blocks, and are discreet where a read writes only what it is to fill. -/
theorem zeroFiles_discreet {fill : Nat → Nat → Bytes → Bytes}
    (kept : ∀ ptr size m x, (∀ j < size, x ≠ offset ptr j) → fill ptr size m x = m x) :
    Discreet
      { zeroFiles with
        fread := fun ptr size nmemb _ files k => .ok (1, files, { k with memory := fill ptr (size * nmemb) k.memory }) }
      (fun _ => []) (fun _ => False) := by
  constructor
  · intro filename mode files k held result files' k' laid answer
    cases answer
    exact ⟨⟨[],laid⟩,fun _ _ _ => rfl⟩
  · intro fd files k held result files' k' laid answer
    cases answer
    exact ⟨⟨[],laid⟩,fun _ _ _ => rfl⟩
  · intro ptr size nmemb fd files k held result files' k' laid answer
    cases answer
    refine ⟨⟨[],laid⟩,fun x _ outside => ?_⟩
    exact kept ptr _ _ x fun j below same => outside ⟨j,below,same⟩
  · intro fd files k held result files' k' laid answer
    cases answer
    exact ⟨⟨[],laid⟩,fun _ _ _ => rfl⟩

end SimpOS.LoadFrames
