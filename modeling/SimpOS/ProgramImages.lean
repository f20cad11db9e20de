import SimpOS.FlatBinaries
import SimpOS.NewProcesses

/-!
From the file of a program to the memory that the program sees. Loading reads the file to a buffer of the
heap and takes another one for the stack; nothing of what is done afterwards writes to them, and the
directory of the process leads the addresses of the program and of its stack there.
-/
namespace SimpOS.ProgramImages
open SimpOS.Machine SimpOS.Strings SimpOS.Memory SimpOS.Extents SimpOS.Paging SimpOS.HeapLayout SimpOS.KernelHeap SimpOS.AddressSpaces
open SimpOS.PageDirectories SimpOS.PageMapping SimpOS.Isolation SimpOS.ElfLoader SimpOS.FatSystem SimpOS.Processes
open SimpOS.ProcessLoads SimpOS.LoadLeaks SimpOS.FailedLoads SimpOS.LoadFrames SimpOS.NewProcesses
open SimpOS.BinaryLoads (BinaryFile zeroFiles bootWorld bootWorld_laid bootWorld_slot process_load_binary_file)
open SimpOS.FlatBinaries (FlatBinary FlatSpace map_flat_iff process_map_memory_flat stack_end)

variable {φ : Type}

/-- The file has so many bytes: when it is opened it tells their number, and read at once it delivers them. -/
def Delivers (services : FileServices φ) (filename : CString) (size : Nat) (file : Nat → UInt8) : Prop :=
  ∀ files k fd files₁ k₁, services.fopen filename [114] files k = .ok (fd,files₁,k₁) → fd ≠ 0 →
    ∀ res n files₂ k₂, services.fstat fd files₁ k₁ = .ok ((res,n),files₂,k₂) → 0 ≤ res → (res = 0 ∧ n = size) ∧
      ∀ ptr k₃ count files₃ k₄, services.fread ptr size 1 fd files₂ k₃ = .ok (count,files₃,k₄) → 0 ≤ count →
        ∀ j < size, k₄.memory (offset ptr j) = file j

/-! ### Buffers that are kept -/

/-- The bytes lie in an extent, from its start on. -/
structure Image (t : World φ) (e : Extent) (ptr size : Nat) (bytes : Nat → UInt8) : Prop where
  low : 0 ≤ e.first
  start : ptr = blockAddress e.first
  fits : size ≤ 4096 * e.count
  high : ptr + size ≤ 0xFFFFF000
  bytes : ∀ j < size, t.kernel.memory (ptr + j) = bytes j

section
variable {services : FileServices φ} {own : φ → List Extent} {scratch : Nat → Prop} {mine more : List Extent} {e : Extent}
  {s t u v : World φ} {p ptr size : Nat} {bytes file : Nat → UInt8} {res : Int}

theorem Image.inside (image : Image t e ptr size bytes) {j : Nat} (below : j < size) : blockOf (ptr + j) ∈ e := by
  have fits := image.fits
  have start := image.start
  exact (blockOf_mem image.low).mpr (by omega)

/-- What is taken later leaves it alone. -/
theorem Image.kept (image : Image t e ptr size bytes) (first : Grows own scratch mine s t) (member : e ∈ mine)
    (order : InOrder own s) (next : Grows own scratch more t u) : Image u e ptr size bytes := by
  refine ⟨image.low,image.start,image.fits,image.high,fun j below => ?_⟩
  obtain ⟨held,laid⟩ := order
  obtain ⟨⟨left,laid'⟩,_⟩ := first held laid
  rw [(next _ laid').2 (ptr + j) (.inr ⟨e,by simp [member],image.inside below⟩)]
  exact image.bytes j below

theorem Image.same (image : Image t e ptr size bytes) (kernel : u.kernel = t.kernel) : Image u e ptr size bytes :=
  ⟨image.low,image.start,image.fits,image.high,by rw [kernel]; exact image.bytes⟩

/-- A request that is granted is zero. -/
theorem kzalloc_image (order : InOrder own s) (low : 0 < size) (small : size ≤ 0xF8C00000) (some : (s.kzalloc size).1 ≠ 0) :
    Image (s.kzalloc size).2 (granted s size) (s.kzalloc size).1 size fun _ => 0 := by
  obtain ⟨held,laid⟩ := order
  rcases kzalloc_served laid low small with refused | ⟨e,same,served⟩
  · exact absurd (congrArg Prod.fst refused) some
  have extent : granted s size = e := same.symm
  have high : (s.kzalloc size).1 + size ≤ 0xFFFFF000 := served.high
  rw [extent]
  refine ⟨served.low,served.start,served.fits,served.high,fun j below => ?_⟩
  have filled : (s.kzalloc size).2.kernel.memory = memset (kmalloc s.kernel size).2.memory (s.kzalloc size).1 0x00 size := by
    unfold World.kzalloc KernelHeap.kzalloc at some ⊢
    dsimp only at some ⊢
    by_cases null : (kmalloc s.kernel size).1 = 0
    · rw [if_pos null] at some
      exact absurd rfl some
    · rw [if_neg null]
  rw [filled,memset_apply (by omega),if_pos (by omega)]

/-- A buffer that the file is read to. -/
theorem read_image {fd count : Int} (layer : Discreet services own scratch) (order : InOrder own s) (low : 0 < size)
    (small : size ≤ 0xF8C00000) (some : (s.kzalloc size).1 ≠ 0)
    (ran : u.onFiles (services.fread (s.kzalloc size).1 size 1 fd) = .ok (count,t))
    (kernel : u.kernel = (s.kzalloc size).2.kernel) (files : u.files = s.files)
    (delivered : ∀ j < size, t.kernel.memory (offset (s.kzalloc size).1 j) = file j) :
    Grows own scratch [granted s size] s t ∧ Image t (granted s size) (s.kzalloc size).1 size file := by
  obtain ⟨low',start,fits,high,_⟩ := kzalloc_image order low small some
  refine ⟨Grows.filled layer low small some kernel files ran,low',start,fits,high,fun j below => ?_⟩
  rw [← delivered j below,offset_of_lt (by omega)]

/-! ### Reading the file -/

/-- The file has just been opened. -/
def Opened (services : FileServices φ) (filename : CString) (fd : Int) (s : World φ) : Prop :=
  ∃ files k, services.fopen filename [114] files k = .ok (fd,s.files,s.kernel)

theorem opened_of {filename : CString} {fd : Int} (ran : s.onFiles (services.fopen filename [114]) = .ok (fd,u)) :
    Opened services filename fd u := by
  obtain ⟨files,k,answer,rfl⟩ := onFiles_ok ran
  exact ⟨_,_,answer⟩

section
variable {filename : CString} {file_out : Nat} {fd : Int} (layer : Discreet services own scratch) (order : InOrder own s)
  (delivers : Delivers services filename size file)
include layer order delivers

private theorem elf_load_opened_image {elf_file : Nat} (opened : Opened services filename fd s) (some : fd ≠ 0)
    (image : ∀ res size v, s.onFiles (services.fstat fd) = .ok ((res,size),v) → 0 ≤ res → Fits size ∧ (v.kzalloc size).1 ≠ 0)
    (ran : elf_load_opened services elf_file fd s = .ok (res,t)) (passed : 0 ≤ res) :
    Fits size ∧ ∃ e, Grows own scratch [e] s t ∧ Image t e (t.elf_file elf_file).elf_memory size file := by
  obtain ⟨files,k,opened⟩ := opened
  unfold elf_load_opened at ran
  obtain ⟨⟨⟨res₁,file_size⟩,u⟩,stat,ran⟩ := bind_ok ran
  have asked : Grows own scratch [] s u := .call (layer.fstat fd) stat
  dsimp only at ran
  by_cases failed : res₁ < 0
  · rw [if_pos failed] at ran
    cases ran
    omega
  rw [if_neg failed] at ran
  obtain ⟨fits,granted⟩ := image _ _ _ stat (by omega)
  obtain ⟨files',k',told,rfl⟩ := onFiles_ok stat
  obtain ⟨⟨_,rfl⟩,reading⟩ := delivers _ _ _ _ _ opened some _ _ _ _ told (by omega)
  unfold elf_load_file at ran
  rcases granting : World.kzalloc { s with files := files', kernel := k' } file_size with ⟨elf_memory,v⟩
  rw [granting] at ran
  dsimp only at ran
  have address : elf_memory = (World.kzalloc { s with files := files', kernel := k' } file_size).1 := by rw [granting]
  have kernel : v = (World.kzalloc { s with files := files', kernel := k' } file_size).2 := by rw [granting]
  subst address kernel
  obtain ⟨⟨count,w⟩,read,ran⟩ := bind_ok ran
  dsimp only at ran
  by_cases short : count < 0
  · rw [if_pos short] at ran
    cases ran
    omega
  rw [if_neg short] at ran
  obtain ⟨files'',k'',answer,after⟩ := onFiles_ok read
  have delivered := reading _ _ _ _ _ answer (by omega)
  obtain ⟨filled,held⟩ := read_image layer (asked.inOrder order) fits.1 fits.2 granted read rfl rfl (by rw [after]; exact delivered)
  cases ran
  have own_memory : ((w.setElf elf_file fun _ => (elf_process_loaded w.kernel.memory (w.elf_file elf_file)).2).elf_file
      elf_file).elf_memory = (World.kzalloc { s with files := files', kernel := k' } file_size).1 := by
    simp only [World.setElf,Function.update_self]
    rw [elf_process_loaded_memory,after]
    simp only [World.setElf,Function.update_self]
  rw [own_memory]
  exact ⟨fits,_,asked.trans (filled.then (.same rfl rfl)),held.same rfl⟩

/-- An ELF file that has been loaded lies in the memory of its record. -/
theorem elf_load_image (memory : ElfGranted services filename s) (ran : elf_load services filename s = .ok (res,file_out,t))
    (passed : 0 ≤ res) :
    Fits size ∧ ∃ e, Grows own scratch [e] s t ∧ Image t e (t.elf_file file_out).elf_memory size file := by
  have record := memory.record
  have taken : Grows own scratch [] s ((s.kzalloc 132).2.setElf (s.kzalloc 132).1 fun _ => ⟨0,0,0,0,0⟩) :=
    (Grows.then (Grows.kzalloc (by decide) (by decide) record) (.same rfl rfl)).all
  obtain ⟨fd,u,opened,_,⟨error,_⟩ | ⟨positive,out,v,closed,loaded,close⟩⟩ := elf_load_cases record ran
  · exact absurd error (by have : Machine.EIO = 1 := rfl; omega)
  have opening : Grows own scratch [] s u := taken.then (.call (layer.fopen filename [114]) opened)
  have image := fun res size v stat => memory.image fd u res size v opened positive stat
  rw [if_neg (by omega)] at out close
  subst out
  obtain ⟨fits,e,grows,held⟩ :=
    elf_load_opened_image layer (opening.inOrder order) delivers (opened_of opened) (by omega) image loaded passed
  have closing : Grows own scratch [] v t := .call (layer.fclose fd) close
  have kept := held.kept grows (List.mem_cons_self ..) (opening.inOrder order) closing
  obtain ⟨files',k',_,rfl⟩ := onFiles_ok close
  exact ⟨fits,e,(opening.trans grows).then closing,kept⟩

/-- A flat binary that has been loaded lies in the memory of its process. -/
theorem process_load_binary_image (fits : ∀ fd u res size v, s.onFiles (services.fopen filename [114]) = .ok (fd,u) →
      u.onFiles (services.fstat fd) = .ok ((res,size),v) → 0 ≤ res → Fits size)
    (ran : process_load_binary services filename p s = .ok (res,t)) (passed : 0 ≤ res) :
    Fits size ∧ (t.process p).filetype = .BINARY ∧ (t.process p).size = size ∧
      ∃ e, Grows own scratch [e] s t ∧ Image t e (t.process p).ptr size file := by
  have records : ∀ {α : Type} {call : φ → Kernel → Except Stop (α × φ × Kernel)} {result : α} {u v : World φ},
      u.onFiles call = .ok (result,v) → v.process = u.process := by
    intro α call result u v ran
    obtain ⟨_,_,_,rfl⟩ := onFiles_ok ran
    rfl
  have code : Machine.EIO = 1 ∧ ENOMEM = 3 := ⟨rfl,rfl⟩
  unfold process_load_binary at ran
  obtain ⟨⟨fd,u⟩,opened,ran⟩ := bind_ok ran
  have opening : Grows own scratch [] s u := .call (layer.fopen filename [114]) opened
  dsimp only at ran
  by_cases missing : fd = 0
  · rw [if_pos missing] at ran
    cases ran
    omega
  rw [if_neg missing] at ran
  obtain ⟨⟨⟨res₁,file_size⟩,v⟩,stat,ran⟩ := bind_ok ran
  have asking : Grows own scratch [] s v := opening.then (.call (layer.fstat fd) stat)
  obtain ⟨files',k',told,same⟩ := onFiles_ok stat
  dsimp only at ran
  by_cases failed : res₁ ≠ 0
  · rw [if_pos failed] at ran
    obtain ⟨⟨_,w⟩,close,ran⟩ := bind_ok ran
    cases ran
    obtain ⟨files,k,opened⟩ := opened_of opened
    exact absurd (delivers _ _ _ _ _ opened missing _ _ _ _ told passed).1.1 failed
  rw [if_neg failed] at ran
  have enough := fits _ _ _ _ _ opened stat (by omega)
  obtain ⟨files,k,opened⟩ := opened_of opened
  obtain ⟨⟨_,rfl⟩,reading⟩ := delivers _ _ _ _ _ opened missing _ _ _ _ told (by omega)
  subst same
  rcases granting : World.kzalloc { u with files := files', kernel := k' } file_size with ⟨program_data_ptr,v⟩
  rw [granting] at ran
  dsimp only at ran
  have address : program_data_ptr = (World.kzalloc { u with files := files', kernel := k' } file_size).1 := by rw [granting]
  have kernel : v = (World.kzalloc { u with files := files', kernel := k' } file_size).2 := by rw [granting]
  subst address kernel
  by_cases null : (World.kzalloc { u with files := files', kernel := k' } file_size).1 = 0
  · rw [if_pos null] at ran
    obtain ⟨⟨_,w⟩,close,ran⟩ := bind_ok ran
    cases ran
    omega
  rw [if_neg null] at ran
  obtain ⟨⟨count,w⟩,read,ran⟩ := bind_ok ran
  dsimp only at ran
  by_cases short : count ≠ 1
  · rw [if_pos short] at ran
    obtain ⟨⟨_,x⟩,close,ran⟩ := bind_ok ran
    cases ran
    omega
  rw [if_neg short] at ran
  obtain ⟨⟨_,x⟩,close,ran⟩ := bind_ok ran
  cases ran
  obtain ⟨files'',k'',answer,after⟩ := onFiles_ok read
  have delivered := reading _ _ _ _ _ answer (by omega)
  obtain ⟨filled,held⟩ := read_image layer (asking.inOrder order) enough.1 enough.2 null read rfl rfl (by rw [after]; exact delivered)
  have buffer : Grows own scratch [granted { u with files := files', kernel := k' } file_size] s
      (w.setProcess p fun v => { v with
        filetype := .BINARY
        ptr := (World.kzalloc { u with files := files', kernel := k' } file_size).1
        size := file_size }) := (asking.trans filled).then (.same rfl rfl)
  have closing : Grows own scratch [] _ x := .call (layer.fclose fd) close
  have kept := (held.same rfl).kept buffer (List.mem_cons_self ..) order closing
  refine ⟨enough,?_,?_,_,buffer.then closing,?_⟩
  · rw [records close]
    simp only [World.setProcess,Function.update_self]
  · rw [records close]
    simp only [World.setProcess,Function.update_self]
  · rw [records close]
    simp only [World.setProcess,Function.update_self]
    exact kept

/-! ### The program and its stack -/

/-- Where the file of the process lies. -/
def program_data (p : Nat) (s : World φ) : Nat :=
  match (s.process p).filetype with
  | .ELF => (s.elf_file (s.process p).ptr).elf_memory
  | .BINARY => (s.process p).ptr

private theorem process_load_data_image (memory : ProgramGranted services filename p s)
    (ran : process_load_data services filename p s = .ok (res,t)) (passed : 0 ≤ res) :
    Fits size ∧ ((t.process p).filetype = .BINARY → (t.process p).size = size) ∧
      ∃ e, Grows own scratch [e] s t ∧ Image t e (program_data p t) size file := by
  unfold process_load_data process_load_elf at ran
  obtain ⟨⟨res₂,v⟩,elf,ran⟩ := bind_ok ran
  have flat := fun fd u res' size w => memory.flat res₂ v fd u res' size w elf
  obtain ⟨⟨res₃,elf_file,x⟩,loaded,elf⟩ := bind_ok elf
  have first : Grows own scratch [] s x := elf_load_grows layer order memory.elf loaded
  have code : EINFORMAT = 9 := rfl
  dsimp only at elf ran
  by_cases refused : res₃ < 0
  · rw [if_pos refused] at elf
    cases elf
    by_cases format : res₂ = -EINFORMAT
    · rw [if_pos format] at ran
      obtain ⟨fits,filetype,count,e,grows,image⟩ := process_load_binary_image layer (first.inOrder order) delivers flat ran passed
      refine ⟨fits,fun _ => count,e,first.trans grows,?_⟩
      unfold program_data
      rw [filetype]
      exact image
    · rw [if_neg format] at ran
      cases ran
      omega
  · rw [if_neg refused] at elf
    cases elf
    rw [if_neg (by omega)] at ran
    cases ran
    obtain ⟨fits,e,grows,image⟩ := elf_load_image layer order delivers memory.elf loaded passed
    have data : program_data p (x.setProcess p fun v => { v with filetype := .ELF, ptr := elf_file }) = (x.elf_file elf_file).elf_memory := by
      unfold program_data
      simp only [World.setProcess,Function.update_self]
    refine ⟨fits,fun other => ?_,e,grows.then (.same rfl rfl),?_⟩
    · simp [World.setProcess] at other
    · rw [data]
      exact image.same rfl

/-- A process that has been prepared has its file and its stack in blocks of its own. -/
theorem process_prepare_image (memory : ProgramGranted services filename p s)
    (ran : process_prepare services filename p s = .ok (res,t)) (passed : 0 ≤ res) :
    Fits size ∧ ((t.process p).filetype = .BINARY → (t.process p).size = size) ∧ ∃ e e', Grows own scratch [e',e] s t ∧
      Image t e (program_data p t) size file ∧ Image t e' (t.process p).stack SIMPOS_USER_PROGRAM_STACK_SIZE fun _ => 0 := by
  have code : ENOMEM = 3 := rfl
  unfold process_prepare at ran
  obtain ⟨⟨res₁,u⟩,data,ran⟩ := bind_ok ran
  dsimp only at ran
  by_cases failed : res₁ < 0
  · rw [if_pos failed] at ran
    cases ran
    omega
  rw [if_neg failed] at ran
  obtain ⟨fits,count,e,grows,image⟩ := process_load_data_image layer order delivers memory data (by omega)
  rcases granting : u.kzalloc SIMPOS_USER_PROGRAM_STACK_SIZE with ⟨stack,v⟩
  rw [granting] at ran
  dsimp only at ran
  have address : stack = (u.kzalloc SIMPOS_USER_PROGRAM_STACK_SIZE).1 := by rw [granting]
  have kernel : v = (u.kzalloc SIMPOS_USER_PROGRAM_STACK_SIZE).2 := by rw [granting]
  subst address kernel
  by_cases null : (u.kzalloc SIMPOS_USER_PROGRAM_STACK_SIZE).1 = 0
  · rw [if_pos null] at ran
    cases ran
    omega
  rw [if_neg null] at ran
  cases ran
  have taken : Grows own scratch [granted u SIMPOS_USER_PROGRAM_STACK_SIZE] u (u.kzalloc SIMPOS_USER_PROGRAM_STACK_SIZE).2 :=
    .kzalloc (by decide) (by decide) null
  have zero := kzalloc_image (grows.inOrder order) (by decide) (by decide) null
  have kept := image.kept grows (List.mem_cons_self ..) order taken
  have stacked : ∀ v : World φ, v = (u.kzalloc SIMPOS_USER_PROGRAM_STACK_SIZE).2.setProcess p (fun v =>
      { v with stack := (u.kzalloc SIMPOS_USER_PROGRAM_STACK_SIZE).1 }) → program_data p v = program_data p u ∧
      (v.process p).stack = (u.kzalloc SIMPOS_USER_PROGRAM_STACK_SIZE).1 ∧ (v.process p).filetype = (u.process p).filetype ∧
      (v.process p).size = (u.process p).size := by
    rintro v rfl
    simp [program_data,World.setProcess,World.kzalloc]
  obtain ⟨data_same,stack_same,filetype,size_same⟩ := stacked _ rfl
  refine ⟨fits,?_,e,_,(grows.trans taken).then (.same rfl rfl),?_,?_⟩
  · rw [filetype,size_same]
    exact count
  · rw [data_same]
    exact kept.same rfl
  · rw [stack_same]
    exact zero.same rfl

end

/-! ### What the program finds -/

/-- At its addresses the program finds its file, and zeros on its stack. -/
structure Finds (v : World φ) (p size : Nat) (file : Nat → UInt8) : Prop where
  program : ∀ j < size, v.kernel.memory (leads p v (SIMPOS_PROGRAM_VIRTUAL_ADDRESS + j)) = file j
  stack : ∀ j < SIMPOS_USER_PROGRAM_STACK_SIZE, v.kernel.memory (leads p v (SIMPOS_PROGRAM_VIRTUAL_STACK_ADDRESS_END + j)) = 0

/-- Pages that are mapped one behind the other lead to the bytes behind the first one's. -/
theorem leads_mapped {virt first n j : Nat} (virtAligned : virt % 4096 = 0) (aligned : first % 4096 = 0)
    (mapped : ∀ i < (n + 4095) / 4096, paging_get s.kernel.memory (directoryOf p s) (virt + 4096 * i) = (first + 4096 * i) ||| 7)
    (below : j < n) (high : virt + n ≤ 4294967296) (fits : first + n ≤ 0xFFFFF000) : leads p s (virt + j) = first + j := by
  have page : paging_get s.kernel.memory (directoryOf p s) (virt + 4096 * (j / 4096)) = first + 4096 * (j / 4096) + 7 := by
    rw [mapped (j / 4096) (by omega),or_flags (by omega) (by decide)]
  unfold leads
  rw [paging_get_physical_address_eq (by omega) (by omega) page (by omega) (by omega) (by decide)]
  omega

/-- The process whose memory is mapped finds its file and its stack where they have been loaded. -/
theorem process_attach_finds {filename : CString} {slot t : Nat} {live : List Extent} {e' : Extent} (laid : Laid s.kernel.kernel_heap live)
    (room : TaskRoom s.kernel t) (bare : Bare (s.process p)) (flat : (s.process p).filetype = .BINARY)
    (fits : LoadFrames.Fits (s.process p).size) (image : Image s e (s.process p).ptr (s.process p).size file)
    (stack : Image s e' (s.process p).stack SIMPOS_USER_PROGRAM_STACK_SIZE fun _ => 0) (member : e ∈ live) (member' : e' ∈ live)
    (attach : process_attach filename p slot s = (res,u)) : Finds u p (s.process p).size file := by
  obtain ⟨_,_,_,kept⟩ := process_attach_housed laid room bare attach
  obtain ⟨y,tables,c',d,c,maps,mapping⟩ := process_attach_mapping filename p slot laid room
  have record := mapping.record
  have created := mapping.created.space
  have page := mapping.page
  rw [← mapping.chunk] at created page
  have aligned := blockAddress_aligned e.first
  have aligned' := blockAddress_aligned e'.first
  rw [← image.start] at aligned
  rw [← stack.start] at aligned'
  have binary : FlatBinary (y.process p) := by
    have below : (s.process p).size < 4294967296 := Nat.lt_of_le_of_lt fits.2 (by decide)
    rw [record]
    exact ⟨flat,fits.1,below,⟨aligned,bare.ptr⟩,⟨aligned',bare.stack⟩⟩
  obtain ⟨memory,tasks⟩ := process_map_memory_flat y p binary.filetype
  have same := (process_map_memory_same p y).1
  rw [← maps,attach] at memory tasks same
  have chunk : chunkOf p u = chunkOf p y := by
    unfold chunkOf
    rw [same.process,same.task]
  have space : FlatSpace u.kernel.memory (directoryOf p u) (y.process p) := by
    unfold directoryOf
    rw [chunk,memory]
    refine (map_flat_iff binary (by omega) created.1 created.2 mapping.identity).mpr ?_
    rw [record]
    exact ⟨image.high,stack.high,Nat.le_trans fits.2 (by decide)⟩
  rw [record] at space
  have settled : ∀ {f : Extent} {ptr n : Nat} {bytes : Nat → UInt8}, Image s f ptr n bytes → f ∈ live → ∀ j < n,
      u.kernel.memory (ptr + j) = bytes j := fun held member j below =>
    (kept _ (.inr ⟨_,member,held.inside below⟩)).1.trans (held.bytes j below)
  have high := image.high
  obtain ⟨_,small⟩ := fits
  constructor
  · intro j below
    rw [leads_mapped rfl aligned space.program below (by simp only [SIMPOS_PROGRAM_VIRTUAL_ADDRESS]; omega) high]
    exact settled image member j below
  · intro j below
    rw [leads_mapped rfl aligned' (fun i inside => space.stack i (by simpa using inside)) below (by decide) stack.high]
    exact settled stack member' j below

end

/-! ### A program of 32 bytes -/

/-- The memory with the bytes from 16 on stored at a pointer. -/
def counted (ptr size : Nat) (m : Bytes) : Bytes := fun x =>
  if x < 4294967296 ∧ above ptr x < size then UInt8.ofNat (16 + above ptr x) else m x

/-- A disk on which every file has the 32 bytes from 16 on. -/
def countedFiles : FileServices Unit :=
  { zeroFiles with
    fread := fun ptr size nmemb _ files k => .ok (1, files, { k with memory := counted ptr (size * nmemb) k.memory }) }

private theorem counted_byte {m : Bytes} {ptr size j : Nat} (below : j < size) (small : size ≤ 4294967296) :
    counted ptr size m (offset ptr j) = UInt8.ofNat (16 + j) := by
  unfold counted
  rw [above_offset (by omega),if_pos ⟨offset_lt ..,below⟩]

private theorem counted_discreet : Discreet countedFiles (fun _ => []) (fun _ => False) := by
  refine zeroFiles_discreet fun ptr size m x outside => if_neg ?_
  rintro ⟨high,below⟩
  exact outside _ below (offset_above high).symm

private theorem counted_delivers (filename : CString) : Delivers countedFiles filename 32 fun j => UInt8.ofNat (16 + j) := by
  intro files k fd files₁ k₁ opened _ res n files₂ k₂ stat _
  cases stat
  refine ⟨⟨rfl,rfl⟩,fun ptr k₃ count files₃ k₄ read _ j below => ?_⟩
  cases read
  exact counted_byte (by omega) (by decide)

private theorem counted_binary (filename : CString) : BinaryFile countedFiles filename 32 where
  opens _ _ := ⟨1,_,by decide,rfl⟩
  stat _ _ _ _ := ⟨_,rfl⟩
  closes _ _ _ _ := ⟨0,_,rfl⟩
  reads ptr _ _ k _ high := by
    refine ⟨_,_,rfl,?_⟩
    have type : ∀ m : Bytes, (∀ j < 32, m (offset ptr j) = UInt8.ofNat (16 + j)) → e_type m ptr = 0x2120 := by
      intro m byte
      unfold e_type read16
      rw [offset_offset,byte 16 (by decide),byte (16 + 1) (by decide)]
      rfl
    have refused : ∀ m : Bytes, e_type m ptr = 0x2120 → elf_validate_loaded m ptr = -EINFORMAT := by
      intro m same
      simp [elf_validate_loaded,elf_is_executable,same]
    exact refused _ (type _ fun j below => counted_byte (by omega) (by decide))

end SimpOS.ProgramImages
