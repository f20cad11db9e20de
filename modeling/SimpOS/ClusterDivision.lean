import SimpOS.FileInvariants
import SimpOS.OpenedFiles
import SimpOS.VolumeMounts

/-!
The division by the size of a cluster. The mount never looks at the header's sectors per cluster:
with any but zero no call on a file of the volume divides by zero, with zero the first read does.
-/
namespace SimpOS.ClusterDivision
open SimpOS.Machine SimpOS.Strings SimpOS.Memory SimpOS.Extents SimpOS.DiskStreams SimpOS.HeapBlocks SimpOS.HeapLayout
open SimpOS.KernelHeap SimpOS.PathParser SimpOS.ParsedPaths SimpOS.FileLayer SimpOS.FileTable SimpOS.FileInvariants SimpOS.Fat16 SimpOS.FatChains
open SimpOS.FatDirectories SimpOS.DirectoryCounts SimpOS.FatPaths SimpOS.FatSystem SimpOS.OpenFiles SimpOS.DirectoryLookups
open SimpOS.FailedOpens SimpOS.OpenedFiles SimpOS.VolumeMounts SimpOS.Runs

/-! ### The driver -/

section
variable {α β : Type} {header : FatHeader} {zero : PageZero} {drive : Drive} {p : FatPrivate} {k : Kernel}

/-- The driver's data keep the header, and the call divides by zero only where clusters have no size. -/
def Sized (header : FatHeader) : Except Stuck (α × FatPrivate × β) → Prop
  | .ok (_, q, _) => q.primary_header = header
  | .error stuck => header.sectors_per_cluster ≠ 0 → stuck ≠ .division

theorem Sized.bind {γ : Type} {result : Except Stuck (α × FatPrivate × β)} (sized : Sized header result)
    {next : α × FatPrivate × β → Except Stuck (γ × FatPrivate × β)}
    (then_sized : ∀ a q b, q.primary_header = header → Sized header (next (a,q,b))) : Sized header (result.bind next) := by
  rcases result with stuck | ⟨a,q,b⟩
  · exact sized
  · exact then_sized a q b sized

/-- The same of a read, which has no result when it divides by zero and else leaves its data. -/
def ReadSized (header : FatHeader) (data : α → FatPrivate) : Option α → Prop
  | none => header.sectors_per_cluster = 0
  | some result => (data result).primary_header = header

theorem size_of_cluster_bytes_zero : size_of_cluster_bytes p = 0 ↔ p.primary_header.sectors_per_cluster = 0 := by
  rw [size_of_cluster_bytes,← UInt8.toNat_inj]
  simp only [SIMPOS_SECTOR_SIZE,UInt8.toNat_zero]
  omega

private theorem cluster_for_offset_header {cluster offset found : Int} {q : FatPrivate}
    (walk : fat16_get_cluster_for_offset drive p cluster offset = some (found,q)) : q.primary_header = p.primary_header := by
  unfold fat16_get_cluster_for_offset at walk
  split_ifs at walk with none
  have volume := (fat16_get_cluster_loop_cases drive p cluster
    (Int.tdiv offset (size_of_cluster_bytes p)).toNat).1.header
  rw [Option.some.inj walk] at volume
  exact volume

private theorem read_from_stream_sized (p : FatPrivate) (stream : DiskStream) (cluster offset total : Int) (out : Nat)
    (m : Bytes) : ReadSized p.primary_header (fun result => result.2.1)
      (fat16_read_internal_from_stream drive p stream cluster offset total out m) := by
  fun_induction fat16_read_internal_from_stream drive p stream cluster offset total out m
  case case1 none =>
    unfold fat16_get_cluster_for_offset at none
    split_ifs at none with zero
    exact size_of_cluster_bytes_zero.mp zero
  case case2 found _ => exact cluster_for_offset_header found
  case case3 found _ _ _ _ _ _ _ _ _ _ => exact cluster_for_offset_header found
  case case4 found _ _ _ _ _ _ _ _ _ _ _ rest =>
    rw [cluster_for_offset_header found] at rest
    exact rest
  case case5 found _ _ _ _ _ _ _ _ _ _ _ => exact cluster_for_offset_header found

/-- A read keeps the header, and stops only where clusters have no size. -/
theorem read_internal_sized (p : FatPrivate) (cluster offset total : Int) (out : Nat) (m : Bytes) :
    ReadSized p.primary_header (fun result => result.2.1) (fat16_read_internal drive p cluster offset total out m) := by
  have sized := @read_from_stream_sized drive p p.cluster_read_stream cluster offset total out m
  unfold fat16_read_internal
  generalize fat16_read_internal_from_stream drive p p.cluster_read_stream cluster offset total out m = read at sized ⊢
  rcases read with _ | ⟨res,q,stream,m'⟩
  · exact sized
  · exact sized

private theorem read_loop_sized (cluster : Int) (size remaining : Nat) : ∀ (offset : Int) (out : Nat) (p : FatPrivate)
    (m : Bytes), p.primary_header = header →
      ReadSized header (fun result => result.2.2.1) (fat16_read_loop drive cluster size remaining offset out p m) := by
  induction remaining with
  | zero => exact fun offset out p m same => same
  | succ remaining ih =>
    intro offset out p m same
    have sized := @read_internal_sized drive p cluster offset (i32 size) out m
    rw [fat16_read_loop]
    generalize fat16_read_internal drive p cluster offset (i32 size) out m = read at sized ⊢
    rw [same] at sized
    rcases read with _ | ⟨res,q,m'⟩
    · exact sized
    · rw [Option.bind_some]
      dsimp only
      by_cases failed : res < 0
      · rw [if_pos failed]
        exact sized
      · rw [if_neg failed]
        exact ih _ _ q m' sized

/-- Reading a file keeps the header, and stops only where clusters have no size. -/
theorem fat16_read_sized (p : FatPrivate) (descriptor : FatFileDescriptor) (size nmemb out : Nat) (m : Bytes) :
    ReadSized p.primary_header (fun result => result.2.2.1) (fat16_read drive p descriptor size nmemb out m) := by
  have sized := @read_loop_sized p.primary_header drive (i32 (fat16_get_first_cluster descriptor.item.item)) size nmemb
    (i32 descriptor.pos) out p m rfl
  unfold fat16_read
  dsimp only
  generalize fat16_read_loop drive (i32 (fat16_get_first_cluster descriptor.item.item)) size nmemb (i32 descriptor.pos)
    out p m = read at sized ⊢
  rcases read with _ | ⟨res,offset,q,m'⟩
  · exact sized
  · rw [Option.bind_some]
    dsimp only
    by_cases failed : res < 0
    · rw [if_pos failed]
      exact sized
    · rw [if_neg failed]
      exact sized

/-- Where clusters have no size the first read of a file divides by zero. -/
theorem fat16_read_divides (zero : p.primary_header.sectors_per_cluster = 0) (descriptor : FatFileDescriptor) (size : Nat)
    {nmemb : Nat} (nonzero : 0 < nmemb) (out : Nat) (m : Bytes) : fat16_read drive p descriptor size nmemb out m = none := by
  obtain ⟨remaining,rfl⟩ : ∃ remaining, nmemb = remaining + 1 := ⟨nmemb - 1,by omega⟩
  have internal : fat16_read_internal drive p (i32 (fat16_get_first_cluster descriptor.item.item)) (i32 descriptor.pos)
      (i32 size) out m = none := by
    rw [fat16_read_internal,fat16_read_internal_from_stream,fat16_get_cluster_for_offset,
      if_pos (size_of_cluster_bytes_zero.mpr zero)]
  unfold fat16_read
  dsimp only
  rw [fat16_read_loop,internal,Option.bind_none,Option.bind_none]

/-! ### Looking up a file -/

private theorem total_items_header {sector total : Int} {q : FatPrivate}
    (counted : fat16_get_total_items_for_directory drive p sector = some (total,q)) : q.primary_header = p.primary_header := by
  obtain ⟨after,rfl,_⟩ := total_items_moved counted
  rfl

theorem load_fat_directory_sized (p : FatPrivate) (item : FatDirectoryItem) (k : Kernel) :
    Sized p.primary_header (fat16_load_fat_directory drive p item k) := by
  unfold fat16_load_fat_directory
  dsimp only
  split_ifs
  · exact rfl
  · exact rfl
  · generalize (kzalloc k 16).1 = address
    generalize (kzalloc k 16).2 = k₁
    cases count : fat16_get_total_items_for_directory drive p
        (fat16_cluster_to_sector p (i32 (fat16_get_first_cluster item))) with
    | none => exact fun _ => by decide
    | some counted =>
      obtain ⟨total,q⟩ := counted
      have same := total_items_header count
      unfold load_items
      dsimp only
      generalize kzalloc k₁ (u32 (i32 (total * 32))) = granted
      obtain ⟨items,k₂⟩ := granted
      dsimp only
      by_cases null : items = 0
      · rw [if_pos null]
        exact same
      · rw [if_neg null]
        have sized := @read_internal_sized drive q (i32 (fat16_get_first_cluster item)) 0x00 (i32 (total * 32)) items k₂.memory
        generalize fat16_read_internal drive q (i32 (fat16_get_first_cluster item)) 0x00 (i32 (total * 32)) items
          k₂.memory = read at sized ⊢
        rw [same] at sized
        rcases read with _ | ⟨res,r,m⟩
        · exact fun nonzero _ => nonzero sized
        · unfold load_out
          dsimp only
          by_cases failed : res ≠ 0
          · rw [if_pos failed]
            exact sized
          · rw [if_neg failed]
            exact sized

theorem new_fat_item_sized (p : FatPrivate) (item : FatDirectoryItem) (k : Kernel) :
    Sized p.primary_header (fat16_new_fat_item_for_directory_item drive p item k) := by
  unfold fat16_new_fat_item_for_directory_item
  generalize kzalloc k 8 = granted
  obtain ⟨f_item,k₁⟩ := granted
  dsimp only
  split_ifs
  · exact rfl
  · have sized := @load_fat_directory_sized drive p item k₁
    generalize fat16_load_fat_directory drive p item k₁ = load at sized ⊢
    rcases load with stuck | ⟨directory,q,k₂⟩
    · exact sized
    · exact sized
  · exact rfl
  · exact rfl

private theorem find_item_loop_sized (directory : FatDirectory) (name : CString) (remaining : Nat) :
    ∀ (i : Nat) (before : Option FatItem) (p : FatPrivate) (k : Kernel), p.primary_header = header →
      Sized header (find_item_loop drive directory name remaining i before p k) := by
  induction remaining with
  | zero => exact fun i before p k same => same
  | succ remaining ih =>
    intro i before p k same
    rw [find_item_loop]
    dsimp only
    split_ifs
    · exact (same ▸ new_fat_item_sized p (directory.item i) k).bind fun f_item q k kept => ih (i + 1) f_item q k kept
    · exact ih (i + 1) before p k same

private theorem find_item_sized (directory : Option FatDirectory) (name : CString) (same : p.primary_header = header) :
    Sized header (fat16_find_item_in_directory zero drive directory name p k) := by
  cases directory with
  | none =>
    cases zero with
    | unmapped => exact fun _ => by decide
    | mapped =>
      rw [fat16_find_item_in_directory,null_directory]
      generalize i32 (read32 k.memory 4) = total
      by_cases empty : total ≤ 0
      · rw [if_pos empty]
        exact same
      · rw [if_neg empty]
        exact fun _ => by decide
  | some directory => exact find_item_loop_sized directory name _ 0 none p k same

private theorem directory_entry_loop_sized (rest : List PathPart) : ∀ (item : Option FatItem) (p : FatPrivate) (k : Kernel),
    p.primary_header = header → Sized header (directory_entry_loop zero drive rest item p k) := by
  induction rest with
  | nil => exact fun item p k same => same
  | cons next rest ih =>
    intro item p k same
    cases item with
    | none =>
      cases zero with
      | unmapped => exact fun _ => by decide
      | mapped =>
        rw [directory_entry_loop,null_item]
        by_cases plain : read32 k.memory 4 ≠ 0
        · rw [if_pos plain]
          exact same
        · rw [if_neg plain]
          exact fun _ => by decide
    | some item =>
      rw [directory_entry_loop]
      split_ifs
      · exact same
      · exact (find_item_sized item.directory next.part same).bind fun found q k kept => ih found q _ kept

theorem directory_entry_sized (p : FatPrivate) (path : PathPart) (next : List PathPart) (k : Kernel) :
    Sized p.primary_header (fat16_get_directory_entry zero drive p path next k) := by
  unfold fat16_get_directory_entry
  refine (find_item_sized _ path.part rfl).bind fun root_item q k kept => ?_
  dsimp only
  cases root_item with
  | none => exact kept
  | some root_item => exact directory_entry_loop_sized next (some root_item) q k kept

end

/-! ### The file layer over it -/

/-- While the kernel runs its volume has the header, and what has stopped it is no division by zero
    where clusters have a size. -/
def Running.Sized (header : FatHeader) : Running → Prop
  | .ok s => ∃ p, s.fs_private = some p ∧ p.primary_header = header
  | .error halt => header.sectors_per_cluster ≠ 0 → halt ≠ .driver .division

section
variable {header : FatHeader}

private theorem running_sized {α : Type} {nobody : α} {call : System → Except Halt (α × System)} {rest : Running}
    (sized : Running.Sized header rest)
    (kept : ∀ s p, s.fs_private = some p → p.primary_header = header → Running.Sized header ((call s).map Prod.snd)) :
    Running.Sized header (running nobody call rest).2 := by
  cases rest with
  | error halt => exact sized
  | ok s =>
    obtain ⟨p,mounted,same⟩ := sized
    have after := kept s p mounted same
    unfold running
    dsimp only
    generalize call s = answer at after ⊢
    rcases answer with halt | ⟨result,t⟩
    · exact after
    · exact after

private theorem fat16_open_sized (path : List PathPart) (mode : FileMode) (s : System) (p : FatPrivate)
    (mounted : s.fs_private = some p) (same : p.primary_header = header) :
    Running.Sized header (((fat16_open path mode s).mapError .driver).map Prod.snd) := by
  unfold fat16_open
  by_cases writing : mode ≠ .READ
  · rw [if_pos writing]
    exact ⟨p,mounted,same⟩
  rw [if_neg writing]
  generalize kzalloc s.kernel 8 = granted
  obtain ⟨descriptor,k⟩ := granted
  dsimp only
  by_cases null : descriptor = 0
  · rw [if_pos null]
    exact ⟨p,mounted,same⟩
  rw [if_neg null,mounted]
  cases path with
  | nil => exact fun _ => by decide
  | cons path next =>
    dsimp only
    have sized := @directory_entry_sized .mapped s.drive p path next k
    generalize fat16_get_directory_entry .mapped s.drive p path next k = entry at sized ⊢
    rw [same] at sized
    rcases entry with stuck | ⟨item,q,k₁⟩
    · intro nonzero division
      exact sized nonzero (Halt.driver.inj division)
    · cases item with
      | none => exact ⟨q,rfl,sized⟩
      | some item => exact ⟨q,rfl,sized⟩

private theorem read_file_sized (private_data size nmemb out : Nat) (s : System) (p : FatPrivate)
    (mounted : s.fs_private = some p) (same : p.primary_header = header) :
    Running.Sized header (((read_file private_data size nmemb out s).mapError .driver).map Prod.snd) := by
  have sized := @fat16_read_sized s.drive p (s.descriptors private_data) size nmemb out s.kernel.memory
  unfold read_file
  rw [mounted]
  dsimp only
  generalize fat16_read s.drive p (s.descriptors private_data) size nmemb out s.kernel.memory = read at sized ⊢
  rw [same] at sized
  rcases read with _ | ⟨res,descriptor,q,m⟩
  · exact fun nonzero _ => nonzero sized
  · exact ⟨q,rfl,sized⟩

private theorem fat16_fs_sized : FilesystemKeeps (Running.Sized header) fat16_fs where
  fs_open _ path mode _ sized := running_sized sized fun s p => fat16_open_sized path mode s p
  fs_read _ descriptor size nmemb out _ sized := running_sized sized fun s p => read_file_sized descriptor size nmemb out s p
  fs_seek _ _ _ _ sized := running_sized sized fun s p mounted same => ⟨p,mounted,same⟩
  fs_stat _ private_data stat _ sized := running_sized sized fun s p mounted same => by
    unfold fat16_stat
    dsimp only
    split_ifs
    · exact ⟨p,mounted,same⟩
    · exact ⟨p,mounted,same⟩
    · exact ⟨p,mounted,same⟩
  fs_close _ _ sized := running_sized sized fun s p mounted same => ⟨p,mounted,same⟩

private theorem services_sized : ServicesKeep (Running.Sized header) services where
  pathparser_parse path _ sized := running_sized sized fun s p mounted same => by
    cases PathParser.pathparser_parse path s.kernel with
    | error fault => exact fun _ division => by cases division
    | ok outcome => exact ⟨p,mounted,same⟩
  pathparser_free root rest sized := by
    cases rest with
    | error halt => exact sized
    | ok s => exact sized
  kzalloc size rest sized := running_sized sized fun s p mounted same => ⟨p,mounted,same⟩
  kfree ptr rest sized := by
    cases rest with
    | error halt => exact sized
    | ok s => exact sized
  disk_get index rest disk filesystem got has := by
    cases rest with
    | error halt => cases got
    | ok s =>
      change (if index ≠ 0 then none else _) = some disk at got
      split_ifs at got
      cases got
      cases mounted : s.fs_private with
      | none =>
        rw [mounted] at has
        cases has
      | some p =>
        rw [mounted] at has
        cases has
        exact fat16_fs_sized

end

/-! ### Runs on a mounted volume -/

/-- The calls of the file layer, and what the kernel does between them with its memory and its heap. -/
inductive Action
  | call (call : FileCall)
  | elsewhere (k : Kernel)

def Follows (files : Files Running) : Action → Files Running → Prop
  | .call call, t => t = after services files call
  | .elsewhere k, t => t = { files with rest := files.rest.map fun s => { s with kernel := k } }

/-- Nothing has been divided by zero. -/
def Undivided (files : Files Running) : Prop := files.rest ≠ .error (.driver .division)

section
variable {drive : Drive} {k k' : Kernel} {p : FatPrivate} {descriptors : Nat → FatFileDescriptor} {files : Files Running}

private theorem holding_along {header : FatHeader} (start : files.rest = .ok ⟨drive,some p,descriptors,k⟩)
    (same : p.primary_header = header) (closed : ∀ i, files.file_descriptors i = 0)
    {moves : List (Action × Files Running)} (run : Run Follows files moves) :
    Always (Holding (Running.Sized header)) files moves := by
  refine @always_of_kept _ _ Follows (fun _ _ => True) _ ?_ files moves ⟨?_,?_⟩ run each_true
  · intro s action t holding follows _
    cases action with
    | call call =>
      cases follows
      exact holding.after services_sized call
    | elsewhere k =>
      cases follows
      refine holding.with_rest ?_
      have sized := holding.rest
      cases rest : s.rest with
      | error halt =>
        rw [rest] at sized
        exact sized
      | ok system =>
        rw [rest] at sized
        exact sized
  · rw [start]
    exact ⟨p,rfl,same⟩
  · exact fun i nonnull => absurd (closed i) nonnull

/-- With sectors in its clusters an accepted volume never makes the driver divide by zero, whatever
    is called; without them the first read of an open file does. -/
theorem division_free_when (accepted : fat16_resolve drive k = .ok (0,some p,k'))
    (start : files.rest = .ok ⟨drive,some p,descriptors,k'⟩) (closed : ∀ i, files.file_descriptors i = 0)
    {moves : List (Action × Files Running)} (run : Run Follows files moves) :
    ((volume_header drive).primary_header.sectors_per_cluster ≠ 0 → Always Undivided files moves) ∧
    ((volume_header drive).primary_header.sectors_per_cluster = 0 → ∀ s fd data ptr size nmemb,
      (final files moves).rest = .ok s → OpenFile (final files moves) fd data → 0 < size → 0 < nmemb →
      ¬Undivided (fread (final files moves) ptr size nmemb fd).2) := by
  have along := holding_along start (resolve_mounted accepted).header closed run
  constructor
  · intro nonzero
    refine along.mono fun t holding divided => ?_
    have sized := holding.rest
    rw [divided] at sized
    exact sized nonzero rfl
  · intro zero s fd data ptr size nmemb rest file nonempty nonzero whole
    obtain ⟨q,mounted,same⟩ : Running.Sized _ (.ok s) := rest ▸ along.final.rest
    rw [← same] at zero
    refine whole ?_
    rcases fread_open file rest mounted nonempty nonzero ptr with ⟨_,stopped⟩ | ⟨_,_,_,_,read,_⟩
    · rw [stopped]
    · rw [fat16_read_divides zero _ size nonzero] at read
      cases read

end

/-! A volume whose clusters have no sectors, with the directory A in its root directory. -/

def emptyClusters : Drive where
  disk := 0
  image a := if a < 39 then
      ([0xEB, 0x3C, 0x90, 83, 73, 77, 80, 79, 83, 32, 32, 0x00, 0x02, 0x00, 1, 0, 0x01, 0x10, 0, 64, 0, 0xF8, 0x01, 0x00,
        0x20, 0, 0x40, 0, 0, 0, 0, 0, 0x00, 0x00, 0x00, 0x00, 0x80, 0x00, 0x29] : List UInt8).getD a 0
    else if a = 1024 ∨ a = 1536 then 65
    else if 1024 < a ∧ a < 1035 then 32
    else if a = 1035 then FAT_FILE_SUBDIRECTORY
    else if a = 1050 then 2
    else 0
  stack _ := 0

private theorem empty_header : volume_header emptyClusters = ⟨⟨0,1⟩,⟨1,1,16,1⟩,64,0,0x29⟩ := by decide

section
variable {drive : Drive} {p q : FatPrivate} {item : FatDirectoryItem} {k : Kernel} {live : List Extent} {t : Nat}

/-- Where clusters have no size a directory with items cannot be loaded. -/
private theorem load_divides (zero : p.primary_header.sectors_per_cluster = 0) (directory : isDirectory item = true)
    (laid : Laid k.kernel_heap live) (room : 2 ≤ freeBlocks k.kernel_heap) (nonempty : 0 < t) (few : t < 16)
    (counted : fat16_get_total_items_for_directory drive p (fat16_cluster_to_sector p (cluster_of item)) =
      some ((t : Int),q)) : fat16_load_fat_directory drive p item k = .error .division := by
  have flagged : ¬ item.attributes &&& FAT_FILE_SUBDIRECTORY = 0 := by simpa [isDirectory] using directory
  obtain ⟨a,k₁,granted,pointer,_,laid₁,count⟩ := kzalloc_page laid (by omega) (by decide : 0 < 16) (by decide)
  obtain ⟨b,k₂,granted',pointer',_⟩ := kzalloc_page laid₁ (by omega) (by omega : 0 < 32 * t) (by omega)
  have length : i32 ((t : Int) * 32) = (32 * t : Nat) := by
    rw [i32_of_range (by omega) (by omega)]
    omega
  have internal : fat16_read_internal drive q (cluster_of item) 0x00 (32 * t : Nat) b k₂.memory = none := by
    rw [fat16_read_internal,fat16_read_internal_from_stream,fat16_get_cluster_for_offset,
      if_pos (size_of_cluster_bytes_zero.mpr ((total_items_header counted).symm ▸ zero))]
  simp only [fat16_load_fat_directory,flagged,if_false,granted,pointer]
  rw [show i32 (fat16_get_first_cluster item) = cluster_of item from rfl,counted]
  simp only [load_items,length,u32_of_range (by omega : 32 * t < 4294967296),granted',pointer',if_false]
  rw [show i32 (fat16_get_first_cluster item) = cluster_of item from rfl,internal]
  rfl

private theorem new_item_divides (zero : p.primary_header.sectors_per_cluster = 0) (directory : isDirectory item = true)
    (laid : Laid k.kernel_heap live) (room : 3 ≤ freeBlocks k.kernel_heap) (nonempty : 0 < t) (few : t < 16)
    (counted : fat16_get_total_items_for_directory drive p (fat16_cluster_to_sector p (cluster_of item)) =
      some ((t : Int),q)) : fat16_new_fat_item_for_directory_item drive p item k = .error .division := by
  have flagged : item.attributes &&& FAT_FILE_SUBDIRECTORY ≠ 0 := by simpa [isDirectory] using directory
  obtain ⟨f,k₁,granted,pointer,_,laid₁,count⟩ := kzalloc_page laid (by omega) (by decide : 0 < 8) (by decide)
  have load := load_divides zero directory laid₁ (by omega) nonempty few counted
  simp only [fat16_new_fat_item_for_directory_item,granted,pointer,if_false,flagged,ne_eq,not_false_eq_true,if_true,load]
  rfl

end

/-- A volume of this layout with one record in its root directory is accepted. -/
private theorem one_mounted {drive : Drive} {sectors : UInt8} (header : volume_header drive = ⟨⟨sectors,1⟩,⟨1,1,16,1⟩,64,0,0x29⟩)
    (first : (rootRegion ⟨1,1,16,1⟩).mark drive 0 ≠ 0) (end_mark : (rootRegion ⟨1,1,16,1⟩).mark drive 1 = 0)
    (live_one : (DirectoryCounts.live drive (rootRegion ⟨1,1,16,1⟩) 1).length = 1) :
    ∃ p k' live, fat16_resolve drive bootKernel = .ok (0,some p,k') ∧ Laid k'.kernel_heap live ∧
      (live.map Extent.count).sum = 5 ∧ p.root_directory.total = 1 ∧
      p.root_directory.item 0 = entry drive (rootRegion ⟨1,1,16,1⟩) 0 := by
  have all : freeBlocks bootKernel.kernel_heap = 25600 := by rw [bootKernel,freeBlocks_empty (kernel_heap_init_laid _)]
  have ends : (rootRegion (volume_header drive).root_header).mark drive 1 = 0 := by
    rw [header]
    exact end_mark
  obtain ⟨p,k',live,accepted,laid,count⟩ := @resolve_accepts drive bootKernel [] 1 (by rw [header])
    (by rw [header]; exact show (rootRegion ⟨1,1,16,1⟩).sector * 512 + 4096 ≤ 2147483648 by decide)
    (by rw [header]; exact show (rootRegion ⟨1,1,16,1⟩).entries ≤ 128 by decide) (by decide)
    (by rw [header]; exact show 1 < (rootRegion ⟨1,1,16,1⟩).entries by decide) ends (kernel_heap_init_laid _)
    (by rw [all]; decide)
  obtain ⟨before,directory,q,k,k₁,primary,setup⟩ := (resolve_mounted accepted).root
  rw [header] at setup
  obtain ⟨n,_,listed⟩ := root_listed primary (by decide) ⟨1,by decide,end_mark⟩ setup
  have one : n = 1 := by
    rcases Nat.lt_trichotomy n 1 with none | one | more
    · obtain rfl : n = 0 := by omega
      exact absurd listed.ends first
    · exact one
    · exact absurd end_mark (listed.used 1 more)
  subst one
  refine ⟨p,k',live,accepted,laid,count,?_,?_⟩
  · rw [listed.total,live_one]
    rfl
  · exact listed.items 0 (by rw [live_one]; decide)

private theorem empty_mounted : ∃ p k' live, fat16_resolve emptyClusters bootKernel = .ok (0,some p,k') ∧
    Laid k'.kernel_heap live ∧ (live.map Extent.count).sum = 5 ∧ p.root_directory.total = 1 ∧
    p.root_directory.item 0 = entry emptyClusters (rootRegion ⟨1,1,16,1⟩) 0 :=
  one_mounted empty_header (by decide) (by decide) (by decide)

/-- The directory A has one item. -/
private theorem empty_counted {p : FatPrivate} (mounted : Mounted emptyClusters p) :
    ∃ q, fat16_get_total_items_for_directory emptyClusters p
      (fat16_cluster_to_sector p (cluster_of (entry emptyClusters (rootRegion ⟨1,1,16,1⟩) 0))) = some (((1 : Nat) : Int),q) := by
  have header := mounted.header
  have data := mounted.data
  rw [empty_header] at header data
  have sector : fat16_cluster_to_sector p (cluster_of (entry emptyClusters (rootRegion ⟨1,1,16,1⟩) 0)) = 3 := by
    rw [fat16_cluster_to_sector,header,data]
    decide
  have used : (Region.contiguous 3 16).mark emptyClusters 0 ≠ 0 := by decide
  rw [sector]
  rcases @total_items_at emptyClusters p (Region.contiguous 3 16) mounted.directories (by decide) 3 (by decide) with
    ⟨t,q,_,below,ends,counted,_⟩ | ⟨never,_⟩
  · have one : t = 1 := by
      rcases Nat.lt_trichotomy t 1 with none | one | more
      · obtain rfl : t = 0 := by omega
        exact absurd ends used
      · exact one
      · exact absurd (show (Region.contiguous 3 16).mark emptyClusters 1 = 0 from rfl) (below 1 more)
    subst one
    exact ⟨q,counted⟩
  · exact absurd (show (Region.contiguous 3 16).mark emptyClusters 1 = 0 from rfl) (never 1 (by decide))

private theorem empty_entry_divides {p : FatPrivate} {k : Kernel} {live : List Extent} {part : PathPart}
    (mounted : Mounted emptyClusters p) (total : p.root_directory.total = 1)
    (first : p.root_directory.item 0 = entry emptyClusters (rootRegion ⟨1,1,16,1⟩) 0) (name : part.part = [97])
    (laid : Laid k.kernel_heap live) (room : 3 ≤ freeBlocks k.kernel_heap) :
    fat16_get_directory_entry .mapped emptyClusters p part [] k = .error .division := by
  have zero : p.primary_header.sectors_per_cluster = 0 := by
    rw [mounted.header,empty_header]
  have named : istrncmp (fat16_get_full_relative_filename (entry emptyClusters (rootRegion ⟨1,1,16,1⟩) 0)) [97]
      SIMPOS_MAX_PATH = 0 := by decide
  obtain ⟨q,counted⟩ := empty_counted mounted
  have made := new_item_divides zero (by decide) laid room (by decide) (by decide) counted
  rw [fat16_get_directory_entry,fat16_find_item_in_directory,total,name]
  simp only [Int.toNat_one,find_item_loop,first,named,if_true,made]
  rfl

/-- The path leaves nearly all of the heap. -/
private theorem parsed_one {k : Kernel} {live : List Extent} (laid : Laid k.kernel_heap live) (taken : (live.map Extent.count).sum = 5) :
    ∃ (r : Int) (place : Place) (k' : Kernel) (live' : List Extent),
      pathparser_parse [48,58,47,97] k = .ok (some ⟨blockAddress r,0,[place.part]⟩,k') ∧ place.part.part = [97] ∧
      Laid k'.kernel_heap live' ∧ 25592 ≤ freeBlocks k'.kernel_heap := by
  have room := freeBlocks_least laid
  obtain ⟨r,place,k₁,parsed,name,laid₁⟩ := parse_path_a laid (by omega)
  have room₁ := freeBlocks_least laid₁
  simp only [Place.extents,List.cons_append,List.nil_append,List.map_cons,List.sum_cons,taken] at room₁
  exact ⟨r,place,k₁,_,parsed,name,laid₁,by omega⟩

private theorem empty_open_divides : ∃ p k', fat16_resolve emptyClusters bootKernel = .ok (0,some p,k') ∧
    ∀ descriptors files, files.rest = .ok ⟨emptyClusters,some p,descriptors,k'⟩ →
      (∀ i, files.file_descriptors i = 0) → ¬Undivided (after services files (.fopen [48,58,47,97] [114])) := by
  obtain ⟨p,k',live,accepted,laid,taken,total,first⟩ := empty_mounted
  refine ⟨p,k',accepted,fun descriptors files start closed whole => whole ?_⟩
  obtain ⟨r,place,k₁,live₁,parsed,name,laid₁,room₁⟩ := parsed_one laid taken
  obtain ⟨descriptor,k₂,granted,pointer,_,laid₂,count⟩ := kzalloc_page laid₁ (by omega) (by decide : 0 < 8) (by decide)
  have divides := empty_entry_divides (resolve_mounted accepted) total first name laid₂ (by omega)
  have reading : file_get_mode_by_string [114] = .READ := by decide
  have opening : fat16_open [place.part] .READ ⟨emptyClusters,some p,descriptors,k₁⟩ = .error .division := by
    simp only [fat16_open,ne_eq,not_true_eq_false,if_false,granted,pointer,divides]
    rfl
  have prepared : Ready services files [48,58,47,97] [114] ⟨0,some fat16_fs⟩ fat16_fs 0 (.error (.driver .division)) := by
    have parse : services.pathparser_parse [48,58,47,97] files.rest =
        (some ⟨blockAddress r,0,[place.part]⟩,.ok ⟨emptyClusters,some p,descriptors,k₁⟩) := by
      rw [start]
      simp only [services,running,parsed]
      rfl
    have answer : fat16_fs.fs_open 0 [place.part] .READ (.ok ⟨emptyClusters,some p,descriptors,k₁⟩) =
        (0,.error (.driver .division)) := by
      simp only [fat16_fs,running,opening]
      rfl
    refine ⟨⟨blockAddress r,0,[place.part]⟩,?_⟩
    have disk : services.disk_get 0 (.ok ⟨emptyClusters,some p,descriptors,k₁⟩) = some ⟨0,some fat16_fs⟩ := rfl
    rw [fopen_prepare,parse]
    simp only [List.cons_ne_nil,if_false,disk,reading,answer]
    rfl
  have empty : FirstEmpty files 0 := ⟨by decide,closed 0,fun j below => absurd below (Nat.not_lt_zero j)⟩
  show (fopen services files [48,58,47,97] [114]).2.rest = _
  rw [fopen_served services prepared empty]
  rfl

/-- The file layer with no file open, over a volume just mounted. -/
def mountedFiles (drive : Drive) (p : FatPrivate) (k : Kernel) : Files Running :=
  ⟨fun _ => 0, fun _ => ⟨0, none, 0, 0⟩, .ok ⟨drive, some p, fun _ => ⟨⟨0, item_of fun _ => 0, 0, none, .FILE⟩, 0⟩, k⟩⟩

/-- Opening the directory divides by zero. -/
theorem division_by_cluster_size : ∃ p k', fat16_resolve emptyClusters bootKernel = .ok (0,some p,k') ∧
    ∃ moves, Run Follows (mountedFiles emptyClusters p k') moves ∧
      ¬Always Undivided (mountedFiles emptyClusters p k') moves := by
  obtain ⟨p,k',accepted,divides⟩ := empty_open_divides
  refine ⟨p,k',accepted,[(.call (.fopen [48,58,47,97] [114]),_)],⟨rfl,trivial⟩,fun whole => ?_⟩
  exact divides _ (mountedFiles emptyClusters p k') rfl (fun i => rfl) whole.2

/-! The same volume with the plain file A in the place of the directory, and with a number of sectors in its clusters. -/

def oneFile (sectors : UInt8) : Drive :=
  { emptyClusters with image := fun a => if a = 13 then sectors else if a = 1035 then 0x20 else emptyClusters.image a }

section
variable {drive : Drive} {sectors : UInt8}

/-- The item of a plain file is made without a read. -/
private theorem plain_found {p : FatPrivate} {k : Kernel} {live : List Extent} {part : PathPart} {record : FatDirectoryItem}
    (total : p.root_directory.total = 1) (first : p.root_directory.item 0 = record) (plain : isDirectory record = false)
    (named : istrncmp (fat16_get_full_relative_filename record) part.part SIMPOS_MAX_PATH = 0)
    (laid : Laid k.kernel_heap live) (room : 2 ≤ freeBlocks k.kernel_heap) : ∃ f_item k' live',
      fat16_get_directory_entry .mapped drive p part [] k = .ok (some f_item,p,k') ∧ Laid k'.kernel_heap live' ∧
      freeBlocks k'.kernel_heap + 2 = freeBlocks k.kernel_heap := by
  have flagged : record.attributes &&& FAT_FILE_SUBDIRECTORY = 0 := by simpa [isDirectory] using plain
  obtain ⟨f,k₁,granted,pointer,_,laid₁,count₁⟩ := kzalloc_page laid (by omega) (by decide : 0 < 8) (by decide)
  obtain ⟨c,k₂,granted',pointer',_,laid₂,count₂⟩ := kzalloc_page laid₁ (by omega) (by decide : 0 < 32) (by decide)
  have made : fat16_new_fat_item_for_directory_item drive p record k = .ok (some ⟨f,record,c,none,.FILE⟩,p,k₂) := by
    simp only [fat16_new_fat_item_for_directory_item,granted,pointer,if_false,flagged,ne_eq,not_true_eq_false,granted',pointer']
  refine ⟨⟨f,record,c,none,.FILE⟩,k₂,_,?_,laid₂,by omega⟩
  rw [fat16_get_directory_entry,fat16_find_item_in_directory,total]
  simp only [Int.toNat_one,find_item_loop,first,named,if_true,made]
  rfl

/-- The file A can be opened, whatever the size of the clusters. -/
private theorem one_opens (header : volume_header drive = ⟨⟨sectors,1⟩,⟨1,1,16,1⟩,64,0,0x29⟩)
    (first : (rootRegion ⟨1,1,16,1⟩).mark drive 0 ≠ 0) (end_mark : (rootRegion ⟨1,1,16,1⟩).mark drive 1 = 0)
    (live_one : (DirectoryCounts.live drive (rootRegion ⟨1,1,16,1⟩) 1).length = 1)
    (plain : isDirectory (entry drive (rootRegion ⟨1,1,16,1⟩) 0) = false)
    (named : istrncmp (fat16_get_full_relative_filename (entry drive (rootRegion ⟨1,1,16,1⟩) 0)) [97] SIMPOS_MAX_PATH = 0) :
    ∃ p k' opened t data, fat16_resolve drive bootKernel = .ok (0,some p,k') ∧
      fopen services (mountedFiles drive p k') [48,58,47,97] [114] = (1,opened) ∧ opened.rest = .ok t ∧ OpenFile opened 1 data := by
  obtain ⟨p,k',live,accepted,laid,taken,total,record⟩ := one_mounted header first end_mark live_one
  obtain ⟨r,place,k₁,live₁,parsed,name,laid₁,room₁⟩ := parsed_one laid taken
  obtain ⟨descriptor,k₂,granted,pointer,block,laid₂,count⟩ := kzalloc_page laid₁ (by omega) (by decide : 0 < 8) (by decide)
  obtain ⟨f_item,k₃,live₃,found,laid₃,count₃⟩ := @plain_found drive p k₂ _ place.part _ total record plain (by rw [name]; exact named)
    laid₂ (by omega)
  obtain ⟨desc,k₄,granted₄,pointer₄,_⟩ := kzalloc_page laid₃ (by omega) (by decide : 0 < 16) (by decide)
  obtain ⟨empty,mounted⟩ : ∃ empty : System, empty = ⟨drive,some p,fun _ => ⟨⟨0,item_of fun _ => 0,0,none,.FILE⟩,0⟩,k'⟩ := ⟨_,rfl⟩
  have comes : Comes empty [48,58,47,97] [114] ⟨blockAddress r,0,[place.part]⟩ place.part [] p k₁ := by
    rw [mounted]
    exact ⟨parsed,rfl,rfl,rfl,by decide⟩
  have opening : fat16_open [place.part] .READ { empty with kernel := k₁ } =
      .ok (open_item descriptor { empty with kernel := k₁ } (some f_item,p,k₃)) := by
    rw [mounted]
    simp only [fat16_open,ne_eq,not_true_eq_false,if_false,granted,pointer,found]
    rfl
  have slot : FirstEmpty (mountedFiles drive p k') 0 := ⟨by decide,rfl,fun j below => absurd below (Nat.not_lt_zero j)⟩
  have rest : (mountedFiles drive p k').rest = .ok empty := by
    rw [mounted]
    rfl
  obtain ⟨opened,answer,running,file⟩ :=
    fopen_opened rest comes opening (ISERR_block block laid₂) granted₄ pointer₄ slot (by decide)
  exact ⟨p,k',opened,_,descriptor,accepted,answer,running,file⟩

end

/-- A file is opened and read where clusters have a sector; where they have none, the read divides by zero. -/
theorem division_free_small :
    (∃ p k' opened, fat16_resolve (oneFile 1) bootKernel = .ok (0,some p,k') ∧
      fopen services (mountedFiles (oneFile 1) p k') [48,58,47,97] [114] = (1,opened) ∧
      Undivided opened ∧ Undivided (fread opened 0x2000000 1 1 1).2) ∧
    ∃ p k' opened, fat16_resolve (oneFile 0) bootKernel = .ok (0,some p,k') ∧
      fopen services (mountedFiles (oneFile 0) p k') [48,58,47,97] [114] = (1,opened) ∧
      ¬Undivided (fread opened 0x2000000 1 1 1).2 := by
  constructor
  · have header : volume_header (oneFile 1) = ⟨⟨1,1⟩,⟨1,1,16,1⟩,64,0,0x29⟩ := by decide
    obtain ⟨p,k',opened,t,data,accepted,answer,_⟩ := one_opens header (by decide) (by decide) (by decide) (by decide) (by decide)
    have along := @division_free_when (oneFile 1) bootKernel k' p (fun _ => ⟨⟨0,item_of fun _ => 0,0,none,.FILE⟩,0⟩)
      (mountedFiles (oneFile 1) p k') accepted rfl (fun i => rfl)
      [(.call (.fopen [48,58,47,97] [114]),opened),(.call (.fread 0x2000000 1 1 1),(fread opened 0x2000000 1 1 1).2)]
      ⟨(congrArg Prod.snd answer).symm,rfl,trivial⟩
    obtain ⟨_,undivided,undivided'⟩ := along.1 (by rw [header]; decide)
    exact ⟨p,k',opened,accepted,answer,undivided,undivided'⟩
  · have header : volume_header (oneFile 0) = ⟨⟨0,1⟩,⟨1,1,16,1⟩,64,0,0x29⟩ := by decide
    obtain ⟨p,k',opened,t,data,accepted,answer,running,file⟩ :=
      one_opens header (by decide) (by decide) (by decide) (by decide) (by decide)
    have along := @division_free_when (oneFile 0) bootKernel k' p (fun _ => ⟨⟨0,item_of fun _ => 0,0,none,.FILE⟩,0⟩)
      (mountedFiles (oneFile 0) p k') accepted rfl (fun i => rfl) [(.call (.fopen [48,58,47,97] [114]),opened)]
      ⟨(congrArg Prod.snd answer).symm,trivial⟩
    exact ⟨p,k',opened,accepted,answer,along.2 (by rw [header]) t 1 data 0x2000000 1 1 running file Nat.one_pos Nat.one_pos⟩

end SimpOS.ClusterDivision
