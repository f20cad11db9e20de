import SimpOS.OpenedFiles

/-!
Opening and closing a file. `fopen` never releases the path that it has parsed: the blocks of
the path are pinned, as nothing that is released later on reaches them, and so the heap
is not what it was once the file is closed.
-/
namespace SimpOS.OpenLeaks
open SimpOS.Machine SimpOS.Strings SimpOS.Memory SimpOS.Extents SimpOS.HeapBlocks SimpOS.HeapLayout SimpOS.KernelHeap
open SimpOS.DiskStreams SimpOS.PathParser SimpOS.ParsedPaths SimpOS.FileLayer SimpOS.FileTable SimpOS.Fat16 SimpOS.FatReads SimpOS.FatDirectories
open SimpOS.FatPaths SimpOS.FatSystem SimpOS.FailedOpens SimpOS.OpenFiles SimpOS.OpenedFiles
open SimpOS.BinaryLoads (taken)

/-! ### Pinned blocks -/

/-- A block that is taken, and that no block links to. -/
structure Pinned (b : Int) (heap : Heap) : Prop where
  start_address : heap.start_address = SIMPOS_HEAP_ADDRESS
  total : heap.table.total = 25600
  low : 0 < b
  high : b < 25600
  taken : ¬ FreeBlock heap b
  unlinked : heap.table.entries (b - 1) &&& HEAP_BLOCK_HAS_NEXT = 0

/-- An address that no release of the block goes by. -/
def Away (b : Int) (address : Nat) : Prop :=
  (i32 ((address : Int) - SIMPOS_HEAP_ADDRESS)).tdiv SIMPOS_HEAP_BLOCK_SIZE ≠ b

section
variable {b : Int} {k k' : Kernel}

theorem away_null (low : 0 < b) : Away b 0 := by
  have null : (i32 ((0 : Nat) - SIMPOS_HEAP_ADDRESS : Int)).tdiv SIMPOS_HEAP_BLOCK_SIZE = -4096 := by decide
  unfold Away
  rw [null]
  omega

theorem Pinned.malloc {heap : Heap} (pinned : Pinned b heap) (size : Nat) :
    Pinned b (heap_malloc heap size).2 ∧ Away b (heap_malloc heap size).1 := by
  have total := pinned.total
  unfold heap_malloc
  dsimp only
  generalize heap_align_value_to_upper size / SIMPOS_HEAP_BLOCK_SIZE = n
  rcases heap_malloc_blocks_cases heap n with ⟨_,refused,_⟩ | ⟨c,_,granted,marked⟩
  · rw [refused]
    exact ⟨pinned,away_null pinned.low⟩
  · have low := granted.low
    have high := granted.high
    have outside : b ∉ Extent.mk c n := fun inside =>
      pinned.taken (granted.free b inside (by rw [total]; exact pinned.high))
    rw [marked]
    refine ⟨⟨pinned.start_address,pinned.total,pinned.low,pinned.high,?_,?_⟩,?_⟩
    · unfold FreeBlock
      rw [heap_mark_blocks_taken_correct,if_neg outside]
      exact pinned.taken
    · rw [heap_mark_blocks_taken_correct]
      by_cases inside : b - 1 ∈ Extent.mk c n
      · rw [if_pos inside,chainEntry_last]
        rw [mem_mk] at inside outside
        dsimp only
        omega
      · rw [if_neg inside]
        exact pinned.unlinked
    · have back := heap_address_to_block_kernel pinned.start_address low (by omega : c < 25600)
      rw [heap_block_to_address_kernel pinned.start_address low (by omega)]
      unfold heap_address_to_block at back
      rw [pinned.start_address] at back
      unfold Away
      rw [back]
      rintro rfl
      exact pinned.taken granted.first

theorem Pinned.kzalloc (pinned : Pinned b k.kernel_heap) (size : Nat) :
    Pinned b (kzalloc k size).2.kernel_heap ∧ Away b (kzalloc k size).1 := by
  have made := pinned.malloc size
  unfold KernelHeap.kzalloc kmalloc
  dsimp only
  by_cases null : (heap_malloc k.kernel_heap size).1 = 0
  · rw [if_pos null]
    exact ⟨made.1,away_null pinned.low⟩
  · rw [if_neg null]
    exact made

theorem Pinned.kfree {ptr : Nat} (pinned : Pinned b k.kernel_heap) (away : Away b ptr) :
    Pinned b (kfree k ptr).kernel_heap := by
  have other : heap_address_to_block k.kernel_heap ptr ≠ b := by
    unfold heap_address_to_block
    rw [pinned.start_address]
    exact away
  refine ⟨pinned.start_address,pinned.total,pinned.low,pinned.high,?_,?_⟩
  · unfold FreeBlock
    rcases heap_mark_blocks_free_cases k.kernel_heap (heap_address_to_block k.kernel_heap ptr) b with
      kept | ⟨⟨low,_,linked⟩,_⟩
    · intro free
      exact pinned.taken ((congrArg heap_get_entry_type kept).symm.trans free)
    · exact absurd pinned.unlinked (linked (b - 1) (by omega) (by omega))
  · rcases heap_mark_blocks_free_cases k.kernel_heap (heap_address_to_block k.kernel_heap ptr) (b - 1) with
      kept | ⟨_,freed⟩
    · exact (congrArg (· &&& HEAP_BLOCK_HAS_NEXT) kept).trans pinned.unlinked
    · exact (congrArg (· &&& HEAP_BLOCK_HAS_NEXT) freed).trans (by decide)

end

/-! ### Items away from a pinned block -/

structure DirectoryAway (b : Int) (directory : FatDirectory) : Prop where
  node : Away b directory.address
  items : Away b directory.item_address

/-- Nothing that releasing the item gives back is the block. -/
structure ItemAway (b : Int) (item : FatItem) : Prop where
  node : Away b item.address
  copy : Away b item.item_address
  directory : ∀ directory, item.directory = some directory → DirectoryAway b directory

section
variable {b : Int} {zero : PageZero} {drive : Drive} {p : FatPrivate} {k : Kernel}

theorem Pinned.free_directory {directory : Option FatDirectory} (pinned : Pinned b k.kernel_heap)
    (away : ∀ d, directory = some d → DirectoryAway b d) : Pinned b (fat16_free_directory directory k).kernel_heap := by
  cases directory with
  | none => exact pinned
  | some directory =>
    obtain ⟨node,items⟩ := away directory rfl
    unfold fat16_free_directory
    dsimp only
    split_ifs
    · exact (pinned.kfree items).kfree node
    · exact pinned.kfree node

theorem Pinned.free_item {item : FatItem} (pinned : Pinned b k.kernel_heap) (away : ItemAway b item) :
    Pinned b (fat16_fat_item_free item k).kernel_heap := by
  unfold fat16_fat_item_free
  cases item.type with
  | DIRECTORY => exact (pinned.free_directory away.directory).kfree away.node
  | FILE => exact (pinned.kfree away.copy).kfree away.node

/-- A call that gives out items, all of them away from the block. -/
def GivesAway (b : Int) (result : Except Stuck (Option FatItem × FatPrivate × Kernel)) : Prop :=
  ∀ item q k, result = .ok (item,q,k) → Pinned b k.kernel_heap ∧ ∀ f_item, item = some f_item → ItemAway b f_item

private theorem load_fat_directory_away (item : FatDirectoryItem) (pinned : Pinned b k.kernel_heap)
    {directory : Option FatDirectory} {q : FatPrivate} {k' : Kernel}
    (load : fat16_load_fat_directory drive p item k = .ok (directory,q,k')) :
    Pinned b k'.kernel_heap ∧ ∀ d, directory = some d → DirectoryAway b d := by
  obtain ⟨pinned₁,node⟩ := pinned.kzalloc 16
  unfold fat16_load_fat_directory at load
  dsimp only at load
  split_ifs at load with plain null
  · cases load
    exact ⟨pinned,fun d none => by cases none⟩
  · cases load
    exact ⟨pinned₁,fun d none => by cases none⟩
  generalize (kzalloc k 16).1 = address at load node
  generalize (kzalloc k 16).2 = k₁ at load pinned₁
  cases count : fat16_get_total_items_for_directory drive p
      (fat16_cluster_to_sector p (i32 (fat16_get_first_cluster item))) with
  | none =>
    rw [count] at load
    cases load
  | some counted =>
    obtain ⟨total,q₁⟩ := counted
    rw [count] at load
    unfold load_items at load
    dsimp only at load
    obtain ⟨pinned₂,items⟩ := pinned₁.kzalloc (u32 (i32 (total * 32)))
    generalize (kzalloc k₁ (u32 (i32 (total * 32)))).1 = item_address at load items
    generalize (kzalloc k₁ (u32 (i32 (total * 32)))).2 = k₂ at load pinned₂
    split_ifs at load with none
    · cases load
      have away : ∀ d, some (FatDirectory.mk address item_address
          (fun i => item_at k₂.memory (offset item_address (32 * i))) total 0) = some d → DirectoryAway b d := by
        rintro d same
        cases same
        exact ⟨node,items⟩
      exact ⟨pinned₂.free_directory away,away⟩
    · generalize fat16_read_internal drive q₁ (i32 (fat16_get_first_cluster item)) 0x00 (i32 (total * 32)) item_address
        k₂.memory = read at load
      cases read with
      | none => cases load
      | some outcome =>
        obtain ⟨res,q₂,m⟩ := outcome
        unfold load_out at load
        dsimp only at load
        have away : ∀ d, some (FatDirectory.mk address item_address
            (fun i => item_at m (offset item_address (32 * i))) total 0) = some d → DirectoryAway b d := by
          rintro d same
          cases same
          exact ⟨node,items⟩
        have pinned₃ : Pinned b (Kernel.mk m k₂.kernel_heap).kernel_heap := pinned₂
        split_ifs at load with failed
        · cases load
          exact ⟨pinned₃.free_directory away,away⟩
        · cases load
          exact ⟨pinned₃,away⟩

private theorem new_fat_item_away (item : FatDirectoryItem) (pinned : Pinned b k.kernel_heap) :
    GivesAway b (fat16_new_fat_item_for_directory_item drive p item k) := by
  intro made q k' new
  obtain ⟨pinned₁,node⟩ := pinned.kzalloc 8
  unfold fat16_new_fat_item_for_directory_item at new
  dsimp only at new
  generalize (kzalloc k 8).1 = address at new node
  generalize (kzalloc k 8).2 = k₁ at new pinned₁
  generalize (if (kzalloc k₁ 32).1 = 0 then item_at (kzalloc k₁ 32).2.memory 0 else item) = copied at new
  split_ifs at new with null directory
  · cases new
    exact ⟨pinned₁,fun f_item none => by cases none⟩
  · cases load : fat16_load_fat_directory drive p item k₁ with
    | error stuck =>
      rw [load] at new
      cases new
    | ok outcome =>
      obtain ⟨loaded,q₁,k₂⟩ := outcome
      rw [load] at new
      cases new
      obtain ⟨pinned₂,away⟩ := load_fat_directory_away item pinned₁ load
      refine ⟨pinned₂,?_⟩
      rintro f_item same
      cases same
      refine ⟨node,?_,away⟩
      cases loaded with
      | none => exact away_null pinned.low
      | some loaded => exact (away loaded rfl).node
  · obtain ⟨pinned₂,copy⟩ := pinned₁.kzalloc 32
    cases new
    refine ⟨pinned₂,?_⟩
    rintro f_item same
    cases same
    exact ⟨node,copy,fun d none => by cases none⟩

private theorem find_item_loop_away (directory : FatDirectory) (name : CString) (remaining : Nat) :
    ∀ (i : Nat) (before : Option FatItem) (p : FatPrivate) (k : Kernel), Pinned b k.kernel_heap →
      (∀ f_item, before = some f_item → ItemAway b f_item) →
      GivesAway b (find_item_loop drive directory name remaining i before p k) := by
  induction remaining with
  | zero =>
    intro i before p k pinned away item q k' found
    cases found
    exact ⟨pinned,away⟩
  | succ remaining ih =>
    intro i before p k pinned away
    rw [find_item_loop]
    dsimp only
    split_ifs with hit
    · cases new : fat16_new_fat_item_for_directory_item drive p (directory.item i) k with
      | error stuck => exact fun item q k' found => by cases found
      | ok outcome =>
        obtain ⟨made,q₁,k₁⟩ := outcome
        obtain ⟨pinned₁,madeAway⟩ := new_fat_item_away (directory.item i) pinned made q₁ k₁ new
        exact ih (i + 1) made q₁ k₁ pinned₁ madeAway
    · exact ih (i + 1) before p k pinned away

private theorem find_item_away (directory : Option FatDirectory) (name : CString) (pinned : Pinned b k.kernel_heap) :
    GivesAway b (fat16_find_item_in_directory zero drive directory name p k) := by
  cases directory with
  | none =>
    intro item q k' found
    cases zero with
    | unmapped => cases found
    | mapped =>
      simp only [fat16_find_item_in_directory,null_directory] at found
      split_ifs at found
      cases found
      exact ⟨pinned,fun f_item none => by cases none⟩
  | some directory => exact find_item_loop_away directory name _ 0 none p k pinned fun f_item none => by cases none

private theorem directory_entry_loop_away (rest : List PathPart) : ∀ (item : Option FatItem) (p : FatPrivate) (k : Kernel),
    Pinned b k.kernel_heap → (∀ f_item, item = some f_item → ItemAway b f_item) →
    GivesAway b (directory_entry_loop zero drive rest item p k) := by
  induction rest with
  | nil =>
    intro item p k pinned away result q k' found
    cases found
    exact ⟨pinned,away⟩
  | cons next rest ih =>
    intro item p k pinned away
    cases item with
    | none =>
      intro result q k' found
      cases zero with
      | unmapped => cases found
      | mapped =>
        simp only [directory_entry_loop,null_item] at found
        split_ifs at found
        cases found
        exact ⟨pinned,fun f_item none => by cases none⟩
    | some item =>
      rw [directory_entry_loop]
      split_ifs with plain
      · intro result q k' found
        cases found
        exact ⟨pinned,fun f_item none => by cases none⟩
      · cases search : fat16_find_item_in_directory zero drive item.directory next.part p k with
        | error stuck => exact fun result q k' found => by cases found
        | ok outcome =>
          obtain ⟨found,q₁,k₁⟩ := outcome
          obtain ⟨pinned₁,foundAway⟩ := find_item_away item.directory next.part pinned found q₁ k₁ search
          exact ih found q₁ _ (pinned₁.free_item (away item rfl)) foundAway

theorem directory_entry_away (path : PathPart) (next : List PathPart) (pinned : Pinned b k.kernel_heap) :
    GivesAway b (fat16_get_directory_entry zero drive p path next k) := by
  unfold fat16_get_directory_entry
  cases search : fat16_find_item_in_directory zero drive (some p.root_directory) path.part p k with
  | error stuck => exact fun result q k' found => by cases found
  | ok outcome =>
    obtain ⟨root_item,q₁,k₁⟩ := outcome
    obtain ⟨pinned₁,away⟩ := find_item_away (some p.root_directory) path.part pinned root_item q₁ k₁ search
    cases root_item with
    | none =>
      intro result q k' found
      cases found
      exact ⟨pinned₁,fun f_item none => by cases none⟩
    | some root_item => exact directory_entry_loop_away next (some root_item) q₁ k₁ pinned₁ away

end

/-! ### An open file -/

/-- The calls on an open file. -/
inductive Use
  | fread (ptr size nmemb : Nat)
  | fseek (offset : Int) (whence : SeekMode)
  | fstat (stat : Nat)

def use (fd : Int) (files : Files Running) : Use → Files Running
  | .fread ptr size nmemb => (FileLayer.fread files ptr size nmemb fd).2
  | .fseek offset whence => (FileLayer.fseek files fd offset whence).2
  | .fstat stat => (FileLayer.fstat files fd stat).2

/-- As long as the kernel runs the block is pinned, and the file with the private data d is away from it. -/
def Kept (b : Int) (d : Nat) (rest : Running) : Prop :=
  ∀ s, rest = .ok s → Pinned b s.kernel.kernel_heap ∧ ItemAway b (s.descriptors d).item

/-- The number is that of the file with the private data d, or of none. -/
structure Holds (b : Int) (d : Nat) (fd : Int) (files : Files Running) : Prop where
  data : Away b d
  desc : file_get_descriptor files fd = 0 ∨ Away b (file_get_descriptor files fd) ∧
    (files.desc (file_get_descriptor files fd)).filesystem = some fat16_fs ∧
    (files.desc (file_get_descriptor files fd)).private_data = d
  system : Kept b d files.rest

/-- The first block of an extent, where it is not the heap's first one, is pinned. -/
theorem pinned_of_laid {b : Int} {n : Nat} {heap : Heap} {live : List Extent} (laid : Laid heap (⟨b,n⟩ :: live)) (low : 0 < b) :
    Pinned b heap := by
  have total := laid.total_eq
  obtain ⟨_,high,positive⟩ := laid.layout.start _ (List.mem_cons_self ..)
  simp only at high positive
  have own : b ∈ Extent.mk b n := by rw [mem_mk]; omega
  have apart := (List.pairwise_cons.mp laid.layout.disjoint).1
  refine ⟨laid.start_address,total,low,by omega,?_,?_⟩
  · unfold FreeBlock
    rw [laid.layout.chain _ (List.mem_cons_self ..) b own high]
    exact chainEntry_taken _ _
  · by_cases covered : Covered (⟨b,n⟩ :: live) (b - 1)
    · obtain ⟨e,member,inside⟩ := covered
      rw [laid.layout.chain e member (b - 1) inside (by omega),chainEntry_last]
      rcases List.mem_cons.mp member with rfl | other
      · rw [mem_mk] at inside
        omega
      · have outside : b ∉ e := fun within => apart e other b own within
        rw [mem_def] at inside outside
        omega
    · rw [laid.layout.free (b - 1) (by omega) (by omega) covered]
      decide

/-- A path has a block that is not the heap's first one. -/
private theorem path_pinned {root : PathRoot} {heap : Heap} {live : List Extent} (held : RootHeld root)
    (laid : Laid heap (rootExtents root ++ live)) : ∃ b, FreeAt live b ∧ Pinned b heap := by
  have total := laid.total_eq
  obtain ⟨part,rest,parts⟩ : ∃ part rest, root.first = part :: rest := List.exists_cons_of_ne_nil held.some
  obtain ⟨string,node⟩ := held.parts part (parts ▸ List.mem_cons_self ..)
  obtain ⟨c,lowC,atC⟩ := string
  obtain ⟨e,lowE,atE⟩ := node
  have whole : rootExtents root ++ live =
      ⟨c,1⟩ :: ⟨e,1⟩ :: (rest.flatMap partExtents ++ [page root.address] ++ live) := by
    rw [rootExtents,parts,List.flatMap_cons,partExtents,atC,atE,page_blockAddress lowC,page_blockAddress lowE]
    rfl
  rw [whole] at laid
  have apart := (List.pairwise_cons.mp laid.layout.disjoint).1
  have free : ∀ {b : Int} (others : List Extent), Laid heap (⟨b,1⟩ :: (others ++ live)) → 0 < b → FreeAt live b := by
    intro b others laid low
    have high := (laid.layout.start _ (List.mem_cons_self ..)).2.1
    simp only at high
    refine ⟨by omega,by omega,?_⟩
    rintro ⟨other,member,inside⟩
    exact (List.pairwise_cons.mp laid.layout.disjoint).1 other (List.mem_append_right others member) b
      (by rw [mem_mk]; omega) inside
  by_cases zero : c = 0
  · have positive : 0 < e := by
      have different := apart ⟨e,1⟩ (List.mem_cons_self ..) 0 (by rw [mem_mk]; omega)
      rw [mem_mk] at different
      omega
    have laid := laid.perm (List.Perm.swap ..)
    exact ⟨e,free (⟨c,1⟩ :: (rest.flatMap partExtents ++ [page root.address])) laid positive,pinned_of_laid laid positive⟩
  · have positive : 0 < c := by omega
    exact ⟨c,free (⟨e,1⟩ :: (rest.flatMap partExtents ++ [page root.address])) laid positive,pinned_of_laid laid positive⟩

section
variable {files opened : Files Running} {s : System} {live : List Extent} {filename mode_str : CString}

private theorem services_parse :
    services.pathparser_parse filename (.ok s) =
      match pathparser_parse filename s.kernel with
      | .error fault => (none,.error (.parser fault))
      | .ok (root,k) => (root,.ok { s with kernel := k }) := by
  simp only [services,running]
  cases pathparser_parse filename s.kernel <;> rfl

/-- An open that is not refused has stopped the kernel, or made a file away from every pinned block. -/
private theorem open_pinned {b : Int} {path : List PathPart} {mode : FileMode} {d : Nat} {rest : Running} (s : System)
    (pinned : Pinned b s.kernel.kernel_heap) {disk : Nat} (opened : fat16_fs.fs_open disk path mode (.ok s) = (d,rest))
    (fine : ISERR d = false) :
    Away b d ∧ Kept b d rest := by
  have error : ∀ {e : Int}, 0 < e → e < 10 → d ≠ ERROR (-e) := by
    rintro e low high rfl
    rw [ISERR_ERROR low high] at fine
    cases fine
  simp only [fat16_fs,running] at opened
  cases answer : fat16_open path mode s with
  | error stuck =>
    rw [answer] at opened
    cases opened
    exact ⟨away_null pinned.low,fun t running => by cases running⟩
  | ok outcome =>
    obtain ⟨d',t'⟩ := outcome
    rw [answer] at opened
    cases opened
    obtain ⟨pinned₁,away⟩ := pinned.kzalloc 8
    unfold fat16_open at answer
    dsimp only at answer
    split_ifs at answer with writing null
    · cases answer
      exact absurd rfl (error (by decide) (by decide))
    · cases answer
      exact absurd rfl (error (by decide) (by decide))
    cases mounted : s.fs_private with
    | none =>
      rw [mounted] at answer
      cases answer
    | some p =>
      cases path with
      | nil =>
        rw [mounted] at answer
        cases answer
      | cons first next =>
        rw [mounted] at answer
        dsimp only at answer
        cases entry : fat16_get_directory_entry .mapped s.drive p first next (kzalloc s.kernel 8).2 with
        | error stuck =>
          rw [entry] at answer
          cases answer
        | ok outcome =>
          obtain ⟨item,q,k₂⟩ := outcome
          obtain ⟨pinned₂,itemAway⟩ := directory_entry_away first next pinned₁ item q k₂ entry
          rw [entry] at answer
          cases item with
          | none =>
            cases answer
            exact absurd rfl (error (by decide) (by decide))
          | some item =>
            cases answer
            refine ⟨away,?_⟩
            rintro t running
            cases running
            dsimp only
            rw [Function.update_self]
            exact ⟨pinned₂,itemAway item rfl⟩

private theorem ready_pinned {disk : Disk Running} {filesystem : Filesystem Running} {d : Nat} {after : Running}
    (rest : files.rest = .ok s) (laid : Laid s.kernel.kernel_heap live)
    (ready : Ready services files filename mode_str disk filesystem d after) :
    filesystem = fat16_fs ∧ ∃ b, FreeAt live b ∧ 0 < b ∧ Away b d ∧ Kept b d after := by
  obtain ⟨root_path,prepared⟩ := ready
  rw [rest,fopen_prepare,services_parse] at prepared
  cases parse : pathparser_parse filename s.kernel with
  | error fault =>
    rw [parse] at prepared
    cases prepared
  | ok outcome =>
    obtain ⟨result,k⟩ := outcome
    rw [parse] at prepared
    cases parse_laid laid parse with
    | none => cases prepared
    | @some root held laid₁ =>
      obtain ⟨b,free,pinned⟩ := path_pinned held laid₁
      have disk_eq : services.disk_get root.drive_no (.ok { s with kernel := k }) =
          if root.drive_no ≠ 0 then none else some ⟨s.drive.disk,s.fs_private.map fun _ => fat16_fs⟩ := rfl
      simp only [held.some,if_false,disk_eq] at prepared
      by_cases drive : root.drive_no ≠ 0
      · rw [if_pos drive] at prepared
        cases prepared
      rw [if_neg drive] at prepared
      cases mounted : s.fs_private with
      | none =>
        rw [mounted] at prepared
        cases prepared
      | some p =>
        rw [mounted] at prepared
        dsimp only [Option.map_some] at prepared
        obtain ⟨d',after',opened⟩ : ∃ d' after', fat16_fs.fs_open s.drive.disk root.first (file_get_mode_by_string mode_str)
            (.ok ⟨s.drive,some p,s.descriptors,k⟩) = (d',after') := ⟨_,_,rfl⟩
        simp only [opened] at prepared
        split_ifs at prepared with mode refused
        · cases prepared
        · cases prepared
        · cases prepared
          rw [Bool.not_eq_true] at refused
          obtain ⟨away,system⟩ := open_pinned ⟨s.drive,some p,s.descriptors,k⟩ pinned opened refused
          exact ⟨rfl,b,free,pinned.low,away,system⟩

/-- A file that has been opened is away from some block that was free before. -/
theorem fopen_holds {fd : Int} (rest : files.rest = .ok s) (laid : Laid s.kernel.kernel_heap live)
    (answer : fopen services files filename mode_str = (fd,opened)) (success : 0 < fd) :
    ∃ b d, FreeAt live b ∧ Holds b d fd opened := by
  rcases fopen_cases services files filename mode_str with
    ⟨after,failed⟩ | ⟨disk,filesystem,d,after,i,ready,first,served⟩
  · rw [failed] at answer
    cases answer
    omega
  · obtain ⟨rfl,b,free,low,away,kept⟩ := ready_pinned rest laid ready
    rw [served] at answer
    cases answer
    refine ⟨b,d,free,away,?_,?_⟩
    · have slot : ((i : Int) + 1 - 1).toNat = i := by omega
      unfold file_get_descriptor
      split_ifs with range
      · exact .inl rfl
      · refine .inr ?_
        simp only [slot,Function.update_self]
        refine ⟨?_,trivial,trivial⟩
        cases after with
        | error halt => exact away_null low
        | ok t => exact ((kept t rfl).1.kzalloc 16).2
    · intro u running
      cases after with
      | error halt => cases running
      | ok t =>
        cases running
        exact ⟨((kept t rfl).1.kzalloc 16).1,(kept t rfl).2⟩

end

section
variable {b : Int} {d : Nat} {fd : Int} {files : Files Running} {rest : Running}

private theorem running_kept {α : Type} {nobody : α} {call : System → Except Halt (α × System)} (kept : Kept b d rest)
    (keeps : ∀ s result t, Pinned b s.kernel.kernel_heap → ItemAway b (s.descriptors d).item →
      call s = .ok (result,t) → Pinned b t.kernel.kernel_heap ∧ ItemAway b (t.descriptors d).item) :
    Kept b d (running nobody call rest).2 := by
  intro t answer
  cases rest with
  | error halt => cases answer
  | ok s =>
    obtain ⟨pinned,away⟩ := kept s rfl
    simp only [running] at answer
    cases outcome : call s with
    | error halt =>
      rw [outcome] at answer
      cases answer
    | ok outcome' =>
      rw [outcome] at answer
      cases answer
      exact keeps s _ _ pinned away outcome

private theorem read_kept (disk size count out : Nat) (kept : Kept b d rest) :
    Kept b d (fat16_fs.fs_read disk d size count out rest).2 := by
  refine running_kept kept fun s result t pinned away answer => ?_
  unfold read_file at answer
  cases mounted : s.fs_private with
  | none =>
    rw [mounted] at answer
    cases answer
  | some p =>
    rw [mounted] at answer
    dsimp only at answer
    cases read : fat16_read s.drive p (s.descriptors d) size count out s.kernel.memory with
    | none =>
      rw [read] at answer
      cases answer
    | some outcome =>
      obtain ⟨res,descriptor,q,m⟩ := outcome
      rw [read] at answer
      cases answer
      refine ⟨pinned,?_⟩
      dsimp only
      rw [Function.update_self,fat16_read_item read]
      exact away

private theorem seek_item (descriptor : FatFileDescriptor) (offset : Nat) (whence : SeekMode) :
    (fat16_seek descriptor offset whence).2.item = descriptor.item := by
  unfold fat16_seek
  dsimp only
  split_ifs
  · rfl
  · rfl
  · cases whence <;> rfl

private theorem seek_kept {offset : Nat} {whence : SeekMode} (kept : Kept b d rest) :
    Kept b d (fat16_fs.fs_seek d offset whence rest).2 := by
  refine running_kept kept fun s result t pinned away answer => ?_
  have after : t = (seek_file d offset whence s).2 := (congrArg Prod.snd (Except.ok.inj answer)).symm
  rw [after]
  refine ⟨pinned,?_⟩
  unfold seek_file
  dsimp only
  rw [Function.update_self,seek_item]
  exact away

private theorem stat_kept (disk stat : Nat) (kept : Kept b d rest) : Kept b d (fat16_fs.fs_stat disk d stat rest).2 := by
  refine running_kept kept fun s result t pinned away answer => ?_
  have after : fat16_stat d stat s = (result,t) := Except.ok.inj answer
  unfold fat16_stat at after
  dsimp only at after
  split_ifs at after
  · cases after
    exact ⟨pinned,away⟩
  · cases after
    exact ⟨pinned,away⟩
  · cases after
    exact ⟨pinned,away⟩

private theorem use_missing (u : Use) (none : file_get_descriptor files fd = 0) : use fd files u = files := by
  cases u with
  | fread ptr size nmemb => simp only [use,fread,none,if_true,ite_self]
  | fseek offset whence => simp only [use,fseek,none,if_true]
  | fstat stat => simp only [use,fstat,none,if_true]

/-- A use of the file keeps it away from the block. -/
theorem use_holds (holds : Holds b d fd files) (u : Use) : Holds b d fd (use fd files u) := by
  by_cases none : file_get_descriptor files fd = 0
  · rw [use_missing u none]
    exact holds
  obtain ⟨_,filesystem,data⟩ := holds.desc.resolve_left none
  -- the table and the descriptors are those from before
  have frame : ∀ after, Kept b d after → Holds b d fd { files with rest := after } :=
    fun after kept => ⟨holds.data,holds.desc,kept⟩
  cases u with
  | fread ptr size nmemb =>
    simp only [use,fread,none,if_false,filesystem,data]
    split_ifs
    · exact holds
    · exact frame _ (read_kept (files.desc (file_get_descriptor files fd)).disk size nmemb ptr holds.system)
  | fseek offset whence =>
    simp only [use,fseek,none,if_false,filesystem,data]
    exact frame _ (seek_kept holds.system)
  | fstat stat =>
    simp only [use,fstat,none,if_false,filesystem,data]
    exact frame _ (stat_kept (files.desc (file_get_descriptor files fd)).disk stat holds.system)

theorem uses_hold (uses : List Use) (holds : Holds b d fd files) : Holds b d fd (uses.foldl (use fd) files) := by
  induction uses generalizing files with
  | nil => exact holds
  | cons u uses ih => exact ih (use_holds holds u)

theorem fclose_pinned (holds : Holds b d fd files) {t : System} (running : (fclose services files fd).2.rest = .ok t) :
    Pinned b t.kernel.kernel_heap := by
  unfold fclose at running
  dsimp only at running
  rcases holds.desc with none | ⟨desc,filesystem,data⟩
  · rw [if_pos none] at running
    exact (holds.system t running).1
  · by_cases none : file_get_descriptor files fd = 0
    · rw [if_pos none] at running
      exact (holds.system t running).1
    rw [if_neg none,filesystem,data] at running
    cases rest : files.rest with
    | error halt =>
      rw [rest] at running
      cases running
    | ok s =>
      obtain ⟨pinned,away⟩ := holds.system s rest
      rw [rest] at running
      cases running
      exact ((pinned.free_item away).kfree holds.data).kfree desc

end

section
variable {files opened closed : Files Running} {s t : System} {live : List Extent} {filename mode_str : CString}
  {fd res : Int}

private theorem closed_pinned (uses : List Use) (rest : files.rest = .ok s) (laid : Laid s.kernel.kernel_heap live)
    (answer : fopen services files filename mode_str = (fd,opened)) (success : 0 < fd)
    (close : fclose services (uses.foldl (use fd) opened) fd = (res,closed)) (running : closed.rest = .ok t) :
    ∃ b, FreeAt live b ∧ Pinned b t.kernel.kernel_heap := by
  obtain ⟨b,d,free,holds⟩ := fopen_holds rest laid answer success
  refine ⟨b,free,fclose_pinned (uses_hold uses holds) ?_⟩
  rw [close]
  exact running

/-- Some block of the path of a file that has been opened, used and closed was free before
    and stays taken. -/
theorem open_close_unbalanced (uses : List Use) (rest : files.rest = .ok s) (laid : Laid s.kernel.kernel_heap live)
    (answer : fopen services files filename mode_str = (fd,opened)) (success : 0 < fd)
    (close : fclose services (uses.foldl (use fd) opened) fd = (res,closed)) (running : closed.rest = .ok t) :
    ∃ i : Int, 0 ≤ i ∧ i < s.kernel.kernel_heap.table.total ∧
      FreeBlock s.kernel.kernel_heap i ∧ ¬ FreeBlock t.kernel.kernel_heap i := by
  obtain ⟨b,free,pinned⟩ := closed_pinned uses rest laid answer success close running
  have total := laid.total_eq
  refine ⟨b,free.low,?_,(freeBlock_iff laid.layout free.low ?_).mpr free.uncovered,pinned.taken⟩
  · rw [total]
    exact pinned.high
  · rw [total]
    exact pinned.high

end

/-- Its files, of which none is open. -/
def filesA : Files Running := ⟨fun _ => 0, fun _ => ⟨0, none, 0, 0⟩, .ok systemA⟩

private theorem opens_a : ∃ opened closed t, fopen services filesA [48,58,47,97] [114] = (1,opened) ∧
    fclose services opened 1 = (0,closed) ∧ closed.rest = .ok t := by
  obtain ⟨root,part,k,parse,parts,name,drive,e₁,e₂,e₃,laid⟩ := parse_a
  have room := freeBlocks_least laid
  simp only [List.map_cons,List.map_nil,List.sum_cons,List.sum_nil] at room
  have slot : FirstEmpty filesA 0 := ⟨by decide,rfl,fun j below => absurd below (Nat.not_lt_zero j)⟩
  have total : volume_a.root_directory.total.toNat = 1 := rfl
  obtain ⟨opened,t,data,q,live,answer,running,file,_⟩ := @fopen_plain filesA systemA _ _ _ _ _ _ _ _ _ rfl
    ⟨parse,parts,drive,rfl,by decide⟩ volume_a_mounted (plainFile_only (by rw [name]; exact matching_a) (by decide)) laid (by rw [total,List.length_nil]; omega)
    (by simp [taken]) slot (by decide)
  obtain ⟨closed,k',closing,rest,_⟩ := fclose_open file running
  exact ⟨opened,closed,_,answer,closing,rest⟩

/-- The file a is opened and closed. -/
theorem open_close_unbalanced_a : ∃ opened closed t, fopen services filesA [48,58,47,97] [114] = (1,opened) ∧
    fclose services opened 1 = (0,closed) ∧ closed.rest = .ok t ∧ ∃ i : Int, 0 ≤ i ∧
      i < systemA.kernel.kernel_heap.table.total ∧
      FreeBlock systemA.kernel.kernel_heap i ∧ ¬ FreeBlock t.kernel.kernel_heap i := by
  obtain ⟨opened,closed,t,answer,close,running⟩ := opens_a
  exact ⟨opened,closed,t,answer,close,running,
    open_close_unbalanced [] rfl (kernel_heap_init_laid _) answer (by decide) close running⟩

/-- The table of the heap is not the one from before. -/
theorem open_close_kept_a : ¬ ∀ opened closed t, fopen services filesA [48,58,47,97] [114] = (1,opened) →
    fclose services opened 1 = (0,closed) → closed.rest = .ok t →
    ∀ i : Int, 0 ≤ i → i < systemA.kernel.kernel_heap.table.total →
      t.kernel.kernel_heap.table.entries i = systemA.kernel.kernel_heap.table.entries i := by
  intro kept
  obtain ⟨opened,closed,t,answer,close,running⟩ := opens_a
  obtain ⟨b,free,pinned⟩ := closed_pinned [] rfl (kernel_heap_init_laid _) answer (by decide) close running
  have laid : Laid systemA.kernel.kernel_heap [] := kernel_heap_init_laid _
  have total := laid.total_eq
  have same := kept opened closed t answer close running b free.low (by rw [total]; exact pinned.high)
  refine pinned.taken ?_
  unfold FreeBlock
  rw [same]
  exact (freeBlock_iff laid.layout free.low (by rw [total]; exact pinned.high)).mpr free.uncovered

end SimpOS.OpenLeaks
