import SimpOS.DirectoryCounts
import SimpOS.FatReads

/-!
Paths down the directory tree. A subdirectory's items are those the count reaches, read
from its first cluster; a path names the item that its parts lead to, each looked up among
the items of the one before. The driver follows a path without a fault or a leak exactly
when it meets none of the turns it takes wrong (`Followed`).
-/
namespace SimpOS.FatPaths
open SimpOS.Machine SimpOS.Strings SimpOS.Memory SimpOS.Extents SimpOS.DiskStreams SimpOS.HeapBlocks SimpOS.HeapLayout
open SimpOS.KernelHeap SimpOS.PathParser SimpOS.Fat16 SimpOS.FatChains SimpOS.FatReads SimpOS.FatDirectories
open SimpOS.DirectoryCounts

/-! ### Blocks by their addresses -/

/-- The address is that of a block of the heap. -/
def Block (address : Nat) : Prop := ∃ b : Int, 0 ≤ b ∧ address = blockAddress b
/-- The extent of the block at an address. -/
def page (address : Nat) : Extent := ⟨((address : Int) - SIMPOS_HEAP_ADDRESS) / 4096,1⟩

theorem page_blockAddress {b : Int} (low : 0 ≤ b) : page (blockAddress b) = ⟨b,1⟩ := by
  simp only [page,blockAddress,SIMPOS_HEAP_ADDRESS,Extent.mk.injEq,and_true]
  omega

/-- A request of one block, by its address. -/
theorem kzalloc_page {k : Kernel} {live : List Extent} {size : Nat} (laid : Laid k.kernel_heap live)
    (room : 0 < freeBlocks k.kernel_heap) (positive : 0 < size) (small : size ≤ 4096) :
    ∃ address k', kzalloc k size = (address,k') ∧ address ≠ 0 ∧ Block address ∧
      Laid k'.kernel_heap (page address :: live) ∧ freeBlocks k'.kernel_heap + 1 = freeBlocks k.kernel_heap := by
  rcases kzalloc_single laid positive small with ⟨full,_⟩ | ⟨b,k',granted,took⟩
  · omega
  · have pointer := blockAddress_pos b
    refine ⟨blockAddress b,k',granted,by omega,⟨b,took.free.low,rfl⟩,?_,took.count⟩
    rw [page_blockAddress took.free.low]
    exact took.laid

theorem kfree_page {k : Kernel} {live : List Extent} {address : Nat} (block : Block address)
    (laid : Laid k.kernel_heap (page address :: live)) :
    Laid (kfree k address).kernel_heap live ∧
      freeBlocks (kfree k address).kernel_heap = freeBlocks k.kernel_heap + 1 := by
  obtain ⟨b,low,rfl⟩ := block
  rw [page_blockAddress low] at laid
  exact kfree_single laid

theorem Block.ne_zero {address : Nat} (block : Block address) : address ≠ 0 := by
  obtain ⟨b,_,rfl⟩ := block
  have pointer := blockAddress_pos b
  omega

/-! ### The items of a subdirectory -/

/-- The item at a place of the directory that starts in a cluster. -/
def diskItem (drive : Drive) (p : FatPrivate) (cluster : Int) (n : Nat) : FatDirectoryItem :=
  item_of fun j => diskByte drive (clusterStart p cluster + (32 * n + j : Nat))

/-- How many items are used up to the first one that starts with a zero. -/
def countItems (first : Nat → UInt8) : Nat → Nat → Nat → Option Nat
  | 0, _, _ => none
  | remaining + 1, n, i =>
    if first n = 0 then some i else countItems first remaining (n + 1) (if first n = 0xE5 then i else i + 1)

theorem countItems_le (first : Nat → UInt8) (remaining : Nat) : ∀ (n i t : Nat),
    countItems first remaining n i = some t → i ≤ t ∧ t < i + remaining := by
  induction remaining with
  | zero => exact fun n i t none => nomatch none
  | succ remaining ih =>
    intro n i t count
    rw [countItems] at count
    by_cases last : first n = 0
    · rw [if_pos last,Option.some.injEq] at count
      omega
    · rw [if_neg last] at count
      have rest := ih _ _ _ count
      split_ifs at rest <;> omega

theorem countItems_pos {first : Nat → UInt8} {remaining t : Nat} (starts : first 0 ≠ 0) (used : first 0 ≠ 0xE5)
    (count : countItems first (remaining + 1) 0 0 = some t) : 1 ≤ t ∧ t ≤ remaining := by
  rw [countItems,if_neg starts,if_neg used] at count
  have rest := countItems_le _ _ _ _ _ count
  omega

/-- The directory lies where an int can name its bytes. -/
structure OnDisk (p : FatPrivate) (cluster : Int) : Prop where
  low : 0 ≤ clusterStart p cluster
  high : clusterStart p cluster + 512 < 2147483648

theorem clusterStart_sector (p : FatPrivate) (cluster : Int) : clusterStart p cluster % 512 = 0 := by
  rw [clusterStart,Int.mul_emod_left]

section
variable {drive : Drive} {p : FatPrivate} {cluster : Int} {stream : DiskStream}

theorem OnDisk.sector (onDisk : OnDisk p cluster) : SectorStart (clusterStart p cluster) :=
  ⟨onDisk.low,by have := onDisk.high; omega,clusterStart_sector p cluster⟩

private theorem total_items_loop_eq (onDisk : OnDisk p cluster) (remaining : Nat) :
    ∀ (n i : Nat) (stream : DiskStream), stream.disk = drive.disk → n + remaining ≤ 16 →
      stream.pos = clusterStart p cluster + (32 * n : Nat) →
      ∃ pos : Nat → Int, total_items_loop drive remaining i stream =
        (countItems (fun n => (diskItem drive p cluster n).filename.headD 0) remaining n i).map fun (total : Nat) =>
          ((total : Int),⟨pos total,stream.disk⟩) := by
  induction remaining with
  | zero => exact fun n i stream _ _ _ => ⟨fun _ => 0,rfl⟩
  | succ remaining ih =>
    intro n i stream primary inside here
    obtain ⟨m,read,found⟩ := read_item onDisk.sector primary (by omega : n < 16) here
    have item : item_at m 0 = diskItem drive p cluster n := found
    simp only [total_items_loop,read,ne_eq,not_true_eq_false,if_false,item,countItems]
    by_cases last : (diskItem drive p cluster n).filename.headD 0 = 0
    · simp only [last,if_true]
      exact ⟨fun _ => clusterStart p cluster + (32 * following n : Nat),rfl⟩
    · simp only [last,if_false]
      cases remaining with
      | zero =>
        refine ⟨fun _ => 0,?_⟩
        split_ifs <;> rfl
      | succ remaining =>
        have next : following n = n + 1 := if_neg (by omega)
        rw [next]
        by_cases unused : (diskItem drive p cluster n).filename.headD 0 = 0xE5
        · simp only [unused,if_true]
          exact ih (n + 1) i ⟨_,stream.disk⟩ primary (by omega) rfl
        · simp only [unused,if_false]
          exact ih (n + 1) (i + 1) ⟨_,stream.disk⟩ primary (by omega) rfl

end

def isDirectory (item : FatDirectoryItem) : Bool := item.attributes &&& FAT_FILE_SUBDIRECTORY ≠ 0
def cluster_of (item : FatDirectoryItem) : Int := i32 (fat16_get_first_cluster item)

/-- The items of the subdirectory an item stands for, none when the count of them does not end. -/
def itemsOf (drive : Drive) (p : FatPrivate) (item : FatDirectoryItem) : Option (List FatDirectoryItem) :=
  (countItems (fun n => (diskItem drive p (cluster_of item) n).filename.headD 0) 16 0 0).map fun total =>
    (List.range total).map (diskItem drive p (cluster_of item))

/-- The items of a loaded directory. -/
def listing (directory : FatDirectory) : List FatDirectoryItem :=
  (List.range directory.total.toNat).map directory.item

/-- A mounted volume: its clusters have a size, and its streams read the primary disk. -/
structure Volume (drive : Drive) (p : FatPrivate) : Prop where
  size : 0 < size_of_cluster_bytes p
  clusters : p.cluster_read_stream.disk = drive.disk
  directories : p.directory_stream.disk = drive.disk

/-- A subdirectory on the disk, which starts with a used item as every one does. -/
structure Subdirectory (drive : Drive) (p : FatPrivate) (item : FatDirectoryItem) : Prop where
  cluster : 0 ≤ cluster_of item
  onDisk : OnDisk p (cluster_of item)
  starts : (diskItem drive p (cluster_of item) 0).filename.headD 0 ≠ 0
  used : (diskItem drive p (cluster_of item) 0).filename.headD 0 ≠ 0xE5

theorem diskItem_congr {drive : Drive} {p q : FatPrivate} (same : SameVolume p q) (cluster : Int) (n : Nat) :
    diskItem drive q cluster n = diskItem drive p cluster n := by
  rw [diskItem,diskItem,clusterStart_congr same]
theorem itemsOf_congr {drive : Drive} {p q : FatPrivate} (same : SameVolume p q) (item : FatDirectoryItem) :
    itemsOf drive q item = itemsOf drive p item := by
  have place : diskItem drive q (cluster_of item) = diskItem drive p (cluster_of item) :=
    funext (diskItem_congr same _)
  rw [itemsOf,itemsOf,place]
theorem Volume.congr {drive : Drive} {p q : FatPrivate} (same : SameVolume p q) (volume : Volume drive p) :
    Volume drive q :=
  ⟨by rw [size_congr same]; exact volume.size,same.clusters.trans volume.clusters,
    same.directories.trans volume.directories⟩
theorem Subdirectory.congr {drive : Drive} {p q : FatPrivate} {item : FatDirectoryItem} (same : SameVolume p q)
    (sub : Subdirectory drive p item) : Subdirectory drive q item := by
  refine ⟨sub.cluster,⟨?_,?_⟩,?_,?_⟩
  · rw [clusterStart_congr same]
    exact sub.onDisk.low
  · rw [clusterStart_congr same]
    exact sub.onDisk.high
  · rw [diskItem_congr same]
    exact sub.starts
  · rw [diskItem_congr same]
    exact sub.used

section
variable {drive : Drive} {p : FatPrivate} {item : FatDirectoryItem} {live : List Extent} {k : Kernel}

private theorem total_items_eq (volume : Volume drive p) (sub : Subdirectory drive p item) :
    ∃ moved : Nat → DiskStream, (∀ total, SameVolume p { p with directory_stream := moved total }) ∧
      fat16_get_total_items_for_directory drive p (fat16_cluster_to_sector p (cluster_of item)) =
        (countItems (fun n => (diskItem drive p (cluster_of item) n).filename.headD 0) 16 0 0).map
          fun (total : Nat) => ((total : Int),{ p with directory_stream := moved total }) := by
  have low := sub.onDisk.low
  have high := sub.onDisk.high
  have start : i32 (fat16_cluster_to_sector p (cluster_of item) * SIMPOS_SECTOR_SIZE) =
      clusterStart p (cluster_of item) := by
    rw [clusterStart] at low high ⊢
    rw [fat16_cluster_to_sector]
    unfold i32
    simp only [SIMPOS_SECTOR_SIZE]
    omega
  obtain ⟨pos,loop⟩ := total_items_loop_eq sub.onDisk 16 0 0 ⟨clusterStart p (cluster_of item),p.directory_stream.disk⟩
    volume.directories (by decide) (by simp)
  change total_items_loop drive 16 0 ⟨clusterStart p (cluster_of item),p.directory_stream.disk⟩ = _ at loop
  refine ⟨fun total => ⟨pos total,p.directory_stream.disk⟩,fun total => ⟨rfl,rfl,rfl,rfl,rfl⟩,?_⟩
  simp only [fat16_get_total_items_for_directory,start,items_rounds_on_disk low,diskstreamer_seek,loop,Option.map_map]
  rfl

/-- What reading the items leaves in memory. -/
private theorem stored_items {q : FatPrivate} (volume : Volume drive p) (onDisk : OnDisk p (cluster_of item))
    {total out : Nat} {m m' : Bytes} (few : total ≤ 15) (nonempty : 0 < total)
    (done : Done drive p q (cluster_of item) 0 (32 * total) out m m') {n : Nat} (inside : n < total) :
    item_at m' (offset out (32 * n)) = diskItem drive p (cluster_of item) n := by
  have low := onDisk.low
  have high := onDisk.high
  have size : 512 ≤ size_of_cluster_bytes p := by
    have positive := volume.size
    simp only [size_of_cluster_bytes,SIMPOS_SECTOR_SIZE] at positive ⊢
    omega
  refine item_of_congr fun j bound => ?_
  have byte := (done.stored (.inl (Nat.zero_mod 512))).byte (32 * n + j) (by omega)
  have first : (32 * n + j) / size_of_cluster_bytes p = 0 := Nat.div_eq_of_lt (by omega)
  have within : (32 * n + j) % size_of_cluster_bytes p = 32 * n + j := Nat.mod_eq_of_lt (by omega)
  rw [offset_offset,byte,Nat.zero_add,fileByte,filePosition,first,within,chain,i32_of_range (by omega) (by omega)]

/-- Reading items of a directory's first sector succeeds. -/
theorem read_items (volume : Volume drive p) (onDisk : OnDisk p (cluster_of item)) (cluster : 0 ≤ cluster_of item)
    {total : Nat} (few : total ≤ 15) (nonempty : 0 < total) (out : Nat) (m : Bytes) :
    ∃ q m', fat16_read_internal drive p (cluster_of item) 0 (32 * total : Nat) out m = some (0,q,m') ∧
      SameVolume p q ∧ ∀ n < total, item_at m' (offset out (32 * n)) = diskItem drive p (cluster_of item) n := by
  have size : 512 ≤ size_of_cluster_bytes p := by
    have positive := volume.size
    simp only [size_of_cluster_bytes,SIMPOS_SECTOR_SIZE] at positive ⊢
    omega
  have plain : Plain drive p (cluster_of item) 0 (32 * total) :=
    ⟨by omega,.inl (Nat.zero_mod _),.inl (Nat.zero_mod _)⟩
  have linked : Linked drive p (cluster_of item) (0 + 32 * total) := by
    refine ⟨cluster,fun j before => ?_⟩
    have long := Nat.le_mul_of_pos_left (size_of_cluster_bytes p) (show 0 < j + 1 by omega)
    omega
  obtain ⟨q,m',read⟩ := fat16_read_internal_succeeds volume.size volume.clusters (by omega) plain linked out m
  obtain ⟨_,done⟩ := fat16_read_internal_correct (by omega) plain read (Int.le_refl 0)
  exact ⟨q,m',read,done.volume,fun n inside => stored_items volume onDisk few nonempty done inside⟩

/-- A loaded directory, in its two blocks. -/
structure Loaded (drive : Drive) (p : FatPrivate) (item : FatDirectoryItem) (directory : FatDirectory) : Prop where
  block : Block directory.address
  item_block : Block directory.item_address
  items : itemsOf drive p item = some (listing directory)

/-- Loading a subdirectory never ends, or takes two blocks and has its items. -/
theorem load_fat_directory_cases (volume : Volume drive p) (sub : Subdirectory drive p item)
    (directory : isDirectory item = true) (laid : Laid k.kernel_heap live) (room : 2 ≤ freeBlocks k.kernel_heap) :
    (itemsOf drive p item = none ∧ fat16_load_fat_directory drive p item k = .error .endless) ∨
    ∃ loaded q k', fat16_load_fat_directory drive p item k = .ok (some loaded,q,k') ∧ SameVolume p q ∧
      Loaded drive p item loaded ∧ Laid k'.kernel_heap (page loaded.item_address :: page loaded.address :: live) ∧
      freeBlocks k'.kernel_heap + 2 = freeBlocks k.kernel_heap := by
  obtain ⟨a,k₁,granted,pointer,block,laid₁,count⟩ := kzalloc_page laid (by omega) (by decide : 0 < 16) (by decide)
  obtain ⟨moved,kept,counted⟩ := total_items_eq volume sub
  have flagged : ¬ item.attributes &&& FAT_FILE_SUBDIRECTORY = 0 := by simpa [isDirectory] using directory
  simp only [fat16_load_fat_directory,flagged,if_false,granted,pointer]
  rw [show i32 (fat16_get_first_cluster item) = cluster_of item from rfl,counted]
  rw [itemsOf]
  cases found : countItems (fun n => (diskItem drive p (cluster_of item) n).filename.headD 0) 16 0 0 with
  | none => exact .inl ⟨rfl,rfl⟩
  | some total =>
    obtain ⟨nonempty,few⟩ := countItems_pos sub.starts sub.used found
    have length : i32 ((total : Int) * 32) = (32 * total : Nat) := by
      rw [i32_of_range (by omega) (by omega)]
      omega
    have size : u32 ((32 * total : Nat) : Int) = 32 * total := u32_of_range (by omega)
    obtain ⟨b,k₂,granted',pointer',block',laid₂,count'⟩ :=
      kzalloc_page laid₁ (by omega) (by omega : 0 < 32 * total) (by omega)
    obtain ⟨q,m,read,same,items⟩ :=
      read_items (volume.congr (kept total)) (sub.congr (kept total)).onDisk sub.cluster few nonempty b k₂.memory
    refine .inr ⟨⟨a,b,fun i => item_at m (offset b (32 * i)),total,0⟩,q,{ k₂ with memory := m },?_,
      (kept total).trans same,⟨block,block',?_⟩,laid₂,by dsimp only; omega⟩
    · change load_items drive item a k₁ (some ((total : Int),{ p with directory_stream := moved total })) = _
      simp only [load_items,length,size,granted',pointer',if_false]
      rw [show i32 (fat16_get_first_cluster item) = cluster_of item from rfl,read]
      rfl
    · rw [itemsOf,found]
      refine congrArg some (List.map_congr_left fun n member => ?_)
      exact ((items n (List.mem_range.mp member)).trans (diskItem_congr (kept total) _ _)).symm

end

/-! ### Items and what they occupy -/

/-- The blocks of an item and of what it points to. -/
def extents (f_item : FatItem) : List Extent :=
  page f_item.address ::
    match f_item.type with
    | .FILE => [page f_item.item_address]
    | .DIRECTORY =>
      match f_item.directory with
      | none => []
      | some directory => [page directory.address,page directory.item_address]

/-- The item on the heap for a directory's item: a copy of it, or the directory it stands for. -/
inductive Made (drive : Drive) (p : FatPrivate) (item : FatDirectoryItem) (f_item : FatItem) : Prop
  | file : isDirectory item = false → f_item.type = .FILE → f_item.item = item → Block f_item.address →
      Block f_item.item_address → Made drive p item f_item
  | directory {loaded : FatDirectory} : isDirectory item = true → f_item.type = .DIRECTORY →
      f_item.directory = some loaded → Block f_item.address → Loaded drive p item loaded → Made drive p item f_item

section
variable {drive : Drive} {p : FatPrivate} {item : FatDirectoryItem} {live : List Extent} {k : Kernel}

/-- A new item takes the blocks it and its data need, unless the count of a directory never ends. -/
theorem new_fat_item_cases (volume : Volume drive p) (sub : isDirectory item = true → Subdirectory drive p item)
    (laid : Laid k.kernel_heap live) (room : 3 ≤ freeBlocks k.kernel_heap) :
    (isDirectory item = true ∧ itemsOf drive p item = none ∧
      fat16_new_fat_item_for_directory_item drive p item k = .error .endless) ∨
    ∃ f_item q k', fat16_new_fat_item_for_directory_item drive p item k = .ok (some f_item,q,k') ∧ SameVolume p q ∧
      Made drive p item f_item ∧ Laid k'.kernel_heap (extents f_item ++ live) ∧
      freeBlocks k'.kernel_heap + (extents f_item).length = freeBlocks k.kernel_heap ∧ (extents f_item).length ≤ 3 := by
  obtain ⟨f,k₁,granted,pointer,block,laid₁,count⟩ := kzalloc_page laid (by omega) (by decide : 0 < 8) (by decide)
  by_cases directory : isDirectory item = true
  · have flagged : item.attributes &&& FAT_FILE_SUBDIRECTORY ≠ 0 := by simpa [isDirectory] using directory
    simp only [fat16_new_fat_item_for_directory_item,granted,pointer,if_false,flagged,ne_eq,not_false_eq_true,if_true]
    rcases load_fat_directory_cases volume (sub directory) directory laid₁ (by omega) with
      ⟨none,endless⟩ | ⟨loaded,q,k₂,load,same,held,laid₂,count'⟩
    · exact .inl ⟨directory,none,by rw [endless]; rfl⟩
    · refine .inr ⟨⟨f,item_at k₂.memory loaded.address,loaded.address,some loaded,.DIRECTORY⟩,q,k₂,by rw [load]; rfl,
        same,.directory directory rfl rfl block held,?_,?_,Nat.le_refl 3⟩
      · exact laid₂.perm ((List.reverse_perm [page f,page loaded.address,page loaded.item_address]).append_right live)
      · simp only [extents,List.length_cons,List.length_nil]
        omega
  · rw [Bool.not_eq_true] at directory
    have flagged : item.attributes &&& FAT_FILE_SUBDIRECTORY = 0 := by simpa [isDirectory] using directory
    obtain ⟨c,k₂,granted',pointer',block',laid₂,count'⟩ := kzalloc_page laid₁ (by omega) (by decide : 0 < 32) (by decide)
    refine .inr ⟨⟨f,item,c,none,.FILE⟩,p,k₂,?_,.refl p,.file directory rfl rfl block block',
      laid₂.perm (List.Perm.swap ..),?_,Nat.le_succ 2⟩
    · simp only [fat16_new_fat_item_for_directory_item,granted,pointer,if_false,flagged,ne_eq,not_true_eq_false,
        granted',pointer']
    · simp only [extents,List.length_cons,List.length_nil]
      omega

/-- Releasing an item gives back its blocks and nothing else. -/
theorem fat_item_free_laid {f_item : FatItem} (made : Made drive p item f_item)
    (laid : Laid k.kernel_heap (extents f_item ++ live)) :
    Laid (fat16_fat_item_free f_item k).kernel_heap live ∧
      freeBlocks (fat16_fat_item_free f_item k).kernel_heap =
        freeBlocks k.kernel_heap + (extents f_item).length := by
  cases made with
  | file _ file _ block item_block =>
    simp only [extents,file] at laid
    obtain ⟨laid₁,count₁⟩ := kfree_page item_block (laid.perm (List.Perm.swap ..))
    obtain ⟨laid₂,count₂⟩ := kfree_page block laid₁
    simp only [fat16_fat_item_free,extents,file,List.length_cons,List.length_nil]
    exact ⟨laid₂,by omega⟩
  | @directory loaded _ directory here block held =>
    simp only [extents,directory,here] at laid
    have laid := laid.perm ((List.reverse_perm [page f_item.address,page loaded.address,page loaded.item_address]).symm.append_right live)
    obtain ⟨laid₁,count₁⟩ := kfree_page held.item_block laid
    obtain ⟨laid₂,count₂⟩ := kfree_page held.block laid₁
    obtain ⟨laid₃,count₃⟩ := kfree_page block laid₂
    simp only [fat16_fat_item_free,fat16_free_directory,extents,directory,here,held.item_block.ne_zero,ne_eq,
      not_false_eq_true,if_true,List.length_cons,List.length_nil]
    exact ⟨laid₃,by omega⟩

end

/-! ### Looking a name up -/

/-- The name is the item's, whatever the case of its letters. -/
def named (name : CString) (item : FatDirectoryItem) : Bool :=
  istrncmp (fat16_get_full_relative_filename item) name SIMPOS_MAX_PATH = 0
/-- The items of a name, of which a directory should have one at most. -/
def matching (name : CString) (items : List FatDirectoryItem) : List FatDirectoryItem := items.filter (named name)

theorem Made.congr {drive : Drive} {p q : FatPrivate} {item : FatDirectoryItem} {f_item : FatItem}
    (same : SameVolume p q) (made : Made drive q item f_item) : Made drive p item f_item := by
  cases made with
  | file plain file copied block item_block => exact .file plain file copied block item_block
  | directory sub directory here block held =>
    refine .directory sub directory here block ⟨held.block,held.item_block,?_⟩
    rw [← itemsOf_congr same]
    exact held.items

/-- What a search grabs: nothing when no item has the name; else what the last item of the name
    needs, and beside it what the items before it were given. -/
inductive Found (drive : Drive) (p : FatPrivate) (before : Option FatItem) :
    List FatDirectoryItem → Option FatItem → List Extent → Prop
  | none : Found drive p before [] before []
  | last {earlier : List FatDirectoryItem} {item : FatDirectoryItem} {f_item : FatItem} {lost : List Extent} :
      Made drive p item f_item → (lost = [] ↔ earlier = []) →
      Found drive p before (earlier ++ [item]) (some f_item) (extents f_item ++ lost)

theorem Found.cons {drive : Drive} {p : FatPrivate} {before after : Option FatItem} {item : FatDirectoryItem}
    {f_item : FatItem} {items : List FatDirectoryItem} {grabbed : List Extent} (made : Made drive p item f_item)
    (rest : Found drive p (some f_item) items after grabbed) :
    Found drive p before (item :: items) after (grabbed ++ extents f_item) := by
  cases rest with
  | none =>
    have one : Found drive p before ([] ++ [item]) (some f_item) (extents f_item ++ []) :=
      .last made ⟨fun _ => rfl,fun _ => rfl⟩
    rwa [List.append_nil] at one
  | @last earlier other f_other lost made' balance =>
    rw [List.append_assoc]
    rw [← List.cons_append]
    refine .last made' ⟨fun none => ?_,fun none => ?_⟩
    · exact absurd (List.append_eq_nil_iff.mp none).2 (List.cons_ne_nil _ _)
    · exact absurd none (List.cons_ne_nil _ _)

section
variable {drive : Drive} {p₀ : FatPrivate}

/-- The items a search comes by are on the disk where they are directories. -/
def Sound (drive : Drive) (p : FatPrivate) (items : List FatDirectoryItem) : Prop :=
  ∀ item ∈ items, isDirectory item = true → Subdirectory drive p item
/-- The count of every directory among the items ends. -/
def Countable (drive : Drive) (p : FatPrivate) (items : List FatDirectoryItem) : Prop :=
  ∀ item ∈ items, isDirectory item = true → itemsOf drive p item ≠ none

/-- A search comes by every item of the name, unless the count of one never ends. -/
theorem find_item_loop_cases (volume : Volume drive p₀) (directory : FatDirectory) (name : CString)
    (remaining : Nat) : ∀ (i : Nat) (before : Option FatItem) (p : FatPrivate) (k : Kernel) (live : List Extent),
      SameVolume p₀ p → Sound drive p₀ (matching name ((List.range' i remaining).map directory.item)) →
      Laid k.kernel_heap live →
      3 * (matching name ((List.range' i remaining).map directory.item)).length ≤ freeBlocks k.kernel_heap →
      (¬ Countable drive p₀ (matching name ((List.range' i remaining).map directory.item)) ∧
        find_item_loop drive directory name remaining i before p k = .error .endless) ∨
      ∃ after q k' grabbed, find_item_loop drive directory name remaining i before p k = .ok (after,q,k') ∧
        SameVolume p₀ q ∧ Countable drive p₀ (matching name ((List.range' i remaining).map directory.item)) ∧
        Found drive p₀ before (matching name ((List.range' i remaining).map directory.item)) after grabbed ∧
        Laid k'.kernel_heap (grabbed ++ live) ∧ freeBlocks k'.kernel_heap + grabbed.length = freeBlocks k.kernel_heap ∧
        grabbed.length ≤ 3 * (matching name ((List.range' i remaining).map directory.item)).length := by
  induction remaining with
  | zero =>
    intro i before p k live same _ laid _
    exact .inr ⟨before,p,k,[],rfl,same,fun item member => (nomatch member),.none,laid,rfl,Nat.zero_le _⟩
  | succ remaining ih =>
    intro i before p k live same sound laid room
    rw [List.range'_succ,List.map_cons] at sound room ⊢
    by_cases hit : named name (directory.item i) = true
    · have compared : istrncmp (fat16_get_full_relative_filename (directory.item i)) name SIMPOS_MAX_PATH = 0 :=
        of_decide_eq_true hit
      have list : matching name (directory.item i :: (List.range' (i + 1) remaining).map directory.item) =
          directory.item i :: matching name ((List.range' (i + 1) remaining).map directory.item) :=
        List.filter_cons_of_pos hit
      rw [list] at sound room ⊢
      rw [List.length_cons] at room
      have soundRest : Sound drive p₀ (matching name ((List.range' (i + 1) remaining).map directory.item)) :=
        fun item member => sound item (List.mem_cons_of_mem _ member)
      simp only [find_item_loop,compared,if_true]
      have sub : isDirectory (directory.item i) = true → Subdirectory drive p (directory.item i) := fun is =>
        (sound _ (List.mem_cons_self ..) is).congr same
      rcases new_fat_item_cases (volume.congr same) sub laid (by omega) with
        ⟨is,none,endless⟩ | ⟨f_item,q,k₁,new,same₁,made,laid₁,count,three⟩
      · refine .inl ⟨fun countable => ?_,by rw [endless]; rfl⟩
        refine countable _ (List.mem_cons_self ..) is ?_
        rw [← itemsOf_congr same]
        exact none
      · rw [new]
        have made : Made drive p₀ (directory.item i) f_item := made.congr same
        have countableHere : isDirectory (directory.item i) = true → itemsOf drive p₀ (directory.item i) ≠ none := by
          intro is none
          cases made with
          | file plain => exact absurd is (plain ▸ Bool.false_ne_true)
          | directory _ _ _ _ held => exact Option.some_ne_none _ (held.items.symm.trans none)
        rcases ih (i + 1) (some f_item) q k₁ (extents f_item ++ live) (same.trans same₁) soundRest laid₁ (by omega) with
          ⟨endless,result⟩ | ⟨after,q₂,k₂,grabbed,result,same₂,countable,found,laid₂,count₂,bound₂⟩
        · exact .inl ⟨fun all => endless fun item member => all item (List.mem_cons_of_mem _ member),result⟩
        · refine .inr ⟨after,q₂,k₂,grabbed ++ extents f_item,result,same₂,?_,.cons made found,?_,?_,?_⟩
          · intro item member
            rcases List.mem_cons.mp member with rfl | later
            · exact countableHere
            · exact countable item later
          · rw [List.append_assoc]
            exact laid₂
          · rw [List.length_append]
            omega
          · rw [List.length_append,List.length_cons]
            omega
    · have compared : ¬ istrncmp (fat16_get_full_relative_filename (directory.item i)) name SIMPOS_MAX_PATH = 0 :=
        fun zero => hit (decide_eq_true zero)
      have list : matching name (directory.item i :: (List.range' (i + 1) remaining).map directory.item) =
          matching name ((List.range' (i + 1) remaining).map directory.item) := List.filter_cons_of_neg hit
      rw [list] at sound room ⊢
      simp only [find_item_loop,compared,if_false]
      exact ih (i + 1) before p k live same sound laid room

end

/-! ### Following a path -/

/-- The items of a subdirectory, for a count that ends. -/
def below (drive : Drive) (p : FatPrivate) (item : FatDirectoryItem) : List FatDirectoryItem :=
  (itemsOf drive p item).getD []

/-- The item a path leads to, its parts looked up one in the directory of the other. -/
def resolve (drive : Drive) (p : FatPrivate) : List FatDirectoryItem → CString → List CString →
    Option FatDirectoryItem
  | items, name, [] => (matching name items).head?
  | items, name, next :: rest => (matching name items).head?.bind fun item =>
    if isDirectory item then resolve drive p (below drive p item) next rest else none

/-- The paths the driver takes no wrong turn on: no name is there twice, the count of every
    directory it loads ends, and a part that another follows names a directory, or is the first and
    names nothing. -/
def Followed (drive : Drive) (p : FatPrivate) (first : Bool) : List FatDirectoryItem → CString → List CString → Prop
  | items, name, [] => (matching name items).length ≤ 1 ∧ Countable drive p (matching name items)
  | items, name, next :: rest => (matching name items).length ≤ 1 ∧ Countable drive p (matching name items) ∧
    match (matching name items).head? with
    | none => first = true
    | some item => isDirectory item = true ∧ Followed drive p false (below drive p item) next rest

/-- The items of its parts' names that the search for a path comes by. -/
inductive Met (drive : Drive) (p : FatPrivate) :
    List FatDirectoryItem → CString → List CString → FatDirectoryItem → Prop
  | here {items : List FatDirectoryItem} {name : CString} {rest : List CString} {item : FatDirectoryItem} :
      item ∈ matching name items → Met drive p items name rest item
  | inner {items : List FatDirectoryItem} {name next : CString} {rest : List CString}
      {item inner : FatDirectoryItem} : item ∈ matching name items → isDirectory item = true →
      Met drive p (below drive p item) next rest inner → Met drive p items name (next :: rest) inner

/-- What is left on the heap when a path led to an item, or to none. -/
def Outcome (drive : Drive) (p : FatPrivate) (live : List Extent) (k : Kernel) :
    Option FatDirectoryItem → Option FatItem → Prop
  | none, result => result = none ∧ Laid k.kernel_heap live
  | some item, result => ∃ f_item, result = some f_item ∧ Made drive p item f_item ∧
    Laid k.kernel_heap (extents f_item ++ live)

/-- The path from an item on. -/
private def resolveFrom (drive : Drive) (p : FatPrivate) (item : FatDirectoryItem) : List CString → Option FatDirectoryItem
  | [] => some item
  | next :: rest => if isDirectory item then resolve drive p (below drive p item) next rest else none
private def FollowedFrom (drive : Drive) (p : FatPrivate) (item : FatDirectoryItem) : List CString → Prop
  | [] => True
  | next :: rest => isDirectory item = true ∧ Followed drive p false (below drive p item) next rest
private def MetFrom (drive : Drive) (p : FatPrivate) (item : FatDirectoryItem) : List CString → FatDirectoryItem → Prop
  | [], _ => False
  | next :: rest, other => isDirectory item = true ∧ Met drive p (below drive p item) next rest other

section
variable {drive : Drive} {p₀ : FatPrivate} {items : List FatDirectoryItem} {name : CString}

private theorem followed_found (first : Bool) {earlier : List FatDirectoryItem} {item : FatDirectoryItem}
    (match_eq : matching name items = earlier ++ [item]) (countable : Countable drive p₀ (matching name items))
    (rest : List CString) :
    Followed drive p₀ first items name rest ↔ earlier = [] ∧ FollowedFrom drive p₀ item rest := by
  have single : (matching name items).length ≤ 1 ↔ earlier = [] := by
    rw [match_eq,List.length_append,List.length_singleton,← List.length_eq_zero_iff]
    omega
  cases rest with
  | nil =>
    rw [Followed,single]
    exact ⟨fun both => ⟨both.1,trivial⟩,fun both => ⟨both.1,countable⟩⟩
  | cons next rest =>
    rw [Followed,single]
    constructor
    · rintro ⟨rfl,_,goes⟩
      rw [match_eq] at goes
      exact ⟨rfl,goes⟩
    · rintro ⟨rfl,goes⟩
      refine ⟨rfl,countable,?_⟩
      rw [match_eq]
      exact goes

private theorem resolve_found {item : FatDirectoryItem} (match_eq : matching name items = [item]) (rest : List CString) :
    resolve drive p₀ items name rest = resolveFrom drive p₀ item rest := by
  cases rest with
  | nil => rw [resolve,match_eq]; rfl
  | cons next rest => rw [resolve,match_eq]; rfl

private theorem followed_countable {first : Bool} {rest : List CString}
    (followed : Followed drive p₀ first items name rest) : Countable drive p₀ (matching name items) := by
  cases rest with
  | nil => exact followed.2
  | cons next rest => exact followed.2.1

private theorem itemsOf_few {item : FatDirectoryItem} (found : itemsOf drive p₀ item = some items) : items.length ≤ 15 := by
  rw [itemsOf,Option.map_eq_some_iff] at found
  obtain ⟨total,count,rfl⟩ := found
  have bound := countItems_le _ _ _ _ _ count
  rw [List.length_map,List.length_range]
  omega

/-- How the loop can end: stuck, or with the item of some path and the heap as it was but for
    what it lost; it is stuck or loses something exactly where the path is not followed. -/
def Ends (drive : Drive) (p : FatPrivate) (live lost : List Extent) (followed : Prop)
    (resolved : Option FatDirectoryItem) (run : Except Stuck (Option FatItem × FatPrivate × Kernel)) : Prop :=
  (¬ followed ∧ ∃ stuck, run = .error stuck) ∨
  ∃ result q k lost' reached, run = .ok (result,q,k) ∧ SameVolume p q ∧ Outcome drive p (lost' ++ live) k reached result ∧
    (followed → lost' = lost ∧ reached = resolved) ∧ (¬ followed → lost.length < lost'.length)

private theorem directory_entry_loop_ends (volume : Volume drive p₀)
    (rest : List PathPart) : ∀ (item : FatDirectoryItem) (f_item : FatItem) (p : FatPrivate) (k : Kernel)
      (live lost : List Extent),
      (∀ other, MetFrom drive p₀ item (rest.map PathPart.part) other → isDirectory other = true →
        Subdirectory drive p₀ other) → SameVolume p₀ p → Made drive p₀ item f_item →
      Laid k.kernel_heap (extents f_item ++ (lost ++ live)) → 45 * rest.length ≤ freeBlocks k.kernel_heap →
      Ends drive p₀ live lost (FollowedFrom drive p₀ item (rest.map PathPart.part))
        (resolveFrom drive p₀ item (rest.map PathPart.part)) (directory_entry_loop .unmapped drive rest (some f_item) p k) := by
  induction rest with
  | nil =>
    intro item f_item p k live lost _ same made laid _
    exact .inr ⟨some f_item,p,k,lost,some item,rfl,same,⟨f_item,rfl,made,laid⟩,fun _ => ⟨rfl,rfl⟩,
      fun stuck => absurd trivial stuck⟩
  | cons next rest ih =>
    intro item f_item p k live lost met same made laid room
    rw [List.length_cons] at room
    cases made with
    | file plain file copied block item_block =>
      have stops : f_item.type ≠ .DIRECTORY := by rw [file]; decide
      refine .inr ⟨none,p,k,extents f_item ++ lost,none,?_,same,⟨rfl,?_⟩,fun followed => ?_,fun _ => ?_⟩
      · rw [directory_entry_loop,if_pos stops]
      · rw [List.append_assoc]
        exact laid
      · exact absurd followed.1 (plain ▸ Bool.false_ne_true)
      · rw [List.length_append,extents,List.length_cons]
        omega
    | @directory loaded is directory here block held =>
      have made : Made drive p₀ item f_item := .directory is directory here block held
      have goes : ¬ f_item.type ≠ .DIRECTORY := not_not_intro directory
      have inner : below drive p₀ item = listing loaded := by rw [below,held.items]; rfl
      have few := itemsOf_few held.items
      have list : (List.range' 0 loaded.total.toNat).map loaded.item = listing loaded := by
        rw [listing,List.range_eq_range']
      have members : ∀ other ∈ matching next.part (listing loaded), ∀ onward, MetFrom drive p₀ other
          (rest.map PathPart.part) onward → MetFrom drive p₀ item ((next :: rest).map PathPart.part) onward := by
        intro other member onward further
        cases rest with
        | nil => exact further.elim
        | cons more rest => exact ⟨is,.inner (inner ▸ member) further.1 further.2⟩
      have sound : Sound drive p₀ (matching next.part (listing loaded)) := fun other member =>
        met other ⟨is,.here (inner ▸ member)⟩
      have fewer : (matching next.part (listing loaded)).length ≤ 15 :=
        Nat.le_trans (List.length_filter_le ..) few
      have search := find_item_loop_cases volume loaded next.part loaded.total.toNat 0 none p k
        (extents f_item ++ (lost ++ live)) same (list ▸ sound) laid
        (by rw [list]; omega)
      rw [list] at search
      rw [directory_entry_loop,if_neg goes,here]
      simp only [fat16_find_item_in_directory,List.map_cons]
      rcases search with ⟨endless,result⟩ | ⟨after,q,k₁,grabbed,result,same₁,countable,found,laid₁,count₁,bound₁⟩
      · refine .inl ⟨fun followed => endless ?_,.endless,by rw [result]; rfl⟩
        exact followed_countable (inner ▸ followed.2)
      · obtain ⟨laid₂,count₂⟩ := fat_item_free_laid made (laid₁.perm (List.perm_append_comm_assoc ..))
        rw [result]
        change Ends drive p₀ live lost _ _ (directory_entry_loop .unmapped drive rest after q (fat16_fat_item_free f_item k₁))
        rw [FollowedFrom,resolveFrom,if_pos is,inner]
        generalize match_eq : matching next.part (listing loaded) = matched at found countable fewer bound₁
        rw [← match_eq] at countable
        cases found with
        | none =>
          cases rest with
          | nil =>
            refine .inr ⟨none,q,_,lost,none,rfl,same₁,⟨rfl,laid₂⟩,fun _ => ⟨rfl,?_⟩,fun stuck => ?_⟩
            · rw [List.map_nil,resolve,match_eq]
              rfl
            · refine absurd ⟨is,?_,countable⟩ stuck
              rw [match_eq]
              exact Nat.zero_le 1
          | cons more rest =>
            refine .inl ⟨fun followed => ?_,.null,rfl⟩
            have goes := followed.2.2.2
            rw [match_eq] at goes
            exact Bool.false_ne_true goes
        | @last earlier other f_other gone made' balance =>
          have member : other ∈ matching next.part (listing loaded) :=
            match_eq ▸ List.mem_append_right earlier (List.mem_singleton.mpr rfl)
          have followed := followed_found false match_eq countable (rest.map PathPart.part)
          rw [List.append_assoc,← List.append_assoc gone] at laid₂
          have ended := ih other f_other q _ live (gone ++ lost)
            (fun onward further => met onward (members other member onward further)) same₁ made' laid₂ (by omega)
          rcases ended with ⟨notFollowed,stuck⟩ | ⟨result,q₂,k₂,lost',reached,run,same₂,outcome,kept,more⟩
          · exact .inl ⟨fun both => notFollowed (followed.mp both.2).2,stuck⟩
          · refine .inr ⟨result,q₂,k₂,lost',reached,run,same₂,outcome,fun both => ?_,fun neither => ?_⟩
            · obtain ⟨none,onward⟩ := followed.mp both.2
              obtain ⟨sameLost,sameReached⟩ := kept onward
              subst none
              rw [balance.mpr rfl] at sameLost
              exact ⟨sameLost,sameReached.trans (resolve_found match_eq _).symm⟩
            · by_cases onward : FollowedFrom drive p₀ other (rest.map PathPart.part)
              · have twice : gone ≠ [] := fun none => neither ⟨is,followed.mpr ⟨balance.mp none,onward⟩⟩
                rw [(kept onward).1,List.length_append]
                have some := List.length_pos_iff.mpr twice
                omega
              · have longer := more onward
                rw [List.length_append] at longer
                omega

theorem get_directory_entry_ends {p : FatPrivate} (path : PathPart) {next : List PathPart} {k : Kernel}
    {live : List Extent} (volume : Volume drive p)
    (met : ∀ item, Met drive p (listing p.root_directory) path.part (next.map PathPart.part) item →
      isDirectory item = true → Subdirectory drive p item)
    (laid : Laid k.kernel_heap live)
    (room : 3 * p.root_directory.total.toNat + 45 * next.length ≤ freeBlocks k.kernel_heap) :
    Ends drive p live [] (Followed drive p true (listing p.root_directory) path.part (next.map PathPart.part))
      (resolve drive p (listing p.root_directory) path.part (next.map PathPart.part))
      (fat16_get_directory_entry .unmapped drive p path next k) := by
  have list : (List.range' 0 p.root_directory.total.toNat).map p.root_directory.item = listing p.root_directory := by
    rw [listing,List.range_eq_range']
  have few : (matching path.part (listing p.root_directory)).length ≤ p.root_directory.total.toNat := by
    refine Nat.le_trans (List.length_filter_le ..) ?_
    rw [listing,List.length_map,List.length_range]
  have search := find_item_loop_cases volume p.root_directory path.part p.root_directory.total.toNat 0 none p k live
    (.refl p) (list ▸ fun item member => met item (.here member)) laid (by rw [list]; omega)
  rw [list] at search
  simp only [fat16_get_directory_entry,fat16_find_item_in_directory]
  rcases search with ⟨endless,result⟩ | ⟨after,q,k₁,grabbed,result,same,countable,found,laid₁,count,bound⟩
  · exact .inl ⟨fun followed => endless (followed_countable followed),.endless,by rw [result]; rfl⟩
  · rw [result]
    generalize match_eq : matching path.part (listing p.root_directory) = matched at found countable few bound
    rw [← match_eq] at countable
    cases found with
    | none =>
      have nothing : (matching path.part (listing p.root_directory)).head? = none := by rw [match_eq]; rfl
      have single : (matching path.part (listing p.root_directory)).length ≤ 1 := by rw [match_eq]; exact Nat.zero_le 1
      refine .inr ⟨none,q,k₁,[],none,rfl,same,⟨rfl,laid₁⟩,fun _ => ⟨rfl,?_⟩,fun stuck => absurd ?_ stuck⟩
      · cases next with
        | nil => rw [List.map_nil,resolve,nothing]
        | cons part rest => rw [List.map_cons,resolve,nothing]; rfl
      · cases next with
        | nil => exact ⟨single,countable⟩
        | cons part rest =>
          rw [List.map_cons,Followed,nothing]
          exact ⟨single,countable,rfl⟩
    | @last earlier item f_item gone made balance =>
      have member : item ∈ matching path.part (listing p.root_directory) :=
        match_eq ▸ List.mem_append_right earlier (List.mem_singleton.mpr rfl)
      have onward : ∀ other, MetFrom drive p item (next.map PathPart.part) other → isDirectory other = true →
          Subdirectory drive p other := by
        intro other further
        cases next with
        | nil => exact further.elim
        | cons part rest => exact met other (.inner member further.1 further.2)
      have followed := followed_found true match_eq countable (next.map PathPart.part)
      rw [List.append_assoc] at laid₁
      rcases directory_entry_loop_ends volume next item f_item q k₁ live gone onward same made laid₁
        (by omega) with ⟨notFollowed,stuck⟩ | ⟨result,q₂,k₂,lost,reached,run,same₂,outcome,kept,more⟩
      · exact .inl ⟨fun both => notFollowed (followed.mp both).2,stuck⟩
      · refine .inr ⟨result,q₂,k₂,lost,reached,run,same₂,outcome,fun both => ?_,fun neither => ?_⟩
        · obtain ⟨none,onward⟩ := followed.mp both
          obtain ⟨sameLost,sameReached⟩ := kept onward
          subst none
          rw [balance.mpr rfl] at sameLost
          exact ⟨sameLost,sameReached.trans (resolve_found match_eq _).symm⟩
        · by_cases onward : FollowedFrom drive p item (next.map PathPart.part)
          · have twice : gone ≠ [] := fun none => neither (followed.mpr ⟨balance.mp none,onward⟩)
            rw [(kept onward).1]
            exact List.length_pos_iff.mpr twice
          · exact Nat.lt_of_le_of_lt (Nat.zero_le _) (more onward)

end

/-- The table of the heap tells extents that were lost from none. -/
private theorem nothing_lost {heap : Heap} (kept : List Extent) {lost live : List Extent} (laid : Laid heap (kept ++ (lost ++ live)))
    (laid' : Laid heap (kept ++ live)) : lost = [] := by
  cases lost with
  | nil => rfl
  | cons e rest =>
    have laid := laid.perm (@List.perm_middle _ e kept (rest ++ live))
    obtain ⟨low,high,positive⟩ := laid.layout.start e (List.mem_cons_self ..)
    have inside : e.first ∈ e := by rw [mem_def]; omega
    have apart := (List.pairwise_cons.mp laid.layout.disjoint).1
    have free : FreeBlock heap e.first := by
      refine (freeBlock_iff laid'.layout low high).mpr ?_
      rintro ⟨other,member,inOther⟩
      refine apart other ?_ e.first inside inOther
      rcases List.mem_append.mp member with inKept | inLive
      · exact List.mem_append_left _ inKept
      · exact List.mem_append_right _ (List.mem_append_right _ inLive)
    exact absurd ⟨e,List.mem_cons_self ..,inside⟩ ((freeBlock_iff laid.layout low high).mp free)

section
variable {drive : Drive} {p : FatPrivate} {path : PathPart} {next : List PathPart} {k : Kernel} {live : List Extent}

/-- A path with a wrong turn on it leaves a fault or a leak, whatever it should have led to. -/
theorem directory_entry_wrong (volume : Volume drive p)
    (met : ∀ item, Met drive p (listing p.root_directory) path.part (next.map PathPart.part) item →
      isDirectory item = true → Subdirectory drive p item)
    (laid : Laid k.kernel_heap live)
    (room : 3 * p.root_directory.total.toNat + 45 * next.length ≤ freeBlocks k.kernel_heap)
    (wrong : ¬ Followed drive p true (listing p.root_directory) path.part (next.map PathPart.part))
    (resolved : Option FatDirectoryItem) :
    ¬ ∃ result q k', fat16_get_directory_entry .unmapped drive p path next k = .ok (result,q,k') ∧
      Outcome drive p live k' resolved result := by
  rintro ⟨result,q,k',run,outcome⟩
  rcases get_directory_entry_ends path volume met laid room with
    ⟨_,stuck,failed⟩ | ⟨result',q',k₂,lost,reached,run',_,outcome',_,more⟩
  · rw [failed] at run
    cases run
  · rw [run'] at run
    cases run
    have some := List.length_pos_iff.mp (more wrong)
    cases reached with
    | none =>
      cases resolved with
      | none => exact some (nothing_lost [] outcome'.2 outcome.2)
      | some item =>
        obtain ⟨_,made,_⟩ := outcome
        rw [outcome'.1] at made
        cases made
    | some item =>
      obtain ⟨f_item,rfl,_,laid₂⟩ := outcome'
      cases resolved with
      | none => cases outcome.1
      | some item' =>
        obtain ⟨_,same,_,laid₁⟩ := outcome
        cases same
        exact some (nothing_lost (extents f_item) laid₂ laid₁)

/-- A path without one comes back with the item it leads to among the records searched, and with every
    other item it made released. -/
theorem directory_entry_followed (volume : Volume drive p)
    (met : ∀ item, Met drive p (listing p.root_directory) path.part (next.map PathPart.part) item →
      isDirectory item = true → Subdirectory drive p item)
    (laid : Laid k.kernel_heap live)
    (room : 3 * p.root_directory.total.toNat + 45 * next.length ≤ freeBlocks k.kernel_heap)
    (followed : Followed drive p true (listing p.root_directory) path.part (next.map PathPart.part)) :
    ∃ result q k', fat16_get_directory_entry .unmapped drive p path next k = .ok (result,q,k') ∧
      Outcome drive p live k' (resolve drive p (listing p.root_directory) path.part (next.map PathPart.part)) result := by
  rcases get_directory_entry_ends path volume met laid room with
    ⟨wrong,_⟩ | ⟨result,q,k',lost,reached,run,_,outcome,kept,_⟩
  · exact absurd followed wrong
  · obtain ⟨rfl,rfl⟩ := kept followed
    exact ⟨result,q,k',run,outcome⟩

end

section
variable {drive : Drive} {p : FatPrivate} {items : List FatDirectoryItem} {name : CString} {item : FatDirectoryItem}

/-- Where the only item of the name is a plain file, no other is met. -/
theorem met_plain (only : matching name items = [item]) (plain : isDirectory item = false) {rest : List CString}
    {other : FatDirectoryItem} (met : Met drive p items name rest other) : isDirectory other = false := by
  cases met with
  | here member =>
    rw [only,List.mem_singleton] at member
    rw [member]
    exact plain
  | inner member up _ =>
    rw [only,List.mem_singleton] at member
    rw [member,plain] at up
    cases up

theorem followed_plain (only : matching name items = [item]) (plain : isDirectory item = false) {first : Bool} :
    Followed drive p first items name [] := by
  refine ⟨(congrArg List.length only).le,?_⟩
  intro other member up
  rw [only,List.mem_singleton] at member
  rw [member,plain] at up
  cases up

end

/-! A volume whose root directory has one plain file, of the name a. -/

def file_a : FatDirectoryItem :=
  { filename := 97 :: List.replicate 7 32
    ext := [32, 32, 32]
    attributes := 0
    high_16_bits_first_cluster := 0
    low_16_bits_first_cluster := 2
    file_size := 1 }
def volume_a : FatPrivate :=
  { primary_header := ⟨1, 1⟩
    root_directory := ⟨0, 0, fun _ => file_a, 1, 0⟩
    cluster_read_stream := ⟨0, 0⟩
    fat_read_stream := some ⟨0, 0⟩
    directory_stream := ⟨0, 0⟩ }
def blankDrive : Drive := ⟨0, fun _ => 0, fun _ => 0⟩
def bootKernel : Kernel := ⟨fun _ => 0, kernel_heap_init fun _ => 0⟩

theorem volume_a_mounted : Volume blankDrive volume_a := ⟨by decide,rfl,rfl⟩
theorem matching_a : matching [97] (listing volume_a.root_directory) = [file_a] := by decide
theorem met_a {rest : List CString} (item : FatDirectoryItem)
    (met : Met blankDrive volume_a (listing volume_a.root_directory) [97] rest item) (is : isDirectory item = true) :
    Subdirectory blankDrive volume_a item := by
  rw [met_plain matching_a (by decide) met] at is
  cases is
theorem followed_a : Followed blankDrive volume_a true (listing volume_a.root_directory) [97] [] :=
  followed_plain matching_a (by decide)

/-- The item of the file a is made on any heap with room for it. -/
theorem found_a {path : PathPart} {k : Kernel} {live : List Extent} (zero : PageZero) (name : path.part = [97])
    (laid : Laid k.kernel_heap live) (room : 3 ≤ freeBlocks k.kernel_heap) :
    ∃ f_item q k', fat16_get_directory_entry zero blankDrive volume_a path [] k = .ok (some f_item,q,k') ∧
      f_item.type = .FILE ∧ Laid k'.kernel_heap (extents f_item ++ live) := by
  have followed : Followed blankDrive volume_a true (listing volume_a.root_directory) path.part [] := by
    rw [name]
    exact followed_a
  have leads : resolve blankDrive volume_a (listing volume_a.root_directory) path.part [] = some file_a := by
    rw [name]
    exact congrArg List.head? matching_a
  have enough : 3 * volume_a.root_directory.total.toNat + 45 * ([] : List PathPart).length ≤
      freeBlocks k.kernel_heap := room
  obtain ⟨result,q,k',run,outcome⟩ :=
    directory_entry_followed volume_a_mounted (by rw [name]; exact met_a) laid enough followed
  rw [List.map_nil,leads] at outcome
  obtain ⟨f_item,rfl,made,laid'⟩ := outcome
  refine ⟨f_item,q,k',?_,?_,laid'⟩
  · rcases @get_directory_entry_null blankDrive volume_a path [] k with same | ⟨null,_⟩
    · cases zero with
      | mapped => exact same.trans run
      | unmapped => exact run
    · exact absurd (run.symm.trans null) (by simp)
  · cases made with
    | file _ type => exact type
    | directory is => exact absurd is (by decide)

end SimpOS.FatPaths
