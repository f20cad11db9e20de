import SimpOS.PathBlocks
import SimpOS.VolumeMounts

/-!
What `fat16_load_fat_directory` gives its caller. Its exits all return the pointer to the directory,
also after they have released it, so that the caller cannot tell: the directory and its items are
live exactly when nothing went wrong on the way.
-/
namespace SimpOS.LoadedDirectories
open SimpOS.Machine SimpOS.Strings SimpOS.Memory SimpOS.Extents SimpOS.DiskStreams SimpOS.HeapBlocks SimpOS.HeapLayout
open SimpOS.KernelHeap SimpOS.Fat16 SimpOS.FatChains SimpOS.FatDirectories SimpOS.DirectoryCounts SimpOS.FatPaths
open SimpOS.DirectoryLookups SimpOS.PathBlocks SimpOS.VolumeMounts

/-- The streams of a mounted volume read its disk. -/
structure Streams (drive : Drive) (p : FatPrivate) : Prop where
  clusters : p.cluster_read_stream.disk = drive.disk
  directories : p.directory_stream.disk = drive.disk

/-- The entry at a place of the directory's cluster chain. -/
def chainItem (drive : Drive) (p : FatPrivate) (item : FatDirectoryItem) (n : Nat) : FatDirectoryItem :=
  item_of fun j => drive.image (filePosition drive p (cluster_of item) (32 * n + j)).toNat

/-- The directory and the array of its items are on the heap beside what was there, and the items are
    the first entries of the chain. -/
structure LiveDirectory (drive : Drive) (p : FatPrivate) (item : FatDirectoryItem) (k : Kernel) (held : List Extent)
    (d : FatDirectory) : Prop where
  block : Block d.address
  array : ∃ e : Extent, d.item_address = blockAddress e.first ∧ 32 * d.total ≤ 4096 * e.count ∧
    Laid k.kernel_heap (e :: page d.address :: held)
  total : 0 ≤ d.total
  stored : ∀ n, d.item n = item_at k.memory (offset d.item_address (32 * n))
  items : ∀ n : Nat, (n : Int) < d.total → d.item n = chainItem drive p item n

/-- The call comes back with null or a live directory. -/
def LoadsRight (drive : Drive) (p : FatPrivate) (item : FatDirectoryItem) (k : Kernel) (held : List Extent) : Prop :=
  ∃ loaded q k', fat16_load_fat_directory drive p item k = .ok (loaded, q, k') ∧
    ∀ d, loaded = some d → LiveDirectory drive p item k' held d

/-- The blocks of the item and its directory are live beside the others, and freeing the item gives back
    them and no others. -/
def FreedOnce (f_item : FatItem) (k : Kernel) (held : List Extent) : Prop :=
  ∃ (d : FatDirectory) (e : Extent), f_item.directory = some d ∧ d.item_address = blockAddress e.first ∧
    Laid k.kernel_heap (e :: page d.address :: page f_item.address :: held) ∧
    Laid (fat16_fat_item_free f_item k).kernel_heap held

/-- The item made for the directory has a live one. It can be searched, which leaves it to be freed, and
    so it can without. -/
structure ItemRight (drive : Drive) (p : FatPrivate) (item : FatDirectoryItem) (q : FatPrivate) (k : Kernel)
    (held : List Extent) (f_item : FatItem) : Prop where
  directory : ∀ d, f_item.directory = some d → LiveDirectory drive p item k (page f_item.address :: held) d
  searched : ∀ name, fat16_find_item_in_directory .unmapped drive f_item.directory name q k ≠ .error .null
  freed : FreedOnce f_item k held
  search_freed : ∀ name found q' k', fat16_find_item_in_directory .mapped drive f_item.directory name q k = .ok (found,q',k') →
    ∃ grabbed, FreedOnce f_item k' (grabbed ++ held)

/-- Loading the directory comes back with null or a live one, and so does making an item for it. -/
def DirectoryRight (drive : Drive) (p : FatPrivate) (item : FatDirectoryItem) (k : Kernel) (held : List Extent) : Prop :=
  LoadsRight drive p item k held ∧
    ∃ made q k', fat16_new_fat_item_for_directory_item drive p item k = .ok (made, q, k') ∧
      ∀ f_item, made = some f_item → ItemRight drive p item q k' held f_item

/-- An int can name where the directory starts. -/
def InReach (p : FatPrivate) (item : FatDirectoryItem) : Prop :=
  0 ≤ clusterStart p (cluster_of item) ∧ clusterStart p (cluster_of item) < 2147483648

/-- The directory can be loaded: clusters have a size, its first cluster is no negative int and lies in
    reach, and its used entries end among the first sixteen, some of them not deleted. -/
structure Loadable (drive : Drive) (p : FatPrivate) (item : FatDirectoryItem) : Prop where
  sized : p.primary_header.sectors_per_cluster ≠ 0
  cluster : 0 ≤ cluster_of item
  reach : InReach p item
  ended : ∃ t, t < 16 ∧ (∀ i, i < t → (clusterRegion p item).mark drive i ≠ 0) ∧ (clusterRegion p item).mark drive t = 0 ∧
    live drive (clusterRegion p item) t ≠ []

/-! ### Blocks that are not live -/

section
variable {heap : Heap} {k : Kernel} {e : Extent} {held : List Extent} {a : Nat}

theorem laid_without (laid : Laid heap (e :: held)) : ¬Laid heap held := by
  intro without
  obtain ⟨low,high,some⟩ := laid.layout.start e (List.mem_cons_self ..)
  have own : e.first ∈ e := by
    rw [mem_def]
    omega
  have apart : ¬Covered held e.first := by
    rintro ⟨other,member,inside⟩
    exact (List.pairwise_cons.mp laid.layout.disjoint).1 other member e.first own inside
  refine (freeBlock_iff laid.layout low high).mp ((freeBlock_iff without.layout low high).mpr apart) ?_
  exact ⟨e,List.mem_cons_self ..,own⟩

theorem kfree_not_live (block : Block a) (member : page a ∈ held) : ¬Laid (kfree k a).kernel_heap held := by
  intro laid
  obtain ⟨b,low,rfl⟩ := block
  rw [page_blockAddress low] at member
  have total := laid.total_eq
  obtain ⟨_,high,_⟩ := laid.layout.start _ member
  have start : k.kernel_heap.start_address = SIMPOS_HEAP_ADDRESS := laid.start_address
  have free : (kfree k (blockAddress b)).kernel_heap.table.entries b = HEAP_BLOCK_TABLE_ENTRY_FREE := by
    show (heap_free k.kernel_heap (blockAddress b)).table.entries b = _
    rw [heap_free,heap_address_to_block_kernel start low (by dsimp only at high; omega)]
    exact heap_mark_blocks_free_first high
  have taken := laid.layout.chain _ member b (by rw [mem_mk]; omega) high
  exact chainEntry_ne_free _ _ (taken.symm.trans free)

/-- A directory that was released is not live. -/
theorem released_not_live {drive : Drive} {p : FatPrivate} {item : FatDirectoryItem} {d : FatDirectory} :
    ¬LiveDirectory drive p item (fat16_free_directory (some d) k) held d := by
  rintro ⟨block,⟨e,_,_,laid⟩,_⟩
  unfold fat16_free_directory at laid
  dsimp only at laid
  exact kfree_not_live block (List.mem_cons_of_mem _ (List.mem_cons_self ..)) laid

end

/-! ### What the load comes to -/

section
variable {drive : Drive} {p : FatPrivate} {item : FatDirectoryItem} {k : Kernel} {held : List Extent}

theorem size_of_cluster_bytes_pos (sized : p.primary_header.sectors_per_cluster ≠ 0) : 512 ≤ size_of_cluster_bytes p := by
  have positive : p.primary_header.sectors_per_cluster.toNat ≠ 0 := fun zero => sized (UInt8.toNat_inj.mp zero)
  rw [size_of_cluster_bytes]
  simp only [SIMPOS_SECTOR_SIZE]
  omega

private theorem starting_pos_first (reach : InReach p item) : starting_pos p (cluster_of item) 0 = clusterStart p (cluster_of item) := by
  obtain ⟨low,high⟩ := reach
  rw [clusterStart] at low high ⊢
  rw [starting_pos,fat16_cluster_to_sector]
  generalize p.root_directory.last_sector_pos +
    (cluster_of item - 2) * (p.primary_header.sectors_per_cluster.toNat : Int) = sector at low high ⊢
  simp only [SIMPOS_SECTOR_SIZE]
  have inner : i32 sector = sector := i32_of_range (by omega) (by omega)
  rw [inner,Int.add_zero]
  exact i32_of_range (by omega) high

/-- The first cluster of the chain is its own, also where it is a negative int, which the read refuses. -/
private theorem first_cluster (some_size : size_of_cluster_bytes p ≠ 0) (cluster : Int) :
    fat16_get_cluster_for_offset drive p cluster 0 = some (cluster,p) := by
  unfold fat16_get_cluster_for_offset
  rw [if_neg some_size,Int.zero_tdiv]
  rfl

/-- Reading the first items of the directory delivers the bytes at its start. -/
private theorem read_first (primary : p.cluster_read_stream.disk = drive.disk)
    (sized : p.primary_header.sectors_per_cluster ≠ 0) (cluster : 0 ≤ cluster_of item) (reach : InReach p item) {count : Nat}
    (few : count < 16) (out : Nat) (m : Bytes) :
    ∃ q m', fat16_read_internal drive p (cluster_of item) 0x00 (32 * count : Nat) out m = some (0,q,m') ∧
      Stored m m' out (32 * count) (fun j => diskByte drive (i32 (clusterStart p (cluster_of item) + j))) := by
  have size := size_of_cluster_bytes_pos sized
  have found := @first_cluster drive p (by omega) (cluster_of item)
  have aligned := clusterStart_sector p (cluster_of item)
  obtain ⟨low,high⟩ := reach
  obtain ⟨m',read,stored⟩ := diskstreamer_read_aligned
    (show (DiskStream.mk (clusterStart p (cluster_of item)) p.cluster_read_stream.disk).disk = drive.disk from primary)
    (by dsimp only; omega) (by dsimp only; omega) (by dsimp only; omega) out (32 * count) (by omega) m
  have whole : ((32 * count : Nat) : Int) = if ((32 * count : Nat) : Int) > size_of_cluster_bytes p then
      (size_of_cluster_bytes p : Int) else (32 * count : Nat) := by
    rw [if_neg (by omega)]
  have start : clusterStart p (cluster_of item) =
      starting_pos p (cluster_of item) (Int.tmod 0 (size_of_cluster_bytes p)) := by
    rw [Int.zero_tmod,starting_pos_first ⟨low,high⟩]
  rw [start] at read
  have result := read_internal_seeks found (Int.not_lt.mpr cluster) out m whole read
  rw [if_neg (show ¬((0 : Int) ≠ 0) by decide),Int.sub_self,if_neg (by decide)] at result
  unfold fat16_read_internal
  rw [result]
  exact ⟨_,m',rfl,stored⟩

/-- The entries of the chain are those of its first cluster. -/
private theorem chainItem_first (sized : p.primary_header.sectors_per_cluster ≠ 0) (reach : InReach p item) {n : Nat}
    (near : n < 16) : chainItem drive p item n = entry drive (clusterRegion p item) n := by
  have size := size_of_cluster_bytes_pos sized
  have aligned := clusterStart_sector p (cluster_of item)
  refine item_of_congr fun j bound => ?_
  have place : (clusterRegion p item).place n = (clusterStart p (cluster_of item)).toNat / 512 * 512 + 32 * n := rfl
  obtain ⟨low,_⟩ := reach
  rw [filePosition,Nat.div_eq_of_lt (by omega),Nat.mod_eq_of_lt (by omega),chain,place]
  congr 1
  omega

/-- The end of the load comes to a live directory only from a read that succeeded. -/
private theorem load_out_live {d₀ : FatDirectory} {read : Option (Int × FatPrivate × Bytes)}
    (lives : ∃ d q k', load_out d₀ read k = .ok (some d,q,k') ∧ LiveDirectory drive p item k' held d) :
    ∃ q m, read = some (0,q,m) ∧ ∃ e : Extent, Laid k.kernel_heap (e :: page d₀.address :: held) := by
  obtain ⟨d,q,k',load,alive⟩ := lives
  rcases read with _ | ⟨res,q',m⟩
  · cases load
  · rw [load_out] at load
    by_cases failed : res ≠ 0
    · rw [if_pos failed] at load
      cases load
      exact absurd alive released_not_live
    · rw [if_neg failed] at load
      cases load
      rw [not_not] at failed
      subst failed
      obtain ⟨e,_,_,laid⟩ := alive.array
      exact ⟨q,m,rfl,e,laid⟩

private theorem kzalloc_zero_heap (laid : Laid k.kernel_heap held) : (kzalloc k 0).2.kernel_heap = k.kernel_heap := by
  unfold kzalloc kmalloc
  rcases heap_malloc_kernel laid 0 with ⟨_,refused⟩ | ⟨b,_,_,granted,_⟩
  · rw [refused]
    rfl
  · rw [granted,requestBlocks_zero,heap_mark_blocks_taken_zero]
    dsimp only
    split_ifs <;> rfl

private theorem read_refused (some_size : size_of_cluster_bytes p ≠ 0) {cluster : Int} (negative : cluster < 0) (total : Int)
    (out : Nat) (m : Bytes) : ∃ q, fat16_read_internal drive p cluster 0x00 total out m = some (cluster,q,m) := by
  have result : fat16_read_internal_from_stream drive p p.cluster_read_stream cluster 0 total out m =
      some (cluster,p,p.cluster_read_stream,m) := by
    rw [fat16_read_internal_from_stream,first_cluster some_size]
    dsimp only
    rw [if_pos negative]
  unfold fat16_read_internal
  rw [result]
  exact ⟨_,rfl⟩

/-- A read of the directory succeeds only where clusters have a size and the first one is no negative int. -/
private theorem read_first_only {total : Int} {out : Nat} {m m' : Bytes} {q : FatPrivate}
    (read : fat16_read_internal drive p (cluster_of item) 0x00 total out m = some (0,q,m')) :
    p.primary_header.sectors_per_cluster ≠ 0 ∧ 0 ≤ cluster_of item := by
  generalize cluster_of item = cluster at read ⊢
  by_cases none : size_of_cluster_bytes p = 0
  · unfold fat16_read_internal at read
    rw [fat16_read_internal_from_stream,fat16_get_cluster_for_offset,if_pos none] at read
    cases read
  refine ⟨fun zero => none ?_,?_⟩
  · rw [size_of_cluster_bytes,zero]
    rfl
  · by_contra negative
    obtain ⟨q',refused⟩ := @read_refused drive p none cluster (not_le.mp negative) total out m
    rw [refused,Option.some.injEq,Prod.mk.injEq] at read
    omega

/-- What the load does behind the count of the items, none of which is left out. -/
private theorem load_items_live {a t : Nat} {q : FatPrivate} (streams : Streams drive p) (reach : InReach p item) (block : Block a)
    (laid : Laid k.kernel_heap (page a :: held)) (near : t < 16)
    (same : ∃ stream, q = { p with directory_stream := stream }) :
    (∃ d q' k', load_items drive item a k (some (((live drive (clusterRegion p item) t).length : Int),q)) = .ok (some d,q',k') ∧
      LiveDirectory drive p item k' held d) ↔
    1 ≤ freeBlocks k.kernel_heap ∧ p.primary_header.sectors_per_cluster ≠ 0 ∧ 0 ≤ cluster_of item ∧
      live drive (clusterRegion p item) t ≠ [] := by
  obtain ⟨stream,rfl⟩ := same
  have few := live_length_le drive (clusterRegion p item) t
  have nonempty : live drive (clusterRegion p item) t ≠ [] ↔ 0 < (live drive (clusterRegion p item) t).length :=
    List.length_pos_iff.symm
  rw [nonempty]
  generalize (live drive (clusterRegion p item) t).length = count at few ⊢
  have length : i32 ((count : Int) * 32) = (32 * count : Nat) := by
    rw [i32_of_range (by omega) (by omega)]
    omega
  rw [load_items,length,u32_of_range (by omega : 32 * count < 4294967296),
    show i32 (fat16_get_first_cluster item) = cluster_of item from rfl]
  by_cases empty : count = 0
  · subst empty
    have heap := kzalloc_zero_heap laid
    rw [Nat.mul_zero]
    generalize kzalloc k 0 = granted at heap ⊢
    obtain ⟨b,k₁⟩ := granted
    dsimp only at heap ⊢
    constructor
    · rintro lives
      by_cases null : b = 0
      · obtain ⟨d,q',k',load,alive⟩ := lives
        rw [if_pos null] at load
        cases load
        exact absurd alive released_not_live
      · rw [if_neg null] at lives
        obtain ⟨_,_,_,e,laid'⟩ := load_out_live lives
        rw [heap] at laid'
        exact absurd laid (laid_without laid')
    · rintro ⟨_,_,_,positive⟩
      omega
  rcases kzalloc_single laid (by omega : 0 < 32 * count) (by omega) with ⟨full,refused⟩ | ⟨b,k₁,granted,took⟩
  · rw [refused]
    dsimp only
    rw [if_pos rfl]
    constructor
    · rintro ⟨d,q',k',load,alive⟩
      cases load
      exact absurd alive released_not_live
    · rintro ⟨room,_⟩
      omega
  have room := took.count
  have pointer := blockAddress_pos b
  have laid₁ := took.laid
  rw [granted]
  dsimp only
  rw [if_neg (by omega)]
  constructor
  · rintro lives
    obtain ⟨q',m,read,_⟩ := load_out_live lives
    obtain ⟨sized,cluster⟩ := read_first_only read
    exact ⟨by omega,sized,cluster,Nat.pos_of_ne_zero empty⟩
  · rintro ⟨_,sized,cluster,_⟩
    obtain ⟨q',m,read,stored⟩ := @read_first drive { p with directory_stream := stream } item streams.clusters sized cluster
      reach count (by omega) (blockAddress b) k₁.memory
    rw [read,load_out,if_neg (show ¬((0 : Int) ≠ 0) by decide)]
    refine ⟨_,q',_,rfl,block,⟨⟨b,1⟩,rfl,?_,laid₁⟩,?_,fun n => rfl,fun n inside => ?_⟩
    · dsimp only
      omega
    · dsimp only
      omega
    · dsimp only at inside ⊢
      have aligned := clusterStart_sector p (cluster_of item)
      have place : (clusterRegion p item).sector = (clusterStart p (cluster_of item)).toNat / 512 := rfl
      obtain ⟨low,high⟩ := reach
      have start : clusterStart p (cluster_of item) = (((clusterRegion p item).sector * 512 : Nat) : Int) := by
        rw [place]
        omega
      have region : (clusterRegion p item).sector * 512 + 32 * count ≤ 2147483648 := by omega
      change Stored _ _ _ _ (fun j => diskByte drive (i32 (clusterStart p (cluster_of item) + j))) at stored
      rw [start] at stored
      rw [chainItem_first sized ⟨low,high⟩ (by omega)]
      exact entry_stored stored rfl (by omega) region

/-- A load that gets its first block counts the items of the directory for it. -/
private theorem load_starts (directory : isDirectory item = true) (laid : Laid k.kernel_heap held)
    (room : 0 < freeBlocks k.kernel_heap) :
    ∃ a k₁, Block a ∧ Laid k₁.kernel_heap (page a :: held) ∧ freeBlocks k₁.kernel_heap + 1 = freeBlocks k.kernel_heap ∧
      fat16_load_fat_directory drive p item k = load_items drive item a k₁
        (fat16_get_total_items_for_directory drive p (fat16_cluster_to_sector p (cluster_of item))) := by
  have flagged : ¬ item.attributes &&& FAT_FILE_SUBDIRECTORY = 0 := by simpa [isDirectory] using directory
  obtain ⟨a,k₁,granted,pointer,block,laid₁,count⟩ := kzalloc_page laid room (by decide : 0 < 16) (by decide)
  refine ⟨a,k₁,block,laid₁,count,?_⟩
  simp only [fat16_load_fat_directory,flagged,if_false,granted,pointer]
  rfl

/-- Without a free block null comes back. -/
private theorem load_full (laid : Laid k.kernel_heap held) (full : freeBlocks k.kernel_heap = 0) :
    fat16_load_fat_directory drive p item k = .ok (none,p,k) := by
  unfold fat16_load_fat_directory
  rcases kzalloc_single laid (by decide : 0 < 16) (by decide) with ⟨_,refused⟩ | ⟨b,k₁,_,took⟩
  · rw [refused]
    dsimp only
    rw [if_pos rfl,ite_self]
  · have count := took.count
    omega

private theorem load_out_some {d : FatDirectory} {read : Option (Int × FatPrivate × Bytes)} {loaded : Option FatDirectory}
    {q : FatPrivate} {k' : Kernel} (load : load_out d read k = .ok (loaded,q,k')) : loaded ≠ none := by
  rcases read with _ | ⟨res,q',m⟩
  · cases load
  · rw [load_out] at load
    split_ifs at load <;> cases load <;> exact Option.some_ne_none _

private theorem load_items_some {a : Nat} {counted : Option (Int × FatPrivate)} {loaded : Option FatDirectory}
    {q : FatPrivate} {k' : Kernel} (load : load_items drive item a k counted = .ok (loaded,q,k')) : loaded ≠ none := by
  rcases counted with _ | ⟨total,q'⟩
  · cases load
  · rw [load_items] at load
    generalize kzalloc k (u32 (i32 (total * 32))) = granted at load
    obtain ⟨b,k₁⟩ := granted
    dsimp only at load
    by_cases null : b = 0
    · rw [if_pos null] at load
      cases load
      exact Option.some_ne_none _
    · rw [if_neg null] at load
      exact load_out_some load

/-- Loading a directory in reach: it is live exactly when there is a block for it and one for its
    items, and it can be loaded. -/
theorem load_live_iff (streams : Streams drive p) (directory : isDirectory item = true) (reach : InReach p item)
    (laid : Laid k.kernel_heap held) :
    (∃ d q k', fat16_load_fat_directory drive p item k = .ok (some d,q,k') ∧ LiveDirectory drive p item k' held d) ↔
      2 ≤ freeBlocks k.kernel_heap ∧ Loadable drive p item := by
  by_cases full : freeBlocks k.kernel_heap = 0
  · rw [load_full laid full]
    constructor
    · rintro ⟨d,q,k',load,_⟩
      cases load
    · rintro ⟨more,_⟩
      omega
  obtain ⟨a,k₁,block,laid₁,count,load⟩ := @load_starts drive p item k held directory laid (Nat.pos_of_ne_zero full)
  have aligned := clusterStart_sector p (cluster_of item)
  have sector : (clusterRegion p item).sector = (clusterStart p (cluster_of item)).toNat / 512 := rfl
  have position : i32 (fat16_cluster_to_sector p (cluster_of item) * SIMPOS_SECTOR_SIZE) =
      (((clusterRegion p item).sector * 512 : Nat) : Int) := by
    have start := starting_pos_first reach
    rw [starting_pos,Int.add_zero] at start
    rw [start,sector]
    have low := reach.1
    omega
  have onDisk : (clusterRegion p item).sector * 512 < 2147483648 := by
    have high := reach.2
    rw [sector]
    omega
  rw [load]
  rcases total_items_at streams.directories onDisk position with ⟨t,q,near,used,ends,counted,_⟩ | ⟨never,none⟩
  · obtain ⟨stream,moved,_⟩ := total_items_moved counted
    rw [counted,load_items_live streams reach block laid₁ near ⟨stream,moved⟩]
    constructor
    · rintro ⟨more,sized,cluster,some⟩
      exact ⟨by omega,sized,cluster,reach,t,near,used,ends,some⟩
    · rintro ⟨more,sized,cluster,_,t',near',used',ends',some⟩
      have first : t' = t := by
        rcases Nat.lt_trichotomy t' t with before | first | behind
        · exact absurd ends' (used t' before)
        · exact first
        · exact absurd ends (used' t behind)
      subst first
      exact ⟨by omega,sized,cluster,some⟩
  · rw [none]
    constructor
    · rintro ⟨d,q,k',load,_⟩
      cases load
    · rintro ⟨_,_,_,_,t,near,_,ends,_⟩
      exact absurd ends (never t near)

/-- The load itself goes wrong in no case exactly when it does not start or comes to a live directory. -/
theorem loads_right_iff (streams : Streams drive p) (directory : isDirectory item = true) (reach : InReach p item)
    (laid : Laid k.kernel_heap held) :
    LoadsRight drive p item k held ↔ freeBlocks k.kernel_heap = 0 ∨ 2 ≤ freeBlocks k.kernel_heap ∧ Loadable drive p item := by
  have lives := load_live_iff streams directory reach laid
  constructor
  · rintro ⟨loaded,q,k',load,live⟩
    by_cases full : freeBlocks k.kernel_heap = 0
    · exact .inl full
    · obtain ⟨a,k₁,_,_,_,start⟩ := @load_starts drive p item k held directory laid (Nat.pos_of_ne_zero full)
      cases loaded with
      | none => exact absurd rfl (load_items_some (start.symm.trans load))
      | some d => exact .inr (lives.mp ⟨d,q,k',load,live d rfl⟩)
  · rintro (full | room)
    · exact ⟨none,p,k,load_full laid full,fun d none => by cases none⟩
    · obtain ⟨d,q,k',load,live⟩ := lives.mpr room
      refine ⟨some d,q,k',load,fun other same => ?_⟩
      cases same
      exact live

end

/-! ### Items with a directory -/

section
variable {drive : Drive} {p : FatPrivate} {item : FatDirectoryItem} {k : Kernel} {held : List Extent}

private theorem kzalloc_grows (laid : Laid k.kernel_heap held) (size : Nat) :
    ∃ b n, Laid (kzalloc k size).2.kernel_heap (withGranted b n held) ∧
      ((kzalloc k size).1 = 0 ∧ n = 0 ∨ FreeAt held b ∧ (kzalloc k size).1 = blockAddress b) := by
  unfold kzalloc kmalloc
  rcases heap_malloc_kernel laid size with ⟨_,refused⟩ | ⟨b,_,free,granted,laid'⟩
  · rw [refused]
    exact ⟨0,0,laid,.inl ⟨rfl,rfl⟩⟩
  · have pointer := blockAddress_pos b
    rw [granted]
    dsimp only
    rw [if_neg (by omega)]
    exact ⟨b,requestBlocks size,laid',.inr ⟨free,rfl⟩⟩

private theorem granted_more (b : Int) (n : Nat) (held : List Extent) : ∃ grabbed, withGranted b n held = grabbed ++ held := by
  unfold withGranted
  split_ifs
  · exact ⟨[],rfl⟩
  · exact ⟨[⟨b,n⟩],rfl⟩

/-- A released directory has given back its own block, and what was taken for its items. -/
private theorem free_directory_laid {d : FatDirectory} (block : Block d.address) {b : Int} {n : Nat}
    (laid : Laid k.kernel_heap (withGranted b n (page d.address :: held)))
    (items : d.item_address = 0 ∧ n = 0 ∨ FreeAt (page d.address :: held) b ∧ d.item_address = blockAddress b) :
    Laid (fat16_free_directory (some d) k).kernel_heap held := by
  unfold fat16_free_directory
  dsimp only
  rcases items with ⟨null,none⟩ | ⟨free,address⟩
  · rw [if_neg (not_not.mpr null)]
    rw [withGranted,if_pos none] at laid
    exact (kfree_page block laid).1
  · have pointer := blockAddress_pos b
    rw [if_pos (by omega)]
    have released : Laid (kfree k d.item_address).kernel_heap (page d.address :: held) := by
      rw [address]
      exact heap_free_granted laid free
    exact (kfree_page block released).1

/-- A load takes blocks, if it takes any: a directory that it could not read has given back what it had. -/
private theorem load_grows (laid : Laid k.kernel_heap held) {loaded : Option FatDirectory} {q : FatPrivate} {k' : Kernel}
    (load : fat16_load_fat_directory drive p item k = .ok (loaded,q,k')) :
    ∃ grabbed, Laid k'.kernel_heap (grabbed ++ held) := by
  by_cases full : freeBlocks k.kernel_heap = 0
  · rw [load_full laid full] at load
    cases load
    exact ⟨[],laid⟩
  by_cases directory : isDirectory item = true
  · obtain ⟨a,k₁,block,laid₁,_,start⟩ := @load_starts drive p item k held directory laid (Nat.pos_of_ne_zero full)
    rw [start] at load
    generalize fat16_get_total_items_for_directory drive p _ = counted at load
    rcases counted with _ | ⟨total,q₁⟩
    · cases load
    rw [load_items] at load
    obtain ⟨b,n,laid₂,outcome⟩ := kzalloc_grows laid₁ (u32 (i32 (total * 32)))
    generalize kzalloc k₁ (u32 (i32 (total * 32))) = granted at load laid₂ outcome
    obtain ⟨items,k₂⟩ := granted
    dsimp only at load laid₂ outcome
    by_cases null : items = 0
    · rw [if_pos null] at load
      cases load
      exact ⟨[],free_directory_laid block laid₂ outcome⟩
    · rw [if_neg null] at load
      generalize fat16_read_internal _ _ _ _ _ _ _ = read at load
      rcases read with _ | ⟨res,q₂,m⟩
      · cases load
      rw [load_out] at load
      have laid₃ : Laid (Kernel.mk m k₂.kernel_heap).kernel_heap (withGranted b n (page a :: held)) := laid₂
      by_cases failed : res ≠ 0
      · rw [if_pos failed] at load
        cases load
        exact ⟨[],free_directory_laid block laid₃ outcome⟩
      · rw [if_neg failed] at load
        cases load
        obtain ⟨grabbed,more⟩ := granted_more b n (page a :: held)
        rw [more] at laid₃
        exact ⟨grabbed ++ [page a],by rw [List.append_assoc]; exact laid₃⟩
  · have plain : item.attributes &&& FAT_FILE_SUBDIRECTORY = 0 := by simpa [isDirectory] using directory
    rw [fat16_load_fat_directory,if_pos plain] at load
    cases load
    exact ⟨[],laid⟩

private theorem new_item_grows (laid : Laid k.kernel_heap held) {made : Option FatItem} {q : FatPrivate} {k' : Kernel}
    (new : fat16_new_fat_item_for_directory_item drive p item k = .ok (made,q,k')) :
    ∃ grabbed, Laid k'.kernel_heap (grabbed ++ held) := by
  unfold fat16_new_fat_item_for_directory_item at new
  obtain ⟨b,n,laid₁,_⟩ := kzalloc_grows laid 8
  obtain ⟨own,more⟩ := granted_more b n held
  rw [more] at laid₁
  generalize kzalloc k 8 = granted at new laid₁
  obtain ⟨f,k₁⟩ := granted
  dsimp only at new laid₁
  by_cases null : f = 0
  · rw [if_pos null] at new
    cases new
    exact ⟨own,laid₁⟩
  rw [if_neg null] at new
  by_cases directory : item.attributes &&& FAT_FILE_SUBDIRECTORY ≠ 0
  · rw [if_pos directory] at new
    cases load : fat16_load_fat_directory drive p item k₁ with
    | error stuck =>
      rw [load] at new
      cases new
    | ok outcome =>
      obtain ⟨loaded,q₁,k₂⟩ := outcome
      rw [load] at new
      cases new
      obtain ⟨grabbed,laid₂⟩ := load_grows laid₁ load
      exact ⟨grabbed ++ own,by rw [List.append_assoc]; exact laid₂⟩
  · rw [if_neg directory] at new
    obtain ⟨b',n',laid₂,_⟩ := kzalloc_grows laid₁ 32
    obtain ⟨copy,more'⟩ := granted_more b' n' (own ++ held)
    rw [more',← List.append_assoc] at laid₂
    generalize kzalloc k₁ 32 = granted at new laid₂
    obtain ⟨c,k₂⟩ := granted
    cases new
    exact ⟨copy ++ own,laid₂⟩

/-- A search takes blocks, if it takes any, for the items it makes. -/
private theorem find_item_loop_grows (directory : FatDirectory) (name : CString) (remaining : Nat) :
    ∀ {i : Nat} {before found : Option FatItem} {p q : FatPrivate} {k k' : Kernel} {held : List Extent},
      Laid k.kernel_heap held → find_item_loop drive directory name remaining i before p k = .ok (found,q,k') →
      ∃ grabbed, Laid k'.kernel_heap (grabbed ++ held) := by
  induction remaining with
  | zero =>
    intro i before found p q k k' held laid search
    cases search
    exact ⟨[],laid⟩
  | succ remaining ih =>
    intro i before found p q k k' held laid search
    rw [find_item_loop] at search
    dsimp only at search
    split_ifs at search with hit
    · cases new : fat16_new_fat_item_for_directory_item drive p (directory.item i) k with
      | error stuck =>
        rw [new] at search
        cases search
      | ok outcome =>
        obtain ⟨made,q₁,k₁⟩ := outcome
        rw [new] at search
        obtain ⟨grabbed,laid₁⟩ := new_item_grows laid new
        obtain ⟨more,laid₂⟩ := ih laid₁ search
        exact ⟨more ++ grabbed,by rw [List.append_assoc]; exact laid₂⟩
    · exact ih laid search

/-! ### Searches that meet no null pointer -/

private theorem load_not_null : fat16_load_fat_directory drive p item k ≠ .error .null := by
  intro load
  unfold fat16_load_fat_directory at load
  generalize kzalloc k 16 = granted at load
  obtain ⟨a,k₁⟩ := granted
  dsimp only at load
  split_ifs at load
  generalize fat16_get_total_items_for_directory drive p _ = counted at load
  rcases counted with _ | ⟨total,q₁⟩
  · cases load
  rw [load_items] at load
  generalize kzalloc k₁ (u32 (i32 (total * 32))) = granted at load
  obtain ⟨items,k₂⟩ := granted
  dsimp only at load
  split_ifs at load
  generalize fat16_read_internal _ _ _ _ _ _ _ = read at load
  rcases read with _ | ⟨res,q₂,m⟩
  · cases load
  rw [load_out] at load
  split_ifs at load

private theorem new_item_not_null : fat16_new_fat_item_for_directory_item drive p item k ≠ .error .null := by
  intro new
  unfold fat16_new_fat_item_for_directory_item at new
  generalize kzalloc k 8 = granted at new
  obtain ⟨f,k₁⟩ := granted
  dsimp only at new
  split_ifs at new
  cases load : fat16_load_fat_directory drive p item k₁ with
  | error stuck =>
    rw [load] at new
    cases new
    exact load_not_null load
  | ok outcome =>
    rw [load] at new
    cases new

private theorem find_item_loop_not_null (directory : FatDirectory) (name : CString) (remaining : Nat) :
    ∀ (i : Nat) (before : Option FatItem) (p : FatPrivate) (k : Kernel),
      find_item_loop drive directory name remaining i before p k ≠ .error .null := by
  induction remaining with
  | zero =>
    intro i before p k search
    cases search
  | succ remaining ih =>
    intro i before p k search
    rw [find_item_loop] at search
    dsimp only at search
    split_ifs at search with hit
    · cases new : fat16_new_fat_item_for_directory_item drive p (directory.item i) k with
      | error stuck =>
        rw [new] at search
        cases search
        exact new_item_not_null new
      | ok outcome =>
        rw [new] at search
        exact ih _ _ _ _ search
    · exact ih _ _ _ _ search

/-- Freeing the item gives back its directory with the array, and itself. -/
private theorem freed_once {f_item : FatItem} {d : FatDirectory} {e : Extent} (here : f_item.directory = some d)
    (type : f_item.type = .DIRECTORY) (own : Block f_item.address) (block : Block d.address)
    (array : d.item_address = blockAddress e.first)
    (laid : Laid k.kernel_heap (e :: page d.address :: page f_item.address :: held)) : FreedOnce f_item k held := by
  refine ⟨d,e,here,array,laid,?_⟩
  have pointer := blockAddress_pos e.first
  have items : Laid (kfree k d.item_address).kernel_heap (page d.address :: page f_item.address :: held) := by
    rw [array]
    exact heap_free_perm laid (List.Perm.refl _)
  unfold fat16_fat_item_free fat16_free_directory
  rw [type,here]
  dsimp only
  rw [if_pos (by omega)]
  exact (kfree_page own (kfree_page block items).1).1

/-- An item with a live directory is as it should be. -/
private theorem item_right {q : FatPrivate} {f_item : FatItem} {d : FatDirectory} (here : f_item.directory = some d)
    (type : f_item.type = .DIRECTORY) (own : Block f_item.address)
    (live : LiveDirectory drive p item k (page f_item.address :: held) d) : ItemRight drive p item q k held f_item := by
  obtain ⟨e,array,_,laid⟩ := live.array
  refine ⟨fun other same => ?_,fun name => ?_,freed_once here type own live.block array laid,
    fun name found q' k' search => ?_⟩
  · rw [here,Option.some.injEq] at same
    subst same
    exact live
  · rw [here]
    exact find_item_loop_not_null d name _ _ _ _ _
  · rw [here] at search
    obtain ⟨grabbed,laid'⟩ := find_item_loop_grows d name _ laid search
    have own_first := laid'.perm (List.perm_append_comm_assoc grabbed [e,page d.address,page f_item.address] held)
    exact ⟨grabbed,freed_once here type own live.block array own_first⟩

/-- Making an item for a directory in reach goes wrong in no case exactly when it does not start or the
    directory is loaded behind it. -/
private theorem item_right_iff (streams : Streams drive p) (directory : isDirectory item = true) (reach : InReach p item)
    (laid : Laid k.kernel_heap held) :
    (∃ made q k', fat16_new_fat_item_for_directory_item drive p item k = .ok (made,q,k') ∧
      ∀ f_item, made = some f_item → ItemRight drive p item q k' held f_item) ↔
    freeBlocks k.kernel_heap = 0 ∨ 3 ≤ freeBlocks k.kernel_heap ∧ Loadable drive p item := by
  have flagged : item.attributes &&& FAT_FILE_SUBDIRECTORY ≠ 0 := by simpa [isDirectory] using directory
  rcases kzalloc_single laid (by decide : 0 < 8) (by decide) with ⟨full,refused⟩ | ⟨b,k₁,granted,took⟩
  · refine ⟨fun _ => .inl full,fun _ => ⟨none,p,k,?_,fun f_item none => by cases none⟩⟩
    unfold fat16_new_fat_item_for_directory_item
    rw [refused]
    dsimp only
    rw [if_pos rfl]
  · have count := took.count
    have pointer := blockAddress_pos b
    have own : Block (blockAddress b) := ⟨b,took.free.low,rfl⟩
    have laid₁ : Laid k₁.kernel_heap (page (blockAddress b) :: held) := by
      rw [page_blockAddress took.free.low]
      exact took.laid
    have lives := load_live_iff streams directory reach laid₁
    have new : fat16_new_fat_item_for_directory_item drive p item k =
        (fat16_load_fat_directory drive p item k₁).map fun outcome =>
          let pointer := (outcome.1.map FatDirectory.address).getD 0
          (some ⟨blockAddress b, item_at outcome.2.2.memory pointer, pointer, outcome.1, .DIRECTORY⟩, outcome.2.1, outcome.2.2) := by
      unfold fat16_new_fat_item_for_directory_item
      rw [granted]
      dsimp only
      rw [if_neg (by omega),if_pos flagged]
    rw [new]
    constructor
    · rintro ⟨made,q,k',result,right⟩
      cases load : fat16_load_fat_directory drive p item k₁ with
      | error stuck =>
        rw [load] at result
        cases result
      | ok outcome =>
        obtain ⟨loaded,q₁,k₂⟩ := outcome
        rw [load] at result
        cases result
        have right := right _ rfl
        cases loaded with
        | none => exact absurd rfl (right.searched [])
        | some d =>
          obtain ⟨room,loadable⟩ := lives.mp ⟨d,q₁,k₂,load,right.directory d rfl⟩
          exact .inr ⟨by omega,loadable⟩
    · rintro (full | ⟨room,loadable⟩)
      · omega
      · obtain ⟨d,q,k',load,live⟩ := lives.mpr ⟨by omega,loadable⟩
        rw [load]
        refine ⟨_,q,k',rfl,fun f_item same => ?_⟩
        cases same
        exact item_right rfl rfl own live

private theorem directory_right_iff (streams : Streams drive p) (directory : isDirectory item = true) (reach : InReach p item)
    (laid : Laid k.kernel_heap held) :
    DirectoryRight drive p item k held ↔
      freeBlocks k.kernel_heap = 0 ∨ 3 ≤ freeBlocks k.kernel_heap ∧ Loadable drive p item := by
  rw [DirectoryRight,loads_right_iff streams directory reach laid,item_right_iff streams directory reach laid]
  constructor
  · exact fun both => both.2
  · rintro (full | ⟨room,loadable⟩)
    · exact ⟨.inl full,.inl full⟩
    · exact ⟨.inr ⟨by omega,loadable⟩,.inr ⟨room,loadable⟩⟩

/-- Without a free block nothing is made. -/
private theorem directory_right_full (laid : Laid k.kernel_heap held) (full : freeBlocks k.kernel_heap = 0) :
    DirectoryRight drive p item k held := by
  refine ⟨⟨none,p,k,load_full laid full,fun d none => by cases none⟩,none,p,k,?_,fun f_item none => by cases none⟩
  rcases kzalloc_single laid (by decide : 0 < 8) (by decide) with ⟨_,refused⟩ | ⟨b,k₁,_,took⟩
  · unfold fat16_new_fat_item_for_directory_item
    rw [refused]
    dsimp only
    rw [if_pos rfl]
  · have count := took.count
    omega

/-- A directory is null or live, and its item can be searched and freed, where no block is free or there
    are three and it can be loaded. For one whose start an int can name, only there. -/
theorem directory_right_when (streams : Streams drive p) (directory : isDirectory item = true)
    (laid : Laid k.kernel_heap held) :
    (freeBlocks k.kernel_heap = 0 ∨ 3 ≤ freeBlocks k.kernel_heap ∧ Loadable drive p item →
      DirectoryRight drive p item k held) ∧
    (InReach p item → DirectoryRight drive p item k held →
      freeBlocks k.kernel_heap = 0 ∨ 3 ≤ freeBlocks k.kernel_heap ∧ Loadable drive p item) := by
  constructor
  · rintro (full | ⟨room,loadable⟩)
    · exact directory_right_full laid full
    · exact (directory_right_iff streams directory loadable.reach laid).mpr (.inr ⟨room,loadable⟩)
  · exact fun reach => (directory_right_iff streams directory reach laid).mp

end

/-! The directory of two entries in a cluster of the volume. -/

def directoryFour : FatDirectoryItem := { file_a with attributes := 0x10, low_16_bits_first_cluster := 4 }

private theorem four_streams : Streams (twoEntries 66) volume_a := ⟨rfl,rfl⟩
private theorem four_loadable : Loadable (twoEntries 66) volume_a directoryFour := by
  refine ⟨by decide,by decide,⟨by decide,by decide⟩,2,by decide,fun i inside => ?_,by decide,by decide⟩
  obtain rfl | rfl : i = 0 ∨ i = 1 := by omega
  · decide
  · decide

theorem directory_right_four : DirectoryRight (twoEntries 66) volume_a directoryFour bootKernel [] := by
  have room : freeBlocks bootKernel.kernel_heap = 25600 := freeBlocks_empty (kernel_heap_init_laid _)
  exact (directory_right_when four_streams (by decide) (kernel_heap_init_laid _)).1 (.inr ⟨by omega,four_loadable⟩)

/-- With one block left the directory is released and returned. -/
theorem directory_dangling : Loadable (twoEntries 66) volume_a directoryFour ∧ freeBlocks (fewBlocks 1).kernel_heap = 1 ∧
    ¬DirectoryRight (twoEntries 66) volume_a directoryFour (fewBlocks 1) [⟨0,25600 - 1⟩] := by
  have left := fewBlocks_free (show 1 < 25600 by decide)
  refine ⟨four_loadable,left,fun right => ?_⟩
  rcases (directory_right_iff four_streams (by decide) four_loadable.reach (fewBlocks_laid (by decide))).mp right with
    full | ⟨room,_⟩
  · rw [left] at full
    omega
  · rw [left] at room
    omega

end SimpOS.LoadedDirectories
