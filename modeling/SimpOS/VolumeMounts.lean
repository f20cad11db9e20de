import SimpOS.DirectoryLookups
import Mathlib.Data.List.GetD

/-!
Mounting a volume: how `fat16_resolve` of `fs/fat/fat16.c` reads the header of the boot sector,
and where the clusters of a volume that it accepts lie. The byte positions of the clusters are
ints, and nothing in the mount keeps a volume below the 2^31 bytes that they can name.
-/
namespace SimpOS.VolumeMounts
open SimpOS.Machine SimpOS.Memory SimpOS.Extents SimpOS.DiskStreams SimpOS.HeapBlocks SimpOS.HeapLayout SimpOS.KernelHeap
open SimpOS.Fat16 SimpOS.FatChains SimpOS.FatDirectories SimpOS.DirectoryCounts SimpOS.FatPaths SimpOS.DirectoryLookups

abbrev SIMPOS_FAT16_SIGNATURE : UInt8 := 0x29

/-- The fields of the boot sector's header by which the driver goes, and those that say how large
    the volume is. -/
structure Header where
  primary_header : FatHeader
  root_header : PrimaryHeader
  number_of_sectors : UInt16
  sectors_big : UInt32
  signature : UInt8
deriving DecidableEq, Repr

private def half (byte : Nat → UInt8) (i : Nat) : UInt16 := UInt16.ofNat ((byte i).toNat + 256 * (byte (i+1)).toNat)

/-- The header that the first 62 bytes of the boot sector are. -/
def header_of (byte : Nat → UInt8) : Header where
  primary_header := ⟨byte 13, half byte 14⟩
  root_header := ⟨byte 16, half byte 14, half byte 17, half byte 22⟩
  number_of_sectors := half byte 19
  sectors_big := UInt32.ofNat ((byte 32).toNat + 256 * (byte 33).toNat + 65536 * (byte 34).toNat +
    16777216 * (byte 35).toNat)
  signature := byte 38

def header_at (m : Bytes) (a : Nat) : Header := header_of fun i => m (offset a i)

/-- The id that `disk_init` gives the disk, the only one that `disk_get` knows. -/
abbrev disk_id : Int := 0

/-- The pointer with the stream it points to. The position is stored without a look at the pointer. -/
def diskstreamer_new (drive : Drive) (disk_id : Int) (k : Kernel) : Except Stuck (Nat × DiskStream × Kernel) :=
  if disk_id ≠ 0 then .ok (0, ⟨0, 0⟩, k)
  else
    let (streamer, k) := kzalloc k 8
    if streamer = 0 then .error .null else .ok (streamer, ⟨0, drive.disk⟩, k)

def fat16_init_private (drive : Drive) (private_data : Nat) (k : Kernel) : Except Stuck (FatPrivate × Kernel) :=
  if private_data = 0 then .error .null
  else
    let k := { k with memory := memset k.memory private_data 0 92 }
    (diskstreamer_new drive disk_id k).bind fun (_, cluster_read_stream, k) =>
    (diskstreamer_new drive disk_id k).bind fun (stream, fat_read_stream, k) =>
    (diskstreamer_new drive disk_id k).bind fun (_, directory_stream, k) =>
      .ok (⟨⟨0, 0⟩, ⟨offset private_data 64, 0, fun i => item_at k.memory (offset 0 (32 * i)), 0, 0⟩, cluster_read_stream,
        if stream = 0 then none else some fat_read_stream, directory_stream⟩, k)

/-- The end of the mount: the stream goes, and after an error the driver's data as well. -/
def resolve_out (stream private_data : Nat) (res : Int) (fat_private : FatPrivate) (k : Kernel) :
    Int × Option FatPrivate × Kernel :=
  let k := if stream ≠ 0 then kfree k stream else k
  if res < 0 then (res, none, kfree k private_data) else (res, some fat_private, k)

/-- The rest of the mount behind the set up of the root directory, which none comes back from when its count never ends. -/
def resolve_root (stream private_data : Nat) :
    Option (Int × FatDirectory × FatPrivate × Kernel) → Except Stuck (Int × Option FatPrivate × Kernel)
  | none => .error .endless
  | some (res, root_directory, fat_private, k) =>
    let fat_private := { fat_private with root_directory := root_directory }
    if res ≠ 0 then .ok (resolve_out stream private_data (-Machine.EIO) fat_private k)
    else .ok (resolve_out stream private_data 0 fat_private k)

/-- The rest of the mount behind the read of the header. -/
def resolve_header (drive : Drive) (stream private_data : Nat) (fat_private : FatPrivate) (k : Kernel) :
    Int × DiskStream × Bytes → Except Stuck (Int × Option FatPrivate × Kernel)
  | (res, _, m) =>
    let k := { k with memory := m }
    if res ≠ 0 then .ok (resolve_out stream private_data (-Machine.EIO) fat_private k)
    else
      let header := header_at m private_data
      let fat_private := { fat_private with primary_header := header.primary_header }
      if header.signature ≠ SIMPOS_FAT16_SIGNATURE then .ok (resolve_out stream private_data (-EFSNOTUS) fat_private k)
      else resolve_root stream private_data
        (fat16_root_directory_setup drive header.root_header fat_private fat_private.root_directory k)

/-- The result, what the disk's `fs_private` points to and the kernel. -/
def fat16_resolve (drive : Drive) (k : Kernel) : Except Stuck (Int × Option FatPrivate × Kernel) :=
  let (private_data, k) := kzalloc k 92
  (fat16_init_private drive private_data k).bind fun (fat_private, k) =>
  (diskstreamer_new drive disk_id k).bind fun (address, stream, k) =>
    if address = 0 then .ok (resolve_out address private_data (-ENOMEM) fat_private k)
    else resolve_header drive address private_data fat_private k (diskstreamer_read drive stream private_data 62 k.memory)

/-! ### What is mounted -/

/-- The header of the volume on a disk. -/
def volume_header (drive : Drive) : Header := header_of drive.image

/-- The first sector behind the root directory, where the clusters start. -/
def data_sector (header : Header) : Nat :=
  root_dir_sector_pos header.root_header + (header.root_header.root_dir_entries.toNat + 15) / 16

theorem header_of_congr {f g : Nat → UInt8} (same : ∀ j < 62, f j = g j) : header_of f = header_of g := by
  unfold header_of half
  rw [same 13 (by decide),same 14 (by decide),same (14+1) (by decide),same 16 (by decide),same 17 (by decide),
    same (17+1) (by decide),same 19 (by decide),same (19+1) (by decide),same 22 (by decide),same (22+1) (by decide),
    same 32 (by decide),same 33 (by decide),same 34 (by decide),same 35 (by decide),same 38 (by decide)]

/-- What the mount has read of an accepted volume. -/
structure Mounted (drive : Drive) (p : FatPrivate) : Prop where
  signature : (volume_header drive).signature = SIMPOS_FAT16_SIGNATURE
  header : p.primary_header = (volume_header drive).primary_header
  data : p.root_directory.last_sector_pos = data_sector (volume_header drive)
  root : ∃ before directory q k k', before.directory_stream.disk = drive.disk ∧
    fat16_root_directory_setup drive (volume_header drive).root_header before directory k =
      some (0, p.root_directory, q, k')
  clusters : p.cluster_read_stream.disk = drive.disk
  table : ∃ stream, p.fat_read_stream = some stream ∧ stream.disk = drive.disk
  directories : p.directory_stream.disk = drive.disk

section
variable {drive : Drive} {k k' : Kernel} {p : FatPrivate}

private theorem diskstreamer_new_stream {streamer : Nat} {stream : DiskStream}
    (made : diskstreamer_new drive disk_id k = .ok (streamer,stream,k')) : streamer ≠ 0 ∧ stream = ⟨0,drive.disk⟩ := by
  unfold diskstreamer_new at made
  rw [if_neg (fun other => other rfl)] at made
  dsimp only at made
  split_ifs at made with null
  cases made
  exact ⟨null,rfl⟩

private theorem init_private_streams {private_data : Nat} (made : fat16_init_private drive private_data k = .ok (p,k')) :
    p.cluster_read_stream = ⟨0,drive.disk⟩ ∧ p.fat_read_stream = some ⟨0,drive.disk⟩ ∧
      p.directory_stream = ⟨0,drive.disk⟩ := by
  unfold fat16_init_private at made
  split_ifs at made with null
  dsimp only at made
  cases first : diskstreamer_new drive disk_id { k with memory := memset k.memory private_data 0 92 } with
  | error stuck =>
    rw [first] at made
    cases made
  | ok outcome =>
    obtain ⟨_,cluster_read_stream,k₁⟩ := outcome
    rw [first] at made
    cases second : diskstreamer_new drive disk_id k₁ with
    | error stuck =>
      simp only [Except.bind,second] at made
      cases made
    | ok outcome =>
      obtain ⟨streamer,fat_read_stream,k₂⟩ := outcome
      cases third : diskstreamer_new drive disk_id k₂ with
      | error stuck =>
        simp only [Except.bind,second,third] at made
        cases made
      | ok outcome =>
        obtain ⟨_,directory_stream,k₃⟩ := outcome
        simp only [Except.bind,second,third] at made
        cases made
        obtain ⟨pointer,table⟩ := diskstreamer_new_stream second
        rw [if_neg pointer]
        exact ⟨(diskstreamer_new_stream first).2,congrArg some table,(diskstreamer_new_stream third).2⟩

/-- The header in memory is that of the disk. -/
theorem header_read {stream : DiskStream} {res : Int} {moved : DiskStream} {m m' : Bytes} {out : Nat}
    (start : stream = ⟨0,drive.disk⟩) (read : diskstreamer_read drive stream out 62 m = (res,moved,m')) :
    res = 0 ∧ header_at m' out = volume_header drive := by
  subst start
  obtain ⟨made,same,stored⟩ := diskstreamer_read_aligned (show (DiskStream.mk 0 drive.disk).disk = drive.disk from rfl)
    (by dsimp only; decide) (by dsimp only; decide) (by dsimp only; decide) out 62 (by decide) m
  rw [show ((62 : Nat) : Int) = 62 from rfl,read] at same
  cases same
  refine ⟨rfl,header_of_congr fun j bound => ?_⟩
  rw [stored.byte j bound,Int.zero_add,i32_of_range (by omega) (by omega)]
  exact diskByte_image drive (by omega)

private theorem sectors_up (entries : Nat) :
    entries * 32 / SIMPOS_SECTOR_SIZE + (if entries * 32 % SIMPOS_SECTOR_SIZE ≠ 0 then 1 else 0) = (entries + 15) / 16 := by
  simp only [SIMPOS_SECTOR_SIZE]
  split_ifs <;> omega

/-- A root directory that is set up ends where the clusters start. -/
theorem root_directory_end {header : PrimaryHeader} {directory loaded : FatDirectory} {q : FatPrivate}
    (setup : fat16_root_directory_setup drive header p directory k = some (0,loaded,q,k')) :
    loaded.last_sector_pos = (root_dir_sector_pos header + (header.root_dir_entries.toNat + 15) / 16 : Nat) ∧
      (∃ stream, q = { p with directory_stream := stream } ∧ stream.disk = p.directory_stream.disk) ∧
      k'.kernel_heap = (kzalloc k (header.root_dir_entries.toNat * 32)).2.kernel_heap := by
  unfold fat16_root_directory_setup at setup
  dsimp only at setup
  rw [sectors_up] at setup
  cases count : fat16_get_total_items_for_directory drive p (root_dir_sector_pos header) with
  | none =>
    rw [count] at setup
    cases setup
  | some counted =>
    obtain ⟨total,q₁⟩ := counted
    obtain ⟨stream,rfl,disk⟩ := total_items_moved count
    rw [count,Option.map_some,Option.some.injEq] at setup
    dsimp only at setup
    generalize kzalloc k (header.root_dir_entries.toNat * 32) = granted at setup
    obtain ⟨dir,k₁⟩ := granted
    dsimp only at setup
    by_cases null : dir = 0
    · rw [if_pos null] at setup
      have failed : (-ENOMEM : Int) = 0 := congrArg Prod.fst setup
      exact absurd failed (by decide)
    rw [if_neg null,Int.natCast_mul] at setup
    dsimp only [diskstreamer_seek] at setup
    have moved := diskstreamer_read_disk drive
      ⟨fat16_sector_to_absolute (root_dir_sector_pos header),stream.disk⟩ dir
      ((header.root_dir_entries.toNat : Int) * ((32 : Nat) : Int)) k₁.memory
    rcases read : diskstreamer_read drive ⟨fat16_sector_to_absolute (root_dir_sector_pos header),stream.disk⟩ dir
      ((header.root_dir_entries.toNat : Int) * ((32 : Nat) : Int)) k₁.memory with ⟨res,after,m⟩
    simp only [read] at setup moved
    by_cases failed : res ≠ 0
    · rw [if_pos failed] at setup
      have error : (-Machine.EIO : Int) = 0 := congrArg Prod.fst setup
      exact absurd error (by decide)
    · rw [if_neg failed] at setup
      cases setup
      exact ⟨rfl,⟨after,rfl,moved.trans disk⟩,rfl⟩

/-- The end of the mount has a result of zero only where nothing went wrong. -/
private theorem resolve_out_ok {stream private_data : Nat} {res : Int} {q : FatPrivate}
    (out : resolve_out stream private_data res q k = (0,some p,k')) : res = 0 ∧ q = p := by
  unfold resolve_out at out
  dsimp only at out
  by_cases failed : res < 0
  · rw [if_pos failed] at out
    cases out
  · rw [if_neg failed] at out
    cases out
    exact ⟨rfl,rfl⟩

private theorem resolve_root_ok {stream private_data : Nat} {outcome : Option (Int × FatDirectory × FatPrivate × Kernel)}
    (done : resolve_root stream private_data outcome = .ok (0,some p,k')) :
    ∃ loaded q k, outcome = some (0,loaded,q,k) ∧ p = { q with root_directory := loaded } := by
  rcases outcome with _ | ⟨res,loaded,q,k⟩
  · cases done
  · rw [resolve_root] at done
    by_cases failed : res ≠ 0
    · rw [if_pos failed,Except.ok.injEq] at done
      exact absurd (resolve_out_ok done).1 (by decide)
    · rw [if_neg failed,Except.ok.injEq] at done
      rw [not_not] at failed
      subst failed
      exact ⟨loaded,q,k,rfl,(resolve_out_ok done).2.symm⟩

/-- What the driver goes by on a volume it has accepted is what the volume's header says. -/
theorem resolve_mounted (accepted : fat16_resolve drive k = .ok (0,some p,k')) : Mounted drive p := by
  unfold fat16_resolve at accepted
  generalize kzalloc k 92 = granted at accepted
  obtain ⟨private_data,k₁⟩ := granted
  dsimp only at accepted
  cases init : fat16_init_private drive private_data k₁ with
  | error stuck =>
    rw [init] at accepted
    cases accepted
  | ok outcome =>
    obtain ⟨p₁,k₂⟩ := outcome
    rw [init] at accepted
    cases opened : diskstreamer_new drive disk_id k₂ with
    | error stuck =>
      simp only [Except.bind,opened] at accepted
      cases accepted
    | ok outcome =>
      obtain ⟨address,stream,k₃⟩ := outcome
      obtain ⟨pointer,start⟩ := diskstreamer_new_stream opened
      obtain ⟨clusters,table,directories⟩ := init_private_streams init
      simp only [Except.bind,opened,pointer,if_false] at accepted
      rcases read : diskstreamer_read drive stream private_data 62 k₃.memory with ⟨res,moved,m⟩
      obtain ⟨rfl,header⟩ := header_read start read
      rw [read,resolve_header,header] at accepted
      dsimp only at accepted
      rw [if_neg (show ¬((0 : Int) ≠ 0) by decide)] at accepted
      by_cases signature : (volume_header drive).signature ≠ SIMPOS_FAT16_SIGNATURE
      · rw [if_pos signature,Except.ok.injEq] at accepted
        exact absurd (resolve_out_ok accepted).1 (by decide)
      · rw [if_neg signature] at accepted
        obtain ⟨loaded,q,k₄,setup,rfl⟩ := resolve_root_ok accepted
        obtain ⟨data,⟨after,rfl,disk⟩,_⟩ := root_directory_end setup
        refine ⟨not_not.mp signature,rfl,data,?_,?_,⟨_,table,rfl⟩,?_⟩
        · exact ⟨{ p₁ with primary_header := (volume_header drive).primary_header },_,_,_,_,
            congrArg DiskStream.disk directories,setup⟩
        · rw [clusters]
        · rw [disk,directories]

end

/-! ### A volume that is accepted -/

section
variable {drive : Drive} {k : Kernel} {live : List Extent}

private theorem diskstreamer_new_granted (laid : Laid k.kernel_heap live) (room : 0 < freeBlocks k.kernel_heap) :
    ∃ a k', diskstreamer_new drive disk_id k = .ok (a,⟨0,drive.disk⟩,k') ∧ Block a ∧
      Laid k'.kernel_heap (page a :: live) ∧ freeBlocks k'.kernel_heap + 1 = freeBlocks k.kernel_heap := by
  obtain ⟨a,k',granted,pointer,block,laid',count⟩ := kzalloc_page laid room (by decide : 0 < 8) (by decide)
  refine ⟨a,k',?_,block,laid',count⟩
  unfold diskstreamer_new
  rw [if_neg (show ¬disk_id ≠ 0 by decide),granted]
  dsimp only
  rw [if_neg pointer]

private theorem init_private_granted {private_data : Nat} (pointer : private_data ≠ 0) (laid : Laid k.kernel_heap live)
    (room : 3 ≤ freeBlocks k.kernel_heap) :
    ∃ p k' a b c, fat16_init_private drive private_data k = .ok (p,k') ∧
      Laid k'.kernel_heap (page a :: page b :: page c :: live) ∧
      freeBlocks k'.kernel_heap + 3 = freeBlocks k.kernel_heap := by
  obtain ⟨a,k₁,first,_,laid₁,count₁⟩ := @diskstreamer_new_granted drive
    ⟨memset k.memory private_data 0 92,k.kernel_heap⟩ _ laid (by dsimp only; omega)
  dsimp only at count₁
  obtain ⟨b,k₂,second,_,laid₂,count₂⟩ := @diskstreamer_new_granted drive k₁ _ laid₁ (by omega)
  obtain ⟨c,k₃,third,_,laid₃,count₃⟩ := @diskstreamer_new_granted drive k₂ _ laid₂ (by omega)
  unfold fat16_init_private
  rw [if_neg pointer]
  simp only [first,second,third,Except.bind]
  exact ⟨_,_,_,_,_,rfl,laid₃,by omega⟩

/-- A volume whose root directory ends is accepted where there is memory for what is kept of it. -/
theorem resolve_accepts {n : Nat} (signature : (volume_header drive).signature = SIMPOS_FAT16_SIGNATURE)
    (fits : (rootRegion (volume_header drive).root_header).sector * 512 + 4096 ≤ 2147483648)
    (small : (rootRegion (volume_header drive).root_header).entries ≤ 128) (near : n < 16)
    (inside : n < (rootRegion (volume_header drive).root_header).entries)
    (ends : (rootRegion (volume_header drive).root_header).mark drive n = 0)
    (laid : Laid k.kernel_heap live) (room : 6 ≤ freeBlocks k.kernel_heap) :
    ∃ p k' live', fat16_resolve drive k = .ok (0,some p,k') ∧ Laid k'.kernel_heap live' ∧
      (live'.map Extent.count).sum = (live.map Extent.count).sum + 5 := by
  obtain ⟨private_data,k₁,granted,pointer,_,laid₁,count₁⟩ := kzalloc_page laid (by omega) (by decide : 0 < 92) (by decide)
  obtain ⟨p,k₂,_,_,_,init,laid₂,count₂⟩ := @init_private_granted drive k₁ _ private_data pointer laid₁ (by omega)
  obtain ⟨a,k₃,opened,block,laid₃,count₃⟩ := @diskstreamer_new_granted drive k₂ _ laid₂ (by omega)
  obtain ⟨_,_,directories⟩ := init_private_streams init
  unfold fat16_resolve
  rw [granted]
  simp only [init,opened,Except.bind,block.ne_zero,if_false]
  rcases read : diskstreamer_read drive ⟨0,drive.disk⟩ private_data 62 k₃.memory with ⟨res,moved,m⟩
  obtain ⟨rfl,header⟩ := header_read rfl read
  rw [resolve_header,header]
  dsimp only
  rw [if_neg (show ¬((0 : Int) ≠ 0) by decide),if_neg (not_not.mpr signature)]
  have some_entry : 0 < (volume_header drive).root_header.root_dir_entries.toNat :=
    Nat.lt_of_le_of_lt (Nat.zero_le n) inside
  have few : (volume_header drive).root_header.root_dir_entries.toNat ≤ 128 := small
  obtain ⟨b,k₄,granted',pointer',_,laid₄,_⟩ := kzalloc_page (k := ⟨m,k₃.kernel_heap⟩) laid₃ (by dsimp only; omega)
    (by omega : 0 < (volume_header drive).root_header.root_dir_entries.toNat * 32) (by omega)
  obtain ⟨loaded,q,k₅,setup⟩ := @root_directory_setup_loads drive (volume_header drive).root_header
    { p with primary_header := (volume_header drive).primary_header } p.root_directory ⟨m,k₃.kernel_heap⟩ n
    (congrArg DiskStream.disk directories) (by omega) near inside ends (by rw [granted']; exact pointer')
  obtain ⟨_,_,heap⟩ := root_directory_end setup
  rw [granted'] at heap
  rw [← heap] at laid₄
  obtain ⟨laid₅,_⟩ := kfree_page block (laid₄.perm (List.Perm.swap ..))
  rw [setup,resolve_root,if_neg (show ¬((0 : Int) ≠ 0) by decide),resolve_out,if_pos block.ne_zero,
    if_neg (show ¬((0 : Int) < 0) by decide)]
  refine ⟨_,_,_,rfl,laid₅,?_⟩
  simp only [page,List.map_cons,List.sum_cons]
  omega

end

/-! ### Where the clusters lie -/

/-- How many sectors the volume has: the header's large field counts where the small one is zero. -/
def declared_sectors (header : Header) : Nat :=
  if header.number_of_sectors ≠ 0 then header.number_of_sectors.toNat else header.sectors_big.toNat

/-- A cluster that an entry of the table can name, and that lies in the volume to its last sector. -/
structure DataCluster (header : Header) (cluster : Nat) : Prop where
  low : 2 ≤ cluster
  high : cluster < 65536
  within : data_sector header + (cluster - 1) * header.primary_header.sectors_per_cluster.toNat ≤ declared_sectors header

/-- How many clusters the volume has that an entry can name. -/
def data_clusters (header : Header) : Nat :=
  min ((declared_sectors header - data_sector header) / header.primary_header.sectors_per_cluster.toNat) 65534

/-- The position that `fat16_read_internal_from_stream` puts its stream to. -/
def starting_pos (fat_private : FatPrivate) (cluster_to_use offset_from_cluster : Int) : Int :=
  i32 (fat16_cluster_to_sector fat_private cluster_to_use * SIMPOS_SECTOR_SIZE + offset_from_cluster)

/-- A read puts its stream there, and goes on behind a cluster with a look for the next one. -/
theorem read_internal_seeks {drive : Drive} {p q : FatPrivate} {stream : DiskStream} {cluster offset total cluster_to_use : Int}
    (found : fat16_get_cluster_for_offset drive p cluster offset = some (cluster_to_use,q)) (valid : ¬cluster_to_use < 0)
    (out : Nat) (m : Bytes) {total_to_read : Int}
    (piece : total_to_read = if total > size_of_cluster_bytes p then (size_of_cluster_bytes p : Int) else total)
    {res : Int} {moved : DiskStream} {m' : Bytes}
    (read : diskstreamer_read drive
      ⟨starting_pos q cluster_to_use (Int.tmod offset (size_of_cluster_bytes p)),stream.disk⟩ out total_to_read m = (res,moved,m')) :
    fat16_read_internal_from_stream drive p stream cluster offset total out m =
      if res ≠ 0 then some (res,q,moved,m')
      else if total - total_to_read > 0 then
        fat16_read_internal_from_stream drive q moved cluster (i32 (offset + total_to_read)) (total - total_to_read)
          (Memory.offset out total_to_read.toNat) m'
      else some (res,q,moved,m') := by
  subst piece
  rw [fat16_read_internal_from_stream,found]
  dsimp only
  rw [if_neg valid]
  unfold starting_pos at read
  unfold diskstreamer_seek
  rw [read]

/-- The position is that of the cluster's byte, and C's quotient and remainder by the size of a sector
    give a sector of the disk and a place in it. -/
structure PositionExact (p : FatPrivate) (cluster offset_from_cluster : Int) : Prop where
  position : starting_pos p cluster offset_from_cluster = clusterStart p cluster + offset_from_cluster
  sector : 0 ≤ Int.tdiv (starting_pos p cluster offset_from_cluster) SIMPOS_SECTOR_SIZE
  offset : 0 ≤ Int.tmod (starting_pos p cluster offset_from_cluster) SIMPOS_SECTOR_SIZE

section
variable {drive : Drive} {k k' : Kernel} {p : FatPrivate}

private theorem DataCluster.below {header : Header} {cluster : Nat} (data : DataCluster header cluster)
    (sized : 0 < header.primary_header.sectors_per_cluster.toNat) : cluster ≤ data_clusters header + 1 := by
  obtain ⟨low,high,within⟩ := data
  have room : cluster - 1 ≤ (declared_sectors header - data_sector header) / header.primary_header.sectors_per_cluster.toNat :=
    (Nat.le_div_iff_mul_le sized).mpr (by omega)
  unfold data_clusters
  omega

/-- The clusters are those up to the last one. -/
private theorem data_clusters_last {header : Header} (some_cluster : data_clusters header ≠ 0) :
    0 < header.primary_header.sectors_per_cluster.toNat ∧ DataCluster header (data_clusters header + 1) := by
  have counted : data_clusters header = min _ _ := rfl
  have sized : 0 < header.primary_header.sectors_per_cluster.toNat := by
    by_contra none
    rw [Nat.eq_zero_of_not_pos none,Nat.div_zero] at counted
    omega
  have taken := Nat.div_mul_le_self (declared_sectors header - data_sector header)
    header.primary_header.sectors_per_cluster.toNat
  have fewer : data_clusters header * header.primary_header.sectors_per_cluster.toNat ≤
      declared_sectors header - data_sector header :=
    (Nat.mul_le_mul_right _ (by omega)).trans taken
  have positive := Nat.mul_pos (Nat.pos_of_ne_zero some_cluster) sized
  exact ⟨sized,by omega,by omega,by rw [Nat.add_sub_cancel]; omega⟩

theorem data_sector_lt (header : Header) : data_sector header < 16781312 := by
  have copies := header.root_header.fat_copies.toNat_lt
  have size := header.root_header.sectors_per_fat.toNat_lt
  have reserved := header.root_header.reserved_sectors.toNat_lt
  have entries := header.root_header.root_dir_entries.toNat_lt
  have tables : header.root_header.fat_copies.toNat * header.root_header.sectors_per_fat.toNat ≤ 255 * 65535 :=
    Nat.mul_le_mul (by omega) (by omega)
  unfold data_sector root_dir_sector_pos
  omega

/-- A byte of a cluster behind the root directory is found exactly where an int can name its position. -/
theorem positionExact_iff (mounted : Mounted drive p) {cluster offset_from_cluster : Nat} (low : 2 ≤ cluster)
    (high : cluster < 65536) (inside : offset_from_cluster < size_of_cluster_bytes p) :
    PositionExact p cluster offset_from_cluster ↔
      (data_sector (volume_header drive) + (cluster - 2) * (volume_header drive).primary_header.sectors_per_cluster.toNat) * 512 +
        offset_from_cluster < 2147483648 := by
  have before := data_sector_lt (volume_header drive)
  have size := (volume_header drive).primary_header.sectors_per_cluster.toNat_lt
  rw [size_of_cluster_bytes,mounted.header] at inside
  have start : clusterStart p cluster = ((data_sector (volume_header drive) +
      (cluster - 2) * (volume_header drive).primary_header.sectors_per_cluster.toNat) * 512 : Nat) := by
    rw [clusterStart,mounted.header,mounted.data]
    push_cast [low]
    rfl
  have sector : fat16_cluster_to_sector p cluster = i32 ((data_sector (volume_header drive) +
      (cluster - 2) * (volume_header drive).primary_header.sectors_per_cluster.toNat : Nat) : Int) := by
    rw [fat16_cluster_to_sector,mounted.header,mounted.data]
    push_cast [low]
    rfl
  have far : (cluster - 2) * (volume_header drive).primary_header.sectors_per_cluster.toNat ≤ 65533 * 255 :=
    Nat.mul_le_mul (by omega) (by omega)
  generalize (cluster - 2) * (volume_header drive).primary_header.sectors_per_cluster.toNat = behind at start sector far ⊢
  generalize data_sector (volume_header drive) = data at before start sector ⊢
  rw [i32_of_range (by omega) (by omega)] at sector
  simp only [SIMPOS_SECTOR_SIZE] at inside
  have position : starting_pos p cluster offset_from_cluster = i32 (((data + behind) * 512 + offset_from_cluster : Nat) : Int) := by
    rw [starting_pos,sector]
    simp only [SIMPOS_SECTOR_SIZE]
    congr 1
  constructor
  · rintro ⟨exact,_,_⟩
    have below := i32_lt (((data + behind) * 512 + offset_from_cluster : Nat) : Int)
    rw [← position,exact,start] at below
    omega
  · intro range
    rw [i32_of_range (by omega) (by omega)] at position
    refine ⟨?_,?_,?_⟩
    · rw [position,start]
      omega
    · rw [position]
      exact Int.tdiv_nonneg (by omega) (by decide)
    · rw [position]
      exact Int.tmod_nonneg _ (by omega)

/-- Every byte of every cluster of an accepted volume is found exactly when it has no cluster, or its
    last one ends within 2^31 bytes. -/
theorem cluster_positions_iff (accepted : fat16_resolve drive k = .ok (0,some p,k')) :
    (∀ cluster offset_from_cluster : Nat, DataCluster (volume_header drive) cluster →
      offset_from_cluster < size_of_cluster_bytes p → PositionExact p cluster offset_from_cluster) ↔
    data_clusters (volume_header drive) = 0 ∨
      data_sector (volume_header drive) +
        data_clusters (volume_header drive) * (volume_header drive).primary_header.sectors_per_cluster.toNat ≤ 4194304 := by
  have mounted := resolve_mounted accepted
  have bytes : size_of_cluster_bytes p = (volume_header drive).primary_header.sectors_per_cluster.toNat * 512 := by
    rw [size_of_cluster_bytes,mounted.header]
  constructor
  · intro exact
    by_cases none : data_clusters (volume_header drive) = 0
    · exact .inl none
    · obtain ⟨sized,last⟩ := data_clusters_last none
      -- the last byte of the last cluster
      have found := exact _ (size_of_cluster_bytes p - 1) last (by omega)
      have range := (positionExact_iff mounted last.low last.high (by omega)).mp found
      have whole : data_clusters (volume_header drive) * (volume_header drive).primary_header.sectors_per_cluster.toNat =
          (data_clusters (volume_header drive) + 1 - 2) * (volume_header drive).primary_header.sectors_per_cluster.toNat +
            (volume_header drive).primary_header.sectors_per_cluster.toNat := by
        rw [← Nat.succ_mul]
        congr 1
        omega
      omega
  · intro ends cluster offset_from_cluster data inside
    have sized : 0 < (volume_header drive).primary_header.sectors_per_cluster.toNat := by omega
    have below := data.below sized
    have low := data.low
    refine (positionExact_iff mounted low data.high inside).mpr ?_
    have before : (cluster - 2) * (volume_header drive).primary_header.sectors_per_cluster.toNat +
        (volume_header drive).primary_header.sectors_per_cluster.toNat ≤
          data_clusters (volume_header drive) * (volume_header drive).primary_header.sectors_per_cluster.toNat := by
      rw [← Nat.succ_mul]
      exact Nat.mul_le_mul_right _ (by omega)
    omega

end

/-! Disks that have nothing but a header: that of the boot sector the kernel comes with, and one of a
small volume. -/

def headerDrive (header : List UInt8) : Drive := ⟨0, fun a => header.getD a 0, fun _ => 0⟩
def bootHeader : List UInt8 :=
  [0xEB, 0x3C, 0x90, 83, 73, 77, 80, 79, 83, 32, 32, 0x00, 0x02, 0x80, 200, 0, 0x02, 0x40, 0, 0, 0, 0xF8, 0x00, 0x01,
   0x20, 0, 0x40, 0, 0, 0, 0, 0, 0x94, 0x35, 0x77, 0x00, 0x80, 0x00, 0x29]
def smallHeader : List UInt8 :=
  [0xEB, 0x3C, 0x90, 83, 73, 77, 80, 79, 83, 32, 32, 0x00, 0x02, 0x01, 1, 0, 0x01, 0x10, 0, 64, 0, 0xF8, 0x01, 0x00,
   0x20, 0, 0x40, 0, 0, 0, 0, 0, 0x00, 0x00, 0x00, 0x00, 0x80, 0x00, 0x29]

private theorem boot_header : volume_header (headerDrive bootHeader) =
    ⟨⟨0x80,200⟩,⟨2,200,0x40,0x100⟩,0,0x773594,0x29⟩ := by decide
theorem small_header : volume_header (headerDrive smallHeader) = ⟨⟨1,1⟩,⟨1,1,16,1⟩,64,0,0x29⟩ := by decide

theorem header_accepted {header : List UInt8} {fields : Header} (same : volume_header (headerDrive header) = fields)
    (signature : fields.signature = SIMPOS_FAT16_SIGNATURE)
    (behind : header.length ≤ root_dir_sector_pos fields.root_header * 512)
    (fits : root_dir_sector_pos fields.root_header * 512 + 4096 ≤ 2147483648)
    (some_entry : 0 < fields.root_header.root_dir_entries.toNat) (small : fields.root_header.root_dir_entries.toNat ≤ 128) :
    ∃ p k', fat16_resolve (headerDrive header) bootKernel = .ok (0,some p,k') := by
  have room : 6 ≤ freeBlocks bootKernel.kernel_heap := by
    rw [bootKernel,freeBlocks_empty (kernel_heap_init_laid _)]
    decide
  subst same
  have ends : (rootRegion (volume_header (headerDrive header)).root_header).mark (headerDrive header) 0 = 0 := by
    show header.getD (root_dir_sector_pos (volume_header (headerDrive header)).root_header * 512 + 32 * 0) 0 = 0
    rw [Nat.mul_zero,Nat.add_zero]
    exact List.getD_eq_default header 0 behind
  obtain ⟨p,k',_,accepted,_⟩ := resolve_accepts signature fits small (by decide : 0 < 16) some_entry ends
    (kernel_heap_init_laid _) room
  exact ⟨p,k',accepted⟩

/-- On a small volume every byte of a cluster is found. -/
theorem cluster_positions_small : ∃ p k', fat16_resolve (headerDrive smallHeader) bootKernel = .ok (0,some p,k') ∧
    ∀ cluster offset_from_cluster : Nat, DataCluster (volume_header (headerDrive smallHeader)) cluster →
      offset_from_cluster < size_of_cluster_bytes p → PositionExact p cluster offset_from_cluster := by
  obtain ⟨p,k',accepted⟩ := header_accepted small_header rfl (by decide) (by decide) (by decide) (by decide)
  refine ⟨p,k',accepted,(cluster_positions_iff accepted).mpr (.inr ?_)⟩
  rw [small_header]
  decide

/-- Cluster 32765 of the volume that the boot sector declares starts behind the positions of an int. -/
theorem cluster_position_wraps : ∃ p k', fat16_resolve (headerDrive bootHeader) bootKernel = .ok (0,some p,k') ∧
    DataCluster (volume_header (headerDrive bootHeader)) 32765 ∧ 0 < size_of_cluster_bytes p ∧
    ¬PositionExact p (32765 : Nat) (0 : Nat) := by
  obtain ⟨p,k',accepted⟩ := header_accepted boot_header rfl (by decide) (by decide) (by decide) (by decide)
  have mounted := resolve_mounted accepted
  have positive : 0 < size_of_cluster_bytes p := by
    rw [size_of_cluster_bytes,mounted.header,boot_header]
    decide
  refine ⟨p,k',accepted,?_,positive,fun found => ?_⟩
  · rw [boot_header]
    exact ⟨by decide,by decide,by decide⟩
  · have range := (positionExact_iff mounted (by decide) (by decide) positive).mp found
    rw [boot_header] at range
    exact absurd range (by decide)

end SimpOS.VolumeMounts
