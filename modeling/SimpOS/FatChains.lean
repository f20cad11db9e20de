import SimpOS.Fat16
import Mathlib.Tactic.Ring

/-!
Where the bytes of a file lie. The clusters of a file form a chain, each the entry of the
one before in the table; a position of the file lies in the cluster that many links
down the chain. The driver's walk follows the chain (`fat16_get_cluster_loop_cases`), and a read
delivers the file's bytes as long as each of its pieces lies on the disk as it
does in the file (`Straight`).
-/
namespace SimpOS.FatChains
open SimpOS.Machine SimpOS.Memory SimpOS.DiskStreams SimpOS.Fat16

/-- What the driver's reads leave as it is: all but the positions of the streams. -/
structure SameVolume (p q : FatPrivate) : Prop where
  header : q.primary_header = p.primary_header
  root : q.root_directory = p.root_directory
  clusters : q.cluster_read_stream.disk = p.cluster_read_stream.disk
  fat : q.fat_read_stream.map DiskStream.disk = p.fat_read_stream.map DiskStream.disk
  directories : q.directory_stream.disk = p.directory_stream.disk

theorem SameVolume.refl (p : FatPrivate) : SameVolume p p := ⟨rfl,rfl,rfl,rfl,rfl⟩
theorem SameVolume.trans {p q r : FatPrivate} (first : SameVolume p q) (second : SameVolume q r) : SameVolume p r :=
  ⟨second.header.trans first.header,second.root.trans first.root,second.clusters.trans first.clusters,
    second.fat.trans first.fat,second.directories.trans first.directories⟩

/-- The entry of a cluster in the table, as the driver reads it. -/
def link (drive : Drive) (p : FatPrivate) (cluster : Int) : Int := (fat16_get_fat_entry drive p cluster).1
/-- The clusters of a file from its first one on. -/
def chain (drive : Drive) (p : FatPrivate) (cluster : Int) : Nat → Int
  | 0 => cluster
  | j + 1 => link drive p (chain drive p cluster j)

/-- The position on the disk of a cluster's entry. -/
def entryPosition (p : FatPrivate) (cluster : Int) : Int :=
  i32 ((fat16_get_first_fat_sector p * SIMPOS_SECTOR_SIZE : Nat) + cluster * SIMPOS_FAT16_FAT_ENTRY_SIZE)

private theorem fat16_get_fat_entry_some {drive : Drive} {p : FatPrivate} {stream : DiskStream}
    (here : p.fat_read_stream = some stream) (cluster : Int) :
    ∃ read, read = diskstreamer_read drive ⟨entryPosition p cluster,stream.disk⟩ 0 2 (fun _ => 0) ∧
      fat16_get_fat_entry drive p cluster = (if read.1 < 0 then read.1 else (read16 read.2.2 0 : Nat),
        { p with fat_read_stream := some read.2.1 }) := by
  refine ⟨_,rfl,?_⟩
  have position : i32 ((fat16_get_first_fat_sector p * SIMPOS_SECTOR_SIZE : Nat) +
    cluster * SIMPOS_FAT16_FAT_ENTRY_SIZE) = entryPosition p cluster := rfl
  simp only [fat16_get_fat_entry,here,diskstreamer_seek,position]
  by_cases failed : (diskstreamer_read drive ⟨entryPosition p cluster,stream.disk⟩ 0 2 (fun _ => 0)).1 < 0
  · simp only [failed,if_true]
  · simp only [failed,if_false]

theorem fat16_get_fat_entry_volume (drive : Drive) (p : FatPrivate) (cluster : Int) :
    SameVolume p (fat16_get_fat_entry drive p cluster).2 := by
  cases here : p.fat_read_stream with
  | none =>
    unfold fat16_get_fat_entry
    simp only [here]
    exact .refl p
  | some stream =>
    obtain ⟨read,made,entry⟩ := fat16_get_fat_entry_some here cluster
    rw [entry]
    refine ⟨rfl,rfl,rfl,?_,rfl⟩
    have disk := diskstreamer_read_disk drive ⟨entryPosition p cluster,stream.disk⟩ 0 2 (fun _ => 0)
    rw [← made] at disk
    simp only [here,Option.map_some,disk]

theorem link_congr {drive : Drive} {p q : FatPrivate} (same : SameVolume p q) (cluster : Int) :
    link drive q cluster = link drive p cluster := by
  have fat := same.fat
  cases here : p.fat_read_stream with
  | none =>
    rw [here,Option.map_none,Option.map_eq_none_iff] at fat
    simp only [link,fat16_get_fat_entry,here,fat]
  | some stream =>
    rw [here,Option.map_some,Option.map_eq_some_iff] at fat
    obtain ⟨other,there,disk⟩ := fat
    obtain ⟨read,made,entry⟩ := fat16_get_fat_entry_some here cluster
    obtain ⟨read',made',entry'⟩ := fat16_get_fat_entry_some there cluster
    have position : entryPosition q cluster = entryPosition p cluster := by
      rw [entryPosition,entryPosition,fat16_get_first_fat_sector,fat16_get_first_fat_sector,same.header]
    rw [position,disk,← made] at made'
    rw [link,link,entry,entry',made']
/-- The little-endian entry of a cluster in the table on the disk. -/
def fatEntry (drive : Drive) (p : FatPrivate) (cluster : Nat) : Nat :=
  let position := p.primary_header.reserved_sectors.toNat * 512 + 2 * cluster
  (drive.image position).toNat + 256 * (drive.image (position + 1)).toNat

private theorem entryPosition_eq {p : FatPrivate} {cluster : Nat}
    (range : p.primary_header.reserved_sectors.toNat * 512 + 2 * cluster + 1 < 2147483648) :
    entryPosition p cluster = (p.primary_header.reserved_sectors.toNat * 512 + 2 * cluster : Nat) := by
  have size : SIMPOS_SECTOR_SIZE = 512 := rfl
  have width : SIMPOS_FAT16_FAT_ENTRY_SIZE = 2 := rfl
  rw [entryPosition,fat16_get_first_fat_sector,size,width,i32_of_range]
  · omega
  · omega
  · omega
private theorem entry_bytes {drive : Drive} {m : Bytes} {pos : Nat} (range : pos + 1 < 2147483648)
    (stored : Stored (fun _ => 0) m 0 2 (fun k => diskByte drive (i32 ((pos : Int) + k)))) :
    read16 m 0 = (drive.image pos).toNat + 256 * (drive.image (pos + 1)).toNat := by
  have position : ∀ k : Nat, k < 2 → i32 ((pos : Int) + k) = (pos + k : Nat) := by
    intro k bound
    rw [i32_of_range (by omega) (by omega)]
    rfl
  have first := stored.byte 0 (by decide)
  have second := stored.byte 1 (by decide)
  rw [position 0 (by decide)] at first
  rw [position 1 (by decide)] at second
  rw [diskByte_image drive (by omega)] at first second
  have zero : offset 0 0 = 0 := by decide
  rw [zero] at first
  rw [read16,first,second,Nat.add_zero]

/-- An entry the driver reads is the one on the disk. -/
theorem link_primary {drive : Drive} {p : FatPrivate} {stream : DiskStream} (here : p.fat_read_stream = some stream)
    (primary : stream.disk = drive.disk) {cluster : Nat}
    (range : p.primary_header.reserved_sectors.toNat * 512 + 2 * cluster + 1 < 2147483648) :
    link drive p cluster = fatEntry drive p cluster := by
  obtain ⟨read,made,entry⟩ := fat16_get_fat_entry_some here cluster
  rw [entryPosition_eq range] at made
  have own : (DiskStream.mk ((p.primary_header.reserved_sectors.toNat * 512 + 2 * cluster : Nat) : Int)
      stream.disk).disk = drive.disk := primary
  obtain ⟨pos,m,result,stored⟩ := diskstreamer_read_correct own (by unfold Placed; dsimp only; omega) 0 2 (by decide)
    (fun _ => 0)
  rw [deliveredCount_eq (.inr (by dsimp only; omega))] at stored
  have whole : read = (0,⟨pos,stream.disk⟩,m) := made.trans result
  rw [link,entry]
  simp only [whole,Int.lt_irrefl,if_false]
  rw [entry_bytes range stored]
  rfl
/-- Without a stream of the primary disk no entry is read. -/
theorem link_refused {drive : Drive} {p : FatPrivate} (other : ∀ stream, p.fat_read_stream = some stream → stream.disk ≠ drive.disk)
    (cluster : Int) : link drive p cluster = -1 := by
  cases here : p.fat_read_stream with
  | none => simp only [link,fat16_get_fat_entry,here]
  | some stream =>
    obtain ⟨read,made,entry⟩ := fat16_get_fat_entry_some here cluster
    have away : (DiskStream.mk (entryPosition p cluster) stream.disk).disk ≠ drive.disk := other stream here
    have failed : read.1 = -Machine.EIO := by rw [made,diskstreamer_read_other away]
    rw [link,entry]
    simp only [failed]
    rfl
theorem link_entry {drive : Drive} {p : FatPrivate} {cluster : Nat} (found : 0 ≤ link drive p cluster)
    (range : p.primary_header.reserved_sectors.toNat * 512 + 2 * cluster + 1 < 2147483648) :
    link drive p cluster = fatEntry drive p cluster := by
  by_cases primary : ∃ stream, p.fat_read_stream = some stream ∧ stream.disk = drive.disk
  · obtain ⟨stream,here,same⟩ := primary
    exact link_primary here same range
  · rw [link_refused fun stream here same => primary ⟨stream,here,same⟩] at found
    exact absurd found (by decide)

theorem chain_congr {drive : Drive} {p q : FatPrivate} (same : SameVolume p q) (cluster : Int) (j : Nat) :
    chain drive q cluster j = chain drive p cluster j := by
  induction j with
  | zero => rfl
  | succ j ih => rw [chain,chain,ih,link_congr same]
theorem chain_link (drive : Drive) (p : FatPrivate) (cluster : Int) (j : Nat) :
    chain drive p (link drive p cluster) j = chain drive p cluster (j + 1) := by
  induction j with
  | zero => rfl
  | succ j ih => rw [chain,ih,← chain]

/-- The walk down the chain gets to the cluster it is to find, or stops at the first refused entry. -/
theorem fat16_get_cluster_loop_cases (drive : Drive) (p : FatPrivate) (cluster : Int) (remaining : Nat) :
    SameVolume p (fat16_get_cluster_loop drive remaining cluster p).2 ∧
    ((∀ j < remaining, fat16_entry_refused (chain drive p cluster (j + 1)) = false) ∧
      (fat16_get_cluster_loop drive remaining cluster p).1 = chain drive p cluster remaining ∨
    (∃ j < remaining, fat16_entry_refused (chain drive p cluster (j + 1)) = true) ∧
      (fat16_get_cluster_loop drive remaining cluster p).1 = -Machine.EIO) := by
  induction remaining generalizing cluster p with
  | zero => exact ⟨.refl p,.inl ⟨fun j bound => absurd bound (Nat.not_lt_zero j),rfl⟩⟩
  | succ remaining ih =>
    have volume := fat16_get_fat_entry_volume drive p cluster
    have value : (fat16_get_fat_entry drive p cluster).1 = link drive p cluster := rfl
    simp only [fat16_get_cluster_loop]
    by_cases refused : fat16_entry_refused (link drive p cluster) = true
    · rw [value,if_pos refused]
      exact ⟨volume,.inr ⟨⟨0,by omega,refused⟩,rfl⟩⟩
    · rw [value,if_neg refused]
      obtain ⟨rest,outcome⟩ := ih (fat16_get_fat_entry drive p cluster).2 (link drive p cluster)
      refine ⟨volume.trans rest,?_⟩
      simp only [chain_congr volume,chain_link] at outcome
      rcases outcome with ⟨follows,found⟩ | ⟨⟨j,bound,stops⟩,failed⟩
      · refine .inl ⟨fun j bound => ?_,found⟩
        cases j with
        | zero => exact Bool.not_eq_true _ ▸ refused
        | succ j => exact follows j (by omega)
      · exact .inr ⟨⟨j + 1,by omega,stops⟩,failed⟩

/-- Where a cluster starts on the disk. -/
def clusterStart (p : FatPrivate) (cluster : Int) : Int :=
  (p.root_directory.last_sector_pos + (cluster - 2) * p.primary_header.sectors_per_cluster.toNat) * 512
/-- Where the byte at a position of the file lies on the disk. -/
def filePosition (drive : Drive) (p : FatPrivate) (cluster : Int) (k : Nat) : Int :=
  clusterStart p (chain drive p cluster (k / size_of_cluster_bytes p)) + (k % size_of_cluster_bytes p : Nat)
/-- The byte of the file at a position. -/
def fileByte (drive : Drive) (p : FatPrivate) (cluster : Int) (k : Nat) : UInt8 :=
  diskByte drive (i32 (filePosition drive p cluster k))

theorem size_congr {p q : FatPrivate} (same : SameVolume p q) : size_of_cluster_bytes q = size_of_cluster_bytes p := by
  rw [size_of_cluster_bytes,size_of_cluster_bytes,same.header]
theorem clusterStart_congr {p q : FatPrivate} (same : SameVolume p q) (cluster : Int) :
    clusterStart q cluster = clusterStart p cluster := by
  rw [clusterStart,clusterStart,same.header,same.root]
theorem filePosition_congr {drive : Drive} {p q : FatPrivate} (same : SameVolume p q) (cluster : Int) (k : Nat) :
    filePosition drive q cluster k = filePosition drive p cluster k := by
  rw [filePosition,filePosition,size_congr same,clusterStart_congr same,chain_congr same]
theorem fileByte_congr {drive : Drive} {p q : FatPrivate} (same : SameVolume p q) (cluster : Int) (k : Nat) :
    fileByte drive q cluster k = fileByte drive p cluster k := by
  rw [fileByte,fileByte,filePosition_congr same]

/-- A read starts where a cluster does, or every cluster it goes on into lies right behind the one before. -/
def Straight (drive : Drive) (p : FatPrivate) (cluster : Int) (start total : Nat) : Prop :=
  start % size_of_cluster_bytes p = 0 ∨
  ∀ j, start / size_of_cluster_bytes p ≤ j → (j + 1) * size_of_cluster_bytes p < start + total →
    chain drive p cluster (j + 1) = chain drive p cluster j + 1
/-- A read starts where a sector does, or stays in one sector. -/
def Whole (start total : Nat) : Prop := start % 512 = 0 ∨ start % 512 + total ≤ 512
/-- The reads whose pieces lie on the disk as they do in the file: their positions are those of
    an int, and a read that starts within a sector finds no negative position on the disk. -/
structure Plain (drive : Drive) (p : FatPrivate) (cluster : Int) (start total : Nat) : Prop where
  small : start + total < 2147483648
  straight : Straight drive p cluster start total
  placed : start % 512 = 0 ∨ ∀ k < total, 0 ≤ i32 (filePosition drive p cluster (start + k))

private theorem clusterStart_next (p : FatPrivate) (cluster : Int) :
    clusterStart p (cluster + 1) = clusterStart p cluster + size_of_cluster_bytes p := by
  have size : ((SIMPOS_SECTOR_SIZE : Nat) : Int) = 512 := rfl
  simp only [clusterStart,size_of_cluster_bytes,Int.natCast_mul,size]
  ring

/-- The bytes of one piece follow each other on the disk. -/
private theorem filePosition_piece {drive : Drive} {p : FatPrivate} {cluster : Int} {start total k : Nat}
    (positive : 0 < size_of_cluster_bytes p) (straight : Straight drive p cluster start total) (bound : k < total)
    (piece : k < size_of_cluster_bytes p) :
    filePosition drive p cluster (start + k) = filePosition drive p cluster start + k := by
  have parts := Nat.div_add_mod start (size_of_cluster_bytes p)
  have within := Nat.mod_lt start positive
  by_cases inside : start % size_of_cluster_bytes p + k < size_of_cluster_bytes p
  · obtain ⟨quotient,remainder⟩ := (Nat.div_mod_unique positive).mpr
      ⟨show start % size_of_cluster_bytes p + k + size_of_cluster_bytes p * (start / size_of_cluster_bytes p) =
        start + k by omega,inside⟩
    rw [filePosition,filePosition,quotient,remainder]
    omega
  · obtain ⟨quotient,remainder⟩ := (Nat.div_mod_unique positive).mpr
      ⟨show start % size_of_cluster_bytes p + k - size_of_cluster_bytes p +
        size_of_cluster_bytes p * (start / size_of_cluster_bytes p + 1) = start + k by rw [Nat.mul_add_one]; omega,
        show start % size_of_cluster_bytes p + k - size_of_cluster_bytes p < size_of_cluster_bytes p by omega⟩
    have next : chain drive p cluster (start / size_of_cluster_bytes p + 1) =
        chain drive p cluster (start / size_of_cluster_bytes p) + 1 := by
      rcases straight with aligned | consecutive
      · omega
      · apply consecutive _ (Nat.le_refl _)
        rw [Nat.add_one_mul,Nat.mul_comm]
        omega
    rw [filePosition,filePosition,quotient,remainder,next,clusterStart_next]
    omega

/-- The rest of a read after its first piece. -/
private theorem Plain.rest {drive : Drive} {p : FatPrivate} {cluster : Int} {start total : Nat}
    (plain : Plain drive p cluster start total) (more : size_of_cluster_bytes p < total) :
    Plain drive p cluster (start + size_of_cluster_bytes p) (total - size_of_cluster_bytes p) := by
  refine ⟨by have := plain.small; omega,?_,?_⟩
  · rcases plain.straight with aligned | consecutive
    · exact .inl (by rw [Nat.add_mod_right,aligned])
    · refine .inr fun j behind inside => consecutive j ?_ (by omega)
      exact Nat.le_trans (Nat.div_le_div_right (Nat.le_add_right _ _)) behind
  · rcases plain.placed with aligned | nonneg
    · refine .inl ?_
      simp only [size_of_cluster_bytes,SIMPOS_SECTOR_SIZE]
      omega
    · refine .inr fun k bound => ?_
      rw [Nat.add_assoc]
      exact nonneg _ (by omega)
private theorem Whole.rest {p : FatPrivate} {start total : Nat} (whole : Whole start total)
    (more : size_of_cluster_bytes p < total) (positive : 0 < size_of_cluster_bytes p) :
    Whole (start + size_of_cluster_bytes p) (total - size_of_cluster_bytes p) := by
  simp only [Whole,size_of_cluster_bytes,SIMPOS_SECTOR_SIZE] at *
  omega

/-- One piece of a read: the cluster is looked up, and at most its size is read from there. -/
private theorem read_step {drive : Drive} {p : FatPrivate} (positive : 0 < size_of_cluster_bytes p)
    (stream : DiskStream) (cluster : Int) (start : Nat) (total : Int) (out : Nat) (m : Bytes) :
    ∃ found piece read, found = fat16_get_cluster_loop drive (start / size_of_cluster_bytes p) cluster p ∧
      piece = (if total > size_of_cluster_bytes p then (size_of_cluster_bytes p : Int) else total) ∧
      read = diskstreamer_read drive ⟨i32 (clusterStart p found.1 + (start % size_of_cluster_bytes p : Nat)),stream.disk⟩
        out piece m ∧
      fat16_read_internal_from_stream drive p stream cluster start total out m =
        if found.1 < 0 then some (found.1,found.2,stream,m)
        else if read.1 ≠ 0 then some (read.1,found.2,read.2.1,read.2.2)
        else if total - piece > 0 then
          fat16_read_internal_from_stream drive found.2 read.2.1 cluster (i32 (start + piece)) (total - piece)
            (offset out piece.toNat) read.2.2
        else some (read.1,found.2,read.2.1,read.2.2) := by
  obtain ⟨volume,_⟩ := fat16_get_cluster_loop_cases drive p cluster (start / size_of_cluster_bytes p)
  have lookup : fat16_get_cluster_for_offset drive p cluster start =
      some (fat16_get_cluster_loop drive (start / size_of_cluster_bytes p) cluster p) := by
    simp only [fat16_get_cluster_for_offset,show size_of_cluster_bytes p ≠ 0 by omega,if_false,← Int.ofNat_tdiv,
      Int.toNat_natCast]
  refine ⟨_,_,_,rfl,rfl,rfl,?_⟩
  generalize fat16_get_cluster_loop drive (start / size_of_cluster_bytes p) cluster p = found at *
  have position : i32 (fat16_cluster_to_sector found.2 found.1 * SIMPOS_SECTOR_SIZE +
      Int.tmod start (size_of_cluster_bytes p)) =
      i32 (clusterStart p found.1 + (start % size_of_cluster_bytes p : Nat)) := by
    rw [← Int.ofNat_tmod,fat16_cluster_to_sector,volume.header,volume.root,clusterStart]
    unfold i32
    simp only [SIMPOS_SECTOR_SIZE]
    omega
  rw [fat16_read_internal_from_stream]
  split
  case h_1 none =>
    rw [lookup] at none
    cases none
  case h_2 cluster_to_use after same =>
    rw [lookup] at same
    cases same
    simp only [diskstreamer_seek,position]

theorem Plain.congr {drive : Drive} {p q : FatPrivate} {cluster : Int} {start total : Nat} (same : SameVolume p q)
    (plain : Plain drive p cluster start total) : Plain drive q cluster start total := by
  refine ⟨plain.small,?_,?_⟩
  · simpa only [Straight,size_congr same,chain_congr same] using plain.straight
  · simpa only [filePosition_congr same] using plain.placed

theorem size_positive {drive : Drive} {p : FatPrivate} {stream : DiskStream} {cluster offset total : Int} {out : Nat}
    {m : Bytes} {outcome : Int × FatPrivate × DiskStream × Bytes}
    (read : fat16_read_internal_from_stream drive p stream cluster offset total out m = some outcome) :
    0 < size_of_cluster_bytes p := by
  by_contra zero
  have none : fat16_get_cluster_for_offset drive p cluster offset = none := by
    rw [fat16_get_cluster_for_offset,if_pos (by omega)]
  rw [fat16_read_internal_from_stream] at read
  split at read
  case h_1 => cases read
  case h_2 found =>
    rw [none] at found
    cases found

private theorem filePosition_mod (drive : Drive) (p : FatPrivate) (cluster : Int) (start : Nat) :
    i32 (filePosition drive p cluster start) % 512 = (start % 512 : Nat) := by
  have inner : start % size_of_cluster_bytes p % 512 = start % 512 :=
    Nat.mod_mod_of_dvd start (Dvd.intro_left _ rfl)
  unfold filePosition clusterStart i32
  omega

/-- A piece of a read, which is at most a cluster's size. -/
private theorem piece_delivered {drive : Drive} {p : FatPrivate} {cluster : Int} {start total r disk : Nat}
    (primary : disk = drive.disk) (plain : Plain drive p cluster start total) (nonempty : 0 < total)
    (within : r ≤ total) (piece : r ≤ size_of_cluster_bytes p) (size : 0 < size_of_cluster_bytes p) (out : Nat)
    (m : Bytes) :
    ∃ pos m', diskstreamer_read drive ⟨i32 (filePosition drive p cluster start),disk⟩ out r m = (0,⟨pos,disk⟩,m') ∧
      Delivered m m' out r (fun k => fileByte drive p cluster (start + k)) ∧
      (Whole start total → Stored m m' out r (fun k => fileByte drive p cluster (start + k))) := by
  have sector := filePosition_mod drive p cluster start
  have small := plain.small
  have own : (DiskStream.mk (i32 (filePosition drive p cluster start)) disk).disk = drive.disk := primary
  have placed : Placed (i32 (filePosition drive p cluster start)) := by
    refine ⟨i32_ge _,i32_lt _,?_⟩
    rcases plain.placed with aligned | nonneg
    · exact .inl (by omega)
    · exact .inr (nonneg 0 nonempty)
  obtain ⟨pos,m',read,stored⟩ := diskstreamer_read_correct own placed out r (by omega) m
  have bytes : ∀ k < r, diskByte drive (i32 (i32 (filePosition drive p cluster start) + k)) =
      fileByte drive p cluster (start + k) := by
    intro k bound
    rw [i32_add,fileByte,filePosition_piece size plain.straight (by omega) (by omega)]
  refine ⟨pos,m',read,(stored.delivered (deliveredCount_le _ _)).congr bytes,fun whole => ?_⟩
  dsimp only at stored
  rw [deliveredCount_eq (by unfold Whole at whole; omega)] at stored
  exact stored.congr bytes

private theorem rest_arithmetic {start total r : Nat} (smaller : r < total) (small : start + total < 2147483648) :
    (total : Int) - r > 0 ∧ i32 ((start : Int) + r) = ((start + r : Nat) : Int) ∧
      ((total - r : Nat) : Int) = (total : Int) - r := by
  refine ⟨by omega,?_,by omega⟩
  rw [i32_of_range (by omega) (by omega)]
  rfl

/-- What a read that succeeds has done: it changed no more than the positions of the streams, found a
    cluster for each of its pieces, delivered nothing but the bytes of the file from its position on,
    and all of those it was asked for when it starts a sector or stays in one. -/
structure Done (drive : Drive) (p q : FatPrivate) (cluster : Int) (start total out : Nat) (m m' : Bytes) : Prop where
  volume : SameVolume p q
  clusters : ∀ i, i * size_of_cluster_bytes p < total →
    0 ≤ chain drive p cluster (start / size_of_cluster_bytes p + i)
  delivered : Delivered m m' out total (fun k => fileByte drive p cluster (start + k))
  stored : Whole start total → Stored m m' out total (fun k => fileByte drive p cluster (start + k))

theorem fat16_read_internal_from_stream_correct {drive : Drive} {cluster : Int} (total : Nat) :
    ∀ {p q : FatPrivate} {stream after : DiskStream} {start out : Nat} {m m' : Bytes} {res : Int},
      0 < total → Plain drive p cluster start total →
      fat16_read_internal_from_stream drive p stream cluster start total out m = some (res,q,after,m') → 0 ≤ res →
      res = 0 ∧ after.disk = stream.disk ∧ Done drive p q cluster start total out m m' := by
  induction total using Nat.strongRecOn with
  | ind total ih =>
    intro p q stream after start out m m' res nonempty plain read success
    have size := size_positive read
    obtain ⟨volume,outcome⟩ := fat16_get_cluster_loop_cases drive p cluster (start / size_of_cluster_bytes p)
    obtain ⟨found,piece,sector,foundDef,pieceDef,sectorDef,step⟩ := read_step size stream cluster start total out m
    rw [← foundDef] at volume outcome
    rw [step] at read
    by_cases negative : found.1 < 0
    · rw [if_pos negative] at read
      cases read
      omega
    rw [if_neg negative] at read
    have there : found.1 = chain drive p cluster (start / size_of_cluster_bytes p) := by
      rcases outcome with ⟨_,here⟩ | ⟨_,failed⟩
      · exact here
      · rw [failed] at negative
        exact absurd (by decide) negative
    rw [there] at sectorDef
    change sector = diskstreamer_read drive ⟨i32 (filePosition drive p cluster start),stream.disk⟩ out piece m at sectorDef
    by_cases primary : stream.disk = drive.disk
    case neg =>
      have other : (DiskStream.mk (i32 (filePosition drive p cluster start)) stream.disk).disk ≠ drive.disk := primary
      have failed : sector.1 = -Machine.EIO := by rw [sectorDef,diskstreamer_read_other other]
      rw [if_pos (by rw [failed]; decide)] at read
      cases read
      rw [failed] at success
      exact absurd success (by decide)
    obtain ⟨r,count,pieceCount⟩ : ∃ r : Nat, r = min total (size_of_cluster_bytes p) ∧ piece = r := by
      refine ⟨_,rfl,?_⟩
      rw [pieceDef]
      split_ifs <;> omega
    obtain ⟨pos,m₁,sectorRead,first,whole⟩ :=
      piece_delivered primary plain nonempty (by omega : r ≤ total) (by omega) size out m
    rw [pieceCount] at sectorDef read
    have made : sector = (0,⟨pos,stream.disk⟩,m₁) := sectorDef.trans sectorRead
    simp only [made,ne_eq,not_true_eq_false,if_false,Int.toNat_natCast] at read
    by_cases more : size_of_cluster_bytes p < total
    · have piece_size : r = size_of_cluster_bytes p := count.trans (Nat.min_eq_right (Nat.le_of_lt more))
      have plainRest : Plain drive found.2 cluster (start + r) (total - r) :=
        piece_size ▸ (plain.rest more).congr volume
      have wholeRest : Whole start total → Whole (start + r) (total - r) :=
        fun both => piece_size ▸ both.rest more size
      have smaller : r < total := piece_size ▸ more
      have fewer : total - r < total := Nat.sub_lt nonempty (piece_size ▸ size)
      have parts : r + (total - r) = total := Nat.add_sub_cancel' (Nat.le_of_lt smaller)
      obtain ⟨some,next,rest⟩ := rest_arithmetic smaller plain.small
      rw [if_pos some,next,← rest] at read
      obtain ⟨done,disk,last,clusters,delivered,stored⟩ :=
        ih (total - r) fewer (Nat.sub_pos_of_lt smaller) plainRest read success
      simp only [fileByte_congr volume,Nat.add_assoc] at delivered stored
      simp only [chain_congr volume,size_congr volume,piece_size,Nat.add_div_right _ size] at clusters
      have whole_fits : r + (total - r) ≤ 4294967296 := by
        rw [parts]
        exact Nat.le_trans (Nat.le_add_left total start) (Nat.le_of_lt (Nat.lt_trans plain.small (by decide)))
      refine ⟨done,disk,volume.trans last,fun i inside => ?_,?_,fun both => ?_⟩
      · cases i with
        | zero => exact there ▸ Int.not_lt.mp negative
        | succ i =>
          rw [Nat.add_comm i 1,← Nat.add_assoc]
          rw [Nat.add_one_mul] at inside
          exact clusters i (Nat.lt_sub_of_add_lt inside)
      · exact parts ▸ first.append delivered
      · exact parts ▸ (whole both).append (stored (wholeRest both)) whole_fits
    · obtain rfl : r = total := count.trans (Nat.min_eq_left (Nat.le_of_not_lt more))
      rw [Int.sub_self,if_neg (by decide)] at read
      cases read
      refine ⟨rfl,rfl,volume,fun i inside => ?_,first,whole⟩
      cases i with
      | zero => exact there ▸ Int.not_lt.mp negative
      | succ i =>
        rw [Nat.add_one_mul] at inside
        exact absurd (Nat.lt_of_le_of_lt (Nat.le_add_left _ _) inside) more

/-- The table leads to a cluster for every position before the given one. -/
def Linked (drive : Drive) (p : FatPrivate) (cluster : Int) (stop : Nat) : Prop :=
  0 ≤ cluster ∧ ∀ j, (j + 1) * size_of_cluster_bytes p < stop →
    fat16_entry_refused (chain drive p cluster (j + 1)) = false ∧ 0 ≤ chain drive p cluster (j + 1)

theorem Linked.congr {drive : Drive} {p q : FatPrivate} {cluster : Int} {stop : Nat} (same : SameVolume p q)
    (linked : Linked drive p cluster stop) : Linked drive q cluster stop := by
  simpa only [Linked,size_congr same,chain_congr same] using linked

theorem Linked.mono {drive : Drive} {p : FatPrivate} {cluster : Int} {stop before : Nat} (sooner : before ≤ stop)
    (linked : Linked drive p cluster stop) : Linked drive p cluster before :=
  ⟨linked.1,fun j inside => linked.2 j (Nat.lt_of_lt_of_le inside sooner)⟩

private theorem Linked.found {drive : Drive} {p : FatPrivate} {cluster : Int} {start total : Nat}
    (linked : Linked drive p cluster (start + total)) (nonempty : 0 < total) :
    (fat16_get_cluster_loop drive (start / size_of_cluster_bytes p) cluster p).1 =
      chain drive p cluster (start / size_of_cluster_bytes p) ∧
    0 ≤ chain drive p cluster (start / size_of_cluster_bytes p) := by
  have before : ∀ j < start / size_of_cluster_bytes p, (j + 1) * size_of_cluster_bytes p < start + total :=
    fun j bound => Nat.lt_of_le_of_lt (Nat.le_trans (Nat.mul_le_mul_right _ bound) (Nat.div_mul_le_self _ _))
      (Nat.lt_add_of_pos_right nonempty)
  constructor
  · obtain ⟨_,⟨_,found⟩ | ⟨⟨j,bound,refused⟩,_⟩⟩ :=
      fat16_get_cluster_loop_cases drive p cluster (start / size_of_cluster_bytes p)
    · exact found
    · rw [(linked.2 j (before j bound)).1] at refused
      exact absurd refused (by decide)
  · cases count : start / size_of_cluster_bytes p with
    | zero => exact linked.1
    | succ j => exact (linked.2 j (before j (count ▸ Nat.lt_succ_self j))).2

/-- A read whose clusters the table leads to succeeds. -/
theorem fat16_read_internal_from_stream_succeeds {drive : Drive} {cluster : Int} (total : Nat) :
    ∀ {p : FatPrivate} {stream : DiskStream} {start : Nat}, 0 < size_of_cluster_bytes p →
      stream.disk = drive.disk → 0 < total → Plain drive p cluster start total →
      Linked drive p cluster (start + total) → ∀ (out : Nat) (m : Bytes),
      ∃ q after m', fat16_read_internal_from_stream drive p stream cluster start total out m = some (0,q,after,m') := by
  induction total using Nat.strongRecOn with
  | ind total ih =>
    intro p stream start size primary nonempty plain linked out m
    obtain ⟨volume,_⟩ := fat16_get_cluster_loop_cases drive p cluster (start / size_of_cluster_bytes p)
    obtain ⟨there,nonneg⟩ := linked.found nonempty
    obtain ⟨found,piece,sector,foundDef,pieceDef,sectorDef,step⟩ := read_step size stream cluster start total out m
    rw [← foundDef] at volume there
    rw [step,if_neg (Int.not_lt.mpr (there ▸ nonneg))]
    rw [there] at sectorDef
    obtain ⟨r,count,pieceCount⟩ : ∃ r : Nat, r = min total (size_of_cluster_bytes p) ∧ piece = r := by
      refine ⟨_,rfl,?_⟩
      rw [pieceDef]
      split_ifs <;> omega
    obtain ⟨pos,m₁,sectorRead,_⟩ :=
      piece_delivered primary plain nonempty (count ▸ Nat.min_le_left _ _) (count ▸ Nat.min_le_right _ _) size out m
    rw [pieceCount] at sectorDef
    have made : sector = (0,⟨pos,stream.disk⟩,m₁) := sectorDef.trans sectorRead
    simp only [made,pieceCount,ne_eq,not_true_eq_false,if_false,Int.toNat_natCast]
    by_cases more : size_of_cluster_bytes p < total
    · have piece_size : r = size_of_cluster_bytes p := count.trans (Nat.min_eq_right (Nat.le_of_lt more))
      have smaller : r < total := piece_size ▸ more
      have fewer : total - r < total := Nat.sub_lt nonempty (piece_size ▸ size)
      have stop : start + r + (total - r) = start + total := by
        rw [Nat.add_assoc,Nat.add_sub_cancel' (Nat.le_of_lt smaller)]
      obtain ⟨some,next,rest⟩ := rest_arithmetic smaller plain.small
      rw [if_pos some,next,← rest]
      have later : Linked drive found.2 cluster (start + r + (total - r)) := by
        rw [stop]
        exact linked.congr volume
      have plainRest : Plain drive found.2 cluster (start + r) (total - r) :=
        piece_size ▸ (plain.rest more).congr volume
      have positive : 0 < size_of_cluster_bytes found.2 := by rwa [size_congr volume]
      have own : (DiskStream.mk pos stream.disk).disk = drive.disk := primary
      exact ih (total - r) fewer positive own (Nat.sub_pos_of_lt smaller) plainRest later _ _
    · obtain rfl : r = total := count.trans (Nat.min_eq_left (Nat.le_of_not_lt more))
      rw [Int.sub_self,if_neg (by decide)]
      exact ⟨_,_,_,rfl⟩

/-- A read of at most a cluster's size delivers what the stream does from its position on. -/
theorem fat16_read_internal_from_stream_piece {drive : Drive} {p : FatPrivate} {stream : DiskStream} {cluster : Int}
    {start total : Nat} (size : 0 < size_of_cluster_bytes p) (primary : stream.disk = drive.disk)
    (linked : Linked drive p cluster (start + total)) (nonempty : 0 < total) (piece : total ≤ size_of_cluster_bytes p)
    (placed : Placed (i32 (filePosition drive p cluster start))) (out : Nat) (m : Bytes) :
    ∃ q after m', fat16_read_internal_from_stream drive p stream cluster start total out m = some (0,q,after,m') ∧
      SameVolume p q ∧ Stored m m' out (deliveredCount (start % 512) total)
        (fun k => diskByte drive (i32 (filePosition drive p cluster start + k))) := by
  obtain ⟨volume,_⟩ := fat16_get_cluster_loop_cases drive p cluster (start / size_of_cluster_bytes p)
  obtain ⟨there,nonneg⟩ := linked.found nonempty
  obtain ⟨found,count,sector,foundDef,countDef,sectorDef,step⟩ := read_step size stream cluster start total out m
  rw [← foundDef] at volume there
  have whole : count = total := by rw [countDef,if_neg (by omega)]
  have fits : total ≤ 4294967296 := by
    have sectors := p.primary_header.sectors_per_cluster.toNat_lt
    simp only [size_of_cluster_bytes,SIMPOS_SECTOR_SIZE] at piece
    omega
  rw [there,whole] at sectorDef
  change sector = diskstreamer_read drive ⟨i32 (filePosition drive p cluster start),stream.disk⟩ out total m at sectorDef
  have own : (DiskStream.mk (i32 (filePosition drive p cluster start)) stream.disk).disk = drive.disk := primary
  obtain ⟨pos,m',read,stored⟩ := diskstreamer_read_correct own placed out total fits m
  have within : (i32 (filePosition drive p cluster start) % 512).toNat = start % 512 := by
    rw [filePosition_mod,Int.toNat_natCast]
  refine ⟨found.2,⟨pos,stream.disk⟩,m',?_,volume,?_⟩
  · rw [step,if_neg (Int.not_lt.mpr (there ▸ nonneg)),sectorDef,read,whole,Int.sub_self]
    rfl
  · dsimp only at stored
    rw [within] at stored
    refine stored.congr fun k _ => ?_
    rw [i32_add]

/-- A read leaves the volume as it is, however it ends. -/
theorem fat16_read_internal_from_stream_volume {drive : Drive} {cluster : Int} (total : Nat) :
    ∀ {p q : FatPrivate} {stream after : DiskStream} {start out : Nat} {m m' : Bytes} {res : Int},
      start + total < 2147483648 →
      fat16_read_internal_from_stream drive p stream cluster start total out m = some (res,q,after,m') →
      SameVolume p q ∧ after.disk = stream.disk := by
  induction total using Nat.strongRecOn with
  | ind total ih =>
    intro p q stream after start out m m' res small read
    have size := size_positive read
    obtain ⟨volume,_⟩ := fat16_get_cluster_loop_cases drive p cluster (start / size_of_cluster_bytes p)
    obtain ⟨found,piece,sector,foundDef,pieceDef,sectorDef,step⟩ := read_step size stream cluster start total out m
    have disk := diskstreamer_read_disk drive ⟨i32 (clusterStart p found.1 +
      (start % size_of_cluster_bytes p : Nat)),stream.disk⟩ out piece m
    rw [← sectorDef] at disk
    rw [← foundDef] at volume
    rw [step] at read
    split_ifs at read with negative failed more
    · cases read
      exact ⟨volume,rfl⟩
    · cases read
      exact ⟨volume,disk⟩
    · have larger : size_of_cluster_bytes p < total := by
        by_contra whole
        rw [pieceDef,if_neg (by omega)] at more
        omega
      have count : piece = (size_of_cluster_bytes p : Nat) := by rw [pieceDef,if_pos (by omega)]
      obtain ⟨_,next,rest⟩ := rest_arithmetic larger small
      rw [count,next,← rest,Int.toNat_natCast] at read
      obtain ⟨later,same⟩ := ih _ (by omega) (by omega) read
      exact ⟨volume.trans later,same.trans disk⟩
    · cases read
      exact ⟨volume,disk⟩

/-- The table leads to no cluster for a piece of the read. -/
def Breaks (drive : Drive) (p : FatPrivate) (cluster : Int) (start total : Nat) : Prop :=
  ∃ n, n * size_of_cluster_bytes p < total ∧
    (chain drive p cluster (start / size_of_cluster_bytes p + n) < 0 ∨
      ∃ j < start / size_of_cluster_bytes p + n, fat16_entry_refused (chain drive p cluster (j + 1)) = true)

theorem Breaks.congr {drive : Drive} {p q : FatPrivate} {cluster : Int} {start total : Nat} (same : SameVolume p q)
    (breaks : Breaks drive p cluster start total) : Breaks drive q cluster start total := by
  simpa only [Breaks,size_congr same,chain_congr same] using breaks

private theorem Breaks.rest {drive : Drive} {p : FatPrivate} {cluster : Int} {start total n : Nat}
    (size : 0 < size_of_cluster_bytes p) (bound : (n + 1) * size_of_cluster_bytes p < total)
    (stops : chain drive p cluster (start / size_of_cluster_bytes p + (n + 1)) < 0 ∨
      ∃ j < start / size_of_cluster_bytes p + (n + 1), fat16_entry_refused (chain drive p cluster (j + 1)) = true) :
    Breaks drive p cluster (start + size_of_cluster_bytes p) (total - size_of_cluster_bytes p) := by
  rw [Nat.add_one_mul] at bound
  refine ⟨n,by omega,?_⟩
  rwa [Nat.add_div_right _ size,Nat.add_right_comm]

/-- A read that meets a cluster the table does not lead to fails. -/
theorem fat16_read_internal_from_stream_fails {drive : Drive} {cluster : Int} (total : Nat) :
    ∀ {p q : FatPrivate} {stream after : DiskStream} {start out : Nat} {m m' : Bytes} {res : Int},
      start + total < 2147483648 → Breaks drive p cluster start total →
      fat16_read_internal_from_stream drive p stream cluster start total out m = some (res,q,after,m') → res < 0 := by
  induction total using Nat.strongRecOn with
  | ind total ih =>
    intro p q stream after start out m m' res small breaks read
    have size := size_positive read
    obtain ⟨volume,outcome⟩ := fat16_get_cluster_loop_cases drive p cluster (start / size_of_cluster_bytes p)
    obtain ⟨found,piece,sector,foundDef,pieceDef,sectorDef,step⟩ := read_step size stream cluster start total out m
    rw [← foundDef] at volume outcome
    rw [step] at read
    by_cases negative : found.1 < 0
    · rw [if_pos negative] at read
      cases read
      exact negative
    rw [if_neg negative] at read
    by_cases failed : sector.1 ≠ 0
    · rw [if_pos failed] at read
      cases read
      have result := diskstreamer_read_nonpos drive ⟨i32 (clusterStart p found.1 +
        (start % size_of_cluster_bytes p : Nat)),stream.disk⟩ out piece m
      rw [← sectorDef] at result
      omega
    rw [if_neg failed] at read
    obtain ⟨n,bound,stops⟩ := breaks
    cases n with
    | zero =>
      exfalso
      rcases outcome with ⟨follows,there⟩ | ⟨_,error⟩
      · rcases stops with none | ⟨j,before,refused⟩
        · exact negative (there ▸ none)
        · rw [follows j before] at refused
          exact Bool.false_ne_true refused
      · exact negative (error ▸ by decide)
    | succ n =>
      have more : size_of_cluster_bytes p < total := by
        rw [Nat.add_one_mul] at bound
        omega
      have whole : piece = (size_of_cluster_bytes p : Nat) := by rw [pieceDef,if_pos (by omega)]
      obtain ⟨some,next,rest⟩ := rest_arithmetic more small
      rw [whole,if_pos some,next,← rest,Int.toNat_natCast] at read
      exact ih _ (by omega) (by omega) ((Breaks.rest size bound stops).congr volume) read

end SimpOS.FatChains
