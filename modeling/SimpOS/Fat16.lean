import SimpOS.DiskStreams
import SimpOS.FileLayer

/-!
The FAT16 driver of `fs/fat/fat16.c`: its structures, and how it reads and seeks in an
open file. Every read looks its cluster up from the first one, link by link, and reads
at most a cluster's size from there. `disk_init` gives the disk sectors of
`SIMPOS_SECTOR_SIZE` bytes.
-/
namespace SimpOS.Fat16
open SimpOS.Machine SimpOS.Memory SimpOS.DiskStreams SimpOS.FileLayer

abbrev SIMPOS_FAT16_FAT_ENTRY_SIZE : Int := 0x02
abbrev SIMPOS_FAT16_BAD_SECTOR : Int := 0xFF7

inductive FatItemType
  | DIRECTORY
  | FILE
deriving DecidableEq, Repr

structure FatHeader where
  sectors_per_cluster : UInt8
  reserved_sectors : UInt16
deriving DecidableEq, Repr

structure FatDirectoryItem where
  filename : List UInt8
  ext : List UInt8
  attributes : UInt8
  high_16_bits_first_cluster : UInt16
  low_16_bits_first_cluster : UInt16
  file_size : UInt32
deriving DecidableEq, Repr

/-- A directory, with the address of the structure and of the array of its items. -/
structure FatDirectory where
  address : Nat
  item_address : Nat
  item : Nat → FatDirectoryItem
  total : Int
  last_sector_pos : Int

/-- An item with its address. Its union holds one pointer, `item_address`; what it points to
    is given as the directory item it is read as, and for a directory as that directory. -/
structure FatItem where
  address : Nat
  item : FatDirectoryItem
  item_address : Nat
  directory : Option FatDirectory
  type : FatItemType

structure FatFileDescriptor where
  item : FatItem
  pos : Nat

structure FatPrivate where
  primary_header : FatHeader
  root_directory : FatDirectory
  cluster_read_stream : DiskStream
  fat_read_stream : Option DiskStream
  directory_stream : DiskStream

def fat16_get_first_cluster (item : FatDirectoryItem) : Nat :=
  item.high_16_bits_first_cluster.toNat <<< 16 ||| item.low_16_bits_first_cluster.toNat

def fat16_cluster_to_sector (fat_private : FatPrivate) (cluster : Int) : Int :=
  i32 (fat_private.root_directory.last_sector_pos + (cluster - 2) * fat_private.primary_header.sectors_per_cluster.toNat)

def fat16_get_first_fat_sector (fat_private : FatPrivate) : Nat := fat_private.primary_header.reserved_sectors.toNat

def fat16_get_fat_entry (drive : Drive) (fat_private : FatPrivate) (cluster : Int) : Int × FatPrivate :=
  match fat_private.fat_read_stream with
  | none => (-1, fat_private)
  | some stream =>
    let fat_table_position := fat16_get_first_fat_sector fat_private * SIMPOS_SECTOR_SIZE
    let stream := diskstreamer_seek stream (i32 (fat_table_position + cluster * SIMPOS_FAT16_FAT_ENTRY_SIZE))
    let (res, stream, result) := diskstreamer_read drive stream 0 2 (fun _ => 0)
    let fat_private := { fat_private with fat_read_stream := some stream }
    if res < 0 then (res, fat_private) else ((read16 result 0 : Nat), fat_private)

/-- The entries that end the walk with an error. -/
def fat16_entry_refused (entry : Int) : Bool :=
  entry = 0xFFF8 || entry = 0xFFFF || entry = SIMPOS_FAT16_BAD_SECTOR || entry = 0xFF0 || entry = 0xFF6 || entry = 0x00

def fat16_get_cluster_loop (drive : Drive) : Nat → Int → FatPrivate → Int × FatPrivate
  | 0, cluster_to_use, fat_private => (cluster_to_use, fat_private)
  | remaining + 1, cluster_to_use, fat_private =>
    let (entry, fat_private) := fat16_get_fat_entry drive fat_private cluster_to_use
    if fat16_entry_refused entry then (-Machine.EIO, fat_private)
    else fat16_get_cluster_loop drive remaining entry fat_private

def size_of_cluster_bytes (fat_private : FatPrivate) : Nat :=
  fat_private.primary_header.sectors_per_cluster.toNat * SIMPOS_SECTOR_SIZE

/-- Nothing when it divides by zero. -/
def fat16_get_cluster_for_offset (drive : Drive) (fat_private : FatPrivate) (starting_cluster offset : Int) :
    Option (Int × FatPrivate) :=
  if size_of_cluster_bytes fat_private = 0 then none
  else
    let clusters_ahead := Int.tdiv offset (size_of_cluster_bytes fat_private)
    some (fat16_get_cluster_loop drive clusters_ahead.toNat starting_cluster fat_private)

/-- The result, the driver's data with its two streams and the memory. -/
def fat16_read_internal_from_stream (drive : Drive) (fat_private : FatPrivate) (stream : DiskStream)
    (cluster offset total : Int) (out : Nat) (m : Bytes) : Option (Int × FatPrivate × DiskStream × Bytes) :=
  match _found : fat16_get_cluster_for_offset drive fat_private cluster offset with
  | none => none
  | some (cluster_to_use, after) =>
    if cluster_to_use < 0 then some (cluster_to_use, after, stream, m)
    else
      let offset_from_cluster := Int.tmod offset (size_of_cluster_bytes fat_private)
      let starting_sector := fat16_cluster_to_sector after cluster_to_use
      let starting_pos := i32 (starting_sector * SIMPOS_SECTOR_SIZE + offset_from_cluster)
      let total_to_read := if total > size_of_cluster_bytes fat_private then
        (size_of_cluster_bytes fat_private : Int) else total
      let (res, moved, m) := diskstreamer_read drive (diskstreamer_seek stream starting_pos) out total_to_read m
      if res ≠ 0 then some (res, after, moved, m)
      else if total - total_to_read > 0 then
        fat16_read_internal_from_stream drive after moved cluster (i32 (offset + total_to_read))
          (total - total_to_read) (Memory.offset out total_to_read.toNat) m
      else some (res, after, moved, m)
termination_by total.toNat
decreasing_by
  have positive : size_of_cluster_bytes fat_private ≠ 0 := by
    intro zero
    simp [fat16_get_cluster_for_offset,zero] at _found
  rename_i more
  change total - (if total > (size_of_cluster_bytes fat_private : Int) then
    (size_of_cluster_bytes fat_private : Int) else total) > 0 at more
  by_cases large : total > (size_of_cluster_bytes fat_private : Int)
  · simp only [large,if_true] at more ⊢
    simp
    omega
  · simp only [large,if_false] at more
    omega

def fat16_read_internal (drive : Drive) (fat_private : FatPrivate) (starting_cluster offset total : Int) (out : Nat)
    (m : Bytes) : Option (Int × FatPrivate × Bytes) :=
  match fat16_read_internal_from_stream drive fat_private fat_private.cluster_read_stream starting_cluster offset total
    out m with
  | none => none
  | some (res, fat_private, stream, m) => some (res, { fat_private with cluster_read_stream := stream }, m)

def fat16_read_loop (drive : Drive) (cluster : Int) (size : Nat) :
    Nat → Int → Nat → FatPrivate → Bytes → Option (Int × Int × FatPrivate × Bytes)
  | 0, offset, _, fat_private, m => some (0, offset, fat_private, m)
  | remaining + 1, offset, out, fat_private, m =>
    (fat16_read_internal drive fat_private cluster offset (i32 size) out m).bind fun (res, fat_private, m) =>
      if res < 0 then some (res, offset, fat_private, m)
      else fat16_read_loop drive cluster size remaining (i32 (offset + size)) (Memory.offset out size) fat_private m
/-- The result, the descriptor, the driver's data and the memory. -/
def fat16_read (drive : Drive) (fat_private : FatPrivate) (descriptor : FatFileDescriptor) (size nmemb out : Nat)
    (m : Bytes) : Option (Int × FatFileDescriptor × FatPrivate × Bytes) :=
  let item := descriptor.item.item
  (fat16_read_loop drive (i32 (fat16_get_first_cluster item)) size nmemb (i32 descriptor.pos) out fat_private m).bind
    fun (res, offset, fat_private, m) =>
      if res < 0 then some (res, descriptor, fat_private, m)
      else some (i32 nmemb, { descriptor with pos := u32 offset }, fat_private, m)

def fat16_seek (descriptor : FatFileDescriptor) (offset : Nat) (seek_mode : SeekMode) : Int × FatFileDescriptor :=
  if descriptor.item.type ≠ .FILE then (-EINVARG, descriptor)
  else
    let ritem := descriptor.item.item
    if offset ≥ ritem.file_size.toNat then (-Machine.EIO, descriptor)
    else
      match seek_mode with
      | .SET => (0, { descriptor with pos := offset })
      | .END => (-EUNIMP, descriptor)
      | .CUR => (0, { descriptor with pos := u32 (descriptor.pos + offset) })
      | .other _ => (-EINVARG, descriptor)

end SimpOS.Fat16
