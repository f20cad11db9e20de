import SimpOS.Fat16
import SimpOS.KernelHeap

/-!
The directories of `fs/fat/fat16.c`: how a subdirectory is loaded, an item looked up by its
name, and a path followed down the tree. What the structures on the heap hold is given by
values, what they occupy by their addresses.
-/
namespace SimpOS.FatDirectories
open SimpOS.Machine SimpOS.Strings SimpOS.Memory SimpOS.DiskStreams SimpOS.KernelHeap SimpOS.PathParser SimpOS.Fat16

@[simp] abbrev FAT_FILE_SUBDIRECTORY : UInt8 := 0x10

/-- How a call may not come back with a result. Astray is a search that goes on with the words at
    address 0 as with a record of the driver's own. -/
inductive Stuck
  | null
  | division
  | endless
  | astray
deriving DecidableEq, Repr

/-- Whether there is memory at address 0. The kernel's page tables map it, so that a null pointer
    reads what lies there; taken away, it stops the call that follows one. -/
inductive PageZero
  | mapped
  | unmapped
deriving DecidableEq, Repr

/-- The directory item that 32 bytes are. -/
def item_of (byte : Nat → UInt8) : FatDirectoryItem :=
  { filename := (List.range 8).map byte
    ext := (List.range 3).map fun i => byte (8 + i)
    attributes := byte 11
    high_16_bits_first_cluster := UInt16.ofNat ((byte 20).toNat + 256 * (byte 21).toNat)
    low_16_bits_first_cluster := UInt16.ofNat ((byte 26).toNat + 256 * (byte 27).toNat)
    file_size := UInt32.ofNat ((byte 28).toNat + 256 * (byte 29).toNat + 65536 * (byte 30).toNat +
      16777216 * (byte 31).toNat) }

def item_at (m : Bytes) (a : Nat) : FatDirectoryItem := item_of fun j => m (Memory.offset a j)

/-- The loop over the items of a directory; nothing when it is still running. -/
def total_items_loop (drive : Drive) : Nat → Int → DiskStream → Option (Int × DiskStream)
  | 0, _, _ => none
  | remaining + 1, i, stream =>
    let (res, stream, m) := diskstreamer_read drive stream 0 32 (fun _ => 0)
    if res ≠ 0 then some (-Machine.EIO, stream)
    else
      let item := item_at m 0
      if item.filename.headD 0 = 0x00 then some (i, stream)
      else if item.filename.headD 0 = 0xE5 then total_items_loop drive remaining i stream
      else total_items_loop drive remaining (i + 1) stream

/-- Reading the sector's last item puts the stream back to its second one, so a loop from a
    position on the disk that has not ended after sixteen items does not end. A position that has
    wrapped below zero comes up to the disk first. -/
def items_rounds (directory_start_pos : Int) : Nat := (-directory_start_pos).toNat / 32 + 16

def fat16_get_total_items_for_directory (drive : Drive) (fat_private : FatPrivate) (directory_start_sector : Int) :
    Option (Int × FatPrivate) :=
  let directory_start_pos := i32 (directory_start_sector * SIMPOS_SECTOR_SIZE)
  let stream := diskstreamer_seek fat_private.directory_stream directory_start_pos
  (total_items_loop drive (items_rounds directory_start_pos) 0 stream).map fun (res, stream) =>
    (res, { fat_private with directory_stream := stream })

theorem items_rounds_on_disk {directory_start_pos : Int} (low : 0 ≤ directory_start_pos) :
    items_rounds directory_start_pos = 16 := by
  unfold items_rounds
  omega

def fat16_to_proper_string (s : List UInt8) : CString := s.takeWhile fun c => c ≠ 0x00 && c ≠ 0x20

def fat16_get_full_relative_filename (item : FatDirectoryItem) : CString :=
  let out := fat16_to_proper_string item.filename
  if item.ext.headD 0 ≠ 0x00 ∧ item.ext.headD 0 ≠ 0x20 then out ++ 46 :: fat16_to_proper_string item.ext else out

def fat16_free_directory (directory : Option FatDirectory) (k : Kernel) : Kernel :=
  match directory with
  | none => k
  | some directory =>
    let k := if directory.item_address ≠ 0 then kfree k directory.item_address else k
    kfree k directory.address

def fat16_fat_item_free (item : FatItem) (k : Kernel) : Kernel :=
  let k := match item.type with
    | .DIRECTORY => fat16_free_directory item.directory k
    | .FILE => kfree k item.item_address
  kfree k item.address

/-- The end of the load, with what the read of the items came back with. A directory that
    could not be read is returned all the same, released. -/
def load_out (directory : FatDirectory) : Option (Int × FatPrivate × Bytes) → Kernel →
    Except Stuck (Option FatDirectory × FatPrivate × Kernel)
  | none, _ => .error .division
  | some (res, fat_private, m), k =>
    let k := { k with memory := m }
    let directory := { directory with item := fun i => item_at m (Memory.offset directory.item_address (32 * i)) }
    if res ≠ 0 then .ok (some directory, fat_private, fat16_free_directory (some directory) k)
    else .ok (some directory, fat_private, k)

def load_items (drive : Drive) (item : FatDirectoryItem) (address : Nat) (k : Kernel) :
    Option (Int × FatPrivate) → Except Stuck (Option FatDirectory × FatPrivate × Kernel)
  | none => .error .endless
  | some (total, fat_private) =>
    let cluster := i32 (fat16_get_first_cluster item)
    let directory_size := i32 (total * 32)
    let (items, k) := kzalloc k (u32 directory_size)
    let directory : FatDirectory := ⟨address, items, fun i => item_at k.memory (Memory.offset items (32 * i)), total, 0⟩
    if items = 0 then .ok (some directory, fat_private, fat16_free_directory (some directory) k)
    else load_out directory (fat16_read_internal drive fat_private cluster 0x00 directory_size items k.memory) k

def fat16_load_fat_directory (drive : Drive) (fat_private : FatPrivate) (item : FatDirectoryItem) (k : Kernel) :
    Except Stuck (Option FatDirectory × FatPrivate × Kernel) :=
  if item.attributes &&& FAT_FILE_SUBDIRECTORY = 0 then .ok (none, fat_private, k)
  else
    let (directory, k) := kzalloc k 16
    if directory = 0 then .ok (none, fat_private, k)
    else
      let cluster := i32 (fat16_get_first_cluster item)
      let cluster_sector := fat16_cluster_to_sector fat_private cluster
      load_items drive item directory k (fat16_get_total_items_for_directory drive fat_private cluster_sector)

def fat16_new_fat_item_for_directory_item (drive : Drive) (fat_private : FatPrivate) (item : FatDirectoryItem)
    (k : Kernel) : Except Stuck (Option FatItem × FatPrivate × Kernel) :=
  let (f_item, k) := kzalloc k 8
  if f_item = 0 then .ok (none, fat_private, k)
  else if item.attributes &&& FAT_FILE_SUBDIRECTORY ≠ 0 then
    (fat16_load_fat_directory drive fat_private item k).map fun (directory, fat_private, k) =>
      let pointer := (directory.map FatDirectory.address).getD 0
      (some ⟨f_item, item_at k.memory pointer, pointer, directory, .DIRECTORY⟩, fat_private, k)
  else
    -- the clone of the item
    let (item_copy, k) := kzalloc k 32
    let copied := if item_copy = 0 then item_at k.memory 0 else item
    .ok (some ⟨f_item, copied, item_copy, none, .FILE⟩, fat_private, k)

/-- The loop goes on behind an item of the name, so that the last one of it is returned. -/
def find_item_loop (drive : Drive) (directory : FatDirectory) (name : CString) :
    Nat → Nat → Option FatItem → FatPrivate → Kernel → Except Stuck (Option FatItem × FatPrivate × Kernel)
  | 0, _, f_item, fat_private, k => .ok (f_item, fat_private, k)
  | remaining + 1, i, f_item, fat_private, k =>
    let tmp_filename := fat16_get_full_relative_filename (directory.item i)
    if istrncmp tmp_filename name SIMPOS_MAX_PATH = 0 then
      (fat16_new_fat_item_for_directory_item drive fat_private (directory.item i) k).bind
        fun (f_item, fat_private, k) => find_item_loop drive directory name remaining (i + 1) f_item fat_private k
    else find_item_loop drive directory name remaining (i + 1) f_item fat_private k

/-- A search in a null directory, whose total is the word at address 4: nothing is found in one
    without items. -/
def null_directory (zero : PageZero) (fat_private : FatPrivate) (k : Kernel) :
    Except Stuck (Option FatItem × FatPrivate × Kernel) :=
  match zero with
  | .unmapped => .error .null
  | .mapped => if i32 (read32 k.memory 4) ≤ 0 then .ok (none, fat_private, k) else .error .astray

/-- The step on from a null item, whose type is the word at address 4: one that is no directory ends the path. -/
def null_item (zero : PageZero) (fat_private : FatPrivate) (k : Kernel) :
    Except Stuck (Option FatItem × FatPrivate × Kernel) :=
  match zero with
  | .unmapped => .error .null
  | .mapped => if read32 k.memory 4 ≠ 0 then .ok (none, fat_private, k) else .error .astray

def fat16_find_item_in_directory (zero : PageZero) (drive : Drive) (directory : Option FatDirectory) (name : CString)
    (fat_private : FatPrivate) (k : Kernel) : Except Stuck (Option FatItem × FatPrivate × Kernel) :=
  match directory with
  | none => null_directory zero fat_private k
  | some directory => find_item_loop drive directory name directory.total.toNat 0 none fat_private k

def directory_entry_loop (zero : PageZero) (drive : Drive) :
    List PathPart → Option FatItem → FatPrivate → Kernel → Except Stuck (Option FatItem × FatPrivate × Kernel)
  | [], current_item, fat_private, k => .ok (current_item, fat_private, k)
  | _ :: _, none, fat_private, k => null_item zero fat_private k
  | next_part :: rest, some current_item, fat_private, k =>
    if current_item.type ≠ .DIRECTORY then .ok (none, fat_private, k)
    else
      (fat16_find_item_in_directory zero drive current_item.directory next_part.part fat_private k).bind
        fun (tmp_item, fat_private, k) =>
          directory_entry_loop zero drive rest tmp_item fat_private (fat16_fat_item_free current_item k)

def fat16_get_directory_entry (zero : PageZero) (drive : Drive) (fat_private : FatPrivate) (path : PathPart)
    (next : List PathPart) (k : Kernel) : Except Stuck (Option FatItem × FatPrivate × Kernel) :=
  (fat16_find_item_in_directory zero drive (some fat_private.root_directory) path.part fat_private k).bind
    fun (root_item, fat_private, k) =>
      match root_item with
      | none => .ok (none, fat_private, k)
      | some root_item => directory_entry_loop zero drive next (some root_item) fat_private k

/-! ### What a null pointer changes -/

/-- The call goes the same way with and without memory at address 0, or follows a null pointer and
    comes back with no item. -/
def SameOrLost (run : PageZero → Except Stuck (Option FatItem × FatPrivate × Kernel)) : Prop :=
  run .mapped = run .unmapped ∨
    run .unmapped = .error .null ∧ ∀ item fat_private k, run .mapped ≠ .ok (some item, fat_private, k)

section
variable {drive : Drive}

/-- From no item on a path leads to none. -/
private theorem none_onward (rest : List PathPart) (p : FatPrivate) (k : Kernel) (item : FatItem) (q : FatPrivate) (k' : Kernel) :
    directory_entry_loop .mapped drive rest none p k ≠ .ok (some item,q,k') := by
  intro found
  cases rest with
  | nil => simp [directory_entry_loop] at found
  | cons next rest =>
    simp only [directory_entry_loop,null_item] at found
    split_ifs at found
    simp at found

theorem directory_entry_loop_null (rest : List PathPart) : ∀ (item : Option FatItem) (p : FatPrivate) (k : Kernel),
    SameOrLost fun zero => directory_entry_loop zero drive rest item p k := by
  induction rest with
  | nil => exact fun item p k => .inl (by simp [directory_entry_loop])
  | cons next rest ih =>
    intro item p k
    cases item with
    | none => exact .inr ⟨rfl,fun item q k' => none_onward (next :: rest) p k item q k'⟩
    | some current =>
      by_cases stops : current.type ≠ .DIRECTORY
      · exact .inl (by simp [directory_entry_loop,stops])
      · cases here : current.directory with
        | none =>
          refine .inr ⟨by simp [directory_entry_loop,stops,here,fat16_find_item_in_directory,null_directory,Except.bind],?_⟩
          intro item q k' found
          simp only [directory_entry_loop,stops,here,fat16_find_item_in_directory,null_directory,if_false] at found
          split_ifs at found
          · exact none_onward rest p _ item q k' found
          · simp [Except.bind] at found
        | some directory =>
          unfold SameOrLost
          simp only [directory_entry_loop,stops,here,fat16_find_item_in_directory,if_false]
          cases find_item_loop drive directory next.part directory.total.toNat 0 none p k with
          | error stuck => exact .inl rfl
          | ok outcome => exact ih outcome.1 outcome.2.1 (fat16_fat_item_free current outcome.2.2)

theorem get_directory_entry_null (p : FatPrivate) (path : PathPart) (next : List PathPart) (k : Kernel) :
    SameOrLost fun zero => fat16_get_directory_entry zero drive p path next k := by
  unfold SameOrLost
  simp only [fat16_get_directory_entry,fat16_find_item_in_directory]
  cases find_item_loop drive p.root_directory path.part p.root_directory.total.toNat 0 none p k with
  | error stuck => exact .inl rfl
  | ok outcome =>
    obtain ⟨root_item,q,k₁⟩ := outcome
    cases root_item with
    | none => exact .inl rfl
    | some root_item => exact directory_entry_loop_null next (some root_item) q k₁

end

end SimpOS.FatDirectories
