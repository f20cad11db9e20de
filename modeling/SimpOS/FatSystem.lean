import SimpOS.FatDirectories

/-!
The filesystem that `fs/fat/fat16.c` gives to the file layer, over the kernel below it: the
disk, the driver's data on it, the descriptors of its open files and the heap. A call
that never comes back stops this kernel for good.
-/
namespace SimpOS.FatSystem
open SimpOS.Machine SimpOS.Strings SimpOS.Memory SimpOS.DiskStreams SimpOS.KernelHeap SimpOS.PathParser SimpOS.FileLayer
open SimpOS.Fat16 SimpOS.FatDirectories

@[simp] abbrev FAT_FILE_READ_ONLY : UInt8 := 0x01
@[simp] abbrev FILE_STAT_READ_ONLY : Nat := 0b00000001

/-- What stops the kernel. -/
inductive Halt
  | parser (fault : Fault)
  | driver (stuck : Stuck)
deriving DecidableEq, Repr

/-- The kernel below the file layer. The disk has the driver's data when it holds a FAT16
    volume; the driver's descriptors are given by their addresses. -/
structure System where
  drive : Drive
  fs_private : Option FatPrivate
  descriptors : Nat → FatFileDescriptor
  kernel : Kernel

def ERROR (value : Int) : Nat := u32 value

/-- What `fat16_open` does with the item it has looked up. -/
def open_item (descriptor : Nat) (s : System) : Option FatItem × FatPrivate × Kernel → Nat × System
  | (none, fat_private, k) =>
    (ERROR (-Machine.EIO), { s with fs_private := some fat_private, kernel := kfree k descriptor })
  | (some item, fat_private, k) =>
    (descriptor, { s with
      fs_private := some fat_private
      descriptors := Function.update s.descriptors descriptor ⟨item, 0⟩
      kernel := k })

def fat16_open (path : List PathPart) (mode : FileMode) (s : System) : Except Stuck (Nat × System) :=
  if mode ≠ .READ then .ok (ERROR (-ERDONLY), s)
  else
    let (descriptor, k) := kzalloc s.kernel 8
    if descriptor = 0 then .ok (ERROR (-ENOMEM), { s with kernel := kfree k descriptor })
    else
      match s.fs_private, path with
      | some fat_private, path :: next =>
        (fat16_get_directory_entry .mapped s.drive fat_private path next k).map (open_item descriptor s)
      | _, _ => .error .null

def fat16_free_file_descriptor (desc : Nat) (s : System) : System :=
  { s with kernel := kfree (fat16_fat_item_free (s.descriptors desc).item s.kernel) desc }

def fat16_close (private_data : Nat) (s : System) : Int × System := (0, fat16_free_file_descriptor private_data s)

def fat16_stat (private_data stat : Nat) (s : System) : Int × System :=
  let descriptor := s.descriptors private_data
  if descriptor.item.type ≠ .FILE then (-EINVARG, s)
  else
    let ritem := descriptor.item.item
    let flags := if ritem.attributes &&& FAT_FILE_READ_ONLY ≠ 0 then FILE_STAT_READ_ONLY else 0
    let m := write32 (write32 s.kernel.memory (offset stat 4) ritem.file_size.toNat) stat flags
    (0, { s with kernel := { s.kernel with memory := m } })

def read_file (private_data size nmemb out : Nat) (s : System) : Except Stuck (Int × System) :=
  match s.fs_private with
  | none => .error .null
  | some fat_private =>
    match fat16_read s.drive fat_private (s.descriptors private_data) size nmemb out s.kernel.memory with
    | none => .error .division
    | some (res, descriptor, fat_private, m) =>
      .ok (res, { s with
        fs_private := some fat_private
        descriptors := Function.update s.descriptors private_data descriptor
        kernel := { s.kernel with memory := m } })

def seek_file (private_data offset : Nat) (seek_mode : SeekMode) (s : System) : Int × System :=
  let (res, descriptor) := fat16_seek (s.descriptors private_data) offset seek_mode
  (res, { s with descriptors := Function.update s.descriptors private_data descriptor })

/-- The kernel as it runs, or what stopped it. -/
abbrev Running := Except Halt System

/-- A call on the kernel. A stopped one stays as it is; what the call returns then is nobody's. -/
def running {α : Type} (nobody : α) (call : System → Except Halt (α × System)) : Running → α × Running
  | .error halt => (nobody, .error halt)
  | .ok s =>
    match call s with
    | .error halt => (nobody, .error halt)
    | .ok (result, s) => (result, .ok s)

def fat16_fs : Filesystem Running where
  fs_open _ path mode := running 0 fun s => (fat16_open path mode s).mapError .driver
  fs_read _ descriptor size nmemb out := running 0 fun s => (read_file descriptor size nmemb out s).mapError .driver
  fs_seek private_data offset seek_mode := running 0 fun s => .ok (seek_file private_data offset seek_mode s)
  fs_stat _ private_data stat := running 0 fun s => .ok (fat16_stat private_data stat s)
  fs_close private_data := running 0 fun s => .ok (fat16_close private_data s)

def disk_get (index : Int) : Running → Option (Disk Running)
  | .error _ => none
  | .ok s => if index ≠ 0 then none else some ⟨s.drive.disk, s.fs_private.map fun _ => fat16_fs⟩

/-- What the file layer finds below it. -/
def services : Services Running where
  pathparser_parse path := running none fun s =>
    ((PathParser.pathparser_parse path s.kernel).mapError .parser).map fun (root, k) => (root, { s with kernel := k })
  pathparser_free root s := s.map fun s => { s with kernel := PathParser.pathparser_free root s.kernel }
  disk_get := disk_get
  kzalloc size := running 0 fun s => let (ptr, k) := KernelHeap.kzalloc s.kernel size; .ok (ptr, { s with kernel := k })
  kfree ptr s := s.map fun s => { s with kernel := KernelHeap.kfree s.kernel ptr }

end SimpOS.FatSystem
