import SimpOS.Machine
import SimpOS.PathParser
import Mathlib.Logic.Function.Basic

/-!
The file layer of `fs/file.c`: a table of pointers to file descriptors, and the calls
that go through it. What it calls is given by the state σ of the rest of the kernel:
the functions of a filesystem, the path parser and the heap.
-/
namespace SimpOS.FileLayer
open SimpOS.Machine SimpOS.Strings SimpOS.PathParser

inductive FileMode
  | READ
  | WRITE
  | APPEND
  | INVALID
deriving DecidableEq, Repr

inductive SeekMode
  | SET
  | CUR
  | END
  | other (whence : Nat)
deriving DecidableEq, Repr

/-- The functions of a filesystem. They take the addresses of the disk and of the private
    data, and a pointer in the caller's memory where they have one. -/
structure Filesystem (σ : Type) where
  fs_open : Nat → List PathPart → FileMode → σ → Nat × σ
  fs_read : Nat → Nat → Nat → Nat → Nat → σ → Int × σ
  fs_seek : Nat → Nat → SeekMode → σ → Int × σ
  fs_stat : Nat → Nat → Nat → σ → Int × σ
  fs_close : Nat → σ → Int × σ

structure Disk (σ : Type) where
  address : Nat
  filesystem : Option (Filesystem σ)

/-- `fopen` sets the filesystem before it returns; the calls below answer a descriptor
    without one, which no table holds, as a missing one. -/
structure FileDescriptor (σ : Type) where
  index : Int
  filesystem : Option (Filesystem σ)
  private_data : Nat
  disk : Nat

/-- The table, the memory of the descriptors it points to, and the rest of the kernel. -/
structure Files (σ : Type) where
  file_descriptors : Nat → Nat
  desc : Nat → FileDescriptor σ
  rest : σ

/-- What the file layer calls. -/
structure Services (σ : Type) where
  pathparser_parse : CString → σ → Option PathRoot × σ
  pathparser_free : PathRoot → σ → σ
  disk_get : Int → σ → Option (Disk σ)
  kzalloc : Nat → σ → Nat × σ
  kfree : Nat → σ → σ

variable {σ : Type}

def ISERR (value : Nat) : Bool := i32 value < 0

def file_free_descriptor (services : Services σ) (files : Files σ) (desc : Nat) : Files σ :=
  { files with
    file_descriptors := Function.update files.file_descriptors ((files.desc desc).index - 1).toNat 0x00
    rest := services.kfree desc files.rest }

def new_file_descriptor_loop (services : Services σ) : Nat → Nat → Files σ → Int × Nat × Files σ
  | 0, _, files => (-ENOMEM, 0, files)
  | remaining + 1, i, files =>
    if files.file_descriptors i = 0 then
      let (desc, rest) := services.kzalloc 16 files.rest
      let zeroed := if desc = 0 then files.desc 0 else ⟨0, none, 0, 0⟩
      (0, desc, ⟨Function.update files.file_descriptors i desc,
        Function.update files.desc desc { zeroed with index := i + 1 }, rest⟩)
    else new_file_descriptor_loop services remaining (i + 1) files

/-- The result, the pointer to the new descriptor and the state. -/
def new_file_descriptor (services : Services σ) (files : Files σ) : Int × Nat × Files σ :=
  new_file_descriptor_loop services SIMPOS_MAX_FILE_DESCRIPTORS 0 files

/-- The pointer to the descriptor, null when there is none. -/
def file_get_descriptor (files : Files σ) (fd : Int) : Nat :=
  if fd ≤ 0 ∨ fd ≥ (SIMPOS_MAX_FILE_DESCRIPTORS : Int) then 0
  else
    let index := fd - 1
    files.file_descriptors index.toNat

def file_get_mode_by_string (str : CString) : FileMode :=
  if strncmp str [114] 1 = 0 then .READ
  else if strncmp str [119] 1 = 0 then .WRITE
  else if strncmp str [97] 1 = 0 then .APPEND
  else .INVALID

/-- The error exit of `fopen`, which always returns 0. -/
def fopen_out (services : Services σ) (files : Files σ) (root_path : Option PathRoot) (disk : Option (Disk σ))
    (descriptor_private_data desc : Nat) : Int × Files σ :=
  let files := match root_path with
    | some root => { files with rest := services.pathparser_free root files.rest }
    | none => files
  let files := match disk.bind Disk.filesystem with
    | some filesystem => if descriptor_private_data ≠ 0 then
        { files with rest := (filesystem.fs_close descriptor_private_data files.rest).2 } else files
    | none => files
  let files := if desc ≠ 0 then file_free_descriptor services files desc else files
  (0, files)

/-- How `fopen` gets to the point where it takes a descriptor. -/
inductive Prepared (σ : Type)
  | failed (root_path : Option PathRoot) (disk : Option (Disk σ)) (descriptor_private_data : Nat)
  | ready (root_path : PathRoot) (disk : Disk σ) (filesystem : Filesystem σ) (descriptor_private_data : Nat)

def fopen_prepare (services : Services σ) (rest : σ) (filename mode_str : CString) : Prepared σ × σ :=
  let (root_path, rest) := services.pathparser_parse filename rest
  match root_path with
  | none => (.failed none none 0, rest)
  | some root_path =>
    if root_path.first = [] then (.failed (some root_path) none 0, rest)
    else
      match services.disk_get root_path.drive_no rest with
      | none => (.failed (some root_path) none 0, rest)
      | some disk =>
        match disk.filesystem with
        | none => (.failed (some root_path) (some disk) 0, rest)
        | some filesystem =>
          let mode := file_get_mode_by_string mode_str
          if mode = .INVALID then (.failed (some root_path) (some disk) 0, rest)
          else
            let (descriptor_private_data, rest) := filesystem.fs_open disk.address root_path.first mode rest
            if ISERR descriptor_private_data then
              (.failed (some root_path) (some disk) descriptor_private_data, rest)
            else (.ready root_path disk filesystem descriptor_private_data, rest)

def fopen (services : Services σ) (files : Files σ) (filename mode_str : CString) : Int × Files σ :=
  let (prepared, rest) := fopen_prepare services files.rest filename mode_str
  let files := { files with rest := rest }
  match prepared with
  | .failed root_path disk descriptor_private_data =>
    fopen_out services files root_path disk descriptor_private_data 0
  | .ready root_path disk filesystem descriptor_private_data =>
    let (res, desc, files) := new_file_descriptor services files
    if res < 0 then fopen_out services files (some root_path) (some disk) descriptor_private_data 0
    else
      let filled := { files.desc desc with
        filesystem := some filesystem, private_data := descriptor_private_data, disk := disk.address }
      (filled.index, { files with desc := Function.update files.desc desc filled })

def fseek (files : Files σ) (fd offset : Int) (whence : SeekMode) : Int × Files σ :=
  let desc := file_get_descriptor files fd
  if desc = 0 then (-Machine.EIO, files)
  else
    match (files.desc desc).filesystem with
    | none => (-Machine.EIO, files)
    | some filesystem =>
      let (res, rest) := filesystem.fs_seek (files.desc desc).private_data (u32 offset) whence files.rest
      (res, { files with rest := rest })

def fread (files : Files σ) (ptr size nmemb : Nat) (fd : Int) : Int × Files σ :=
  if size = 0 ∨ nmemb = 0 ∨ fd < 1 then (-EINVARG, files)
  else
    let desc := file_get_descriptor files fd
    if desc = 0 then (-EINVARG, files)
    else
      match (files.desc desc).filesystem with
      | none => (-EINVARG, files)
      | some filesystem =>
        let (res, rest) :=
          filesystem.fs_read (files.desc desc).disk (files.desc desc).private_data size nmemb ptr files.rest
        (res, { files with rest := rest })

def fstat (files : Files σ) (fd : Int) (stat : Nat) : Int × Files σ :=
  let desc := file_get_descriptor files fd
  if desc = 0 then (-Machine.EIO, files)
  else
    match (files.desc desc).filesystem with
    | none => (-Machine.EIO, files)
    | some filesystem =>
      let (res, rest) := filesystem.fs_stat (files.desc desc).disk (files.desc desc).private_data stat files.rest
      (res, { files with rest := rest })

def fclose (services : Services σ) (files : Files σ) (fd : Int) : Int × Files σ :=
  let desc := file_get_descriptor files fd
  if desc = 0 then (-Machine.EIO, files)
  else
    match (files.desc desc).filesystem with
    | none => (-Machine.EIO, files)
    | some filesystem =>
      let (res, rest) := filesystem.fs_close (files.desc desc).private_data files.rest
      let files := { files with rest := rest }
      if res = 0 then (res, file_free_descriptor services files desc) else (res, files)

end SimpOS.FileLayer
