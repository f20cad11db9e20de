import SimpOS.KernelHeap
import SimpOS.Strings
import Mathlib.Data.List.TakeWhile

/-!
The path parser of `fs/pparser.c`. The path is given by its bytes before the NUL and the
cursor by the bytes from it on. A linked list of parts is the list of its nodes, which
grows at its end, where `last_part` always points.
-/
namespace SimpOS.PathParser
open SimpOS.Machine SimpOS.Strings SimpOS.Memory SimpOS.Extents SimpOS.HeapBlocks SimpOS.KernelHeap

/-- What the parser may do outside the objects it was given. -/
inductive Fault
  | overread
  | overflow
deriving DecidableEq, Repr

structure PathPart where
  address : Nat
  part_address : Nat
  part : CString
deriving DecidableEq, Repr

structure PathRoot where
  address : Nat
  drive_no : Int
  first : List PathPart
deriving DecidableEq, Repr

/-- The bytes from the cursor to the NUL, none when it is past the NUL. -/
abbrev Cursor := Option CString

def pathparser_path_valid_format (path : CString) : Except Fault Bool :=
  let len := strnlen path SIMPOS_MAX_PATH
  if 0 ≤ len ∧ isdigit (path.headD 0) then
    match memcmp (path ++ [0]).tail [58, 47, 0] 2 with
    | none => .error .overread
    | some compared => .ok (compared == 0)
  else .ok false

def pathparser_get_drive_number (path : CString) : Except Fault (Int × Cursor) :=
  (pathparser_path_valid_format path).map fun valid =>
    if !valid then (-BADPATH, some path)
    else (tonumericdigit (path.headD 0), if 3 ≤ path.length then some (path.drop 3) else none)

def pathparser_create_root (drive_number : Int) (k : Kernel) : Option PathRoot × Kernel :=
  let (path_r, k) := kzalloc k 8
  if path_r = 0 then (none, k) else (some ⟨path_r, drive_number, []⟩, k)

/-- The loop that copies a part. The rest of the buffer's heap block is its own as well. -/
def copy_part : CString → Nat → CString → Except Fault (CString × CString)
  | [], _, result_path_part => .ok (result_path_part, [])
  | c :: path, i, result_path_part =>
    if c = 47 then .ok (result_path_part, c :: path)
    else if SIMPOS_HEAP_BLOCK_SIZE ≤ i then .error .overflow
    else copy_part path (i + 1) (result_path_part ++ [c])

/-- The address of the part's string and its bytes, and the cursor behind the part. -/
def pathparser_get_path_part (path : Cursor) (k : Kernel) :
    Except Fault (Option (Nat × CString) × Cursor × Kernel) :=
  let (result_path_part, k) := kzalloc k SIMPOS_MAX_PATH
  if result_path_part = 0 then .ok (none, path, k)
  else
    match path with
    | none => .error .overread
    | some path =>
      (copy_part path 0 []).map fun (copied, path) =>
        let path := if path.headD 0 = 47 then path.tail else path
        if copied.length = 0 then (none, some path, kfree k result_path_part)
        else (some (result_path_part, copied), some path, k)

/-- The parts with the new one linked behind the last. -/
def pathparser_parse_path_part (parts : List PathPart) (path : Cursor) (k : Kernel) :
    Except Fault (Option (List PathPart) × Cursor × Kernel) :=
  (pathparser_get_path_part path k).map fun (path_part_str, path, k) =>
    match path_part_str with
    | none => (none, path, k)
    | some (path_part_str, copied) =>
      let (part, k) := kzalloc k 8
      if part = 0 then (none, path, kfree k path_part_str)
      else (some (parts ++ [⟨part, path_part_str, copied⟩]), path, k)

/-- The second part and the loop over the others. Every round takes a byte at least. -/
def parse_rest : Nat → List PathPart → Cursor → Kernel → Except Fault (List PathPart × Kernel)
  | 0, parts, _, k => .ok (parts, k)
  | remaining + 1, parts, path, k =>
    (pathparser_parse_path_part parts path k).bind fun (part, path, k) =>
      match part with
      | none => .ok (parts, k)
      | some parts => parse_rest remaining parts path k

/-- What happens to the root once its first part is read, or is not. -/
def parse_parts (remaining : Nat) (path_root : PathRoot) :
    Option (List PathPart) × Cursor × Kernel → Except Fault (Option PathRoot × Kernel)
  | (none, _, k) => .ok (none, kfree k path_root.address)
  | (some parts, tmp_path, k) =>
    (parse_rest remaining parts tmp_path k).map fun (parts, k) => (some { path_root with first := parts }, k)

def pathparser_parse (path : CString) (k : Kernel) : Except Fault (Option PathRoot × Kernel) :=
  (pathparser_get_drive_number path).bind fun (res, tmp_path) =>
    if res < 0 then .ok (none, k)
    else
      match pathparser_create_root res k with
      | (none, k) => .ok (none, k)
      | (some path_root, k) =>
        (pathparser_parse_path_part [] tmp_path k).bind (parse_parts (path.length + 1) path_root)

def pathparser_free_parts : List PathPart → Kernel → Kernel
  | [], k => k
  | part :: rest, k => pathparser_free_parts rest (kfree (kfree k part.part_address) part.address)

def pathparser_free (root : PathRoot) (k : Kernel) : Kernel :=
  kfree (pathparser_free_parts root.first k) root.address

end SimpOS.PathParser
