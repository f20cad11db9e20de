import SimpOS.Paging
import SimpOS.Strings

/-!
Memory as it is seen through the pages of a task: what `task/task.c` reads on behalf of a
task, and strings that are copied from one place to another. A place is where an address
leads in the memory of the moment: the address itself for the kernel, whose pages are mapped
to themselves, and what the page directory says for a task.
-/
namespace SimpOS.TaskMemory
open SimpOS.Machine SimpOS.Memory SimpOS.Paging SimpOS.Strings

def paging_get_physical_address (m : Bytes) (directory virt : Nat) : Nat :=
  let virt_addr_new := paging_align_to_lower_page virt
  let difference := u32 ((virt : Int) - virt_addr_new)
  offset (paging_get m directory virt_addr_new &&& 0xfffff000) difference

abbrev Place := Bytes → Nat → Nat
def kernel_page : Place := fun _ v => v
def task_page (directory : Nat) : Place := fun m v => paging_get_physical_address m directory v

def byte_at (place : Place) (m : Bytes) (v : Nat) : UInt8 := m (place m v)
def word_at (place : Place) (m : Bytes) (v : Nat) : Nat :=
  (byte_at place m v).toNat + 256 * (byte_at place m (offset v 1)).toNat +
    65536 * (byte_at place m (offset v 2)).toNat + 16777216 * (byte_at place m (offset v 3)).toNat

/-- The string at an address, cut to n bytes. -/
def string_at (place : Place) (m : Bytes) : Nat → Nat → CString
  | _, 0 => []
  | v, n + 1 => if byte_at place m v = 0 then [] else byte_at place m v :: string_at place m (offset v 1) n

def strncpy_loop (place : Place) (dest src : Nat) : Nat → Nat → Bytes → Bytes
  | 0, i, m => Function.update m (place m (offset dest i)) 0x00
  | remaining + 1, i, m =>
    if byte_at place m (offset src i) = 0x00 then Function.update m (place m (offset dest i)) 0x00
    else strncpy_loop place dest src remaining (i + 1)
      (Function.update m (place m (offset dest i)) (byte_at place m (offset src i)))
def strncpy (place : Place) (m : Bytes) (dest src count : Nat) : Bytes := strncpy_loop place dest src (count - 1) 0 m

end SimpOS.TaskMemory
