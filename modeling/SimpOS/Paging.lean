import SimpOS.Memory

/-!
The page directories of `memory/paging/paging.c`, as the words the functions read and
write in physical memory: a directory of 1024 words, each the address of a table of
1024 page entries with flags in the low bits.
-/
namespace SimpOS.Paging
open SimpOS.Machine SimpOS.Memory

@[simp] abbrev PAGING_ACCESS_FROM_ALL : Nat := 0b00000100
@[simp] abbrev PAGING_IS_WRITEABLE : Nat := 0b00000010
@[simp] abbrev PAGING_IS_PRESENT : Nat := 0b00000001
@[simp] abbrev PAGING_TOTAL_ENTRIES_PER_TABLE : Nat := 1024
@[simp] abbrev PAGING_PAGE_SIZE : Nat := 4096

structure Paging4gbChunk where
  directory_entry : Nat
deriving DecidableEq, Repr

def validate_paging_alignment (address : Nat) : Bool := address % PAGING_PAGE_SIZE == 0

/-- The result with the two indexes, which keep the given values when it is an error. -/
def paging_get_indexes (virtual_address directory_index table_index : Nat) : Int × Nat × Nat :=
  if !validate_paging_alignment virtual_address then (-EINVARG, directory_index, table_index)
  else (0, virtual_address / (PAGING_TOTAL_ENTRIES_PER_TABLE * PAGING_PAGE_SIZE),
    virtual_address % (PAGING_TOTAL_ENTRIES_PER_TABLE * PAGING_PAGE_SIZE) / PAGING_PAGE_SIZE)

def paging_align_address (ptr : Nat) : Nat :=
  if ptr % PAGING_PAGE_SIZE ≠ 0 then u32 ((ptr : Int) + PAGING_PAGE_SIZE - (ptr % PAGING_PAGE_SIZE : Nat)) else ptr

def paging_align_to_lower_page (addr : Nat) : Nat := addr - addr % PAGING_PAGE_SIZE

/-- The address of the table that a directory's word i points to. -/
def pageTable (m : Bytes) (directory i : Nat) : Nat := read32 m (offset directory (4 * i)) &&& 0xfffff000

def paging_get (m : Bytes) (directory virt : Nat) : Nat :=
  let (_, directory_index, table_index) := paging_get_indexes virt 0 0
  read32 m (offset (pageTable m directory directory_index) (4 * table_index))

def paging_set (m : Bytes) (directory virtual_address physical_address : Nat) : Int × Bytes :=
  if !validate_paging_alignment virtual_address then (-EINVARG, m)
  else
    let (res, directory_index, table_index) := paging_get_indexes virtual_address 0 0
    if res < 0 then (res, m)
    else (res, write32 m (offset (pageTable m directory directory_index) (4 * table_index)) physical_address)

def paging_map (m : Bytes) (directory : Paging4gbChunk) (virt phys flags : Nat) : Int × Bytes :=
  if virt % PAGING_PAGE_SIZE ≠ 0 ∨ phys % PAGING_PAGE_SIZE ≠ 0 then (-EINVARG, m)
  else paging_set m directory.directory_entry virt (phys ||| flags)

def paging_map_range_loop (directory : Paging4gbChunk) (flags : Nat) : Nat → Int → Bytes → Nat → Nat → Int × Bytes
  | 0, res, m, _, _ => (res, m)
  | remaining + 1, _, m, virt, phys =>
    let (res, m) := paging_map m directory virt phys flags
    if res < 0 then (res, m)
    else paging_map_range_loop directory flags remaining res m (offset virt PAGING_PAGE_SIZE)
      (offset phys PAGING_PAGE_SIZE)

def paging_map_range (m : Bytes) (directory : Paging4gbChunk) (virt phys : Nat) (count : Int) (flags : Nat) :
    Int × Bytes :=
  paging_map_range_loop directory flags count.toNat 0 m virt phys

def paging_map_to (m : Bytes) (directory : Paging4gbChunk) (virt phys phys_end flags : Nat) : Int × Bytes :=
  if virt % PAGING_PAGE_SIZE ≠ 0 then (-EINVARG, m)
  else if phys % PAGING_PAGE_SIZE ≠ 0 then (-EINVARG, m)
  else if phys_end % PAGING_PAGE_SIZE ≠ 0 then (-EINVARG, m)
  else if phys_end < phys then (-EINVARG, m)
  else
    let total_bytes := phys_end - phys
    let total_pages := i32 (total_bytes / PAGING_PAGE_SIZE : Nat)
    paging_map_range m directory virt phys total_pages flags

/-! ### Words with flags in the low bits -/

theorem and_page {x : Nat} (high : x < 4294967296) : x &&& 0xfffff000 = x - x % 4096 := by
  have split : x - x % 4096 = (x >>> 12) <<< 12 := by
    rw [Nat.shiftRight_eq_div_pow,Nat.shiftLeft_eq]
    omega
  rw [split]
  apply Nat.eq_of_testBit_eq
  intro i
  rw [Nat.testBit_and,Nat.testBit_shiftLeft,Nat.testBit_shiftRight]
  have mask : Nat.testBit 0xfffff000 i = (decide (i < 32) && decide (12 ≤ i)) := by
    rw [show 0xfffff000 = (2 ^ 20 - 1) <<< 12 by decide,Nat.testBit_shiftLeft,Nat.testBit_two_pow_sub_one]
    by_cases low : 12 ≤ i <;> simp [low]
    omega
  rw [mask]
  by_cases low : 12 ≤ i
  · by_cases inside : i < 32
    · simp [low,inside]
    · have zero : x.testBit i = false := by
        apply Nat.testBit_lt_two_pow
        calc x < 2 ^ 32 := high
          _ ≤ 2 ^ i := Nat.pow_le_pow_right (by decide) (by omega)
      simp [low,zero]
  · simp [low]

theorem or_flags {phys flags : Nat} (aligned : phys % 4096 = 0) (low : flags < 4096) :
    phys ||| flags = phys + flags := by
  have split : phys = 2 ^ 12 * (phys / 4096) := by omega
  rw [split]
  exact (Nat.two_pow_add_eq_or_of_lt low _).symm

theorem pageTable_aligned (m : Bytes) (directory i : Nat) : pageTable m directory i % 4096 = 0 := by
  rw [pageTable,and_page (read32_lt _ _)]
  omega
theorem pageTable_high (m : Bytes) (directory i : Nat) : pageTable m directory i + 4096 ≤ 4294967296 := by
  have high := read32_lt m (offset directory (4 * i))
  rw [pageTable,and_page high]
  omega

/-! ### Rounding to pages -/

theorem paging_align_address_aligned (ptr : Nat) : paging_align_address ptr % 4096 = 0 := by
  simp only [paging_align_address,u32,PAGING_PAGE_SIZE]
  split <;> omega
/-- Rounding up is exact while the next page boundary is an address. -/
theorem paging_align_address_eq {ptr : Nat} (high : ptr ≤ 0xFFFFF000) :
    paging_align_address ptr = (ptr + 4095) / 4096 * 4096 := by
  simp only [paging_align_address,u32,PAGING_PAGE_SIZE]
  split <;> omega
/-- Above the last page boundary rounding up wraps to zero. -/
theorem paging_align_address_wraps {ptr : Nat} (low : 0xFFFFF000 < ptr) (high : ptr < 4294967296) :
    paging_align_address ptr = 0 := by
  simp only [paging_align_address,u32,PAGING_PAGE_SIZE]
  split <;> omega

/-- Setting the entry of a page does not fail. -/
theorem paging_set_aligned {v : Nat} (aligned : v % 4096 = 0) (m : Bytes) (directory e : Nat) :
    paging_set m directory v e = (0,(paging_set m directory v e).2) := by
  simp [paging_set,paging_get_indexes,validate_paging_alignment,aligned]

end SimpOS.Paging
