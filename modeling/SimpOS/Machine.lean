import Mathlib.Tactic.Common
import Mathlib.Data.Int.DivMod

/-!
The C integers of the 32-bit target. A `uint32_t`, `size_t` or pointer is a
natural number below 2^32, an `int` an integer, and every place where the kernel's
arithmetic can leave the 32 bits goes through `u32` or `i32`, which wrap as the
target does. The constants are those of `config.h` and `status.h`.
-/
namespace SimpOS.Machine

/-- The value an `int` holds after storing x. -/
def i32 (x : Int) : Int := (x + 2147483648) % 4294967296 - 2147483648
/-- The value a `uint32_t`, `size_t` or pointer holds after storing x. -/
def u32 (x : Int) : Nat := (x % 4294967296).toNat

@[simp] abbrev EIO : Int := 1
@[simp] abbrev EINVARG : Int := 2
@[simp] abbrev ENOMEM : Int := 3
@[simp] abbrev BADPATH : Int := 4
@[simp] abbrev EFSNOTUS : Int := 5
@[simp] abbrev ERDONLY : Int := 6
@[simp] abbrev EUNIMP : Int := 7
@[simp] abbrev EINFORMAT : Int := 9

@[simp] abbrev SIMPOS_HEAP_SIZE_BYTES : Nat := 104857600
@[simp] abbrev SIMPOS_HEAP_BLOCK_SIZE : Nat := 4096
@[simp] abbrev SIMPOS_HEAP_ADDRESS : Nat := 0x01000000
@[simp] abbrev SIMPOS_SECTOR_SIZE : Nat := 512
@[simp] abbrev SIMPOS_MAX_PATH : Nat := 108
@[simp] abbrev SIMPOS_MAX_FILE_DESCRIPTORS : Nat := 512
@[simp] abbrev SIMPOS_PROGRAM_VIRTUAL_ADDRESS : Nat := 0x400000
@[simp] abbrev SIMPOS_MAX_PROGRAM_ALLOCATIONS : Nat := 1024

theorem i32_of_range {x : Int} (low : -2147483648 ≤ x) (high : x < 2147483648) : i32 x = x := by
  unfold i32; omega
theorem i32_lt (x : Int) : i32 x < 2147483648 := by unfold i32; omega
theorem i32_ge (x : Int) : -2147483648 ≤ i32 x := by unfold i32; omega
/-- Sums may wrap at any step. -/
theorem i32_add (x y : Int) : i32 (i32 x + y) = i32 (x + y) := by unfold i32; omega
theorem u32_of_range {x : Nat} (high : x < 4294967296) : u32 x = x := by unfold u32; omega
theorem u32_lt (x : Int) : u32 x < 4294967296 := by unfold u32; omega
/-- A 32-bit value is itself again after passing through an `int`. -/
theorem u32_i32 {x : Nat} (high : x < 4294967296) : u32 (i32 x) = x := by
  unfold u32 i32; omega

end SimpOS.Machine
