import SimpOS.Machine
import SimpOS.Extents
import Mathlib.Logic.Function.Basic

/-!
The block allocator of `memory/heap/heap.c`. The table is the memory its `entries`
pointer reaches, so an index outside `[0, total)` names the byte the code would touch
there. Such a byte is none of the memory that the heap hands out and none of any other record:
what a write there overwrites is not followed. Loops count the iterations left; pointers are
32-bit numbers.
-/
namespace SimpOS.HeapBlocks
open SimpOS.Machine SimpOS.Extents

@[simp] abbrev HEAP_BLOCK_TABLE_ENTRY_TAKEN : UInt8 := 0x01
@[simp] abbrev HEAP_BLOCK_TABLE_ENTRY_FREE : UInt8 := 0x00
@[simp] abbrev HEAP_BLOCK_HAS_NEXT : UInt8 := 0b10000000
@[simp] abbrev HEAP_BLOCK_IS_FIRST : UInt8 := 0b01000000

structure HeapTable where
  entries : Int → UInt8
  total : Nat

structure Heap where
  table : HeapTable
  start_address : Nat

def heap_validate_table (ptr end_ptr : Nat) (table : HeapTable) : Int :=
  let table_size := u32 ((end_ptr : Int) - ptr)
  let total_blocks := table_size / SIMPOS_HEAP_BLOCK_SIZE
  if table.total ≠ total_blocks then -EINVARG else 0

def heap_validate_alignment (ptr : Nat) : Bool := ptr % SIMPOS_HEAP_BLOCK_SIZE == 0

/-- The memory after `memset(entries, c, size)`. -/
def memset_entries (entries : Int → UInt8) (c : UInt8) (size : Nat) : Int → UInt8 :=
  fun i => if 0 ≤ i ∧ i < size then c else entries i

def heap_create (heap : Heap) (ptr end_ptr : Nat) (table : HeapTable) : Int × Heap :=
  if !heap_validate_alignment ptr || !heap_validate_alignment end_ptr then (-EINVARG, heap)
  else
    let heap : Heap := { start_address := ptr, table := table }
    let res := heap_validate_table ptr end_ptr table
    if res < 0 then (res, heap)
    else
      (res, { heap with table := { table with
        entries := memset_entries table.entries HEAP_BLOCK_TABLE_ENTRY_FREE table.total } })

def heap_get_entry_type (entry : UInt8) : UInt8 := entry &&& 0x0f

def heap_get_start_block_loop (entries : Int → UInt8) (total_blocks : Nat) : Nat → Int → Int → Int → Int
  | 0, _, _, starting_block => starting_block
  | remaining + 1, i, block_count, starting_block =>
    if heap_get_entry_type (entries i) ≠ HEAP_BLOCK_TABLE_ENTRY_FREE then
      heap_get_start_block_loop entries total_blocks remaining (i + 1) 0 (-1)
    else
      let starting_block := if starting_block = -1 then i else starting_block
      let block_count := block_count + 1
      if block_count = total_blocks then starting_block
      else heap_get_start_block_loop entries total_blocks remaining (i + 1) block_count starting_block

def heap_get_start_block (heap : Heap) (total_blocks : Nat) : Int :=
  let starting_block := heap_get_start_block_loop heap.table.entries total_blocks heap.table.total 0 0 (-1)
  if starting_block = -1 then -ENOMEM else starting_block

def heap_block_to_address (heap : Heap) (block : Int) : Nat :=
  u32 (heap.start_address + block * SIMPOS_HEAP_BLOCK_SIZE)

def heap_mark_blocks_taken_loop (end_block : Int) : Nat → Int → UInt8 → (Int → UInt8) → (Int → UInt8)
  | 0, _, _, entries => entries
  | remaining + 1, i, entry, entries =>
    let entries := Function.update entries i entry
    let entry := HEAP_BLOCK_TABLE_ENTRY_TAKEN
    let entry := if i ≠ end_block - 1 then entry ||| HEAP_BLOCK_HAS_NEXT else entry
    heap_mark_blocks_taken_loop end_block remaining (i + 1) entry entries

def heap_mark_blocks_taken (heap : Heap) (start_block : Int) (total_blocks : Nat) : Heap :=
  let end_block := (start_block + total_blocks) - 1
  let entry := HEAP_BLOCK_TABLE_ENTRY_TAKEN ||| HEAP_BLOCK_IS_FIRST
  let entry := if total_blocks > 1 then entry ||| HEAP_BLOCK_HAS_NEXT else entry
  { heap with table := { heap.table with
    entries := heap_mark_blocks_taken_loop end_block (end_block + 1 - start_block).toNat start_block entry
      heap.table.entries } }

def heap_malloc_blocks (heap : Heap) (total_blocks : Nat) : Nat × Heap :=
  let start_block := heap_get_start_block heap total_blocks
  if start_block < 0 then (0, heap)
  else (heap_block_to_address heap start_block, heap_mark_blocks_taken heap start_block total_blocks)

def heap_align_value_to_upper (val : Nat) : Nat :=
  if val % SIMPOS_HEAP_BLOCK_SIZE = 0 then val
  else
    let val := val - val % SIMPOS_HEAP_BLOCK_SIZE
    u32 (val + SIMPOS_HEAP_BLOCK_SIZE)

/-- The pointer `heap_malloc` returns and the heap it leaves. -/
def heap_malloc (heap : Heap) (size : Nat) : Nat × Heap :=
  let aligned_size := heap_align_value_to_upper size
  let total_blocks := aligned_size / SIMPOS_HEAP_BLOCK_SIZE
  heap_malloc_blocks heap total_blocks

def heap_address_to_block (heap : Heap) (address : Nat) : Int :=
  (i32 ((address : Int) - heap.start_address)).tdiv SIMPOS_HEAP_BLOCK_SIZE

def heap_mark_blocks_free_loop : Nat → Int → (Int → UInt8) → (Int → UInt8)
  | 0, _, entries => entries
  | remaining + 1, i, entries =>
    let entry := entries i
    let entries := Function.update entries i HEAP_BLOCK_TABLE_ENTRY_FREE
    if entry &&& HEAP_BLOCK_HAS_NEXT = 0 then entries
    else heap_mark_blocks_free_loop remaining (i + 1) entries

def heap_mark_blocks_free (heap : Heap) (starting_block : Int) : Heap :=
  { heap with table := { heap.table with
    entries := heap_mark_blocks_free_loop (heap.table.total - starting_block).toNat starting_block
      heap.table.entries } }

def heap_free (heap : Heap) (ptr : Nat) : Heap :=
  heap_mark_blocks_free heap (heap_address_to_block heap ptr)

/-! ### What each function does -/

/-- The search takes an entry for free when its low four bits say so. -/
def FreeBlock (heap : Heap) (i : Int) : Prop :=
  heap_get_entry_type (heap.table.entries i) = HEAP_BLOCK_TABLE_ENTRY_FREE
instance (heap : Heap) (i : Int) : Decidable (FreeBlock heap i) := inferInstanceAs (Decidable (_ = _))

/-- n consecutive free blocks of the table start at block a. -/
def FreeRun (heap : Heap) (n : Nat) (a : Int) : Prop :=
  0 ≤ a ∧ a + n ≤ heap.table.total ∧ AllOf (FreeBlock heap) a n

/-- The search's answer for n blocks: the lowest run; or, when there is none, the start of
    the free blocks that reach the end of the table, which are fewer than n; or an error. -/
inductive StartBlock (heap : Heap) (n : Nat) : Int → Prop
  | run {b : Int} : 0 < n → FreeRun heap n b → (∀ a, a < b → ¬ FreeRun heap n a) → StartBlock heap n b
  | tail {b : Int} : 0 ≤ b → b < heap.table.total →
      (∀ i, b ≤ i → i < heap.table.total → FreeBlock heap i) → (0 < n → ∀ a, ¬ FreeRun heap n a) →
      StartBlock heap n b
  | full : (heap.table.total = 0 ∨ ¬ FreeBlock heap (heap.table.total - 1)) →
      (0 < n → ∀ a, ¬ FreeRun heap n a) → StartBlock heap n (-ENOMEM)

/-- What the scan knows before block i: `block_count` free blocks end there, with nothing
    free just before them, and no run of n blocks lies below. -/
private structure Scanned (heap : Heap) (n : Nat) (i block_count starting_block : Int) : Prop where
  start : block_count = 0 ∧ starting_block = -1 ∨ 0 < block_count ∧ starting_block = i - block_count
  bound : 0 ≤ block_count ∧ block_count ≤ i
  free : ∀ j, i - block_count ≤ j → j < i → FreeBlock heap j
  maximal : i - block_count = 0 ∨ ¬ FreeBlock heap (i - block_count - 1)
  noRun : 0 < n → ∀ a, 0 ≤ a → a + n ≤ i → ¬ AllOf (FreeBlock heap) a n

private theorem scanned_taken {heap : Heap} {n : Nat} {i block_count starting_block : Int}
    (scanned : Scanned heap n i block_count starting_block) (taken : ¬ FreeBlock heap i) :
    Scanned heap n (i + 1) 0 (-1) := by
  have bound := scanned.bound
  refine ⟨.inl ⟨rfl,rfl⟩,by omega,fun j low high => by omega,.inr (by simpa using taken),?_⟩
  intro positive a low high all
  by_cases before : a + n ≤ i
  · exact scanned.noRun positive a low before all
  · exact taken (all i (mem_mk.mpr (by omega)))

private theorem scanned_free {heap : Heap} {n : Nat} {i block_count starting_block : Int}
    (scanned : Scanned heap n i block_count starting_block) (free : FreeBlock heap i)
    (short : block_count + 1 ≠ n) : Scanned heap n (i + 1) (block_count + 1) (i - block_count) := by
  have bound := scanned.bound
  have free' : ∀ j, i - block_count ≤ j → j < i + 1 → FreeBlock heap j := by
    intro j low high
    by_cases last : j = i
    · exact last ▸ free
    · exact scanned.free j low (by omega)
  refine ⟨.inr ⟨by omega,by omega⟩,by omega,fun j low high => free' j (by omega) high,?_,?_⟩
  · rw [show i + 1 - (block_count + 1) = i - block_count by omega]
    exact scanned.maximal
  · intro positive a low high all
    by_cases before : a + n ≤ i
    · exact scanned.noRun positive a low before all
    · by_cases long : (n : Int) ≤ block_count
      · -- a run of n blocks would have been complete one block earlier
        refine scanned.noRun positive (i - n) (by omega) (by omega) fun j inside => ?_
        rw [mem_mk] at inside
        exact scanned.free j (by omega) (by omega)
      · rcases scanned.maximal with atStart | taken
        · omega
        · exact taken (all _ (mem_mk.mpr (by omega)))

private theorem heap_get_start_block_loop_correct (heap : Heap) (n : Nat) (remaining : Nat) :
    ∀ (i block_count starting_block : Int), i + remaining = heap.table.total →
      Scanned heap n i block_count starting_block →
      ∀ r, heap_get_start_block_loop heap.table.entries n remaining i block_count starting_block = r →
        StartBlock heap n (if r = -1 then -ENOMEM else r) := by
  induction remaining with
  | zero =>
    intro i block_count starting_block atEnd scanned r result
    have bound := scanned.bound
    have atEnd : i = heap.table.total := by simpa using atEnd
    have noRun : 0 < n → ∀ a, ¬ FreeRun heap n a := by
      rintro positive a ⟨low,high,all⟩
      exact scanned.noRun positive a low (by omega) all
    have result : starting_block = r := result
    subst result
    rcases scanned.start with ⟨idle,unset⟩ | ⟨counted,set⟩
    · rw [if_pos unset]
      refine .full ?_ noRun
      rcases scanned.maximal with empty | taken
      · exact .inl (by omega)
      · exact .inr (by simpa [idle,atEnd] using taken)
    · rw [if_neg (by omega)]
      exact .tail (by omega) (by omega) (fun j low high => scanned.free j (by omega) (by omega)) noRun
  | succ remaining ih =>
    intro i block_count starting_block atEnd scanned r result
    have bound := scanned.bound
    rw [heap_get_start_block_loop] at result
    by_cases free : FreeBlock heap i
    · have set : (if starting_block = -1 then i else starting_block) = i - block_count := by
        rcases scanned.start with ⟨idle,unset⟩ | ⟨counted,set⟩
        · simp [idle,unset]
        · rw [if_neg (by omega),set]
      have free' : heap_get_entry_type (heap.table.entries i) = HEAP_BLOCK_TABLE_ENTRY_FREE := free
      simp only [free',ne_eq,not_true_eq_false,if_false,set] at result
      by_cases enough : block_count + 1 = n
      · simp only [enough,if_true] at result
        subst result
        rw [if_neg (by omega)]
        have all : ∀ j, i - block_count ≤ j → j < i + 1 → FreeBlock heap j := by
          intro j low high
          by_cases last : j = i
          · exact last ▸ free
          · exact scanned.free j low (by omega)
        refine .run (by omega) ⟨by omega,by omega,fun j inside => ?_⟩ ?_
        · rw [mem_mk] at inside
          exact all j (by omega) (by omega)
        · rintro a lower ⟨low,_,run⟩
          exact scanned.noRun (by omega) a low (by omega) run
      · simp only [enough,if_false] at result
        exact ih _ _ _ (by omega) (scanned_free scanned free enough) r result
    · have taken : heap_get_entry_type (heap.table.entries i) ≠ HEAP_BLOCK_TABLE_ENTRY_FREE := free
      simp only [taken,ne_eq,not_false_eq_true,if_true] at result
      exact ih _ _ _ (by omega) (scanned_taken scanned free) r result

/-- First fit over the whole table, for every pattern of free blocks. -/
theorem heap_get_start_block_correct (heap : Heap) (n : Nat) :
    StartBlock heap n (heap_get_start_block heap n) :=
  heap_get_start_block_loop_correct heap n heap.table.total 0 0 (-1) (by omega)
    ⟨.inl ⟨rfl,rfl⟩,by omega,fun j low high => by omega,.inl rfl,fun _ _ _ _ => by omega⟩ _ rfl

end SimpOS.HeapBlocks
