import Mathlib.Logic.Function.Basic
import SimpOS.ProcessCalls
import SimpOS.ProgramArguments

/-!
The buffers that the system calls build their paths in. Each copy into one has a bound of its own or
none, and none of them counts the drive in front.
-/
namespace SimpOS.PathBuffers
open SimpOS.Machine SimpOS.Memory SimpOS.Strings SimpOS.TaskMemory SimpOS.Processes SimpOS.ProcessCalls
open Function

/-- The array `path` on the stack, and the indices it has been written at, also those outside of it. -/
structure Buffer where
  bytes : Nat → UInt8
  written : List Nat

def Buffer.store (path : Buffer) (i : Nat) (c : UInt8) : Buffer := ⟨update path.bytes i c, path.written ++ [i]⟩

/-- The destination is an index from the start of the array. -/
def strcpy (path : Buffer) (dest : Nat) : CString → Buffer
  | [] => path.store dest 0x00
  | c :: src => strcpy (path.store dest c) (dest + 1) src

def strncpy_loop (dest : Nat) : Nat → CString → Nat → Buffer → Buffer
  | remaining + 1, c :: src, i, path => strncpy_loop dest remaining src (i + 1) (path.store (dest + i) c)
  | _, _, i, path => path.store (dest + i) 0x00
def strncpy (path : Buffer) (dest : Nat) (src : CString) (count : Nat) : Buffer := strncpy_loop dest (count - 1) src 0 path

/-- `0:/` -/
abbrev drive : CString := [48, 58, 47]

/-- The path of `isr80h_command6_process_load_start`, from what the stack held before. -/
def command6_path (before : Nat → UInt8) (filename : CString) : Buffer :=
  strcpy (strcpy ⟨before, []⟩ 0 drive) 3 filename
/-- The path of `isr80h_command7_invoke_system_command`. -/
def command7_path (before : Nat → UInt8) (program_name : CString) : Buffer :=
  strncpy (strcpy ⟨before, []⟩ 0 drive) 3 program_name SIMPOS_MAX_PATH

section
variable {φ : Type}

/-- The name that the sixth call has copied in, and whether that went well. -/
def filename (s : World φ) : Int × CString × World φ :=
  copy_string_from_task (task_current s) (task_get_stack_item (task_current s) 0 s) SIMPOS_MAX_PATH s
/-- The arguments of the seventh call as the kernel finds them. -/
def arguments (s : World φ) : Nat :=
  task_virtual_address_to_physical (task_current s) (task_get_stack_item (task_current s) 0 s) s
/-- The first argument, which has room for 511 bytes. -/
def program_name (s : World φ) : CString := string_at kernel_page s.kernel.memory (arguments s) 511

/-- The indices that the sixth call writes its path at. -/
def command6_written (before : Nat → UInt8) (s : World φ) : List Nat :=
  if (filename s).1 < 0 then [] else (command6_path before (filename s).2.1).written
/-- The indices that the seventh call writes its path at. -/
def command7_written (before : Nat → UInt8) (s : World φ) : List Nat :=
  if arguments s = 0 ∨ s.kernel.memory (arguments s) = 0x00 then [] else (command7_path before (program_name s)).written

/-- All of them are in the array. -/
def Inside (written : List Nat) : Prop := ∀ i ∈ written, i < SIMPOS_MAX_PATH

end

/-! ### The copies -/

theorem strncpy_loop_eq (dest : Nat) : ∀ (remaining : Nat) (src : CString) (i : Nat) (path : Buffer),
    strncpy_loop dest remaining src i path = strcpy path (dest + i) (src.take remaining)
  | 0, _, _, _ => rfl
  | _ + 1, [], _, _ => rfl
  | remaining + 1, c :: src, i, path => strncpy_loop_eq dest remaining src (i + 1) (path.store (dest + i) c)

/-- A bounded copy is a copy of what is in front of the bound. -/
theorem strncpy_eq (path : Buffer) (dest : Nat) (src : CString) (count : Nat) :
    strncpy path dest src count = strcpy path dest (src.take (count - 1)) := strncpy_loop_eq dest _ src 0 path

/-- A copy writes its string and the zero behind it. -/
theorem strcpy_written {src : CString} {path : Buffer} {dest i : Nat} :
    i ∈ (strcpy path dest src).written ↔ i ∈ path.written ∨ dest ≤ i ∧ i ≤ dest + src.length := by
  induction src generalizing path dest with
  | nil =>
    rw [strcpy,Buffer.store,List.mem_append,List.mem_singleton,List.length_nil]
    exact or_congr_right ⟨fun last => by omega,fun range => by omega⟩
  | cons c src ih =>
    rw [strcpy,ih,Buffer.store,List.mem_append,List.mem_singleton,or_assoc,List.length_cons]
    exact or_congr_right ⟨fun place => by omega,fun range => by omega⟩

/-- The array holds the string from an index on. -/
structure Holds (path : Buffer) (start : Nat) (text : CString) : Prop where
  each : ∀ j (inside : j < text.length), path.bytes (start + j) = text[j]
  ends : path.bytes (start + text.length) = 0

theorem strcpy_before {src : CString} {path : Buffer} {dest i : Nat} (before : i < dest) :
    (strcpy path dest src).bytes i = path.bytes i := by
  induction src generalizing path dest with
  | nil => exact update_of_ne (Nat.ne_of_lt before) ..
  | cons c src ih =>
    rw [strcpy,ih (Nat.lt_succ_of_lt before)]
    exact update_of_ne (Nat.ne_of_lt before) ..

theorem strcpy_holds (path : Buffer) (dest : Nat) (src : CString) : Holds (strcpy path dest src) dest src := by
  induction src generalizing path dest with
  | nil => exact ⟨fun j none => absurd none (Nat.not_lt_zero j),update_self ..⟩
  | cons c src ih =>
    have rest := ih (path.store dest c) (dest + 1)
    refine ⟨fun j inside => ?_,?_⟩
    · cases j with
      | zero => exact (strcpy_before (Nat.lt_succ_self dest)).trans (update_self ..)
      | succ j =>
        rw [show dest + (j + 1) = dest + 1 + j by omega]
        exact rest.each j (Nat.lt_of_succ_lt_succ inside)
    · rw [List.length_cons,show dest + (src.length + 1) = dest + 1 + src.length by omega]
      exact rest.ends

/-- A string copied behind another one takes the place of its zero. -/
theorem strcpy_joined {path : Buffer} {text : CString} (holds : Holds path 0 text) (src : CString) :
    Holds (strcpy path text.length src) 0 (text ++ src) := by
  have behind := strcpy_holds path text.length src
  refine ⟨fun j inside => ?_,?_⟩
  · rw [Nat.zero_add]
    by_cases front : j < text.length
    · rw [strcpy_before front,List.getElem_append_left front,← holds.each j front,Nat.zero_add]
    · rw [List.length_append] at inside
      rw [List.getElem_append_right (Nat.le_of_not_lt front),← behind.each _ (by omega)]
      congr 1
      omega
  · rw [Nat.zero_add,List.length_append]
    exact behind.ends

/-- The copy into the array of the seventh call stops at the bound of the array, wherever it starts. -/
theorem string_at_take (place : Place) (m : Bytes) : ∀ (v n k : Nat), k ≤ n →
    (string_at place m v n).take k = string_at place m v k
  | _, _, 0, _ => List.take_zero
  | v, n + 1, k + 1, shorter => by
    rw [string_at,string_at]
    split_ifs
    · rfl
    · rw [List.take_succ_cons,string_at_take place m (offset v 1) n k (Nat.le_of_succ_le_succ shorter)]

/-- What the array holds of the path is the path that `isr80h_command6_process_load_start` loads. -/
theorem command6_path_holds (before : Nat → UInt8) (name : CString) : Holds (command6_path before name) 0 (drive ++ name) :=
  strcpy_joined (strcpy_holds _ 0 drive) name

/-- And the path that `isr80h_command7_invoke_system_command` loads. -/
theorem command7_path_holds (before : Nat → UInt8) {φ : Type} (s : World φ) : Holds (command7_path before (program_name s)) 0
    (drive ++ string_at kernel_page s.kernel.memory (arguments s) (SIMPOS_MAX_PATH - 1)) := by
  rw [command7_path,strncpy_eq,program_name,string_at_take _ _ _ _ _ (by decide)]
  exact strcpy_joined (strcpy_holds _ 0 drive) _

/-! ### The indices -/

/-- A path is in its array if the drive, the name and the zero have room there. -/
theorem strcpy_inside_iff (before : Nat → UInt8) (name : CString) :
    Inside (strcpy (strcpy ⟨before, []⟩ 0 drive) 3 name).written ↔ name.length ≤ 104 := by
  constructor
  · intro inside
    have last := inside (3 + name.length) (strcpy_written.mpr (.inr ⟨Nat.le_add_right _ _,Nat.le_refl _⟩))
    simp only [SIMPOS_MAX_PATH] at last
    omega
  · intro short i member
    rw [strcpy_written,strcpy_written] at member
    rcases member with (none | ⟨_,front⟩) | ⟨_,behind⟩
    · exact absurd none List.not_mem_nil
    · exact Nat.lt_of_le_of_lt front (by decide)
    · simp only [SIMPOS_MAX_PATH]
      omega

theorem command6_inside_iff (before : Nat → UInt8) (name : CString) :
    Inside (command6_path before name).written ↔ name.length ≤ 104 := strcpy_inside_iff before name

theorem command7_inside_iff (before : Nat → UInt8) (name : CString) :
    Inside (command7_path before name).written ↔ name.length ≤ 104 := by
  rw [command7_path,strncpy_eq,strcpy_inside_iff,List.length_take]
  simp only [SIMPOS_MAX_PATH]
  omega

theorem inside_nil : Inside [] := fun _ none => absurd none List.not_mem_nil

/-- Both paths stay in their arrays if the names that there are have no more than 104 bytes. -/
theorem paths_inside_iff {φ : Type} (before : Nat → UInt8) (s : World φ) :
    (Inside (command6_written before s) ↔ (filename s).1 < 0 ∨ (filename s).2.1.length ≤ 104) ∧
    (Inside (command7_written before s) ↔ arguments s = 0 ∨ (program_name s).length ≤ 104) := by
  constructor
  · unfold command6_written
    by_cases failed : (filename s).1 < 0
    · rw [if_pos failed]
      exact iff_of_true inside_nil (.inl failed)
    · rw [if_neg failed,command6_inside_iff]
      exact (or_iff_right failed).symm
  · unfold command7_written
    by_cases none : arguments s = 0
    · rw [if_pos (.inl none)]
      exact iff_of_true inside_nil (.inl none)
    by_cases empty : s.kernel.memory (arguments s) = 0x00
    · have name : program_name s = [] := by
        rw [program_name,string_at]
        exact if_pos empty
      rw [if_pos (.inr empty),name]
      exact iff_of_true inside_nil (.inr (by decide))
    · rw [if_neg (not_or.mpr ⟨none,empty⟩),command7_inside_iff]
      exact (or_iff_right none).symm

/-! ### A program with a long name -/

/-- The task passes the address of 105 letters. -/
def longWord (a : Nat) : Nat :=
  if 0x5000 ≤ a ∧ a < 0x5068 then 0x61616161
  else if a = 0x5068 then 0x61
  else ProgramArguments.callWord 0x400000 a
def longWorld : World Unit :=
  { ProgramArguments.callWorld 0x400000 with
    kernel := ⟨wordMemory longWord, (ProgramArguments.callWorld 0x400000).kernel.kernel_heap⟩ }

/-- The zero behind them is written outside of the array, and so is that of as many letters that the sixth call has
    copied in. -/
theorem long_name_outside : (program_name longWorld).length = 105 ∧ ¬Inside (command7_written (fun _ => 0) longWorld) ∧
    ¬Inside (command6_path (fun _ => 0) (List.replicate 105 97)).written := by
  have name : arguments longWorld ≠ 0 ∧ longWorld.kernel.memory (arguments longWorld) ≠ 0x00 ∧
      (program_name longWorld).length = 105 := by decide +kernel
  obtain ⟨some,nonempty,length⟩ := name
  refine ⟨length,fun inside => ?_,fun inside => ?_⟩
  · rw [command7_written,if_neg (not_or.mpr ⟨some,nonempty⟩),command7_inside_iff,length] at inside
    exact absurd inside (by decide)
  · rw [command6_inside_iff,List.length_replicate] at inside
    exact absurd inside (by decide)

end SimpOS.PathBuffers
