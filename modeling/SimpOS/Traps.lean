import SimpOS.CurrentProcess
import SimpOS.InterruptTables
import SimpOS.KeyboardDriver
import SimpOS.Terminal
import SimpOS.TrapStubs

/-!
The kernel as a program meets it: interrupt 0x80 with its commands, the keyboard and exceptions,
as `idt/idt.c` and `isr80h/isr80h.c` hand them out. A handler that comes back leaves the program
its registers; one that switches goes on with the registers of a task, as they were saved.
-/
namespace SimpOS.Traps
open SimpOS.Machine SimpOS.Memory SimpOS.Strings SimpOS.KernelHeap SimpOS.LinkedLists SimpOS.TaskList SimpOS.TaskMemory
open SimpOS.Processes SimpOS.ProcessLoads SimpOS.ProcessCalls SimpOS.Keyboard SimpOS.KeyboardDriver SimpOS.Terminal
open SimpOS.InterruptTables SimpOS.CurrentProcess SimpOS.FatSystem SimpOS.Runs
open SimpOS.TrapStubs (framed)
open SimpOS.AddressSpaces (InSpace)
open SimpOS.Extents (Extent)
open SimpOS.Isolation (blockOf)

inductive Command
  | isr80h_command0_sum
  | isr80h_command1_print
  | isr80h_command2_getkey
  | isr80h_command3_putchar
  | isr80h_command4_malloc
  | isr80h_command5_free
  | isr80h_command6_process_load_start
  | isr80h_command7_invoke_system_command
  | isr80h_command8_get_program_arguments
  | isr80h_command9_exit
deriving DecidableEq, Repr

inductive Callback
  | idt_handle_exception
  | classic_keyboard_handle_interrupt
deriving DecidableEq, Repr

@[simp] abbrev ISR_KEYBOARD_INTERRUPT : Int := 0x21

/-- The table after the registrations of `isr80h_register_commands`, if none panics. -/
def isr80h_register_commands (isr80h_commands : Nat → Option Command) : Option (Nat → Option Command) :=
  registered isr80h_commands [(0,.isr80h_command0_sum),(1,.isr80h_command1_print),(2,.isr80h_command2_getkey),
    (3,.isr80h_command3_putchar),(4,.isr80h_command4_malloc),(5,.isr80h_command5_free),
    (6,.isr80h_command6_process_load_start),(7,.isr80h_command7_invoke_system_command),
    (8,.isr80h_command8_get_program_arguments),(9,.isr80h_command9_exit)]
def isr80h_commands : Nat → Option Command := (isr80h_register_commands fun _ => none).getD fun _ => none

/-- The callbacks that `idt_init` and `classic_keyboard_init` register. -/
def interrupt_callbacks : Nat → Option Callback :=
  (idt_register_interrupt_callback (register_exceptions .idt_handle_exception (fun _ => none) 0x20) ISR_KEYBOARD_INTERRUPT
    .classic_keyboard_handle_interrupt).2

variable {φ : Type}

/-- The kernel with its keyboard and its screen. -/
structure System (φ : Type) where
  desk : Desk φ
  screen : Screen

def System.world (s : System φ) : World φ := s.desk.world
def System.setWorld (s : System φ) (world : World φ) : System φ := { s with desk := { s.desk with world := world } }

/-- A handler comes back with a value, or ends with `task_return` for the current task. -/
inductive Outcome
  | result (v : Nat)
  | switched
deriving DecidableEq, Repr

/-! ### The commands -/

/-- The values are pointers, of which the first is moved on by the second. -/
def isr80h_command0_sum (s : World φ) : Nat :=
  let value1 := i32 (task_get_stack_item (task_current s) 0 s)
  let value2 := i32 (task_get_stack_item (task_current s) 1 s)
  u32 (value1 + value2)

/-- What is printed where no string is copied is the buffer as it was on the stack. -/
def isr80h_command1_print (buf : CString) (s : System φ) : System φ :=
  let user_space_msg_buffer := task_get_stack_item (task_current s.world) 0 s.world
  let (res, copied, world) := copy_string_from_task (task_current s.world) user_space_msg_buffer 1024 s.world
  { s.setWorld world with screen := print (if res < 0 then buf else copied) s.screen }

/-- The character is signed. -/
def isr80h_command2_getkey (s : World φ) : Nat × World φ :=
  let (c, s) := keyboard_pop s
  (u32 c.toInt8.toInt, s)

def isr80h_command3_putchar (s : System φ) : System φ :=
  let c := UInt8.ofNat (task_get_stack_item (task_current s.world) 0 s.world)
  { s with screen := terminal_writechar c COLOR_WHITE s.screen }

def isr80h_command4_malloc (s : World φ) : Nat × World φ :=
  let size := u32 (i32 (task_get_stack_item (task_current s) 0 s))
  s.process_malloc (s.task (task_current s)).process size

/-- `process_free` on a process of the table. -/
def process_free (process ptr : Nat) (s : World φ) : World φ :=
  let (k, after) := ProcessMemory.process_free s.kernel (s.memoryOf process) ptr
  (s.withKernel k).setProcess process fun v => { v with allocations := after.allocations }

def isr80h_command5_free (s : World φ) : World φ :=
  let ptr_to_free := task_get_stack_item (task_current s) 0 s
  process_free (s.task (task_current s)).process ptr_to_free s

section
variable (services : FileServices φ)

/-- `isr80h_command6_process_load_start` with the way it ends. -/
def process_load_start (s : World φ) : Except Stop (Outcome × World φ) := do
  let filename_user_ptr := task_get_stack_item (task_current s) 0 s
  let (res, filename, s) := copy_string_from_task (task_current s) filename_user_ptr SIMPOS_MAX_PATH s
  if res < 0 then return (.result 0, s)
  let path : CString := [48, 58, 47] ++ filename
  let (res, process, s) ← process_load_switch services path s
  if res < 0 then return (.result 0, s)
  return (.switched, task_switch (s.process process).task s)

def invoke_system_command (s : World φ) : Except Stop (Outcome × World φ) := do
  let (res, s) ← isr80h_command7_invoke_system_command services s
  return (if res < 0 then .result (ERROR res) else .switched, s)

/-! ### Dispatch -/

/-- The function that has been registered. -/
def command_func (buf : CString) (s : System φ) : Command → Except Stop (Outcome × System φ)
  | .isr80h_command0_sum => .ok (.result (isr80h_command0_sum s.world), s)
  | .isr80h_command1_print => .ok (.result 0, isr80h_command1_print buf s)
  | .isr80h_command2_getkey =>
    let (v, world) := isr80h_command2_getkey s.world
    .ok (.result v, s.setWorld world)
  | .isr80h_command3_putchar => .ok (.result 0, isr80h_command3_putchar s)
  | .isr80h_command4_malloc =>
    let (v, world) := isr80h_command4_malloc s.world
    .ok (.result v, s.setWorld world)
  | .isr80h_command5_free => .ok (.result 0, s.setWorld (isr80h_command5_free s.world))
  | .isr80h_command6_process_load_start => do
    let (outcome, world) ← process_load_start services s.world
    return (outcome, s.setWorld world)
  | .isr80h_command7_invoke_system_command => do
    let (outcome, world) ← invoke_system_command services s.world
    return (outcome, s.setWorld world)
  | .isr80h_command8_get_program_arguments => .ok (.result 0, s.setWorld (isr80h_command8_get_program_arguments s.world))
  | .isr80h_command9_exit => do
    let world ← isr80h_command9_exit s.world
    return (.switched, s.setWorld world)

def isr80h_handle_command (buf : CString) (command : Int) (s : System φ) : Except Stop (Outcome × System φ) :=
  match isr80h_command isr80h_commands command with
  | none => .ok (.result 0, s)
  | some command => command_func services buf s command

def task_current_save_state (frame : Registers) (s : World φ) : Except Stop (World φ) :=
  if task_current s = 0 then .error .panic
  else .ok (s.setTask (task_current s) fun task => { task with registers := frame })

def isr80h_handler (buf : CString) (command : Int) (frame : Registers) (s : System φ) : Except Stop (Outcome × System φ) := do
  let world ← task_current_save_state frame s.world
  isr80h_handle_command services buf command (s.setWorld world)

end

/-- The scancode is what the keyboard gives when it is asked. -/
def callback_func (behind scancode : UInt8) (s : System φ) : Callback → Except Stop (Outcome × System φ)
  | .idt_handle_exception => do
    let world ← idt_handle_exception s.world
    return (.switched, s.setWorld world)
  | .classic_keyboard_handle_interrupt =>
    .ok (.result 0, { s with desk := classic_keyboard_handle_interrupt behind scancode s.desk })

def interrupt_handler (behind scancode : UInt8) (interrupt : Nat) (frame : Registers) (s : System φ) :
    Except Stop (Outcome × System φ) := do
  match interrupt_callbacks interrupt with
  | none => .ok (.result 0, s)
  | some interrupt_callback => do
    let world ← task_current_save_state frame s.world
    callback_func behind scancode (s.setWorld world) interrupt_callback

/-! ### Programs that run -/

/-- The kernel and the registers of the program that runs. -/
structure Machine (φ : Type) where
  system : System φ
  cpu : Registers

def Machine.world (m : Machine φ) : World φ := m.system.world

/-- What `task_return` puts in the processor. -/
def task_return (registers : Registers) : Registers := { registers with flags := registers.flags ||| 0x200 }

/-- Where a program runs again: the one that was interrupted, or the one that was switched to. -/
def Machine.resume (returned : Nat → Registers) : Outcome × System φ → Machine φ
  | (.result v, system) => ⟨system, returned v⟩
  | (.switched, system) => ⟨system, task_return (system.world.task (task_current system.world)).registers⟩

inductive Event
  | compute (written : Nat → Prop)
  | system_call (buf : CString)
  | interrupt (interrupt : Nat) (error : Option Nat) (scancode : UInt8)

/-- What a command writes where its program has it write: the block that is cleared for a size, and the
    two words behind a pointer. -/
def answered (s : World φ) : Command → Nat → Prop
  | .isr80h_command4_malloc, b =>
    let size := u32 (i32 (task_get_stack_item (task_current s) 0 s))
    ∃ i < size, b = offset (kzalloc s.kernel size).1 i
  | .isr80h_command8_get_program_arguments, b =>
    let arguments := task_virtual_address_to_physical (task_current s) (task_get_stack_item (task_current s) 0 s) s
    ∃ i < 8, b = offset arguments i
  | _, _ => False

/-- What the kernel keeps of a registered process: its structure, the record of its ELF file, its task, and the
    task's page directory with its tables. -/
def processRecords (s : World φ) (p b : Nat) : Prop :=
  let v := s.process p
  let page_directory := (s.task v.task).page_directory
  (p ≤ b ∧ b < p + 9364) ∨ (v.filetype = .ELF ∧ v.ptr ≤ b ∧ b < v.ptr + 132) ∨ (v.task ≤ b ∧ b < v.task + 64) ∨
    (page_directory ≤ b ∧ b < page_directory + 4) ∨ InSpace s.kernel.memory (s.chunk page_directory).directory_entry b

/-- Where the kernel keeps its own records: below its heap, in the blocks that its start and the file layer hold,
    and in those of the registered processes. -/
def kernelRecords (own : φ → List Extent) (s : World φ) (b : Nat) : Prop :=
  b < SIMPOS_HEAP_ADDRESS ∨ (∃ e ∈ own s.files, blockOf b ∈ e) ∨
    ∃ i, s.processes i ≠ 0 ∧ processRecords s (s.processes i) b

/-- No byte of the records of the kernel is written, neither by a program nor on its behalf. -/
def Apart (own : φ → List Extent) (m : Machine φ) : Event → Prop
  | .compute written => ∀ b, written b → ¬kernelRecords own m.world b
  | .system_call _ => ∀ world, task_current_save_state m.cpu m.world = .ok world →
      ∀ command, isr80h_command isr80h_commands (i32 m.cpu.eax) = some command →
        ∀ b, answered world command b → ¬kernelRecords own world b
  | .interrupt _ _ _ => True

/-- A program goes on by itself: it writes memory, and it can neither change its segments nor turn
    interrupts off. -/
structure Computed (written : Nat → Prop) (m n : Machine φ) : Prop where
  system : ∃ memory, (∀ b, ¬written b → memory b = m.world.kernel.memory b) ∧
    n.system = m.system.setWorld (m.world.withKernel { m.world.kernel with memory := memory })
  cs : n.cpu.cs = m.cpu.cs
  ss : n.cpu.ss = m.cpu.ss
  interrupts : n.cpu.flags.testBit 9 = m.cpu.flags.testBit 9

/-- A step that writes records may lead anywhere. Only exceptions have error codes. -/
def Step (services : FileServices φ) (own : φ → List Extent) (behind : UInt8) (m : Machine φ) (e : Event)
    (n : Machine φ) : Prop := Apart own m e → match e with
  | .compute written => Computed written m n
  | .system_call buf => (isr80h_handler services buf (i32 m.cpu.eax) m.cpu m.system).map
      (Machine.resume fun v => { m.cpu with eax := v }) = .ok n
  | .interrupt interrupt error scancode => (error ≠ none → interrupt < 0x20) ∧
      (interrupt_handler behind scancode interrupt (framed error m.cpu) m.system).map
        (Machine.resume fun _ => m.cpu) = .ok n

end SimpOS.Traps
