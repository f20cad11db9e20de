import SimpOS.Processes

/-!
The system calls of `isr80h/process.c` that concern processes and their arguments, what
`idt/idt.c` does on an exception, and how `kernel.c` starts the first program. They run with the
kernel's own pages, where every address is mapped to itself, and reach the caller's memory
through addresses they translate by the caller's page directory. The buffers on the kernel's
stack are given by the strings they hold.
-/
namespace SimpOS.ProcessCalls
open SimpOS.Machine SimpOS.Memory SimpOS.Strings SimpOS.Paging SimpOS.KernelHeap SimpOS.TaskList SimpOS.TaskMemory
open SimpOS.FatSystem SimpOS.Processes

variable {φ : Type}

def task_current (s : World φ) : Nat := s.links.current_task
/-- The page directory of a task. -/
def task_directory (s : World φ) (task : Nat) : Nat := (s.chunk (s.task task).page_directory).directory_entry

/-- The item is read through the task's own pages. -/
def task_get_stack_item (task index : Nat) (s : World φ) : Nat :=
  word_at (task_page (task_directory s task)) s.kernel.memory (offset (s.task task).registers.esp (4 * index))

/-- The string is copied into a block of the kernel that the task's pages map for the time. -/
def copy_string_from_task (task virtual max : Nat) (s : World φ) : Int × CString × World φ :=
  if max ≥ PAGING_PAGE_SIZE then (-EINVARG, [], s)
  else
    let (tmp, s) := s.kzalloc max
    if tmp = 0 then (-ENOMEM, [], s)
    else
      let page_directory := s.chunk (s.task task).page_directory
      let old_entry := paging_get s.kernel.memory page_directory.directory_entry tmp
      let memory := (paging_map s.kernel.memory page_directory tmp tmp
        (PAGING_IS_WRITEABLE ||| PAGING_IS_PRESENT ||| PAGING_ACCESS_FROM_ALL)).2
      let memory := strncpy (task_page page_directory.directory_entry) memory tmp virtual max
      let (res, memory) := paging_set memory page_directory.directory_entry tmp old_entry
      let s := s.withKernel { s.kernel with memory := memory }
      if res < 0 then (-Machine.EIO, [], s.kfree tmp)
      else (res, string_at kernel_page memory tmp (max - 1), s)

def task_virtual_address_to_physical (task virtual_address : Nat) (s : World φ) : Nat :=
  paging_get_physical_address s.kernel.memory (task_directory s task) virtual_address

def store32 (s : World φ) (a v : Nat) : World φ := s.withKernel { s.kernel with memory := write32 s.kernel.memory a v }

/-! ### Arguments -/

/-- The node after a `struct command_argument`. -/
def command_argument_next (m : Bytes) (node : Nat) : Nat := read32 m (offset node 512)

/-- A walk that has not come to the end when there are no more addresses goes on for ever. -/
def process_count_command_arguments_loop (m : Bytes) : Nat → Int → Nat → Option Int
  | 0, _, _ => none
  | remaining + 1, i, current =>
    if current = 0 then some i
    else process_count_command_arguments_loop m remaining (i32 (i + 1)) (command_argument_next m current)
def process_count_command_arguments (m : Bytes) (root_argument : Nat) : Option Int :=
  process_count_command_arguments_loop m 4294967296 0 root_argument

def process_inject_arguments_loop (process argv : Nat) : Nat → Nat → Nat → World φ → Except Stop (Int × World φ)
  | 0, _, _, _ => .error .endless
  | remaining + 1, i, current, s =>
    if current = 0 then .ok (0, s)
    else
      let (argument_str, s) := s.process_malloc process 512
      if argument_str = 0 then .ok (-ENOMEM, s)
      else
        let s := s.withKernel
          { s.kernel with memory := strncpy kernel_page s.kernel.memory argument_str current 512 }
        let s := store32 s (offset argv (4 * i)) argument_str
        process_inject_arguments_loop process argv remaining (i + 1) (command_argument_next s.kernel.memory current) s

def process_inject_arguments (process root_argument : Nat) (s : World φ) : Except Stop (Int × World φ) :=
  match process_count_command_arguments s.kernel.memory root_argument with
  | none => .error .endless
  | some argc =>
    if argc = 0 then .ok (-Machine.EIO, s)
    else
      let (argv, s) := s.process_malloc process (u32 (4 * argc))
      if argv = 0 then .ok (-ENOMEM, s)
      else do
        let (res, s) ← process_inject_arguments_loop process argv 4294967296 0 root_argument s
        if res < 0 then return (res, s)
        return (res, s.setProcess process fun v => { v with arguments := ⟨argc, argv⟩ })

def process_get_arguments (process argc argv : Nat) (s : World φ) : World φ :=
  let s := store32 s argc (u32 (s.process process).arguments.argc)
  store32 s argv (s.process process).arguments.argv

/-! ### The calls -/

section
variable (services : FileServices φ)

def isr80h_command6_process_load_start (s : World φ) : Except Stop (World φ) := do
  let filename_user_ptr := task_get_stack_item (task_current s) 0 s
  let (res, filename, s) := copy_string_from_task (task_current s) filename_user_ptr SIMPOS_MAX_PATH s
  if res < 0 then return s
  let path : CString := [48, 58, 47] ++ filename
  let (res, process, s) ← process_load_switch services path s
  if res < 0 then return s
  return task_switch (s.process process).task s

/-- The error that the caller gets, or 0 where the call goes on with the new task. -/
def isr80h_command7_invoke_system_command (s : World φ) : Except Stop (Int × World φ) := do
  let arguments := task_virtual_address_to_physical (task_current s) (task_get_stack_item (task_current s) 0 s) s
  if arguments = 0 ∨ s.kernel.memory arguments = 0x00 then return (-EINVARG, s)
  let path : CString := [48, 58, 47] ++ string_at kernel_page s.kernel.memory arguments (SIMPOS_MAX_PATH - 1)
  let (res, process, s) ← process_load_switch services path s
  if res < 0 then return (res, s)
  let (res, s) ← process_inject_arguments process arguments s
  if res < 0 then return (res, s)
  return (0, task_switch (s.process process).task s)

end

def isr80h_command8_get_program_arguments (s : World φ) : World φ :=
  let process := (s.task (task_current s)).process
  let arguments := task_virtual_address_to_physical (task_current s) (task_get_stack_item (task_current s) 0 s) s
  process_get_arguments process arguments (offset arguments 4) s

def isr80h_command9_exit (s : World φ) : Except Stop (World φ) := do
  let process := (s.task (task_current s)).process
  let s ← process_terminate process s
  task_next s

def idt_handle_exception (s : World φ) : Except Stop (World φ) := do
  let s ← process_terminate (s.task (task_current s)).process s
  task_next s

/-! ### The first program -/

def task_run_first_ever_task (s : World φ) : Except Stop (World φ) :=
  if s.links.current_task = 0 then .error .panic else .ok (task_switch s.links.task_head s)

/-- What `kernel_main` does once the kernel is set up. -/
def start_shell (services : FileServices φ) (s : World φ) : Except Stop (World φ) := do
  let (res, _, s) ← process_load_switch services [48, 58, 47, 115, 104, 101, 108, 108, 46, 101, 108, 102] s
  if res ≠ 0 then .error .panic
  else task_run_first_ever_task s

end SimpOS.ProcessCalls
