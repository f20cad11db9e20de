import SimpOS.ElfMapping
import SimpOS.FatSystem
import SimpOS.PageDirectories
import SimpOS.TaskList
import SimpOS.TaskMemory

/-!
The processes of `task/process.c` and their tasks of `task/task.c`: the table of processes,
how a program is loaded, switched to and terminated. Structures on the heap are given by
their addresses; the links of the tasks are those of the task list. The file layer is
given by the calls that loading makes, over the state φ of what it keeps.
-/
namespace SimpOS.Processes
open SimpOS.Machine SimpOS.Memory SimpOS.Strings SimpOS.Paging SimpOS.KernelHeap SimpOS.PageDirectories SimpOS.ProcessMemory
open SimpOS.ElfLoader SimpOS.ElfMapping SimpOS.TaskList SimpOS.TaskMemory SimpOS.FatSystem

@[simp] abbrev EISTKN : Int := 8
@[simp] abbrev SIMPOS_MAX_PROCESSES : Nat := 12
@[simp] abbrev SIMPOS_USER_PROGRAM_STACK_SIZE : Nat := 1024 * 16
@[simp] abbrev SIMPOS_PROGRAM_VIRTUAL_STACK_ADDRESS_START : Nat := 0x3FF000
@[simp] abbrev SIMPOS_PROGRAM_VIRTUAL_STACK_ADDRESS_END : Nat :=
  SIMPOS_PROGRAM_VIRTUAL_STACK_ADDRESS_START - SIMPOS_USER_PROGRAM_STACK_SIZE
@[simp] abbrev USER_DATA_SEGMENT : Nat := 0x23
@[simp] abbrev USER_CODE_SEGMENT : Nat := 0x1b

/-- How the kernel comes to a stop. -/
inductive Stop
  | panic
  | endless
  | files (halt : Halt)
deriving DecidableEq, Repr

inductive Filetype
  | ELF
  | BINARY
deriving DecidableEq, Repr

structure KeyboardBuffer where
  buffer : Nat → UInt8
  tail : Int
  head : Int

structure ProcessArguments where
  argc : Int
  argv : Nat
deriving DecidableEq, Repr

/-- `struct process`; ptr is the union of the pointers to the binary and to the ELF file. -/
structure Process where
  id : Nat
  filename : CString
  task : Nat
  allocations : Nat → ProcessAllocation
  filetype : Filetype
  ptr : Nat
  stack : Nat
  size : Nat
  keyboard : KeyboardBuffer
  arguments : ProcessArguments

structure Registers where
  edi : Nat
  esi : Nat
  ebp : Nat
  ebx : Nat
  edx : Nat
  ecx : Nat
  eax : Nat
  ip : Nat
  cs : Nat
  flags : Nat
  esp : Nat
  ss : Nat
deriving DecidableEq, Repr

/-- `struct task` but for its links. -/
structure TaskFields where
  page_directory : Nat
  registers : Registers
  process : Nat
deriving DecidableEq, Repr

def Process.zero : Process := ⟨0, [], 0, fun _ => ⟨0, 0⟩, .ELF, 0, 0, 0, ⟨fun _ => 0, 0, 0⟩, ⟨0, 0⟩⟩
def Registers.zero : Registers := ⟨0, 0, 0, 0, 0, 0, 0, 0, 0, 0, 0, 0⟩
def TaskFields.zero : TaskFields := ⟨0, .zero, 0⟩

variable {φ : Type}

/-- The kernel with its processes: the table, the structures by their addresses, and the rest. -/
structure World (φ : Type) where
  processes : Nat → Nat
  current_process : Nat
  process : Nat → Process
  task : Nat → TaskFields
  links : Tasks
  elf_file : Nat → ElfFile
  files : φ
  kernel : Kernel

/-- What loading calls in the file layer. The size is the one in the structure that `fstat` fills. -/
structure FileServices (φ : Type) where
  fopen : CString → CString → φ → Kernel → Except Stop (Int × φ × Kernel)
  fstat : Int → φ → Kernel → Except Stop ((Int × Nat) × φ × Kernel)
  fread : Nat → Nat → Nat → Int → φ → Kernel → Except Stop (Int × φ × Kernel)
  fclose : Int → φ → Kernel → Except Stop (Int × φ × Kernel)

def World.onFiles {α : Type} (s : World φ) (call : φ → Kernel → Except Stop (α × φ × Kernel)) :
    Except Stop (α × World φ) :=
  (call s.files s.kernel).map fun (result, files, kernel) => (result, { s with files := files, kernel := kernel })
def World.setProcess (s : World φ) (process : Nat) (set : Process → Process) : World φ :=
  { s with process := Function.update s.process process (set (s.process process)) }
def World.setTask (s : World φ) (task : Nat) (set : TaskFields → TaskFields) : World φ :=
  { s with task := Function.update s.task task (set (s.task task)) }
def World.setElf (s : World φ) (elf_file : Nat) (set : ElfFile → ElfFile) : World φ :=
  { s with elf_file := Function.update s.elf_file elf_file (set (s.elf_file elf_file)) }
def World.kzalloc (s : World φ) (size : Nat) : Nat × World φ :=
  let (ptr, k) := KernelHeap.kzalloc s.kernel size
  (ptr, { s with kernel := k })
def World.kfree (s : World φ) (ptr : Nat) : World φ := { s with kernel := KernelHeap.kfree s.kernel ptr }
def World.withKernel (s : World φ) (k : Kernel) : World φ := { s with kernel := k }

/-- The directory that a chunk points to. -/
def World.chunk (s : World φ) (page_directory : Nat) : Paging4gbChunk := ⟨read32 s.kernel.memory page_directory⟩
/-- The part of a process that its allocations are about. -/
def World.memoryOf (s : World φ) (process : Nat) : ProcessMemory.Process :=
  ⟨(s.process process).allocations, s.chunk (s.task (s.process process).task).page_directory⟩

/-- `process_malloc` and `process_terminate_allocations` on a process of the table. -/
def World.process_malloc (s : World φ) (process size : Nat) : Nat × World φ :=
  let (ptr, k, after) := ProcessMemory.process_malloc s.kernel (s.memoryOf process) size
  (ptr, (s.withKernel k).setProcess process fun v => { v with allocations := after.allocations })
def World.process_terminate_allocations (s : World φ) (process : Nat) : World φ :=
  let (k, after) := ProcessMemory.process_terminate_allocations s.kernel (s.memoryOf process)
  (s.withKernel k).setProcess process fun v => { v with allocations := after.allocations }

/-! ### Tasks -/

def paging_map_chunk (s : World φ) (page_directory virt phys phys_end flags : Nat) : Int × World φ :=
  let (res, memory) := paging_map_to s.kernel.memory (s.chunk page_directory) virt phys phys_end flags
  (res, s.withKernel { s.kernel with memory := memory })

def task_free (task : Nat) (s : World φ) : World φ :=
  let s := s.withKernel (paging_free_4gb s.kernel (s.task task).page_directory)
  let s := { s with links := task_list_remove s.links task }
  s.kfree task

def task_init (task process : Nat) (s : World φ) : Int × World φ :=
  let s := { s with links.task := Function.update s.links.task task ⟨0, 0⟩ }
  let (page_directory, k) := paging_new_4gb s.kernel 5
  let s := (s.withKernel k).setTask task fun _ => { TaskFields.zero with page_directory := page_directory }
  if page_directory = 0 then (-Machine.EIO, s)
  else
    let ip := match (s.process process).filetype with
      | .ELF => e_entry s.kernel.memory (elf_header (s.elf_file (s.process process).ptr))
      | .BINARY => SIMPOS_PROGRAM_VIRTUAL_ADDRESS
    let registers := { Registers.zero with
      ip := ip, ss := USER_DATA_SEGMENT, cs := USER_CODE_SEGMENT, esp := SIMPOS_PROGRAM_VIRTUAL_STACK_ADDRESS_START }
    (0, s.setTask task fun v => { v with registers := registers, process := process })

/-- The pointer to the task, or an error code in its place. -/
def task_new (process : Nat) (s : World φ) : Nat × World φ :=
  let (task, s) := s.kzalloc 64
  if task = 0 then (ERROR (-ENOMEM), task_free task s)
  else
    let (res, s) := task_init task process s
    if res ≠ 0 then (ERROR res, task_free task s)
    else (task, { s with links := TaskList.task_new s.links task })

def task_switch (task : Nat) (s : World φ) : World φ := { s with links := TaskList.task_switch s.links task }

def task_next (s : World φ) : Except Stop (World φ) :=
  let next_task := task_get_next s.links
  if next_task = 0 then .error .panic else .ok (task_switch next_task s)

/-! ### Loading -/

section
variable (services : FileServices φ)

def elf_file_free (elf_file : Nat) (s : World φ) : World φ :=
  let s := if (s.elf_file elf_file).elf_memory ≠ 0 then s.kfree (s.elf_file elf_file).elf_memory else s
  s.kfree elf_file

def elf_close (elf_file : Nat) (s : World φ) : World φ :=
  if elf_file = 0 then s else (s.kfree (s.elf_file elf_file).elf_memory).kfree elf_file

/-- What `elf_load` does once the size of its file is known. -/
def elf_load_file (elf_file file_size : Nat) (fd : Int) (s : World φ) : Except Stop (Int × World φ) := do
  let (elf_memory, s) := s.kzalloc file_size
  let s := s.setElf elf_file fun v => { v with elf_memory := elf_memory }
  let (res, s) ← s.onFiles (services.fread elf_memory file_size 1 fd)
  if res < 0 then return (res, s)
  let (res, loaded) := elf_process_loaded s.kernel.memory (s.elf_file elf_file)
  return (res, s.setElf elf_file fun _ => loaded)

def elf_load_opened (elf_file : Nat) (fd : Int) (s : World φ) : Except Stop (Int × World φ) := do
  let ((res, file_size), s) ← s.onFiles (services.fstat fd)
  if res < 0 then return (res, s)
  elf_load_file services elf_file file_size fd s

/-- The result and what the pointer to the loaded file is set to. -/
def elf_load (filename : CString) (s : World φ) : Except Stop (Int × Nat × World φ) := do
  let (elf_file, s) := s.kzalloc 132
  let s := if elf_file ≠ 0 then s.setElf elf_file fun _ => ⟨0, 0, 0, 0, 0⟩ else s
  let (fd, s) ← s.onFiles (services.fopen filename [114])
  if fd ≤ 0 then return (-Machine.EIO, 0, s)
  let (res, s) ← elf_load_opened services elf_file fd s
  let file_out := if res < 0 then 0 else elf_file
  let s := if res < 0 then elf_file_free elf_file s else s
  let (_, s) ← s.onFiles (services.fclose fd)
  return (res, file_out, s)

def process_load_binary (filename : CString) (process : Nat) (s : World φ) : Except Stop (Int × World φ) := do
  let (fd, s) ← s.onFiles (services.fopen filename [114])
  if fd = 0 then return (-Machine.EIO, s)
  let ((res, file_size), s) ← s.onFiles (services.fstat fd)
  if res ≠ 0 then
    let (_, s) ← s.onFiles (services.fclose fd)
    return (res, s)
  let (program_data_ptr, s) := s.kzalloc file_size
  if program_data_ptr = 0 then
    let (_, s) ← s.onFiles (services.fclose fd)
    return (-ENOMEM, s)
  let (count, s) ← s.onFiles (services.fread program_data_ptr file_size 1 fd)
  if count ≠ 1 then
    let (_, s) ← s.onFiles (services.fclose fd)
    return (-Machine.EIO, s.kfree program_data_ptr)
  let s := s.setProcess process fun v =>
    { v with filetype := .BINARY, ptr := program_data_ptr, size := file_size }
  let (_, s) ← s.onFiles (services.fclose fd)
  return (res, s)

def process_load_elf (filename : CString) (process : Nat) (s : World φ) : Except Stop (Int × World φ) := do
  let (res, elf_file, s) ← elf_load services filename s
  if res < 0 then return (res, s)
  return (res, s.setProcess process fun v => { v with filetype := .ELF, ptr := elf_file })

def process_load_data (filename : CString) (process : Nat) (s : World φ) : Except Stop (Int × World φ) := do
  let (res, s) ← process_load_elf services filename process s
  if res = -EINFORMAT then process_load_binary services filename process s else return (res, s)

end

def process_map_binary (process : Nat) (s : World φ) : Int × World φ :=
  let v := s.process process
  paging_map_chunk s (s.task v.task).page_directory SIMPOS_PROGRAM_VIRTUAL_ADDRESS v.ptr
    (paging_align_address (offset v.ptr v.size)) (PAGING_IS_PRESENT ||| PAGING_ACCESS_FROM_ALL ||| PAGING_IS_WRITEABLE)

def map_elf_file (process : Nat) (s : World φ) : Int × World φ :=
  let v := s.process process
  let (res, memory) := process_map_elf s.kernel.memory (s.chunk (s.task v.task).page_directory) (s.elf_file v.ptr)
  (res, s.withKernel { s.kernel with memory := memory })

def process_map_program (process : Nat) (s : World φ) : Int × World φ :=
  match (s.process process).filetype with
  | .ELF => map_elf_file process s
  | .BINARY => process_map_binary process s

def process_map_stack (process : Nat) (s : World φ) : Int × World φ :=
  let v := s.process process
  paging_map_chunk s (s.task v.task).page_directory SIMPOS_PROGRAM_VIRTUAL_STACK_ADDRESS_END v.stack
    (paging_align_address (offset v.stack SIMPOS_USER_PROGRAM_STACK_SIZE))
    (PAGING_IS_PRESENT ||| PAGING_ACCESS_FROM_ALL ||| PAGING_IS_WRITEABLE)

/-- The result of mapping the stack is not looked at. -/
def process_map_memory (process : Nat) (s : World φ) : Int × World φ :=
  let (res, s) := process_map_program process s
  if res < 0 then (res, s) else (res, (process_map_stack process s).2)

def process_free_program_data (process : Nat) (s : World φ) : World φ :=
  let v := s.process process
  if v.ptr = 0 then s
  else
    match v.filetype with
    | .BINARY => s.kfree v.ptr
    | .ELF => elf_close v.ptr s

def process_free_process (process : Nat) (s : World φ) : World φ :=
  let s := s.process_terminate_allocations process
  let s := process_free_program_data process s
  let s := if (s.process process).stack ≠ 0 then
    (s.kfree (s.process process).stack).setProcess process fun v => { v with stack := 0 } else s
  let s := if (s.process process).task ≠ 0 then
    (task_free (s.process process).task s).setProcess process fun v => { v with task := 0 } else s
  s.kfree process

def process_get_free_slot_loop (processes : Nat → Nat) : Nat → Nat → Int
  | 0, _ => -EISTKN
  | remaining + 1, i => if processes i = 0 then (i : Int) else process_get_free_slot_loop processes remaining (i + 1)
def process_get_free_slot (s : World φ) : Int := process_get_free_slot_loop s.processes SIMPOS_MAX_PROCESSES 0

def process_get (s : World φ) (process_id : Int) : Nat :=
  if process_id < 0 ∨ process_id ≥ SIMPOS_MAX_PROCESSES then 0 else s.processes process_id.toNat

def process_switch (process : Nat) (s : World φ) : World φ := { s with current_process := process }

section
variable (services : FileServices φ)

/-- The program's data and its stack. -/
def process_prepare (filename : CString) (process : Nat) (s : World φ) : Except Stop (Int × World φ) := do
  let (res, s) ← process_load_data services filename process s
  if res < 0 then return (res, s)
  let (stack, s) := s.kzalloc SIMPOS_USER_PROGRAM_STACK_SIZE
  let s := s.setProcess process fun v => { v with stack := stack }
  if stack = 0 then return (-ENOMEM, s)
  return (res, s)

/-- The task of a process and its memory; a task pointer of 0 is what is taken for an error. -/
def process_attach (filename : CString) (process process_slot : Nat) (s : World φ) : Int × World φ :=
  let s := s.setProcess process fun v => { v with filename := filename.take (SIMPOS_MAX_PATH - 1), id := process_slot }
  let (task, s) := task_new process s
  let s := s.setProcess process fun v => { v with task := task }
  if i32 task = 0 then (i32 task, s.setProcess process fun v => { v with task := 0 })
  else process_map_memory process s

/-- The exit of `process_load_for_slot`, with the pointer to the process that the caller gets. -/
def process_load_out (res : Int) (process process_out : Nat) (s : World φ) : Int × Nat × World φ :=
  if res < 0 then
    if (s.process process).task ≠ 0 then (res, 0, process_free_process process s) else (res, process_out, s)
  else (res, process_out, s)

def process_load_for_slot (filename : CString) (process_slot : Int) (s : World φ) :
    Except Stop (Int × Nat × World φ) := do
  if process_get s process_slot ≠ 0 then return (EISTKN, 0, s)
  let (process, s) := s.kzalloc 9364
  if process = 0 then return (-ENOMEM, 0, s)
  let s := s.setProcess process fun _ => .zero
  let (res, s) ← process_prepare services filename process s
  if res < 0 then return process_load_out res process 0 s
  let (res, s) := process_attach filename process process_slot.toNat s
  if res < 0 ∨ (s.process process).task = 0 then return process_load_out res process 0 s
  return (res, process, { s with processes := Function.update s.processes process_slot.toNat process })

def process_load (filename : CString) (s : World φ) : Except Stop (Int × Nat × World φ) :=
  let process_slot := process_get_free_slot s
  if process_slot < 0 then .ok (-EISTKN, 0, s) else process_load_for_slot services filename process_slot s

def process_load_switch (filename : CString) (s : World φ) : Except Stop (Int × Nat × World φ) := do
  let (res, process, s) ← process_load services filename s
  if res = 0 then return (res, process, process_switch process s) else return (res, process, s)

end

/-! ### Terminating -/

def process_switch_to_any_loop (processes : Nat → Nat) : Nat → Nat → Option Nat
  | 0, _ => none
  | remaining + 1, i =>
    if processes i ≠ 0 then some (processes i) else process_switch_to_any_loop processes remaining (i + 1)
def process_switch_to_any (s : World φ) : Except Stop (World φ) :=
  match process_switch_to_any_loop s.processes SIMPOS_MAX_PROCESSES 0 with
  | some process => .ok (process_switch process s)
  | none => .error .panic

def process_unlink (process : Nat) (s : World φ) : Except Stop (World φ) :=
  let s := { s with processes := Function.update s.processes (s.process process).id 0x00 }
  if s.current_process = process then process_switch_to_any s else .ok s

def process_terminate (process : Nat) (s : World φ) : Except Stop (World φ) :=
  (process_unlink process s).map (process_free_process process)

end SimpOS.Processes
