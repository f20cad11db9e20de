import SimpOS.Processes
import SimpOS.SegmentTable
import SimpOS.StackCode

/-!
How a program gets into the kernel and out of it again: the stubs of `idt/idt.asm` that save its
registers in a `struct interrupt_frame` on the kernel's stack, `task_save_state` which copies them to
the `struct registers` of its task, and `task_return` of `task/task.asm` which loads them from
there. The three have the registers in three different orders.
-/
namespace SimpOS.TrapStubs
open SimpOS.Machine SimpOS.Memory SimpOS.StackCode
open SimpOS.Processes (Registers USER_CODE_SEGMENT USER_DATA_SEGMENT)
open SimpOS.SegmentTable (kernelSegments)

@[simp] abbrev KERNEL_CODE_SELECTOR : Nat := 0x08

/-- The code that the stubs call. -/
inductive Target
  | isr80h_handler
  | interrupt_handler
  | no_interrupt_handler
  | restore_general_purpose_registers
deriving DecidableEq, Repr

def isr80h_wrapper (tmp_res next : Nat) : List (Instruction Target) :=
  [.pushad, .push (.register .esp), .push (.register .eax), .call .isr80h_handler next, .store tmp_res .eax,
    .add .esp 8, .popad, .mov .eax (.variable tmp_res), .iretd]

/-- The stub of an interrupt, one of those that the macro makes. -/
def interrupt (number next : Nat) : List (Instruction Target) :=
  [.pushad, .push (.register .esp), .push (.immediate number), .call .interrupt_handler next, .add .esp 8, .popad, .iretd]

def restore_general_purpose_registers : List (Instruction Target) :=
  [.push (.register .ebp), .mov .ebp (.register .esp), .mov .ebx (.memory .ebp 8), .mov .edi (.memory .ebx 0),
    .mov .esi (.memory .ebx 4), .mov .ebp (.memory .ebx 8), .mov .edx (.memory .ebx 16), .mov .ecx (.memory .ebx 20),
    .mov .eax (.memory .ebx 24), .mov .ebx (.memory .ebx 12), .add .esp 4, .ret]

def task_return (next : Nat) : List (Instruction Target) :=
  [.mov .ebp (.register .esp), .mov .ebx (.memory .ebp 4), .push (.memory .ebx 44), .push (.memory .ebx 40),
    .mov .eax (.memory .ebx 36), .or .eax 0x200, .push (.register .eax), .push (.memory .ebx 32), .push (.memory .ebx 28),
    .mov16 .eax (.memory .ebx 44), .movSelector .ds .eax, .movSelector .es .eax, .movSelector .fs .eax,
    .movSelector .gs .eax, .push (.memory .ebp 4), .call .restore_general_purpose_registers next, .add .esp 4, .iretd]

/-- The stubs that the gates lead to. -/
inductive Stub
  | isr80h_wrapper (tmp_res : Nat)
  | interrupt (number : Nat)

def Stub.code (next : Nat) : Stub → List (Instruction Target)
  | .isr80h_wrapper tmp_res => TrapStubs.isr80h_wrapper tmp_res next
  | .interrupt number => TrapStubs.interrupt number next

/-- The handler that a stub calls and the first argument it passes. -/
def Stub.target : Stub → Target
  | .isr80h_wrapper _ => .isr80h_handler
  | .interrupt _ => .interrupt_handler
def Stub.argument : Stub → Operand
  | .isr80h_wrapper _ => .register .eax
  | .interrupt number => .immediate number

/-- `struct interrupt_frame` at an address, but for the word that is reserved. -/
def interrupt_frame (m : Bytes) (frame : Nat) : Registers where
  edi := read32 m frame
  esi := read32 m (offset frame 4)
  ebp := read32 m (offset frame 8)
  ebx := read32 m (offset frame 16)
  edx := read32 m (offset frame 20)
  ecx := read32 m (offset frame 24)
  eax := read32 m (offset frame 28)
  ip := read32 m (offset frame 32)
  cs := read32 m (offset frame 36)
  flags := read32 m (offset frame 40)
  esp := read32 m (offset frame 44)
  ss := read32 m (offset frame 48)

/-- The registers of a task are four bytes into its structure. -/
def task_save_state (m : Bytes) (task frame : Nat) : Bytes :=
  let registers := offset task 4
  let m := write32 m (offset registers 28) (interrupt_frame m frame).ip
  let m := write32 m (offset registers 32) (interrupt_frame m frame).cs
  let m := write32 m (offset registers 36) (interrupt_frame m frame).flags
  let m := write32 m (offset registers 40) (interrupt_frame m frame).esp
  let m := write32 m (offset registers 44) (interrupt_frame m frame).ss
  let m := write32 m (offset registers 24) (interrupt_frame m frame).eax
  let m := write32 m (offset registers 8) (interrupt_frame m frame).ebp
  let m := write32 m (offset registers 12) (interrupt_frame m frame).ebx
  let m := write32 m (offset registers 20) (interrupt_frame m frame).ecx
  let m := write32 m registers (interrupt_frame m frame).edi
  let m := write32 m (offset registers 16) (interrupt_frame m frame).edx
  write32 m (offset registers 4) (interrupt_frame m frame).esi

/-- The privilege level that the kernel's table of segments gives a selector's segment. -/
def segment_level (selector : Nat) : Nat := (((kernelSegments 0).getD (selector / 8) ⟨0,0,0⟩).type >>> 5 &&& 3).toNat

/-! ### The context of a program -/

/-- What a program has in the registers. -/
def context (c : Cpu) : Registers where
  edi := c.register .edi
  esi := c.register .esi
  ebp := c.register .ebp
  ebx := c.register .ebx
  edx := c.register .edx
  ecx := c.register .ecx
  eax := c.register .eax
  ip := c.eip
  cs := c.selector .cs
  flags := c.eflags
  esp := c.register .esp
  ss := c.selector .ss

/-- Every register holds what it has room for. -/
structure Valid (c : Cpu) : Prop where
  register : ∀ r, c.register r < 4294967296
  selector : ∀ r, c.selector r < 65536
  eip : c.eip < 4294967296
  eflags : c.eflags < 4294967296

/-- The words of a `struct registers`. -/
def words (r : Registers) : List Nat := [r.edi,r.esi,r.ebp,r.ebx,r.edx,r.ecx,r.eax,r.ip,r.cs,r.flags,r.esp,r.ss]
/-- The words of a `struct interrupt_frame` for them. -/
def frameWords (r : Registers) (reserved : Nat) : List Nat :=
  [r.edi,r.esi,r.ebp,reserved,r.ebx,r.edx,r.ecx,r.eax,r.ip,r.cs,r.flags,r.esp,r.ss]

/-- What a `struct interrupt_frame` holds of a program whose trap has an error code: the code takes the
    place of the address, and the words behind it move up. -/
def framed (error : Option Nat) (r : Registers) : Registers :=
  match error with
  | none => r
  | some code => { r with ip := code, cs := r.ip, flags := r.cs, esp := r.flags, ss := r.esp }

/-- What is then left behind the structure. -/
def spilled (error : Option Nat) (r : Registers) : List Nat :=
  match error with
  | none => []
  | some _ => [r.ss]

/-- Where the structure is on the stack of the kernel. -/
def frameAt (esp0 : Nat) (error : Option Nat) : Nat := esp0 - 52 - 4 * error.toList.length

section
variable {m : Bytes} {r : Registers} {a reserved : Nat}

/-- A structure with the words of a frame is one of these registers. -/
theorem interrupt_frame_words {more : List Nat} (held : Words m a (frameWords r reserved ++ more)) : interrupt_frame m a = r := by
  have held := held.initial
  have word : ∀ n, n < 13 → read32 m (offset a (4 * n)) = (frameWords r reserved).getD n 0 := by
    intro n inside
    obtain ⟨room,read⟩ := held.word n inside
    rw [offset_of_lt (by omega),read]
  have first := held.2.1
  unfold interrupt_frame
  rw [first,show 4 = 4 * 1 from rfl,word 1 (by decide),word 2 (by decide),word 4 (by decide),word 5 (by decide),word 6 (by decide),
    word 7 (by decide),word 8 (by decide),word 9 (by decide),word 10 (by decide),word 11 (by decide),word 12 (by decide)]
  rfl

/-- Every field of these registers has 32 bits. -/
def Wide (r : Registers) : Prop := ∀ v ∈ words r, v < 4294967296

/-- The structure of a task while the registers of a frame are copied to it. -/
structure Saving (r : Registers) (reserved task frame : Nat) (m : Bytes) (saved : List Nat) : Prop where
  frame : Words m frame (frameWords r reserved)
  held : Words m (task + 4) saved
  length : saved.length = 12

theorem Saving.same {task frame : Nat} {saved : List Nat} (saving : Saving r reserved task frame m saved) :
    interrupt_frame m frame = r := interrupt_frame_words saving.frame

theorem Saving.copy {task frame : Nat} {saved : List Nat} (saving : Saving r reserved task frame m saved)
    (room : task + 52 ≤ 4294967296) (apart : task + 52 ≤ frame ∨ frame + 52 ≤ task + 4) (n : Nat) (inside : n < 12)
    {v : Nat} (value : v < 4294967296) :
    Saving r reserved task frame (write32 m (offset (task + 4) (4 * n)) v) (saved.set n v) := by
  have place : offset (task + 4) (4 * n) = task + 4 + 4 * n := offset_of_lt (by omega)
  rw [place]
  refine ⟨saving.frame.write (by omega) ?_,saving.held.store n (by rw [saving.length]; exact inside) value,?_⟩
  · simp only [frameWords,List.length_cons,List.length_nil]
    omega
  · rw [List.length_set]
    exact saving.length

/-- The structure of a task gets the registers of the frame. -/
theorem task_save_state_words {task frame : Nat} (held : Words m frame (frameWords r reserved)) (wide : Wide r)
    (room : task + 52 ≤ 4294967296) (apart : task + 52 ≤ frame ∨ frame + 52 ≤ task + 4) :
    Words (task_save_state m task frame) (task + 4) (words r) := by
  have value : ∀ v, v ∈ words r → v < 4294967296 := wide
  have s0 : Saving r reserved task frame m (wordsFrom m (task + 4) 12) := ⟨held,words_from m 12 _ (by omega),rfl⟩
  have s1 := s0.copy room apart 7 (by decide) (value r.ip (by simp [words]))
  have s2 := s1.copy room apart 8 (by decide) (value r.cs (by simp [words]))
  have s3 := s2.copy room apart 9 (by decide) (value r.flags (by simp [words]))
  have s4 := s3.copy room apart 10 (by decide) (value r.esp (by simp [words]))
  have s5 := s4.copy room apart 11 (by decide) (value r.ss (by simp [words]))
  have s6 := s5.copy room apart 6 (by decide) (value r.eax (by simp [words]))
  have s7 := s6.copy room apart 2 (by decide) (value r.ebp (by simp [words]))
  have s8 := s7.copy room apart 3 (by decide) (value r.ebx (by simp [words]))
  have s9 := s8.copy room apart 5 (by decide) (value r.ecx (by simp [words]))
  have s10 := s9.copy room apart 0 (by decide) (value r.edi (by simp [words]))
  have s11 := s10.copy room apart 4 (by decide) (value r.edx (by simp [words]))
  have s12 := s11.copy room apart 1 (by decide) (value r.esi (by simp [words]))
  have start_at : offset (task + 4) (4 * 0) = task + 4 := offset_of_lt (by omega)
  rw [start_at] at s12 s11 s10
  unfold task_save_state
  dsimp only
  rw [show offset task 4 = task + 4 from offset_of_lt (by omega),s0.same,s1.same,s2.same,s3.same,s4.same,s5.same,s6.same,
    s7.same,s8.same,s9.same,s10.same,s11.same]
  exact s12.held

end

/-! ### Through the stubs -/

/-- The state a handler is called in by a stub, with what the stub pushes before the call. -/
def called (argument : Operand) (next : Nat) (t : Cpu) : Cpu :=
  let framed := t.pushad
  let pointed := framed.push (framed.register .esp)
  (pointed.push (pointed.operand argument)).push next

/-- A handler comes back to the stub, and leaves the structure it was given the address of. -/
structure Returned (frame : Nat) (e after : Cpu) : Prop where
  valid : Valid after
  esp : after.register .esp = e.register .esp + 4
  frame : ∀ x, frame ≤ x → x < frame + 52 → after.memory x = e.memory x
  cs : after.selector .cs = e.selector .cs

section
variable {u after : Cpu} {ss0 esp0 gate next : Nat} {argument : Operand} {value : Nat} {error : Option Nat}

/-- The frame that a stub has made when it calls its handler. -/
theorem called_stack (valid : Valid u) (low : 68 ≤ esp0) (high : esp0 < 4294967296) (linked : next < 4294967296)
    (code : ∀ v ∈ error, v < 4294967296) (small : value < 4294967296)
    (argument_value : ∀ c : Cpu, (∀ q, q ≠ .esp → c.register q = u.register q) → c.operand argument = value) :
    Stack (called argument next (u.interrupt ss0 esp0 KERNEL_CODE_SELECTOR gate error)) (frameAt esp0 error - 12)
      (next :: value :: frameAt esp0 error :: (frameWords (framed error (context u)) (frameAt esp0 error + 32) ++
        spilled error (context u))) := by
  have saved : Stack (u.interrupt ss0 esp0 KERNEL_CODE_SELECTOR gate error) (esp0 - 20 - 4 * error.toList.length)
      (error.toList ++ [u.eip,u.selector .cs,u.eflags,u.register .esp,u.selector .ss]) :=
    Stack.interrupt (by omega) high valid.register valid.selector valid.eip valid.eflags code
  have most : error.toList.length ≤ 1 := by cases error <;> simp
  have place : esp0 - 20 - 4 * error.toList.length = frameAt esp0 error + 32 := by
    unfold frameAt
    omega
  have bounds : 12 ≤ frameAt esp0 error ∧ frameAt esp0 error + 32 < 4294967296 := by
    unfold frameAt
    omega
  rw [place] at saved
  have others : ∀ q, q ≠ .esp → (u.interrupt ss0 esp0 KERNEL_CODE_SELECTOR gate error).register q = u.register q :=
    fun q other => interrupt_other u _ _ _ _ _ other
  generalize u.interrupt ss0 esp0 KERNEL_CODE_SELECTOR gate error = t at saved others ⊢
  generalize frameAt esp0 error = frame at saved bounds ⊢
  have wide : ∀ r, t.register r < 4294967296 := by
    intro r
    by_cases stack : r = .esp
    · rw [stack,saved.esp]
      exact bounds.2
    · rw [others r stack]
      exact valid.register r
  have pushed := saved.pushad (by omega) wide
  rw [others _ (by decide),others _ (by decide),others _ (by decide),others _ (by decide),others _ (by decide),
    others _ (by decide),others _ (by decide),Nat.add_sub_cancel] at pushed
  have pointed := pushed.push (v := t.pushad.register .esp) (by omega) (by rw [pushed.esp]; omega)
  have given := argument_value _ fun q other =>
    (push_other _ (t.pushad.register .esp) other).trans ((pushad_other _ other).trans (others q other))
  have passed := (pointed.push (v := value) (by omega) small).push (v := next) (by omega) linked
  rw [pushed.esp,Nat.sub_sub,Nat.sub_sub] at passed
  unfold called
  dsimp only
  rw [given,pushed.esp]
  cases error with
  | none => exact passed
  | some v => exact passed

/-- The stack when the handler is back. -/
theorem Returned.stack {e : Cpu} {x y : Nat} {saved : List Nat} {a : Nat} (entered : Stack e a (next :: x :: y :: saved))
    (size : saved.length = 13) (returned : Returned (a + 12) e after) :
    ∃ x' y', Stack after (a + 4) (x' :: y' :: saved) := by
  have room := entered.room
  simp only [List.length_cons,size] at room
  have esp : after.register .esp = a + 4 := by rw [returned.esp,entered.esp]
  refine ⟨_,_,esp,?_,by omega,rfl,by omega,rfl,?_⟩
  · simp only [List.length_cons,size]
    omega
  · have held : Words e.memory (a + 12) saved := entered.words.2.2.2.2.2.2
    rw [show a + 4 + 4 + 4 = a + 12 by omega] at held ⊢
    refine held.congr fun x low high => returned.frame x low ?_
    rw [size] at high
    omega

/-- What a stub does when its handler is back. -/
def Stub.rest : Stub → List (Instruction Target)
  | .isr80h_wrapper tmp_res => .store tmp_res .eax :: ([.add .esp 8,.popad] ++ [.mov .eax (.variable tmp_res),.iretd])
  | .interrupt _ => [.add .esp 8,.popad] ++ [.iretd]

theorem Stub.execute_code (env : Environment Target) (stub : Stub) (next : Nat) (t : Cpu) :
    execute env (stub.code next) t = (env.code stub.target (called stub.argument next t)).bind (execute env stub.rest) := by
  cases stub <;> rfl

/-- The end of a stub, which drops what it has passed and loads the registers from the frame. -/
theorem frame_popped {c : Cpu} {a x y reserved : Nat} {r : Registers} (env : Environment Target)
    (stack : Stack c a (x :: y :: frameWords r reserved)) : ∃ d, execute env [.add .esp 8,.popad] c = some d ∧
      Stack d (a + 40) [r.ip,r.cs,r.flags,r.esp,r.ss] ∧ d.register .edi = r.edi ∧ d.register .esi = r.esi ∧
      d.register .ebp = r.ebp ∧ d.register .ebx = r.ebx ∧ d.register .edx = r.edx ∧ d.register .ecx = r.ecx ∧
      d.register .eax = r.eax ∧ d.selector = c.selector ∧ d.memory = c.memory := by
  have dropped := stack.drop.drop
  have room := stack.room
  simp only [List.length_cons] at room
  have above : Stack { c.set .esp (offset (c.register .esp) 8) with eflags := env.flags c } (a + 8) (frameWords r reserved) := by
    refine ⟨?_,dropped.room,dropped.words⟩
    change (c.set .esp _).register .esp = _
    rw [set_same,stack.esp]
    exact offset_of_lt (by omega)
  obtain ⟨rest,registers⟩ := above.popad
  rw [show a + 8 + 32 = a + 40 by omega] at rest
  refine ⟨_,rfl,rest,?_⟩
  obtain ⟨edi,esi,ebp,ebx,edx,ecx,eax⟩ := registers
  exact ⟨edi,esi,ebp,ebx,edx,ecx,eax,rfl,rfl⟩

/-- The numbers are of 32 bits, and the variable of the wrapper is not on the stack of the kernel. -/
def Stub.Placed (esp0 : Nat) : Stub → Prop
  | .isr80h_wrapper tmp_res => tmp_res + 4 ≤ 4294967296 ∧ (tmp_res + 4 ≤ esp0 - 64 ∨ esp0 ≤ tmp_res)
  | .interrupt number => number < 4294967296

/-- The first argument of the handler and the registers of the program when its stub is through. -/
def Stub.passed (r : Registers) : Stub → Nat
  | .isr80h_wrapper _ => r.eax
  | .interrupt number => number
def Stub.resumed (r : Registers) (result : Nat) : Stub → Registers
  | .isr80h_wrapper _ => { r with eax := result }
  | .interrupt _ => r

/-- The state that a stub calls its handler in, when a program in the state u traps. -/
def Stub.entry (stub : Stub) (ss0 esp0 gate next : Nat) (error : Option Nat) (u : Cpu) : Cpu :=
  called stub.argument next (u.interrupt ss0 esp0 KERNEL_CODE_SELECTOR gate error)

theorem Stub.entry_stack (stub : Stub) (placed : stub.Placed esp0) (valid : Valid u) (low : 68 ≤ esp0)
    (high : esp0 < 4294967296) (linked : next < 4294967296) (code : ∀ v ∈ error, v < 4294967296) :
    Stack (stub.entry ss0 esp0 gate next error u) (frameAt esp0 error - 12) (next :: stub.passed (context u) ::
      frameAt esp0 error :: (frameWords (framed error (context u)) (frameAt esp0 error + 32) ++ spilled error (context u))) := by
  cases stub with
  | isr80h_wrapper tmp_res =>
    exact called_stack valid low high linked code (valid.register .eax) fun c same => same .eax (by decide)
  | interrupt number => exact called_stack valid low high linked code placed fun c same => rfl

theorem Stub.entry_cs (stub : Stub) : (stub.entry ss0 esp0 gate next error u).selector .cs = KERNEL_CODE_SELECTOR := by
  unfold Stub.entry called
  simp [-KERNEL_CODE_SELECTOR]

/-- The frame that the handler of a trap is given. -/
theorem Stub.entry_words (stub : Stub) (placed : stub.Placed esp0) (valid : Valid u) (low : 68 ≤ esp0)
    (high : esp0 < 4294967296) (linked : next < 4294967296) (code : ∀ v ∈ error, v < 4294967296) :
    Words (stub.entry ss0 esp0 gate next error u).memory (frameAt esp0 error)
      (frameWords (framed error (context u)) (frameAt esp0 error + 32) ++ spilled error (context u)) := by
  have entered : Stack (stub.entry ss0 esp0 gate next error u) _ _ := stub.entry_stack placed valid low high linked code
  have above := entered.words.2.2.2.2.2.2
  have most : error.toList.length ≤ 1 := by cases error <;> simp
  have bound : 12 ≤ frameAt esp0 error := by
    unfold frameAt
    omega
  rwa [show frameAt esp0 error - 12 + 4 + 4 + 4 = frameAt esp0 error by omega] at above

/-- The handler of a trap is given what the program had in its registers, or that moved up by an error code. A
    program that has trapped without one goes on with what it had, after a system call but for the result in eax. -/
theorem trap_returns (env : Environment Target) (stub : Stub) (placed : stub.Placed esp0) (valid : Valid u)
    (user : 0 < requested (u.selector .cs)) (low : 68 ≤ esp0) (high : esp0 < 4294967296) (linked : next < 4294967296)
    (code : ∀ v ∈ error, v < 4294967296) :
    interrupt_frame (stub.entry ss0 esp0 gate next error u).memory (frameAt esp0 error) = framed error (context u) ∧
    (error = none → ∀ after, env.code stub.target (stub.entry ss0 esp0 gate next error u) = some after →
      Returned (frameAt esp0 error) (stub.entry ss0 esp0 gate next error u) after →
      ∃ c, execute env (stub.code next) (u.interrupt ss0 esp0 KERNEL_CODE_SELECTOR gate error) = some c ∧
        context c = stub.resumed (context u) (after.register .eax)) := by
  refine ⟨interrupt_frame_words (stub.entry_words placed valid low high linked code),?_⟩
  rintro rfl after ran returned
  have entered : Stack (stub.entry ss0 esp0 gate next none u) (esp0 - 52 - 12)
      (next :: stub.passed (context u) :: (esp0 - 52) :: frameWords (context u) (esp0 - 52 + 32)) :=
    stub.entry_stack placed valid low high linked code
  have kept : Returned (esp0 - 52 - 12 + 12) (stub.entry ss0 esp0 gate next none u) after := by
    rw [show esp0 - 52 - 12 + 12 = esp0 - 52 by omega]
    exact returned
  obtain ⟨x,y,back⟩ := kept.stack entered rfl
  have inner : requested (after.selector .cs) < requested (context u).cs := by
    rw [returned.cs.trans stub.entry_cs]
    exact user
  have ran : env.code stub.target (called stub.argument next (u.interrupt ss0 esp0 KERNEL_CODE_SELECTOR gate none)) = some after := ran
  rw [stub.execute_code,ran,Option.bind_some]
  cases stub with
  | isr80h_wrapper tmp_res =>
    have stored := back.write (v := after.register .eax) placed.1 (by
      have apart := placed.2
      simp only [List.length_cons,frameWords,List.length_nil]
      omega)
    obtain ⟨d,popped,rest,edi,esi,ebp,ebx,edx,ecx,_,selectors,memory⟩ := frame_popped env stored
    have result : d.operand (.variable tmp_res) = after.register .eax := by
      change read32 d.memory tmp_res = _
      rw [memory]
      exact read32_write32_same placed.1 (returned.valid.register .eax) _
    unfold Stub.rest
    rw [execute_store,execute_append,popped,Option.bind_some]
    refine ⟨_,rfl,?_⟩
    have loaded := (rest.set (r := .eax) (v := d.operand (.variable tmp_res)) (by decide)).iretd env.level (by
      rw [set_selector,selectors]
      exact inner)
    rw [loaded]
    simp [context,Stub.resumed,outerSelectors,edi,esi,ebp,ebx,edx,ecx,result]
  | interrupt number =>
    obtain ⟨d,popped,rest,edi,esi,ebp,ebx,edx,ecx,eax,selectors,_⟩ := frame_popped env back
    unfold Stub.rest
    rw [execute_append,popped,Option.bind_some]
    refine ⟨_,rfl,?_⟩
    have loaded := rest.iretd env.level (by
      rw [selectors]
      exact inner)
    rw [loaded]
    simp [context,Stub.resumed,outerSelectors,edi,esi,ebp,ebx,edx,ecx,eax]

/-- A program in the middle of its work, and handlers that come back at once with a 5. -/
def program : Cpu where
  register
    | .eax => 3
    | .esp => 0x3fe000
    | _ => 0x1234
  selector
    | .cs => 0x1b
    | _ => 0x23
  eip := 0x400123
  eflags := 0x246
  memory := fun _ => 0
def fives (_ : Target) (c : Cpu) : Option Cpu := some (c.drop.set .eax 5)

theorem program_valid : Valid program := by
  refine ⟨fun r => ?_,fun r => ?_,by decide,by decide⟩
  · cases r <;> decide
  · cases r <;> decide

theorem fives_returned {tmp_res : Nat} (placed : (Stub.isr80h_wrapper tmp_res).Placed 0x600000) :
    Returned (0x600000 - 52) (Stub.entry (.isr80h_wrapper tmp_res) 0x10 0x600000 0x100100 0x100020 none program)
      ((Stub.entry (.isr80h_wrapper tmp_res) 0x10 0x600000 0x100100 0x100020 none program).drop.set .eax 5) := by
  have entered : Stack (Stub.entry (.isr80h_wrapper tmp_res) 0x10 0x600000 0x100100 0x100020 none program) _ _ :=
    Stub.entry_stack _ placed program_valid (by decide) (by decide) (by decide) (by simp)
  have left := entered.drop
  have registers : ∀ q, q ≠ .esp → (Stub.entry (.isr80h_wrapper tmp_res) 0x10 0x600000 0x100100 0x100020 none program).register q =
      program.register q := by
    intro q other
    simp [Stub.entry,called,other]
  refine ⟨⟨fun r => ?_,fun r => ?_,?_,?_⟩,?_,fun x _ _ => rfl,rfl⟩
  · by_cases result : r = .eax
    · rw [result,set_same]
      decide
    rw [set_other _ _ result]
    by_cases stack : r = .esp
    · rw [stack,left.esp]
      decide
    · rw [drop_other _ stack,registers r stack]
      exact program_valid.register r
  · change Function.update (Function.update program.selector .ss 0x10) .cs KERNEL_CODE_SELECTOR r < 65536
    cases r <;> decide
  · exact (show 0x100100 < 4294967296 by decide)
  · exact (show program.eflags &&& 0xFFFCBCFF < 4294967296 by decide)
  · rw [set_other _ _ (by decide),left.esp,entered.esp]

/-- A system call that gives a 5, and a page fault on a write. -/
theorem trap_returns_five : (interrupt_frame (Stub.entry (.isr80h_wrapper 0x8000) 0x10 0x600000 0x100100 0x100020 none program).memory
      (0x600000 - 52) = context program ∧
    ∃ c, execute ⟨fives,fun _ => 0,segment_level⟩ (Stub.code 0x100020 (.isr80h_wrapper 0x8000))
        (program.interrupt 0x10 0x600000 KERNEL_CODE_SELECTOR 0x100100 none) = some c ∧
      context c = Stub.resumed (context program) 5 (.isr80h_wrapper 0x8000)) ∧
    interrupt_frame (Stub.entry (.interrupt 14) 0x10 0x600000 0x100100 0x100020 (some 6) program).memory
      (0x600000 - 56) = { context program with ip := 6, cs := 0x400123, flags := 0x1b, esp := 0x246, ss := 0x3fe000 } := by
  refine ⟨?_,?_⟩
  · obtain ⟨frame,returns⟩ := @trap_returns program 0x10 0x600000 0x100100 0x100020 none ⟨fives,fun _ => 0,segment_level⟩
      (.isr80h_wrapper 0x8000) ⟨by decide,.inl (by decide)⟩ program_valid (by decide) (by decide) (by decide) (by decide) (by simp)
    exact ⟨frame,returns rfl _ rfl (fives_returned ⟨by decide,.inl (by decide)⟩)⟩
  · exact (@trap_returns program 0x10 0x600000 0x100100 0x100020 (some 6) ⟨fives,fun _ => 0,segment_level⟩
      (.interrupt 14) (show 14 < 4294967296 by decide) program_valid (by decide) (by decide) (by decide) (by decide) (by simp)).1

end

/-! ### Back to a saved context -/

section
variable {c : Cpu} {a p next x : Nat} {r : Registers} {rest stacked : List Nat}

/-- A field of the registers that a pointer leads to. -/
theorem field_read {m : Bytes} (held : Words m p (words r)) (n : Nat) (inside : n < 12) :
    read32 m (offset p (4 * n)) = (words r).getD n 0 := by
  obtain ⟨room,read⟩ := held.word n inside
  rw [offset_of_lt (by omega),read]

/-- The general registers are loaded, and the address of their structure is left on the stack. -/
theorem restore_loads (env : Environment Target) (stack : Stack c a (next :: p :: rest)) (room : 4 ≤ a)
    (held : Words c.memory p (words r)) (apart : p + 48 ≤ a - 4 ∨ a ≤ p) (saved : c.register .ebp < 4294967296) :
    ∃ d, execute env restore_general_purpose_registers c = some d ∧ Stack d (a + 4) (p :: rest) ∧
      d.register .edi = r.edi ∧ d.register .esi = r.esi ∧ d.register .ebp = r.ebp ∧ d.register .ebx = r.ebx ∧
      d.register .edx = r.edx ∧ d.register .ecx = r.ecx ∧ d.register .eax = r.eax ∧ d.selector = c.selector := by
  have fits := stack.room
  rw [List.length_cons,List.length_cons] at fits
  have pushed := stack.push room saved
  have kept : Words (c.push (c.register .ebp)).memory p (words r) := by
    rw [push_memory_eq,pushed.esp]
    exact held.write (by omega) (by simp only [words,List.length_cons,List.length_nil]; omega)
  have pointer : read32 (c.push (c.register .ebp)).memory (offset (a - 4) 8) = p := by
    obtain ⟨_,read⟩ := pushed.words.word 2 (by simp)
    rw [offset_of_lt (by omega)]
    exact read
  have edi : read32 (c.push (c.register .ebp)).memory (offset p 0) = r.edi := field_read kept 0 (by decide)
  have esi : read32 (c.push (c.register .ebp)).memory (offset p 4) = r.esi := field_read kept 1 (by decide)
  have ebp : read32 (c.push (c.register .ebp)).memory (offset p 8) = r.ebp := field_read kept 2 (by decide)
  have ebx : read32 (c.push (c.register .ebp)).memory (offset p 12) = r.ebx := field_read kept 3 (by decide)
  have edx : read32 (c.push (c.register .ebp)).memory (offset p 16) = r.edx := field_read kept 4 (by decide)
  have ecx : read32 (c.push (c.register .ebp)).memory (offset p 20) = r.ecx := field_read kept 5 (by decide)
  have eax : read32 (c.push (c.register .ebp)).memory (offset p 24) = r.eax := field_read kept 6 (by decide)
  have selectors : (c.push (c.register .ebp)).selector = c.selector := rfl
  unfold restore_general_purpose_registers
  rw [execute_push,show c.operand (.register .ebp) = c.register .ebp from rfl]
  generalize c.push (c.register .ebp) = e at pushed pointer edi esi ebp ebx edx ecx eax selectors ⊢
  simp only [execute_mov,Cpu.operand,set_same,set_other,set_memory,ne_eq,reduceCtorEq,not_false_eq_true,pushed.esp,pointer,
    edi,esi,ebp,ebx,edx,ecx,eax]
  have back := pushed.drop.drop
  have up : offset (offset (a - 4) 4) 4 = a + 4 := by
    rw [offset_of_lt (by omega : a - 4 + 4 < 4294967296),offset_of_lt (by omega)]
    omega
  rw [show a - 4 + 4 + 4 = a + 4 by omega] at back
  rw [execute_add,execute_ret]
  refine ⟨_,rfl,⟨?_,back.room,back.words⟩,?_⟩
  · simpa [Cpu.drop,pushed.esp] using up
  · simp [Cpu.drop,selectors]

/-- The code that the stubs of the tasks are linked with; the handlers are given from outside. -/
def linked (handlers : Target → Cpu → Option Cpu) (flags : Cpu → Nat) : Environment Target where
  code target := match target with
    | .restore_general_purpose_registers => execute ⟨handlers,flags,segment_level⟩ restore_general_purpose_registers
    | handler => handlers handler
  flags := flags
  level := segment_level

/-- The stack while the words for the return are pushed: ebx leads to the registers of the task, and
    ebp to the stack there was at the start. -/
structure Loading (b p : Nat) (r : Registers) (c : Cpu) (a : Nat) (stacked : List Nat) : Prop where
  stack : Stack c a stacked
  held : Words c.memory p (words r)
  ebx : c.register .ebx = p
  ebp : c.register .ebp = b

namespace Loading
variable {b v : Nat}

theorem push (loading : Loading b p r c a stacked) (room : 4 ≤ a) (apart : p + 48 ≤ a - 4 ∨ a ≤ p) (value : v < 4294967296) :
    Loading b p r (c.push v) (a - 4) (v :: stacked) := by
  have pushed := loading.stack.push room value
  refine ⟨pushed,?_,?_,?_⟩
  · have fits := loading.stack.room
    rw [push_memory_eq,pushed.esp]
    exact loading.held.write (by omega) (by simp only [words,List.length_cons,List.length_nil]; omega)
  · rw [push_other c v (by decide)]
    exact loading.ebx
  · rw [push_other c v (by decide)]
    exact loading.ebp

theorem field (loading : Loading b p r c a stacked) (n : Nat) (inside : n < 12) :
    c.operand (.memory .ebx (4 * n)) = (words r).getD n 0 := by
  change read32 c.memory (offset (c.register .ebx) (4 * n)) = _
  rw [loading.ebx]
  exact field_read loading.held n inside

/-- Nothing depends on the flags, on eax and on the selectors. -/
theorem other {d : Cpu} (loading : Loading b p r c a stacked) (registers : ∀ q, q ≠ .eax → d.register q = c.register q)
    (memory : d.memory = c.memory) : Loading b p r d a stacked := by
  obtain ⟨⟨esp,room,held⟩,fields,ebx,ebp⟩ := loading
  refine ⟨⟨(registers .esp (by decide)).trans esp,room,?_⟩,?_,(registers .ebx (by decide)).trans ebx,
    (registers .ebp (by decide)).trans ebp⟩
  · rw [memory]
    exact held
  · rw [memory]
    exact fields

end Loading

/-- With the words for the return on the stack the general registers are loaded, and the rest with the return. -/
theorem return_loads {eflags data : Nat} (handlers : Target → Cpu → Option Cpu) (flags : Cpu → Nat)
    (loading : Loading (a + 20) p r c a (r.ip :: r.cs :: eflags :: r.esp :: r.ss :: x :: p :: rest)) (room : 12 ≤ a)
    (apart : p + 48 ≤ a - 12 ∨ a + 20 ≤ p) (linked_at : next < 4294967296) (small : p < 4294967296)
    (kernel : requested (c.selector .cs) < requested r.cs) (selectors : ∀ s, s ≠ .cs → s ≠ .ss → c.selector s = data) :
    ∃ d, execute (linked handlers flags)
      [.push (.memory .ebp 4),.call .restore_general_purpose_registers next,.add .esp 4,.iretd] c = some d ∧
      context d = { r with flags := eflags } ∧
      ∀ s, s ≠ .cs → s ≠ .ss → d.selector s = if segment_level data < requested r.cs then 0 else data := by
  have fits := loading.stack.room
  simp only [List.length_cons] at fits
  have argument : c.operand (.memory .ebp 4) = p := by
    obtain ⟨_,read⟩ := loading.stack.words.word 6 (by simp)
    change read32 c.memory (offset (c.register .ebp) 4) = p
    rw [loading.ebp,offset_of_lt (by omega)]
    exact read
  have l1 := loading.push (by omega) (by omega) small
  have l2 := l1.push (v := next) (by omega) (by omega) linked_at
  rw [execute_push,argument,execute_call]
  obtain ⟨d,run,stack,edi,esi,ebp,ebx,edx,ecx,eax,kept⟩ := restore_loads ⟨handlers,flags,segment_level⟩ l2.stack (by omega)
    l2.held (by omega) (by rw [l2.ebp]; omega)
  rw [show (linked handlers flags).code .restore_general_purpose_registers _ = _ from run,Option.bind_some,execute_add,execute_iretd]
  change ∃ e, some (({ d.set .esp (offset (d.register .esp) 4) with eflags := flags d } : Cpu).iretd segment_level) = some e ∧ _
  have left := stack.drop
  have above : Stack ({ d.set .esp (offset (d.register .esp) 4) with eflags := flags d } : Cpu) (a - 4 - 4 + 4 + 4) _ :=
    ⟨left.esp,left.room,left.words⟩
  have inner : requested (({ d.set .esp (offset (d.register .esp) 4) with eflags := flags d } : Cpu).selector .cs) <
      requested r.cs := by
    change requested (d.selector .cs) < _
    rw [kept]
    exact kernel
  rw [above.iretd segment_level inner]
  refine ⟨_,rfl,?_⟩
  refine ⟨?_,?_⟩
  · simp [context,outerSelectors,edi,esi,ebp,ebx,edx,ecx,eax]
  · intro s code outer
    have cleared : (outerSelectors segment_level r.cs r.ss d.selector) s =
        if segment_level (d.selector s) < requested r.cs then 0 else d.selector s := by
      cases s <;> simp_all [outerSelectors]
    have data_kept : d.selector s = data := (congrFun kept s).trans (selectors s code outer)
    exact cleared.trans (by rw [data_kept])

/-- A task goes on with the registers that are saved in its structure, with interrupts on. -/
theorem task_return_loads (handlers : Target → Cpu → Option Cpu) (flags : Cpu → Nat)
    (stack : Stack c a (x :: p :: rest)) (room : 32 ≤ a) (held : Words c.memory p (words r)) (wide : Wide r)
    (apart : p + 48 ≤ a - 32 ∨ a ≤ p) (linked_at : next < 4294967296) (small : p < 4294967296)
    (kernel : requested (c.selector .cs) < requested r.cs) :
    ∃ d, execute (linked handlers flags) (task_return next) c = some d ∧ context d = { r with flags := r.flags ||| 0x200 } ∧
      ∀ s, s ≠ .cs → s ≠ .ss → d.selector s = if segment_level (r.ss % 65536) < requested r.cs then 0 else r.ss % 65536 := by
  obtain ⟨a,rfl⟩ : ∃ bottom, a = bottom + 20 := ⟨a - 20,by omega⟩
  have fits := stack.room
  rw [List.length_cons,List.length_cons] at fits
  have pointer : read32 c.memory (offset (a + 20) 4) = p := by
    obtain ⟨_,read⟩ := stack.words.word 1 (by simp)
    rw [offset_of_lt (by omega)]
    exact read
  have value : ∀ v, v ∈ words r → v < 4294967296 := wide
  have interrupts : r.flags ||| 0x200 < 4294967296 :=
    Nat.or_lt_two_pow (n := 32) (value r.flags (by simp [words])) (by decide)
  unfold task_return
  rw [execute_mov,execute_mov]
  simp only [Cpu.operand,set_same,set_memory,stack.esp,pointer]
  have l0 : Loading (a + 20) p r ((c.set .ebp (a + 20)).set .ebx p) (a + 20) (x :: p :: rest) :=
    ⟨(stack.set (by decide)).set (by decide),held,by simp,by simp⟩
  have s0 : ((c.set .ebp (a + 20)).set .ebx p).selector = c.selector := rfl
  generalize (c.set .ebp (a + 20)).set .ebx p = c0 at l0 s0 ⊢
  have l1 := l0.push (v := r.ss) (by omega) (by omega) (value _ (by simp [words]))
  have l2 := l1.push (v := r.esp) (by omega) (by omega) (value _ (by simp [words]))
  have s2 : ((c0.push r.ss).push r.esp).selector = c.selector := s0
  rw [execute_push,show c0.operand (.memory .ebx 44) = r.ss from l0.field 11 (by decide),
    execute_push,show (c0.push r.ss).operand (.memory .ebx 40) = r.esp from l1.field 10 (by decide),
    execute_mov,show ((c0.push r.ss).push r.esp).operand (.memory .ebx 36) = r.flags from l2.field 9 (by decide),
    execute_or,set_same]
  generalize (c0.push r.ss).push r.esp = c2 at l2 s2 ⊢
  let c3 : Cpu := { (c2.set .eax r.flags).set .eax (r.flags ||| 0x200) with eflags := flags (c2.set .eax r.flags) }
  have l3 : Loading (a + 20) p r c3 (a + 20 - 4 - 4) (r.esp :: r.ss :: x :: p :: rest) :=
    l2.other (fun q other => (set_other _ _ other).trans (set_other _ _ other)) rfl
  have s3 : c3.selector = c.selector := s2
  have eax : c3.operand (.register .eax) = r.flags ||| 0x200 := set_same (c2.set .eax r.flags) .eax _
  change ∃ d, execute (linked handlers flags) _ c3 = some d ∧ _
  generalize c3 = d3 at l3 s3 eax ⊢
  have l4 := l3.push (v := r.flags ||| 0x200) (by omega) (by omega) interrupts
  have l5 := l4.push (v := r.cs) (by omega) (by omega) (value _ (by simp [words]))
  have l6 := l5.push (v := r.ip) (by omega) (by omega) (value _ (by simp [words]))
  have s6 : (((d3.push (r.flags ||| 0x200)).push r.cs).push r.ip).selector = c.selector := s3
  rw [execute_push,eax,execute_push,
    show (d3.push (r.flags ||| 0x200)).operand (.memory .ebx 32) = r.cs from l4.field 8 (by decide),execute_push,
    show ((d3.push (r.flags ||| 0x200)).push r.cs).operand (.memory .ebx 28) = r.ip from l5.field 7 (by decide),execute_mov16,
    show (((d3.push (r.flags ||| 0x200)).push r.cs).push r.ip).operand (.memory .ebx 44) = r.ss from l6.field 11 (by decide)]
  generalize ((d3.push (r.flags ||| 0x200)).push r.cs).push r.ip = c6 at l6 s6 ⊢
  rw [execute_movSelector,execute_movSelector,execute_movSelector,execute_movSelector]
  simp only [select_register,set_same]
  have low : (c6.register .eax / 65536 * 65536 + r.ss % 65536) % 65536 = r.ss % 65536 := by omega
  rw [low]
  rw [show a + 20 - 4 - 4 - 4 - 4 - 4 = a by omega] at l6
  refine return_loads handlers flags (l6.other (fun q other => ?_) rfl) (by omega) (by omega) linked_at small ?_ ?_
  · simp [other]
  · simpa [s6] using kernel
  · intro s code stack
    cases s <;> simp_all

/-- A program whose registers are saved when it traps without an error code goes on with all of them, and with interrupts on, whenever the
    kernel returns to its task, as long as the structure of the task has been left alone in between. -/
theorem context_round_trip {u : Cpu} {esp0 behind task : Nat} (ss0 gate : Nat) (handlers : Target → Cpu → Option Cpu)
    (flags : Cpu → Nat) (stub : Stub) (placed : stub.Placed esp0) (valid : Valid u) (user : 0 < requested (u.selector .cs))
    (low : 68 ≤ esp0) (high : esp0 < 4294967296) (behind_at : behind < 4294967296) (linked_at : next < 4294967296)
    (room : task + 52 ≤ 4294967296) (off_stack : task + 52 ≤ esp0 - 52 ∨ esp0 ≤ task + 4)
    (kept : ∀ y, task + 4 ≤ y → y < task + 52 →
      c.memory y = task_save_state (stub.entry ss0 esp0 gate behind none u).memory task (esp0 - 52) y)
    (kernel : c.selector .cs = KERNEL_CODE_SELECTOR) (stack : Stack c a (x :: (task + 4) :: rest)) (depth : 32 ≤ a)
    (apart : task + 52 ≤ a - 32 ∨ a ≤ task + 4) :
    ∃ d, execute (linked handlers flags) (task_return next) c = some d ∧
      context d = { context u with flags := u.eflags ||| 0x200 } ∧
      (u.selector .cs = USER_CODE_SEGMENT → u.selector .ss = USER_DATA_SEGMENT →
        ∀ s, s ≠ .cs → s ≠ .ss → d.selector s = USER_DATA_SEGMENT) := by
  have wide : Wide (context u) := by
    intro v member
    simp only [words,context,List.mem_cons,List.not_mem_nil,or_false] at member
    have ss : u.selector .ss < 4294967296 := Nat.lt_trans (valid.selector .ss) (by decide)
    have cs : u.selector .cs < 4294967296 := Nat.lt_trans (valid.selector .cs) (by decide)
    rcases member with rfl | rfl | rfl | rfl | rfl | rfl | rfl | rfl | rfl | rfl | rfl | rfl
    all_goals first | exact valid.register _ | exact valid.eip | exact valid.eflags | assumption
  have framed : Words (stub.entry ss0 esp0 gate behind none u).memory (esp0 - 52) (frameWords (context u) (esp0 - 52 + 32)) :=
    stub.entry_words placed valid low high behind_at (by simp)
  have saved := task_save_state_words framed wide room (by omega : task + 52 ≤ esp0 - 52 ∨ esp0 - 52 + 52 ≤ task + 4)
  have held : Words c.memory (task + 4) (words (context u)) := saved.congr fun y above below =>
    kept y above (by simp only [words,List.length_cons,List.length_nil] at below; omega)
  have outward : requested (c.selector .cs) < requested (context u).cs := by
    rw [kernel]
    exact user
  obtain ⟨d,run,loaded,selectors⟩ := task_return_loads handlers flags stack depth held wide
    (by omega : task + 4 + 48 ≤ a - 32 ∨ a ≤ task + 4) linked_at (by omega) outward
  refine ⟨d,run,loaded,fun code data s not_code not_stack => ?_⟩
  rw [selectors s not_code not_stack,show (context u).ss = USER_DATA_SEGMENT from data,
    show (context u).cs = USER_CODE_SEGMENT from code]
  decide

/-- The kernel some time after the program has trapped, about to return to its task. -/
def resuming : Cpu where
  register
    | .esp => 0x500000
    | _ => 0
  selector
    | .cs => 0x08
    | _ => 0x10
  eip := 0x100300
  eflags := 0x2
  memory := write32 (task_save_state (Stub.entry (.interrupt 0x21) 0x10 0x600000 0x100100 0x100020 none program).memory 0x1000000
    (0x600000 - 52)) 0x500004 (0x1000000 + 4)

theorem context_round_trip_program : ∃ d, execute (linked fives fun _ => 0) (task_return 0x100040) resuming = some d ∧
    context d = { context program with flags := program.eflags ||| 0x200 } ∧
    (program.selector .cs = USER_CODE_SEGMENT → program.selector .ss = USER_DATA_SEGMENT →
      ∀ s, s ≠ .cs → s ≠ .ss → d.selector s = USER_DATA_SEGMENT) := by
  have pointer : read32 resuming.memory (0x500000 + 4) = 0x1000000 + 4 := read32_write32_same (by decide) (by decide) _
  have stack : Stack resuming 0x500000 [read32 resuming.memory 0x500000,0x1000000 + 4] :=
    ⟨rfl,by simp,by decide,rfl,by decide,pointer,trivial⟩
  refine context_round_trip 0x10 0x100100 fives (fun _ => 0) (.interrupt 0x21) (show 0x21 < 4294967296 by decide) program_valid (by decide)
    (by decide : 68 ≤ 0x600000) (by decide) (by decide : 0x100020 < 4294967296) (by decide)
    (by decide : 0x1000000 + 52 ≤ 4294967296) (by decide) (fun y above below => ?_) rfl stack (by decide) (by decide)
  change write32 _ 0x500004 _ y = _
  rw [write32_apply (by decide),if_neg (by omega)]

end

end SimpOS.TrapStubs
