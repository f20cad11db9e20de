import SimpOS.Memory

/-!
Straight-line code of the 32-bit target that saves registers on the stack and restores them. A
stack is given by the words on it, the topmost first (`Stack`), and every instruction that works on
it has a rule that says what it makes of them. A call goes to code that is given from outside, and
so is what arithmetic leaves in the flags.
-/
namespace SimpOS.StackCode
open SimpOS.Machine SimpOS.Memory

inductive Register
  | eax | ecx | edx | ebx | esp | ebp | esi | edi
deriving DecidableEq, Repr

inductive Selector
  | cs | ss | ds | es | fs | gs
deriving DecidableEq, Repr

structure Cpu where
  register : Register → Nat
  selector : Selector → Nat
  eip : Nat
  eflags : Nat
  memory : Bytes

inductive Operand
  | register (r : Register)
  | immediate (v : Nat)
  | memory (base : Register) (displacement : Nat)
  | variable (address : Nat)
deriving DecidableEq, Repr

/-- The address behind a call is the one that it pushes. A move to 16 bits leaves the upper half. -/
inductive Instruction (Target : Type)
  | push (source : Operand)
  | pushad
  | popad
  | mov (dest : Register) (source : Operand)
  | mov16 (dest : Register) (source : Operand)
  | movSelector (dest : Selector) (source : Register)
  | store (address : Nat) (source : Register)
  | add (dest : Register) (value : Nat)
  | or (dest : Register) (value : Nat)
  | call (target : Target) (next : Nat)
  | ret
  | iretd

/-- The code that is called, the flags after an arithmetic instruction, and the privilege level of
    the segment that a selector names. -/
structure Environment (Target : Type) where
  code : Target → Cpu → Option Cpu
  flags : Cpu → Nat
  level : Nat → Nat

def Cpu.set (c : Cpu) (r : Register) (v : Nat) : Cpu := { c with register := Function.update c.register r v }
def Cpu.select (c : Cpu) (r : Selector) (v : Nat) : Cpu := { c with selector := Function.update c.selector r v }

def Cpu.operand (c : Cpu) : Operand → Nat
  | .register r => c.register r
  | .immediate v => v
  | .memory base displacement => read32 c.memory (offset (c.register base) displacement)
  | .variable address => read32 c.memory address

def Cpu.push (c : Cpu) (v : Nat) : Cpu :=
  let esp := u32 ((c.register .esp : Int) - 4)
  { c.set .esp esp with memory := write32 c.memory esp v }

/-- The word on top of the stack, and the state without it. -/
def Cpu.top (c : Cpu) : Nat := read32 c.memory (c.register .esp)
def Cpu.drop (c : Cpu) : Cpu := c.set .esp (offset (c.register .esp) 4)
def Cpu.pop (c : Cpu) (r : Register) : Cpu := c.drop.set r c.top

def Cpu.pushad (c : Cpu) : Cpu :=
  let esp := c.register .esp
  ((((((((c.push (c.register .eax)).push (c.register .ecx)).push (c.register .edx)).push (c.register .ebx)).push
    esp).push (c.register .ebp)).push (c.register .esi)).push (c.register .edi))

/-- The word for the stack pointer is skipped. -/
def Cpu.popad (c : Cpu) : Cpu :=
  (((((((c.pop .edi).pop .esi).pop .ebp).drop.pop .ebx).pop .edx).pop .ecx).pop .eax)

/-- The privilege level that a selector asks for. -/
def requested (selector : Nat) : Nat := selector % 4

/-- The selectors after a return to an outer level, which clears those that are out of reach for it. -/
def outerSelectors (level : Nat → Nat) (cs ss : Nat) (selector : Selector → Nat) : Selector → Nat
  | .cs => cs
  | .ss => ss
  | r => if level (selector r) < requested cs then 0 else selector r

/-- A return to an outer level goes on with the stack that is on the stack. -/
def Cpu.iretd (c : Cpu) (level : Nat → Nat) : Cpu :=
  let cs := c.drop.top
  let popped := c.drop.drop.drop
  if requested (c.selector .cs) < requested cs then
    { register := Function.update popped.register .esp popped.top
      selector := outerSelectors level cs popped.drop.top c.selector
      eip := c.top
      eflags := c.drop.drop.top
      memory := c.memory }
  else { popped.select .cs cs with eip := c.top, eflags := c.drop.drop.top }

/-- The hardware takes an interrupt through a gate to an inner level, whose stack it switches to. Some
    exceptions have an error code, which it pushes last. -/
def Cpu.interrupt (c : Cpu) (ss0 esp0 gate_selector gate_offset : Nat) (error : Option Nat) : Cpu :=
  let inner := (c.set .esp esp0).select .ss ss0
  let saved := ((((inner.push (c.selector .ss)).push (c.register .esp)).push c.eflags).push (c.selector .cs)).push c.eip
  let coded := match error with
    | none => saved
    | some code => saved.push code
  { coded.select .cs gate_selector with eip := gate_offset, eflags := c.eflags &&& 0xFFFCBCFF }

section
variable {Target : Type} (env : Environment Target)

def step : Instruction Target → Cpu → Option Cpu
  | .push source, c => some (c.push (c.operand source))
  | .pushad, c => some c.pushad
  | .popad, c => some c.popad
  | .mov dest source, c => some (c.set dest (c.operand source))
  | .mov16 dest source, c => some (c.set dest (c.register dest / 65536 * 65536 + c.operand source % 65536))
  | .movSelector dest source, c => some (c.select dest (c.register source % 65536))
  | .store address source, c => some { c with memory := write32 c.memory address (c.register source) }
  | .add dest value, c => some { c.set dest (offset (c.register dest) value) with eflags := env.flags c }
  | .or dest value, c => some { c.set dest (c.register dest ||| value) with eflags := env.flags c }
  | .call target next, c => env.code target (c.push next)
  | .ret, c => some { c.drop with eip := c.top }
  | .iretd, c => some (c.iretd env.level)

def execute : List (Instruction Target) → Cpu → Option Cpu
  | [], c => some c
  | instruction :: rest, c => (step env instruction c).bind (execute rest)

theorem execute_push (source : Operand) (rest : List (Instruction Target)) (c : Cpu) :
    execute env (.push source :: rest) c = execute env rest (c.push (c.operand source)) := Option.bind_some _ _
theorem execute_mov (dest : Register) (source : Operand) (rest : List (Instruction Target)) (c : Cpu) :
    execute env (.mov dest source :: rest) c = execute env rest (c.set dest (c.operand source)) := Option.bind_some _ _

theorem execute_mov16 (dest : Register) (source : Operand) (rest : List (Instruction Target)) (c : Cpu) :
    execute env (.mov16 dest source :: rest) c =
      execute env rest (c.set dest (c.register dest / 65536 * 65536 + c.operand source % 65536)) := Option.bind_some _ _
theorem execute_movSelector (dest : Selector) (source : Register) (rest : List (Instruction Target)) (c : Cpu) :
    execute env (.movSelector dest source :: rest) c = execute env rest (c.select dest (c.register source % 65536)) := Option.bind_some _ _
theorem execute_store (address : Nat) (source : Register) (rest : List (Instruction Target)) (c : Cpu) :
    execute env (.store address source :: rest) c =
      execute env rest { c with memory := write32 c.memory address (c.register source) } := Option.bind_some _ _
theorem execute_add (dest : Register) (value : Nat) (rest : List (Instruction Target)) (c : Cpu) :
    execute env (.add dest value :: rest) c =
      execute env rest { c.set dest (offset (c.register dest) value) with eflags := env.flags c } := Option.bind_some _ _
theorem execute_or (dest : Register) (value : Nat) (rest : List (Instruction Target)) (c : Cpu) :
    execute env (.or dest value :: rest) c =
      execute env rest { c.set dest (c.register dest ||| value) with eflags := env.flags c } := Option.bind_some _ _
theorem execute_call (target : Target) (next : Nat) (rest : List (Instruction Target)) (c : Cpu) :
    execute env (.call target next :: rest) c = (env.code target (c.push next)).bind (execute env rest) := (rfl)
theorem execute_ret (rest : List (Instruction Target)) (c : Cpu) :
    execute env (.ret :: rest) c = execute env rest { c.drop with eip := c.top } := Option.bind_some _ _
theorem execute_iretd (rest : List (Instruction Target)) (c : Cpu) :
    execute env (.iretd :: rest) c = execute env rest (c.iretd env.level) := Option.bind_some _ _

theorem execute_append (first second : List (Instruction Target)) (c : Cpu) :
    execute env (first ++ second) c = (execute env first c).bind (execute env second) := by
  induction first generalizing c with
  | nil => rfl
  | cons instruction rest ih =>
    simp only [List.cons_append,execute,Option.bind_assoc]
    congr 1
    funext d
    exact ih d

end

/-! ### The words on a stack -/

/-- The words from an address on. -/
def Words (m : Bytes) : Nat → List Nat → Prop
  | _, [] => True
  | a, v :: rest => a + 4 ≤ 4294967296 ∧ read32 m a = v ∧ Words m (a + 4) rest

/-- The n words that there are from an address on. -/
def wordsFrom (m : Bytes) : Nat → Nat → List Nat
  | _, 0 => []
  | a, n + 1 => read32 m a :: wordsFrom m (a + 4) n

/-- The words on the stack of a state, from the address of the topmost one on. -/
structure Stack (c : Cpu) (a : Nat) (words : List Nat) : Prop where
  esp : c.register .esp = a
  room : a + 4 * words.length < 4294967296
  words : Words c.memory a words

section
variable {m m' : Bytes} {a b v : Nat} {words more : List Nat}

theorem Words.congr (held : Words m a words) (same : ∀ x, a ≤ x → x < a + 4 * words.length → m' x = m x) :
    Words m' a words := by
  induction words generalizing a with
  | nil => trivial
  | cons v rest ih =>
    obtain ⟨room,word,rest_held⟩ := held
    rw [List.length_cons] at same
    refine ⟨room,?_,ih rest_held fun x low high => same x (by omega) (by omega)⟩
    rw [read32_congr room fun x low high => same x low (by omega)]
    exact word

/-- A word that is written elsewhere leaves them. -/
theorem Words.write (held : Words m a words) (room : b + 4 ≤ 4294967296) (apart : b + 4 ≤ a ∨ a + 4 * words.length ≤ b) :
    Words (write32 m b v) a words := by
  refine held.congr fun x low high => ?_
  rw [write32_apply room,if_neg (by omega)]

theorem Words.append (held : Words m a (words ++ more)) : Words m (a + 4 * words.length) more := by
  induction words generalizing a with
  | nil => exact held
  | cons v rest ih =>
    have further := ih held.2.2
    rw [List.length_cons]
    rwa [show a + 4 * (rest.length + 1) = a + 4 + 4 * rest.length by omega]

theorem Words.initial (held : Words m a (words ++ more)) : Words m a words := by
  induction words generalizing a with
  | nil => trivial
  | cons v rest ih => exact ⟨held.1,held.2.1,ih held.2.2⟩

/-- The n-th word. -/
theorem Words.word (held : Words m a words) (n : Nat) (inside : n < words.length) :
    a + 4 * n + 4 ≤ 4294967296 ∧ read32 m (a + 4 * n) = words.getD n 0 := by
  induction words generalizing a n with
  | nil => exact absurd inside (Nat.not_lt_zero n)
  | cons v rest ih =>
    cases n with
    | zero => exact ⟨held.1,held.2.1⟩
    | succ n =>
      rw [List.length_cons] at inside
      have further := ih held.2.2 n (by omega)
      rw [show a + 4 * (n + 1) = a + 4 + 4 * n by omega,List.getD_cons_succ]
      exact further

theorem words_from (m : Bytes) (n : Nat) : ∀ a, a + 4 * n ≤ 4294967296 → Words m a (wordsFrom m a n) := by
  induction n with
  | zero => exact fun a _ => trivial
  | succ n ih => exact fun a room => ⟨by omega,rfl,ih (a + 4) (by omega)⟩

/-- One of the words is overwritten. -/
theorem Words.store (held : Words m a words) (n : Nat) (inside : n < words.length) (value : v < 4294967296) :
    Words (write32 m (a + 4 * n) v) a (words.set n v) := by
  induction words generalizing a n with
  | nil => exact absurd inside (Nat.not_lt_zero n)
  | cons w rest ih =>
    cases n with
    | zero => exact ⟨held.1,read32_write32_same held.1 value m,held.2.2.write held.1 (.inl (Nat.le_refl _))⟩
    | succ n =>
      rw [List.length_cons] at inside
      have room := (held.2.2.word n (by omega)).1
      refine ⟨held.1,?_,?_⟩
      · rw [read32_write32_apart (by omega) held.1 (.inl (by omega))]
        exact held.2.1
      · rw [show a + 4 * (n + 1) = a + 4 + 4 * n by omega]
        exact ih held.2.2 n (by omega)

end

/-! ### The rules of the instructions -/

section
variable {c : Cpu} {v w : Nat} {r : Register} {words more : List Nat}

@[simp] theorem set_same (c : Cpu) (r : Register) (v : Nat) : (c.set r v).register r = v := Function.update_self _ _ _
@[simp] theorem set_other (c : Cpu) {r q : Register} (v : Nat) (other : q ≠ r) : (c.set r v).register q = c.register q :=
  Function.update_of_ne other _ _
@[simp] theorem set_selector (c : Cpu) (r : Register) (v : Nat) : (c.set r v).selector = c.selector := rfl
@[simp] theorem set_eip (c : Cpu) (r : Register) (v : Nat) : (c.set r v).eip = c.eip := rfl
@[simp] theorem set_eflags (c : Cpu) (r : Register) (v : Nat) : (c.set r v).eflags = c.eflags := rfl
@[simp] theorem set_memory (c : Cpu) (r : Register) (v : Nat) : (c.set r v).memory = c.memory := rfl
@[simp] theorem select_register (c : Cpu) (r : Selector) (v : Nat) : (c.select r v).register = c.register := rfl
@[simp] theorem select_memory (c : Cpu) (r : Selector) (v : Nat) : (c.select r v).memory = c.memory := rfl
@[simp] theorem select_same (c : Cpu) (r : Selector) (v : Nat) : (c.select r v).selector r = v := Function.update_self _ _ _
@[simp] theorem select_other (c : Cpu) {r q : Selector} (v : Nat) (other : q ≠ r) :
    (c.select r v).selector q = c.selector q := Function.update_of_ne other _ _
@[simp] theorem push_other (c : Cpu) (v : Nat) {q : Register} (other : q ≠ .esp) : (c.push v).register q = c.register q :=
  Function.update_of_ne other _ _
@[simp] theorem push_selector (c : Cpu) (v : Nat) : (c.push v).selector = c.selector := rfl
@[simp] theorem pop_other (c : Cpu) {r q : Register} (other : q ≠ r) (kept : q ≠ .esp) : (c.pop r).register q = c.register q :=
  (Function.update_of_ne other _ _).trans (Function.update_of_ne kept _ _)
@[simp] theorem drop_other (c : Cpu) {q : Register} (other : q ≠ .esp) : c.drop.register q = c.register q :=
  Function.update_of_ne other _ _

@[simp] theorem pushad_other (c : Cpu) {q : Register} (other : q ≠ .esp) : c.pushad.register q = c.register q := by
  simp [Cpu.pushad,other]
@[simp] theorem pushad_selector (c : Cpu) : c.pushad.selector = c.selector := rfl
@[simp] theorem popad_selector (c : Cpu) : c.popad.selector = c.selector := rfl
@[simp] theorem popad_memory (c : Cpu) : c.popad.memory = c.memory := rfl
@[simp] theorem interrupt_other (c : Cpu) (ss0 esp0 gate_selector gate_offset : Nat) (error : Option Nat) {q : Register}
    (other : q ≠ .esp) : (c.interrupt ss0 esp0 gate_selector gate_offset error).register q = c.register q := by
  cases error <;> simp [Cpu.interrupt,other]
@[simp] theorem interrupt_cs (c : Cpu) (ss0 esp0 gate_selector gate_offset : Nat) (error : Option Nat) :
    (c.interrupt ss0 esp0 gate_selector gate_offset error).selector .cs = gate_selector := by
  cases error <;> simp [Cpu.interrupt]

theorem push_memory_eq (c : Cpu) (v : Nat) : (c.push v).memory = write32 c.memory ((c.push v).register .esp) v := by
  simp [Cpu.push]

theorem push_esp {a : Nat} (esp : c.register .esp = a) (high : a < 4294967296) (room : 4 ≤ a) :
    (c.push v).register .esp = a - 4 := by
  have down : u32 ((c.register .esp : Int) - 4) = a - 4 := by
    rw [esp]
    unfold u32
    omega
  simpa [Cpu.push] using down

namespace Stack
variable {a : Nat}

theorem push (stack : Stack c a words) (room : 4 ≤ a) (value : v < 4294967296) : Stack (c.push v) (a - 4) (v :: words) := by
  have high : a < 4294967296 := by
    have fits := stack.room
    omega
  have esp := push_esp (v := v) stack.esp high room
  refine ⟨esp,?_,?_⟩
  · have fits := stack.room
    rw [List.length_cons]
    omega
  · rw [push_memory_eq,esp]
    refine ⟨by omega,read32_write32_same (by omega) value _,?_⟩
    rw [Nat.sub_add_cancel room]
    exact stack.words.write (by omega) (.inl (by omega))

theorem top (stack : Stack c a (v :: words)) : c.top = v := by
  unfold Cpu.top
  rw [stack.esp]
  exact stack.words.2.1

theorem drop (stack : Stack c a (v :: words)) : Stack c.drop (a + 4) words := by
  have room := stack.room
  rw [List.length_cons] at room
  refine ⟨?_,by omega,stack.words.2.2⟩
  unfold Cpu.drop
  rw [set_same,stack.esp,offset_of_lt (by omega)]

/-- A word that is written elsewhere leaves the stack. -/
theorem write {b : Nat} (stack : Stack c a words) (room : b + 4 ≤ 4294967296) (apart : b + 4 ≤ a ∨ a + 4 * words.length ≤ b) :
    Stack { c with memory := write32 c.memory b v } a words := ⟨stack.esp,stack.room,stack.words.write room apart⟩

/-- Setting another register leaves the stack. -/
theorem set (stack : Stack c a words) (other : r ≠ .esp) : Stack (c.set r v) a words := by
  refine ⟨?_,stack.room,stack.words⟩
  rw [set_other c v other.symm]
  exact stack.esp

theorem pop (stack : Stack c a (v :: words)) (other : r ≠ .esp) : Stack (c.pop r) (a + 4) words :=
  stack.drop.set other

theorem pop_same (stack : Stack c a (v :: words)) : (c.pop r).register r = v := by
  unfold Cpu.pop
  rw [set_same,stack.top]

/-- All the general registers are saved. -/
theorem pushad (stack : Stack c a words) (room : 32 ≤ a) (values : ∀ r, c.register r < 4294967296) :
    Stack c.pushad (a - 32) (c.register .edi :: c.register .esi :: c.register .ebp :: a :: c.register .ebx ::
      c.register .edx :: c.register .ecx :: c.register .eax :: words) := by
  have esp : c.register .esp < 4294967296 := values .esp
  have pushed := (((((((stack.push (by omega) (values .eax)).push (by omega) (values .ecx)).push (by omega)
    (values .edx)).push (by omega) (values .ebx)).push (by omega) (stack.esp ▸ esp)).push (by omega)
    (values .ebp)).push (by omega) (values .esi)).push (by omega) (values .edi)
  have start : c.register .esp = a := stack.esp
  simpa [Cpu.pushad,start,Nat.sub_sub] using pushed

/-- They are read back from where they were saved. -/
theorem popad {edi esi ebp skipped ebx edx ecx eax : Nat}
    (stack : Stack c a (edi :: esi :: ebp :: skipped :: ebx :: edx :: ecx :: eax :: words)) :
    Stack c.popad (a + 32) words ∧ c.popad.register .edi = edi ∧ c.popad.register .esi = esi ∧
    c.popad.register .ebp = ebp ∧ c.popad.register .ebx = ebx ∧ c.popad.register .edx = edx ∧
    c.popad.register .ecx = ecx ∧ c.popad.register .eax = eax := by
  have s1 := stack.pop (r := .edi) (by decide)
  have s2 := s1.pop (r := .esi) (by decide)
  have s3 := s2.pop (r := .ebp) (by decide)
  have s4 := s3.drop
  have s5 := s4.pop (r := .ebx) (by decide)
  have s6 := s5.pop (r := .edx) (by decide)
  have s7 := s6.pop (r := .ecx) (by decide)
  have s8 := s7.pop (r := .eax) (by decide)
  refine ⟨?_,?_,?_,?_,?_,?_,?_,?_⟩
  · simpa [Cpu.popad,Nat.add_assoc] using s8
  · simp [Cpu.popad,stack.pop_same]
  · simp [Cpu.popad,s1.pop_same]
  · simp [Cpu.popad,s2.pop_same]
  · simp [Cpu.popad,s4.pop_same]
  · simp [Cpu.popad,s5.pop_same]
  · simp [Cpu.popad,s6.pop_same]
  · simp [Cpu.popad,s7.pop_same]

/-- What an interrupt from an outer level saves. -/
theorem interrupt {ss0 esp0 gate_selector gate_offset : Nat} {error : Option Nat} (low : 24 ≤ esp0) (high : esp0 < 4294967296)
    (values : ∀ r, c.register r < 4294967296) (selectors : ∀ r, c.selector r < 65536)
    (eip : c.eip < 4294967296) (eflags : c.eflags < 4294967296) (code : ∀ v ∈ error, v < 4294967296) :
    Stack (c.interrupt ss0 esp0 gate_selector gate_offset error) (esp0 - 20 - 4 * error.toList.length)
      (error.toList ++ [c.eip,c.selector .cs,c.eflags,c.register .esp,c.selector .ss]) := by
  have empty : Stack ((c.set .esp esp0).select .ss ss0) esp0 [] := ⟨set_same c .esp esp0,high,trivial⟩
  have ss : c.selector .ss < 4294967296 := Nat.lt_trans (selectors .ss) (by decide)
  have cs : c.selector .cs < 4294967296 := Nat.lt_trans (selectors .cs) (by decide)
  have saved := ((((empty.push (by omega) ss).push (by omega) (values .esp)).push (by omega) eflags).push (by omega) cs).push
    (by omega) eip
  rw [Nat.sub_sub,Nat.sub_sub,Nat.sub_sub,Nat.sub_sub] at saved
  cases error with
  | none => exact ⟨saved.esp,saved.room,saved.words⟩
  | some v =>
    have coded := saved.push (by omega) (code v rfl)
    exact ⟨coded.esp,coded.room,coded.words⟩

/-- A return to an outer level takes all of its state from the stack. -/
theorem iretd {eip cs eflags esp ss : Nat} (level : Nat → Nat) (stack : Stack c a (eip :: cs :: eflags :: esp :: ss :: words))
    (outer : requested (c.selector .cs) < requested cs) : c.iretd level =
      ⟨Function.update c.register .esp esp,outerSelectors level cs ss c.selector,eip,eflags,c.memory⟩ := by
  have s1 := stack.drop
  have s2 := s1.drop
  have s3 := s2.drop
  have s4 := s3.drop
  have popped : Function.update c.drop.drop.drop.register .esp esp = Function.update c.register .esp esp := by
    simp [Cpu.drop,Cpu.set]
  unfold Cpu.iretd
  dsimp only
  rw [stack.top,s1.top,s2.top,s3.top,s4.top,if_pos outer,popped]

end Stack

end

end SimpOS.StackCode
