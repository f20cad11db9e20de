import SimpOS.Machine
import SimpOS.SegmentTable
import Mathlib.Data.List.Nodup

/-!
The tables of `idt/idt.c`: the gates that the processor goes through on an interrupt, the callbacks
of the interrupts and the commands of interrupt 0x80. A gate holds the address of a stub in two
halves, and a command is registered once and for all.
-/
namespace SimpOS.InterruptTables
open Function
open SimpOS.Machine (EINVARG)

@[simp] abbrev SIMPOS_TOTAL_INTERRUPTS : Nat := 512
@[simp] abbrev SIMPOS_MAX_ISR80H_COMMANDS : Nat := 1024
@[simp] abbrev KERNEL_CODE_SELECTOR : UInt16 := 0x08

/-! ### Gates -/

/-- A field of 16 bits is written. -/
def store16 (memory : Nat → UInt8) (p : Nat) (v : UInt16) : Nat → UInt8 :=
  update (update memory p v.toUInt8) (p + 1) (v >>> 8).toUInt8

def idt_set (memory : Nat → UInt8) (idt_descriptors interrupt_no : Nat) (address : UInt32) : Nat → UInt8 :=
  let desc := idt_descriptors + 8 * interrupt_no
  let memory := store16 memory desc (address &&& 0x0000ffff).toUInt16
  let memory := store16 memory (desc + 2) KERNEL_CODE_SELECTOR
  let memory := update memory (desc + 4) 0x00
  let memory := update memory (desc + 5) 0xEE
  store16 memory (desc + 6) (address >>> 16).toUInt16

/-- What the processor knows of the table of gates. -/
structure Idtr where
  limit : Nat
  base : Nat
deriving DecidableEq, Repr

def store32 (memory : Nat → UInt8) (p : Nat) (v : UInt32) : Nat → UInt8 :=
  store16 (store16 memory p (v &&& 0x0000ffff).toUInt16) (p + 2) (v >>> 16).toUInt16

/-- The register as it is loaded from a `struct idtr_desc`. -/
def idt_load (memory : Nat → UInt8) (ptr : Nat) : Idtr where
  limit := (memory ptr).toNat + 256 * (memory (ptr + 1)).toNat
  base := (memory (ptr + 2)).toNat + 256 * (memory (ptr + 3)).toNat + 65536 * (memory (ptr + 4)).toNat +
    16777216 * (memory (ptr + 5)).toNat

def idt_register_interrupt_callback {α : Type} (interrupt_callbacks : Nat → Option α) (interrupt : Int)
    (interrupt_callback : α) : Int × (Nat → Option α) :=
  if interrupt < 0 ∨ interrupt ≥ SIMPOS_TOTAL_INTERRUPTS then (-EINVARG, interrupt_callbacks)
  else (0, update interrupt_callbacks interrupt.toNat (some interrupt_callback))

/-- The last loop of `idt_init`, up to an interrupt. -/
def register_exceptions {α : Type} (idt_handle_exception : α) (interrupt_callbacks : Nat → Option α) (n : Nat) : Nat → Option α :=
  (List.range n).foldl (fun (callbacks : Nat → Option α) (i : Nat) =>
    (idt_register_interrupt_callback callbacks i idt_handle_exception).2) interrupt_callbacks

/-- The memory, the callbacks and the register behind `idt_init`. -/
structure Installed (α : Type) where
  memory : Nat → UInt8
  interrupt_callbacks : Nat → Option α
  idtr : Idtr

def idt_init {α : Type} (memory : Nat → UInt8) (interrupt_callbacks : Nat → Option α) (idt_descriptors idtr_descriptor : Nat)
    (interrupt_pointer_table : Nat → UInt32) (isr80h_wrapper : UInt32) (idt_handle_exception : α) : Installed α :=
  let memory := fun p => if idt_descriptors ≤ p ∧ p < idt_descriptors + 8 * SIMPOS_TOTAL_INTERRUPTS then 0 else memory p
  let memory := store16 memory idtr_descriptor (UInt16.ofNat (8 * SIMPOS_TOTAL_INTERRUPTS - 1))
  let memory := store32 memory (idtr_descriptor + 2) (UInt32.ofNat idt_descriptors)
  let memory := (List.range SIMPOS_TOTAL_INTERRUPTS).foldl
    (fun memory i => idt_set memory idt_descriptors i (interrupt_pointer_table i)) memory
  let memory := idt_set memory idt_descriptors 0x80 isr80h_wrapper
  ⟨memory, register_exceptions idt_handle_exception interrupt_callbacks 0x20, idt_load memory idtr_descriptor⟩

/-- A gate as the processor has it. -/
structure Gate where
  offset : Nat
  selector : Nat
  type : Nat
  level : Nat
  present : Bool
deriving DecidableEq, Repr

def readGate (memory : Nat → UInt8) (entry : Nat) : Gate where
  offset := (memory entry).toNat + 256 * (memory (entry + 1)).toNat + 65536 * (memory (entry + 6)).toNat +
    16777216 * (memory (entry + 7)).toNat
  selector := (memory (entry + 2)).toNat + 256 * (memory (entry + 3)).toNat
  type := (memory (entry + 5)).toNat % 32
  level := (memory (entry + 5)).toNat / 32 % 4
  present := (memory (entry + 5)).toNat.testBit 7

/-- A gate that programs may go through, which turns interrupts off. -/
def interruptGate (address : UInt32) : Gate := ⟨address.toNat,0x08,0x0E,3,true⟩

section
variable {memory memory' : Nat → UInt8} {idt entry p i : Nat} {address : UInt32}

theorem store16_outside (v : UInt16) (outside : p < entry ∨ entry + 2 ≤ p) : store16 memory entry v p = memory p := by
  unfold store16
  rw [update_of_ne (by omega),update_of_ne (by omega)]

theorem idt_set_outside (outside : p < idt + 8 * i ∨ idt + 8 * i + 8 ≤ p) : idt_set memory idt i address p = memory p := by
  unfold idt_set
  rw [store16_outside _ (by omega),update_of_ne (by omega),update_of_ne (by omega),store16_outside _ (by omega),
    store16_outside _ (by omega)]

theorem readGate_congr (same : ∀ p, entry ≤ p → p < entry + 8 → memory p = memory' p) :
    readGate memory entry = readGate memory' entry := by
  have byte : ∀ k < 8, memory (entry + k) = memory' (entry + k) := fun k small => same _ (Nat.le_add_right _ _) (by omega)
  unfold readGate
  rw [same entry (Nat.le_refl _) (by omega),byte 1 (by decide),byte 2 (by decide),byte 3 (by decide),byte 5 (by decide),
    byte 6 (by decide),byte 7 (by decide)]

/-- The two halves of an address. -/
theorem halves (v : UInt32) : (v &&& 0x0000ffff).toUInt16.toNat = v.toNat % 65536 ∧ (v >>> 16).toUInt16.toNat = v.toNat / 65536 := by
  have bound := v.toNat_lt
  constructor
  · rw [UInt32.toNat_toUInt16,UInt32.toNat_and]
    change (v.toNat &&& 2 ^ 16 - 1) % 65536 = _
    rw [Nat.and_two_pow_sub_one_eq_mod]
    omega
  · rw [UInt32.toNat_toUInt16,UInt32.toNat_shiftRight,show (16 : UInt32).toNat % 32 = 16 from rfl,Nat.shiftRight_eq_div_pow]
    omega

theorem store16_value (memory : Nat → UInt8) (p : Nat) (v : UInt16) :
    (store16 memory p v p).toNat + 256 * (store16 memory p v (p + 1)).toNat = v.toNat := by
  have bound := v.toNat_lt
  have low : store16 memory p v p = v.toUInt8 := by
    unfold store16
    rw [update_of_ne (by omega),update_self]
  have high : store16 memory p v (p + 1) = (v >>> 8).toUInt8 := update_self _ _ _
  rw [low,high,UInt16.toNat_toUInt8,UInt16.toNat_toUInt8,UInt16.toNat_shiftRight,show (8 : UInt16).toNat % 16 = 8 from rfl,
    Nat.shiftRight_eq_div_pow]
  omega

theorem store32_value (memory : Nat → UInt8) (p : Nat) (v : UInt32) :
    (store32 memory p v p).toNat + 256 * (store32 memory p v (p + 1)).toNat + 65536 * (store32 memory p v (p + 2)).toNat +
      16777216 * (store32 memory p v (p + 3)).toNat = v.toNat := by
  have bound := v.toNat_lt
  obtain ⟨low,high⟩ := halves v
  have first := store16_value memory p (v &&& 0x0000ffff).toUInt16
  unfold store32
  generalize store16 memory p (v &&& 0x0000ffff).toUInt16 = m at first ⊢
  have second := store16_value m (p + 2) (v >>> 16).toUInt16
  rw [@store16_outside _ (p + 2) p _ (by omega),@store16_outside _ (p + 2) (p + 1) _ (by omega)]
  simp only [Nat.add_assoc,Nat.reduceAdd] at second
  omega

/-- The processor reads the gate that was set. -/
theorem idt_set_gate (memory : Nat → UInt8) (idt i : Nat) (address : UInt32) :
    readGate (idt_set memory idt i address) (idt + 8 * i) = interruptGate address := by
  have bound := address.toNat_lt
  obtain ⟨low,high⟩ := halves address
  generalize place : idt + 8 * i = desc
  have stores : idt_set memory idt i address = store16 (update (update (store16 (store16 memory desc
      (address &&& 0x0000ffff).toUInt16) (desc + 2) KERNEL_CODE_SELECTOR) (desc + 4) 0x00) (desc + 5) 0xEE) (desc + 6)
      (address >>> 16).toUInt16 := by
    rw [← place]
    rfl
  rw [stores]
  have first := store16_value memory desc (address &&& 0x0000ffff).toUInt16
  generalize store16 memory desc (address &&& 0x0000ffff).toUInt16 = m1 at first ⊢
  have second := store16_value m1 (desc + 2) KERNEL_CODE_SELECTOR
  have kept : ∀ p, p < desc + 2 → store16 m1 (desc + 2) KERNEL_CODE_SELECTOR p = m1 p := fun p below =>
    store16_outside _ (.inl below)
  generalize store16 m1 (desc + 2) KERNEL_CODE_SELECTOR = m2 at second kept ⊢
  have third := store16_value (update (update m2 (desc + 4) 0x00) (desc + 5) 0xEE) (desc + 6) (address >>> 16).toUInt16
  have before : ∀ p, p < desc + 6 → store16 (update (update m2 (desc + 4) 0x00) (desc + 5) 0xEE) (desc + 6)
      (address >>> 16).toUInt16 p = update (update m2 (desc + 4) 0x00) (desc + 5) 0xEE p := fun p below =>
    store16_outside _ (.inl below)
  have early : ∀ p, p < desc + 4 → update (update m2 (desc + 4) 0x00) (desc + 5) 0xEE p = m2 p := fun p below => by
    rw [update_of_ne (by omega),update_of_ne (by omega)]
  have attributes : update (update m2 (desc + 4) 0x00) (desc + 5) 0xEE (desc + 5) = 0xEE := update_self _ _ _
  simp only [Nat.add_assoc,Nat.reduceAdd] at second third
  unfold readGate interruptGate
  rw [before (desc + 5) (by omega),attributes,before desc (by omega),before (desc + 1) (by omega),before (desc + 2) (by omega),
    before (desc + 3) (by omega),early desc (by omega),early (desc + 1) (by omega),early (desc + 2) (by omega),
    early (desc + 3) (by omega),kept desc (by omega),kept (desc + 1) (by omega)]
  rw [Gate.mk.injEq]
  refine ⟨by omega,second,rfl,rfl,rfl⟩

/-- The gates below a number are set to their stubs, and nothing else has changed. -/
structure Filled (memory : Nat → UInt8) (idt : Nat) (interrupt_pointer_table : Nat → UInt32) (n : Nat)
    (after : Nat → UInt8) : Prop where
  gates : ∀ i < n, readGate after (idt + 8 * i) = interruptGate (interrupt_pointer_table i)
  others : ∀ p, p < idt ∨ idt + 8 * n ≤ p → after p = memory p

theorem filled_range (memory : Nat → UInt8) (idt : Nat) (table : Nat → UInt32) (n : Nat) : Filled memory idt table n
    ((List.range n).foldl (fun memory i => idt_set memory idt i (table i)) memory) := by
  induction n with
  | zero => exact ⟨fun i none => absurd none (Nat.not_lt_zero i),fun p _ => rfl⟩
  | succ n ih =>
    rw [List.range_succ,List.foldl_append,List.foldl_cons,List.foldl_nil]
    refine ⟨fun i inside => ?_,fun p outside => ?_⟩
    · by_cases last : i = n
      · rw [last]
        exact idt_set_gate _ idt n (table n)
      · rw [← ih.gates i (by omega)]
        exact readGate_congr fun p _ _ => idt_set_outside (by omega)
    · rw [idt_set_outside (by omega)]
      exact ih.others p (by omega)

theorem store32_outside (v : UInt32) (outside : p < entry ∨ entry + 4 ≤ p) : store32 memory entry v p = memory p := by
  unfold store32
  rw [store16_outside _ (by omega),store16_outside _ (by omega)]

/-- The register is loaded with the fields of the structure. -/
theorem idt_load_stored (memory : Nat → UInt8) (ptr : Nat) (limit : UInt16) (base : UInt32) :
    idt_load (store32 (store16 memory ptr limit) (ptr + 2) base) ptr = ⟨limit.toNat,base.toNat⟩ := by
  have first := store16_value memory ptr limit
  generalize store16 memory ptr limit = m at first ⊢
  have second := store32_value m (ptr + 2) base
  unfold idt_load
  rw [store32_outside base (by omega : ptr < ptr + 2 ∨ _),store32_outside base (by omega : ptr + 1 < ptr + 2 ∨ _),first]
  exact congrArg (Idtr.mk limit.toNat) second

theorem idt_load_congr (same : ∀ p, entry ≤ p → p < entry + 6 → memory p = memory' p) :
    idt_load memory entry = idt_load memory' entry := by
  have byte : ∀ k < 6, memory (entry + k) = memory' (entry + k) := fun k small => same _ (Nat.le_add_right _ _) (by omega)
  unfold idt_load
  rw [same entry (Nat.le_refl _) (by omega),byte 1 (by decide),byte 2 (by decide),byte 3 (by decide),byte 4 (by decide),
    byte 5 (by decide)]

/-- The exceptions get their handler, and the other interrupts keep what they had. -/
theorem register_exceptions_eq {α : Type} (handler : α) (callbacks : Nat → Option α) (n k : Nat) (small : k ≤ SIMPOS_TOTAL_INTERRUPTS) :
    register_exceptions handler callbacks k n = if n < k then some handler else callbacks n := by
  simp only [SIMPOS_TOTAL_INTERRUPTS] at small
  induction k with
  | zero => simp [register_exceptions]
  | succ k ih =>
    unfold register_exceptions at ih ⊢
    rw [List.range_succ,List.foldl_append,List.foldl_cons,List.foldl_nil,idt_register_interrupt_callback,
      if_neg (by simp only [SIMPOS_TOTAL_INTERRUPTS]; omega)]
    dsimp only
    rw [update_apply,ih (by omega),Int.toNat_natCast]
    by_cases last : n = k
    · simp [last]
    · rw [if_neg last]
      congr 1
      simp
      omega

end

/-! ### Commands -/

section
variable {α : Type}

/-- Nothing where the kernel panics. -/
def isr80h_register_command (isr80h_commands : Nat → Option α) (command_id : Int) (command : α) : Option (Nat → Option α) :=
  if command_id < 0 ∨ command_id ≥ SIMPOS_MAX_ISR80H_COMMANDS then none
  else if (isr80h_commands command_id.toNat).isSome then none
  else some (update isr80h_commands command_id.toNat (some command))

/-- The command that `isr80h_handle_command` calls; it returns 0 where there is none. -/
def isr80h_command (isr80h_commands : Nat → Option α) (command : Int) : Option α :=
  if command < 0 ∨ command ≥ SIMPOS_MAX_ISR80H_COMMANDS then none else isr80h_commands command.toNat

/-- Commands are registered one after the other. -/
def registered (isr80h_commands : Nat → Option α) (registrations : List (Int × α)) : Option (Nat → Option α) :=
  registrations.foldlM (fun commands registration => isr80h_register_command commands registration.1 registration.2)
    isr80h_commands

/-- The number is one that a command can have and has none yet. -/
def Free (isr80h_commands : Nat → Option α) (n : Int) : Prop :=
  0 ≤ n ∧ n < SIMPOS_MAX_ISR80H_COMMANDS ∧ isr80h_command isr80h_commands n = none

variable {commands after : Nat → Option α} {n m : Int} {command : α} {registrations : List (Int × α)}

theorem isr80h_command_inside (low : 0 ≤ n) (high : n < SIMPOS_MAX_ISR80H_COMMANDS) :
    isr80h_command commands n = commands n.toNat := by
  unfold isr80h_command
  rw [if_neg (by omega)]

/-- A registration panics but for a number that is free, and leaves every other number alone. -/
theorem register_command_free (free : Free commands n) : ∃ after, isr80h_register_command commands n command = some after ∧
    ∀ m, isr80h_command after m = if m = n then some command else isr80h_command commands m := by
  obtain ⟨low,high,none⟩ := free
  rw [isr80h_command_inside low high] at none
  refine ⟨_,by rw [isr80h_register_command,if_neg (by omega),none,if_neg (by simp)],fun m => ?_⟩
  unfold isr80h_command
  by_cases outside : m < 0 ∨ m ≥ SIMPOS_MAX_ISR80H_COMMANDS
  · rw [if_pos outside,if_pos outside,if_neg (by omega)]
  · rw [if_neg outside,if_neg outside,update_apply]
    by_cases same : m = n
    · rw [if_pos (congrArg Int.toNat same),if_pos same]
    · rw [if_neg (by omega),if_neg same]

theorem register_command_taken (taken : ¬Free commands n) : isr80h_register_command commands n command = none := by
  unfold isr80h_register_command
  split_ifs with outside some
  · rfl
  · rfl
  · refine absurd ⟨by omega,by omega,?_⟩ taken
    rw [isr80h_command_inside (by omega) (by omega)]
    exact Option.not_isSome_iff_eq_none.mp some

/-- Registrations come to an end without a panic exactly when their numbers were free and none is given
    twice; then every number has the command it was given, or the one it had before. -/
theorem registrations_iff (commands : Nat → Option α) (registrations : List (Int × α)) :
    ((registered commands registrations).isSome ↔
      (∀ r ∈ registrations, Free commands r.1) ∧ (registrations.map Prod.fst).Nodup) ∧
    ∀ after, registered commands registrations = some after →
      ∀ n, isr80h_command after n = (registrations.lookup n).or (isr80h_command commands n) := by
  induction registrations generalizing commands with
  | nil =>
    refine ⟨by simp [registered],fun after done n => ?_⟩
    cases done
    rfl
  | cons r rest ih =>
    have step : registered commands (r :: rest) = (isr80h_register_command commands r.1 r.2).bind fun next => registered next rest :=
      List.foldlM_cons
    rw [step]
    by_cases free : Free commands r.1
    · obtain ⟨next,run,others⟩ : ∃ next, isr80h_register_command commands r.1 r.2 = some next ∧
          ∀ m, isr80h_command next m = if m = r.1 then some r.2 else isr80h_command commands m := register_command_free free
      obtain ⟨ends,holds⟩ := ih next
      rw [run,Option.bind_some]
      have still : ∀ m, Free next m ↔ Free commands m ∧ m ≠ r.1 := by
        intro m
        unfold Free
        rw [others m]
        by_cases same : m = r.1
        · simp [same]
        · simp [same]
      refine ⟨?_,fun after done n => ?_⟩
      · rw [ends,List.forall_mem_cons,List.map_cons,List.nodup_cons]
        constructor
        · rintro ⟨all,apart⟩
          refine ⟨⟨free,fun x member => ((still x.1).mp (all x member)).1⟩,fun again => ?_,apart⟩
          obtain ⟨x,member,same⟩ := List.mem_map.mp again
          exact ((still x.1).mp (all x member)).2 same
        · rintro ⟨⟨_,all⟩,first,apart⟩
          refine ⟨fun x member => (still x.1).mpr ⟨all x member,fun same => first ?_⟩,apart⟩
          exact List.mem_map.mpr ⟨x,member,same⟩
      · rw [holds after done n,others n,List.lookup_cons]
        by_cases same : n = r.1
        · subst same
          have fresh : rest.lookup r.1 = none := by
            have apart := (ends.mp (Option.isSome_iff_exists.mpr ⟨after,done⟩)).1
            rw [List.lookup_eq_none_iff]
            intro x member
            simpa using fun same => ((still x.1).mp (apart x member)).2 same.symm
          simp [fresh]
        · have other : (n == r.1) = false := by simpa using same
          rw [other,if_neg same]
    · rw [register_command_taken free]
      refine ⟨⟨fun done => absurd done (by simp),fun all => absurd (all.1 r List.mem_cons_self) free⟩,fun after done => ?_⟩
      cases done

end

end SimpOS.InterruptTables
