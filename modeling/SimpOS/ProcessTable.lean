import SimpOS.BinaryLoads
import SimpOS.Runs

/-!
The table of processes over whole runs of loading, switching and terminating. A slot that is
taken refers to a process that was loaded and not terminated since, and so does the
current process from the first switch on.
-/
namespace SimpOS.ProcessTable
open SimpOS.Strings SimpOS.HeapLayout SimpOS.Processes SimpOS.ProcessLoads SimpOS.BinaryLoads SimpOS.Runs

variable {φ : Type}

/-- The kernel, the processes that were loaded and not terminated since, and whether one has
    been switched to. -/
structure TableState (φ : Type) where
  world : World φ
  live : List Nat
  switched : Bool

inductive ProcessCall
  | load (filename : CString)
  | load_switch (filename : CString)
  | terminate (process : Nat)

def Registered (s : World φ) (process : Nat) : Prop := process ≠ 0 ∧ ∃ i, s.processes i = process

/-- The task is none of a live process. -/
def NotInUse (s : TableState φ) (task : Nat) : Prop := ∀ p ∈ s.live, (s.world.process p).task ≠ task

/-- The blocks that a load asks for are granted: where there is a slot for it, the process gets
    a block that no live one has, and its task one that no task of a live one has. -/
def LoadGranted (services : FileServices φ) (filename : CString) (s : TableState φ) : Prop :=
  (∃ i, FirstFree s.world.processes i) → process_block s.world ≠ 0 ∧ process_block s.world ∉ s.live ∧
    TaskGranted services filename s.world (NotInUse s)

/-- One call that comes back, on a registered process where it terminates one. -/
def Step (services : FileServices φ) (s : TableState φ) : ProcessCall → TableState φ → Prop
  | .load filename, t => LoadGranted services filename s ∧ ∃ res process,
      process_load services filename s.world = .ok (res,process,t.world) ∧
      t.live = (if res = 0 then process :: s.live else s.live) ∧ t.switched = s.switched
  | .load_switch filename, t => LoadGranted services filename s ∧ ∃ res process,
      process_load_switch services filename s.world = .ok (res,process,t.world) ∧
      t.live = (if res = 0 then process :: s.live else s.live) ∧ t.switched = (s.switched || decide (res = 0))
  | .terminate process, t => Registered s.world process ∧ process_terminate process s.world = .ok t.world ∧
      t.live = s.live.erase process ∧ t.switched = s.switched

/-- A slot that is taken has a live process, which knows the slot, and whose task knows it. -/
structure Entry (s : TableState φ) (i : Nat) : Prop where
  below : i < SIMPOS_MAX_PROCESSES
  live : s.world.processes i ∈ s.live
  id : (s.world.process (s.world.processes i)).id = i
  task : (s.world.task (s.world.process (s.world.processes i)).task).process = s.world.processes i

/-- What holds in every state. -/
structure TableCorrect (s : TableState φ) : Prop where
  entry : ∀ i, s.world.processes i ≠ 0 → Entry s i
  distinct : ∀ i j, s.world.processes i ≠ 0 → s.world.processes i = s.world.processes j → i = j
  before : s.switched = false → s.world.current_process = 0
  after : s.switched = true → Registered s.world s.world.current_process ∧ s.world.current_process ∈ s.live
  last : s.switched = true → ∀ p, Registered s.world p →
    (process_terminate p s.world = .error .panic ↔ ∀ q, Registered s.world q → q = p)

/-- What a call does to the slots: a load leaves those that are taken, and terminating a process
    empties its slot and no other. -/
def KeepsSlots (s : TableState φ) : ProcessCall → TableState φ → Prop
  | .load _, t => ∀ i, s.world.processes i ≠ 0 → t.world.processes i = s.world.processes i
  | .load_switch _, t => ∀ i, s.world.processes i ≠ 0 → t.world.processes i = s.world.processes i
  | .terminate process, t => process ∉ t.live ∧ ∃ i, s.world.processes i = process ∧ t.world.processes i = 0 ∧
      ∀ j, j ≠ i → t.world.processes j = s.world.processes j

/-- The invariant: every taken slot is as it should be, and so is the current process. -/
structure Invariant (s : TableState φ) : Prop where
  entry : ∀ i, s.world.processes i ≠ 0 → Entry s i
  nodup : s.live.Nodup
  before : s.switched = false → s.world.current_process = 0
  after : s.switched = true → Registered s.world s.world.current_process

section
variable {services : FileServices φ} {s t : TableState φ} {filename : CString} {p out : Nat} {res : Int}

theorem Invariant.distinct (inv : Invariant s) {i j : Nat} (taken : s.world.processes i ≠ 0)
    (same : s.world.processes i = s.world.processes j) : i = j := by
  have first := (inv.entry i taken).id
  rw [same] at first taken
  exact first.symm.trans (inv.entry j taken).id

/-- A registered process is at the slot it knows. -/
theorem Invariant.slot (inv : Invariant s) (registered : Registered s.world p) : s.world.processes (s.world.process p).id = p := by
  obtain ⟨some,i,rfl⟩ := registered
  rw [(inv.entry i some).id]

theorem Invariant.live (inv : Invariant s) (registered : Registered s.world p) : p ∈ s.live := by
  obtain ⟨some,i,rfl⟩ := registered
  exact (inv.entry i some).live

/-- Terminating panics where nothing is left to switch to. -/
theorem terminate_panics_iff (inv : Invariant s) (switched : s.switched = true) (registered : Registered s.world p) :
    process_terminate p s.world = .error .panic ↔ ∀ q, Registered s.world q → q = p := by
  have slot := inv.slot registered
  have current := inv.after switched
  rcases process_terminate_cases p s.world with ⟨w,result,terminated⟩ | ⟨_,empty,panics⟩
  · rw [result]
    refine ⟨fun panic => absurd panic (by simp),fun only => ?_⟩
    have same := only _ current
    have there := terminated.current_process
    rw [if_pos same] at there
    obtain ⟨i,taken,_⟩ := there
    by_cases own : i = (s.world.process p).id
    · rw [own] at taken
      exact absurd (Function.update_self _ _ _) taken.taken
    · have stays : Function.update s.world.processes (s.world.process p).id 0 i = s.world.processes i :=
        Function.update_of_ne own _ _
      have some := taken.taken
      rw [stays] at some
      have there : s.world.processes i = s.world.processes (s.world.process p).id :=
        (only _ ⟨some,i,rfl⟩).trans slot.symm
      exact absurd (inv.distinct some there) own
  · refine ⟨fun _ => ?_,fun _ => panics⟩
    rintro q ⟨some,i,rfl⟩
    by_contra other
    have own : i ≠ (s.world.process p).id := by
      rintro rfl
      exact other slot
    have gone := empty i (inv.entry i some).below
    rw [Function.update_of_ne own] at gone
    exact some gone

theorem Invariant.correct (inv : Invariant s) : TableCorrect s :=
  ⟨inv.entry,fun _ _ taken same => inv.distinct taken same,inv.before,
    fun switched => ⟨inv.after switched,inv.live (inv.after switched)⟩,
    fun switched _ registered => terminate_panics_iff inv switched registered⟩

/-- A process other than those at the changed records is registered as before. -/
theorem entry_kept {live : List Nat} {w : World φ} {i : Nat} {switched : Bool} (entry : Entry s i)
    (slot : w.processes i = s.world.processes i) (member : s.world.processes i ∈ live)
    (process : w.process (s.world.processes i) = s.world.process (s.world.processes i))
    (task : w.task (s.world.process (s.world.processes i)).task = s.world.task (s.world.process (s.world.processes i)).task) :
    Entry ⟨w,live,switched⟩ i := by
  refine ⟨entry.below,?_,?_,?_⟩
  · rw [slot]
    exact member
  · rw [slot,process]
    exact entry.id
  · rw [slot,process,task]
    exact entry.task

/-- A failed load leaves every entry. -/
theorem failed_entry (inv : Invariant s) {w : World φ} {switched : Bool} (fresh : p ∉ s.live)
    (failed : LoadFailed (NotInUse s) p s.world w) {i : Nat} (taken : w.processes i ≠ 0) :
    Entry ⟨w,s.live,switched⟩ i := by
  have slot : w.processes i = s.world.processes i := congrFun failed.processes i
  rw [slot] at taken
  have entry := inv.entry i taken
  have other : s.world.processes i ≠ p := fun same => fresh (same ▸ entry.live)
  refine entry_kept entry slot entry.live (failed.others _ other) ?_
  rcases failed.tasks with ⟨same,_⟩ | ⟨task,unused,others,_⟩
  · exact congrFun same _
  · exact others _ (unused _ entry.live)

/-- A load registers the new process and leaves every other entry. -/
theorem loaded_entry (inv : Invariant s) {w : World φ} {switched : Bool} {task slot : Nat} (fresh : p ∉ s.live)
    (first : FirstFree s.world.processes slot) (unused : NotInUse s task) (loaded : Loaded p task slot s.world w) {i : Nat}
    (taken : w.processes i ≠ 0) : Entry ⟨w,p :: s.live,switched⟩ i := by
  by_cases new : i = slot
  · rw [new]
    have here : w.processes slot = p := by rw [loaded.processes,Function.update_self]
    refine ⟨first.below,?_,?_,?_⟩
    · rw [here]
      exact List.mem_cons_self
    · rw [here]
      exact loaded.id
    · rw [here,loaded.own]
      exact loaded.process
  · have stays : w.processes i = s.world.processes i := by rw [loaded.processes,Function.update_of_ne new]
    rw [stays] at taken
    have entry := inv.entry i taken
    have other : s.world.processes i ≠ p := fun same => fresh (same ▸ entry.live)
    exact entry_kept entry stays (List.mem_cons_of_mem _ entry.live) (loaded.others _ other)
      (loaded.tasks _ (unused _ entry.live))

/-- Loading keeps the invariant but for what it says of the current process. -/
theorem loads (inv : Invariant s) (granted : LoadGranted services filename s) {w : World φ}
    (ran : process_load services filename s.world = .ok (res,out,w)) :
    w.current_process = s.world.current_process ∧ (∀ i, s.world.processes i ≠ 0 → w.processes i = s.world.processes i) ∧
    (res = 0 → Registered w out) ∧ (if res = 0 then out :: s.live else s.live).Nodup ∧
    ∀ switched i, w.processes i ≠ 0 → Entry ⟨w,if res = 0 then out :: s.live else s.live,switched⟩ i := by
  rcases process_load_cases rfl (fun slot _ => (granted slot).2.2) ran with
    ⟨failed,kept⟩ | ⟨rfl,rfl,some,slot,task,first,unused,loaded⟩
  · have nonzero : ¬res = 0 := by omega
    rw [if_neg nonzero]
    rcases kept with rfl | ⟨slot,failed⟩
    · exact ⟨rfl,fun _ _ => rfl,fun zero => absurd zero nonzero,inv.nodup,fun _ i taken =>
        ⟨(inv.entry i taken).below,(inv.entry i taken).live,(inv.entry i taken).id,(inv.entry i taken).task⟩⟩
    · exact ⟨failed.current_process,fun i _ => congrFun failed.processes i,fun zero => absurd zero nonzero,inv.nodup,
        fun _ i taken => failed_entry inv (granted slot).2.1 failed taken⟩
  · have fresh := (granted ⟨slot,first⟩).2.1
    rw [if_pos rfl]
    refine ⟨loaded.current_process,fun i taken => ?_,fun _ => ⟨some,slot,?_⟩,List.nodup_cons.mpr ⟨fresh,inv.nodup⟩,
      fun _ i taken => loaded_entry inv fresh first unused loaded taken⟩
    · have other : i ≠ slot := by
        rintro rfl
        exact taken first.free
      rw [loaded.processes,Function.update_of_ne other]
    · rw [loaded.processes,Function.update_self]

theorem kept_slots_registered {w : World φ} (kept : ∀ i, s.world.processes i ≠ 0 → w.processes i = s.world.processes i)
    (registered : Registered s.world p) : Registered w p := by
  obtain ⟨some,i,rfl⟩ := registered
  exact ⟨some,i,kept i some⟩

/-- Terminating a process leaves the entries of the others. -/
theorem terminates (inv : Invariant s) (registered : Registered s.world p) {w : World φ}
    (terminated : Terminated p (s.world.process p).id s.world w) {switched : Bool} {i : Nat} (taken : w.processes i ≠ 0) :
    Entry ⟨w,s.live.erase p,switched⟩ i := by
  have slot := inv.slot registered
  have own : i ≠ (s.world.process p).id := by
    rintro rfl
    rw [terminated.processes,Function.update_self] at taken
    exact taken rfl
  have stays : w.processes i = s.world.processes i := by rw [terminated.processes,Function.update_of_ne own]
  rw [stays] at taken
  have entry := inv.entry i taken
  have other : s.world.processes i ≠ p := fun same => own (inv.distinct taken (same.trans slot.symm))
  exact entry_kept entry stays ((List.mem_erase_of_ne other).mpr entry.live) (terminated.others _ other)
    (congrFun terminated.tasks _)

/-- After a process has been terminated the current one is another of the registered ones. -/
theorem terminated_current (inv : Invariant s) (registered : Registered s.world p) {w : World φ}
    (terminated : Terminated p (s.world.process p).id s.world w) (current : Registered s.world s.world.current_process) :
    Registered w w.current_process := by
  have there := terminated.current_process
  by_cases own : s.world.current_process = p
  · rw [if_pos own] at there
    obtain ⟨i,taken,here⟩ := there
    rw [here]
    exact ⟨taken.taken,i,congrFun terminated.processes i⟩
  · rw [if_neg own] at there
    rw [there]
    obtain ⟨some,i,slot⟩ := current
    have other : i ≠ (s.world.process p).id := by
      rintro rfl
      exact own (slot.symm.trans (inv.slot registered))
    refine ⟨some,i,?_⟩
    rw [terminated.processes,Function.update_of_ne other]
    exact slot

/-- Each call keeps the invariant. -/
theorem invariant_step (inv : Invariant s) {call : ProcessCall} (step : Step services s call t) : Invariant t := by
  obtain ⟨w,live,switched⟩ := t
  cases call with
  | load filename =>
    obtain ⟨granted,res,process,ran,rfl,rfl⟩ := step
    obtain ⟨current,kept,_,nodup,entry⟩ := loads inv granted ran
    refine ⟨entry _,nodup,fun off => current.trans (inv.before off),fun on => ?_⟩
    rw [show (TableState.mk w _ _).world.current_process = s.world.current_process from current]
    exact kept_slots_registered kept (inv.after on)
  | load_switch filename =>
    obtain ⟨granted,res,process,ran,rfl,rfl⟩ := step
    obtain ⟨v,loaded,here⟩ := process_load_switch_ok ran
    dsimp only at here
    obtain ⟨current,kept,registered,nodup,entry⟩ := loads inv granted loaded
    by_cases zero : res = 0
    · rw [if_pos zero] at here
      subst here
      refine ⟨fun i taken => ?_,nodup,fun off => ?_,fun _ => registered zero⟩
      · have same := entry s.switched i taken
        exact ⟨same.below,same.live,same.id,same.task⟩
      · rw [decide_eq_true zero,Bool.or_true] at off
        exact absurd off.symm Bool.false_ne_true
    · rw [if_neg zero] at here
      subst here
      refine ⟨fun i taken => ?_,nodup,fun off => ?_,fun on => ?_⟩
      · have same := entry s.switched i taken
        exact ⟨same.below,same.live,same.id,same.task⟩
      · rw [decide_eq_false zero,Bool.or_false] at off
        exact current.trans (inv.before off)
      · rw [decide_eq_false zero,Bool.or_false] at on
        rw [show (TableState.mk w _ _).world.current_process = s.world.current_process from current]
        exact kept_slots_registered kept (inv.after on)
  | terminate process =>
    obtain ⟨registered,ran,rfl,rfl⟩ := step
    dsimp only at ran
    rcases process_terminate_cases process s.world with ⟨w',result,terminated⟩ | ⟨_,_,panics⟩
    · rw [ran] at result
      cases result
      refine ⟨fun i taken => terminates inv registered terminated taken,inv.nodup.erase process,fun off => ?_,
        fun on => terminated_current inv registered terminated (inv.after on)⟩
      have there := terminated.current_process
      have none := inv.before off
      rw [none,if_neg registered.1.symm] at there
      exact there
    · rw [ran] at panics
      cases panics

/-- What each call does to the slots. -/
theorem step_keeps_slots (inv : Invariant s) {call : ProcessCall} (step : Step services s call t) : KeepsSlots s call t := by
  obtain ⟨w,live,switched⟩ := t
  cases call with
  | load filename =>
    obtain ⟨granted,res,process,ran,_⟩ := step
    exact (loads inv granted ran).2.1
  | load_switch filename =>
    obtain ⟨granted,res,process,ran,_⟩ := step
    obtain ⟨v,loaded,here⟩ := process_load_switch_ok ran
    dsimp only at here
    have kept := (loads inv granted loaded).2.1
    have same : w.processes = v.processes := by
      rw [here]
      split_ifs
      · rfl
      · rfl
    exact fun i taken => (congrFun same i).trans (kept i taken)
  | terminate process =>
    obtain ⟨registered,ran,rfl,rfl⟩ := step
    dsimp only at ran
    rcases process_terminate_cases process s.world with ⟨w',result,terminated⟩ | ⟨_,_,panics⟩
    · rw [ran] at result
      cases result
      refine ⟨inv.nodup.not_mem_erase,(s.world.process process).id,inv.slot registered,?_,fun j other => ?_⟩
      · exact (congrFun terminated.processes _).trans (Function.update_self _ _ _)
      · exact (congrFun terminated.processes j).trans (Function.update_of_ne other _ _)
    · rw [ran] at panics
      cases panics

end

/-- In every run of loads, switching loads and terminations of registered processes the table is
    correct in every state, and every call does to the slots what it should. -/
theorem process_table_invariant {services : FileServices φ} {start : World φ} (empty : ∀ i, start.processes i = 0)
    (none : start.current_process = 0) {moves : List (ProcessCall × TableState φ)}
    (run : Run (Step services) ⟨start,[],false⟩ moves) :
    Always TableCorrect ⟨start,[],false⟩ moves ∧ Run KeepsSlots ⟨start,[],false⟩ moves := by
  have first : Invariant ⟨start,[],false⟩ :=
    ⟨fun i taken => absurd (empty i) taken,List.nodup_nil,fun _ => none,fun on => absurd on Bool.false_ne_true⟩
  have kept : ∀ (s : TableState φ) (call : ProcessCall) (t : TableState φ), Invariant s → Step services s call t → True →
      Invariant t := fun s call t inv step _ => invariant_step inv step
  refine ⟨(always_of_kept kept first run each_true).mono fun _ inv => inv.correct,?_⟩
  exact run_of_kept kept (fun s call t inv step _ => step_keeps_slots inv step) first run each_true

/-- A first program is loaded and switched to, a second one is loaded, and the first terminated. -/
theorem process_table_two_programs : ∃ (moves : List (ProcessCall × TableState Unit)) (a : Nat),
    moves.map Prod.fst = [.load_switch [105],.load [105],.terminate a] ∧ Run (Step zeroFiles) ⟨bootWorld,[],false⟩ moves ∧
    Always TableCorrect ⟨bootWorld,[],false⟩ moves := by
  have few : blocks 32 = 1 := by decide
  obtain ⟨a,ta,u,live,first,count⟩ := process_load_binary_file (zeroFiles_binary [105]) (by decide) (by decide)
    bootWorld_laid (by rw [few]; decide) bootWorld_slot
  have slots : ∀ i, (process_switch a u).processes i = if i = 0 then a else 0 := by
    intro i
    change u.processes i = _
    rw [first.loaded.processes,Function.update_apply]
    rfl
  have free : FirstFree (process_switch a u).processes 1 :=
    ⟨by decide,by rw [slots]; rfl,fun j below => by rw [slots,if_pos (by omega)]; exact first.some⟩
  have laid : KernelHeap.Laid (process_switch a u).kernel.kernel_heap live := first.laid
  obtain ⟨b,tb,w,live',second,_⟩ := process_load_binary_file (zeroFiles_binary [105])
    (by decide) (by decide) laid (by rw [count,few]; decide) free
  have apart : b ≠ a := fun same => second.process (same ▸ first.held.1)
  have own : w.process a = u.process a := second.loaded.others a (Ne.symm apart)
  have id : (w.process a).id = 0 := by rw [own]; exact first.loaded.id
  have slots' : ∀ i, w.processes i = if i = 1 then b else if i = 0 then a else 0 := by
    intro i
    rw [second.loaded.processes,Function.update_apply,slots]
  have registered : Registered w a := ⟨first.some,0,by rw [slots']; rfl⟩
  rcases process_terminate_cases a w with ⟨x,ended,_⟩ | ⟨_,empty,_⟩
  · have run : Run (Step zeroFiles) ⟨bootWorld,[],false⟩ [(.load_switch [105],⟨process_switch a u,[a],true⟩),
        (.load [105],⟨w,[b,a],true⟩),(.terminate a,⟨x,[b],true⟩)] := by
      refine ⟨⟨fun _ => ⟨?_,List.not_mem_nil,?_⟩,0,a,?_,rfl,rfl⟩,⟨fun _ => ⟨?_,?_,?_⟩,0,b,second.ran,rfl,rfl⟩,
        ⟨registered,ended,?_,rfl⟩,trivial⟩
      · rw [first.block]
        exact first.some
      · intro res v prepared ok
        obtain ⟨t,room,_⟩ := first.granted res v prepared ok
        exact ⟨t,room,fun p member => absurd member List.not_mem_nil⟩
      · unfold process_load_switch
        rw [first.ran]
        rfl
      · rw [second.block]
        exact second.some
      · rw [second.block]
        exact fun member => apart (List.mem_singleton.mp member)
      · intro res v prepared ok
        obtain ⟨t,room,rfl⟩ := second.granted res v prepared ok
        refine ⟨t,room,fun p member same => second.task ?_⟩
        rw [List.mem_singleton.mp member] at same
        rw [← same,show ((process_switch a u).process a).task = ta from first.loaded.own]
        exact first.held.2.1
      · simp [apart]
    exact ⟨_,a,rfl,run,(process_table_invariant (fun _ => rfl) rfl run).1⟩
  · have there := empty 1 (by decide)
    rw [id,Function.update_of_ne (by decide),slots',if_pos rfl] at there
    exact absurd there second.some

end SimpOS.ProcessTable
