import SimpOS.ProcessMemory
import SimpOS.Runs
import Mathlib.Data.List.Nodup

/-!
What a process's allocation slots keep of the allocations made through them. A request
is always noted in slot 1, so the record is right exactly while a process has at most
one live allocation: a second one takes the slot of the first.
-/
namespace SimpOS.ProcessAllocations
open SimpOS.Machine SimpOS.Memory SimpOS.Extents SimpOS.HeapBlocks SimpOS.HeapLayout SimpOS.Paging SimpOS.AddressSpaces
  SimpOS.KernelHeap SimpOS.ProcessMemory SimpOS.Runs

/-- The kernel, a process, and the allocations the process got and has not freed. -/
structure ProcessState where
  kernel : Kernel
  process : Process
  live : List ProcessAllocation

inductive ProcessCall
  | malloc (size : Nat)
  | free (allocation : ProcessAllocation)

/-- A `process_malloc` that succeeds, or a `process_free` of a live pointer. -/
def Step (s : ProcessState) : ProcessCall → ProcessState → Prop
  | .malloc size, t => 1 ≤ size ∧ size < 4294967296 ∧ (process_malloc s.kernel s.process size).1 ≠ 0 ∧
      t = ⟨(process_malloc s.kernel s.process size).2.1,(process_malloc s.kernel s.process size).2.2,
        ⟨(process_malloc s.kernel s.process size).1,size⟩ :: s.live⟩
  | .free a, t => a ∈ s.live ∧
      t = ⟨(process_free s.kernel s.process a.ptr).1,(process_free s.kernel s.process a.ptr).2,s.live.erase a⟩

/-- The non-null entries of the process's allocations. -/
def recorded (process : Process) : List ProcessAllocation :=
  ((List.range 1024).filter fun i => (process.allocations i).ptr ≠ 0).map process.allocations

/-- The blocks the heap took for an allocation. -/
def extentOf (a : ProcessAllocation) : Extent :=
  ⟨((a.ptr : Int) - SIMPOS_HEAP_ADDRESS) / SIMPOS_HEAP_BLOCK_SIZE,requestBlocks a.size⟩

/-- No allocation is lost: the slots hold exactly the live ones, freeing one releases exactly
    its blocks, and terminating leaves the heap's table as it was when the process started. -/
structure Kept (start : Heap) (s : ProcessState) : Prop where
  recorded : (recorded s.process).Perm s.live
  released : ∀ a ∈ s.live, ∀ i : Int, 0 ≤ i → i < s.kernel.kernel_heap.table.total →
    (process_free s.kernel s.process a.ptr).1.kernel_heap.table.entries i =
      if i ∈ extentOf a then HEAP_BLOCK_TABLE_ENTRY_FREE else s.kernel.kernel_heap.table.entries i
  terminated : ∀ i : Int, 0 ≤ i → i < start.table.total →
    (process_terminate_allocations s.kernel s.process).1.kernel_heap.table.entries i = start.table.entries i

/-- Every slot but slot 1 is null. -/
def OnlySlot1 (process : Process) : Prop := ∀ j < 1024, j ≠ 1 → (process.allocations j).ptr = 0

/-- The one live allocation stands in slot 1 with its blocks taken, or there is none. -/
private inductive Single (others : List Extent) : ProcessState → Prop
  | none {kernel : Kernel} {process : Process} : Laid kernel.kernel_heap others →
      (∀ j < 1024, (process.allocations j).ptr = 0) → Single others ⟨kernel,process,[]⟩
  | one {kernel : Kernel} {process : Process} {b : Int} {size : Nat} : FreeAt others b →
      Laid kernel.kernel_heap (withGranted b (requestBlocks size) others) → OnlySlot1 process →
      process.allocations 1 = ⟨blockAddress b,size⟩ →
      Mappable (blockAddress b) (blockAddress b) (paging_align_address (offset (blockAddress b) size)) →
      Single others ⟨kernel,process,[⟨blockAddress b,size⟩]⟩

private theorem recorded_null {process : Process} (null : ∀ j < 1024, (process.allocations j).ptr = 0) :
    recorded process = [] := by
  have empty : (List.range 1024).filter (fun i => (process.allocations i).ptr ≠ 0) = [] := by
    rw [List.filter_eq_nil_iff]
    intro j member
    simp [null j (List.mem_range.mp member)]
  rw [recorded,empty,List.map_nil]
private theorem recorded_single {process : Process} (only : OnlySlot1 process)
    (nonnull : (process.allocations 1).ptr ≠ 0) : recorded process = [process.allocations 1] := by
  have slots : (List.range 1024).filter (fun i => (process.allocations i).ptr ≠ 0) =
      (List.range 1024).filter (fun i => i == 1) := by
    apply List.filter_congr
    intro j member
    by_cases one : j = 1
    · simp [one,nonnull]
    · simp [one,only j (List.mem_range.mp member) one]
  have one : (List.range 1024).count 1 = 1 := List.nodup_iff_count_eq_one.mp List.nodup_range 1 (by simp)
  rw [recorded,slots,List.filter_beq,one,List.replicate_one,List.map_cons,List.map_nil]

theorem terminate_null {process : Process} (remaining : Nat) :
    ∀ (i : Nat) (k : Kernel), (∀ j, i ≤ j → j < i + remaining → (process.allocations j).ptr = 0) →
      process_terminate_allocations_loop remaining i k process = (k,process) := by
  induction remaining with
  | zero =>
    intro i k _
    rfl
  | succ remaining ih =>
    intro i k null
    rw [process_terminate_allocations_loop,null i (Nat.le_refl i) (by omega)]
    exact ih (i + 1) k fun j low below => null j (by omega) (by omega)

/-- Freeing the one live allocation finds it in slot 1. -/
theorem process_free_slot (kernel : Kernel) {process : Process} {ptr size : Nat} (nonnull : ptr ≠ 0)
    (only : OnlySlot1 process) (slot : process.allocations 1 = ⟨ptr,size⟩)
    (accepted : Mappable ptr ptr (paging_align_address (offset ptr size))) : process_free kernel process ptr =
      (⟨(paging_map_to kernel.memory process.page_directory ptr ptr (paging_align_address (offset ptr size)) 0).2,
        heap_free kernel.kernel_heap ptr⟩,remove_process_allocation process ptr) := by
  have first : ∀ j < 1024, (process.allocations j).ptr = ptr → j = 1 := by
    intro j below same
    by_contra other
    exact nonnull (same ▸ only j below other)
  rcases process_free_cases kernel process ptr with ⟨_,absent⟩ | ⟨j,below,same,⟨refused,_⟩ | ⟨_,result⟩⟩
  · exact absurd (by rw [slot]) (absent 1 (by decide))
  · rw [first j below same,slot] at refused
    exact absurd accepted refused
  · rw [first j below same,slot] at result
    exact result

private theorem process_free_single (kernel : Kernel) {process : Process} {ptr size : Nat} (nonnull : ptr ≠ 0)
    (only : OnlySlot1 process) (slot : process.allocations 1 = ⟨ptr,size⟩)
    (accepted : Mappable ptr ptr (paging_align_address (offset ptr size))) :
    (process_free kernel process ptr).1.kernel_heap = heap_free kernel.kernel_heap ptr ∧
    ∀ j < 1024, ((process_free kernel process ptr).2.allocations j).ptr = 0 := by
  have result := process_free_slot kernel nonnull only slot accepted
  constructor
  · simp only [result]
  · intro i inside
    simp only [result]
    rw [remove_process_allocation_allocations process ptr i inside]
    by_cases here : (process.allocations i).ptr = ptr
    · rw [if_pos here]
    · rw [if_neg here]
      exact only i inside fun one => here (by rw [one,slot])

private theorem terminate_single {kernel : Kernel} {process : Process} {ptr size : Nat} (nonnull : ptr ≠ 0)
    (only : OnlySlot1 process) (slot : process.allocations 1 = ⟨ptr,size⟩)
    (accepted : Mappable ptr ptr (paging_align_address (offset ptr size))) :
    (process_terminate_allocations kernel process).1.kernel_heap = heap_free kernel.kernel_heap ptr := by
  obtain ⟨heap,null⟩ := process_free_single kernel nonnull only slot accepted
  have zero : (process.allocations 0).ptr = 0 := only 0 (by decide) (by decide)
  have one : (process.allocations 1).ptr = ptr := by rw [slot]
  rw [process_terminate_allocations,process_terminate_allocations_loop,zero]
  simp only [ne_eq,not_true_eq_false,if_false]
  rw [process_terminate_allocations_loop]
  simp only [Nat.zero_add,one,ne_eq,nonnull,not_false_eq_true,if_true]
  rw [terminate_null _ _ _ fun j _ below => null j (by omega)]
  exact heap

private theorem Single.kept {others : List Extent} {start : Heap} (laid : Laid start others) {s : ProcessState}
    (single : Single others s) : Kept start s := by
  have startTotal := laid.total_eq
  cases single with
  | none now null =>
    refine ⟨by rw [recorded_null null],fun a member => (nomatch member),fun i low high => ?_⟩
    rw [process_terminate_allocations,terminate_null _ _ _ fun j _ below => null j (by omega)]
    exact laid.entries_eq now low high
  | @one kernel process b size free now only slot accepted =>
    have nonnull : blockAddress b ≠ 0 := by have := blockAddress_pos b; omega
    have freed := heap_free_granted now free
    have heap := (process_free_single kernel nonnull only slot accepted).1
    refine ⟨?_,?_,fun i low high => ?_⟩
    · rw [recorded_single only (by rw [slot]; exact nonnull),slot]
    · intro a member i low high
      obtain rfl := List.mem_singleton.mp member
      have extent : extentOf ⟨blockAddress b,size⟩ = ⟨b,requestBlocks size⟩ := by
        have := free.low
        simp only [extentOf,blockAddress,SIMPOS_HEAP_ADDRESS,SIMPOS_HEAP_BLOCK_SIZE,Extent.mk.injEq,and_true]
        omega
      rw [heap,extent]
      exact entries_released now freed low high
    · rw [terminate_single nonnull only slot accepted]
      exact laid.entries_eq freed low high

/-- What a successful request does to a process whose other slots are null. -/
private theorem malloc_slot {s t : ProcessState} {others : List Extent} (laid : Laid s.kernel.kernel_heap others)
    {size : Nat} (step : Step s (.malloc size) t) :
    ∃ b, FreeAt others b ∧ Laid t.kernel.kernel_heap (withGranted b (requestBlocks size) others) ∧
      t.process.allocations = Function.update s.process.allocations 1 ⟨blockAddress b,size⟩ ∧
      t.live = ⟨blockAddress b,size⟩ :: s.live ∧
      Mappable (blockAddress b) (blockAddress b) (paging_align_address (offset (blockAddress b) size)) := by
  obtain ⟨_,_,granted,rfl⟩ := step
  rcases process_malloc_cases laid s.process size with
    ⟨_,refused⟩ | ⟨b,heap,_,free,_,laid',⟨_,taken⟩ | ⟨⟨_,accepted⟩,result⟩⟩
  · exact absurd (by rw [refused]) granted
  · exact absurd (by rw [taken]) granted
  · refine ⟨b,free,?_,?_,?_,accepted⟩
    · simp only [result]
      exact laid'
    · simp only [result]
    · simp only [result]

private theorem onlySlot1_update {process process' : Process} {a : ProcessAllocation}
    (only : OnlySlot1 process) (same : process'.allocations = Function.update process.allocations 1 a) :
    OnlySlot1 process' := by
  intro j below other
  rw [same,Function.update_of_ne other]
  exact only j below other

private theorem Single.step {others : List Extent} {s t : ProcessState} {call : ProcessCall}
    (single : Single others s) (step : Step s call t) (alone : ∀ size, call = .malloc size → s.live = []) :
    Single others t := by
  cases call with
  | malloc size =>
    cases single with
    | none laid null =>
      obtain ⟨b,free,laid',slots,live,accepted⟩ := malloc_slot laid step
      obtain ⟨kernel,process,held⟩ := t
      simp only at live slots laid'
      subst live
      exact .one free laid' (onlySlot1_update (fun j below _ => null j below) slots) (by rw [slots]; simp) accepted
    | one => cases alone size rfl
  | free a =>
    obtain ⟨member,rfl⟩ := step
    cases single with
    | none => cases member
    | @one kernel process b size free laid only slot accepted =>
      obtain rfl := List.mem_singleton.mp member
      have nonnull : blockAddress b ≠ 0 := by have := blockAddress_pos b; omega
      obtain ⟨heap,null⟩ := process_free_single kernel nonnull only slot accepted
      rw [List.erase_cons_head]
      refine .none ?_ null
      rw [heap]
      exact heap_free_granted laid free

/-- A second allocation takes the slot of the first. -/
private theorem Single.second {others : List Extent} {start : Heap} {s t : ProcessState} {size : Nat}
    (single : Single others s) (step : Step s (.malloc size) t) (kept : Kept start t) : s.live = [] := by
  cases single with
  | none => rfl
  | @one kernel process b size' free laid only slot accepted =>
    obtain ⟨b',_,_,slots,live,_⟩ := malloc_slot laid step
    have nonnull : (t.process.allocations 1).ptr ≠ 0 := by
      have := blockAddress_pos b'
      rw [slots,Function.update_self]
      simp only
      omega
    have length := kept.recorded.length_eq
    rw [recorded_single (onlySlot1_update only slots) nonnull,live] at length
    cases length

/-- No allocation is lost in exactly the runs that ask for memory only while the process
    has none. -/
theorem process_allocations_kept_iff (kernel : Kernel) (process : Process) (others : List Extent)
    (laid : Laid kernel.kernel_heap others) (empty : ∀ j < 1024, (process.allocations j).ptr = 0)
    (moves : List (ProcessCall × ProcessState)) (run : Run Step ⟨kernel,process,[]⟩ moves) :
    Always (Kept kernel.kernel_heap) ⟨kernel,process,[]⟩ moves ↔
      Each (fun s call => ∀ size, call = .malloc size → s.live = []) ⟨kernel,process,[]⟩ moves := by
  refine always_iff_each (Single others) ?_ ?_ ?_ (.none laid empty) run
  · exact fun s call t single step alone => single.step step alone
  · exact fun s single => single.kept laid
  · rintro s call t single step kept size rfl
    exact single.second step kept

/-- A process just loaded, on a kernel whose heap is empty. -/
def freshProcess : Process := ⟨fun _ => ⟨0,0⟩,⟨0⟩⟩
def freshKernel : Kernel := ⟨fun _ => 0,kernel_heap_init fun _ => 0⟩

private theorem freshSingle : Single [] ⟨freshKernel,freshProcess,[]⟩ :=
  .none (kernel_heap_init_laid _) fun _ _ => rfl

/-- One request and its release. -/
theorem process_allocations_kept_one : ∃ moves : List (ProcessCall × ProcessState),
    moves.map Prod.fst = [.malloc 5000,.free ⟨0x01000000,5000⟩] ∧ Run Step ⟨freshKernel,freshProcess,[]⟩ moves ∧
    Always (Kept freshKernel.kernel_heap) ⟨freshKernel,freshProcess,[]⟩ moves := by
  obtain ⟨k,p,granted⟩ : ∃ k p, process_malloc freshKernel freshProcess 5000 = (0x01000000,k,p) := ⟨_,_,rfl⟩
  have run : Run Step ⟨freshKernel,freshProcess,[]⟩
      [(.malloc 5000,⟨k,p,[⟨0x01000000,5000⟩]⟩),
        (.free ⟨0x01000000,5000⟩,⟨(process_free k p 0x01000000).1,(process_free k p 0x01000000).2,[]⟩)] := by
    refine ⟨⟨by decide,by decide,?_,?_⟩,⟨by simp,rfl⟩,trivial⟩
    · simp [granted]
    · simp only [granted]
  refine ⟨_,rfl,run,?_⟩
  apply (process_allocations_kept_iff freshKernel freshProcess [] (kernel_heap_init_laid _) (fun _ _ => rfl) _ run).mpr
  exact ⟨fun _ _ => rfl,fun size same => (nomatch same),trivial⟩

/-- Two requests: the second takes the slot of the first, which is then recorded nowhere. -/
theorem process_allocations_lost : ∃ moves : List (ProcessCall × ProcessState),
    moves.map Prod.fst = [.malloc 4096,.malloc 4096] ∧ Run Step ⟨freshKernel,freshProcess,[]⟩ moves ∧
    ¬ Always (Kept freshKernel.kernel_heap) ⟨freshKernel,freshProcess,[]⟩ moves := by
  obtain ⟨k,p,k',p',first,second⟩ : ∃ k p k' p', process_malloc freshKernel freshProcess 4096 = (0x01000000,k,p) ∧
      process_malloc k p 4096 = (0x01001000,k',p') := ⟨_,_,_,_,rfl,rfl⟩
  have step : Step ⟨freshKernel,freshProcess,[]⟩ (.malloc 4096) ⟨k,p,[⟨0x01000000,4096⟩]⟩ :=
    ⟨by decide,by decide,by simp [first],by simp only [first]⟩
  have step' : Step ⟨k,p,[⟨0x01000000,4096⟩]⟩ (.malloc 4096) ⟨k',p',[⟨0x01001000,4096⟩,⟨0x01000000,4096⟩]⟩ :=
    ⟨by decide,by decide,by simp [second],by simp only [second]⟩
  refine ⟨[(.malloc 4096,_),(.malloc 4096,_)],rfl,⟨step,step',trivial⟩,fun always => ?_⟩
  have single := freshSingle.step step fun _ _ => rfl
  cases single.second step' always.final

end SimpOS.ProcessAllocations
