import SimpOS.Processes
import SimpOS.Rings
import SimpOS.Runs

/-!
The keyboard buffer of a process, `keyboard/keyboard.c`. A key goes to the current process,
a read comes from the process of the current task, and a slot without a character is zero.
As long as no more than its 1024 slots are pending the buffer is a queue. Once more are
pushed the tail runs past the head and the two counters may stay apart for good.
-/
namespace SimpOS.Keyboard
open SimpOS.Machine SimpOS.Processes SimpOS.Rings SimpOS.Runs
open SimpOS.KernelHeap (kernel_heap_init)

@[simp] abbrev SIMPOS_BUFFER_SIZE : Nat := 1024

variable {φ : Type}

def keyboard_get_tail_index (keyboard : KeyboardBuffer) : Nat := u32 keyboard.tail % SIMPOS_BUFFER_SIZE

def keyboard_push (c : UInt8) (s : World φ) : World φ :=
  let process := s.current_process
  if process = 0 then s
  else if c = 0 then s
  else s.setProcess process fun v =>
    let real_index := keyboard_get_tail_index v.keyboard
    { v with keyboard := { v.keyboard with
        buffer := Function.update v.keyboard.buffer real_index c
        tail := i32 (v.keyboard.tail + 1) } }

def keyboard_pop (s : World φ) : UInt8 × World φ :=
  if s.links.current_task = 0 then (0, s)
  else
    let process := (s.task s.links.current_task).process
    let real_index := u32 (s.process process).keyboard.head % SIMPOS_BUFFER_SIZE
    let c := (s.process process).keyboard.buffer real_index
    if c = 0x00 then (0, s)
    else (c, s.setProcess process fun v =>
      { v with keyboard := { v.keyboard with
          buffer := Function.update v.keyboard.buffer real_index 0
          head := i32 (v.keyboard.head + 1) } })

section
variable {s t : World φ} {p : Nat} {c : UInt8}

theorem keyboard_push_buffer (current : s.current_process = p) (process : p ≠ 0) (marked : c ≠ 0) :
    ((keyboard_push c s).process p).keyboard =
      ⟨Function.update (s.process p).keyboard.buffer (keyboard_get_tail_index (s.process p).keyboard) c,
        i32 ((s.process p).keyboard.tail + 1),(s.process p).keyboard.head⟩ := by
  subst current
  unfold keyboard_push
  dsimp only
  rw [if_neg process,if_neg marked]
  dsimp only [World.setProcess]
  rw [Function.update_self]

/-- A key for another process leaves the buffer alone. -/
theorem keyboard_push_elsewhere (elsewhere : s.current_process ≠ p) :
    ((keyboard_push c s).process p).keyboard = (s.process p).keyboard := by
  unfold keyboard_push
  dsimp only
  split_ifs
  · rfl
  · rfl
  · dsimp only [World.setProcess]
    rw [Function.update_of_ne elsewhere.symm]

theorem keyboard_pop_blank (task : s.links.current_task ≠ 0) (own : (s.task s.links.current_task).process = p)
    (blank : (s.process p).keyboard.buffer (u32 (s.process p).keyboard.head % SIMPOS_BUFFER_SIZE) = 0) :
    keyboard_pop s = (0,s) := by
  subst own
  unfold keyboard_pop
  dsimp only
  rw [if_neg task,if_pos blank]

theorem keyboard_pop_buffer (task : s.links.current_task ≠ 0) (own : (s.task s.links.current_task).process = p)
    (marked : (s.process p).keyboard.buffer (u32 (s.process p).keyboard.head % SIMPOS_BUFFER_SIZE) ≠ 0) :
    (keyboard_pop s).1 = (s.process p).keyboard.buffer (u32 (s.process p).keyboard.head % SIMPOS_BUFFER_SIZE) ∧
    ((keyboard_pop s).2.process p).keyboard =
      ⟨Function.update (s.process p).keyboard.buffer (u32 (s.process p).keyboard.head % SIMPOS_BUFFER_SIZE) 0,
        (s.process p).keyboard.tail,i32 ((s.process p).keyboard.head + 1)⟩ := by
  subst own
  unfold keyboard_pop
  dsimp only
  rw [if_neg task,if_neg marked]
  dsimp only [World.setProcess]
  rw [Function.update_self]
  exact ⟨rfl,rfl⟩

/-- A read by a task of another process leaves the buffer alone. -/
theorem keyboard_pop_elsewhere (elsewhere : (s.task s.links.current_task).process ≠ p) :
    ((keyboard_pop s).2.process p).keyboard = (s.process p).keyboard := by
  unfold keyboard_pop
  dsimp only
  split_ifs
  · rfl
  · rfl
  · dsimp only [World.setProcess]
    rw [Function.update_of_ne elsewhere.symm]

end

/-! ### Runs of keys and reads -/

/-- What happens to the buffer of one process. -/
inductive Key
  | push (c : UInt8)
  | pop (c : UInt8)
  | other
deriving DecidableEq, Repr

/-- The kernel takes a key for process p, a task of p reads one, or the kernel does anything
    that leaves the buffer of p alone. -/
inductive Step (p : Nat) : World φ → Key → World φ → Prop
  | push {s : World φ} {c : UInt8} (current : s.current_process = p) (process : p ≠ 0) (marked : c ≠ 0) :
      Step p s (.push c) (keyboard_push c s)
  | pop {s : World φ} (task : s.links.current_task ≠ 0) (own : (s.task s.links.current_task).process = p) :
      Step p s (.pop (keyboard_pop s).1) (keyboard_pop s).2
  | other {s t : World φ} (same : (t.process p).keyboard = (s.process p).keyboard) : Step p s .other t

def Key.pushed : Key → List UInt8
  | .push c => [c]
  | _ => []
def Key.popped : Key → List UInt8
  | .pop c => if c = 0 then [] else [c]
  | _ => []

/-- The characters pushed, and the characters other than zero that were read. -/
def pushed (moves : List (Key × World φ)) : List UInt8 := moves.flatMap fun move => move.1.pushed
def popped (moves : List (Key × World φ)) : List UInt8 := moves.flatMap fun move => move.1.popped

/-- At no point are more characters pending than there are slots. -/
def Bounded (moves : List (Key × World φ)) : Prop :=
  ∀ before, before <+: moves → (pushed before).length ≤ (popped before).length + SIMPOS_BUFFER_SIZE

/-- The characters come out as they went in, and a read gives zero exactly when all have come out. -/
structure Fifo (moves : List (Key × World φ)) : Prop where
  inOrder : ∀ before, before <+: moves → popped before <+: pushed before
  empty : ∀ before c t, before ++ [(.pop c,t)] <+: moves → (c = 0 ↔ popped before = pushed before)

/-! ### The buffer is a queue -/

/-- The characters q are pending. -/
structure Queued (keyboard : KeyboardBuffer) (q : List UInt8) : Prop where
  slots : Holds 0 SIMPOS_BUFFER_SIZE keyboard.buffer (u32 keyboard.head) q
  tail : keyboard_get_tail_index keyboard = (u32 keyboard.head + q.length) % SIMPOS_BUFFER_SIZE

/-- The slots follow one another also where a counter wraps around. -/
theorem next_index (x : Int) : u32 (i32 (x+1)) % SIMPOS_BUFFER_SIZE = (u32 x + 1) % SIMPOS_BUFFER_SIZE := by
  unfold u32 i32
  simp only [SIMPOS_BUFFER_SIZE]
  omega

section
variable {s t : World φ} {p : Nat} {c : UInt8} {q : List UInt8} {moves : List (Key × World φ)}

private theorem index_behind {h n i : Nat} (same : i % 1024 = (h + n) % 1024) :
    (i + 1) % 1024 = (h + (n + 1)) % 1024 := by omega
private theorem index_ahead {h n i : Nat} (same : i % 1024 = (h + 1) % 1024) :
    (h + (n + 1)) % 1024 = (i + n) % 1024 := by omega

theorem push_queued (queued : Queued (s.process p).keyboard q) (room : q.length < SIMPOS_BUFFER_SIZE)
    (current : s.current_process = p) (process : p ≠ 0) (marked : c ≠ 0) :
    Queued ((keyboard_push c s).process p).keyboard (q ++ [c]) := by
  rw [keyboard_push_buffer current process marked]
  refine ⟨queued.slots.push room marked queued.tail,?_⟩
  unfold keyboard_get_tail_index
  rw [next_index,List.length_append]
  exact index_behind queued.tail

theorem pop_queued_nil (queued : Queued (s.process p).keyboard []) (task : s.links.current_task ≠ 0)
    (own : (s.task s.links.current_task).process = p) : keyboard_pop s = (0,s) :=
  keyboard_pop_blank task own ((queued.slots.blank_iff (by decide)).mpr rfl)

theorem pop_holds {keyboard : KeyboardBuffer} (same : (s.process p).keyboard = keyboard)
    (holds : Holds 0 SIMPOS_BUFFER_SIZE keyboard.buffer (u32 keyboard.head) (c :: q))
    (task : s.links.current_task ≠ 0) (own : (s.task s.links.current_task).process = p) :
    (keyboard_pop s).1 = c ∧ ((keyboard_pop s).2.process p).keyboard.tail = keyboard.tail ∧
      u32 ((keyboard_pop s).2.process p).keyboard.head % SIMPOS_BUFFER_SIZE =
        (u32 keyboard.head + 1) % SIMPOS_BUFFER_SIZE ∧
      Holds 0 SIMPOS_BUFFER_SIZE ((keyboard_pop s).2.process p).keyboard.buffer
        (u32 ((keyboard_pop s).2.process p).keyboard.head) q := by
  subst same
  have head := holds.head (by decide)
  have marked : c ≠ 0 := holds.marked c List.mem_cons_self
  obtain ⟨result,after⟩ := keyboard_pop_buffer task own (by rw [head]; exact marked)
  rw [after]
  have moved := next_index (s.process p).keyboard.head
  exact ⟨result.trans head,rfl,moved,holds.pop.congr moved.symm⟩

theorem pop_queued_cons (queued : Queued (s.process p).keyboard (c :: q)) (task : s.links.current_task ≠ 0)
    (own : (s.task s.links.current_task).process = p) :
    (keyboard_pop s).1 = c ∧ Queued ((keyboard_pop s).2.process p).keyboard q := by
  obtain ⟨result,tail,moved,holds⟩ := pop_holds rfl queued.slots task own
  refine ⟨result,holds,?_⟩
  have last := queued.tail
  unfold keyboard_get_tail_index at last ⊢
  rw [tail]
  exact last.trans (index_ahead moved)

/-- What went into the buffer is what came out followed by what is pending. -/
theorem run_queued (queued : Queued (s.process p).keyboard q) (run : Run (Step p) s moves)
    (bounded : ∀ before, before <+: moves →
      q.length + (pushed before).length ≤ (popped before).length + SIMPOS_BUFFER_SIZE) :
    ∃ pending, q ++ pushed moves = popped moves ++ pending ∧
      Queued ((final s moves).process p).keyboard pending := by
  induction moves generalizing s q with
  | nil => exact ⟨q,List.append_nil q,queued⟩
  | cons move rest ih =>
    obtain ⟨a,t⟩ := move
    obtain ⟨first,later⟩ := run
    have first_bounded := bounded [(a,t)] ⟨rest,rfl⟩
    have rest_bounded : ∀ before, before <+: rest →
        q.length + (a.pushed.length + (pushed before).length) ≤
          (a.popped.length + (popped before).length) + SIMPOS_BUFFER_SIZE := by
      intro before initial
      have whole := bounded ((a,t) :: before) (List.prefix_cons_inj _ |>.mpr initial)
      simpa only [pushed,popped,List.flatMap_cons,List.length_append] using whole
    cases first with
    | push current process marked =>
      have room : q.length < SIMPOS_BUFFER_SIZE := by
        simp only [pushed,popped,Key.pushed,Key.popped,List.flatMap_cons,List.flatMap_nil,List.length_append,
          List.length_cons,List.length_nil,SIMPOS_BUFFER_SIZE] at first_bounded ⊢
        omega
      obtain ⟨pending,order,held⟩ := ih (push_queued queued room current process marked) later fun before initial => by
        have below := rest_bounded before initial
        simp only [Key.pushed,Key.popped,List.length_append,List.length_cons,List.length_nil] at below ⊢
        omega
      refine ⟨pending,?_,held⟩
      rw [List.append_assoc] at order
      exact order
    | pop task own =>
      cases q with
      | nil =>
        rw [pop_queued_nil queued task own] at later rest_bounded
        obtain ⟨pending,order,held⟩ := ih queued later fun before initial => by
          have below := rest_bounded before initial
          simp only [Key.pushed,Key.popped,if_pos,List.length_nil] at below ⊢
          omega
        refine ⟨pending,?_,?_⟩
        · rw [pop_queued_nil queued task own]
          exact order
        · rw [pop_queued_nil queued task own]
          exact held
      | cons c q =>
        obtain ⟨result,left⟩ := pop_queued_cons queued task own
        have marked : c ≠ 0 := queued.slots.marked c List.mem_cons_self
        have came : (Key.pop (keyboard_pop s).1).popped = [c] := by
          rw [result]
          exact if_neg marked
        obtain ⟨pending,order,held⟩ := ih left later fun before initial => by
          have below := rest_bounded before initial
          rw [came] at below
          simp only [Key.pushed,List.length_cons,List.length_nil] at below ⊢
          omega
        refine ⟨pending,?_,held⟩
        simp only [popped,pushed,List.flatMap_cons,came] at order ⊢
        exact congrArg (c :: ·) order
    | other same =>
      obtain ⟨pending,order,held⟩ := ih (same ▸ queued) later fun before initial => by
        have below := rest_bounded before initial
        simp only [Key.pushed,Key.popped,List.length_nil] at below ⊢
        omega
      exact ⟨pending,order,held⟩

theorem fifo_of_queued (queued : Queued (s.process p).keyboard []) (run : Run (Step p) s moves)
    (bounded : Bounded moves) : Fifo moves := by
  have within : ∀ before, before <+: moves → ∃ pending, pushed before = popped before ++ pending ∧
      Queued ((final s before).process p).keyboard pending := by
    intro before initial
    refine run_queued queued (run_earlier run initial) fun earlier first => ?_
    rw [List.length_nil,Nat.zero_add]
    exact bounded earlier (first.trans initial)
  refine ⟨fun before initial => ?_,fun before c t initial => ?_⟩
  · obtain ⟨pending,order,_⟩ := within before initial
    exact ⟨pending,order.symm⟩
  · obtain ⟨pending,order,held⟩ := within before ((List.prefix_append _ _).trans initial)
    have all_out : popped before = pushed before ↔ pending = [] := by
      rw [order]
      exact List.self_eq_append_right
    rw [all_out]
    have last := (run_append.mp (run_earlier run initial)).2.1
    cases last with
    | pop task own =>
      cases pending with
      | nil =>
        rw [pop_queued_nil held task own]
        exact ⟨fun _ => rfl,fun _ => rfl⟩
      | cons d pending =>
        rw [(pop_queued_cons held task own).1]
        exact ⟨fun zero => absurd zero (held.slots.marked d List.mem_cons_self),fun empty => nomatch empty⟩

/-- The buffer of a new process is a queue for as long as its slots suffice. -/
theorem keyboard_fifo (fresh : (s.process p).keyboard = Process.zero.keyboard) (run : Run (Step p) s moves)
    (bounded : Bounded moves) : Fifo moves := by
  refine fifo_of_queued ?_ run bounded
  rw [fresh]
  exact ⟨holds_nil fun c below => rfl,rfl⟩

end

/-! ### The keyboard attended to -/

/-- Process p takes the keys and one of its tasks runs. -/
structure Attended (p : Nat) (s : World φ) : Prop where
  current : s.current_process = p
  process : p ≠ 0
  task : s.links.current_task ≠ 0
  own : (s.task s.links.current_task).process = p

/-- Keys (`some c`) and reads (`none`) one after another. -/
def played : List (Option UInt8) → World φ → List (Key × World φ)
  | [], _ => []
  | some c :: rest, s => (.push c, keyboard_push c s) :: played rest (keyboard_push c s)
  | none :: rest, s => (.pop (keyboard_pop s).1, (keyboard_pop s).2) :: played rest (keyboard_pop s).2

section
variable {s t : World φ} {p : Nat} {c : UInt8} {q : List UInt8} {presses more : List (Option UInt8)}

theorem Attended.push (attended : Attended p s) : Attended p (keyboard_push c s) := by
  unfold keyboard_push
  dsimp only
  split_ifs
  · exact attended
  · exact attended
  · exact ⟨attended.current,attended.process,attended.task,attended.own⟩
theorem Attended.pop (attended : Attended p s) : Attended p (keyboard_pop s).2 := by
  unfold keyboard_pop
  dsimp only
  split_ifs
  · exact attended
  · exact attended
  · exact ⟨attended.current,attended.process,attended.task,attended.own⟩

theorem played_append : played (presses ++ more) s = played presses s ++ played more (final s (played presses s)) := by
  induction presses generalizing s with
  | nil => rfl
  | cons press rest ih =>
    cases press with
    | none => exact congrArg (_ :: ·) ih
    | some c => exact congrArg (_ :: ·) ih

theorem played_run (attended : Attended p s) (marked : some 0 ∉ presses) :
    Run (Step p) s (played presses s) ∧ Attended p (final s (played presses s)) := by
  induction presses generalizing s with
  | nil => exact ⟨trivial,attended⟩
  | cons press rest ih =>
    rw [List.mem_cons,not_or] at marked
    cases press with
    | none =>
      obtain ⟨run,after⟩ := ih attended.pop marked.2
      exact ⟨⟨.pop attended.task attended.own,run⟩,after⟩
    | some c =>
      obtain ⟨run,after⟩ := ih attended.push marked.2
      have nonzero : c ≠ 0 := fun zero => marked.1 (congrArg some zero.symm)
      exact ⟨⟨.push attended.current attended.process nonzero,run⟩,after⟩

theorem played_length : (played presses s).length = presses.length := by
  induction presses generalizing s with
  | nil => rfl
  | cons press rest ih =>
    cases press with
    | none => exact congrArg (· + 1) ih
    | some c => exact congrArg (· + 1) ih

theorem pushed_length (moves : List (Key × World φ)) : (pushed moves).length ≤ moves.length := by
  induction moves with
  | nil => exact Nat.zero_le _
  | cons move rest ih =>
    obtain ⟨a,t⟩ := move
    have one : a.pushed.length ≤ 1 := by cases a <;> simp [Key.pushed]
    simp only [pushed,List.flatMap_cons,List.length_append,List.length_cons] at ih ⊢
    omega

/-- Few moves never leave more pending than there are slots. -/
theorem bounded_of_few {moves : List (Key × World φ)} (few : moves.length ≤ SIMPOS_BUFFER_SIZE) : Bounded moves := by
  intro before initial
  have pushes := pushed_length before
  have shorter := initial.length_le
  omega

end

/-- A kernel with one process, which waits at the keyboard. -/
def desk : World Unit :=
  ⟨fun _ => 0, 1, fun _ => .zero, fun _ => { TaskFields.zero with process := 1 }, ⟨fun _ => ⟨0, 0⟩, 1, 1, 1⟩,
    fun _ => ⟨0, 0, 0, 0, 0⟩, (), ⟨fun _ => 0, kernel_heap_init fun _ => 0⟩⟩

theorem desk_attended : Attended 1 desk := ⟨rfl,Nat.one_ne_zero,Nat.one_ne_zero,rfl⟩

theorem keyboard_fifo_typed : Fifo (played [some 97,some 98,none,none,none] desk) :=
  keyboard_fifo (p := 1) rfl (played_run desk_attended (by decide)).1 (bounded_of_few (by rw [played_length]; decide))

/-! ### Recovering from an overflow -/

/-- The counters stand at the same slot and no slot holds a character. -/
structure Level (keyboard : KeyboardBuffer) : Prop where
  counters : keyboard_get_tail_index keyboard = u32 keyboard.head % SIMPOS_BUFFER_SIZE
  blank : ∀ i, i < SIMPOS_BUFFER_SIZE → keyboard.buffer i = 0

def Key.tally (tally : Tally) : Key → Tally
  | .push _ => tally.write SIMPOS_BUFFER_SIZE
  | .pop _ => tally.take SIMPOS_BUFFER_SIZE
  | .other => tally
/-- What keys and reads come to on an empty buffer, by their order alone. -/
def tallied (keys : List Key) : Tally := keys.foldl Key.tally .empty

/-- Wherever a read finds its slot without an unread key, the keys written over so far are whole rounds of
    the buffer. -/
def WholeRounds (keys : List Key) : Prop :=
  ∀ before c, before ++ [.pop c] <+: keys → (tallied before).read % SIMPOS_BUFFER_SIZE ∉ (tallied before).unread →
    SIMPOS_BUFFER_SIZE ∣ (tallied before).lost

/-- The counters and slots are as the tally has them. -/
structure Tallies (keyboard : KeyboardBuffer) (tally : Tally) : Prop where
  head : u32 keyboard.head % SIMPOS_BUFFER_SIZE = tally.read % SIMPOS_BUFFER_SIZE
  tail : keyboard_get_tail_index keyboard = tally.written % SIMPOS_BUFFER_SIZE
  marks : ∀ i, i < SIMPOS_BUFFER_SIZE → (keyboard.buffer i ≠ 0 ↔ i ∈ tally.unread)

/-- Nothing is stranded in the buffer of p, and as long as the slots suffice all that is
    pushed from here on comes out in order. -/
structure Recovered (p : Nat) (s : World φ) : Prop where
  nothing : ∀ i, i < SIMPOS_BUFFER_SIZE → (s.process p).keyboard.buffer i = 0
  later : ∀ moves, Run (Step p) s moves → Bounded moves → Fifo moves

section
variable {s t : World φ} {p : Nat} {c : UInt8} {q : List UInt8} {moves : List (Key × World φ)}

theorem Level.queued {keyboard : KeyboardBuffer} (level : Level keyboard) : Queued keyboard [] :=
  ⟨holds_nil level.blank,level.counters⟩

/-- The same world with process p at the keyboard. -/
def attend (p : Nat) (s : World φ) : World φ :=
  { s with
    current_process := p
    links := { s.links with current_task := 1 }
    task := Function.update s.task 1 { s.task 1 with process := p } }

theorem attend_attended (process : p ≠ 0) : Attended p (attend p s) := by
  refine ⟨rfl,process,Nat.one_ne_zero,?_⟩
  dsimp only [attend]
  rw [Function.update_self]

/-- Where the counters are apart the next key is not read. -/
theorem apart_not_recovered (process : p ≠ 0)
    (apart : keyboard_get_tail_index (s.process p).keyboard ≠ u32 (s.process p).keyboard.head % SIMPOS_BUFFER_SIZE) :
    ¬Recovered p s := by
  intro recovered
  have attended : Attended p (attend p s) := attend_attended process
  have run : Run (Step p) s ((.other,attend p s) :: played [some 97,none] (attend p s)) :=
    ⟨.other rfl,(played_run attended (by decide)).1⟩
  have fifo := recovered.later _ run (bounded_of_few (by rw [List.length_cons,played_length]; decide))
  have pushed_buffer := keyboard_push_buffer attended.current process (by decide : (97 : UInt8) ≠ 0)
  have blank : ((keyboard_push 97 (attend p s)).process p).keyboard.buffer
      (u32 ((keyboard_push 97 (attend p s)).process p).keyboard.head % SIMPOS_BUFFER_SIZE) = 0 := by
    rw [pushed_buffer]
    dsimp only
    refine (Function.update_of_ne (fun same => apart same.symm) _ _).trans ?_
    exact recovered.nothing _ (Nat.mod_lt _ (by decide))
  have nothing := keyboard_pop_blank attended.push.task attended.push.own blank
  have out := (fifo.empty [(.other,attend p s),(.push 97,keyboard_push 97 (attend p s))] _ _ ⟨[],rfl⟩).mp (by rw [nothing])
  exact absurd (show ([] : List UInt8) = [97] from out) (by decide)

theorem recovered_iff_level (process : p ≠ 0) : Recovered p s ↔ Level (s.process p).keyboard := by
  constructor
  · intro recovered
    by_cases level : keyboard_get_tail_index (s.process p).keyboard =
        u32 (s.process p).keyboard.head % SIMPOS_BUFFER_SIZE
    · exact ⟨level,recovered.nothing⟩
    · exact absurd recovered (apart_not_recovered process level)
  · intro level
    exact ⟨level.blank,fun moves run bounded => fifo_of_queued level.queued run bounded⟩

/-- A read that gives zero changes nothing. -/
theorem pop_zero_same (step : Step p s (.pop 0) t) : t = s := by
  generalize read : Key.pop 0 = a at step
  cases step with
  | push _ _ _ => exact absurd read (by simp)
  | other _ => exact absurd read (by simp)
  | pop task own =>
    have zero : 0 = (keyboard_pop s).1 := Key.pop.inj read
    by_cases blank : (s.process p).keyboard.buffer (u32 (s.process p).keyboard.head % SIMPOS_BUFFER_SIZE) = 0
    · rw [keyboard_pop_blank task own blank]
    · exact absurd (zero.trans (keyboard_pop_buffer task own blank).1).symm blank

theorem tallied_concat (keys : List Key) (a : Key) : tallied (keys ++ [a]) = a.tally (tallied keys) := by
  simp [tallied]

theorem tallied_spread (keys : List Key) : (tallied keys).Spread SIMPOS_BUFFER_SIZE := by
  induction keys using List.reverseRecOn with
  | nil => exact Tally.spread_empty _
  | append_singleton keys a ih =>
    rw [tallied_concat]
    cases a with
    | push c => exact ih.write (by decide)
    | pop c => exact ih.take (by decide)
    | other => exact ih

theorem Tallies.push {keyboard : KeyboardBuffer} {tally : Tally} (tallies : Tallies keyboard tally) (marked : c ≠ 0) :
    Tallies ⟨Function.update keyboard.buffer (keyboard_get_tail_index keyboard) c,i32 (keyboard.tail + 1),keyboard.head⟩
      (tally.write SIMPOS_BUFFER_SIZE) := by
  have read : (tally.write SIMPOS_BUFFER_SIZE).read = tally.read := by
    unfold Tally.write
    split_ifs <;> rfl
  have written : (tally.write SIMPOS_BUFFER_SIZE).written = tally.written + 1 := by
    unfold Tally.write
    split_ifs <;> rfl
  have unread : ∀ i, i ∈ (tally.write SIMPOS_BUFFER_SIZE).unread ↔
      i = tally.written % SIMPOS_BUFFER_SIZE ∨ i ∈ tally.unread := by
    intro i
    unfold Tally.write
    split_ifs with lost
    · constructor
      · exact .inr
      · rintro (rfl | old)
        · exact lost
        · exact old
    · exact Finset.mem_insert
  refine ⟨by rw [read]; exact tallies.head,?_,fun i below => ?_⟩
  · have here := tallies.tail
    unfold keyboard_get_tail_index at here ⊢
    rw [written,next_index,← Nat.mod_add_mod,here,Nat.mod_add_mod]
  · rw [unread,tallies.tail]
    by_cases slot : i = tally.written % SIMPOS_BUFFER_SIZE
    · simp [slot,marked]
    · simpa [slot] using tallies.marks i below

theorem Tallies.blank_iff {keyboard : KeyboardBuffer} {tally : Tally} (tallies : Tallies keyboard tally) :
    keyboard.buffer (u32 keyboard.head % SIMPOS_BUFFER_SIZE) = 0 ↔ tally.read % SIMPOS_BUFFER_SIZE ∉ tally.unread := by
  rw [tallies.head,← tallies.marks _ (Nat.mod_lt _ (by decide)),not_not]

theorem Tallies.pop {tally : Tally} (tallies : Tallies (s.process p).keyboard tally) (task : s.links.current_task ≠ 0)
    (own : (s.task s.links.current_task).process = p) :
    Tallies ((keyboard_pop s).2.process p).keyboard (tally.take SIMPOS_BUFFER_SIZE) := by
  unfold Tally.take
  by_cases blank : (s.process p).keyboard.buffer (u32 (s.process p).keyboard.head % SIMPOS_BUFFER_SIZE) = 0
  · rw [keyboard_pop_blank task own blank,if_neg (tallies.blank_iff.mp blank)]
    exact tallies
  · have held := not_not.mp (mt tallies.blank_iff.mpr blank)
    rw [(keyboard_pop_buffer task own blank).2,if_pos held]
    refine ⟨?_,tallies.tail,fun i below => ?_⟩
    · rw [next_index,← Nat.mod_add_mod,tallies.head,Nat.mod_add_mod]
    · rw [Finset.mem_erase,tallies.head]
      by_cases slot : i = tally.read % SIMPOS_BUFFER_SIZE
      · simp [slot]
      · simpa [slot] using tallies.marks i below

/-- The tally of the keys and reads of a run tells the counters and slots. -/
theorem run_tallies (fresh : (s.process p).keyboard = Process.zero.keyboard) (run : Run (Step p) s moves) :
    Tallies ((final s moves).process p).keyboard (tallied (moves.map Prod.fst)) := by
  induction moves using List.reverseRecOn with
  | nil =>
    show Tallies (s.process p).keyboard Tally.empty
    rw [fresh]
    exact ⟨rfl,rfl,fun i below => by simp [Process.zero,Tally.empty]⟩
  | append_singleton moves move ih =>
    obtain ⟨a,t⟩ := move
    obtain ⟨before,last,_⟩ := run_append.mp run
    have tallies := ih before
    rw [final_append,List.map_append,List.map_singleton,tallied_concat]
    show Tallies (t.process p).keyboard _
    cases last with
    | push current process marked =>
      rw [keyboard_push_buffer current process marked]
      exact tallies.push marked
    | pop task own => exact tallies.pop task own
    | other same =>
      rw [same]
      exact tallies

theorem level_iff {keyboard : KeyboardBuffer} {tally : Tally} (tallies : Tallies keyboard tally)
    (spread : tally.Spread SIMPOS_BUFFER_SIZE) (blank : tally.read % SIMPOS_BUFFER_SIZE ∉ tally.unread) :
    Level keyboard ↔ SIMPOS_BUFFER_SIZE ∣ tally.lost := by
  rw [spread.drained (by decide) blank]
  constructor
  · rintro ⟨counters,clear⟩
    rw [tallies.tail,tallies.head] at counters
    refine ⟨Finset.eq_empty_of_forall_notMem fun i member => ?_,counters⟩
    have below := spread.inside i member
    exact (tallies.marks i below).mpr member (clear i below)
  · rintro ⟨none,counters⟩
    refine ⟨by rw [tallies.tail,tallies.head,counters],fun i below => ?_⟩
    have clear := tallies.marks i below
    rw [none] at clear
    exact not_not.mp (mt clear.mp (Finset.notMem_empty i))

/-- A read gives zero where its slot holds nothing, and only there. -/
theorem pop_zero_iff (step : Step p s (.pop c) t) :
    c = 0 ↔ (s.process p).keyboard.buffer (u32 (s.process p).keyboard.head % SIMPOS_BUFFER_SIZE) = 0 := by
  generalize read : Key.pop c = a at step
  cases step with
  | push _ _ _ => exact absurd read (by simp)
  | other _ => exact absurd read (by simp)
  | pop task own =>
    obtain rfl : c = (keyboard_pop s).1 := Key.pop.inj read
    constructor
    · intro zero
      by_contra marked
      exact marked ((keyboard_pop_buffer task own marked).1.symm.trans zero)
    · intro blank
      rw [keyboard_pop_blank task own blank]

/-- The buffer of a new process recovers at every read that finds nothing exactly when the keys written
    over unread are then whole rounds of the buffer. -/
theorem keyboard_recovers_iff (process : p ≠ 0) (fresh : (s.process p).keyboard = Process.zero.keyboard)
    (run : Run (Step p) s moves) :
    (∀ before t, before ++ [(.pop 0,t)] <+: moves → Recovered p t) ↔ WholeRounds (moves.map Prod.fst) := by
  -- at a read of zero the state recovers exactly where whole rounds were lost
  have recovers : ∀ before t, before ++ [(.pop 0,t)] <+: moves →
      (tallied (before.map Prod.fst)).read % SIMPOS_BUFFER_SIZE ∉ (tallied (before.map Prod.fst)).unread ∧
      (Recovered p t ↔ SIMPOS_BUFFER_SIZE ∣ (tallied (before.map Prod.fst)).lost) := by
    intro before t initial
    obtain ⟨earlier,last,_⟩ := run_append.mp (run_earlier run initial)
    have tallies := run_tallies fresh earlier
    have blank := tallies.blank_iff.mp ((pop_zero_iff last).mp rfl)
    refine ⟨blank,?_⟩
    rw [pop_zero_same last,recovered_iff_level process]
    exact level_iff tallies (tallied_spread _) blank
  constructor
  · intro all keys c initial blank
    obtain ⟨rest,split⟩ := initial
    obtain ⟨first,later,rfl,same,_⟩ := List.map_eq_append_iff.mp split.symm
    obtain ⟨before,last,rfl,rfl,one⟩ := List.map_eq_append_iff.mp same
    obtain ⟨⟨a,t⟩,rfl,rfl⟩ := List.map_eq_singleton_iff.mp one
    obtain ⟨earlier,step,_⟩ := run_append.mp (run_earlier run (List.prefix_append _ later))
    obtain rfl := (pop_zero_iff step).mpr ((run_tallies fresh earlier).blank_iff.mpr blank)
    exact (recovers before t (List.prefix_append _ later)).2.mp (all before t (List.prefix_append _ later))
  · intro rounds before t initial
    obtain ⟨blank,exactly⟩ := recovers before t initial
    refine exactly.mpr (rounds (before.map Prod.fst) 0 ?_ blank)
    simpa using initial.map Prod.fst

end

/-! Two rounds of keys, the second of which overruns the first as a whole. -/

theorem wholeRounds_concat {keys : List Key} {a : Key} (rounds : WholeRounds keys)
    (last : ∀ c, a = .pop c → (tallied keys).read % SIMPOS_BUFFER_SIZE ∉ (tallied keys).unread →
      SIMPOS_BUFFER_SIZE ∣ (tallied keys).lost) : WholeRounds (keys ++ [a]) := by
  intro before c initial blank
  rcases List.prefix_concat_iff.mp initial with whole | earlier
  · obtain ⟨rfl,same⟩ := List.append_inj' whole rfl
    exact last c (List.singleton_inj.mp same).symm blank
  · exact rounds before c earlier blank

theorem wholeRounds_pushes (n : Nat) (c : UInt8) : WholeRounds (List.replicate n (.push c)) := by
  intro before d initial
  have member : Key.pop d ∈ List.replicate n (.push c) := initial.subset (by simp)
  exact absurd (List.eq_of_mem_replicate member) (by simp)

theorem tallied_round {k : Nat} (c : UInt8) (few : k ≤ SIMPOS_BUFFER_SIZE) :
    tallied (List.replicate k (.push c)) = ⟨k,0,Finset.range k,0⟩ := by
  induction k with
  | zero => rfl
  | succ k ih =>
    rw [List.replicate_succ',tallied_concat,ih (by omega)]
    exact Tally.write_round (by omega)

theorem tallied_rounds {k : Nat} (c : UInt8) (few : k ≤ SIMPOS_BUFFER_SIZE) :
    tallied (List.replicate (SIMPOS_BUFFER_SIZE + k) (.push c)) =
      ⟨SIMPOS_BUFFER_SIZE + k,0,Finset.range SIMPOS_BUFFER_SIZE,k⟩ := by
  induction k with
  | zero => exact tallied_round c (Nat.le_refl _)
  | succ k ih =>
    rw [← Nat.add_assoc,List.replicate_succ',tallied_concat,ih (by omega)]
    exact Tally.write_again (by omega)

/-- The reads behind two rounds of keys. -/
theorem reads_after_rounds (c : UInt8) (reads : List Key) (pops : ∀ a ∈ reads, ∃ d, a = Key.pop d) :
    (reads.length ≤ SIMPOS_BUFFER_SIZE →
      tallied (List.replicate (SIMPOS_BUFFER_SIZE + SIMPOS_BUFFER_SIZE) (.push c) ++ reads) =
        ⟨SIMPOS_BUFFER_SIZE + SIMPOS_BUFFER_SIZE,reads.length,Finset.Ico reads.length SIMPOS_BUFFER_SIZE,SIMPOS_BUFFER_SIZE⟩) ∧
    (reads.length ≤ SIMPOS_BUFFER_SIZE + 1 →
      WholeRounds (List.replicate (SIMPOS_BUFFER_SIZE + SIMPOS_BUFFER_SIZE) (.push c) ++ reads)) := by
  induction reads using List.reverseRecOn with
  | nil =>
    rw [List.append_nil]
    refine ⟨fun _ => ?_,fun _ => wholeRounds_pushes _ c⟩
    rw [tallied_rounds c (Nat.le_refl _),Finset.range_eq_Ico]
    rfl
  | append_singleton reads a ih =>
    obtain ⟨so_far,rounds⟩ := ih fun a member => pops a (List.mem_append_left _ member)
    obtain ⟨d,rfl⟩ := pops a (by simp)
    rw [← List.append_assoc,List.length_append,List.length_singleton]
    constructor
    · intro few
      rw [tallied_concat,so_far (by omega)]
      exact Tally.take_round (by omega)
    · intro few
      refine wholeRounds_concat (rounds (by omega)) fun _ _ _ => ?_
      rw [so_far (by omega)]

/-- Two rounds of keys, the reads that empty the buffer, and one more. -/
def twoRounds (n : Nat) (c : UInt8) : List (Option UInt8) := List.replicate (n + n) (some c) ++ List.replicate (n + 1) none

theorem played_pushes (n : Nat) (c : UInt8) (s : World φ) :
    (played (List.replicate n (some c)) s).map Prod.fst = List.replicate n (.push c) := by
  induction n generalizing s with
  | zero => rfl
  | succ n ih => simp [List.replicate_succ,played,ih]

theorem played_reads (n : Nat) (s : World φ) :
    ∀ a ∈ (played (List.replicate n none) s).map Prod.fst, ∃ d, a = Key.pop d := by
  induction n generalizing s with
  | zero => simp [played]
  | succ n ih => simpa [List.replicate_succ,played] using ih _

/-- The keys and reads of the two rounds, with only some of the reads. -/
theorem rounds_reads (n reads : Nat) (c : UInt8) (s : World φ) : ∃ rest : List Key, rest.length = reads ∧
    (∀ a ∈ rest, ∃ d, a = Key.pop d) ∧
    (played (List.replicate (n + n) (some c) ++ List.replicate reads none) s).map Prod.fst =
      List.replicate (n + n) (.push c) ++ rest := by
  refine ⟨_,?_,played_reads reads (final s (played (List.replicate (n + n) (some c)) s)),?_⟩
  · rw [List.length_map,played_length,List.length_replicate]
  · rw [played_append,List.map_append,played_pushes]

theorem rounds_marked (n reads : Nat) : some 0 ∉ List.replicate (n + n) (some (65 : UInt8)) ++ List.replicate reads none := by
  rw [List.mem_append,List.mem_replicate,List.mem_replicate]
  rintro (⟨_,same⟩ | ⟨_,same⟩)
  · exact absurd same (by decide)
  · exact absurd same (by decide)

/-- Behind the reads of a round the next one finds nothing. -/
theorem rounds_drained : ∃ before t,
    before ++ [(.pop 0,t)] <+: played (twoRounds SIMPOS_BUFFER_SIZE 65) desk := by
  obtain ⟨reads,length,pops,keys⟩ := rounds_reads SIMPOS_BUFFER_SIZE SIMPOS_BUFFER_SIZE 65 desk
  obtain ⟨run,attended⟩ := played_run desk_attended (rounds_marked SIMPOS_BUFFER_SIZE SIMPOS_BUFFER_SIZE)
  have tallies := run_tallies (p := 1) rfl run
  rw [keys,(reads_after_rounds 65 reads pops).1 length.le,length] at tallies
  have nothing := keyboard_pop_blank attended.task attended.own (tallies.blank_iff.mpr (by simp only [Finset.Ico_self,Finset.notMem_empty,not_false_eq_true]))
  rw [twoRounds,List.replicate_succ',← List.append_assoc]
  generalize List.replicate (SIMPOS_BUFFER_SIZE + SIMPOS_BUFFER_SIZE) (some (65 : UInt8)) ++
    List.replicate SIMPOS_BUFFER_SIZE none = presses at nothing ⊢
  refine ⟨played presses desk,final desk (played presses desk),?_⟩
  rw [played_append]
  simp only [played,nothing]
  exact List.prefix_refl _

/-- Typed two rounds ahead, a process reads the second round, finds nothing then, and has recovered. -/
theorem keyboard_recovers_rounds :
    (∃ before t, before ++ [(.pop 0,t)] <+: played (twoRounds SIMPOS_BUFFER_SIZE 65) desk) ∧
    ∀ before t, before ++ [(.pop 0,t)] <+: played (twoRounds SIMPOS_BUFFER_SIZE 65) desk → Recovered 1 t := by
  refine ⟨rounds_drained,?_⟩
  obtain ⟨run,_⟩ := played_run desk_attended (rounds_marked SIMPOS_BUFFER_SIZE (SIMPOS_BUFFER_SIZE + 1))
  refine (keyboard_recovers_iff Nat.one_ne_zero rfl run).mpr ?_
  obtain ⟨reads,length,pops,keys⟩ := rounds_reads SIMPOS_BUFFER_SIZE (SIMPOS_BUFFER_SIZE + 1) 65 desk
  rw [keys]
  exact (reads_after_rounds 65 reads pops).2 length.le

/-! ### One key too many -/

section
variable {s : World φ} {p n : Nat} {q : List UInt8}

/-- Reads take out one element after another. -/
theorem pops_hold (attended : Attended p s)
    (holds : Holds 0 SIMPOS_BUFFER_SIZE (s.process p).keyboard.buffer (u32 (s.process p).keyboard.head) q) :
    Attended p (final s (played (List.replicate q.length none) s)) ∧
    ((final s (played (List.replicate q.length none) s)).process p).keyboard.tail = (s.process p).keyboard.tail ∧
    u32 ((final s (played (List.replicate q.length none) s)).process p).keyboard.head % SIMPOS_BUFFER_SIZE =
      (u32 (s.process p).keyboard.head + q.length) % SIMPOS_BUFFER_SIZE ∧
    Holds 0 SIMPOS_BUFFER_SIZE ((final s (played (List.replicate q.length none) s)).process p).keyboard.buffer
      (u32 ((final s (played (List.replicate q.length none) s)).process p).keyboard.head) [] := by
  induction q generalizing s with
  | nil => exact ⟨attended,rfl,rfl,holds⟩
  | cons c q ih =>
    obtain ⟨_,tail,moved,left⟩ := pop_holds rfl holds attended.task attended.own
    obtain ⟨after,same_tail,all_moved,clear⟩ := ih attended.pop left
    refine ⟨after,same_tail.trans tail,all_moved.trans ?_,clear⟩
    exact (index_ahead moved).symm

theorem keys_pushed (n : Nat) (c : UInt8) (s : World φ) :
    pushed (played (List.replicate n (some c)) s) = List.replicate n c ∧
    popped (played (List.replicate n (some c)) s) = [] := by
  induction n generalizing s with
  | zero => exact ⟨rfl,rfl⟩
  | succ n ih => exact ⟨congrArg (c :: ·) (ih _).1,(ih _).2⟩

/-- A key more than there are slots leaves the buffer as it is but moves the tail on. -/
theorem push_full (queued : Queued (s.process p).keyboard q) (full : q.length = SIMPOS_BUFFER_SIZE)
    (attended : Attended p s) {c : UInt8} (first : q.head? = some c) :
    Holds 0 SIMPOS_BUFFER_SIZE ((keyboard_push c s).process p).keyboard.buffer
      (u32 ((keyboard_push c s).process p).keyboard.head) q ∧
    u32 ((keyboard_push c s).process p).keyboard.tail % SIMPOS_BUFFER_SIZE =
      (u32 ((keyboard_push c s).process p).keyboard.head + 1) % SIMPOS_BUFFER_SIZE := by
  obtain ⟨rest,rfl⟩ := List.head?_eq_some_iff.mp first
  have marked : c ≠ 0 := queued.slots.marked c List.mem_cons_self
  have at_head : keyboard_get_tail_index (s.process p).keyboard =
      u32 (s.process p).keyboard.head % SIMPOS_BUFFER_SIZE := by
    rw [queued.tail,full,Nat.add_mod_right]
  have kept : (s.process p).keyboard.buffer (keyboard_get_tail_index (s.process p).keyboard) = c := by
    rw [at_head]
    exact queued.slots.head (by decide)
  rw [keyboard_push_buffer attended.current attended.process marked]
  refine ⟨?_,?_⟩
  · dsimp only
    rw [← kept,Function.update_eq_self,kept]
    exact queued.slots
  · dsimp only
    rw [next_index,← Nat.mod_add_mod]
    exact (congrArg (fun i => (i + 1) % SIMPOS_BUFFER_SIZE) at_head).trans (Nat.mod_add_mod _ _ _)

end

/-- As many keys as there are slots and one more, then n reads. -/
def overflow (n : Nat) : List (Option UInt8) := List.replicate n (some 65) ++ some 65 :: List.replicate n none

private theorem apart_after {tail head before n : Nat} (slots : n = 1024)
    (ahead : tail % 1024 = (before + 1) % 1024) (round : head % 1024 = (before + n) % 1024) :
    tail % 1024 ≠ head % 1024 := by omega

theorem overflow_apart {n : Nat} (slots : n = SIMPOS_BUFFER_SIZE) :
    Attended 1 (final desk (played (overflow n) desk)) ∧
    ((final desk (played (overflow n) desk)).process 1).keyboard.buffer
      (u32 ((final desk (played (overflow n) desk)).process 1).keyboard.head % SIMPOS_BUFFER_SIZE) = 0 ∧
    keyboard_get_tail_index ((final desk (played (overflow n) desk)).process 1).keyboard ≠
      u32 ((final desk (played (overflow n) desk)).process 1).keyboard.head % SIMPOS_BUFFER_SIZE := by
  have queue : Queued (desk.process 1).keyboard [] := ⟨holds_nil fun c below => rfl,rfl⟩
  have marked : some 0 ∉ List.replicate n (some (65 : UInt8)) := by
    rw [List.mem_replicate]
    exact fun among => absurd among.2 (by decide)
  obtain ⟨run,attended⟩ := played_run desk_attended marked
  obtain ⟨pending,order,held⟩ := run_queued queue run fun before initial => by
    rw [List.length_nil,Nat.zero_add]
    exact bounded_of_few (by rw [played_length,List.length_replicate,slots]) before initial
  obtain ⟨keys,none_out⟩ := keys_pushed n 65 desk
  rw [keys,none_out,List.nil_append,List.nil_append] at order
  have length : pending.length = n := by rw [← order,List.length_replicate]
  have positive : n ≠ 0 := by
    intro zero
    rw [zero] at slots
    exact Nat.zero_ne_add_one 1023 slots
  have first : pending.head? = some 65 := by rw [← order,List.head?_replicate,if_neg positive]
  rw [overflow,played_append,final_append]
  generalize final desk (played (List.replicate n (some 65)) desk) = s at attended held ⊢
  obtain ⟨full,ahead⟩ := push_full held (length.trans slots) attended first
  obtain ⟨after,tail,round,clear⟩ := pops_hold attended.push full
  rw [length] at after tail round clear
  refine ⟨after,(clear.blank_iff (by decide)).mpr rfl,?_⟩
  unfold keyboard_get_tail_index
  exact apart_after slots ((congrArg (fun x => u32 x % 1024) tail).trans ahead) round

/-- Typed 1025 characters ahead, a process reads 1024 and from then on misses the next key. -/
theorem keyboard_overflow :
    (desk.process 1).keyboard = Process.zero.keyboard ∧
    Run (Step 1) desk (played (overflow SIMPOS_BUFFER_SIZE ++ [none]) desk) ∧
    ∃ before t, before ++ [(.pop 0,t)] <+: played (overflow SIMPOS_BUFFER_SIZE ++ [none]) desk ∧ ¬Recovered 1 t := by
  have marked : some 0 ∉ overflow SIMPOS_BUFFER_SIZE ++ [none] := by
    simp only [overflow,List.mem_append,List.mem_cons,List.mem_replicate]
    decide
  obtain ⟨attended,blank,apart⟩ := overflow_apart (n := SIMPOS_BUFFER_SIZE) rfl
  generalize overflow SIMPOS_BUFFER_SIZE = presses at marked attended blank apart ⊢
  refine ⟨rfl,(played_run desk_attended marked).1,played presses desk,final desk (played presses desk),?_,
    apart_not_recovered Nat.one_ne_zero apart⟩
  rw [played_append]
  have nothing := keyboard_pop_blank attended.task attended.own blank
  refine ⟨[],?_⟩
  rw [List.append_nil]
  simp only [played,nothing]

end SimpOS.Keyboard
