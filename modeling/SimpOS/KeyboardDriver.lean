import SimpOS.Keyboard
import SimpOS.LineEditor

/-!
From the scancodes of the keyboard to the line a program reads: the driver in `keyboard/classic.c`
above the buffers of the processes. The characters come from a table of 82, behind which one scancode
still reads; and letters are capitals as long as the caps lock is on.
-/
namespace SimpOS.KeyboardDriver
open SimpOS.Machine SimpOS.Strings SimpOS.Processes SimpOS.Keyboard SimpOS.Runs SimpOS.LineEditor

@[simp] abbrev KEYBOARD_CAPS_LOCK_ON : Int := 1
@[simp] abbrev KEYBOARD_CAPS_LOCK_OFF : Int := 0
@[simp] abbrev CLASSIC_KEYBOARD_CAPSLOCK : UInt8 := 0x3A
@[simp] abbrev CLASSIC_KEYBOARD_KEY_RELEASE : UInt8 := 0x80

/-- The characters for the scancodes. -/
def keyboard_scan_set_one : List UInt8 :=
  [0x00,0x1B,49,50,51,52,53,
    54,55,56,57,48,45,61,
    0x08,9,81,87,69,82,84,
    89,85,73,79,80,91,93,
    0x0d,0x00,65,83,68,70,71,
    72,74,75,76,59,39,96,
    0x00,92,90,88,67,86,66,
    78,77,44,46,47,0x00,42,
    0x00,0x20,0x00,0x00,0x00,0x00,
    0x00,0x00,0x00,0x00,0x00,0x00,
    0x00,55,56,57,45,52,53,
    54,43,49,50,51,48,46]

variable {φ : Type}

/-- The kernel and the state of the caps lock in the driver. -/
structure Desk (φ : Type) where
  world : World φ
  capslock_state : Int

/-- The table has as many characters as the largest scancode that is let through, whose character is
    the byte behind it. -/
def classic_keyboard_scancode_to_char (behind : UInt8) (capslock_state : Int) (scancode : UInt8) : UInt8 :=
  if scancode.toNat > keyboard_scan_set_one.length then 0
  else
    let c := keyboard_scan_set_one.getD scancode.toNat behind
    if capslock_state = KEYBOARD_CAPS_LOCK_OFF then if 65 ≤ c ∧ c ≤ 90 then c + 32 else c else c

def classic_keyboard_handle_interrupt (behind scancode : UInt8) (s : Desk φ) : Desk φ :=
  if scancode &&& CLASSIC_KEYBOARD_KEY_RELEASE ≠ 0 then s
  else
    let s := if scancode = CLASSIC_KEYBOARD_CAPSLOCK then
        if s.capslock_state = KEYBOARD_CAPS_LOCK_ON then { s with capslock_state := KEYBOARD_CAPS_LOCK_OFF }
        else { s with capslock_state := KEYBOARD_CAPS_LOCK_ON }
      else s
    let c := classic_keyboard_scancode_to_char behind s.capslock_state scancode
    if c ≠ 0 then { s with world := keyboard_push c s.world } else s

/-! ### What is typed -/

/-- Whether a key is pressed, and whether the caps lock is on after scancodes. -/
def isPress (scancode : UInt8) : Bool := scancode &&& CLASSIC_KEYBOARD_KEY_RELEASE = 0
def capital (scancodes : List UInt8) : Bool := scancodes.count CLASSIC_KEYBOARD_CAPSLOCK % 2 = 1

/-- What the press of a key adds to the text, and the text that scancodes make after earlier ones. -/
def character (behind : UInt8) (capitals : Bool) (scancode : UInt8) : List UInt8 :=
  if isPress scancode then
    let c := (keyboard_scan_set_one ++ [behind]).getD scancode.toNat 0
    if c = 0 then [] else if capitals then [c] else [tolower c]
  else []
def typed (behind : UInt8) (earlier scancodes : List UInt8) : List UInt8 :=
  (List.range scancodes.length).flatMap fun i =>
    character behind (capital (earlier ++ scancodes.take i)) (scancodes.getD i 0)

section
variable {behind scancode : UInt8} {earlier scancodes : List UInt8}

theorem typed_concat (behind : UInt8) (earlier scancodes : List UInt8) (scancode : UInt8) :
    typed behind earlier (scancodes ++ [scancode]) =
      typed behind earlier scancodes ++ character behind (capital (earlier ++ scancodes)) scancode := by
  unfold typed
  rw [List.length_append,List.length_singleton,List.range_succ,List.flatMap_append,List.flatMap_singleton]
  congr 1
  · refine List.flatMap_congr fun i inside => ?_
    have below := List.mem_range.mp inside
    rw [List.take_append_of_le_length (Nat.le_of_lt below),List.getD_append _ _ _ _ below]
  · simp

/-- The characters with the one behind them: the check of the driver lets all of these through. -/
theorem table_getD (behind scancode : UInt8) : (keyboard_scan_set_one ++ [behind]).getD scancode.toNat 0 =
    if scancode.toNat > keyboard_scan_set_one.length then 0 else keyboard_scan_set_one.getD scancode.toNat behind := by
  rcases Nat.lt_trichotomy scancode.toNat keyboard_scan_set_one.length with inside | last | outside
  · rw [List.getD_append _ _ _ _ inside,if_neg (by omega),List.getD_eq_getElem _ _ inside,List.getD_eq_getElem _ _ inside]
  · rw [if_neg (by omega),last,List.getD_append_right _ _ _ _ (Nat.le_refl _),Nat.sub_self,
      List.getD_eq_default _ _ (Nat.le_refl _)]
    rfl
  · rw [if_pos outside,List.getD_eq_default]
    rw [List.length_append,List.length_singleton]
    exact outside

theorem tolower_zero (c : UInt8) : tolower c = 0 ↔ c = 0 := by
  unfold tolower
  split_ifs with letter
  · rw [← UInt8.toNat_inj,← UInt8.toNat_inj,UInt8.toNat_add]
    simp only [UInt8.le_iff_toNat_le] at letter
    have low : (65 : UInt8).toNat = 65 := rfl
    have high : (90 : UInt8).toNat = 90 := rfl
    have shift : (32 : UInt8).toNat = 32 := rfl
    have zero : (0 : UInt8).toNat = 0 := rfl
    omega
  · rfl

/-- What the driver makes of a key. -/
theorem scancode_to_char_eq (behind scancode : UInt8) (capitals : Bool) :
    classic_keyboard_scancode_to_char behind (if capitals then 1 else 0) scancode =
      if capitals then (keyboard_scan_set_one ++ [behind]).getD scancode.toNat 0
      else tolower ((keyboard_scan_set_one ++ [behind]).getD scancode.toNat 0) := by
  rw [table_getD]
  unfold classic_keyboard_scancode_to_char
  by_cases outside : scancode.toNat > keyboard_scan_set_one.length
  · rw [if_pos outside,if_pos outside]
    cases capitals <;> rfl
  · rw [if_neg outside,if_neg outside]
    cases capitals <;> rfl

theorem character_press (press : isPress scancode = true) (capitals : Bool) :
    character behind capitals scancode =
      if classic_keyboard_scancode_to_char behind (if capitals then 1 else 0) scancode = 0 then []
      else [classic_keyboard_scancode_to_char behind (if capitals then 1 else 0) scancode] := by
  rw [scancode_to_char_eq,character,if_pos press]
  cases capitals with
  | true => rfl
  | false => simp only [Bool.false_eq_true,if_false,tolower_zero]

theorem count_concat (scancodes : List UInt8) (scancode : UInt8) : capital (scancodes ++ [scancode]) =
    if scancode = CLASSIC_KEYBOARD_CAPSLOCK then !capital scancodes else capital scancodes := by
  unfold capital
  rw [List.count_append,List.count_singleton]
  by_cases lock : scancode = CLASSIC_KEYBOARD_CAPSLOCK
  · rw [if_pos lock,lock]
    simp only [beq_self_eq_true,if_true]
    by_cases odd : scancodes.count CLASSIC_KEYBOARD_CAPSLOCK % 2 = 1
    · simp [odd,show (scancodes.count CLASSIC_KEYBOARD_CAPSLOCK + 1) % 2 = 0 by omega]
    · simp [show scancodes.count CLASSIC_KEYBOARD_CAPSLOCK % 2 = 0 by omega,
        show (scancodes.count CLASSIC_KEYBOARD_CAPSLOCK + 1) % 2 = 1 by omega]
  · rw [if_neg lock]
    have other : (scancode == CLASSIC_KEYBOARD_CAPSLOCK) = false := by simpa using lock
    rw [other]
    simp

/-- The driver keeps the state of the caps lock, and pushes what the key adds to the text. -/
theorem handle_interrupt_cases {s : Desk φ} (locked : s.capslock_state = if capital scancodes then 1 else 0) :
    (classic_keyboard_handle_interrupt behind scancode s).capslock_state =
      (if capital (scancodes ++ [scancode]) then 1 else 0) ∧
    ((character behind (capital scancodes) scancode = [] ∧
        (classic_keyboard_handle_interrupt behind scancode s).world = s.world) ∨
      ∃ c, c ≠ 0 ∧ character behind (capital scancodes) scancode = [c] ∧
        (classic_keyboard_handle_interrupt behind scancode s).world = keyboard_push c s.world) := by
  unfold classic_keyboard_handle_interrupt
  rw [count_concat]
  by_cases release : scancode &&& CLASSIC_KEYBOARD_KEY_RELEASE ≠ 0
  · have other : scancode ≠ CLASSIC_KEYBOARD_CAPSLOCK := by
      rintro rfl
      exact release (by decide)
    have nothing : character behind (capital scancodes) scancode = [] := if_neg (by simpa [isPress] using release)
    rw [if_pos release,if_neg other]
    exact ⟨locked,.inl ⟨nothing,rfl⟩⟩
  · have press : isPress scancode = true := by simpa [isPress] using release
    rw [if_neg release]
    by_cases lock : scancode = CLASSIC_KEYBOARD_CAPSLOCK
    · subst lock
      have nothing : character behind (capital scancodes) CLASSIC_KEYBOARD_CAPSLOCK = [] := by
        cases capital scancodes <;> rfl
      rw [if_pos rfl,if_pos rfl,locked]
      refine ⟨?_,.inl ⟨nothing,?_⟩⟩
      · cases capital scancodes <;> rfl
      · cases capital scancodes <;> rfl
    · rw [if_neg lock,if_neg lock]
      dsimp only
      rw [locked,character_press press]
      by_cases none : classic_keyboard_scancode_to_char behind (if capital scancodes then 1 else 0) scancode = 0
      · rw [if_neg (not_not.mpr none),if_pos none]
        exact ⟨locked,.inl ⟨rfl,rfl⟩⟩
      · rw [if_pos none,if_neg none]
        exact ⟨rfl,.inr ⟨_,none,rfl,rfl⟩⟩

end

/-! ### Keys and reads -/

/-- What the keyboard and the programs do, as far as the buffer of one process is concerned. -/
inductive KeyEvent
  | scancode (code : UInt8)
  | read (c : UInt8)
  | other
deriving DecidableEq, Repr

/-- The keyboard interrupts while p is the current process, a task of p reads a key, or the kernel
    does anything that leaves the buffer of p and the caps lock alone. -/
inductive Step (behind : UInt8) (p : Nat) : Desk φ → KeyEvent → Desk φ → Prop
  | scancode {s : Desk φ} {code : UInt8} (current : s.world.current_process = p) (process : p ≠ 0) :
      Step behind p s (.scancode code) (classic_keyboard_handle_interrupt behind code s)
  | read {s : Desk φ} (task : s.world.links.current_task ≠ 0)
      (own : (s.world.task s.world.links.current_task).process = p) :
      Step behind p s (.read (keyboard_pop s.world).1) { s with world := (keyboard_pop s.world).2 }
  | other {s t : Desk φ} (same : (t.world.process p).keyboard = (s.world.process p).keyboard)
      (lock : t.capslock_state = s.capslock_state) : Step behind p s .other t

def KeyEvent.scancodes : KeyEvent → List UInt8
  | .scancode code => [code]
  | _ => []
def KeyEvent.answers : KeyEvent → List UInt8
  | .read c => [c]
  | _ => []

/-- The scancodes that came, and what the reads gave, with the zeros for no key. -/
def scancodes (moves : List (KeyEvent × Desk φ)) : List UInt8 := moves.flatMap fun move => move.1.scancodes
def answers (moves : List (KeyEvent × Desk φ)) : List UInt8 := moves.flatMap fun move => move.1.answers

/-- At no point are more characters pending than the buffer has slots. -/
def Bounded (behind : UInt8) (earlier : List UInt8) (moves : List (KeyEvent × Desk φ)) : Prop := ∀ before, before <+: moves →
  (typed behind earlier (scancodes before)).length ≤ (pressed (answers before)).length + SIMPOS_BUFFER_SIZE

/-- A process that has just been loaded, when these scancodes have come since the keyboard was set up. -/
structure Fresh (earlier : List UInt8) (p : Nat) (s : Desk φ) : Prop where
  keyboard : (s.world.process p).keyboard = Process.zero.keyboard
  lock : s.capslock_state = if capital earlier then KEYBOARD_CAPS_LOCK_ON else KEYBOARD_CAPS_LOCK_OFF

section
variable {behind : UInt8} {earlier : List UInt8} {p : Nat} {s t : Desk φ} {moves : List (KeyEvent × Desk φ)}

/-- What has been typed is what was read followed by what is pending. -/
structure Pending (behind : UInt8) (earlier : List UInt8) (p : Nat) (moves : List (KeyEvent × Desk φ))
    (pending : List UInt8) (t : Desk φ) : Prop where
  order : typed behind earlier (scancodes moves) = pressed (answers moves) ++ pending
  queued : Queued (t.world.process p).keyboard pending
  lock : t.capslock_state = if capital (earlier ++ scancodes moves) then 1 else 0

theorem scancodes_concat (moves : List (KeyEvent × Desk φ)) (e : KeyEvent) (t : Desk φ) :
    scancodes (moves ++ [(e,t)]) = scancodes moves ++ e.scancodes := by simp [scancodes]
theorem pressed_concat (moves : List (KeyEvent × Desk φ)) (e : KeyEvent) (t : Desk φ) :
    pressed (answers (moves ++ [(e,t)])) = pressed (answers moves) ++ pressed e.answers := by simp [answers,pressed]

theorem pending_step {before : List (KeyEvent × Desk φ)} {e : KeyEvent} {pending : List UInt8}
    (held : Pending behind earlier p before pending s) (step : Step behind p s e t)
    (bounded : (typed behind earlier (scancodes (before ++ [(e,t)]))).length ≤
      (pressed (answers (before ++ [(e,t)]))).length + SIMPOS_BUFFER_SIZE) :
    ∃ pending, Pending behind earlier p (before ++ [(e,t)]) pending t := by
  obtain ⟨order,queued,lock⟩ := held
  rw [scancodes_concat,pressed_concat] at bounded
  cases step with
  | scancode current process =>
    rename_i code
    obtain ⟨locked,outcome⟩ := @handle_interrupt_cases _ behind code (earlier ++ scancodes before) s lock
    rw [List.append_assoc] at locked
    change (typed behind earlier (scancodes before ++ [code])).length ≤ (pressed (answers before) ++ pressed []).length + _ at bounded
    rw [typed_concat] at bounded
    rcases outcome with ⟨nothing,same⟩ | ⟨c,marked,added,pushed⟩
    · refine ⟨pending,?_,?_,?_⟩
      · rw [scancodes_concat,pressed_concat]
        change typed behind earlier (scancodes before ++ [code]) = pressed (answers before) ++ pressed [] ++ pending
        rw [typed_concat,nothing,order]
        simp [pressed]
      · rw [same]
        exact queued
      · rw [scancodes_concat]
        exact locked
    · rw [added,order] at bounded
      have room : pending.length < SIMPOS_BUFFER_SIZE := by
        simp [pressed] at bounded ⊢
        omega
      refine ⟨pending ++ [c],?_,?_,?_⟩
      · rw [scancodes_concat,pressed_concat]
        change typed behind earlier (scancodes before ++ [code]) = pressed (answers before) ++ pressed [] ++ (pending ++ [c])
        rw [typed_concat,added,order]
        simp [pressed]
      · rw [pushed]
        exact push_queued queued room current process marked
      · rw [scancodes_concat]
        exact locked
  | read task own =>
    cases pending with
    | nil =>
      rw [pop_queued_nil queued task own]
      refine ⟨[],?_,queued,?_⟩
      · rw [scancodes_concat,pressed_concat]
        simpa [KeyEvent.scancodes,KeyEvent.answers,pressed] using order
      · rw [scancodes_concat]
        simpa [KeyEvent.scancodes] using lock
    | cons c pending =>
      obtain ⟨result,left⟩ := pop_queued_cons queued task own
      have marked : c ≠ 0 := queued.slots.marked c List.mem_cons_self
      refine ⟨pending,?_,left,?_⟩
      · rw [scancodes_concat,pressed_concat,result]
        simpa [KeyEvent.scancodes,KeyEvent.answers,pressed,marked] using order
      · rw [scancodes_concat]
        simpa [KeyEvent.scancodes] using lock
  | other same kept =>
    refine ⟨pending,?_,same ▸ queued,?_⟩
    · rw [scancodes_concat,pressed_concat]
      simpa [KeyEvent.scancodes,KeyEvent.answers,pressed] using order
    · rw [scancodes_concat,kept,lock]
      simp [KeyEvent.scancodes]

theorem run_pending (fresh : Fresh earlier p s) (run : Run (Step behind p) s moves) (bounded : Bounded behind earlier moves) :
    ∃ pending, Pending behind earlier p moves pending (final s moves) := by
  induction moves using List.reverseRecOn with
  | nil =>
    refine ⟨[],rfl,?_,?_⟩
    · change Queued (s.world.process p).keyboard []
      rw [fresh.keyboard]
      exact ⟨Rings.holds_nil fun c below => rfl,rfl⟩
    · change s.capslock_state = if capital (earlier ++ []) then 1 else 0
      rw [List.append_nil]
      exact fresh.lock
  | append_singleton before move ih =>
    obtain ⟨e,t⟩ := move
    obtain ⟨first,last⟩ := run_append.mp run
    obtain ⟨pending,held⟩ := ih first fun earlier initial => bounded earlier (initial.trans (List.prefix_append _ _))
    rw [final_append]
    exact pending_step held last.1 (bounded _ (List.prefix_refl _))

/-- The characters typed come to the process in the order of the keys, and it reads none exactly when
    it has read all there are. -/
theorem typed_fifo (fresh : Fresh earlier p s) (run : Run (Step behind p) s moves) (bounded : Bounded behind earlier moves) :
    (∀ before, before <+: moves → pressed (answers before) <+: typed behind earlier (scancodes before)) ∧
    ∀ before c t, before ++ [(.read c,t)] <+: moves →
      (c = 0 ↔ pressed (answers before) = typed behind earlier (scancodes before)) := by
  have within : ∀ before, before <+: moves → ∃ pending, Pending behind earlier p before pending (final s before) :=
    fun before initial => run_pending fresh (run_earlier run initial) fun first start => bounded first (start.trans initial)
  refine ⟨fun before initial => ?_,fun before c t initial => ?_⟩
  · obtain ⟨pending,held⟩ := within before initial
    exact ⟨pending,held.order.symm⟩
  · obtain ⟨pending,held⟩ := within before ((List.prefix_append _ _).trans initial)
    have all_read : pressed (answers before) = typed behind earlier (scancodes before) ↔ pending = [] := by
      rw [held.order]
      exact List.self_eq_append_right
    rw [all_read]
    have last := (run_append.mp (run_earlier run initial)).2.1
    cases last with
    | read task own =>
      cases pending with
      | nil =>
        rw [pop_queued_nil held.queued task own]
        exact ⟨fun _ => rfl,fun _ => rfl⟩
      | cons d pending =>
        rw [(pop_queued_cons held.queued task own).1]
        exact ⟨fun zero => absurd zero (held.queued.slots.marked d List.mem_cons_self),fun empty => nomatch empty⟩

/-- The keys of the line that is typed, up to the Enter. -/
def typedLine (behind : UInt8) (earlier scancodes : List UInt8) : List UInt8 := (typed behind earlier scancodes).takeWhile (· ≠ 13)

theorem typedLine_eq {stream : List UInt8} (fresh : Fresh earlier p s) (run : Run (Step behind p) s moves)
    (bounded : Bounded behind earlier moves) (all : answers moves = stream ++ [13]) (enter : 13 ∉ stream) :
    typedLine behind earlier (scancodes moves) = pressed stream := by
  obtain ⟨rest,order,_⟩ := run_pending fresh run bounded
  have keys : pressed (answers moves) = pressed stream ++ [13] := by
    rw [all]
    simp [pressed]
  unfold typedLine
  rw [order,keys,List.append_assoc]
  have before : ∀ c ∈ pressed stream, decide (c ≠ 13) = true := by
    intro c member
    have inside := (List.mem_filter.mp member).1
    exact decide_eq_true fun same => enter (same ▸ inside)
  rw [List.takeWhile_append_of_pos before]
  simp

/-- Reading a line while the keys come stores what the loop takes of the line that has been typed up to the
    Enter; and that is the line as it was edited, while it has room and no backspace is typed on an empty line. -/
theorem typed_line {stream : List UInt8} {out : Nat} {max : Int} {output_while_typing : Bool} (program : Typing)
    (fresh : Fresh earlier p s) (run : Run (Step behind p) s moves) (bounded : Bounded behind earlier moves)
    (all : answers moves = stream ++ [13]) (enter : 13 ∉ stream) (some : 2 ≤ max) (buffer : (out : Int) + max ≤ 4294967296) :
    StoresLine out max output_while_typing (answers moves) program (taken max [] (typedLine behind earlier (scancodes moves))) ∧
    ((∀ q, q <+: typedLine behind earlier (scancodes moves) → ((edited [] q).length : Int) < max - 1 ∧ strays [] q = 0) →
      StoresLine out max output_while_typing (answers moves) program (edited [] (typedLine behind earlier (scancodes moves)))) := by
  rw [typedLine_eq fresh run bounded all enter,all]
  obtain ⟨left,t,read,text⟩ := readline_taken output_while_typing [] program enter some buffer
  refine ⟨⟨left,t,read,text⟩,fun clean => ?_⟩
  have meant := (taken_edited_iff (pressed stream) 0 [] fun q initial => (clean q initial).1).mpr
    ⟨by rw [(clean _ (List.prefix_refl _)).2],fun q initial odd => by
      rw [(clean q initial).2] at odd
      exact absurd odd (by decide)⟩
  rw [← meant]
  exact ⟨left,t,read,text⟩

end

/-! ### The keyboard played -/

/-- Scancodes (`some code`) and reads (`none`) one after another. -/
def struck (behind : UInt8) : List (Option UInt8) → Desk φ → List (KeyEvent × Desk φ)
  | [], _ => []
  | some code :: rest, s =>
    (.scancode code, classic_keyboard_handle_interrupt behind code s) ::
      struck behind rest (classic_keyboard_handle_interrupt behind code s)
  | none :: rest, s =>
    (.read (keyboard_pop s.world).1, { s with world := (keyboard_pop s.world).2 }) ::
      struck behind rest { s with world := (keyboard_pop s.world).2 }

section
variable {behind : UInt8} {earlier : List UInt8} {p : Nat} {s : Desk φ} {strokes : List (Option UInt8)}

theorem attended_interrupt (attended : Attended p s.world) (code : UInt8) :
    Attended p (classic_keyboard_handle_interrupt behind code s).world := by
  have kept : ∀ d : Desk φ, d.world = s.world → ∀ c : UInt8,
      Attended p (if c ≠ 0 then { d with world := keyboard_push c d.world } else d).world := by
    intro d same c
    split_ifs
    · exact (same ▸ attended : Attended p d.world).push
    · exact same ▸ attended
  unfold classic_keyboard_handle_interrupt
  by_cases release : code &&& CLASSIC_KEYBOARD_KEY_RELEASE ≠ 0
  · rw [if_pos release]
    exact attended
  · rw [if_neg release]
    refine kept _ ?_ _
    split_ifs <;> rfl

theorem struck_run (attended : Attended p s.world) : Run (Step behind p) s (struck behind strokes s) := by
  induction strokes generalizing s with
  | nil => trivial
  | cons stroke rest ih =>
    cases stroke with
    | none => exact ⟨.read attended.task attended.own,ih attended.pop⟩
    | some code => exact ⟨.scancode attended.current attended.process,ih (attended_interrupt attended code)⟩

theorem typed_length (behind : UInt8) (earlier scancodes : List UInt8) :
    (typed behind earlier scancodes).length ≤ scancodes.length := by
  induction scancodes using List.reverseRecOn with
  | nil => exact Nat.le_refl 0
  | append_singleton scancodes code ih =>
    have one : (character behind (capital (earlier ++ scancodes)) code).length ≤ 1 := by
      unfold character
      dsimp only
      split_ifs <;> simp
    rw [typed_concat,List.length_append,List.length_append,List.length_singleton]
    omega

theorem bounded_of_few {moves : List (KeyEvent × Desk φ)} (few : (scancodes moves).length ≤ SIMPOS_BUFFER_SIZE) :
    Bounded behind earlier moves := by
  rintro before ⟨rest,rfl⟩
  have short := typed_length behind earlier (scancodes before)
  unfold scancodes at few short ⊢
  rw [List.flatMap_append,List.length_append] at few
  omega

end

/-- One process that takes the keys. -/
def alone : Desk Unit := ⟨desk,KEYBOARD_CAPS_LOCK_OFF⟩

theorem alone_fresh : Fresh [] 1 alone := ⟨rfl,rfl⟩

/-- A, with the caps lock b, and the Enter. -/
def strokes : List (Option UInt8) := [some 0x1E,none,none,some 0x9E,some 0x3A,some 0x30,none,some 0x1C,none]

theorem typed_fifo_strokes :
    (∀ before, before <+: struck 0 strokes alone → pressed (answers before) <+: typed 0 [] (scancodes before)) ∧
    ∀ before c t, before ++ [(.read c,t)] <+: struck 0 strokes alone →
      (c = 0 ↔ pressed (answers before) = typed 0 [] (scancodes before)) :=
  typed_fifo alone_fresh (struck_run desk_attended) (bounded_of_few (by decide))

theorem typed_line_strokes :
    StoresLine 0x500000 64 true (answers (struck 0 strokes alone)) ⟨fun _ => 0,[]⟩
      (taken 64 [] (typedLine 0 [] (scancodes (struck 0 strokes alone)))) ∧
    ((∀ q, q <+: typedLine 0 [] (scancodes (struck 0 strokes alone)) → ((edited [] q).length : Int) < 64 - 1 ∧ strays [] q = 0) →
      StoresLine 0x500000 64 true (answers (struck 0 strokes alone)) ⟨fun _ => 0,[]⟩
        (edited [] (typedLine 0 [] (scancodes (struck 0 strokes alone))))) :=
  @typed_line _ 0 [] 1 alone (struck 0 strokes alone) [97,0,66] 0x500000 64 true ⟨fun _ => 0,[]⟩ alone_fresh
    (struck_run desk_attended) (bounded_of_few (by decide)) (by decide) (by decide) (by decide) (by decide)

end SimpOS.KeyboardDriver
