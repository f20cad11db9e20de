import SimpOS.CommandParser
import Mathlib.Data.List.GetD

/-!
How a user program reads a line, `simpos_terminal_readline` of the programs' simpos.c. The index of
the loop is the length of the line and is moved back by two before the loop moves it on; but a
backspace on an empty line is stored in it like any other key, and only the next one takes it away.
-/
namespace SimpOS.LineEditor
open SimpOS.Machine SimpOS.Memory SimpOS.Strings SimpOS.CommandParser

/-- The memory of the program and the characters it has put on the terminal. -/
structure Typing where
  memory : Bytes
  shown : List UInt8

/-- The next key of those that `simpos_getkey` is to return, where a zero is none; nothing when it still waits. -/
def simpos_getkeyblock : List UInt8 → Option (UInt8 × List UInt8)
  | [] => none
  | val :: keys => if val = 0 then simpos_getkeyblock keys else some (val, keys)

theorem getkeyblock_shorter {keys rest : List UInt8} {key : UInt8} (got : simpos_getkeyblock keys = some (key,rest)) :
    rest.length < keys.length := by
  induction keys with
  | nil => cases got
  | cons val keys ih =>
    rw [simpos_getkeyblock] at got
    by_cases none : val = 0
    · rw [if_pos none] at got
      exact Nat.lt_succ_of_lt (ih got)
    · rw [if_neg none] at got
      cases got
      exact Nat.lt_succ_self _

/-- The index the loop ends with, the keys that are left and the program. -/
def readline_loop (out : Nat) (max : Int) (output_while_typing : Bool) (keys : List UInt8) (i : Int) (s : Typing) :
    Option (Int × List UInt8 × Typing) :=
  if i < max - 1 then
    match _got : simpos_getkeyblock keys with
    | none => none
    | some (key, keys) =>
      if key = 13 then some (i, keys, s)
      else
        let s := if output_while_typing then { s with shown := s.shown ++ [key] } else s
        if key = 0x08 ∧ i ≥ 1 then
          readline_loop out max output_while_typing keys (i - 2 + 1)
            { s with memory := Function.update s.memory (offset out (i - 1).toNat) 0x00 }
        else
          readline_loop out max output_while_typing keys (i + 1)
            { s with memory := Function.update s.memory (offset out i.toNat) key }
  else some (i, keys, s)
termination_by keys.length
decreasing_by all_goals exact getkeyblock_shorter _got

def simpos_terminal_readline (out : Nat) (max : Int) (output_while_typing : Bool) (keys : List UInt8) (s : Typing) :
    Option (List UInt8 × Typing) :=
  (readline_loop out max output_while_typing keys 0 s).map fun (i, keys, s) =>
    (keys, { s with memory := Function.update s.memory (offset out i.toNat) 0x00 })

/-! ### Lines -/

/-- What a key does to the line that is edited. -/
def edit (line : CString) (key : UInt8) : CString := if key = 0x08 then line.dropLast else line ++ [key]
/-- The line that keys make of a line. -/
def edited (line : CString) (keys : List UInt8) : CString := keys.foldl edit line

/-- The keys of a stream. -/
def pressed (stream : List UInt8) : List UInt8 := stream.filter (· ≠ 0)

/-- What the loop makes of its line: it stops when there is no more room, and an empty line takes a backspace in. -/
def taken (max : Int) : CString → List UInt8 → CString
  | line, [] => line
  | line, key :: keys =>
    if line.length < max - 1 then taken max (if key = 0x08 ∧ line ≠ [] then line.dropLast else line ++ [key]) keys else line

/-- The backspaces that are typed on an empty line. -/
def strays : CString → List UInt8 → Nat
  | _, [] => 0
  | line, key :: keys => (if key = 0x08 ∧ line = [] then 1 else 0) + strays (edit line key) keys

/-- The line is in the buffer, without a NUL behind it. -/
def Stored (m : Bytes) (out : Nat) (line : CString) : Prop := ∀ j < line.length, m (out + j) = line.getD j 0

section
variable {m : Bytes} {out p : Nat} {line : CString} {key : UInt8}

theorem Stored.push (stored : Stored m out line) : Stored (Function.update m (out + line.length) key) out (line ++ [key]) := by
  intro j inside
  rw [List.length_append,List.length_singleton] at inside
  by_cases last : j = line.length
  · subst last
    rw [Function.update_self,List.getD_append_right _ _ _ _ (Nat.le_refl _),Nat.sub_self]
    rfl
  · have before : j < line.length := by omega
    rw [Function.update_of_ne (by omega),stored j before,List.getD_append _ _ _ _ before]

theorem Stored.pop (stored : Stored m out line) :
    Stored (Function.update m (out + (line.length - 1)) 0x00) out line.dropLast := by
  intro j inside
  rw [List.length_dropLast] at inside
  rw [Function.update_of_ne (by omega),stored j (by omega)]
  rw [List.getD_eq_getElem _ _ (by omega),List.getD_eq_getElem _ _ (by rw [List.length_dropLast]; exact inside),
    List.getElem_dropLast]

/-- The NUL that is put behind a line makes a string of it. -/
theorem Stored.text (stored : Stored m out line) (marked : 0 ∉ line) (room : out + line.length < 4294967296) :
    Text (Function.update m (out + line.length) 0x00) out line := by
  induction line generalizing out with
  | nil => exact ⟨Function.update_self _ _ _,room⟩
  | cons c line ih =>
    rw [List.length_cons] at room ⊢
    rw [List.mem_cons,not_or] at marked
    have rest : Stored m (out + 1) line := by
      intro j inside
      have byte := stored (j + 1) (by rw [List.length_cons]; omega)
      rw [List.getD_cons_succ] at byte
      rwa [Nat.add_assoc,Nat.add_comm 1 j]
    have first : m out = c := stored 0 (Nat.zero_lt_succ _)
    have text := ih rest marked.2 (by omega)
    rw [show out + 1 + line.length = out + (line.length + 1) by omega] at text
    exact ⟨fun zero => marked.1 zero.symm,(Function.update_of_ne (by omega) _ _).trans first,text⟩

theorem text_unique {a b : CString} (first : Text m p a) (second : Text m p b) : a = b := by
  induction a generalizing p b with
  | nil =>
    cases b with
    | nil => rfl
    | cons c b => exact absurd (second.2.1.symm.trans first.1) second.1
  | cons c a ih =>
    cases b with
    | nil => exact absurd (first.2.1.symm.trans second.1) first.1
    | cons d b =>
      rw [ih first.2.2 second.2.2,first.2.1.symm.trans second.2.1]

end

section
variable {out : Nat} {max : Int} {line : CString} {stream : List UInt8}

theorem getkeyblock_stream (rest : List UInt8) (enter : 13 ∉ stream) :
    (pressed stream = [] ∧ simpos_getkeyblock (stream ++ 13 :: rest) = some (13,rest)) ∨
    ∃ key after, pressed stream = key :: pressed after ∧ key ≠ 0 ∧ key ≠ 13 ∧ 13 ∉ after ∧
      simpos_getkeyblock (stream ++ 13 :: rest) = some (key,after ++ 13 :: rest) := by
  induction stream with
  | nil => exact .inl ⟨rfl,rfl⟩
  | cons val stream ih =>
    rw [List.mem_cons,not_or] at enter
    rw [List.cons_append,simpos_getkeyblock]
    by_cases none : val = 0
    · rw [if_pos none,pressed,List.filter_cons_of_neg (by simpa using none)]
      exact ih enter.2
    · rw [if_neg none,pressed,List.filter_cons_of_pos (by simpa using none)]
      exact .inr ⟨val,stream,rfl,none,fun same => enter.1 same.symm,enter.2,rfl⟩

/-- What the loop stores of the keys before the Enter. -/
theorem readline_loop_taken (output_while_typing : Bool) (rest : List UInt8) (n : Nat) : ∀ {stream : List UInt8} {line : CString} {s : Typing}, stream.length = n →
    13 ∉ stream → Stored s.memory out line → (line.length : Int) ≤ max - 1 → (out : Int) + max ≤ 4294967296 →
    ∃ keys t, readline_loop out max output_while_typing (stream ++ 13 :: rest) line.length s =
      some ((((taken max line (pressed stream)).length : Nat) : Int),keys,t) ∧
      Stored t.memory out (taken max line (pressed stream)) ∧ ((taken max line (pressed stream)).length : Int) ≤ max - 1 := by
  induction n using Nat.strong_induction_on with
  | _ n ih =>
    intro stream line s length enter stored small buffer
    rw [readline_loop]
    by_cases room : (line.length : Int) < max - 1
    · rw [if_pos room]
      rcases getkeyblock_stream rest enter with ⟨none,got⟩ | ⟨key,after,more,nonzero,other,enter',got⟩
      · rw [none]
        split
        next missing =>
          rw [got] at missing
          cases missing
        next key keys found =>
          rw [got] at found
          cases found
          rw [if_pos rfl]
          exact ⟨_,_,rfl,stored,small⟩
      · have shorter := getkeyblock_shorter got
        rw [List.length_append,List.length_append] at shorter
        split
        next missing =>
          rw [got] at missing
          cases missing
        next key' keys found =>
          rw [got] at found
          cases found
          rw [if_neg other,more,taken,if_pos room]
          dsimp only
          obtain ⟨t,same⟩ : ∃ t, t = (if output_while_typing = true then { s with shown := s.shown ++ [key] } else s) := ⟨_,rfl⟩
          rw [← same]
          have memory : t.memory = s.memory := by
            rw [same]
            split_ifs <;> rfl
          by_cases back : key = 0x08 ∧ line ≠ []
          · have positive := List.length_pos_iff.mpr back.2
            have place : offset out ((line.length : Int) - 1).toNat = out + (line.length - 1) := by
              rw [offset_of_lt (by omega)]
              omega
            have index : (line.length : Int) - 2 + 1 = (line.dropLast.length : Nat) := by
              rw [List.length_dropLast]
              omega
            rw [if_pos ⟨back.1,by omega⟩,if_pos back,place,index]
            refine ih after.length (by omega) rfl enter' ?_ (by omega) buffer
            rw [memory]
            exact stored.pop
          · have place : offset out (line.length : Int).toNat = out + line.length := by
              rw [Int.toNat_natCast]
              exact offset_of_lt (by omega)
            have index : (line.length : Int) + 1 = ((line ++ [key]).length : Nat) := by
              rw [List.length_append,List.length_singleton]
              rfl
            have keep : ¬(key = 0x08 ∧ (line.length : Int) ≥ 1) := fun both =>
              back ⟨both.1,List.length_pos_iff.mp (by omega)⟩
            rw [if_neg keep,if_neg back,place,index]
            refine ih after.length (by omega) rfl enter' ?_ (by omega) buffer
            rw [memory]
            exact stored.push
    · have full : taken max line (pressed stream) = line := by
        cases pressed stream with
        | nil => rfl
        | cons key keys => exact if_neg room
      rw [if_neg room,full]
      exact ⟨_,_,rfl,stored,small⟩

theorem taken_marked {keys : List UInt8} (nonzero : 0 ∉ keys) : ∀ {line : CString}, 0 ∉ line → 0 ∉ taken max line keys := by
  induction keys with
  | nil => exact fun marked => marked
  | cons key keys ih =>
    intro line marked
    rw [List.mem_cons,not_or] at nonzero
    rw [taken]
    split_ifs
    · exact ih nonzero.2 fun member => marked ((List.dropLast_sublist line).subset member)
    · refine ih nonzero.2 fun member => ?_
      rcases List.mem_append.mp member with before | last
      · exact marked before
      · exact nonzero.1 (List.mem_singleton.mp last)
    · exact marked

/-- The line that is stored, whatever is typed. -/
theorem readline_taken (output_while_typing : Bool) (rest : List UInt8) (s : Typing) (enter : 13 ∉ stream) (some : 2 ≤ max)
    (buffer : (out : Int) + max ≤ 4294967296) :
    ∃ keys t, simpos_terminal_readline out max output_while_typing (stream ++ 13 :: rest) s = Option.some (keys,t) ∧
      Text t.memory out (taken max [] (pressed stream)) := by
  have empty : Stored s.memory out [] := fun j inside => absurd inside (Nat.not_lt_zero j)
  have fits : (([] : CString).length : Int) ≤ max - 1 := by
    rw [List.length_nil]
    omega
  obtain ⟨keys,t,loop,stored,small⟩ := readline_loop_taken output_while_typing rest stream.length rfl enter empty fits buffer
  have loop : readline_loop out max output_while_typing (stream ++ 13 :: rest) 0 s = _ := loop
  refine ⟨keys,{ t with memory := Function.update t.memory (out + (taken max [] (pressed stream)).length) 0x00 },?_,?_⟩
  · unfold simpos_terminal_readline
    rw [loop,Option.map_some]
    dsimp only
    rw [Int.toNat_natCast,offset_of_lt (by omega)]
  · refine stored.text (taken_marked ?_ List.not_mem_nil) (by omega)
    intro member
    exact absurd (List.mem_filter.mp member).2 (by decide)

end

/-! ### What is stored and what is meant -/

/-- The line as the buffer has it after so many backspaces on an empty one: every second takes the one before away. -/
def held (n : Nat) (line : CString) : CString := if n % 2 = 1 then 0x08 :: line else line

section
variable {max : Int} {key : UInt8}

theorem held_odd {n : Nat} (odd : n % 2 = 1) (line : CString) : held n line = 0x08 :: line := if_pos odd
theorem held_even {n : Nat} (even : n % 2 = 0) (line : CString) : held n line = line := if_neg (by omega)

/-- The buffer's line after a key, where there is room for it. -/
theorem held_edit (n : Nat) (line : CString) :
    (if key = 0x08 ∧ held n line ≠ [] then (held n line).dropLast else held n line ++ [key]) =
      held (n + if key = 0x08 ∧ line = [] then 1 else 0) (edit line key) := by
  have parity := Nat.mod_two_eq_zero_or_one n
  by_cases back : key = 0x08
  · have edits : edit line key = line.dropLast := if_pos back
    rw [edits]
    by_cases empty : line = []
    · have stray : (if key = 0x08 ∧ line = [] then 1 else 0) = 1 := if_pos ⟨back,empty⟩
      rw [stray,empty,back]
      rcases parity with even | odd
      · rw [held_even even,held_odd (by omega)]
        rfl
      · rw [held_odd odd,held_even (by omega)]
        rfl
    · have none : (if key = 0x08 ∧ line = [] then 1 else 0) = 0 := if_neg fun both => empty both.2
      rw [none,Nat.add_zero]
      rcases parity with even | odd
      · rw [held_even even,held_even even,if_pos ⟨back,empty⟩]
      · rw [held_odd odd,held_odd odd,if_pos ⟨back,List.cons_ne_nil _ _⟩,List.dropLast_cons_of_ne_nil empty]
  · have edits : edit line key = line ++ [key] := if_neg back
    have none : (if key = 0x08 ∧ line = [] then 1 else 0) = 0 := if_neg fun both => back both.1
    rw [edits,none,Nat.add_zero,if_neg fun both => back both.1]
    rcases parity with even | odd
    · rw [held_even even,held_even even]
    · rw [held_odd odd,held_odd odd]
      rfl

/-- From a line on, the buffer comes to what is meant exactly when the backspaces on an empty line cancel out
    and there is room for one of them while they do not. -/
theorem taken_edited_iff (keys : List UInt8) : ∀ (n : Nat) (line : CString),
    (∀ p, p <+: keys → ((edited line p).length : Int) < max - 1) →
    (taken max (held n line) keys = edited line keys ↔ (n + strays line keys) % 2 = 0 ∧
      ∀ p, p <+: keys → (n + strays line p) % 2 = 1 → ((edited line p).length : Int) + 2 < max) := by
  induction keys with
  | nil =>
    intro n line short
    show held n line = line ↔ _
    unfold held
    constructor
    · intro same
      have even : ¬n % 2 = 1 := by
        intro odd
        rw [if_pos odd] at same
        have length := congrArg List.length same
        rw [List.length_cons] at length
        omega
      refine ⟨by show (n + 0) % 2 = 0; omega,fun p initial odd => ?_⟩
      rw [List.prefix_nil.mp initial] at odd
      exact absurd odd even
    · rintro ⟨even,_⟩
      exact if_neg (show ¬n % 2 = 1 by have : (n + 0) % 2 = 0 := even; omega)
  | cons key keys ih =>
    intro n line short
    have step := ih (n + if key = 0x08 ∧ line = [] then 1 else 0) (edit line key)
      fun p initial => short (key :: p) (List.cons_prefix_cons.mpr ⟨rfl,initial⟩)
    have here : (line.length : Int) < max - 1 := short [] (List.nil_prefix)
    have whole : ((edited line (key :: keys)).length : Int) < max - 1 := short _ (List.prefix_refl _)
    rw [taken,held_edit]
    by_cases room : ((held n line).length : Int) < max - 1
    · have first : n % 2 = 1 → (line.length : Int) + 2 < max := by
        intro odd
        unfold held at room
        rw [if_pos odd,List.length_cons] at room
        omega
      rw [if_pos room]
      refine step.trans ?_
      rw [Nat.add_assoc]
      refine and_congr_right fun _ => ⟨fun later p initial odd => ?_,fun all p initial odd => ?_⟩
      · cases p with
        | nil => exact first odd
        | cons k p =>
          obtain ⟨rfl,shorter⟩ := List.cons_prefix_cons.mp initial
          exact later p shorter (by rw [Nat.add_assoc]; exact odd)
      · exact all (key :: p) (List.cons_prefix_cons.mpr ⟨rfl,initial⟩) (by rw [Nat.add_assoc] at odd; exact odd)
    · have odd : n % 2 = 1 := by
        by_contra even
        unfold held at room
        rw [if_neg even] at room
        exact room here
      have full : held n line = 0x08 :: line := if_pos odd
      rw [if_neg room]
      rw [full,List.length_cons] at room
      refine iff_of_false (fun same => ?_) fun meant => ?_
      · rw [full] at same
        rw [← same,List.length_cons] at whole
        omega
      · have more := meant.2 [] List.nil_prefix odd
        have more : (line.length : Int) + 2 < max := more
        omega

end

/-- The backspaces on an empty line cancel out, and while one of them is in the buffer there is room for it. -/
structure Undisturbed (max : Int) (keys : List UInt8) : Prop where
  even : strays [] keys % 2 = 0
  room : ∀ p, p <+: keys → strays [] p % 2 = 1 → ((edited [] p).length : Int) + 2 < max

/-- Reading the keys stores the line in the buffer. -/
def StoresLine (out : Nat) (max : Int) (output_while_typing : Bool) (keys : List UInt8) (s : Typing) (line : CString) : Prop :=
  ∃ left t, simpos_terminal_readline out max output_while_typing keys s = some (left,t) ∧ Text t.memory out line

/-- While the line has room, what is stored is what the keys before the Enter make of an empty line exactly when
    they are undisturbed. -/
theorem readline_stores_iff {out : Nat} {max : Int} {output_while_typing : Bool} {stream rest : List UInt8} {s : Typing}
    (some : 2 ≤ max) (buffer : (out : Int) + max ≤ 4294967296) (enter : 13 ∉ stream)
    (short : ∀ p, p <+: pressed stream → ((edited [] p).length : Int) < max - 1) :
    StoresLine out max output_while_typing (stream ++ 13 :: rest) s (edited [] (pressed stream)) ↔
      Undisturbed max (pressed stream) := by
  obtain ⟨left,t,read,text⟩ := readline_taken output_while_typing rest s enter some buffer
  have meant := taken_edited_iff (pressed stream) 0 [] short
  simp only [Nat.zero_add] at meant
  have empty : held 0 [] = [] := rfl
  rw [empty] at meant
  constructor
  · rintro ⟨left',t',read',text'⟩
    rw [read] at read'
    cases read'
    obtain ⟨even,room⟩ := meant.mp (text_unique text text')
    exact ⟨even,room⟩
  · rintro ⟨even,room⟩
    rw [← meant.mpr ⟨even,room⟩]
    exact ⟨left,t,read,text⟩

private theorem initial_keys {p : List UInt8} (initial : p <+: pressed [97,0,8,98]) :
    ∃ n < 4, p = (pressed [97,0,8,98]).take n := by
  have length := initial.length_le
  rw [show (pressed [97,0,8,98]).length = 3 by decide] at length
  exact ⟨p.length,by omega,List.prefix_iff_eq_take.mp initial⟩

/-- Typing a, a backspace and b stores b. -/
theorem readline_stores_b : StoresLine 0x500000 64 true ([97,0,8,98] ++ 13 :: []) ⟨fun _ => 0,[]⟩ [98] := by
  have all : ∀ n < 4, ((edited [] ((pressed [97,0,8,98]).take n)).length : Int) < 64 - 1 ∧
      strays [] ((pressed [97,0,8,98]).take n) % 2 = 0 := by decide
  have short : ∀ p, p <+: pressed [97,0,8,98] → ((edited [] p).length : Int) < 64 - 1 := by
    intro p initial
    obtain ⟨n,few,rfl⟩ := initial_keys initial
    exact (all n few).1
  refine (readline_stores_iff (by decide) (by decide) (by decide) short).mpr ⟨by decide,fun p initial odd => ?_⟩
  obtain ⟨n,few,rfl⟩ := initial_keys initial
  have even := (all n few).2
  omega

/-- A backspace on the empty line is stored. -/
theorem readline_backspace_stored :
    ¬StoresLine 0x500000 64 true ([8,97] ++ 13 :: []) ⟨fun _ => 0,[]⟩ (edited [] (pressed [8,97])) := by
  intro stores
  obtain ⟨left,t,read,text⟩ : StoresLine 0x500000 64 true ([8,97] ++ 13 :: []) ⟨fun _ => 0,[]⟩ (taken 64 [] (pressed [8,97])) :=
    readline_taken true [] ⟨fun _ => 0,[]⟩ (by decide) (by decide) (by decide)
  obtain ⟨left',t',read',text'⟩ := stores
  rw [read] at read'
  cases read'
  exact absurd (text_unique text text') (by decide)

end SimpOS.LineEditor
