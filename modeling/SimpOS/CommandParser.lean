import SimpOS.Runs
import SimpOS.TaskMemory
import Mathlib.Tactic.IntervalCases

/-!
How a user program splits a command into its arguments: `strtok` of the programs' string.c
and `simpos_parse_command` of their simpos.c. The cursor `sp` of `strtok` outlives the buffer
it points into. Only the call that finds no more tokens sets it back, so that a parse which
an allocation cuts short leaves it behind for the next one.
-/
namespace SimpOS.CommandParser
open SimpOS.Machine SimpOS.Memory SimpOS.Strings SimpOS.TaskMemory SimpOS.Runs

/-- The memory of the program and the cursor `sp`. -/
structure Program where
  memory : Bytes
  sp : Nat

/-- The loop over the delimiters before a token; it has no end where all memory is delimiters. -/
def strtok_skip (m : Bytes) (delimiters : CString) : Nat → Nat → Option Nat
  | 0, _ => none
  | fuel + 1, p_start =>
    if m p_start ∈ delimiters then strtok_skip m delimiters fuel (offset p_start 1) else some p_start

/-- The loop over a token, which puts a NUL in the place of the delimiter behind it. -/
def strtok_cut (delimiters : CString) : Nat → Bytes → Nat → Option (Bytes × Nat)
  | 0, _, _ => none
  | fuel + 1, m, sp =>
    if m sp = 0 then some (m, sp)
    else if m sp ∈ delimiters then some (Function.update m sp 0, offset sp 1)
    else strtok_cut delimiters fuel m (offset sp 1)

def strtok (str : Nat) (delimiters : CString) (s : Program) : Option (Nat × Program) :=
  if str = 0 ∧ s.sp = 0 then some (0, s)
  else
    let sp := if str ≠ 0 ∧ s.sp = 0 then str else s.sp
    (strtok_skip s.memory delimiters 4294967296 sp).bind fun p_start =>
      if s.memory p_start = 0 then some (0, { s with sp := 0 })
      else (strtok_cut delimiters 4294967296 s.memory p_start).map fun cut => (p_start, ⟨cut.1, cut.2⟩)

/-- `strncpy` of a string that does not lie where it is copied to. -/
def strncpy_loop (dest : Nat) : CString → Nat → Nat → Bytes → Bytes
  | c :: src, remaining + 1, i, m => strncpy_loop dest src remaining (i + 1) (Function.update m (offset dest i) c)
  | _, _, i, m => Function.update m (offset dest i) 0x00
def strncpy (m : Bytes) (dest : Nat) (src : CString) (count : Nat) : Bytes := strncpy_loop dest src (count - 1) 0 m

/-- What `strncpy` puts in the `argument` of a node, which has room for 512 bytes. -/
def copied_argument (m : Bytes) (token : Nat) : CString := string_at kernel_page m token 511

/-- The nodes that are made from a token on; mallocs are the outcomes of the allocations to come. -/
def simpos_parse_loop : List Bool → Nat → Program → Option (List CString × Program)
  | [], _, s => some ([], s)
  | malloc :: mallocs, token, s =>
    if token = 0 then some ([], s)
    else if !malloc then some ([], s)
    else (strtok 0 [32] s).bind fun next =>
      (simpos_parse_loop mallocs next.1 next.2).map fun rest => (copied_argument s.memory token :: rest.1, rest.2)

/-- The list of arguments, empty where the source returns null; scommand is the place of the
    buffer on the stack. The root is made like the nodes after it. -/
def simpos_parse_command (command : CString) (max : Int) (scommand : Nat) (mallocs : List Bool) (s : Program) :
    Option (List CString × Program) :=
  if max ≥ 1025 then some ([], s)
  else
    let s := { s with memory := strncpy s.memory scommand command 1025 }
    (strtok scommand [32] s).bind fun token => simpos_parse_loop mallocs token.1 token.2

/-! ### Strings in memory -/

/-- The string str and its NUL are at p. -/
def Text (m : Bytes) : Nat → CString → Prop
  | p, [] => m p = 0 ∧ p < 4294967296
  | p, c :: str => c ≠ 0 ∧ m p = c ∧ Text m (p+1) str

section
variable {m m' : Bytes} {p q : Nat} {str : CString} {c : UInt8}

theorem Text.bound (text : Text m p str) : p + str.length < 4294967296 := by
  induction str generalizing p with
  | nil => exact text.2
  | cons c str ih =>
    have rest := ih text.2.2
    rw [List.length_cons]
    omega

theorem Text.ending (text : Text m p str) : Text m (p + str.length) [] := by
  induction str generalizing p with
  | nil => exact text
  | cons c str ih =>
    have rest := ih text.2.2
    rwa [Nat.add_right_comm,Nat.add_assoc] at rest

theorem Text.unmarked (text : Text m p str) : 0 ∉ str := by
  induction str generalizing p with
  | nil => exact List.not_mem_nil
  | cons c str ih =>
    rw [List.mem_cons,not_or]
    exact ⟨fun zero => text.1 zero.symm,ih text.2.2⟩

theorem Text.within (text : Text m p str) (same : ∀ a, p ≤ a → a ≤ p + str.length → m' a = m a) : Text m' p str := by
  induction str generalizing p with
  | nil => exact ⟨(same p (Nat.le_refl p) (Nat.le_add_right _ _)).trans text.1,text.2⟩
  | cons c str ih =>
    rw [List.length_cons] at same
    exact ⟨text.1,(same p (Nat.le_refl p) (Nat.le_add_right _ _)).trans text.2.1,
      ih text.2.2 fun a above below => same a (by omega) (by omega)⟩

theorem Text.congr (text : Text m p str) (same : ∀ a, p ≤ a → m' a = m a) : Text m' p str :=
  text.within fun a above _ => same a above

theorem Text.next (text : Text m p (c :: str)) : offset p 1 = p + 1 := by
  have bound := text.bound
  rw [List.length_cons] at bound
  exact offset_of_lt (by omega)

theorem string_at_text (text : Text m p str) (n : Nat) : string_at kernel_page m p n = str.take n := by
  induction n generalizing p str with
  | zero => rfl
  | succ n ih =>
    cases str with
    | nil =>
      unfold string_at
      exact if_pos text.1
    | cons c str =>
      unfold string_at
      have byte : byte_at kernel_page m p = c := text.2.1
      rw [byte,if_neg text.1,text.next,ih text.2.2,List.take_succ_cons]

theorem strncpy_loop_text {dest : Nat} {src : CString} (marked : 0 ∉ src) {n i : Nat}
    (room : dest + i + n < 4294967296) :
    Text (strncpy_loop dest src n i m) (dest + i) (src.take n) ∧
    ∀ a, a < dest + i ∨ dest + i + n < a → strncpy_loop dest src n i m a = m a := by
  have place : offset dest i = dest + i := offset_of_lt (by omega)
  induction src generalizing n i m with
  | nil =>
    unfold strncpy_loop
    rw [place,List.take_nil]
    exact ⟨⟨Function.update_self _ _ _,by omega⟩,fun a outside => Function.update_of_ne (by omega) _ _⟩
  | cons c src ih =>
    cases n with
    | zero =>
      unfold strncpy_loop
      rw [place,List.take_zero]
      exact ⟨⟨Function.update_self _ _ _,by omega⟩,fun a outside => Function.update_of_ne (by omega) _ _⟩
    | succ n =>
      rw [List.mem_cons,not_or] at marked
      unfold strncpy_loop
      rw [place,List.take_succ_cons]
      obtain ⟨text,same⟩ := ih (m := Function.update m (dest+i) c) marked.2 (n := n) (i := i+1) (by omega)
        (offset_of_lt (by omega))
      refine ⟨⟨fun zero => marked.1 zero.symm,?_,text⟩,fun a outside => ?_⟩
      · rw [same (dest+i) (by omega),Function.update_self]
      · rw [same a (by omega),Function.update_of_ne (by omega)]

/-! ### The tokens of a string -/

/-- The words between the spaces. -/
def arguments : CString → List CString
  | [] => []
  | c :: str =>
    if c = 32 then arguments str
    else if str.headD 32 = 32 then [c] :: arguments str
    else match arguments str with
      | [] => [[c]]
      | word :: words => (c :: word) :: words

/-- What is left behind the first word and the space that ends it. -/
def after (str : CString) : CString := (str.dropWhile (· ≠ 32)).tail

theorem arguments_skip (str : CString) : arguments (str.dropWhile (· = 32)) = arguments str := by
  induction str with
  | nil => rfl
  | cons c str ih =>
    by_cases space : c = 32
    · rw [List.dropWhile_cons_of_pos (by simpa using space),ih]
      exact (if_pos space).symm
    · rw [List.dropWhile_cons_of_neg (by simpa using space)]

theorem after_word (word : c ≠ 32) : after (c :: str) = after str := by
  unfold after
  rw [List.dropWhile_cons_of_pos (by simpa using word)]

theorem takeWhile_word (word : c ≠ 32) : (c :: str).takeWhile (· ≠ 32) = c :: str.takeWhile (· ≠ 32) :=
  List.takeWhile_cons_of_pos (by simpa using word)

theorem arguments_cons (c : UInt8) (str : CString) : arguments (c :: str) =
    if c = 32 then arguments str
    else if str.headD 32 = 32 then [c] :: arguments str
    else match arguments str with
      | [] => [[c]]
      | word :: words => (c :: word) :: words := rfl

theorem arguments_word (word : c ≠ 32) :
    arguments (c :: str) = (c :: str).takeWhile (· ≠ 32) :: arguments (after (c :: str)) := by
  rw [takeWhile_word word,after_word word,arguments_cons,if_neg word]
  induction str generalizing c with
  | nil => rfl
  | cons d str ih =>
    by_cases space : d = 32
    · subst space
      rfl
    · rw [if_neg (show ¬(d :: str).headD 32 = 32 from space),arguments_cons,if_neg space,ih space,
        takeWhile_word space,after_word space]

theorem skipped_head {more : CString} (skipped : str.dropWhile (· = 32) = c :: more) : c ≠ 32 := by
  have first := List.head?_dropWhile_not (fun c : UInt8 => decide (c = 32)) str
  rw [skipped] at first
  simpa using first

/-- Skipping the spaces leads to the first word. -/
theorem strtok_skip_text (text : Text m p str) {fuel : Nat} (enough : str.length < fuel) :
    ∃ q, strtok_skip m [32] fuel p = some q ∧ Text m q (str.dropWhile (· = 32)) ∧
      p ≤ q ∧ q + (str.dropWhile (· = 32)).length = p + str.length := by
  induction str generalizing p fuel with
  | nil =>
    obtain ⟨fuel,rfl⟩ : ∃ n, fuel = n + 1 := ⟨fuel - 1,by omega⟩
    unfold strtok_skip
    rw [if_neg (by rw [text.1]; decide)]
    exact ⟨p,rfl,text,Nat.le_refl p,rfl⟩
  | cons c str ih =>
    obtain ⟨fuel,rfl⟩ : ∃ n, fuel = n + 1 := ⟨fuel - 1,by omega⟩
    rw [List.length_cons] at enough
    unfold strtok_skip
    rw [text.2.1]
    by_cases space : c = 32
    · rw [if_pos (List.mem_singleton.mpr space),text.next,List.dropWhile_cons_of_pos (by simpa using space)]
      obtain ⟨q,skipped,found,later,length⟩ := ih text.2.2 (by omega : str.length < fuel)
      exact ⟨q,skipped,found,by omega,by rw [List.length_cons]; omega⟩
    · rw [if_neg fun among => space (List.mem_singleton.mp among),List.dropWhile_cons_of_neg (by simpa using space)]
      exact ⟨p,rfl,text,Nat.le_refl p,rfl⟩

/-- Cutting leaves a string of the word and the cursor at what is behind it. -/
theorem strtok_cut_text (text : Text m p str) {fuel : Nat} (enough : str.length < fuel) :
    ∃ cut q, strtok_cut [32] fuel m p = some (cut,q) ∧ Text cut p (str.takeWhile (· ≠ 32)) ∧ Text cut q (after str) ∧
      p ≤ q ∧ q + (after str).length ≤ p + str.length ∧ (∀ a, a < p ∨ p + str.length ≤ a → cut a = m a) ∧
      p + (str.takeWhile (· ≠ 32)).length ≤ q := by
  induction str generalizing p fuel with
  | nil =>
    obtain ⟨fuel,rfl⟩ : ∃ n, fuel = n + 1 := ⟨fuel - 1,by omega⟩
    unfold strtok_cut
    rw [if_pos text.1]
    exact ⟨m,p,rfl,text,text,Nat.le_refl p,Nat.le_refl _,fun a outside => rfl,Nat.le_refl p⟩
  | cons c str ih =>
    obtain ⟨fuel,rfl⟩ : ∃ n, fuel = n + 1 := ⟨fuel - 1,by omega⟩
    have bound := text.bound
    rw [List.length_cons] at enough bound
    unfold strtok_cut
    rw [text.2.1,if_neg text.1,text.next]
    by_cases space : c = 32
    · subst space
      rw [if_pos (List.mem_singleton.mpr rfl)]
      refine ⟨_,p+1,rfl,⟨Function.update_self _ _ _,by omega⟩,?_,by omega,?_,?_,by simp⟩
      · exact text.2.2.congr fun a above => Function.update_of_ne (by omega) _ _
      · exact Nat.le_of_eq (by simp [after]; omega)
      · rw [List.length_cons]
        exact fun a outside => Function.update_of_ne (by omega) _ _
    · rw [if_neg fun among => space (List.mem_singleton.mp among),takeWhile_word space,after_word space]
      obtain ⟨cut,q,result,word,rest,later,length,same,passed⟩ := ih text.2.2 (by omega : str.length < fuel)
      refine ⟨cut,q,result,⟨text.1,(same p (by omega)).trans text.2.1,word⟩,rest,by omega,?_,
        fun a outside => same a ?_,?_⟩
      · rw [List.length_cons]
        omega
      · rw [List.length_cons] at outside
        omega
      · rw [List.length_cons]
        omega

/-- Where the next token is looked for. -/
def start (str : Nat) (s : Program) : Nat := if str ≠ 0 ∧ s.sp = 0 then str else s.sp

section
variable {s : Program} {str : Nat} {text : CString}

private theorem start_some (some : start str s ≠ 0) : ¬(str = 0 ∧ s.sp = 0) := by
  rintro ⟨null,unset⟩
  unfold start at some
  rw [if_neg fun both => both.1 null] at some
  exact some unset

/-- No more tokens: the cursor is set back. -/
theorem strtok_none (some : start str s ≠ 0) (found : Text s.memory (start str s) text) (none : arguments text = []) :
    strtok str [32] s = Option.some (0,{ s with sp := 0 }) := by
  obtain ⟨q,skipped,rest,_,_⟩ := strtok_skip_text found (by have := found.bound; omega : text.length < 4294967296)
  unfold strtok
  rw [if_neg (start_some some)]
  dsimp only
  rw [← start,skipped,Option.bind_some]
  rw [← arguments_skip] at none
  cases skip : text.dropWhile (· = 32) with
  | nil =>
    rw [skip] at rest
    rw [if_pos rest.1]
  | cons c more =>
    rw [skip,arguments_word (skipped_head skip)] at none
    exact absurd none (List.cons_ne_nil _ _)

/-- One more token: a string of the next word, with the cursor behind it. -/
theorem strtok_some {word : CString} {words : List CString} (some : start str s ≠ 0)
    (found : Text s.memory (start str s) text) (more : arguments text = word :: words) :
    ∃ token t rest, strtok str [32] s = Option.some (token,t) ∧ token ≠ 0 ∧ Text t.memory token word ∧
      Text t.memory t.sp rest ∧ arguments rest = words ∧ start str s < t.sp ∧
      t.sp + rest.length ≤ start str s + text.length ∧
      ∀ a, a < start str s ∨ start str s + text.length ≤ a → t.memory a = s.memory a := by
  obtain ⟨q,skipped,rest,later,length⟩ := strtok_skip_text found (by have := found.bound; omega : text.length < 4294967296)
  rw [← arguments_skip] at more
  unfold strtok
  rw [if_neg (start_some some)]
  dsimp only
  rw [← start,skipped,Option.bind_some]
  cases skip : text.dropWhile (· = 32) with
  | nil =>
    rw [skip] at more
    exact absurd more.symm (List.cons_ne_nil _ _)
  | cons c left =>
    have head : c ≠ 32 := skipped_head skip
    rw [skip] at rest more length
    rw [arguments_word head,List.cons.injEq] at more
    rw [if_neg (by rw [rest.2.1]; exact rest.1)]
    obtain ⟨cut,sp,result,token,behind,_,shorter,same,passed⟩ :=
      strtok_cut_text rest (by have := rest.bound; omega : (c :: left).length < 4294967296)
    rw [result]
    have nonempty : 0 < ((c :: left).takeWhile (· ≠ 32)).length := by
      rw [takeWhile_word head]
      exact Nat.zero_lt_succ _
    exact ⟨q,⟨cut,sp⟩,after (c :: left),rfl,by omega,more.1 ▸ token,behind,more.2,by dsimp only; omega,by dsimp only; omega,
      fun a outside => same a (by omega)⟩

end

/-! ### The arguments of a command -/

/-- The first n allocations succeed. -/
def Granted (mallocs : List Bool) (n : Nat) : Prop := ∀ i, i < n → mallocs[i]? = some true

theorem granted_nil (n : Nat) : ¬Granted [] (n+1) := fun granted => nomatch granted 0 (Nat.zero_lt_succ n)
theorem granted_false (mallocs : List Bool) (n : Nat) : ¬Granted (false :: mallocs) (n+1) :=
  fun granted => nomatch granted 0 (Nat.zero_lt_succ n)
theorem granted_true {mallocs : List Bool} {n : Nat} : Granted (true :: mallocs) (n+1) ↔ Granted mallocs n := by
  constructor
  · exact fun granted i below => granted (i+1) (Nat.succ_lt_succ below)
  · intro granted i below
    cases i with
    | zero => rfl
    | succ i => exact granted i (Nat.lt_of_succ_lt_succ below)

section
variable {s : Program} {token : Nat} {word text : CString}

theorem loop_null (mallocs : List Bool) (s : Program) : simpos_parse_loop mallocs 0 s = some ([],s) := by
  cases mallocs with
  | nil => rfl
  | cons malloc mallocs => exact if_pos rfl

theorem copied_argument_text (found : Text s.memory token word) : copied_argument s.memory token = word.take 511 :=
  string_at_text found 511

/-- With its allocations the loop gives a node for every word and sets the cursor back; when
    one fails the cursor stays where it is. -/
theorem loop_text (mallocs : List Bool) (null : token ≠ 0) (first : Text s.memory token word) (left : s.sp ≠ 0)
    (found : Text s.memory s.sp text) :
    ∃ args t, simpos_parse_loop mallocs token s = some (args,t) ∧
      (Granted mallocs ((arguments text).length + 1) →
        args = (word :: arguments text).map (List.take 511) ∧ t.sp = 0) ∧
      (¬Granted mallocs ((arguments text).length + 1) → s.sp ≤ t.sp ∧ t.sp ≤ s.sp + text.length) ∧
      ∀ a, a < s.sp ∨ s.sp + text.length ≤ a → t.memory a = s.memory a := by
  induction mallocs generalizing token s word text with
  | nil =>
    exact ⟨[],s,rfl,fun granted => absurd granted (granted_nil _),fun _ => ⟨Nat.le_refl _,Nat.le_add_right _ _⟩,
      fun _ _ => rfl⟩
  | cons malloc mallocs ih =>
    unfold simpos_parse_loop
    rw [if_neg null]
    cases malloc with
    | false =>
      exact ⟨[],s,rfl,fun granted => absurd granted (granted_false _ _),
        fun _ => ⟨Nat.le_refl _,Nat.le_add_right _ _⟩,fun _ _ => rfl⟩
    | true =>
      rw [if_neg (by decide),copied_argument_text first]
      have here : start 0 s = s.sp := if_neg fun both => both.1 rfl
      rw [← here] at found
      cases words : arguments text with
      | nil =>
        rw [strtok_none (here ▸ left) found words,Option.bind_some,loop_null]
        refine ⟨_,_,rfl,fun _ => ⟨rfl,rfl⟩,fun failed => absurd ?_ failed,fun _ _ => rfl⟩
        exact granted_true.mpr fun i below => absurd below (Nat.not_lt_zero i)
      | cons next words' =>
        obtain ⟨token',t',rest,result,null',first',found',more,later,shorter,kept⟩ :=
          strtok_some (here ▸ left) found words
        obtain ⟨args,t,looped,granted,failed,same⟩ := ih (s := t') null' first' (by omega) found'
        rw [more] at granted failed
        rw [result,Option.bind_some,looped]
        refine ⟨_,t,rfl,fun all => ?_,fun some_failed => ?_,fun a outside => (same a (by omega)).trans (kept a (by omega))⟩
        · obtain ⟨same,back⟩ := granted (granted_true.mp all)
          exact ⟨congrArg (word.take 511 :: ·) same,back⟩
        · have bounds := failed fun all => some_failed (granted_true.mpr all)
          omega

end

/-- A stack buffer of 1025 bytes is at scommand. -/
structure Frame (scommand : Nat) : Prop where
  some : scommand ≠ 0
  inside : scommand + 1025 ≤ 4294967296

section
variable {s : Program} {command : CString} {max : Int} {scommand : Nat} {mallocs : List Bool}

theorem copied_command (marked : 0 ∉ command) (frame : Frame scommand) (m : Bytes) :
    Text (strncpy m scommand command 1025) scommand (command.take 1024) ∧
    ∀ a, a < scommand ∨ scommand + 1025 ≤ a → strncpy m scommand command 1025 a = m a := by
  have inside := frame.inside
  have room : scommand + 0 + 1024 < 4294967296 := by omega
  obtain ⟨text,same⟩ := strncpy_loop_text (m := m) marked room
  exact ⟨text,fun a outside => same a (by omega)⟩

/-- From a cursor that is set back the arguments are the words of the command. -/
theorem parse_text (mallocs : List Bool) (marked : 0 ∉ command) (frame : Frame scommand) (short : max < 1025) (back : s.sp = 0) :
    ∃ args t, simpos_parse_command command max scommand mallocs s = some (args,t) ∧
      (Granted mallocs (arguments (command.take 1024)).length →
        args = (arguments (command.take 1024)).map (List.take 511) ∧ t.sp = 0) ∧
      (¬Granted mallocs (arguments (command.take 1024)).length → scommand < t.sp ∧ t.sp ≤ scommand + 1024) ∧
      ∀ a, a < scommand ∨ scommand + 1025 ≤ a → t.memory a = s.memory a := by
  unfold simpos_parse_command
  rw [if_neg (by omega)]
  dsimp only
  obtain ⟨found,buffer⟩ := copied_command marked frame s.memory
  obtain ⟨u,copied⟩ : ∃ u : Program, u = { s with memory := strncpy s.memory scommand command 1025 } := ⟨_,rfl⟩
  have here : start scommand u = scommand := by
    rw [copied]
    exact if_pos ⟨frame.some,back⟩
  have entry : start scommand u ≠ 0 := by
    rw [here]
    exact frame.some
  have length : (command.take 1024).length ≤ 1024 := List.length_take_le _ _
  rw [← copied]
  replace found : Text u.memory (start scommand u) (command.take 1024) := by
    rw [here,copied]
    exact found
  replace buffer : ∀ a, a < scommand ∨ scommand + 1025 ≤ a → u.memory a = s.memory a := by
    rw [copied]
    exact buffer
  generalize command.take 1024 = text at found length ⊢
  cases words : arguments text with
  | nil =>
    rw [strtok_none entry found words,Option.bind_some,loop_null]
    refine ⟨_,_,rfl,fun _ => ⟨rfl,rfl⟩,fun failed => absurd ?_ failed,buffer⟩
    exact fun i below => absurd below (Nat.not_lt_zero i)
  | cons word words' =>
    obtain ⟨token,t',rest,result,null,first,found',more,later,shorter,kept⟩ := strtok_some entry found words
    obtain ⟨args,t,looped,granted,failed,same⟩ := loop_text mallocs null first (by omega) found'
    rw [more] at granted failed
    rw [result,Option.bind_some]
    refine ⟨args,t,looped,granted,fun some_failed => ?_,fun a outside => ?_⟩
    · have bounds := failed some_failed
      omega
    · rw [same a (by omega),kept a (by omega),buffer a outside]

end

end

/-! ### Commands one after another -/

/-- What a program does: it parses a command, or does anything that leaves the cursor alone. -/
inductive Action
  | parse (command : CString) (max : Int) (scommand : Nat) (mallocs : List Bool)
  | other

inductive Step : Program → Action → Program → Prop
  | parse {s t : Program} {command : CString} {max : Int} {scommand : Nat} {mallocs : List Bool} {args : List CString}
      (marked : 0 ∉ command) (frame : Frame scommand)
      (parsed : simpos_parse_command command max scommand mallocs s = some (args, t)) :
      Step s (.parse command max scommand mallocs) t
  | other {s t : Program} (same : t.sp = s.sp) : Step s .other t

/-- The allocations that the command's arguments need succeed. -/
def AllGranted (command : CString) (mallocs : List Bool) : Prop :=
  Granted mallocs (arguments (command.take 1024)).length

/-- The next command, if its allocations succeed, gives the arguments that it would give as
    the first of a program, wherever the buffer is and whatever is in memory. -/
def SameAsFirst (s : Program) : Prop :=
  ∀ command max scommand mallocs, 0 ∉ command → Frame scommand → AllGranted command mallocs →
    ∃ args, (∃ t, simpos_parse_command command max scommand mallocs s = some (args,t)) ∧
      ∀ m first, Frame first → ∃ t, simpos_parse_command command max first mallocs ⟨m,0⟩ = some (args,t)

/-- No allocation of a command's arguments fails. -/
def NoneFails (_ : Program) : Action → Prop
  | .parse command max _ mallocs => max < 1025 → AllGranted command mallocs
  | .other => True

section
variable {s t : Program}

theorem parse_long {command : CString} {max : Int} (long : ¬max < 1025) (scommand : Nat) (mallocs : List Bool) (s : Program) :
    simpos_parse_command command max scommand mallocs s = some ([],s) := if_pos (by omega)

theorem same_of_back (back : s.sp = 0) : SameAsFirst s := by
  intro command max scommand mallocs marked frame granted
  by_cases short : max < 1025
  · obtain ⟨args,t,parsed,all,_⟩ := parse_text mallocs (s := s) marked frame short back
    refine ⟨args,⟨t,parsed⟩,fun m first place => ?_⟩
    obtain ⟨args',t',parsed',all',_⟩ := parse_text mallocs (s := ⟨m,0⟩) marked place short rfl
    exact ⟨t',parsed'.trans (by rw [(all granted).1,(all' granted).1])⟩
  · exact ⟨[],⟨s,parse_long short _ _ _⟩,fun m first place => ⟨⟨m,0⟩,parse_long short _ _ _⟩⟩

theorem back_of_step {action : Action} (back : s.sp = 0) (step : Step s action t) (granted : NoneFails s action) :
    t.sp = 0 := by
  cases step with
  | other same => exact same.trans back
  | @parse _ command max scommand mallocs args marked frame parsed =>
    by_cases short : max < 1025
    · obtain ⟨args',t',parsed',all,_⟩ := parse_text mallocs marked frame short back
      rw [parsed'] at parsed
      cases parsed
      exact (all (granted short)).2
    · rw [parse_long short] at parsed
      cases parsed
      exact back

private theorem arguments_filled (n : Nat) : arguments (List.replicate (n+1) 120) = [List.replicate (n+1) 120] := by
  induction n with
  | zero => rfl
  | succ n ih =>
    rw [List.replicate_succ,arguments_cons,if_neg (by decide)]
    rw [if_neg (show ¬(List.replicate (n+1) (120 : UInt8)).headD 32 = 32 by rw [List.replicate_succ]; exact fun same => absurd same (by decide : ¬(120 : UInt8) = 32)),ih]

/-- With the cursor left in the buffer, a command that fills the buffer up to it is lost. -/
theorem lost_of_left {scommand : Nat} (frame : Frame scommand) (above : scommand < t.sp) (below : t.sp ≤ scommand + 1024) :
    ¬SameAsFirst t := by
  intro same
  obtain ⟨n,place⟩ : ∃ n, t.sp = scommand + (n+1) := ⟨t.sp - scommand - 1,by omega⟩
  obtain ⟨command,filled⟩ : ∃ command : CString, command = List.replicate (n+1) 120 := ⟨_,rfl⟩
  have marked : 0 ∉ command := by
    rw [filled,List.mem_replicate]
    exact fun among => absurd among.2 (by decide)
  have whole : command.take 1024 = command := List.take_of_length_le (by rw [filled,List.length_replicate]; omega)
  have words : arguments (command.take 1024) = [command] := by rw [whole,filled,arguments_filled]
  have granted : AllGranted command [true] := by
    unfold AllGranted
    rw [words]
    exact granted_true.mpr fun i below => absurd below (Nat.not_lt_zero i)
  obtain ⟨args,⟨u,parsed⟩,first⟩ := same command 0 scommand [true] marked frame granted
  obtain ⟨v,parsed'⟩ := first (fun _ => 0) scommand frame
  obtain ⟨args',w,parsed'',all,_⟩ :=
    parse_text [true] (s := ⟨fun _ => 0,0⟩) marked frame (by decide : (0 : Int) < 1025) rfl
  rw [parsed'] at parsed''
  cases parsed''
  obtain ⟨nonempty,_⟩ := all granted
  have found := (copied_command marked frame t.memory).1
  rw [whole] at found
  have ends : Text (strncpy t.memory scommand command 1025) t.sp [] := by
    rw [place]
    have ending := found.ending
    rwa [filled,List.length_replicate,← filled] at ending
  have here : start scommand { t with memory := strncpy t.memory scommand command 1025 } = t.sp :=
    if_neg fun both => absurd both.2 (show t.sp ≠ 0 by omega)
  have nothing : simpos_parse_command command 0 scommand [true] t =
      some ([],{ t with memory := strncpy t.memory scommand command 1025, sp := 0 }) := by
    unfold simpos_parse_command
    rw [if_neg (by decide)]
    dsimp only
    rw [strtok_none (by rw [here]; omega) (show Text _ _ [] by rw [here]; exact ends) rfl,Option.bind_some,loop_null]
  rw [nothing] at parsed
  cases parsed
  rw [words] at nonempty
  exact absurd nonempty (List.cons_ne_nil _ _).symm

end

/-- Every command gives what it would give as the first exactly as long as no allocation of a
    command's arguments fails. -/
theorem parse_same_iff {m : Bytes} {moves : List (Action × Program)} (run : Run Step ⟨m,0⟩ moves) :
    Always SameAsFirst ⟨m,0⟩ moves ↔ Each NoneFails ⟨m,0⟩ moves := by
  refine always_iff_each (fun s => s.sp = 0) ?_ (fun s back => same_of_back back) ?_ rfl run
  · intro s action t back step granted
    exact back_of_step back step granted
  · intro s action t back step same
    cases step with
    | other _ => trivial
    | @parse _ command max scommand mallocs args marked frame parsed =>
      intro short
      by_contra failed
      obtain ⟨args',t',parsed',_,left,_⟩ := parse_text mallocs marked frame short back
      rw [parsed'] at parsed
      cases parsed
      obtain ⟨above,below⟩ := left failed
      exact lost_of_left frame above below same

private theorem frame_stack : Frame 4186112 := ⟨by decide,by decide⟩

theorem parse_same_granted : ∃ t, Run Step ⟨fun _ => 0,0⟩ [(Action.parse [97,32,98] 1024 4186112 [true,true],t)] ∧
    Always SameAsFirst ⟨fun _ => 0,0⟩ [(Action.parse [97,32,98] 1024 4186112 [true,true],t)] := by
  obtain ⟨args,t,parsed,_,_⟩ := parse_text [true,true] (s := ⟨fun _ => 0,0⟩)
    (show (0 : UInt8) ∉ [97,32,98] by decide) frame_stack (show (1024 : Int) < 1025 by decide) rfl
  have run : Run Step ⟨fun _ => 0,0⟩ [(Action.parse [97,32,98] 1024 4186112 [true,true],t)] :=
    ⟨Step.parse (by decide) frame_stack parsed,trivial⟩
  refine ⟨t,run,(parse_same_iff run).mpr ⟨fun short i below => ?_,trivial⟩⟩
  have two : (arguments (List.take 1024 [97,32,98])).length = 2 := by decide
  rw [two] at below
  interval_cases i <;> rfl

/-- When the first node of `a b` cannot be allocated, the next command is not parsed from its start. -/
theorem parse_continues : ∃ t, Step ⟨fun _ => 0,0⟩ (.parse [97,32,98] 1024 4186112 []) t ∧ ¬SameAsFirst t := by
  obtain ⟨args,t,parsed,_,left,_⟩ := parse_text [] (s := ⟨fun _ => 0,0⟩)
    (show (0 : UInt8) ∉ [97,32,98] by decide) frame_stack (show (1024 : Int) < 1025 by decide) rfl
  obtain ⟨above,below⟩ := left (by
    have two : (arguments (List.take 1024 [97,32,98])).length = 2 := by decide
    rw [two]
    exact granted_nil 1)
  exact ⟨t,.parse (by decide) frame_stack parsed,lost_of_left frame_stack above below⟩

/-! ### The words of a command -/

/-- The longest runs of characters that are not spaces, in their order. -/
def words (str : CString) : List CString := (str.splitOn 32).filter (· ≠ [])

theorem arguments_eq (str : CString) : arguments str = words str := by
  unfold words
  induction str with
  | nil => rfl
  | cons c str ih =>
    rw [arguments_cons,List.splitOn,List.splitOnP_cons_eq_if_modifyHead]
    rw [List.splitOn] at ih
    by_cases space : c = 32
    · rw [if_pos space,if_pos (by simpa using space),ih]
      rfl
    · have keep : ¬(c == 32) = true := by simpa using space
      rw [if_neg space,if_neg keep,ih]
      cases str with
      | nil => rfl
      | cons d str =>
        rw [List.splitOnP_cons_eq_if_modifyHead]
        by_cases next : d = 32
        · rw [if_pos (show (d :: str).headD 32 = 32 from next),if_pos (by simpa using next)]
          rfl
        · have more : ¬(d == 32) = true := by simpa using next
          rw [if_neg (show ¬(d :: str).headD 32 = 32 from next),if_neg more]
          cases split : str.splitOnP (· == 32) with
          | nil => exact absurd split (List.splitOnP_ne_nil _ _)
          | cons word rest => rfl

/-- With its allocations a command gives a list of its words, each cut to the length of a node, and
    leaves the cursor set back and all memory but its own buffer as it was. -/
theorem parse_words {s : Program} {command : CString} {max : Int} {scommand p : Nat} {mallocs : List Bool}
    (source : Text s.memory p command) (long : command.length ≤ 1024) (short : max < 1025) (back : s.sp = 0)
    (frame : Frame scommand) (apart : p + command.length < scommand ∨ scommand + 1025 ≤ p)
    (granted : Granted mallocs (words command).length) :
    ∃ args t, simpos_parse_command command max scommand mallocs s = some (args,t) ∧
      args = (words command).map (List.take 511) ∧ (args = [] ↔ words command = []) ∧ t.sp = 0 ∧
      Text t.memory p command ∧ ∀ a, a < scommand ∨ scommand + 1025 ≤ a → t.memory a = s.memory a := by
  obtain ⟨args,t,parsed,all,_,same⟩ := parse_text mallocs source.unmarked frame short back
  rw [List.take_of_length_le long,arguments_eq] at all
  obtain ⟨rfl,cleared⟩ := all granted
  refine ⟨_,t,parsed,rfl,List.map_eq_nil_iff,cleared,?_,same⟩
  exact source.within fun a low high => same a (by omega)

theorem parse_words_two : ∃ args t, simpos_parse_command [32,97,32,32,98] 1024 4186112 [true,true]
      ⟨strncpy (fun _ => 0) 4185088 [32,97,32,32,98] 1024,0⟩ = some (args,t) ∧
    args = [[97],[98]] ∧ t.sp = 0 := by
  have marked : (0 : UInt8) ∉ [32,97,32,32,98] := by decide
  obtain ⟨source,_⟩ := strncpy_loop_text (m := fun _ => 0) (n := 1023) (i := 0) marked
    (show 4185088 + 0 + 1023 < 4294967296 by decide)
  have granted : Granted [true,true] (words [32,97,32,32,98]).length := by
    rw [← arguments_eq]
    exact granted_true.mpr (granted_true.mpr fun i below => absurd below (Nat.not_lt_zero i))
  obtain ⟨args,t,parsed,same,_,back,_⟩ := parse_words (s := ⟨strncpy (fun _ => 0) 4185088 [32,97,32,32,98] 1024,0⟩) source
    (by decide) (show (1024 : Int) < 1025 by decide) rfl frame_stack (.inl (by decide)) granted
  refine ⟨args,t,parsed,?_,back⟩
  rw [same,← arguments_eq]
  rfl

end SimpOS.CommandParser
