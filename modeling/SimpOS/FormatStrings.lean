import SimpOS.Numerals

/-!
`printf` of the programs' `stdio.c`. Behind a percent sign it takes the next character whatever it is,
so that a percent sign at the end of the format leads it past the zero there.
-/
namespace SimpOS.FormatStrings
open SimpOS.Machine SimpOS.Strings SimpOS.Numerals

/-- An argument of a variadic call. -/
inductive Arg
  | int (i : Int)
  | string (s : CString)
deriving DecidableEq, Repr

/-- What a call hands to `print` and `putchar`, and the places of the format that it reads. -/
structure Printed where
  output : CString
  read : List Nat
deriving DecidableEq, Repr

def Printed.after (rest : Printed) (text : CString) (places : List Nat) : Printed := ⟨text ++ rest.output, places ++ rest.read⟩

/-- The loop over the format, given by the bytes from its pointer on; nothing when it is still running,
    or takes an argument that is not there or of another type. The text is the buffer of `itoa`. -/
def printf_loop (format : Nat → UInt8) : Nat → Nat → List Arg → (Int → UInt8) → Option Printed
  | 0, _, _, _ => none
  | remaining + 1, p, ap, text =>
    if format p = 0 then some ⟨[], [p]⟩
    else if format p ≠ 37 then
      (printf_loop format remaining (p + 1) ap text).map (Printed.after · [format p] [p])
    else if format (p + 1) = 100 then
      match ap with
      | .int ival :: ap =>
        let s := itoa text ival
        (printf_loop format remaining (p + 2) ap s.text).map (Printed.after · s.string [p, p + 1])
      | _ => none
    else if format (p + 1) = 115 then
      match ap with
      | .string sval :: ap => (printf_loop format remaining (p + 2) ap text).map (Printed.after · sval [p, p + 1])
      | _ => none
    else (printf_loop format remaining (p + 2) ap text).map (Printed.after · [format (p + 1)] [p, p + 1])

def printf (format : Nat → UInt8) (rounds : Nat) (ap : List Arg) (text : Int → UInt8) : Option Printed :=
  printf_loop format rounds 0 ap text

/-! ### What is meant -/

/-- The format and matching arguments stand for the text. Of a percent sign at the end nothing is said. -/
inductive Renders : CString → List Arg → CString → Prop
  | done (ap : List Arg) : Renders [] ap []
  | decimal {format : CString} {i : Int} {ap : List Arg} {numeral out : CString} (low : -2147483648 ≤ i)
      (high : i ≤ 2147483647) (written : Numeral i numeral) (rest : Renders format ap out) :
      Renders (37 :: 100 :: format) (.int i :: ap) (numeral ++ out)
  | string {format s : CString} {ap : List Arg} {out : CString} (rest : Renders format ap out) :
      Renders (37 :: 115 :: format) (.string s :: ap) (s ++ out)
  | other {format : CString} {c : UInt8} {ap : List Arg} {out : CString} (decimal : c ≠ 100) (string : c ≠ 115)
      (rest : Renders format ap out) : Renders (37 :: c :: format) ap (c :: out)
  | percent (ap : List Arg) (out : CString) : Renders [37] ap out
  | plain {format : CString} {c : UInt8} {ap : List Arg} {out : CString} (other : c ≠ 37) (rest : Renders format ap out) :
      Renders (c :: format) ap (c :: out)

/-- The format ends in a percent sign that no other one is in front of as its own. -/
def unfinished : CString → Bool
  | [] => false
  | [c] => c = 37
  | c :: d :: format => if c = 37 then unfinished format else unfinished (d :: format)

/-- The bytes at the pointer are those of the format, up to its zero. -/
structure FormatAt (bytes : Nat → UInt8) (p : Nat) (format : CString) : Prop where
  each : ∀ j (inside : j < format.length), bytes (p + j) = format[j]
  ends : bytes (p + format.length) = 0
  nonzero : 0 ∉ format

/-- The call ends, hands on the text that is meant, and reads nothing behind the zero. -/
def Prints (bytes : Nat → UInt8) (format : CString) (ap : List Arg) (text : Int → UInt8) : Prop :=
  ∃ rounds printed, printf bytes rounds ap text = some printed ∧ Renders format ap printed.output ∧
    ∀ place ∈ printed.read, place ≤ format.length

/-! ### Formats -/

section
variable {bytes : Nat → UInt8} {p : Nat} {c d : UInt8} {format : CString}

theorem FormatAt.head (here : FormatAt bytes p (c :: format)) : bytes p = c ∧ c ≠ 0 ∧ FormatAt bytes (p + 1) format := by
  refine ⟨here.each 0 (Nat.succ_pos _),fun zero => here.nonzero (zero ▸ List.mem_cons_self),?_,?_,?_⟩
  · intro j inside
    have byte := here.each (j + 1) (Nat.succ_lt_succ inside)
    rw [List.getElem_cons_succ] at byte
    rw [← byte]
    congr 1
    omega
  · have byte := here.ends
    rw [List.length_cons] at byte
    rw [← byte]
    congr 1
    omega
  · exact fun member => here.nonzero (List.mem_cons_of_mem _ member)

theorem FormatAt.nil (here : FormatAt bytes p []) : bytes p = 0 := here.ends

@[simp] theorem unfinished_specifier : unfinished (37 :: c :: format) = unfinished format := by
  rw [unfinished,if_pos rfl]

theorem unfinished_plain (other : c ≠ 37) : unfinished (c :: format) = unfinished format := by
  cases format with
  | nil => exact decide_eq_false other
  | cons d format => rw [unfinished,if_neg other]

end

/-! One round of the loop, for each kind of place that the format can have at its pointer. -/

/-- The round at the pointer puts a text out, moves the pointer and leaves the arguments and the buffer behind. -/
def Round (bytes : Nat → UInt8) (p : Nat) (ap : List Arg) (text : Int → UInt8) (width : Nat) (ap' : List Arg)
    (text' : Int → UInt8) (out : CString) : Prop :=
  ∀ remaining, printf_loop bytes (remaining + 1) p ap text =
    (printf_loop bytes remaining (p + width) ap' text').map (Printed.after · out ((List.range width).map (p + ·)))

section
variable {bytes : Nat → UInt8} {p : Nat} {c : UInt8} {ap : List Arg} {text : Int → UInt8}

theorem round_plain (byte : bytes p = c) (nonzero : c ≠ 0) (other : c ≠ 37) : Round bytes p ap text 1 ap text [c] := by
  intro remaining
  conv_lhs => unfold printf_loop
  rw [byte,if_neg nonzero,if_pos other]
  rfl

theorem round_decimal (percent : bytes p = 37) (letter : bytes (p + 1) = 100) (i : Int) :
    Round bytes p (.int i :: ap) text 2 ap (itoa text i).text (itoa text i).string := by
  intro remaining
  rw [printf_loop,percent,letter,if_neg (by decide),if_neg (by decide),if_pos rfl]
  rfl

theorem round_string (percent : bytes p = 37) (letter : bytes (p + 1) = 115) (s : CString) :
    Round bytes p (.string s :: ap) text 2 ap text s := by
  intro remaining
  rw [printf_loop,percent,letter,if_neg (by decide),if_neg (by decide),if_neg (by decide),if_pos rfl]
  rfl

theorem round_other (percent : bytes p = 37) (letter : bytes (p + 1) = c) (decimal : c ≠ 100) (string : c ≠ 115) :
    Round bytes p ap text 2 ap text [c] := by
  intro remaining
  conv_lhs => unfold printf_loop
  rw [percent,letter,if_neg (by decide),if_neg (by decide),if_neg decimal,if_neg string]
  rfl

theorem printf_loop_ends (zero : bytes p = 0) (remaining : Nat) :
    printf_loop bytes (remaining + 1) p ap text = some ⟨[],[p]⟩ := by
  unfold printf_loop
  exact if_pos zero

/-- From the pointer on the loop ends with what is meant, and has read no more than the zero. -/
def Ends (bytes : Nat → UInt8) (format : CString) (p : Nat) (ap : List Arg) (text : Int → UInt8) : Prop :=
  ∃ rounds printed, printf_loop bytes rounds p ap text = some printed ∧ Renders format ap printed.output ∧
    ∀ place ∈ printed.read, place ≤ p + format.length
/-- From the pointer on the loop reads the byte behind the zero, if it ends. -/
def Overruns (bytes : Nat → UInt8) (format : CString) (p : Nat) (ap : List Arg) (text : Int → UInt8) : Prop :=
  ∀ rounds printed, printf_loop bytes rounds p ap text = some printed → p + format.length + 1 ∈ printed.read

variable {width : Nat} {ap' : List Arg} {text' : Int → UInt8} {format format' out : CString}

theorem Round.ends (round : Round bytes p ap text width ap' text' out) (length : format.length = width + format'.length)
    (renders : ∀ rest, Renders format' ap' rest → Renders format ap (out ++ rest)) (behind : Ends bytes format' (p + width) ap' text') :
    Ends bytes format p ap text := by
  obtain ⟨rounds,printed,run,rendered,within⟩ := behind
  refine ⟨rounds + 1,printed.after out ((List.range width).map (p + ·)),?_,renders _ rendered,fun place member => ?_⟩
  · rw [round,run,Option.map_some]
  · rcases List.mem_append.mp member with front | later
    · obtain ⟨j,inside,rfl⟩ := List.mem_map.mp front
      rw [List.mem_range] at inside
      omega
    · have inside := within place later
      omega

theorem Round.overruns (round : Round bytes p ap text width ap' text' out) (length : format.length = width + format'.length)
    (behind : Overruns bytes format' (p + width) ap' text') : Overruns bytes format p ap text := by
  intro rounds printed run
  cases rounds with
  | zero => exact nomatch run
  | succ rounds =>
    rw [round,Option.map_eq_some_iff] at run
    obtain ⟨later,ran,rfl⟩ := run
    rw [show p + format.length + 1 = p + width + format'.length + 1 by omega]
    exact List.mem_append_right _ (behind rounds later ran)

/-- Every round reads the byte at its pointer. -/
theorem printf_loop_reads {rounds : Nat} {printed : Printed} (run : printf_loop bytes rounds p ap text = some printed) :
    p ∈ printed.read := by
  have front : ∀ {rest : Option Printed} {text : CString} {places : List Nat},
      rest.map (Printed.after · text (p :: places)) = some printed → p ∈ printed.read := by
    intro rest text places ran
    obtain ⟨later,_,rfl⟩ := Option.map_eq_some_iff.mp ran
    exact List.mem_cons_self
  cases rounds with
  | zero => exact nomatch run
  | succ rounds =>
    unfold printf_loop at run
    split_ifs at run
    · cases run
      exact List.mem_singleton_self p
    · exact front run
    · split at run
      · exact front run
      · exact nomatch run
    · split at run
      · exact front run
      · exact nomatch run
    · exact front run

end

/-! ### The loop -/

/-- A format that is finished is printed as it is meant, and read to its zero. -/
theorem printf_loop_prints {bytes : Nat → UInt8} {format : CString} {ap : List Arg} {out : CString}
    (matching : Renders format ap out) : ∀ {p : Nat} {text : Int → UInt8}, FormatAt bytes p format →
      unfinished format = false → Ends bytes format p ap text := by
  induction matching with
  | done ap =>
    intro p text here _
    refine ⟨1,⟨[],[p]⟩,printf_loop_ends here.nil 0,.done ap,fun place member => ?_⟩
    rw [List.mem_singleton.mp member]
    exact Nat.le_add_right _ _
  | @decimal format i ap numeral out low high written rest ih =>
    intro p text here finished
    obtain ⟨percent,_,next⟩ := here.head
    obtain ⟨letter,_,behind⟩ := next.head
    rw [unfinished_specifier] at finished
    exact (round_decimal percent letter i).ends (Nat.add_comm _ 2) (fun _ later => .decimal low high (itoa_string text low high) later)
      (ih behind finished)
  | @string format s ap out rest ih =>
    intro p text here finished
    obtain ⟨percent,_,next⟩ := here.head
    obtain ⟨letter,_,behind⟩ := next.head
    rw [unfinished_specifier] at finished
    exact (round_string percent letter s).ends (Nat.add_comm _ 2) (fun _ later => .string later) (ih behind finished)
  | @other format c ap out decimal string rest ih =>
    intro p text here finished
    obtain ⟨percent,_,next⟩ := here.head
    obtain ⟨letter,_,behind⟩ := next.head
    rw [unfinished_specifier] at finished
    exact (round_other percent letter decimal string).ends (Nat.add_comm _ 2) (fun _ later => .other decimal string later)
      (ih behind finished)
  | percent ap out =>
    intro p text _ finished
    exact absurd finished (by decide)
  | @plain format c ap out other rest ih =>
    intro p text here finished
    obtain ⟨byte,nonzero,next⟩ := here.head
    rw [unfinished_plain other] at finished
    exact (round_plain byte nonzero other).ends (Nat.add_comm _ 1) (fun _ later => .plain other later) (ih next finished)

/-- A format that is not finished is read behind its zero by every run that ends. -/
theorem printf_loop_overruns {bytes : Nat → UInt8} {format : CString} {ap : List Arg} {out : CString}
    (matching : Renders format ap out) : ∀ {p : Nat} {text : Int → UInt8}, FormatAt bytes p format →
      unfinished format = true → Overruns bytes format p ap text := by
  induction matching with
  | done ap =>
    intro p text _ endless
    exact absurd endless Bool.false_ne_true
  | @decimal format i ap numeral out low high written rest ih =>
    intro p text here endless
    obtain ⟨percent,_,next⟩ := here.head
    obtain ⟨letter,_,behind⟩ := next.head
    rw [unfinished_specifier] at endless
    exact (round_decimal percent letter i).overruns (Nat.add_comm _ 2) (ih behind endless)
  | @string format s ap out rest ih =>
    intro p text here endless
    obtain ⟨percent,_,next⟩ := here.head
    obtain ⟨letter,_,behind⟩ := next.head
    rw [unfinished_specifier] at endless
    exact (round_string percent letter s).overruns (Nat.add_comm _ 2) (ih behind endless)
  | @other format c ap out decimal string rest ih =>
    intro p text here endless
    obtain ⟨percent,_,next⟩ := here.head
    obtain ⟨letter,_,behind⟩ := next.head
    rw [unfinished_specifier] at endless
    exact (round_other percent letter decimal string).overruns (Nat.add_comm _ 2) (ih behind endless)
  | percent ap out =>
    intro p text here _ rounds printed run
    -- the zero is taken for the specifier, and the loop goes on behind it
    obtain ⟨percent,_,next⟩ := here.head
    cases rounds with
    | zero => exact nomatch run
    | succ rounds =>
      rw [round_other percent next.nil (by decide) (by decide),Option.map_eq_some_iff] at run
      obtain ⟨later,ran,rfl⟩ := run
      exact List.mem_append_right _ (printf_loop_reads ran)
  | @plain format c ap out other rest ih =>
    intro p text here endless
    obtain ⟨byte,nonzero,next⟩ := here.head
    rw [unfinished_plain other] at endless
    exact (round_plain byte nonzero other).overruns (Nat.add_comm _ 1) (ih next endless)

/-- `printf` renders a format and stops at its zero, if the format does not end in a percent sign that
    starts a specifier. -/
theorem printf_right_iff {bytes : Nat → UInt8} {format : CString} {ap : List Arg} (text : Int → UInt8) (here : FormatAt bytes 0 format)
    (matching : ∃ out, Renders format ap out) : Prints bytes format ap text ↔ unfinished format = false := by
  obtain ⟨out,renders⟩ := matching
  constructor
  · rintro ⟨rounds,printed,run,_,within⟩
    by_contra endless
    rw [Bool.not_eq_false] at endless
    have beyond := within _ (printf_loop_overruns renders here endless rounds printed run)
    omega
  · intro finished
    obtain ⟨rounds,printed,run,rendered,within⟩ := printf_loop_prints renders here finished
    refine ⟨rounds,printed,run,rendered,fun place member => ?_⟩
    rw [← Nat.zero_add format.length]
    exact within place member

/-- `%d=%s%%` with 5 and `five`. -/
theorem printf_right_five : Prints (fun p => [37,100,61,37,115,37,37].getD p 0) [37,100,61,37,115,37,37]
    [.int 5,.string [102,105,118,101]] (fun _ => 0) := by
  refine (printf_right_iff _ ⟨by decide,rfl,by decide⟩ ⟨[53,61,102,105,118,101,37],?_⟩).mpr (by decide)
  refine @Renders.decimal _ _ _ [53] _ (by decide) (by decide) ⟨[53],?_,rfl⟩ ?_
  · exact ⟨List.cons_ne_nil _ _,List.forall_mem_singleton.mpr (by decide),by decide,by decide⟩
  · exact .plain (by decide) (.string (.other (by decide) (by decide) (.done [])))

/-- A percent sign alone: the zero is put out, and the byte behind it is read. -/
theorem printf_percent : FormatAt (fun p => [37].getD p 0) 0 [37] ∧ (∃ out, Renders [37] [] out) ∧
    ¬Prints (fun p => [37].getD p 0) [37] [] (fun _ => 0) := by
  refine ⟨⟨by decide,rfl,by decide⟩,⟨[37],.percent _ _⟩,?_⟩
  rintro ⟨rounds,printed,run,_,within⟩
  match rounds with
  | 0 => exact nomatch run
  | 1 => exact nomatch run
  | rounds + 2 =>
    cases run
    exact absurd (within 2 (by decide)) (by decide)

end SimpOS.FormatStrings
