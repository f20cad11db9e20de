import Mathlib.Data.Nat.Digits.Lemmas
import Mathlib.Logic.Function.Basic
import SimpOS.Machine
import SimpOS.Strings

/-!
Decimal numerals, and how `itoa` of the programs' `stdlib.c` writes them. It takes the digits from
the number made negative, which an int has room for whatever the number is, and puts them into a
buffer of its own from the end on.
-/
namespace SimpOS.Numerals
open SimpOS.Machine SimpOS.Strings

/-! ### Numerals -/

/-- The number that a string of digits stands for. -/
def valueOf (digits : CString) : Nat := Nat.ofDigits 10 (digits.reverse.map fun c => c.toNat - 48)

/-- The digits of a number, the first of them no zero unless it is the only one. -/
structure Digits (n : Nat) (digits : CString) : Prop where
  nonempty : digits ≠ []
  each : ∀ c ∈ digits, 48 ≤ c.toNat ∧ c.toNat ≤ 57
  leading : digits.head? = some 48 → digits = [48]
  value : valueOf digits = n

/-- The digits of a number behind its sign, which only negative numbers have. -/
def Numeral (i : Int) (text : CString) : Prop :=
  ∃ digits, Digits i.natAbs digits ∧ text = if i < 0 then 45 :: digits else digits

/-- The character of a digit. -/
def digit (d : Nat) : UInt8 := UInt8.ofNat (48 + d)

theorem digit_toNat {d : Nat} (small : d < 10) : (digit d).toNat = 48 + d := by
  rw [digit,UInt8.toNat_ofNat']
  omega

/-- The numeral that Mathlib's digits make. -/
def numeral (n : Nat) : CString := if n = 0 then [48] else ((Nat.digits 10 n).map digit).reverse

theorem numeral_digits (n : Nat) : Digits n (numeral n) := by
  unfold numeral
  by_cases zero : n = 0
  · rw [if_pos zero,zero]
    exact ⟨List.cons_ne_nil _ _,List.forall_mem_singleton.mpr (by decide),fun _ => rfl,by decide⟩
  rw [if_neg zero]
  have small : ∀ d ∈ Nat.digits 10 n, d < 10 := fun d member => Nat.digits_lt_base (by decide) member
  have some : Nat.digits 10 n ≠ [] := Nat.digits_ne_nil_iff_ne_zero.mpr zero
  refine ⟨?_,fun c member => ?_,fun head => ?_,?_⟩
  · rw [Ne,List.reverse_eq_nil_iff,List.map_eq_nil_iff]
    exact some
  · rw [List.mem_reverse,List.mem_map] at member
    obtain ⟨d,inside,rfl⟩ := member
    have below := small d inside
    rw [digit_toNat below]
    omega
  · rw [List.head?_reverse,List.getLast?_map,List.getLast?_eq_some_getLast some,Option.map_some,Option.some.injEq] at head
    have last := Nat.getLast_digit_ne_zero 10 zero
    have value := congrArg UInt8.toNat head
    rw [digit_toNat (small _ (List.getLast_mem some))] at value
    exact absurd (show (Nat.digits 10 n).getLast some = 0 by change 48 + _ = 48 at value; omega) last
  · have back : ((Nat.digits 10 n).map digit).map (fun c => c.toNat - 48) = Nat.digits 10 n := by
      rw [List.map_map]
      refine (List.map_congr_left fun d member => ?_).trans (List.map_id _)
      rw [Function.comp_apply,digit_toNat (small d member),Nat.add_sub_cancel_left]
      rfl
    rw [valueOf,List.reverse_reverse,back]
    exact Nat.ofDigits_digits 10 n

/-- A number has no other numeral. -/
theorem Digits.numeral {n : Nat} {digits : CString} (written : Digits n digits) : digits = numeral n := by
  by_cases single : digits = [48]
  · subst single
    rw [← written.value]
    decide
  have back : Nat.digits 10 n = digits.reverse.map fun c => c.toNat - 48 := by
    rw [← written.value,valueOf]
    refine Nat.digits_ofDigits 10 (by decide) _ (fun d member => ?_) fun mapped => ?_
    · obtain ⟨c,inside,rfl⟩ := List.mem_map.mp member
      have range := written.each c (List.mem_reverse.mp inside)
      omega
    · rw [List.getLast_map,List.getLast_reverse]
      intro zero
      have range := written.each _ (List.head_mem written.nonempty)
      refine single (written.leading ?_)
      rw [List.head?_eq_some_head written.nonempty,Option.some.injEq,← UInt8.toNat_inj]
      change _ = 48
      omega
  have positive : n ≠ 0 := by
    rintro rfl
    rw [Nat.digits_zero,eq_comm,List.map_eq_nil_iff,List.reverse_eq_nil_iff] at back
    exact written.nonempty back
  have same : (digits.reverse.map fun c => c.toNat - 48).map digit = digits.reverse := by
    rw [List.map_map]
    refine (List.map_congr_left fun c member => ?_).trans (List.map_id _)
    have range := written.each c (List.mem_reverse.mp member)
    rw [Function.comp_apply,← UInt8.toNat_inj,digit_toNat (by omega)]
    change 48 + (c.toNat - 48) = c.toNat
    omega
  rw [Numerals.numeral,if_neg positive,back,same,List.reverse_reverse]

/-! ### The conversion -/

/-- The value a `char` holds after storing x. -/
def char (x : Int) : UInt8 := UInt8.ofNat (x % 256).toNat

/-- The conversion under way: the buffer, the place in it, the indices it has been written at, and the
    values of the expressions so far. -/
structure Conversion where
  text : Int → UInt8
  loc : Int
  written : List Int
  computed : List Int

def Conversion.compute (s : Conversion) (values : List Int) : Conversion := { s with computed := s.computed ++ values }
/-- `text[--loc] = c` -/
def Conversion.store (s : Conversion) (c : Int) : Conversion :=
  { text := Function.update s.text (s.loc - 1) (char c)
    loc := s.loc - 1
    written := s.written ++ [s.loc - 1]
    computed := s.computed ++ [s.loc - 1] }

def itoa_loop (i : Int) (s : Conversion) : Conversion :=
  if i = 0 then s
  else itoa_loop (Int.tdiv i 10) (((s.compute [Int.tmod i 10, 48 - Int.tmod i 10]).store (48 - Int.tmod i 10)).compute [Int.tdiv i 10])
termination_by i.natAbs
decreasing_by
  rw [Int.natAbs_tdiv]
  exact Nat.div_lt_self (Int.natAbs_pos.mpr (by assumption)) (by decide)

/-- From what the buffer held before. -/
def itoa (before : Int → UInt8) (i : Int) : Conversion :=
  let s : Conversion := ⟨Function.update before 11 0, 11, [11], []⟩
  let (neg, i, s) := if i ≥ 0 then (false, -i, s.compute [-i]) else (true, i, s)
  let s := itoa_loop i s
  let s := if s.loc = 11 then s.store 48 else s
  if neg then s.store 45 else s

/-- The string that the result points to, in the rest of the buffer. -/
def Conversion.string (s : Conversion) : CString :=
  ((List.range (12 - s.loc).toNat).map fun j : Nat => s.text (s.loc + j)).takeWhile (· ≠ 0)

/-- The loop has put the digits of n in front of where it started, and nothing else anywhere. -/
structure Converted (n : Nat) (s r : Conversion) : Prop where
  loc : r.loc = s.loc - (Nat.digits 10 n).length
  digits : (List.range (Nat.digits 10 n).length).map (fun j => r.text (r.loc + (j : Nat))) =
    ((Nat.digits 10 n).map digit).reverse
  others : ∀ p, ¬(r.loc ≤ p ∧ p < s.loc) → r.text p = s.text p
  written : ∀ w ∈ r.written, w ∈ s.written ∨ r.loc ≤ w ∧ w < s.loc
  computed : ∀ x ∈ r.computed, x ∈ s.computed ∨ -2147483648 ≤ x ∧ x ≤ 2147483647

private theorem char_digit {d : Nat} (small : d < 10) : char (48 - -(d : Int)) = digit d := by
  rw [char,digit]
  congr 1
  omega

theorem itoa_loop_converts (n : Nat) (int : n ≤ 2147483648) : ∀ {s : Conversion},
    ((Nat.digits 10 n).length : Int) ≤ s.loc → s.loc ≤ 12 → Converted n s (itoa_loop (-(n : Int)) s) := by
  induction n using Nat.strongRecOn with
  | ind n ih =>
    intro s room near
    rw [itoa_loop]
    by_cases done : n = 0
    · subst done
      rw [if_pos (by decide)]
      refine ⟨?_,rfl,fun p _ => rfl,fun w member => .inl member,fun x member => .inl member⟩
      rw [Nat.digits_zero]
      exact (Int.sub_zero _).symm
    · have small : n % 10 < 10 := Nat.mod_lt _ (by decide)
      have quotient : Int.tdiv (-(n : Int)) 10 = -((n / 10 : Nat) : Int) := by
        rw [Int.neg_tdiv]
        exact congrArg Neg.neg (Int.ofNat_tdiv n 10).symm
      have remainder : Int.tmod (-(n : Int)) 10 = -((n % 10 : Nat) : Int) := by
        rw [Int.neg_tmod]
        exact congrArg Neg.neg (Int.ofNat_tmod n 10).symm
      have digits : Nat.digits 10 n = n % 10 :: Nat.digits 10 (n / 10) := Nat.digits_def' (by decide) (Nat.pos_of_ne_zero done)
      rw [if_neg (by omega),quotient,remainder]
      rw [digits,List.length_cons] at room
      push_cast at room
      generalize stored : (((s.compute [-((n % 10 : Nat) : Int),48 - -((n % 10 : Nat) : Int)]).store
        (48 - -((n % 10 : Nat) : Int))).compute [-((n / 10 : Nat) : Int)]) = s'
      have loc' : s'.loc = s.loc - 1 := by rw [← stored]; rfl
      have text' : s'.text = Function.update s.text (s.loc - 1) (digit (n % 10)) := by
        rw [← stored,← char_digit small]
        rfl
      have written' : s'.written = s.written ++ [s.loc - 1] := by rw [← stored]; rfl
      have computed' : s'.computed = s.computed ++ [-((n % 10 : Nat) : Int),48 - -((n % 10 : Nat) : Int)] ++ [s.loc - 1] ++
          [-((n / 10 : Nat) : Int)] := by rw [← stored]; rfl
      have rest := ih (n / 10) (by omega) (by omega) (s := s') (by omega) (by omega)
      generalize itoa_loop (-((n / 10 : Nat) : Int)) s' = r at rest ⊢
      have place := rest.loc
      refine ⟨?_,?_,fun p outside => ?_,fun w member => ?_,fun x member => ?_⟩
      · rw [digits,List.length_cons]
        push_cast
        omega
      · have last : r.text (r.loc + ((Nat.digits 10 (n / 10)).length : Nat)) = digit (n % 10) := by
          rw [rest.others _ (by omega),text',show r.loc + ((Nat.digits 10 (n / 10)).length : Nat) = s.loc - 1 by omega,
            Function.update_self]
        rw [digits,List.length_cons,List.range_succ,List.map_append,rest.digits,List.map_singleton,last,List.map_cons,
          List.reverse_cons]
      · rw [rest.others p (by omega),text',Function.update_of_ne (by omega)]
      · rcases rest.written w member with earlier | inside
        · rw [written',List.mem_append,List.mem_singleton] at earlier
          rcases earlier with before | rfl
          · exact .inl before
          · exact .inr (by omega)
        · exact .inr (by omega)
      · rcases rest.computed x member with earlier | inside
        · rw [computed'] at earlier
          simp only [List.mem_append,List.mem_cons,List.not_mem_nil,or_false] at earlier
          rcases earlier with ((before | rfl | rfl) | rfl) | rfl
          · exact .inl before
          · exact .inr (by omega)
          · exact .inr (by omega)
          · exact .inr (by omega)
          · exact .inr (by omega)
        · exact .inr inside

/-- The buffer holds the string from the place on, up to a zero in its last byte. -/
structure Holds (text : CString) (s : Conversion) : Prop where
  loc : s.loc = 11 - text.length
  bytes : (List.range text.length).map (fun j => s.text (s.loc + (j : Nat))) = text
  ends : s.text 11 = 0
  written : ∀ w ∈ s.written, s.loc ≤ w ∧ w ≤ 11
  computed : ∀ x ∈ s.computed, -2147483648 ≤ x ∧ x ≤ 2147483647

theorem Holds.store {text : CString} {s : Conversion} (holds : Holds text s) (room : text.length ≤ 11) (c : Int) :
    Holds (char c :: text) (s.store c) := by
  have loc := holds.loc
  refine ⟨?_,?_,?_,fun w member => ?_,fun x member => ?_⟩
  · show s.loc - 1 = 11 - ((text.length + 1 : Nat) : Int)
    omega
  · have rest : ∀ j : Nat, Function.update s.text (s.loc - 1) (char c) (s.loc - 1 + (j + 1 : Nat)) = s.text (s.loc + j) := by
      intro j
      rw [Function.update_of_ne (by omega)]
      congr 1
      omega
    rw [List.length_cons,List.range_succ_eq_map,List.map_cons,List.map_map]
    refine List.cons_eq_cons.mpr ⟨?_,?_⟩
    · show Function.update s.text (s.loc - 1) (char c) (s.loc - 1 + (0 : Nat)) = char c
      rw [Int.natCast_zero,Int.add_zero,Function.update_self]
    · rw [← holds.bytes,List.length_map,List.length_range]
      exact List.map_congr_left fun j _ => rest j
  · show Function.update s.text (s.loc - 1) (char c) 11 = 0
    rw [Function.update_of_ne (by omega)]
    exact holds.ends
  · show s.loc - 1 ≤ w ∧ w ≤ 11
    rcases List.mem_append.mp member with earlier | last
    · have inside := holds.written w earlier
      omega
    · rw [List.mem_singleton.mp last]
      omega
  · rcases List.mem_append.mp member with earlier | last
    · exact holds.computed x earlier
    · rw [List.mem_singleton.mp last]
      omega

theorem Holds.string {text : CString} {s : Conversion} (holds : Holds text s) (room : text.length ≤ 11)
    (nonzero : 0 ∉ text) : s.string = text := by
  have loc := holds.loc
  have count : (12 - s.loc).toNat = text.length + 1 := by omega
  have last : s.text (s.loc + (text.length : Nat)) = 0 := by
    rw [show s.loc + (text.length : Nat) = 11 by omega]
    exact holds.ends
  rw [Conversion.string,count,List.range_succ,List.map_append,holds.bytes,List.map_singleton,last]
  rw [List.takeWhile_append_of_pos fun c member => by
    simpa using fun zero : c = 0 => nonzero (zero ▸ member)]
  exact List.append_nil _

theorem numeral_length {n : Nat} (int : n ≤ 2147483648) : (numeral n).length ≤ 10 := by
  unfold numeral
  split_ifs
  · decide
  · rw [List.length_reverse,List.length_map]
    exact (Nat.digits_length_le_iff (by decide) n).mpr (by omega)

/-- The digits of the number made negative, whatever its sign. -/
theorem itoa_digits (before : Int → UInt8) {n : Nat} (int : n ≤ 2147483648) (computed : List Int)
    (inside : ∀ x ∈ computed, -2147483648 ≤ x ∧ x ≤ 2147483647) {r : Conversion}
    (converted : r = itoa_loop (-(n : Int)) ⟨Function.update before 11 0,11,[11],computed⟩) :
    Holds (numeral n) (if r.loc = 11 then r.store 48 else r) := by
  have length : (Nat.digits 10 n).length ≤ 10 := (Nat.digits_length_le_iff (by decide) n).mpr (by omega)
  have loop := @itoa_loop_converts n int ⟨Function.update before 11 0,11,[11],computed⟩ (by dsimp only; omega) (by dsimp only; omega)
  rw [← converted] at loop
  obtain ⟨loc,digits,others,written,values⟩ := loop
  dsimp only at loc others written values
  have ends : r.text 11 = 0 := by
    rw [others 11 (by omega),Function.update_self]
  have kept : ∀ w ∈ r.written, r.loc ≤ w ∧ w ≤ 11 := by
    intro w member
    rcases written w member with first | within
    · rw [List.mem_singleton.mp first]
      omega
    · omega
  have range : ∀ x ∈ r.computed, -2147483648 ≤ x ∧ x ≤ 2147483647 := by
    intro x member
    rcases values x member with earlier | within
    · exact inside x earlier
    · exact within
  unfold numeral
  by_cases zero : n = 0
  · subst zero
    rw [Nat.digits_zero] at loc
    have start : r.loc = 11 := loc
    have empty : Holds [] r := ⟨start,rfl,ends,kept,range⟩
    rw [if_pos start,if_pos rfl]
    exact empty.store (by decide) 48
  · have some : 0 < (Nat.digits 10 n).length := List.length_pos_iff.mpr (Nat.digits_ne_nil_iff_ne_zero.mpr zero)
    rw [if_neg zero,if_neg (show ¬r.loc = 11 by omega)]
    refine ⟨?_,?_,ends,kept,range⟩
    · rw [List.length_reverse,List.length_map]
      exact loc
    · rw [List.length_reverse,List.length_map]
      exact digits

/-- What `itoa` leaves in its buffer for an int. -/
theorem itoa_holds (before : Int → UInt8) {i : Int} (low : -2147483648 ≤ i) (high : i ≤ 2147483647) :
    Holds (if i < 0 then 45 :: numeral i.natAbs else numeral i.natAbs) (itoa before i) := by
  unfold itoa
  dsimp only
  by_cases negative : i < 0
  · have made : i = -(i.natAbs : Int) := by omega
    rw [if_neg (show ¬i ≥ 0 by omega),if_pos negative]
    dsimp only
    rw [if_pos rfl]
    have digits := itoa_digits before (show i.natAbs ≤ 2147483648 by omega) [] (fun x none => absurd none List.not_mem_nil) rfl
    rw [← made] at digits
    exact digits.store (Nat.le_succ_of_le (numeral_length (by omega))) 45
  · have made : -i = -(i.natAbs : Int) := by omega
    rw [if_pos (show i ≥ 0 by omega),if_neg negative]
    dsimp only
    rw [if_neg Bool.false_ne_true]
    have digits := itoa_digits before (show i.natAbs ≤ 2147483648 by omega) [-i] (fun x member => by
      rw [List.mem_singleton.mp member]
      omega) rfl
    rw [← made] at digits
    exact digits

theorem numeral_nonzero (n : Nat) : (0 : UInt8) ∉ numeral n := by
  intro member
  have range := (numeral_digits n).each 0 member
  exact absurd range.1 (by decide)

theorem itoa_string (before : Int → UInt8) {i : Int} (low : -2147483648 ≤ i) (high : i ≤ 2147483647) :
    Numeral i (itoa before i).string := by
  have length := numeral_length (show i.natAbs ≤ 2147483648 by omega)
  have room : (if i < 0 then 45 :: numeral i.natAbs else numeral i.natAbs).length ≤ 11 := by
    split_ifs
    · exact Nat.succ_le_succ length
    · omega
  have nonzero : 0 ∉ (if i < 0 then 45 :: numeral i.natAbs else numeral i.natAbs) := by
    have digits := numeral_nonzero i.natAbs
    split_ifs
    · rintro (_ | ⟨_,member⟩)
      exact digits member
    · exact digits
  exact ⟨numeral i.natAbs,numeral_digits _,(itoa_holds before low high).string room nonzero⟩

/-- The string for an int is its numeral; no value on the way leaves the ints, nor an index the buffer. -/
theorem itoa_numeral (before : Int → UInt8) {i : Int} (low : -2147483648 ≤ i) (high : i ≤ 2147483647) :
    Numeral i (itoa before i).string ∧ (∀ x ∈ (itoa before i).computed, -2147483648 ≤ x ∧ x ≤ 2147483647) ∧
      ∀ w ∈ (itoa before i).written, 0 ≤ w ∧ w < 12 := by
  have holds := itoa_holds before low high
  have length := numeral_length (show i.natAbs ≤ 2147483648 by omega)
  refine ⟨itoa_string before low high,holds.computed,fun w member => ?_⟩
  have inside := holds.written w member
  have loc := holds.loc
  split_ifs at loc
  · rw [List.length_cons] at loc
    omega
  · omega

/-- The least int fills the buffer. -/
theorem itoa_least : Numeral (-2147483648) (itoa (fun _ => 0) (-2147483648)).string ∧
    (∀ x ∈ (itoa (fun _ => 0) (-2147483648)).computed, -2147483648 ≤ x ∧ x ≤ 2147483647) ∧
    ∀ w ∈ (itoa (fun _ => 0) (-2147483648)).written, 0 ≤ w ∧ w < 12 :=
  itoa_numeral _ (by decide) (by decide)

end SimpOS.Numerals
