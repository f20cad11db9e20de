import Mathlib.Tactic.Common

/-!
The functions of `string/string.c` on NUL-terminated byte strings, given by their bytes
before the NUL.
-/
namespace SimpOS.Strings

abbrev CString := List UInt8

def tolower (s1 : UInt8) : UInt8 := if 65 ≤ s1 ∧ s1 ≤ 90 then s1 + 32 else s1

def isdigit (c : UInt8) : Bool := 48 ≤ c ∧ c ≤ 57
def tonumericdigit (c : UInt8) : Int := (c.toNat : Int) - 48

def strnlen : CString → Nat → Int
  | _, 0 => 0
  | [], _ => 0
  | _ :: ptr, max_length + 1 => 1 + strnlen ptr max_length

def strncmp : CString → CString → Nat → Int
  | _, _, 0 => 0
  | str1, str2, n + 1 =>
    let u1 := str1.headD 0
    let u2 := str2.headD 0
    if u1 ≠ u2 then (u1.toNat : Int) - u2.toNat
    else if u1 = 0 then 0
    else strncmp str1.tail str2.tail n

def istrncmp : CString → CString → Nat → Int
  | _, _, 0 => 0
  | s1, s2, n + 1 =>
    let u1 := s1.headD 0
    let u2 := s2.headD 0
    if u1 ≠ u2 ∧ tolower u1 ≠ tolower u2 then (u1.toNat : Int) - u2.toNat
    else if u1 = 0 then 0
    else istrncmp s1.tail s2.tail n

end SimpOS.Strings
