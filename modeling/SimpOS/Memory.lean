import SimpOS.Machine
import Mathlib.Algebra.Ring.Nat
import Mathlib.Logic.Function.Basic

/-!
The physical memory of the 32-bit target as bytes by address, and the accesses the
kernel makes through pointers: little-endian words, and the fills and comparisons of
`memory/memory.c`. An access that passes the last address goes on at address 0.
-/
namespace SimpOS.Memory
open SimpOS.Machine

abbrev Bytes := Nat → UInt8

/-- The address n bytes after a. -/
def offset (a n : Nat) : Nat := u32 ((a : Int) + n)

def read16 (m : Bytes) (a : Nat) : Nat := (m a).toNat + 256 * (m (offset a 1)).toNat
def read32 (m : Bytes) (a : Nat) : Nat :=
  (m a).toNat + 256 * (m (offset a 1)).toNat + 65536 * (m (offset a 2)).toNat + 16777216 * (m (offset a 3)).toNat
def write32 (m : Bytes) (a v : Nat) : Bytes :=
  let m := Function.update m a (UInt8.ofNat v)
  let m := Function.update m (offset a 1) (UInt8.ofNat (v / 256))
  let m := Function.update m (offset a 2) (UInt8.ofNat (v / 65536))
  Function.update m (offset a 3) (UInt8.ofNat (v / 16777216))

def memset_loop (ptr : Nat) (c : UInt8) : Nat → Nat → Bytes → Bytes
  | 0, _, m => m
  | remaining + 1, i, m => memset_loop ptr c remaining (i + 1) (Function.update m (offset ptr i) c)
def memset (m : Bytes) (ptr : Nat) (c : UInt8) (size : Nat) : Bytes := memset_loop ptr c size 0 m

/-- `memcmp` over the bytes from the two pointers on; none when it reads past their end. -/
def memcmp : List UInt8 → List UInt8 → Nat → Option Int
  | _, _, 0 => some 0
  | c1 :: s1, c2 :: s2, count + 1 =>
    if c1 ≠ c2 then some ((c1.toNat : Int) - c1.toNat) else memcmp s1 s2 count
  | _, _, _ + 1 => none

theorem offset_lt (a n : Nat) : offset a n < 4294967296 := u32_lt _
theorem offset_of_lt {a n : Nat} (high : a + n < 4294967296) : offset a n = a + n := by
  unfold offset u32
  omega

theorem read32_lt (m : Bytes) (a : Nat) : read32 m a < 4294967296 := by
  have b0 := (m a).toNat_lt
  have b1 := (m (offset a 1)).toNat_lt
  have b2 := (m (offset a 2)).toNat_lt
  have b3 := (m (offset a 3)).toNat_lt
  unfold read32
  omega
theorem read16_lt (m : Bytes) (a : Nat) : read16 m a < 65536 := by
  have b0 := (m a).toNat_lt
  have b1 := (m (offset a 1)).toNat_lt
  unfold read16
  omega

/-- A word depends on its four bytes only. -/
theorem read32_congr {m m' : Bytes} {a : Nat} (high : a + 4 ≤ 4294967296)
    (same : ∀ x, a ≤ x → x < a + 4 → m' x = m x) : read32 m' a = read32 m a := by
  unfold read32
  rw [offset_of_lt (by omega : a + 1 < 4294967296),offset_of_lt (by omega : a + 2 < 4294967296),
    offset_of_lt (by omega : a + 3 < 4294967296)]
  rw [same a (by omega) (by omega),same (a + 1) (by omega) (by omega),same (a + 2) (by omega) (by omega),
    same (a + 3) (by omega) (by omega)]

theorem write32_apply {a : Nat} (high : a + 4 ≤ 4294967296) (m : Bytes) (v x : Nat) :
    write32 m a v x = if a ≤ x ∧ x < a + 4 then UInt8.ofNat (v / 256 ^ (x - a)) else m x := by
  unfold write32
  rw [offset_of_lt (by omega : a + 1 < 4294967296),offset_of_lt (by omega : a + 2 < 4294967296),
    offset_of_lt (by omega : a + 3 < 4294967296)]
  by_cases inside : a ≤ x ∧ x < a + 4
  · rw [if_pos inside]
    obtain rfl | rfl | rfl | rfl : x = a ∨ x = a + 1 ∨ x = a + 2 ∨ x = a + 3 := by omega
    · simp
    · simp
    · simp
    · simp
  · rw [if_neg inside]
    simp only [Function.update_apply,show x ≠ a + 3 by omega,show x ≠ a + 2 by omega,
      show x ≠ a + 1 by omega,show x ≠ a by omega,if_false]

theorem read32_write32_same {a v : Nat} (high : a + 4 ≤ 4294967296) (value : v < 4294967296) (m : Bytes) :
    read32 (write32 m a v) a = v := by
  unfold read32
  rw [offset_of_lt (by omega : a + 1 < 4294967296),offset_of_lt (by omega : a + 2 < 4294967296),
    offset_of_lt (by omega : a + 3 < 4294967296)]
  simp only [write32_apply high,show a ≤ a ∧ a < a + 4 by omega,show a ≤ a + 1 ∧ a + 1 < a + 4 by omega,
    show a ≤ a + 2 ∧ a + 2 < a + 4 by omega,show a ≤ a + 3 ∧ a + 3 < a + 4 by omega,and_self,if_true,
    UInt8.toNat_ofNat',Nat.sub_self,Nat.add_sub_cancel_left]
  omega
theorem read32_write32_apart {a b v : Nat} (highA : a + 4 ≤ 4294967296) (highB : b + 4 ≤ 4294967296)
    (apart : b + 4 ≤ a ∨ a + 4 ≤ b) (m : Bytes) : read32 (write32 m a v) b = read32 m b := by
  apply read32_congr highB
  intro x low high
  rw [write32_apply highA,if_neg (by omega)]

/-- The memory whose aligned words are the given ones. -/
def wordMemory (word : Nat → Nat) : Bytes := fun x => UInt8.ofNat (word (x - x % 4) / 256 ^ (x % 4))
theorem read32_wordMemory {word : Nat → Nat} {a : Nat} (aligned : a % 4 = 0) (high : a + 4 ≤ 4294967296)
    (value : word a < 4294967296) : read32 (wordMemory word) a = word a := by
  unfold read32 wordMemory
  rw [offset_of_lt (by omega : a + 1 < 4294967296),offset_of_lt (by omega : a + 2 < 4294967296),
    offset_of_lt (by omega : a + 3 < 4294967296)]
  have byte : ∀ k < 4, (a + k) % 4 = k ∧ a + k - k = a := by
    intro k small
    omega
  simp only [aligned,(byte 1 (by decide)).1,(byte 2 (by decide)).1,(byte 3 (by decide)).1,Nat.sub_zero,
    Nat.add_sub_cancel,UInt8.toNat_ofNat',Nat.reducePow]
  omega

theorem read16_wordMemory {word : Nat → Nat} {a : Nat} (aligned : a % 4 = 0) (high : a + 4 ≤ 4294967296) :
    read16 (wordMemory word) a = word a % 65536 := by
  unfold read16 wordMemory
  rw [offset_of_lt (by omega : a + 1 < 4294967296)]
  have byte : (a + 1) % 4 = 1 ∧ a + 1 - 1 = a := by omega
  simp only [aligned,byte.1,Nat.sub_zero,Nat.add_sub_cancel,UInt8.toNat_ofNat',Nat.reducePow]
  omega

private theorem memset_loop_correct (ptr : Nat) (c : UInt8) (remaining : Nat) :
    ∀ (i : Nat) (m : Bytes) (x : Nat), ptr + i + remaining ≤ 4294967296 → memset_loop ptr c remaining i m x =
      if ptr + i ≤ x ∧ x < ptr + i + remaining then c else m x := by
  induction remaining with
  | zero =>
    intro i m x high
    rw [memset_loop,if_neg (by omega)]
  | succ remaining ih =>
    intro i m x high
    rw [memset_loop,ih (i + 1) _ x (by omega),offset_of_lt (by omega)]
    by_cases here : x = ptr + i
    · rw [here,Function.update_self,ite_self,if_pos (by omega)]
    · have same : (ptr + (i + 1) ≤ x ∧ x < ptr + (i + 1) + remaining) ↔
          (ptr + i ≤ x ∧ x < ptr + i + (remaining + 1)) := by omega
      simp only [same,Function.update_of_ne here]

/-- Filling a range that does not pass the last address changes its bytes only. -/
theorem memset_apply {ptr size : Nat} (high : ptr + size ≤ 4294967296) (m : Bytes) (c : UInt8) (x : Nat) :
    memset m ptr c size x = if ptr ≤ x ∧ x < ptr + size then c else m x :=
  memset_loop_correct ptr c size 0 m x (by omega)

/-- The step from m to m' stores f 0, .., f (n-1) at the n addresses from out on and nothing else. -/
structure Stored (m m' : Bytes) (out n : Nat) (f : Nat → UInt8) : Prop where
  byte : ∀ k < n, m' (offset out k) = f k
  frame : ∀ x, (∀ k < n, x ≠ offset out k) → m' x = m x
/-- The step from m to m' changes no byte but to f k at the k-th address from out on, k < n. -/
def Delivered (m m' : Bytes) (out n : Nat) (f : Nat → UInt8) : Prop :=
  ∀ x, m' x = m x ∨ ∃ k < n, x = offset out k ∧ m' x = f k

theorem offset_offset (a i j : Nat) : offset (offset a i) j = offset a (i + j) := by
  unfold offset u32
  omega
theorem offset_inj {a i j : Nat} (boundI : i < 4294967296) (boundJ : j < 4294967296)
    (same : offset a i = offset a j) : i = j := by
  unfold offset u32 at same
  omega

theorem Stored.none (m : Bytes) (out : Nat) (f : Nat → UInt8) : Stored m m out 0 f :=
  ⟨fun _ bound => absurd bound (Nat.not_lt_zero _),fun _ _ => rfl⟩
theorem Stored.congr {m m' : Bytes} {out n : Nat} {f g : Nat → UInt8} (stored : Stored m m' out n f)
    (same : ∀ k < n, f k = g k) : Stored m m' out n g :=
  ⟨fun k bound => (stored.byte k bound).trans (same k bound),stored.frame⟩
theorem Stored.unique {m m' m'' : Bytes} {out n : Nat} {f : Nat → UInt8} (stored : Stored m m' out n f)
    (other : Stored m m'' out n f) : m' = m'' := by
  funext x
  by_cases written : ∃ k < n, x = offset out k
  · obtain ⟨k,bound,rfl⟩ := written
    rw [stored.byte k bound,other.byte k bound]
  · have outside : ∀ k < n, x ≠ offset out k := fun k bound same => written ⟨k,bound,same⟩
    rw [stored.frame x outside,other.frame x outside]
theorem Stored.start {m m' : Bytes} {out n : Nat} {f : Nat → UInt8} (stored : Stored m m' (offset out 0) n f) :
    Stored m m' out n f := by
  have place : ∀ k, offset (offset out 0) k = offset out k := fun k => by rw [offset_offset,Nat.zero_add]
  exact ⟨fun k bound => place k ▸ stored.byte k bound,fun x outside => stored.frame x fun k bound => place k ▸ outside k bound⟩
/-- A store followed by one that starts where it ended. -/
theorem Stored.append {m m' m'' : Bytes} {out a b : Nat} {f : Nat → UInt8} (first : Stored m m' out a f)
    (second : Stored m' m'' (offset out a) b (fun k => f (a + k))) (fits : a + b ≤ 4294967296) :
    Stored m m'' out (a + b) f := by
  constructor
  · intro k bound
    by_cases early : k < a
    · rw [second.frame,first.byte k early]
      intro j below same
      rw [offset_offset] at same
      have := offset_inj (by omega) (by omega) same
      omega
    · have place : offset out k = offset (offset out a) (k - a) := by
        rw [offset_offset]
        congr 1
        omega
      rw [place,second.byte _ (by omega)]
      congr 1
      omega
  · intro x outside
    rw [second.frame,first.frame]
    · exact fun k bound => outside k (by omega)
    · intro k bound
      rw [offset_offset]
      exact outside _ (by omega)
theorem Stored.single (m : Bytes) (out : Nat) (f : Nat → UInt8) :
    Stored m (Function.update m (offset out 0) (f 0)) out 1 f := by
  constructor
  · intro k bound
    obtain rfl : k = 0 := by omega
    exact Function.update_self _ _ _
  · intro x outside
    exact Function.update_of_ne (outside 0 (by decide)) _ _

theorem Stored.delivered {m m' : Bytes} {out n t : Nat} {f : Nat → UInt8} (stored : Stored m m' out n f)
    (bound : n ≤ t) : Delivered m m' out t f := by
  intro x
  by_cases written : ∃ k < n, x = offset out k
  · obtain ⟨k,below,rfl⟩ := written
    exact .inr ⟨k,by omega,rfl,stored.byte k below⟩
  · exact .inl (stored.frame x fun k below same => written ⟨k,below,same⟩)
theorem Delivered.none (m : Bytes) (out n : Nat) (f : Nat → UInt8) : Delivered m m out n f := fun _ => .inl rfl
theorem Delivered.congr {m m' : Bytes} {out n : Nat} {f g : Nat → UInt8} (delivered : Delivered m m' out n f)
    (same : ∀ k < n, f k = g k) : Delivered m m' out n g := by
  intro x
  rcases delivered x with kept | ⟨k,below,place,value⟩
  · exact .inl kept
  · exact .inr ⟨k,below,place,value.trans (same k below)⟩
theorem Delivered.append {m m' m'' : Bytes} {out a b : Nat} {f : Nat → UInt8} (first : Delivered m m' out a f)
    (second : Delivered m' m'' (offset out a) b (fun k => f (a + k))) : Delivered m m'' out (a + b) f := by
  intro x
  rcases second x with kept | ⟨k,below,place,value⟩
  · rw [kept]
    rcases first x with same | ⟨k,below,place,value⟩
    · exact .inl same
    · exact .inr ⟨k,by omega,place,value⟩
  · exact .inr ⟨a + k,by omega,place.trans (offset_offset out a k),value⟩

end SimpOS.Memory
