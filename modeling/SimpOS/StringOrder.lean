import SimpOS.Strings

/-!
The order that `istrncmp` puts strings in. It passes over letters that differ in case only, but
where it stops it subtracts the bytes as they stand, so that an upper case letter comes before the
bytes between the two cases and before most lower case letters.
-/
namespace SimpOS.StringOrder
open SimpOS.Strings

def lower (s : CString) : CString := s.map tolower

/-- What two strings are compared by: their first n bytes, up to the end, in lower case. -/
def folded (s : CString) (n : Nat) : List UInt8 := (lower (s.takeWhile (· ≠ 0))).take n

/-- The bytes at the first of n places at which two strings differ other than by case. -/
def firstDifference : CString → CString → Nat → Option (UInt8 × UInt8)
  | _, _, 0 => none
  | s1, s2, n + 1 =>
    if tolower (s1.headD 0) ≠ tolower (s2.headD 0) then some (s1.headD 0, s2.headD 0)
    else if s1.headD 0 = 0 then none
    else firstDifference s1.tail s2.tail n

/-- An upper case letter is below the byte, and its lower case above it. -/
def Across (u w : UInt8) : Prop := 65 ≤ u.toNat ∧ u.toNat ≤ 90 ∧ 90 < w.toNat ∧ w.toNat < u.toNat + 32

/-- Where the strings differ, case does not turn the order of the two bytes around. -/
def Ordered (s1 s2 : CString) (n : Nat) : Prop :=
  ∀ u1 u2, firstDifference s1 s2 n = some (u1,u2) → ¬Across u1 u2 ∧ ¬Across u2 u1

/-- Among the strings, `istrncmp` orders as the comparison of lower case strings does. -/
structure Consistent (strings : CString → Prop) (n : Nat) : Prop where
  agrees : ∀ s1 s2, strings s1 → strings s2 → (istrncmp s1 s2 n).sign = (strncmp (lower s1) (lower s2) n).sign
  equal : ∀ s1 s2, strings s1 → strings s2 → (istrncmp s1 s2 n = 0 ↔ folded s1 n = folded s2 n)
  antisymm : ∀ s1 s2, strings s1 → strings s2 → istrncmp s2 s1 n = -istrncmp s1 s2 n
  trans : ∀ s1 s2 s3, strings s1 → strings s2 → strings s3 → istrncmp s1 s2 n ≤ 0 → istrncmp s2 s3 n ≤ 0 →
    istrncmp s1 s3 n ≤ 0

theorem tolower_toNat (c : UInt8) :
    (tolower c).toNat = if 65 ≤ c.toNat ∧ c.toNat ≤ 90 then c.toNat + 32 else c.toNat := by
  unfold tolower
  simp only [UInt8.le_iff_toNat_le]
  change (if 65 ≤ c.toNat ∧ c.toNat ≤ 90 then c + 32 else c).toNat = _
  split_ifs with upper
  · rw [UInt8.toNat_add]
    change (c.toNat + 32) % 256 = _
    omega
  · rfl

theorem tolower_zero (c : UInt8) : tolower c = 0 ↔ c = 0 := by
  rw [← UInt8.toNat_inj,← UInt8.toNat_inj,tolower_toNat]
  change (if 65 ≤ c.toNat ∧ c.toNat ≤ 90 then c.toNat + 32 else c.toNat) = 0 ↔ c.toNat = 0
  by_cases upper : 65 ≤ c.toNat ∧ c.toNat ≤ 90
  · rw [if_pos upper]
    omega
  · rw [if_neg upper]

theorem lower_head (s : CString) : (lower s).headD 0 = tolower (s.headD 0) := by
  cases s with
  | nil => rfl
  | cons c s => rfl

theorem lower_tail (s : CString) : (lower s).tail = lower s.tail := List.map_tail.symm

/-- The bytes are the other way round in lower case exactly when one is an upper case letter that the other
    lies across from. -/
theorem sign_across {u w : UInt8} (differ : tolower u ≠ tolower w) :
    (((u.toNat : Int) - w.toNat).sign = (((tolower u).toNat : Int) - (tolower w).toNat).sign) ↔ ¬Across u w ∧ ¬Across w u := by
  have apart : (tolower u).toNat ≠ (tolower w).toNat := fun same => differ (UInt8.toNat_inj.mp same)
  rw [tolower_toNat,tolower_toNat] at apart
  rw [tolower_toNat,tolower_toNat]
  unfold Across
  generalize u.toNat = a at apart ⊢
  generalize w.toNat = b at apart ⊢
  rcases Nat.lt_trichotomy a b with below | same | above
  · rw [Int.sign_eq_neg_one_of_neg (by omega)]
    split_ifs at apart ⊢ <;> rw [eq_comm,Int.sign_eq_neg_one_iff_neg] <;> omega
  · subst same
    exact absurd rfl apart
  · rw [Int.sign_eq_one_of_pos (by omega)]
    split_ifs at apart ⊢ <;> rw [eq_comm,Int.sign_eq_one_iff_pos] <;> omega

/-! ### What the two comparisons return -/

section
variable (s1 s2 s3 : CString) (n : Nat)

theorem istrncmp_difference : ∀ s1 s2, istrncmp s1 s2 n =
    match firstDifference s1 s2 n with
    | none => 0
    | some (u1, u2) => (u1.toNat : Int) - u2.toNat := by
  induction n with
  | zero => exact fun s1 s2 => rfl
  | succ n ih =>
    intro s1 s2
    rw [istrncmp,firstDifference]
    by_cases differ : tolower (s1.headD 0) ≠ tolower (s2.headD 0)
    · have other : s1.headD 0 ≠ s2.headD 0 := fun same => differ (congrArg tolower same)
      rw [if_pos ⟨other,differ⟩,if_pos differ]
    · rw [if_neg (fun both => differ both.2),if_neg differ]
      by_cases ends : s1.headD 0 = 0
      · rw [if_pos ends,if_pos ends]
      · rw [if_neg ends,if_neg ends]
        exact ih _ _

theorem strncmp_lower_difference : ∀ s1 s2, strncmp (lower s1) (lower s2) n =
    match firstDifference s1 s2 n with
    | none => 0
    | some (u1, u2) => ((tolower u1).toNat : Int) - (tolower u2).toNat := by
  induction n with
  | zero => exact fun s1 s2 => rfl
  | succ n ih =>
    intro s1 s2
    rw [strncmp,firstDifference]
    rw [lower_head,lower_head,lower_tail,lower_tail]
    by_cases differ : tolower (s1.headD 0) ≠ tolower (s2.headD 0)
    · rw [if_pos differ,if_pos differ]
    · rw [if_neg differ,if_neg differ]
      by_cases ends : s1.headD 0 = 0
      · rw [if_pos ((tolower_zero _).mpr ends),if_pos ends]
      · rw [if_neg (fun zero => ends ((tolower_zero _).mp zero)),if_neg ends]
        exact ih _ _

theorem firstDifference_differs : ∀ {s1 s2 u1 u2}, firstDifference s1 s2 n = some (u1,u2) → tolower u1 ≠ tolower u2 := by
  induction n with
  | zero => exact fun found => nomatch found
  | succ n ih =>
    intro s1 s2 u1 u2 found
    rw [firstDifference] at found
    split_ifs at found with differ
    · cases found
      exact differ
    · exact ih found

theorem firstDifference_comm : ∀ s1 s2, firstDifference s2 s1 n = (firstDifference s1 s2 n).map Prod.swap := by
  induction n with
  | zero => exact fun s1 s2 => rfl
  | succ n ih =>
    intro s1 s2
    rw [firstDifference,firstDifference]
    by_cases differ : tolower (s1.headD 0) ≠ tolower (s2.headD 0)
    · rw [if_pos differ,if_pos (Ne.symm differ)]
      rfl
    · have same := not_not.mp differ
      have ends : s2.headD 0 = 0 ↔ s1.headD 0 = 0 := by rw [← tolower_zero,← tolower_zero (s1.headD 0),same]
      rw [if_neg differ,if_neg (not_not.mpr same.symm)]
      by_cases zero : s1.headD 0 = 0
      · rw [if_pos zero,if_pos (ends.mpr zero)]
        rfl
      · rw [if_neg zero,if_neg (fun other => zero (ends.mp other))]
        exact ih _ _

theorem folded_succ (s : CString) : folded s (n + 1) =
    if s.headD 0 = 0 then [] else tolower (s.headD 0) :: folded s.tail n := by
  cases s with
  | nil => rfl
  | cons c s =>
    rw [folded,List.headD_cons,List.tail_cons]
    by_cases zero : c = 0
    · rw [if_pos zero,List.takeWhile_cons_of_neg (by simpa using zero)]
      rfl
    · rw [if_neg zero,List.takeWhile_cons_of_pos (by simpa using zero)]
      rfl

theorem firstDifference_none_iff : ∀ s1 s2, firstDifference s1 s2 n = none ↔ folded s1 n = folded s2 n := by
  induction n with
  | zero => exact fun s1 s2 => iff_of_true rfl rfl
  | succ n ih =>
    intro s1 s2
    rw [firstDifference,folded_succ,folded_succ]
    by_cases differ : tolower (s1.headD 0) ≠ tolower (s2.headD 0)
    · rw [if_pos differ]
      refine iff_of_false (Option.some_ne_none _) fun same => ?_
      have first := tolower_zero (s1.headD 0)
      have second := tolower_zero (s2.headD 0)
      split_ifs at same with none none'
      · exact differ ((first.mpr none).trans (second.mpr none').symm)
      · exact differ (List.cons.inj same).1
    · have same := not_not.mp differ
      have ends : s2.headD 0 = 0 ↔ s1.headD 0 = 0 := by rw [← tolower_zero,← tolower_zero (s1.headD 0),same]
      rw [if_neg differ]
      by_cases zero : s1.headD 0 = 0
      · rw [if_pos zero,if_pos zero,if_pos (ends.mpr zero)]
        exact iff_of_true rfl rfl
      · rw [if_neg zero,if_neg zero,if_neg (fun other => zero (ends.mp other)),ih,same,List.cons_inj_right]

end

private theorem strncmp_nonpos_succ (n : Nat) (s1 s2 : CString) : strncmp s1 s2 (n + 1) ≤ 0 ↔
    (s1.headD 0).toNat < (s2.headD 0).toNat ∨
    s1.headD 0 = s2.headD 0 ∧ (s1.headD 0 = 0 ∨ strncmp s1.tail s2.tail n ≤ 0) := by
  rw [strncmp]
  by_cases differ : s1.headD 0 ≠ s2.headD 0
  · have apart : (s1.headD 0).toNat ≠ (s2.headD 0).toNat := fun same => differ (UInt8.toNat_inj.mp same)
    rw [if_pos differ]
    constructor
    · exact fun below => .inl (by omega)
    · rintro (below | ⟨same,_⟩)
      · omega
      · exact absurd same differ
  · have same := not_not.mp differ
    rw [if_neg differ]
    by_cases ends : s1.headD 0 = 0
    · rw [if_pos ends]
      exact iff_of_true (Int.le_refl 0) (.inr ⟨same,.inl ends⟩)
    · rw [if_neg ends]
      constructor
      · exact fun rest => .inr ⟨same,.inr rest⟩
      · rintro (below | ⟨_,zero | rest⟩)
        · rw [same] at below
          exact absurd below (Nat.lt_irrefl _)
        · exact absurd zero ends
        · exact rest

/-- Strings come in an order that `strncmp` tells. -/
theorem strncmp_trans (n : Nat) : ∀ {s1 s2 s3 : CString}, strncmp s1 s2 n ≤ 0 → strncmp s2 s3 n ≤ 0 → strncmp s1 s3 n ≤ 0 := by
  induction n with
  | zero => exact fun _ _ => Int.le_refl 0
  | succ n ih =>
    intro s1 s2 s3 first second
    rw [strncmp_nonpos_succ] at first second ⊢
    rcases first with below | ⟨same,first⟩
    · rcases second with below' | ⟨same',_⟩
      · exact .inl (Nat.lt_trans below below')
      · exact .inl (same' ▸ below)
    · rcases second with below' | ⟨same',second⟩
      · exact .inl (same ▸ below')
      · refine .inr ⟨same.trans same',?_⟩
        rcases first with ends | first
        · exact .inl ends
        · rcases second with ends | second
          · exact .inl (same.trans ends)
          · exact .inr (ih first second)

/-- Two strings are ordered as their lower case forms are exactly when no byte across from an upper case
    letter decides. -/
theorem istrncmp_sign_iff (s1 s2 : CString) (n : Nat) :
    (istrncmp s1 s2 n).sign = (strncmp (lower s1) (lower s2) n).sign ↔ Ordered s1 s2 n := by
  rw [istrncmp_difference,strncmp_lower_difference,Ordered]
  cases found : firstDifference s1 s2 n with
  | none => exact iff_of_true rfl fun u1 u2 none => nomatch none
  | some bytes =>
    obtain ⟨u1,u2⟩ := bytes
    dsimp only
    rw [sign_across (firstDifference_differs n found)]
    constructor
    · intro order w1 w2 same
      cases same
      exact order
    · exact fun order => order u1 u2 rfl

private theorem nonpos_of_sign {x y : Int} (same : x.sign = y.sign) : x ≤ 0 ↔ y ≤ 0 := by
  have first : x ≤ 0 ↔ x.sign ≠ 1 := by rw [Ne,Int.sign_eq_one_iff_pos]; omega
  have second : y ≤ 0 ↔ y.sign ≠ 1 := by rw [Ne,Int.sign_eq_one_iff_pos]; omega
  rw [first,second,same]

/-- Strings are ordered as their lower case forms are, and so consistently, exactly when between no two of
    them a byte across from an upper case letter decides. -/
theorem istrncmp_consistent_iff (strings : CString → Prop) (n : Nat) :
    Consistent strings n ↔ ∀ s1 s2, strings s1 → strings s2 → Ordered s1 s2 n := by
  constructor
  · exact fun consistent s1 s2 first second => (istrncmp_sign_iff s1 s2 n).mp (consistent.agrees s1 s2 first second)
  · intro ordered
    have agrees : ∀ s1 s2, strings s1 → strings s2 → (istrncmp s1 s2 n).sign = (strncmp (lower s1) (lower s2) n).sign :=
      fun s1 s2 first second => (istrncmp_sign_iff s1 s2 n).mpr (ordered s1 s2 first second)
    refine ⟨agrees,fun s1 s2 _ _ => ?_,fun s1 s2 _ _ => ?_,fun s1 s2 s3 first second third below below' => ?_⟩
    · rw [← firstDifference_none_iff,istrncmp_difference]
      cases found : firstDifference s1 s2 n with
      | none => exact iff_of_true rfl rfl
      | some bytes =>
        obtain ⟨u1,u2⟩ := bytes
        refine iff_of_false (fun equal => firstDifference_differs n found ?_) (Option.some_ne_none _)
        have equal : (u1.toNat : Int) - u2.toNat = 0 := equal
        exact congrArg tolower (UInt8.toNat_inj.mp (by omega))
    · rw [istrncmp_difference,istrncmp_difference,firstDifference_comm]
      cases firstDifference s1 s2 n with
      | none => rfl
      | some bytes => exact (Int.neg_sub ..).symm
    · rw [nonpos_of_sign (agrees _ _ first second)] at below
      rw [nonpos_of_sign (agrees _ _ second third)] at below'
      rw [nonpos_of_sign (agrees _ _ first third)]
      exact strncmp_trans n below below'

/-- B comes before a and after A, which are equal. -/
theorem istrncmp_across : istrncmp [66] [97] 1 < 0 ∧ 0 < strncmp (lower [66]) (lower [97]) 1 ∧
    istrncmp [97] [65] 1 ≤ 0 ∧ ¬istrncmp [66] [65] 1 ≤ 0 ∧ ¬Consistent (fun _ => True) 1 := by
  refine ⟨by decide,by decide,by decide,by decide,fun consistent => ?_⟩
  have same := consistent.agrees [66] [97] trivial trivial
  exact absurd same (by decide)

end SimpOS.StringOrder
