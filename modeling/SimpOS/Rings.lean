import Mathlib.Tactic.Common
import Mathlib.Data.Nat.ModEq
import Mathlib.Data.Finset.Card
import Mathlib.Order.Interval.Finset.Nat
import Mathlib.Logic.Function.Basic

/-!
Rings: a queue in n cells that are used round and round. There is no count of the elements;
a cell outside the queue is blank and no element is, so that the cell at the head says
whether the queue is empty. A writer that does not look at the reader overruns it; the two
are level again, once nothing is left to read, exactly where whole rounds were lost.
-/
namespace SimpOS.Rings
universe u
variable {α : Type u} {blank x : α} {n h t : Nat} {cells : Nat → α} {xs : List α}

/-- From position h on the cells hold the elements of xs, and the cells after them are blank. -/
structure Holds (blank : α) (n : Nat) (cells : Nat → α) (h : Nat) (xs : List α) : Prop where
  fits : xs.length ≤ n
  marked : ∀ x ∈ xs, x ≠ blank
  held : ∀ i, i < n → cells ((h+i) % n) = (xs[i]?).getD blank

theorem position_injective {i j : Nat} (first : i < n) (second : j < n) (same : (h+i) % n = (h+j) % n) : i = j := by
  have cancelled : i % n = j % n := Nat.ModEq.add_left_cancel' h same
  rwa [Nat.mod_eq_of_lt first,Nat.mod_eq_of_lt second] at cancelled

/-- Every cell is one of the n after position h. -/
theorem position_surjective {c : Nat} (h : Nat) (below : c < n) : ∃ i, i < n ∧ (h+i) % n = c := by
  have positive : 0 < n := by omega
  refine ⟨(c + (n - h % n)) % n,Nat.mod_lt _ positive,?_⟩
  have inside : h % n < n := Nat.mod_lt _ positive
  calc (h + (c + (n - h % n)) % n) % n
      = (h % n + (c + (n - h % n))) % n := by rw [Nat.add_mod_mod,Nat.mod_add_mod]
    _ = (c + n) % n := by congr 1; omega
    _ = c := by rw [Nat.add_mod_right,Nat.mod_eq_of_lt below]

/-- Positions count round and round. -/
theorem Holds.congr {h' : Nat} (holds : Holds blank n cells h xs) (same : h % n = h' % n) :
    Holds blank n cells h' xs := by
  refine ⟨holds.fits,holds.marked,fun i below => ?_⟩
  have moved : (h'+i) % n = (h+i) % n := Nat.ModEq.add_right i same.symm
  rw [moved]
  exact holds.held i below

theorem holds_nil (clear : ∀ c, c < n → cells c = blank) : Holds blank n cells h [] := by
  refine ⟨Nat.zero_le _,fun x among => absurd among List.not_mem_nil,fun i below => ?_⟩
  exact clear _ (Nat.mod_lt _ (by omega))

theorem Holds.clear (holds : Holds blank n cells h []) {c : Nat} (below : c < n) : cells c = blank := by
  obtain ⟨i,inside,rfl⟩ := position_surjective h below
  exact holds.held i inside

/-- The cell at the head is blank exactly when the queue is empty. -/
theorem Holds.blank_iff (holds : Holds blank n cells h xs) (positive : 0 < n) :
    cells (h % n) = blank ↔ xs = [] := by
  have first := holds.held 0 positive
  rw [Nat.add_zero] at first
  rw [first]
  cases xs with
  | nil => exact ⟨fun _ => rfl,fun _ => rfl⟩
  | cons x xs => exact ⟨fun empty => absurd empty (holds.marked x List.mem_cons_self),fun empty => nomatch empty⟩

theorem Holds.head (holds : Holds blank n cells h (x :: xs)) (positive : 0 < n) : cells (h % n) = x := by
  have first := holds.held 0 positive
  rwa [Nat.add_zero] at first

/-- Writing the cell behind the last element puts an element in the queue. -/
theorem Holds.push (holds : Holds blank n cells h xs) (room : xs.length < n) (marked : x ≠ blank)
    (last : t % n = (h + xs.length) % n) : Holds blank n (Function.update cells (t % n) x) h (xs ++ [x]) := by
  refine ⟨by rw [List.length_append]; exact room,?_,fun i below => ?_⟩
  · intro y among
    rcases List.mem_append.mp among with old | new
    · exact holds.marked y old
    · rw [List.mem_singleton.mp new]
      exact marked
  · rw [last]
    by_cases behind : i = xs.length
    · subst behind
      rw [Function.update_self,List.getElem?_concat_length]
      rfl
    · rw [Function.update_of_ne fun same => behind (position_injective below room same),holds.held i below]
      rcases Nat.lt_or_gt_of_ne behind with before | after
      · rw [List.getElem?_append_left before]
      · rw [List.getElem?_eq_none (by omega),List.getElem?_eq_none (by rw [List.length_append]; exact after)]

/-- Blanking the cell at the head takes the first element out. -/
theorem Holds.pop (holds : Holds blank n cells h (x :: xs)) :
    Holds blank n (Function.update cells (h % n) blank) (h+1) xs := by
  have fits : xs.length + 1 ≤ n := holds.fits
  refine ⟨by omega,fun y among => holds.marked y (List.mem_cons_of_mem x among),fun i below => ?_⟩
  have moved : (h+1+i) % n = (h+(i+1)) % n := by rw [Nat.add_right_comm,Nat.add_assoc]
  rw [moved]
  by_cases round : i + 1 = n
  · rw [round,Nat.add_mod_right,Function.update_self,List.getElem?_eq_none (by omega)]
    rfl
  · have inside : i + 1 < n := by omega
    have apart : (h+(i+1)) % n ≠ h % n := by
      intro same
      have := position_injective (j := 0) inside (by omega) same
      omega
    rw [Function.update_of_ne apart,holds.held (i+1) inside]
    rfl

/-! ### Overrun rings -/

/-- What has become of a ring whose writer goes on round after round: how often it was written and read,
    the cells that were written and not read since, and how many elements were lost, as they were
    written over before they were read. -/
structure Tally where
  written : Nat
  read : Nat
  unread : Finset Nat
  lost : Nat

namespace Tally
variable {tally : Tally}

def empty : Tally := ⟨0, 0, ∅, 0⟩

def write (n : Nat) (tally : Tally) : Tally :=
  if tally.written % n ∈ tally.unread then { tally with written := tally.written + 1, lost := tally.lost + 1 }
  else { tally with written := tally.written + 1, unread := insert (tally.written % n) tally.unread }

/-- The cell at the head is read, where there is something in it. -/
def take (n : Nat) (tally : Tally) : Tally :=
  if tally.read % n ∈ tally.unread then
    { tally with read := tally.read + 1, unread := tally.unread.erase (tally.read % n) }
  else tally

/-- From the head on, the unread cells and the lost elements make up the way to the writer: as long as
    that is less than a round no unread cell is outside it, and behind a round every cell on it is unread. -/
structure Spread (n : Nat) (tally : Tally) : Prop where
  inside : ∀ c ∈ tally.unread, c < n
  total : tally.written = tally.read + tally.unread.card + tally.lost
  way : tally.unread.card + tally.lost % n ≤ n ∧
      (∀ i, i < n → (tally.read + i) % n ∈ tally.unread → i < tally.unread.card + tally.lost % n) ∨
    n ≤ tally.unread.card + tally.lost % n ∧
      ∀ i, n + i < tally.unread.card + tally.lost % n → (tally.read + i) % n ∈ tally.unread

theorem spread_empty (n : Nat) : Spread n empty := ⟨by simp [empty],rfl,.inl ⟨by simp [empty],by simp [empty]⟩⟩

theorem Spread.card_le (spread : Spread n tally) : tally.unread.card ≤ n := by
  have below : tally.unread ⊆ Finset.range n := fun c member => Finset.mem_range.mpr (spread.inside c member)
  simpa using Finset.card_le_card below

/-- The writer's cell, by the way from the head. -/
theorem Spread.writer (spread : Spread n tally) :
    tally.written % n = (tally.read + (tally.unread.card + tally.lost % n)) % n := by
  rw [spread.total,← Nat.add_assoc,Nat.add_mod_mod]

/-- As many unread cells as there are, from the head on, are all of them. -/
theorem unread_all {unread : Finset Nat} (few : unread.card ≤ n) (run : ∀ i, i < unread.card → (h + i) % n ∈ unread) {i : Nat}
    (below : i < n) (member : (h + i) % n ∈ unread) : i < unread.card := by
  have injective : Set.InjOn (fun i => (h + i) % n) (Finset.range unread.card) := by
    intro i first j second same
    rw [Finset.mem_coe,Finset.mem_range] at first second
    exact position_injective (by omega) (by omega) same
  have sub : (Finset.range unread.card).image (fun i => (h + i) % n) ⊆ unread := by
    intro c among
    obtain ⟨j,inside,rfl⟩ := Finset.mem_image.mp among
    exact run j (Finset.mem_range.mp inside)
  have same := Finset.eq_of_subset_of_card_le sub (by rw [Finset.card_image_of_injOn injective,Finset.card_range])
  rw [← same] at member
  obtain ⟨j,inside,here⟩ := Finset.mem_image.mp member
  rw [Finset.mem_range] at inside
  rw [← position_injective (by omega) below here]
  exact inside

/-- Where no unread cell is further from the head than there are of them, the head's is unread or none is. -/
theorem unread_head {unread : Finset Nat} (inside : ∀ c ∈ unread, c < n)
    (near : ∀ i, i < n → (h + i) % n ∈ unread → i < unread.card) (blank : h % n ∉ unread) : unread = ∅ := by
  have sub : unread ⊆ (Finset.Ico 1 unread.card).image fun i => (h + i) % n := by
    intro c member
    obtain ⟨i,below,rfl⟩ := position_surjective h (inside c member)
    refine Finset.mem_image.mpr ⟨i,Finset.mem_Ico.mpr ⟨?_,near i below member⟩,rfl⟩
    by_contra zero
    obtain rfl : i = 0 := by omega
    exact blank member
  have few := (Finset.card_le_card sub).trans Finset.card_image_le
  rw [Nat.card_Ico] at few
  exact Finset.card_eq_zero.mp (by omega)

theorem Spread.write (positive : 0 < n) (spread : Spread n tally) : Spread n (tally.write n) := by
  have writer := spread.writer
  have few := spread.card_le
  have less := Nat.mod_lt tally.lost positive
  have total := spread.total
  unfold Tally.write
  by_cases short : tally.unread.card + tally.lost % n < n
  · -- the writer's cell is the first behind the unread ones
    have near := spread.way.resolve_right (fun far => by omega)
    have fresh : tally.written % n ∉ tally.unread := by
      rw [writer]
      exact fun member => Nat.lt_irrefl _ (near.2 _ short member)
    rw [if_neg fresh]
    refine ⟨?_,?_,.inl ⟨?_,?_⟩⟩
    · simpa using ⟨Nat.mod_lt _ positive,spread.inside⟩
    · simp only [Finset.card_insert_of_notMem fresh]
      omega
    · simp only [Finset.card_insert_of_notMem fresh]
      omega
    · simp only [Finset.card_insert_of_notMem fresh,Finset.mem_insert]
      rintro i below (here | member)
      · rw [writer] at here
        rw [position_injective below short here]
        omega
      · have := near.2 i below member
        omega
  · obtain ⟨e,far⟩ : ∃ e, tally.unread.card + tally.lost % n = n + e := ⟨tally.unread.card + tally.lost % n - n,by omega⟩
    have run : ∀ i, i < e → (tally.read + i) % n ∈ tally.unread := by
      intro i before
      rcases spread.way with near | far
      · omega
      · exact far.2 i (by omega)
    have place : tally.written % n = (tally.read + e) % n := by
      rw [writer,far,← Nat.add_assoc,Nat.add_right_comm,Nat.add_mod_right]
    by_cases lost : tally.written % n ∈ tally.unread
    · rw [if_pos lost]
      have upTo : ∀ i, i ≤ e → (tally.read + i) % n ∈ tally.unread := by
        intro i before
        rcases Nat.lt_or_eq_of_le before with earlier | rfl
        · exact run i earlier
        · rw [← place]
          exact lost
      by_cases round : tally.lost % n + 1 = n
      · -- a whole round has been lost
        have zero : (tally.lost + 1) % n = 0 := by rw [← Nat.mod_add_mod,round,Nat.mod_self]
        refine ⟨spread.inside,by simp only; omega,.inl ⟨by simp only [zero]; omega,?_⟩⟩
        simp only [zero]
        intro i below member
        exact unread_all few (fun j before => upTo j (by omega)) below member
      · have next : (tally.lost + 1) % n = tally.lost % n + 1 := by
          rw [← Nat.mod_add_mod,Nat.mod_eq_of_lt (by omega)]
        refine ⟨spread.inside,by simp only; omega,.inr ⟨by simp only [next]; omega,?_⟩⟩
        simp only [next]
        exact fun i before => upTo i (by omega)
    · rw [if_neg lost]
      refine ⟨?_,?_,.inr ⟨?_,?_⟩⟩
      · simpa using ⟨Nat.mod_lt _ positive,spread.inside⟩
      · simp only [Finset.card_insert_of_notMem lost]
        omega
      · simp only [Finset.card_insert_of_notMem lost]
        omega
      · simp only [Finset.card_insert_of_notMem lost,Finset.mem_insert]
        intro i before
        by_cases last : i = e
        · rw [last,place]
          exact .inl rfl
        · exact .inr (run i (by omega))

theorem Spread.take (positive : 0 < n) (spread : Spread n tally) : Spread n (tally.take n) := by
  have few := spread.card_le
  have less := Nat.mod_lt tally.lost positive
  have total := spread.total
  unfold Tally.take
  by_cases held : tally.read % n ∈ tally.unread
  · rw [if_pos held]
    have some := Finset.card_pos.mpr ⟨_,held⟩
    have card := Finset.card_erase_of_mem held
    have moved : ∀ i, (tally.read + 1 + i) % n = (tally.read + (i + 1)) % n := fun i => by
      rw [Nat.add_right_comm,Nat.add_assoc]
    refine ⟨fun c member => spread.inside c (Finset.mem_of_mem_erase member),by simp only [card]; omega,?_⟩
    simp only [card,moved]
    by_cases short : tally.unread.card + tally.lost % n ≤ n
    · refine .inl ⟨by omega,fun i below member => ?_⟩
      obtain ⟨other,member⟩ := Finset.mem_erase.mp member
      have inner : i + 1 < n := by
        by_contra round
        obtain rfl : n = i + 1 := by omega
        exact other (by rw [Nat.add_mod_right])
      rcases spread.way with near | far
      · have := near.2 (i + 1) inner member
        omega
      · omega
    · have far := spread.way.resolve_left (fun near => by omega)
      refine .inr ⟨by omega,fun i before => Finset.mem_erase.mpr ⟨fun same => ?_,far.2 (i + 1) (by omega)⟩⟩
      have apart := position_injective (j := 0) (by omega) positive same
      omega
  · rw [if_neg held]
    exact spread

/-- Once the head's cell is blank, nothing is unread and the writer is at the head exactly where whole
    rounds were lost. -/
theorem Spread.drained (positive : 0 < n) (spread : Spread n tally) (blank : tally.read % n ∉ tally.unread) :
    n ∣ tally.lost ↔ tally.unread = ∅ ∧ tally.written % n = tally.read % n := by
  constructor
  · intro rounds
    have zero := Nat.mod_eq_zero_of_dvd rounds
    have few := spread.card_le
    have none : tally.unread = ∅ := by
      have way := spread.way
      simp only [zero,Nat.add_zero] at way
      rcases way with near | far
      · exact unread_head spread.inside near.2 blank
      · refine unread_head spread.inside (fun i below _ => by omega) blank
    refine ⟨none,?_⟩
    rw [spread.writer,none,zero]
    rfl
  · rintro ⟨none,level⟩
    have ahead := spread.writer
    rw [level,none,Finset.card_empty,Nat.zero_add] at ahead
    have zero := position_injective (i := 0) positive (Nat.mod_lt tally.lost positive) ahead
    exact Nat.dvd_of_mod_eq_zero zero.symm

/-- The first round fills the ring, and a second one is lost as a whole. -/
theorem write_round {k : Nat} (below : k < n) : write n ⟨k,0,Finset.range k,0⟩ = ⟨k + 1,0,Finset.range (k + 1),0⟩ := by
  simp [write,Nat.mod_eq_of_lt below,Finset.range_add_one]

theorem write_again {k : Nat} (below : k < n) : write n ⟨n + k,0,Finset.range n,k⟩ = ⟨n + (k + 1),0,Finset.range n,k + 1⟩ := by
  simp [write,Nat.mod_eq_of_lt below,below,Nat.add_assoc]

theorem take_round {w k l : Nat} (below : k < n) : take n ⟨w,k,Finset.Ico k n,l⟩ = ⟨w,k + 1,Finset.Ico (k + 1) n,l⟩ := by
  have head : k ∈ Finset.Ico k n := Finset.left_mem_Ico.mpr below
  rw [take,Nat.mod_eq_of_lt below,if_pos head]
  congr 1
  ext i
  simp only [Finset.mem_erase,Finset.mem_Ico]
  omega

end Tally

end SimpOS.Rings
