import Mathlib.Data.List.Basic
import Mathlib.Data.List.Perm.Subperm
import Mathlib.Logic.Function.Basic
import Mathlib.Tactic.Common

/-!
Doubly linked lists of nodes whose links are functions from a node to its neighbours,
with a null node at either end. A list of nodes is linked when the links of each node
name the nodes beside it.
-/
namespace SimpOS.LinkedLists
universe u
variable {α : Type u}

/-- The nodes are linked in order, between the node p before them and the node q after. -/
def Segment (next prev : α → α) (q : α) : α → List α → Prop
  | _, [] => True
  | p, t :: rest => prev t = p ∧ next t = rest.headD q ∧ Segment next prev q t rest

/-- Following the links from a node visits exactly the given nodes and then null. -/
inductive Visits (next : α → α) (null : α) : α → List α → Prop
  | done : Visits next null null []
  | step {t : α} {rest : List α} : t ≠ null → Visits next null (next t) rest → Visits next null t (t :: rest)

variable {next prev next' prev' : α → α} {null p q t : α} {l front : List α}

theorem segment_concat : Segment next prev q p (front ++ [t]) ↔
    Segment next prev t p front ∧ prev t = front.getLastD p ∧ next t = q := by
  induction front generalizing p with
  | nil => simp [Segment]
  | cons head rest ih =>
    have after : (rest ++ [t]).headD q = rest.headD t := by cases rest <;> rfl
    simp only [List.cons_append,Segment,ih,after,List.getLastD_cons,and_assoc]

/-- The next of a node is the one after it in the list. -/
theorem Segment.next_eq {after : List α} (segment : Segment next prev q p (front ++ t :: after)) :
    next t = after.headD q := by
  induction front generalizing p with
  | nil => exact segment.2.1
  | cons head rest ih => exact ih segment.2.2

theorem segment_congr (sameNext : ∀ t ∈ l, next' t = next t) (samePrev : ∀ t ∈ l, prev' t = prev t) :
    Segment next' prev' q p l ↔ Segment next prev q p l := by
  induction l generalizing p with
  | nil => exact Iff.rfl
  | cons head rest ih =>
    have inner := ih (p := head) (fun t member => sameNext t (by simp [member]))
      (fun t member => samePrev t (by simp [member]))
    simp only [Segment,sameNext head (by simp),samePrev head (by simp),inner]

theorem Segment.visits (segment : Segment next prev null p l) (nonnull : null ∉ l) :
    Visits next null (l.headD null) l := by
  induction l generalizing p with
  | nil => exact .done
  | cons head rest ih =>
    obtain ⟨_,after,inner⟩ := segment
    change Visits next null head (head :: rest)
    refine .step (fun same => nonnull (by simp [same])) ?_
    rw [after]
    exact ih inner fun member => nonnull (by simp [member])

/-- Each node but the last is the one before its next. -/
theorem Segment.inverse (segment : Segment next prev q p l) : ∀ t ∈ l, next t ≠ q → prev (next t) = t := by
  induction l generalizing p with
  | nil => exact fun t member => (nomatch member)
  | cons head rest ih =>
    obtain ⟨_,after,inner⟩ := segment
    intro t member notLast
    rcases List.mem_cons.mp member with rfl | later
    · cases rest with
      | nil => exact absurd after notLast
      | cons second more =>
        rw [after]
        exact inner.1
    · exact ih inner t later notLast

/-- A walk from a node visits one list of nodes only. -/
theorem Visits.unique {l' : List α} (visits : Visits next null p l) (visits' : Visits next null p l') : l = l' := by
  induction visits generalizing l' with
  | done =>
    cases visits' with
    | done => rfl
    | step nonnull _ => exact absurd rfl nonnull
  | step nonnull _ ih =>
    cases visits' with
    | done => exact absurd rfl nonnull
    | step _ rest => rw [ih rest]

theorem Visits.suffix {after : List α} (visits : Visits next null p (front ++ t :: after)) :
    Visits next null t (t :: after) := by
  induction front generalizing p with
  | nil =>
    cases visits with
    | step nonnull rest => exact .step nonnull rest
  | cons head front ih =>
    cases visits with
    | step _ rest => exact ih rest

theorem Visits.nonnull (visits : Visits next null p l) : null ∉ l := by
  induction visits with
  | done => exact List.not_mem_nil
  | step other _ ih =>
    intro member
    rcases List.mem_cons.mp member with same | later
    · exact other same.symm
    · exact ih later

/-- A walk that comes to an end visits no node twice. -/
theorem Visits.nodup (visits : Visits next null p l) : l.Nodup := by
  induction visits with
  | done => exact List.nodup_nil
  | @step t rest nonnull visits ih =>
    refine List.nodup_cons.mpr ⟨fun again => ?_,ih⟩
    obtain ⟨front,after,rfl⟩ := List.append_of_mem again
    have length := congrArg List.length (visits.suffix.unique (.step nonnull visits))
    simp only [List.length_cons,List.length_append] at length
    omega

/-- A node visited is the first or the next of another visited. -/
theorem Visits.before (visits : Visits next null p l) : ∀ u ∈ l, u = p ∨ ∃ w ∈ l, next w = u := by
  induction visits with
  | done => exact fun u member => (nomatch member)
  | @step t rest _ _ ih =>
    intro u member
    rcases List.mem_cons.mp member with rfl | later
    · exact .inl rfl
    · rcases ih u later with rfl | ⟨w,inside,link⟩
      · exact .inr ⟨t,by simp,rfl⟩
      · exact .inr ⟨w,by simp [inside],link⟩

/-- A walk that visits only numbers below a bound is shorter than that. -/
theorem Visits.length_lt_of_mem {next : Nat → Nat} {p bound : Nat} {l : List Nat} (visits : Visits next 0 p l)
    (positive : 0 < bound) (below : ∀ u ∈ l, u < bound) : l.length < bound := by
  have distinct : (0 :: l).Nodup := List.nodup_cons.mpr ⟨visits.nonnull,visits.nodup⟩
  have inside : 0 :: l ⊆ List.range bound := by
    intro u member
    rw [List.mem_range]
    rcases List.mem_cons.mp member with rfl | visited
    · exact positive
    · exact below u visited
  have length := (distinct.subperm inside).length_le
  rwa [List.length_cons,List.length_range] at length

/-- A walk among the numbers below a bound is shorter than that. -/
theorem Visits.length_lt {next : Nat → Nat} {p bound : Nat} {l : List Nat} (visits : Visits next 0 p l)
    (positive : 0 < bound) (first : p < bound) (others : ∀ u, next u < bound) : l.length < bound := by
  refine visits.length_lt_of_mem positive fun u visited => ?_
  rcases visits.before u visited with rfl | ⟨w,_,rfl⟩
  · exact first
  · exact others w

/-- Links that agree on the nodes visited. -/
theorem Visits.congr {next' : α → α} (visits : Visits next null p l) (same : ∀ x ∈ l, next' x = next x) :
    Visits next' null p l := by
  induction visits with
  | done => exact .done
  | @step x rest nonnull _ ih =>
    refine .step nonnull ?_
    rw [same x (List.mem_cons_self ..)]
    exact ih fun y member => same y (List.mem_cons_of_mem _ member)

/-- What following the links from a node comes to, null included. -/
inductive Reached (next : α → α) (null p : α) : α → Prop
  | first : Reached next null p p
  | onward {t : α} : Reached next null p t → t ≠ null → Reached next null p (next t)

/-- The next of a node visited is visited, or it is null. -/
theorem Visits.next_mem (visits : Visits next null p l) : ∀ u ∈ l, next u = null ∨ next u ∈ l := by
  induction visits with
  | done => exact fun u member => (nomatch member)
  | @step t rest _ visits ih =>
    intro u member
    rcases List.mem_cons.mp member with rfl | later
    · cases visits with
      | done => exact .inl rfl
      | step _ _ => exact .inr (List.mem_cons_of_mem _ (List.mem_cons_self ..))
    · exact (ih u later).imp_right (List.mem_cons_of_mem _)

theorem Visits.reached_mem (visits : Visits next null p l) {x : α} (reached : Reached next null p x) : x = null ∨ x ∈ l := by
  induction reached with
  | first =>
    cases visits with
    | done => exact .inl rfl
    | step _ _ => exact .inr (List.mem_cons_self ..)
  | onward _ nonnull ih => exact visits.next_mem _ (ih.resolve_left nonnull)

/-- A walk along other links, where these agree with the first on all that is reached. -/
theorem Visits.of_reached {next' : α → α} {q : α} (visits : Visits next' null q l) (reached : Reached next null p q)
    (same : ∀ x, Reached next null p x → x ≠ null → next' x = next x) :
    Visits next null q l ∧ ∀ x ∈ l, Reached next null p x := by
  induction visits with
  | done => exact ⟨.done,fun x member => (nomatch member)⟩
  | @step t rest nonnull _ ih =>
    rw [same t reached nonnull] at ih
    obtain ⟨onward,all⟩ := ih (.onward reached nonnull)
    refine ⟨.step nonnull onward,fun x member => ?_⟩
    rcases List.mem_cons.mp member with rfl | later
    · exact reached
    · exact all x later

end SimpOS.LinkedLists
