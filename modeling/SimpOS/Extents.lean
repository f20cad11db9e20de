import Mathlib.Data.List.Pairwise
import Mathlib.Tactic.Common

/-!
Extents of consecutive cells and lists of pairwise disjoint extents, as any allocator
of ranges keeps them, and the runs of cells that satisfy a predicate, as any search for
a range looks for them.
-/
namespace SimpOS.Extents

/-- The cells from `first` on, `count` of them. -/
structure Extent where
  first : Int
  count : Nat
deriving DecidableEq, Repr

instance : Membership Int Extent := ⟨fun e i => e.first ≤ i ∧ i < e.first + e.count⟩

theorem mem_def {e : Extent} {i : Int} : i ∈ e ↔ e.first ≤ i ∧ i < e.first + e.count := Iff.rfl
theorem mem_mk {first i : Int} {count : Nat} : i ∈ Extent.mk first count ↔ first ≤ i ∧ i < first + count := Iff.rfl
instance (e : Extent) (i : Int) : Decidable (i ∈ e) := inferInstanceAs (Decidable (_ ∧ _))

/-- No cell lies in both extents. -/
def Apart (a b : Extent) : Prop := ∀ i, i ∈ a → i ∉ b
/-- Some extent of the list has the cell. -/
def Covered (live : List Extent) (i : Int) : Prop := ∃ e ∈ live, i ∈ e
instance (live : List Extent) (i : Int) : Decidable (Covered live i) := inferInstanceAs (Decidable (∃ e ∈ live, i ∈ e))
/-- The n cells from a on all satisfy the predicate. -/
def AllOf (good : Int → Prop) (a : Int) (n : Nat) : Prop := ∀ i, i ∈ Extent.mk a n → good i

theorem Apart.symm {a b : Extent} (apart : Apart a b) : Apart b a := fun i inB inA => apart i inA inB
instance : Std.Symm Apart := ⟨fun _ _ => Apart.symm⟩

theorem covered_cons {e : Extent} {live : List Extent} {i : Int} :
    Covered (e :: live) i ↔ i ∈ e ∨ Covered live i := by
  simp [Covered]

theorem covered_erase {live : List Extent} (disjoint : live.Pairwise Apart) {e : Extent} (member : e ∈ live)
    (i : Int) : Covered (live.erase e) i ↔ Covered live i ∧ i ∉ e := by
  induction live with
  | nil => cases member
  | cons head tail ih =>
    have split := List.pairwise_cons.mp disjoint
    by_cases same : head = e
    · subst same
      rw [List.erase_cons_head,covered_cons]
      constructor
      · rintro ⟨other,otherMember,inOther⟩
        exact ⟨.inr ⟨other,otherMember,inOther⟩,fun inHead => split.1 other otherMember i inHead inOther⟩
      · rintro ⟨inHead | covered,outside⟩
        · exact absurd inHead outside
        · exact covered
    · have later : e ∈ tail := (List.mem_cons.mp member).resolve_left (Ne.symm same)
      rw [List.erase_cons_tail (by simp [same]),covered_cons,covered_cons,ih split.2 later]
      constructor
      · rintro (inHead | ⟨covered,outside⟩)
        · exact ⟨.inl inHead,fun inE => split.1 e later i inHead inE⟩
        · exact ⟨.inr covered,outside⟩
      · rintro ⟨inHead | covered,outside⟩
        · exact .inl inHead
        · exact .inr ⟨covered,outside⟩

/-- Erasing an item erases its image where no other item of the list shares it. -/
theorem map_erase_of_unique {α : Type} {β : Type} [DecidableEq α] [DecidableEq β] (f : α → β) (a : α) (l : List α)
    (unique : ∀ x ∈ l, f x = f a → x = a) : (l.erase a).map f = (l.map f).erase (f a) := by
  induction l with
  | nil => rfl
  | cons head tail ih =>
    by_cases same : head = a
    · simp [same]
    · have differ : f head ≠ f a := fun equal => same (unique head (by simp) equal)
      rw [List.erase_cons_tail (by simpa using same),List.map_cons,List.map_cons,
        List.erase_cons_tail (by simpa using differ),ih (fun x member => unique x (by simp [member]))]

end SimpOS.Extents
