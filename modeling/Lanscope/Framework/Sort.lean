import Mathlib.Data.List.Sort
import Mathlib.Tactic

/-!
# Sorted lists

Sorting with ties. What a stable sort makes of equal keys depends on its input; the order of the
keys does not.
-/

namespace Lanscope.Framework

section Sorting

variable {α β : Type*}

/-- A sorted block that may come before everything else does so. -/
theorem insertionSort_eq_append {r : α → α → Prop} [DecidableRel r] [Std.Total r] [IsTrans α r]
    {l front rest : List α} (hperm : l.Perm (front ++ rest))
    (hanti : ∀ a ∈ l, ∀ b ∈ l, r a b → r b a → a = b) (hfront : front.Pairwise r)
    (hrest : ∀ a ∈ front, ∀ b ∈ rest, r a b) :
    l.insertionSort r = front ++ rest.insertionSort r := by
  have hsort : (front ++ rest).Perm (front ++ rest.insertionSort r) :=
    (List.perm_insertionSort r rest).symm.append_left front
  refine List.Perm.eq_of_pairwise (fun a b ha hb => ?_) (List.pairwise_insertionSort r l)
    ?_ ((List.perm_insertionSort r l).trans (hperm.trans hsort))
  · exact hanti a ((List.mem_insertionSort r).mp ha) b ((hperm.trans hsort).mem_iff.mpr hb)
  · refine List.pairwise_append.mpr ⟨hfront, List.pairwise_insertionSort r rest, fun a ha b hb => ?_⟩
    exact hrest a ha b ((List.mem_insertionSort r).mp hb)

variable [LinearOrder β]

/-- Stable sorting by a key, greatest first. -/
def sortByDesc (key : α → β) (l : List α) : List α := l.insertionSort fun a b => key b ≤ key a

theorem perm_sortByDesc (key : α → β) (l : List α) : (sortByDesc key l).Perm l :=
  List.perm_insertionSort _ l

theorem pairwise_sortByDesc (key : α → β) (l : List α) :
    (sortByDesc key l).Pairwise fun a b => key b ≤ key a := by
  have : Std.Total fun a b : α => key b ≤ key a := ⟨fun a b => le_total _ _⟩
  have : IsTrans α fun a b : α => key b ≤ key a := ⟨fun _ _ _ hab hbc => hbc.trans hab⟩
  exact List.pairwise_insertionSort _ l

/-- Two lists with the same elements have the same keys in order, whatever becomes of ties. -/
theorem map_sortByDesc_of_perm (key : α → β) {l l' : List α} (h : l.Perm l') :
    (sortByDesc key l).map key = (sortByDesc key l').map key := by
  have hsorted (l : List α) : ((sortByDesc key l).map key).Pairwise fun a b => b ≤ a :=
    List.pairwise_map.mpr (pairwise_sortByDesc key l)
  refine List.Perm.eq_of_pairwise (fun a b _ _ => ?_) (hsorted l) (hsorted l') ?_
  · exact fun hab hba => le_antisymm hba hab
  · exact ((perm_sortByDesc key l).trans (h.trans (perm_sortByDesc key l').symm)).map key

end Sorting

end Lanscope.Framework
