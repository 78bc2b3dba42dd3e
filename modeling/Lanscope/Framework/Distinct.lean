import Mathlib.Data.List.Dedup
import Mathlib.Tactic

/-!
# Distinct elements of a growing list

`List.dedup` keeps the last occurrence of each element and `List.eraseDups` the first, so the one
lists elements by recency and the other by first appearance. What one more element does to either.
-/

namespace Lanscope.Framework

variable {α : Type*}

/-- The newest element moves to the end. -/
theorem dedup_concat [DecidableEq α] (l : List α) (a : α) : (l ++ [a]).dedup = l.dedup.erase a ++ [a] := by
  induction l with
  | nil => simp
  | cons b l ih =>
      rw [List.cons_append]
      by_cases hb : b ∈ l
      · rw [List.dedup_cons_of_mem (List.mem_append_left _ hb), List.dedup_cons_of_mem hb, ih]
      · rw [List.dedup_cons_of_notMem hb]
        by_cases hba : b = a
        · subst b
          have hl : a ∉ l.dedup := fun h => hb (List.mem_dedup.mp h)
          rw [List.dedup_cons_of_mem (by simp), ih, List.erase_cons_head, List.erase_of_not_mem hl]
        · have hnot : b ∉ l ++ [a] := by simp [hb, hba]
          rw [List.dedup_cons_of_notMem hnot, ih, List.erase_cons_tail (by simpa using hba)]
          rfl

section FirstOccurrences

variable [BEq α] [LawfulBEq α]

private theorem eraseDups_concat (l : List α) (a : α) :
    (l ++ [a]).eraseDups = if a ∈ l then l.eraseDups else l.eraseDups ++ [a] := by
  rw [List.eraseDups_append]
  split_ifs with h <;> simp [List.removeAll, List.eraseDups_cons, h]

/-- A bounded list of distinct elements takes a new one in while there is room. -/
theorem take_eraseDups_concat (n : Nat) (l : List α) (a : α) :
    (l ++ [a]).eraseDups.take n =
      if a ∉ l.eraseDups.take n ∧ (l.eraseDups.take n).length < n then l.eraseDups.take n ++ [a]
      else l.eraseDups.take n := by
  rw [eraseDups_concat]
  by_cases hroom : l.eraseDups.length < n
  · have hall : l.eraseDups.take n = l.eraseDups := List.take_of_length_le hroom.le
    simp only [hall, List.mem_eraseDups, hroom, and_true]
    by_cases ha : a ∈ l
    · simp [ha, hall]
    · simp only [ha, if_false, not_false_eq_true, if_true]
      exact List.take_of_length_le (by simpa using hroom)
  · have hfull : ¬ (l.eraseDups.take n).length < n := by simpa using hroom
    have hrefused : ¬ (a ∉ l.eraseDups.take n ∧ (l.eraseDups.take n).length < n) :=
      fun h => hfull h.2
    rw [if_neg hrefused]
    by_cases ha : a ∈ l
    · rw [if_pos ha]
    · rw [if_neg ha]
      exact List.take_append_of_le_length (by omega)

end FirstOccurrences

/-- Entries of a list that take pairwise distinct values, as many as asked for up to the number of
values there are. -/
theorem exists_representatives {β : Type*} [DecidableEq β] (f : α → β) (l : List α) {n : Nat}
    (hn : n ≤ (l.map f).toFinset.card) :
    ∃ m : List α, m.Sublist l ∧ m.length = n ∧ (m.map f).Nodup := by
  obtain ⟨m, hm, hvalues⟩ := List.sublist_map_iff.mp (List.dedup_sublist (l.map f))
  have hlength : n ≤ m.length := by
    rw [List.card_toFinset, hvalues, List.length_map] at hn
    exact hn
  have hnodup : (m.map f).Nodup := hvalues ▸ List.nodup_dedup (l.map f)
  refine ⟨m.take n, (List.take_sublist n m).trans hm, List.length_take_of_le hlength, ?_⟩
  exact hnodup.sublist ((List.take_sublist n m).map f)

end Lanscope.Framework
