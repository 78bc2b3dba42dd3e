import Mathlib.Algebra.Order.Field.Basic
import Mathlib.Tactic

/-!
# Exponential moving averages

Each observation moves the average towards itself by a fixed factor. Averages stay between what was
observed, and the averages under all factors determine the observations and their order.
-/

namespace Lanscope.Framework

variable {K : Type*} [Field K]

/-- The average after one more observation. -/
def moveAverage (factor average x : K) : K := factor * x + (1 - factor) * average

variable {factor average x : K}

variable (factor) in
/-- How much of a difference in the first average is left after some observations. -/
theorem foldl_moveAverage_sub (l : List K) (a b : K) :
    l.foldl (moveAverage factor) a - l.foldl (moveAverage factor) b =
      (1 - factor) ^ l.length * (a - b) := by
  induction l generalizing a b with
  | nil => simp
  | cons x l ih =>
      rw [List.foldl_cons, List.foldl_cons, ih, moveAverage, moveAverage, List.length_cons]
      ring

variable [LinearOrder K] [IsStrictOrderedRing K]

theorem le_moveAverage (hpos : 0 ≤ factor) (hone : factor ≤ 1) {low : K} (ha : low ≤ average)
    (hx : low ≤ x) : low ≤ moveAverage factor average x := by
  have hrest : 0 ≤ 1 - factor := sub_nonneg.mpr hone
  calc low = factor * low + (1 - factor) * low := by rw [← add_mul, add_sub_cancel, one_mul]
    _ ≤ factor * x + (1 - factor) * average :=
        add_le_add (mul_le_mul_of_nonneg_left hx hpos) (mul_le_mul_of_nonneg_left ha hrest)

theorem moveAverage_le (hpos : 0 ≤ factor) (hone : factor ≤ 1) {high : K} (ha : average ≤ high)
    (hx : x ≤ high) : moveAverage factor average x ≤ high := by
  have hrest : 0 ≤ 1 - factor := sub_nonneg.mpr hone
  calc factor * x + (1 - factor) * average ≤ factor * high + (1 - factor) * high :=
        add_le_add (mul_le_mul_of_nonneg_left hx hpos) (mul_le_mul_of_nonneg_left ha hrest)
    _ = high := by rw [← add_mul, add_sub_cancel, one_mul]

theorem foldl_moveAverage_mem (hpos : 0 ≤ factor) (hone : factor ≤ 1) {low high : K} {l : List K}
    (hl : ∀ x ∈ l, low ≤ x ∧ x ≤ high) (ha : low ≤ average ∧ average ≤ high) :
    low ≤ l.foldl (moveAverage factor) average ∧ l.foldl (moveAverage factor) average ≤ high := by
  induction l generalizing average with
  | nil => exact ha
  | cons x l ih =>
      obtain ⟨hlow, hhigh⟩ := hl x List.mem_cons_self
      exact ih (fun y hy => hl y (List.mem_cons_of_mem _ hy))
        ⟨le_moveAverage hpos hone ha.1 hlow, moveAverage_le hpos hone ha.2 hhigh⟩

/-- Observations that give the same averages under all factors are equally many. -/
theorem length_eq_of_foldl_eq {l m : List K}
    (h : ∀ factor a : K, 0 < factor → factor < 1 →
      l.foldl (moveAverage factor) a = m.foldl (moveAverage factor) a) : l.length = m.length := by
  have hhalf : (0 : K) < 1 / 2 := one_half_pos
  have hhalf' : (1 / 2 : K) < 1 := one_half_lt_one
  have hl := foldl_moveAverage_sub (1 / 2) l 1 0
  have hm := foldl_moveAverage_sub (1 / 2) m 1 0
  rw [h _ 1 hhalf hhalf', h _ 0 hhalf hhalf', hm, sub_half, sub_zero, mul_one, mul_one] at hl
  exact (pow_right_injective₀ hhalf hhalf'.ne hl).symm

/-- A factor so close to one that the earlier observations cannot make up for the gap. -/
private theorem exists_factor {total gap : K} (htotal : 0 ≤ total) (hgap : 0 < gap) :
    ∃ factor, 0 < factor ∧ factor < 1 ∧ (1 - factor) * total < factor * gap := by
  have hnum : 0 < total + gap := add_pos_of_nonneg_of_pos htotal hgap
  have hden : 0 < total + gap + gap := add_pos hnum hgap
  have hrest : 1 - (total + gap) / (total + gap + gap) = gap / (total + gap + gap) := by
    rw [one_sub_div hden.ne', add_sub_cancel_left]
  have hless : total * gap < (total + gap) * gap :=
    mul_lt_mul_of_pos_right (lt_add_of_pos_right _ hgap) hgap
  refine ⟨(total + gap) / (total + gap + gap), div_pos hnum hden,
    (div_lt_one hden).mpr (lt_add_of_pos_right _ hgap), ?_⟩
  rw [hrest, div_mul_eq_mul_div, div_mul_eq_mul_div, mul_comm gap]
  exact div_lt_div_of_pos_right hless hden

/-- The last observation is what averages under factors close to one come close to. -/
private theorem last_le_of_foldl_eq {l m : List K} {x y : K} (hl : ∀ z ∈ l, 0 ≤ z)
    (hm : ∀ z ∈ m, 0 ≤ z)
    (h : ∀ factor a : K, 0 < factor → factor < 1 →
      (l ++ [x]).foldl (moveAverage factor) a = (m ++ [y]).foldl (moveAverage factor) a) :
    x ≤ y := by
  by_contra hlt
  have hsum : 0 ≤ m.sum := List.sum_nonneg hm
  obtain ⟨factor, hpos, hone, hsmall⟩ := exists_factor hsum (sub_pos.mpr (not_le.mp hlt))
  have hrest : 0 ≤ 1 - factor := sub_nonneg.mpr hone.le
  have heq := h factor 0 hpos hone
  rw [List.foldl_concat, List.foldl_concat, moveAverage, moveAverage] at heq
  have hstart : (0 : K) ≤ 0 ∧ 0 ≤ l.sum := ⟨le_rfl, List.sum_nonneg hl⟩
  have hstart' : (0 : K) ≤ 0 ∧ 0 ≤ m.sum := ⟨le_rfl, hsum⟩
  have hleft := (foldl_moveAverage_mem hpos.le hone.le
    (fun z hz => ⟨hl z hz, List.single_le_sum hl z hz⟩) hstart).1
  have hright := (foldl_moveAverage_mem hpos.le hone.le
    (fun z hz => ⟨hm z hz, List.single_le_sum hm z hz⟩) hstart').2
  have hbound : factor * x ≤ factor * y + (1 - factor) * m.sum :=
    calc factor * x ≤ factor * x + (1 - factor) * l.foldl (moveAverage factor) 0 :=
          le_add_of_nonneg_right (mul_nonneg hrest hleft)
      _ = factor * y + (1 - factor) * m.foldl (moveAverage factor) 0 := heq
      _ ≤ factor * y + (1 - factor) * m.sum :=
          add_le_add_right (mul_le_mul_of_nonneg_left hright hrest) _
  rw [mul_sub] at hsmall
  exact absurd hbound (not_le.mpr (lt_sub_iff_add_lt'.mp hsmall))

/-- Observations that give the same averages under all factors are the same. -/
theorem eq_of_foldl_eq {l m : List K} (hl : ∀ z ∈ l, 0 ≤ z) (hm : ∀ z ∈ m, 0 ≤ z)
    (h : ∀ factor a : K, 0 < factor → factor < 1 →
      l.foldl (moveAverage factor) a = m.foldl (moveAverage factor) a) : l = m := by
  have hlength := length_eq_of_foldl_eq h
  induction l using List.reverseRecOn generalizing m with
  | nil => exact (List.length_eq_zero_iff.mp hlength.symm).symm
  | append_singleton l x ih =>
      rcases m.eq_nil_or_concat' with rfl | ⟨m, y, rfl⟩
      · simp at hlength
      have hl' : ∀ z ∈ l, 0 ≤ z := fun z hz => hl z (List.mem_append_left _ hz)
      have hm' : ∀ z ∈ m, 0 ≤ z := fun z hz => hm z (List.mem_append_left _ hz)
      have hlast : x = y := le_antisymm (last_le_of_foldl_eq hl' hm' h)
        (last_le_of_foldl_eq hm' hl' fun factor a hpos hone => (h factor a hpos hone).symm)
      subst y
      congr 1
      refine ih hl' hm' (fun factor a hpos hone => ?_) (by simpa using hlength)
      have heq := h factor a hpos hone
      rw [List.foldl_concat, List.foldl_concat, moveAverage, moveAverage] at heq
      exact mul_left_cancel₀ (sub_pos.mpr hone).ne' (add_left_cancel heq)

end Lanscope.Framework
