import Lanscope.Framework.Text
import Mathlib

/-!
# Letter case

Texts compared without regard to the case of ASCII letters.
-/

namespace Lanscope.Framework.Str

/-- Only itself lowers to a character that is no letter. -/
theorem toLower_eq_iff_eq {t : Char} (ht : t.isAlpha = false) (c : Char) : c.toLower = t ↔ c = t := by
  have hupper {d : Char} (hd : d.isAlpha = false) : ¬ d.isUpper := by
    intro h
    simp [Char.isAlpha, h] at hd
  constructor
  · intro h
    have hc : c.isAlpha = false := by rw [← Char.isAlpha_toLower_eq_isAlpha, h, ht]
    rw [← h, Char.toLower_eq_of_not_isUpper (hupper hc)]
  · intro h
    rw [h, Char.toLower_eq_of_not_isUpper (hupper ht)]

private theorem toUpper_eq_iff {u : Char} (hu : u.isUpper) (c : Char) :
    c.toUpper = u ↔ c.toLower = u.toLower := by
  constructor
  · intro h
    rw [← Char.toLower_toUpper_eq_toLower, h]
  · intro h
    rw [← Char.toUpper_toLower_eq_toUpper, h, Char.toUpper_toLower_eq_toUpper,
      Char.toUpper_eq_of_not_isLower (Char.not_isLower_of_isUpper hu)]

/-- `str::eq_ignore_ascii_case`. -/
def eqIgnoreAsciiCase (s t : Str) : Bool := decide (s.toAsciiLowercase = t.toAsciiLowercase)

/-- Raising a text to a word of upper-case letters is matching the word in any case. -/
theorem toAsciiUppercase_eq_iff {word : Str} (hword : word.all Char.isUpper) (s : Str) :
    s.toAsciiUppercase = word ↔ s.eqIgnoreAsciiCase word := by
  rw [eqIgnoreAsciiCase, decide_eq_true_eq, toAsciiUppercase, toAsciiLowercase, toAsciiLowercase]
  induction s generalizing word with
  | nil => cases word <;> simp
  | cons c s ih =>
      cases word with
      | nil => simp
      | cons u word =>
          rw [List.all_cons, Bool.and_eq_true] at hword
          simp only [List.map_cons, List.cons.injEq, toUpper_eq_iff hword.1, ih hword.2]

end Lanscope.Framework.Str
