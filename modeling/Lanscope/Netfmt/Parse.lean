import Lanscope.Framework.Hex
import Lanscope.Netfmt

/-!
# What parses as a hardware address

Parsing leaves each piece to the integer parser, so it accepts every text that prints as an address
but for letter case, and beyond these the texts that only the integer parser takes.
-/

namespace Lanscope

open Framework

/-- Six groups of exactly two hexadecimal digits, separated by single colons. -/
def WellFormedMac (s : Str) : Prop :=
  (s.split ':').length = 6 ∧ ∀ piece ∈ s.split ':', piece.TwoDigits

/-- Six pieces that the integer parser takes for bytes. -/
def LenientMac (s : Str) : Prop :=
  (s.split ':').length = 6 ∧ ∀ piece ∈ s.split ':', piece.LenientHex

/-- Six items make an address. -/
theorem exists_mac {α : Type} (render : UInt8 → α) (items : List α) :
    (∃ mac : MacAddr, items = mac.toList.map render) ↔
      items.length = 6 ∧ ∀ item ∈ items, ∃ b, item = render b := by
  constructor
  · intro h
    obtain ⟨mac, rfl⟩ := h
    refine ⟨by simp, fun item hitem => ?_⟩
    obtain ⟨b, _, rfl⟩ := List.mem_map.mp hitem
    exact ⟨b, rfl⟩
  · intro h
    obtain ⟨hlength, hall⟩ := h
    match items, hlength with
    | [a, b, c, d, e, f], _ =>
      simp only [List.forall_mem_cons] at hall
      obtain ⟨⟨a, rfl⟩, ⟨b, rfl⟩, ⟨c, rfl⟩, ⟨d, rfl⟩, ⟨e, rfl⟩, ⟨f, rfl⟩, _⟩ := hall
      exact ⟨MacAddr.ofBytes a b c d e f, rfl⟩

theorem exists_parseMac_iff (s : Str) : (∃ mac, parseMac s = some mac) ↔ LenientMac s := by
  simp only [parseMac_eq_some_iff, exists_mac, List.length_map, List.forall_mem_map, LenientMac,
    ← Str.isSome_toByteRadix16_iff, Option.isSome_iff_exists]

theorem split_toAsciiLowercase (s : Str) :
    s.toAsciiLowercase.split ':' = (s.split ':').map Str.toAsciiLowercase := by
  induction s with
  | nil => rfl
  | cons c s ih =>
      have hcolon := Str.toLower_eq_iff_eq (t := ':') (by decide) c
      rw [Str.toAsciiLowercase, List.map_cons, ← Str.toAsciiLowercase, Str.split, Str.split,
        List.splitOn_cons_eq_if_modifyHead, List.splitOn_cons_eq_if_modifyHead, ← Str.split,
        ← Str.split, ih]
      by_cases hc : c = ':'
      · rw [if_pos (beq_iff_eq.mpr hc), if_pos (beq_iff_eq.mpr (hcolon.mpr hc))]
        rfl
      · rw [if_neg (beq_iff_eq.not.mpr hc), if_neg (beq_iff_eq.not.mpr (hcolon.not.mpr hc))]
        cases Str.split ':' s <;> rfl

theorem toAsciiLowercase_eq_fmtMac_iff (s : Str) (mac : MacAddr) :
    s.toAsciiLowercase = fmtMac mac ↔
      (s.split ':').map Str.toAsciiLowercase = mac.toList.map Str.ofByteHex := by
  rw [← split_toAsciiLowercase, ← split_fmtMac]
  constructor
  · exact congrArg (Str.split ':')
  · intro h
    have hjoin := congrArg (Str.join [':']) h
    simpa only [Str.join, Str.split, List.intercalate_splitOn] using hjoin

theorem exists_toAsciiLowercase_iff (s : Str) :
    (∃ mac, s.toAsciiLowercase = fmtMac mac) ↔ WellFormedMac s := by
  simp only [toAsciiLowercase_eq_fmtMac_iff, exists_mac, List.length_map, List.forall_mem_map,
    WellFormedMac, Str.twoDigits_iff]

/-- What prints as an address but for letter case is read as that address. -/
theorem parseMac_of_toAsciiLowercase {s : Str} {mac : MacAddr}
    (h : s.toAsciiLowercase = fmtMac mac) : parseMac s = some mac := by
  rw [parseMac_eq_some_iff]
  have hpieces := congrArg (List.map Str.toByteRadix16) ((toAsciiLowercase_eq_fmtMac_iff s mac).mp h)
  simpa only [List.map_map, Function.comp_def, Str.toByteRadix16_toLower,
    Str.toByteRadix16_ofByteHex] using hpieces

/-- Parsing is exact on every text but those of six pieces that the integer parser takes while not
all of them are two digits; and what prints as an address but for letter case is six groups of two
digits. -/
theorem parseMac_exact_iff (s : Str) :
    ((∀ mac, parseMac s = some mac ↔ s.toAsciiLowercase = fmtMac mac) ↔
        (LenientMac s → WellFormedMac s)) ∧
      ((∃ mac, s.toAsciiLowercase = fmtMac mac) ↔ WellFormedMac s) := by
  refine ⟨⟨fun h hlenient => ?_, fun h mac => ?_⟩, exists_toAsciiLowercase_iff s⟩
  · obtain ⟨mac, hmac⟩ := (exists_parseMac_iff s).mpr hlenient
    exact (exists_toAsciiLowercase_iff s).mp ⟨mac, (h mac).mp hmac⟩
  · refine ⟨fun hmac => ?_, parseMac_of_toAsciiLowercase⟩
    have hformed := h ((exists_parseMac_iff s).mp ⟨mac, hmac⟩)
    obtain ⟨printed, hprinted⟩ := (exists_toAsciiLowercase_iff s).mpr hformed
    have hsame := (parseMac_of_toAsciiLowercase hprinted).symm.trans hmac
    rw [Option.some.injEq] at hsame
    exact hsame ▸ hprinted

/-- A plus sign, single digits and leading zeros. -/
theorem parseMac_lenient :
    ¬ ∀ s mac, parseMac s = some mac ↔ s.toAsciiLowercase = fmtMac mac := by
  intro h
  have hparse : parseMac "+a:0:0:0:0:00b".toList = some (MacAddr.ofBytes 10 0 0 0 0 11) := by decide
  exact absurd ((h _ _).mp hparse) (by decide)

end Lanscope
