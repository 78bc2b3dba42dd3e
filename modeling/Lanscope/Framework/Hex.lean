import Lanscope.Framework.Letters

/-!
# Hexadecimal bytes

Which texts the integer parser of the Rust standard library takes for a byte in base 16. It is more
lenient than the format `02x` prints: it takes either case, a plus sign, one digit and any number of
leading zeros.
-/

namespace Lanscope.Framework.Str

def hexDigitsAnyCase : Str := "0123456789abcdefABCDEF".toList

/-! ## Digits -/

theorem mem_of_range {first last c : Char} {s : Str}
    (hs : ∀ k ∈ List.range (last.toNat + 1 - first.toNat), Char.ofNat (first.toNat + k) ∈ s)
    (h : first ≤ c ∧ c ≤ last) : c ∈ s := by
  have hfrom : first.toNat ≤ c.toNat := UInt32.le_iff_toNat_le.mp h.1
  have hto : c.toNat ≤ last.toNat := UInt32.le_iff_toNat_le.mp h.2
  have hmem := hs (c.toNat - first.toNat) (List.mem_range.mpr (by omega))
  rw [Nat.add_sub_cancel' hfrom, Char.ofNat_toNat] at hmem
  exact hmem

theorem hexDigit_eq_none {c : Char} (h : c ∉ hexDigitsAnyCase) : hexDigit c = none := by
  unfold hexDigit
  rw [if_neg fun hc => h (mem_of_range (by decide +kernel) hc),
    if_neg fun hc => h (mem_of_range (by decide +kernel) hc),
    if_neg fun hc => h (mem_of_range (by decide +kernel) hc)]

theorem hexDigit_of_mem : ∀ c ∈ hexDigitsAnyCase, ∃ d < 16, hexDigit c = some d ∧
    (d = 0 → c = '0') ∧ c.toLower = Nat.digitChar d :=
  forall_mem_of_all (by decide +kernel)

theorem mem_of_hexDigit {c : Char} {d : Nat} (h : hexDigit c = some d) : c ∈ hexDigitsAnyCase := by
  by_contra hc
  rw [hexDigit_eq_none hc] at h
  exact absurd h.symm (Option.some_ne_none d)

def upperLetters : Str := "ABCDEFGHIJKLMNOPQRSTUVWXYZ".toList

theorem hexDigit_toLower (c : Char) : hexDigit c.toLower = hexDigit c := by
  by_cases hc : c.isUpper
  · have hmem : c ∈ upperLetters := by
      have hrange : 'A' ≤ c ∧ c ≤ 'Z' := by
        simp only [Char.isUpper, decide_eq_true_eq] at hc
        exact hc
      exact mem_of_range (by decide +kernel) hrange
    have hall : ∀ c ∈ upperLetters, hexDigit c.toLower = hexDigit c :=
      forall_mem_of_all (by decide +kernel)
    exact hall c hmem
  · rw [Char.toLower_eq_of_not_isUpper hc]

/-! ## Bytes -/

theorem hexByte_toLower (acc : Nat) (s : Str) : hexByte acc s.toAsciiLowercase = hexByte acc s := by
  induction s generalizing acc with
  | nil => rfl
  | cons c s ih =>
      rw [toAsciiLowercase, List.map_cons, ← toAsciiLowercase, hexByte, hexByte, hexDigit_toLower]
      simp only [ih]

/-- Without a plus sign in front. -/
def unsigned : Str → Str
  | '+' :: s => s
  | s => s

theorem unsigned_of_head {s : Str} (h : s.head? ≠ some '+') : unsigned s = s := by
  unfold unsigned
  split
  · exact absurd rfl h
  · rfl

theorem toByteRadix16_eq (s : Str) : toByteRadix16 s =
    if unsigned s = [] then none else (hexByte 0 (unsigned s)).map UInt8.ofNat := by
  unfold toByteRadix16
  split
  · rfl
  · rfl
  · next cs hne =>
    have hcs : cs ≠ [] := by
      rintro rfl
      exact hne rfl
    exact (if_neg hcs).symm
  · next cs hempty hsign hplus =>
    have hhead : s.head? ≠ some '+' := by
      intro h
      obtain ⟨tail, htail⟩ := List.head?_eq_some_iff.mp h
      exact hplus tail htail
    rw [unsigned_of_head hhead]
    exact (if_neg hempty).symm

/-- The value so far is in its second digit, so that one more digit is too many. -/
theorem isSome_hexByte_full {acc : Nat} (hacc : 16 ≤ acc) (s : Str) :
    (hexByte acc s).isSome ↔ s = [] := by
  cases s with
  | nil => simp [hexByte]
  | cons c s =>
      have hbig (d : Nat) : ¬ acc * 16 + d < 256 := by omega
      cases hd : hexDigit c <;> simp [hexByte, hd, hbig]

theorem isSome_hexByte_started {acc : Nat} (hacc : 0 < acc) (hlt : acc < 16) (s : Str) :
    (hexByte acc s).isSome ↔ s.length ≤ 1 ∧ ∀ c ∈ s, c ∈ hexDigitsAnyCase := by
  cases s with
  | nil => simp [hexByte]
  | cons c s =>
      by_cases hc : c ∈ hexDigitsAnyCase
      · obtain ⟨d, hd, hdigit, _⟩ := hexDigit_of_mem c hc
        have hfit : acc * 16 + d < 256 := by omega
        have hfull : 16 ≤ acc * 16 + d := by omega
        simp only [hexByte, hdigit, Option.bind_eq_bind, Option.bind_some, hfit, if_true,
          isSome_hexByte_full hfull]
        cases s <;> simp [hc]
      · simp [hexByte, hexDigit_eq_none hc, hc]

/-- Zeros, and at most two digits after them. -/
def Numeral (s : Str) : Prop := ∃ (n : Nat) (digits : Str), s = List.replicate n '0' ++ digits ∧
  digits.length ≤ 2 ∧ ∀ c ∈ digits, c ∈ hexDigitsAnyCase

theorem numeral_zero_iff (s : Str) : Numeral ('0' :: s) ↔ Numeral s := by
  constructor
  · intro h
    obtain ⟨n, digits, hs, hlen, hhex⟩ := h
    cases n with
    | zero =>
        obtain rfl : '0' :: s = digits := hs
        rw [List.length_cons] at hlen
        exact ⟨0, s, rfl, by omega, fun c hc => hhex c (List.mem_cons_of_mem _ hc)⟩
    | succ n =>
        rw [List.replicate_succ, List.cons_append, List.cons.injEq] at hs
        exact ⟨n, digits, hs.2, hlen, hhex⟩
  · intro h
    obtain ⟨n, digits, rfl, hdigits⟩ := h
    exact ⟨n + 1, digits, rfl, hdigits⟩

theorem numeral_cons_iff {c : Char} (hzero : c ≠ '0') (s : Str) : Numeral (c :: s) ↔
    c ∈ hexDigitsAnyCase ∧ s.length ≤ 1 ∧ ∀ c ∈ s, c ∈ hexDigitsAnyCase := by
  constructor
  · intro h
    obtain ⟨n, digits, hs, hlen, hhex⟩ := h
    cases n with
    | zero =>
        obtain rfl : c :: s = digits := hs
        rw [List.length_cons] at hlen
        rw [List.forall_mem_cons] at hhex
        exact ⟨hhex.1, by omega, hhex.2⟩
    | succ n =>
        rw [List.replicate_succ, List.cons_append, List.cons.injEq] at hs
        exact absurd hs.1 hzero
  · intro h
    refine ⟨0, c :: s, rfl, ?_, List.forall_mem_cons.mpr ⟨h.1, h.2.2⟩⟩
    rw [List.length_cons]
    omega

theorem isSome_hexByte_iff (s : Str) : (hexByte 0 s).isSome ↔ Numeral s := by
  induction s with
  | nil => exact ⟨fun _ => ⟨0, [], rfl, by simp, by simp⟩, fun _ => rfl⟩
  | cons c s ih =>
      by_cases hzero : c = '0'
      · subst c
        rw [numeral_zero_iff, ← ih]
        rfl
      · rw [numeral_cons_iff hzero]
        by_cases hc : c ∈ hexDigitsAnyCase
        · obtain ⟨d, hd, hdigit, hne, _⟩ := hexDigit_of_mem c hc
          have hpos : 0 < d := Nat.pos_of_ne_zero fun h => hzero (hne h)
          have hfit : d < 256 := by omega
          simp only [hexByte, hdigit, Option.bind_eq_bind, Option.bind_some, Nat.zero_mul,
            Nat.zero_add, hfit, if_true, isSome_hexByte_started hpos hd, hc, true_and]
        · simp [hexByte, hexDigit_eq_none hc, hc]

/-- An optional plus sign, zeros, and at most two digits, with a digit in all. -/
def LenientHex (s : Str) : Prop := unsigned s ≠ [] ∧ Numeral (unsigned s)

theorem isSome_toByteRadix16_iff (s : Str) : (toByteRadix16 s).isSome ↔ LenientHex s := by
  rw [toByteRadix16_eq, LenientHex, ← isSome_hexByte_iff]
  by_cases h : unsigned s = [] <;> simp [h]

theorem toByteRadix16_toLower (s : Str) : toByteRadix16 s.toAsciiLowercase = toByteRadix16 s := by
  have hunsigned : unsigned s.toAsciiLowercase = (unsigned s).toAsciiLowercase := by
    cases s with
    | nil => rfl
    | cons c s =>
        by_cases hc : c = '+'
        · subst c
          rfl
        · have hplus := toLower_eq_iff_eq (t := '+') (by decide) c
          have hlower : c.toLower ≠ '+' := hplus.not.mpr hc
          rw [unsigned_of_head (s := c :: s) (by simpa using hc)]
          exact unsigned_of_head (by simpa [toAsciiLowercase] using hlower)
  rw [toByteRadix16_eq, toByteRadix16_eq, hunsigned, hexByte_toLower]
  cases unsigned s <;> rfl

/-- Exactly two digits, of either case. -/
def TwoDigits (s : Str) : Prop := s.length = 2 ∧ ∀ c ∈ s, c ∈ hexDigitsAnyCase

theorem twoDigits_iff (s : Str) : TwoDigits s ↔ ∃ b, s.toAsciiLowercase = ofByteHex b := by
  constructor
  · intro h
    obtain ⟨hlen, hhex⟩ := h
    obtain ⟨c, d, rfl⟩ := List.length_eq_two.mp hlen
    obtain ⟨x, hx, _, _, hc⟩ := hexDigit_of_mem c (hhex c (by simp))
    obtain ⟨y, hy, _, _, hd⟩ := hexDigit_of_mem d (hhex d (by simp))
    have hbyte : (UInt8.ofNat (x * 16 + y)).toNat = x * 16 + y :=
      UInt8.toNat_ofNat_of_lt' (show x * 16 + y < 256 by omega)
    refine ⟨UInt8.ofNat (x * 16 + y), ?_⟩
    rw [ofByteHex, hbyte, show (x * 16 + y) / 16 = x by omega, show (x * 16 + y) % 16 = y by omega,
      ← hc, ← hd]
    rfl
  · intro h
    obtain ⟨b, hb⟩ := h
    constructor
    · have hlen := congrArg List.length hb
      simpa [toAsciiLowercase, ofByteHex] using hlen
    · intro c hc
      have hdigits : ∀ t ∈ hexDigits, t ∈ hexDigitsAnyCase := forall_mem_of_all (by decide)
      have hlower : c.toLower ∈ ofByteHex b := hb ▸ List.mem_map_of_mem hc
      obtain ⟨d, _, hd, _⟩ := hexDigit_of_mem _ (hdigits _ (ofByteHex_subset b hlower))
      rw [hexDigit_toLower] at hd
      exact mem_of_hexDigit hd

end Lanscope.Framework.Str
