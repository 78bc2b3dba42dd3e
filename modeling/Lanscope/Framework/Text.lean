import Mathlib.Data.List.DropRight
import Mathlib.Tactic

/-!
# Text as lists of characters

String operations of the Rust standard library, each under its name there, over lists of Unicode
scalar values. A `char` of Rust is a `Char` here, and a string slice is a list, so that slicing
never leaves a character boundary.
-/

namespace Lanscope.Framework

section Search

variable {α : Type}

/-- What holds no separator lies before it or after it. -/
theorem infix_append_cons_iff {needle a b : List α} {sep : α} (hsep : sep ∉ needle) :
    needle <:+: a ++ sep :: b ↔ needle <:+: a ∨ needle <:+: b := by
  constructor
  · rintro ⟨pre, post, h⟩
    rw [List.append_assoc, List.append_eq_append_iff] at h
    rcases h with ⟨d, ha, hrest⟩ | ⟨d, hpre, hrest⟩
    · rw [List.append_eq_append_iff] at hrest
      rcases hrest with ⟨e, hd, _⟩ | ⟨e, hneedle, htail⟩
      · exact Or.inl ⟨pre, e, by rw [ha, hd, List.append_assoc]⟩
      · cases e with
        | nil =>
            refine Or.inl ⟨pre, [], ?_⟩
            rw [hneedle, ha, List.append_nil, List.append_nil]
        | cons c e =>
            obtain rfl := (List.cons.inj htail).1
            exact absurd (hneedle ▸ List.mem_append_right d List.mem_cons_self) hsep
    · cases d with
      | nil =>
          rw [List.nil_append] at hrest
          cases needle with
          | nil => exact Or.inl (List.nil_infix)
          | cons c needle =>
              obtain rfl := (List.cons.inj hrest).1
              exact absurd List.mem_cons_self hsep
      | cons c d =>
          refine Or.inr ⟨d, post, ?_⟩
          rw [List.append_assoc]
          exact ((List.cons.inj hrest).2).symm
  · rintro (h | h)
    · exact h.trans (List.prefix_append _ _).isInfix
    · exact h.trans ((List.suffix_cons sep b).trans (List.suffix_append _ _)).isInfix

/-- A needle in texts that are each closed by a separator lies in one of them. -/
theorem infix_flatMap_iff {needle : List α} {sep : α} (hne : needle ≠ []) (hsep : sep ∉ needle)
    (texts : List (List α)) : needle <:+: texts.flatMap (fun t => t ++ [sep]) ↔
      ∃ t ∈ texts, needle <:+: t := by
  induction texts with
  | nil => simp [hne]
  | cons t texts ih =>
      rw [List.flatMap_cons, List.append_assoc, List.singleton_append,
        infix_append_cons_iff hsep, ih, List.exists_mem_cons_iff]

/-- A suffix of two texts is one of the second, or starts within the first. -/
theorem suffix_append_cases {rest a b : List α} (h : rest <:+ a ++ b) :
    rest <:+ b ∨ ∃ c u, c :: u <:+ a ∧ rest = (c :: u) ++ b := by
  induction a with
  | nil => exact Or.inl h
  | cons c a ih =>
      cases List.suffix_cons_iff.mp h with
      | inl hall => exact Or.inr ⟨c, a, List.suffix_refl _, hall⟩
      | inr hrest =>
          cases ih hrest with
          | inl hb => exact Or.inl hb
          | inr hu =>
              obtain ⟨d, u, hsuffix, heq⟩ := hu
              exact Or.inr ⟨d, u, hsuffix.trans (List.suffix_cons c a), heq⟩

end Search

/-- A string: its characters in order. -/
abbrev Str := List Char

namespace Str

instance decidableMem (s : Str) (l : List Str) : Decidable (s ∈ l) :=
  inferInstanceAs (Decidable (@Membership.mem (List Char) (List (List Char)) _ l s))

/-- `char::is_whitespace`, the Unicode property `White_Space`. -/
def isWhitespace (c : Char) : Bool :=
  let n := c.toNat
  (0x09 ≤ n && n ≤ 0x0D) || n == 0x20 || n == 0x85 || n == 0xA0 || n == 0x1680 ||
    (0x2000 ≤ n && n ≤ 0x200A) || n == 0x2028 || n == 0x2029 || n == 0x202F ||
    n == 0x205F || n == 0x3000

/-- `str::trim_matches`: drop the characters satisfying `p` from both ends. -/
def trimMatches (p : Char → Bool) (s : Str) : Str := (s.dropWhile p).rdropWhile p

def trim (s : Str) : Str := s.trimMatches isWhitespace

/-- Neither the first nor the last character satisfies `p`. -/
def Bare (p : Char → Bool) (s : Str) : Prop :=
  (∀ c, s.head? = some c → ¬ p c) ∧ ∀ c, s.getLast? = some c → ¬ p c

theorem Bare.imp {p q : Char → Bool} (hpq : ∀ c, q c → p c) {s : Str} (h : Bare p s) : Bare q s :=
  ⟨fun c hc hq => h.1 c hc (hpq c hq), fun c hc hq => h.2 c hc (hpq c hq)⟩

theorem bare_trimMatches (p : Char → Bool) (s : Str) : Bare p (s.trimMatches p) := by
  constructor
  · intro c hc
    obtain ⟨rest, hrest⟩ := List.rdropWhile_prefix p (s.dropWhile p)
    have hhead : (s.dropWhile p).head? = some c := by
      rw [← hrest, List.head?_append, show (List.rdropWhile p (s.dropWhile p)).head? = some c from hc]
      rfl
    have hnot := List.head?_dropWhile_not p s
    rw [hhead] at hnot
    simpa using hnot
  · intro c hc
    have hne : s.trimMatches p ≠ [] := List.ne_nil_of_mem (List.mem_of_getLast? hc)
    rw [List.getLast?_eq_some_getLast hne, Option.some.injEq] at hc
    exact hc ▸ List.rdropWhile_last_not p _ hne

theorem trimMatches_of_bare {p : Char → Bool} {s : Str} (h : Bare p s) : s.trimMatches p = s := by
  have hfront : s.dropWhile p = s := by
    cases s with
    | nil => rfl
    | cons c s => exact List.dropWhile_cons_of_neg (h.1 c rfl)
  rw [trimMatches, hfront, List.rdropWhile_eq_self_iff]
  intro hne
  exact h.2 _ (List.getLast?_eq_some_getLast hne)

/-- What `p` does not hold of may stand around a bare text. -/
theorem bare_append {p : Char → Bool} {front core back : Str} (hfront : ∀ c ∈ front, ¬ p c)
    (hcore : Bare p core) (hback : ∀ c ∈ back, ¬ p c) : Bare p (front ++ core ++ back) := by
  constructor
  · intro c hc
    simp only [List.head?_append, Option.or_eq_some_iff] at hc
    rcases hc with (hc | ⟨_, hc⟩) | ⟨_, hc⟩
    · exact hfront c (List.mem_of_mem_head? hc)
    · exact hcore.1 c hc
    · exact hback c (List.mem_of_mem_head? hc)
  · intro c hc
    simp only [List.getLast?_append, Option.or_eq_some_iff] at hc
    rcases hc with hc | ⟨_, hc | ⟨_, hc⟩⟩
    · exact hback c (List.mem_of_getLast? hc)
    · exact hcore.2 c hc
    · exact hfront c (List.mem_of_getLast? hc)

/-- A text is its trimmed core with what was trimmed around it. -/
theorem exists_trimMatches (p : Char → Bool) (s : Str) : ∃ front back,
    s = front ++ s.trimMatches p ++ back ∧ (∀ c ∈ front, p c) ∧ ∀ c ∈ back, p c := by
  refine ⟨s.takeWhile p, (s.dropWhile p).rtakeWhile p, ?_, ?_, ?_⟩
  · rw [List.append_assoc, trimMatches, List.rdropWhile_append_rtakeWhile,
      List.takeWhile_append_dropWhile]
  · exact fun c hc => List.mem_takeWhile_imp hc
  · exact fun c hc => List.mem_rtakeWhile_imp hc

/-- A first character that is not trimmed stays the first. -/
theorem trimMatches_cons_of_not {p : Char → Bool} {c : Char} (hc : ¬ p c) (s : Str) :
    ∃ rest, trimMatches p (c :: s) = c :: rest := by
  obtain ⟨front, back, hsplit, hfront, hback⟩ := exists_trimMatches p (c :: s)
  cases front with
  | cons d front =>
      have hd : p d := hfront d List.mem_cons_self
      rw [List.cons_append, List.cons_append, List.cons.injEq] at hsplit
      exact absurd (hsplit.1 ▸ hd) hc
  | nil =>
      rw [List.nil_append] at hsplit
      cases hcore : trimMatches p (c :: s) with
      | nil =>
          rw [hcore, List.nil_append] at hsplit
          exact absurd (hback c (hsplit ▸ List.mem_cons_self)) hc
      | cons d core =>
          rw [hcore, List.cons_append, List.cons.injEq] at hsplit
          exact ⟨core, by rw [hsplit.1]⟩

theorem trimMatches_infix (p : Char → Bool) (s : Str) : s.trimMatches p <:+: s := by
  obtain ⟨front, back, hsplit, _⟩ := exists_trimMatches p s
  exact ⟨front, back, hsplit.symm⟩

private theorem rdropWhile_append_of_pos {p : Char → Bool} {back : Str} (hback : ∀ c ∈ back, p c)
    (s : Str) : (s ++ back).rdropWhile p = s.rdropWhile p := by
  rw [List.rdropWhile, List.rdropWhile, List.reverse_append, List.dropWhile_append_of_pos]
  exact fun c hc => hback c (List.mem_reverse.mp hc)

/-- What may be trimmed around a text makes no difference to its core. -/
theorem trimMatches_append {p : Char → Bool} {front back : Str} (hfront : ∀ c ∈ front, p c)
    (hback : ∀ c ∈ back, p c) (s : Str) :
    (front ++ s ++ back).trimMatches p = s.trimMatches p := by
  have hdrop : (front ++ s ++ back).dropWhile p =
      if s.dropWhile p = [] then [] else s.dropWhile p ++ back := by
    rw [List.append_assoc, List.dropWhile_append_of_pos hfront, List.dropWhile_append]
    simp only [List.isEmpty_iff, List.dropWhile_eq_nil_iff.mpr hback]
  rw [trimMatches, trimMatches, hdrop]
  split_ifs with h
  · rw [h]
  · exact rdropWhile_append_of_pos hback _

def contains (s needle : Str) : Bool := decide (needle <:+: s)

def stripSuffix (s suffix : Str) : Option Str :=
  if suffix <:+ s then some (s.take (s.length - suffix.length)) else none

theorem stripSuffix_eq_some_iff (s suffix t : Str) :
    s.stripSuffix suffix = some t ↔ s = t ++ suffix := by
  unfold stripSuffix
  constructor
  · intro h
    obtain ⟨⟨before, rfl⟩, ht⟩ := Option.ite_none_right_eq_some.mp h
    rw [List.length_append, Nat.add_sub_cancel, List.take_left, Option.some.injEq] at ht
    rw [ht]
  · rintro rfl
    rw [if_pos (List.suffix_append t suffix), List.length_append, Nat.add_sub_cancel, List.take_left]

/-- `str::split_once` for a character: the text before its first occurrence and after it. -/
def splitOnce (sep : Char) : Str → Option (Str × Str)
  | [] => none
  | c :: cs =>
    if c = sep then some ([], cs)
    else (splitOnce sep cs).map fun kv => (c :: kv.1, kv.2)

theorem splitOnce_eq_none {sep : Char} {s : Str} (h : sep ∉ s) : splitOnce sep s = none := by
  induction s with
  | nil => rfl
  | cons c s ih =>
      rw [List.mem_cons, not_or] at h
      rw [splitOnce, if_neg (Ne.symm h.1), ih h.2, Option.map_none]

theorem splitOnce_append {sep : Char} {key : Str} (h : sep ∉ key) (value : Str) :
    splitOnce sep (key ++ sep :: value) = some (key, value) := by
  induction key with
  | nil => simp [splitOnce]
  | cons c key ih =>
      rw [List.mem_cons, not_or] at h
      rw [List.cons_append, splitOnce, if_neg (Ne.symm h.1), ih h.2, Option.map_some]

/-- `str::split` for a character, which yields one more piece than there are separators. -/
def split (sep : Char) (s : Str) : List Str := s.splitOn sep

def join (sep : Str) (parts : List Str) : Str := sep.intercalate parts

/-- A property of the characters of a text, checked one by one. -/
theorem forall_mem_of_all {P : Char → Prop} [DecidablePred P] {s : Str}
    (h : s.all fun c => decide (P c)) : ∀ c ∈ s, P c := by
  simpa using h

/-- What every character of the parts and of the separator has, every character of the whole has. -/
theorem forall_mem_join {P : Char → Prop} {sep : Str} (hsep : ∀ c ∈ sep, P c) {parts : List Str}
    (hparts : ∀ p ∈ parts, ∀ c ∈ p, P c) : ∀ c ∈ join sep parts, P c := by
  induction parts with
  | nil => exact fun c hc => absurd hc (by simp [join])
  | cons p parts ih =>
      cases parts with
      | nil => simpa [join] using hparts p List.mem_cons_self
      | cons q parts =>
          intro c hc
          rw [join, List.intercalate_cons_cons, List.mem_append, List.mem_append] at hc
          rcases hc with (hc | hc) | hc
          · exact hparts p List.mem_cons_self c hc
          · exact hsep c hc
          · exact ih (fun r hr => hparts r (List.mem_cons_of_mem p hr)) c hc

private def stripCarriageReturn (s : Str) : Str := (s.stripSuffix ['\r']).getD s

/-- `str::lines`: split at line feeds, a carriage return right before one belonging to it. An
unterminated last line keeps its carriage return, and a last line feed opens no further line. -/
def lines (s : Str) : List Str :=
  let pieces := s.splitOn '\n'
  pieces.dropLast.map stripCarriageReturn ++ (pieces.getLast?.toList.filter fun l => l ≠ [])

private theorem lines_lineFeed (s rest : Str) : lines (s ++ '\n' :: rest) =
    (s.splitOn '\n').map stripCarriageReturn ++ lines rest := by
  have hrest : rest.splitOn '\n' ≠ [] := List.splitOn_ne_nil _ _
  simp only [lines, List.splitOn_append_cons_self, List.dropLast_append_of_ne_nil hrest,
    List.map_append, List.getLast?_append_of_ne_nil _ hrest, List.append_assoc]

/-- A carriage return and a line feed end a line. -/
theorem lines_crlf {line : Str} (h : '\n' ∉ line) (rest : Str) :
    lines (line ++ '\r' :: '\n' :: rest) = line :: lines rest := by
  have hpiece : '\n' ∉ line ++ ['\r'] := by simpa using h
  have hstrip : stripCarriageReturn (line ++ ['\r']) = line := by
    rw [stripCarriageReturn, (stripSuffix_eq_some_iff _ _ line).mpr rfl, Option.getD_some]
  rw [List.append_cons, lines_lineFeed, List.splitOn_eq_singleton hpiece, List.map_singleton, hstrip,
    List.singleton_append]

/-- The first line starts as the text does. -/
theorem lines_cons {c : Char} (hfeed : c ≠ '\n') (hreturn : c ≠ '\r') (s : Str) :
    ∃ line, lines (c :: s) = (c :: line) :: (lines (c :: s)).tail := by
  by_cases h : '\n' ∈ s
  · obtain ⟨t, rest, rfl, ht⟩ := List.eq_append_cons_of_mem h
    have hpiece : '\n' ∉ c :: t := by simp [hfeed.symm, ht]
    have hstrip : ∃ line, stripCarriageReturn (c :: t) = c :: line := by
      unfold stripCarriageReturn
      cases hsuffix : stripSuffix (c :: t) ['\r'] with
      | none => exact ⟨t, rfl⟩
      | some u =>
          have hu := (stripSuffix_eq_some_iff _ _ u).mp hsuffix
          cases u with
          | nil => exact absurd (List.cons.inj hu).1 hreturn
          | cons d u => exact ⟨u, by rw [Option.getD_some, (List.cons.inj hu).1]⟩
    obtain ⟨line, hline⟩ := hstrip
    refine ⟨line, ?_⟩
    rw [← List.cons_append, lines_lineFeed, List.splitOn_eq_singleton hpiece, List.map_singleton,
      hline, List.singleton_append, List.tail_cons]
  · have hpiece : '\n' ∉ c :: s := by simp [hfeed.symm, h]
    refine ⟨s, ?_⟩
    simp [lines, List.splitOn_eq_singleton hpiece]

/-- The lines of a text that a line feed ends. -/
def finishedLines (s : Str) : List Str := (s.splitOn '\n').dropLast.map stripCarriageReturn

/-- What follows the last line feed. -/
def unfinishedLine (s : Str) : Str := (s.splitOn '\n').getLastD []

theorem lines_eq (s : Str) :
    s.lines = s.finishedLines ++ [s.unfinishedLine].filter fun line => line ≠ [] := by
  have hlast : (s.splitOn '\n').getLast? = some s.unfinishedLine := by
    rw [unfinishedLine, List.getLastD_eq_getLast?, List.getLast?_eq_some_getLast
      (List.splitOn_ne_nil _ _), Option.getD_some]
  rw [lines, hlast, Option.toList_some, finishedLines]

theorem mem_lines {s line : Str} :
    line ∈ s.lines ↔ line ∈ s.finishedLines ∨ (line ≠ [] ∧ line = s.unfinishedLine) := by
  rw [lines_eq]
  simp only [List.mem_append, List.mem_filter, List.mem_singleton, decide_eq_true_eq]
  exact or_congr_right and_comm

private theorem eq_append_lineFeed_of_mem {s : Str} (h : '\n' ∈ s) :
    ∃ t rest, s = t ++ '\n' :: rest ∧ '\n' ∉ rest := by
  induction s with
  | nil => exact absurd h List.not_mem_nil
  | cons c s ih =>
      by_cases hs : '\n' ∈ s
      · obtain ⟨t, rest, rfl, hrest⟩ := ih hs
        exact ⟨c :: t, rest, rfl, hrest⟩
      · obtain rfl := (List.mem_cons.mp h).resolve_right hs
        exact ⟨[], s, rfl, hs⟩

private theorem finishedLines_of_notMem {s : Str} (h : '\n' ∉ s) : finishedLines s = [] := by
  rw [finishedLines, List.splitOn_eq_singleton h]
  rfl

private theorem finishedLines_lineFeed (s rest : Str) : finishedLines (s ++ '\n' :: rest) =
    (s.splitOn '\n').map stripCarriageReturn ++ finishedLines rest := by
  rw [finishedLines, List.splitOn_append_cons_self,
    List.dropLast_append_of_ne_nil (List.splitOn_ne_nil _ _), List.map_append, ← finishedLines]

/-- What is appended to a text leaves its finished lines alone. -/
theorem finishedLines_append_prefix (s t : Str) : finishedLines s <+: finishedLines (s ++ t) := by
  by_cases h : '\n' ∈ s
  · obtain ⟨u, rest, rfl, hrest⟩ := eq_append_lineFeed_of_mem h
    rw [List.append_assoc, List.cons_append, finishedLines_lineFeed, finishedLines_lineFeed,
      finishedLines_of_notMem hrest, List.append_nil]
    exact List.prefix_append _ _
  · rw [finishedLines_of_notMem h]
    exact List.nil_prefix

theorem finishedLines_append_of_notMem (s : Str) {t : Str} (ht : '\n' ∉ t) :
    finishedLines (s ++ t) = finishedLines s := by
  by_cases h : '\n' ∈ s
  · obtain ⟨u, rest, rfl, hrest⟩ := eq_append_lineFeed_of_mem h
    have hboth : '\n' ∉ rest ++ t := fun hmem => (List.mem_append.mp hmem).elim hrest ht
    rw [List.append_assoc, List.cons_append, finishedLines_lineFeed, finishedLines_lineFeed,
      finishedLines_of_notMem hrest, finishedLines_of_notMem hboth]
  · have hboth : '\n' ∉ s ++ t := fun hmem => (List.mem_append.mp hmem).elim h ht
    rw [finishedLines_of_notMem h, finishedLines_of_notMem hboth]

def toAsciiUppercase (s : Str) : Str := s.map Char.toUpper

def toAsciiLowercase (s : Str) : Str := s.map Char.toLower

/-- Only an upper-case letter lowers to another character, its own lower-case form. -/
theorem toLower_eq_iff (c : Char) {upper lower : Char} (hupper : 'A' ≤ upper ∧ upper ≤ 'Z')
    (hlower : lower.toNat = upper.toNat + 32) : c.toLower = lower ↔ c = upper ∨ c = lower := by
  have hval (a b : Char) : a = b ↔ a.val.toNat = b.val.toNat := by
    rw [Char.ext_iff, UInt32.toNat_inj]
  have hA : 65 ≤ upper.val.toNat := UInt32.le_iff_toNat_le.mp hupper.1
  have hZ : upper.val.toNat ≤ 90 := UInt32.le_iff_toNat_le.mp hupper.2
  have hlower' : lower.val.toNat = upper.val.toNat + 32 := hlower
  unfold Char.toLower
  split_ifs with h
  · have hfrom : 65 ≤ c.val.toNat := UInt32.le_iff_toNat_le.mp h.1
    have hto : c.val.toNat ≤ 90 := UInt32.le_iff_toNat_le.mp h.2
    have hshift : (c.val + ('a'.val - 'A'.val)).toNat = c.val.toNat + 32 := by
      have hdistance : ('a'.val - 'A'.val).toNat = 32 := rfl
      rw [UInt32.toNat_add, hdistance]
      omega
    rw [hval, hval, hval]
    simp only [hshift]
    omega
  · have hother : ¬ (65 ≤ c.val.toNat ∧ c.val.toNat ≤ 90) := fun hc =>
      h ⟨UInt32.le_iff_toNat_le.mpr hc.1, UInt32.le_iff_toNat_le.mpr hc.2⟩
    rw [hval, hval]
    omega

theorem count_toAsciiLowercase (s : Str) (upper : Char) {lower : Char}
    (hupper : 'A' ≤ upper ∧ upper ≤ 'Z') (hlower : lower.toNat = upper.toNat + 32) :
    s.toAsciiLowercase.count lower = s.count upper + s.count lower := by
  have hne : upper ≠ lower := by
    rintro rfl
    omega
  induction s with
  | nil => rfl
  | cons c s ih =>
      have hc := toLower_eq_iff c hupper hlower
      rw [toAsciiLowercase, List.map_cons, List.count_cons, List.count_cons, List.count_cons,
        ← toAsciiLowercase, ih]
      by_cases hu : c = upper
      · subst c
        simp [hc.mpr (Or.inl rfl), hne]
        omega
      · by_cases hl : c = lower
        · subst c
          simp [hc.mpr (Or.inr rfl), Ne.symm hne]
          omega
        · have hlow : ¬ c.toLower = lower := fun h => (hc.mp h).elim hu hl
          simp [hu, hl, hlow]

/-- `str::len`: the length of the UTF-8 encoding in bytes. -/
def byteLen (s : Str) : Nat := (s.map fun c => c.utf8Size).sum

def ofNat (n : Nat) : Str := Nat.toDigits 10 n

/-- Decimal digits of an integer after its sign, as `Display` prints a signed integer. -/
def ofInt : Int → Str
  | .ofNat n => ofNat n
  | .negSucc n => '-' :: ofNat (n + 1)

/-- A number of fractional part dropped by rounding, ties to even, as the format `.0` prints it. -/
def ofRatRounded (q : ℚ) : Str :=
  let n := q.floor
  let r := q - n
  ofInt (if r < 1 / 2 ∨ (r = 1 / 2 ∧ n % 2 = 0) then n else n + 1)

/-- Two lowercase hexadecimal digits, as the format `02x` prints a byte. -/
def ofByteHex (b : UInt8) : Str := [Nat.digitChar (b.toNat / 16), Nat.digitChar (b.toNat % 16)]

def hexDigit (c : Char) : Option Nat :=
  if '0' ≤ c ∧ c ≤ '9' then some (c.toNat - '0'.toNat)
  else if 'a' ≤ c ∧ c ≤ 'f' then some (c.toNat - 'a'.toNat + 10)
  else if 'A' ≤ c ∧ c ≤ 'F' then some (c.toNat - 'A'.toNat + 10)
  else none

def hexByte : Nat → Str → Option Nat
  | acc, [] => some acc
  | acc, c :: cs => do
    let d ← hexDigit c
    -- a byte that overflows is refused at the digit where it does
    if acc * 16 + d < 256 then hexByte (acc * 16 + d) cs else none

/-- `u8::from_str_radix` in base 16: an optional plus sign and at least one digit. -/
def toByteRadix16 (s : Str) : Option UInt8 :=
  match s with
  | [] => none
  | ['+'] => none
  | '+' :: cs => (hexByte 0 cs).map UInt8.ofNat
  | cs => (hexByte 0 cs).map UInt8.ofNat

private theorem toByteRadix16_ofByteHex_fin :
    ∀ n : Fin 256, toByteRadix16 (ofByteHex (UInt8.ofNat n)) = some (UInt8.ofNat n) := by
  decide +kernel

@[simp] theorem toByteRadix16_ofByteHex (b : UInt8) : toByteRadix16 (ofByteHex b) = some b := by
  simpa using toByteRadix16_ofByteHex_fin ⟨b.toNat, b.toNat_lt⟩

def hexDigits : Str := "0123456789abcdef".toList

private theorem ofByteHex_subset_fin : ∀ n : Fin 256, ofByteHex (UInt8.ofNat n) ⊆ hexDigits := by
  decide +kernel

theorem ofByteHex_subset (b : UInt8) : ofByteHex b ⊆ hexDigits := by
  simpa using ofByteHex_subset_fin ⟨b.toNat, b.toNat_lt⟩

theorem colon_notMem_ofByteHex (b : UInt8) : ':' ∉ ofByteHex b :=
  fun h => absurd (ofByteHex_subset b h) (by decide)

theorem isDigit_of_mem_ofNat {n : Nat} {c : Char} (h : c ∈ ofNat n) : c.isDigit = true :=
  Nat.isDigit_of_mem_toDigits (b := 10) (by decide) (by decide) h

def byteOfDecimal (s : Str) : UInt8 := UInt8.ofNat (Nat.ofDigitChars 10 s 0)

/-- Bytes in decimal, separated by a character that is no digit, are read back piece by piece. -/
theorem map_split_join {sep : Char} (hsep : sep.isDigit = false) {bytes : List UInt8}
    (hne : bytes ≠ []) :
    ((join [sep] (bytes.map fun b => ofNat b.toNat)).split sep).map byteOfDecimal = bytes := by
  have hsplit : (join [sep] (bytes.map fun b => ofNat b.toNat)).split sep =
      bytes.map fun b => ofNat b.toNat := by
    apply List.splitOn_intercalate
    · intro piece hpiece hmem
      obtain ⟨b, _, rfl⟩ := List.mem_map.mp hpiece
      exact absurd (isDigit_of_mem_ofNat hmem) (by simp [hsep])
    · simpa using hne
  have hpiece (b : UInt8) : byteOfDecimal (ofNat b.toNat) = b := by
    rw [byteOfDecimal, ofNat, Nat.ofDigitChars_toDigits (by decide) (by decide), UInt8.ofNat_toNat]
  rw [hsplit, List.map_map]
  exact (List.map_congr_left fun b _ => hpiece b).trans (List.map_id bytes)

/-- The needle occurs in the text when letter case is ignored. -/
def OccursIn (needle text : Str) : Prop :=
  ∃ part : Str, part <:+: text ∧ part.toAsciiLowercase = needle.toAsciiLowercase

theorem infix_toAsciiLowercase_iff {needle : Str} (hlow : needle.toAsciiLowercase = needle)
    (text : Str) : needle <:+: text.toAsciiLowercase ↔ OccursIn needle text := by
  rw [toAsciiLowercase, List.infix_map_iff]
  constructor
  · rintro ⟨part, hpart, h⟩
    exact ⟨part, hpart, h.symm.trans hlow.symm⟩
  · rintro ⟨part, hpart, h⟩
    exact ⟨part, hpart, (h.trans hlow).symm⟩

end Str

end Lanscope.Framework
