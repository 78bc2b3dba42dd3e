import Lanscope.Framework.Text

/-!
# JSON arrays of strings

Compact JSON text of a list of strings, and a reader of such text. Quotes, backslashes and control
characters are escaped and everything else stands for itself.
-/

namespace Lanscope.Framework.Json

def escape (c : Char) : Str :=
  if c = '"' then ['\\', '"']
  else if c = '\\' then ['\\', '\\']
  else if c = '\n' then ['\\', 'n']
  else if c = '\r' then ['\\', 'r']
  else if c = '\t' then ['\\', 't']
  else if c = Char.ofNat 8 then ['\\', 'b']
  else if c = Char.ofNat 12 then ['\\', 'f']
  else if c.toNat < 32 then '\\' :: 'u' :: '0' :: '0' :: Str.ofByteHex (UInt8.ofNat c.toNat)
  else [c]

def quote (s : Str) : Str := '"' :: s.flatMap escape ++ ['"']

def encode : List Str → Str
  | [] => ['[', ']']
  | s :: ss => '[' :: quote s ++ (ss.flatMap fun t => ',' :: quote t) ++ [']']

def unescape (c : Char) : Option Char :=
  if c = '"' ∨ c = '\\' ∨ c = '/' then some c
  else if c = 'n' then some '\n'
  else if c = 'r' then some '\r'
  else if c = 't' then some '\t'
  else if c = 'b' then some (Char.ofNat 8)
  else if c = 'f' then some (Char.ofNat 12)
  else none

/-- Read up to the closing quote, returning the string and the text after the quote. -/
def readChars : Str → Option (Str × Str)
  | [] => none
  | c :: cs =>
    if c = '"' then some ([], cs)
    else if c = '\\' then
      match cs with
      | 'u' :: a :: b :: d :: e :: rest => do
        let hi ← Str.toByteRadix16 [a, b]
        let lo ← Str.toByteRadix16 [d, e]
        let (s, after) ← readChars rest
        return (Char.ofNat (hi.toNat * 256 + lo.toNat) :: s, after)
      | e :: rest => do
        let ch ← unescape e
        let (s, after) ← readChars rest
        return (ch :: s, after)
      | [] => none
    else if c.toNat < 32 then none
    else do
      let (s, after) ← readChars cs
      return (c :: s, after)

/-- Read the items of an array up to its closing bracket. The first argument bounds their number. -/
def readItems : Nat → Str → Option (List Str)
  | fuel + 1, '"' :: text =>
    match readChars text with
    | some (s, [']']) => some [s]
    | some (s, ',' :: rest) => (readItems fuel rest).map fun ss => s :: ss
    | _ => none
  | _, _ => none

def decode (text : Str) : Option (List Str) :=
  match text with
  | ['[', ']'] => some []
  | '[' :: rest => readItems rest.length rest
  | _ => none

private theorem readChars_control (n : Nat) (h : n < 32) (rest : Str) :
    readChars (escape (Char.ofNat n) ++ rest) =
      (readChars rest).bind fun p => some (Char.ofNat n :: p.1, p.2) := by
  interval_cases n <;> rfl

private theorem readChars_escape (c : Char) (rest : Str) :
    readChars (escape c ++ rest) = (readChars rest).bind fun p => some (c :: p.1, p.2) := by
  by_cases hcontrol : c.toNat < 32
  · rw [← Char.ofNat_toNat c]
    exact readChars_control c.toNat hcontrol rest
  · by_cases hquote : c = '"'
    · subst c
      rfl
    by_cases hslash : c = '\\'
    · subst c
      rfl
    have hplain : escape c = [c] := by
      unfold escape
      have hne (n : Nat) (hn : n < 32) : c ≠ Char.ofNat n := by
        rintro rfl
        interval_cases n <;> exact hcontrol (by decide)
      rw [if_neg hquote, if_neg hslash, if_neg (hne 10 (by decide)), if_neg (hne 13 (by decide)),
        if_neg (hne 9 (by decide)), if_neg (hne 8 (by decide)), if_neg (hne 12 (by decide)),
        if_neg hcontrol]
    rw [hplain, List.singleton_append, readChars.eq_def]
    simp only [hquote, hslash, hcontrol, if_false]
    rfl

private theorem readChars_quoted (s rest : Str) :
    readChars (s.flatMap escape ++ '"' :: rest) = some (s, rest) := by
  induction s with
  | nil =>
      rw [List.flatMap_nil, List.nil_append, readChars.eq_def]
      rfl
  | cons c s ih =>
      rw [List.flatMap_cons, List.append_assoc, readChars_escape, ih]
      rfl

private theorem readItems_quoted (s : Str) (ss : List Str) (fuel : Nat) (h : ss.length < fuel) :
    readItems fuel (quote s ++ (ss.flatMap fun t => ',' :: quote t) ++ [']']) = some (s :: ss) := by
  induction ss generalizing s fuel with
  | nil =>
      obtain ⟨fuel, rfl⟩ := Nat.exists_eq_succ_of_ne_zero (by omega : fuel ≠ 0)
      simp [quote, readItems, readChars_quoted]
  | cons t ss ih =>
      obtain ⟨fuel, rfl⟩ := Nat.exists_eq_succ_of_ne_zero (by omega : fuel ≠ 0)
      have hrest := ih t fuel (by simpa using h)
      simp only [List.flatMap_cons, List.cons_append, List.append_assoc] at hrest ⊢
      simp [quote, readItems, readChars_quoted] at hrest ⊢
      exact hrest

private theorem length_le_quoted (ss : List Str) (rest : Str) :
    ss.length ≤ ((ss.flatMap fun t => ',' :: quote t) ++ rest).length := by
  induction ss with
  | nil => simp
  | cons t ss ih =>
      simp only [List.flatMap_cons, List.length_cons, List.length_append] at ih ⊢
      omega

theorem decode_encode (strings : List Str) : decode (encode strings) = some strings := by
  cases strings with
  | nil => rfl
  | cons s ss =>
      have hlen := length_le_quoted ss [']']
      have hitems := readItems_quoted s ss
        (quote s ++ (ss.flatMap fun t => ',' :: quote t) ++ [']']).length (by
          simp only [quote, List.length_cons, List.length_append] at hlen ⊢
          omega)
      simpa [encode, decode, quote] using hitems

end Lanscope.Framework.Json
