import Lanscope.Framework.Utf8

/-!
# DNS name extraction

Names are found by scanning: at every offset of the packet a run of length-prefixed printable labels
is read, and the names that look like services or `.local` hosts are kept. Compression pointers end
a name and are not followed.
-/

namespace Lanscope.Dns

open Framework

/-- `is_ascii_graphic` or a space. -/
def isLabelByte (b : UInt8) : Bool := (0x21 ≤ b && b ≤ 0x7E) || b = 0x20

/-- The loop of `read_name` from a cursor, with the labels read so far. -/
def readLabels (buf : List UInt8) (pos : Nat) (labels : List Str) : Option (Str × Nat) :=
  match _h : buf[pos]? with
  | none => none
  | some len =>
    if len = 0 then some (Str.join ['.'] labels, pos + 1)
    -- compression pointer or reserved bits: stop here
    else if len &&& 0xC0 ≠ 0 then
      if labels = [] then none else some (Str.join ['.'] labels, pos + 2)
    else
      let stop := pos + 1 + len.toNat
      if buf.length < stop then none
      else
        let label := (buf.drop (pos + 1)).take len.toNat
        if label.all isLabelByte then readLabels buf stop (labels ++ [Utf8.fromUtf8Lossy label])
        else none
termination_by buf.length - pos
decreasing_by
  have := (List.getElem?_eq_some_iff.mp ‹buf[pos]? = some len›).1
  omega

theorem readLabels_none {buf : List UInt8} {pos : Nat} (h : buf[pos]? = none)
    (labels : List Str) : readLabels buf pos labels = none := by
  rw [readLabels.eq_def]
  split
  · rfl
  · rename_i b hb
    exact absurd (h.symm.trans hb).symm (Option.some_ne_none _)

section Steps

variable {buf : List UInt8} {pos : Nat} {len : UInt8} (hlen : buf[pos]? = some len)
include hlen

/-- One round of the loop, by the length byte under the cursor. -/
theorem readLabels_step (labels : List Str) : readLabels buf pos labels =
    if len = 0 then some (Str.join ['.'] labels, pos + 1)
    else if len &&& 0xC0 ≠ 0 then
      if labels = [] then none else some (Str.join ['.'] labels, pos + 2)
    else if buf.length < pos + 1 + len.toNat then none
    else if ((buf.drop (pos + 1)).take len.toNat).all isLabelByte then
      readLabels buf (pos + 1 + len.toNat)
        (labels ++ [Utf8.fromUtf8Lossy ((buf.drop (pos + 1)).take len.toNat)])
    else none := by
  rw [readLabels.eq_def]
  split
  · rename_i hnone
    rw [hnone] at hlen
    exact absurd hlen.symm (Option.some_ne_none _)
  · rename_i b hb
    obtain rfl := Option.some.inj (hb.symm.trans hlen)
    rfl

theorem readLabels_zero (labels : List Str) (h : len = 0) :
    readLabels buf pos labels = some (Str.join ['.'] labels, pos + 1) := by
  rw [readLabels_step hlen, if_pos h]

theorem readLabels_label (labels : List Str) (h : len ≠ 0) (hptr : len &&& 0xC0 = 0)
    {label rest : List UInt8} (hlabel : buf.drop (pos + 1) = label ++ rest)
    (hlength : label.length = len.toNat) :
    readLabels buf pos labels = if label.all isLabelByte then
      readLabels buf (pos + 1 + len.toNat) (labels ++ [Utf8.fromUtf8Lossy label]) else none := by
  have hfit := congrArg List.length hlabel
  rw [List.length_drop, List.length_append, hlength] at hfit
  have hpos := (List.getElem?_eq_some_iff.mp hlen).1
  have hlong : ¬ buf.length < pos + 1 + len.toNat := by omega
  rw [readLabels_step hlen, if_neg h, if_neg (not_not_intro hptr), if_neg hlong, hlabel,
    List.take_left' hlength]

end Steps

def readName (buf : List UInt8) (start : Nat) : Option (Str × Nat) := readLabels buf start []

def isInteresting (name : Str) : Bool :=
  let n := name.byteLen
  (3 ≤ n && n ≤ 255) &&
    (decide (".local".toList <:+ name) || name.contains "._tcp".toList ||
      name.contains "._udp".toList)

def extractAt (buf : List UInt8) (out : List Str) (pos : Nat) : List Str :=
  match readName buf pos with
  | some (name, _) => if isInteresting name ∧ name ∉ out then out ++ [name] else out
  | none => out

def extractNames (buf : List UInt8) : List Str := (List.range buf.length).foldl (extractAt buf) []

theorem mem_extractAt {buf : List UInt8} {out : List Str} {pos : Nat} {name : Str} :
    name ∈ extractAt buf out pos ↔
      name ∈ out ∨ ∃ next, readName buf pos = some (name, next) ∧ isInteresting name := by
  unfold extractAt
  cases hread : readName buf pos with
  | none => simp
  | some found =>
      obtain ⟨n, next⟩ := found
      simp only [Option.some.injEq, Prod.mk.injEq, exists_and_right, exists_eq_right']
      split_ifs with h
      · simp only [List.mem_append, List.mem_singleton]
        constructor
        · rintro (hm | rfl)
          · exact Or.inl hm
          · exact Or.inr ⟨rfl, h.1⟩
        · rintro (hm | ⟨rfl, _⟩)
          · exact Or.inl hm
          · exact Or.inr rfl
      · constructor
        · exact Or.inl
        · rintro (hm | ⟨rfl, hi⟩)
          · exact hm
          · by_contra hnot
            exact h ⟨hi, hnot⟩

/-- The extracted names are the interesting names that can be read at some offset. -/
theorem mem_extractNames {buf : List UInt8} {name : Str} : name ∈ extractNames buf ↔
    ∃ pos < buf.length, ∃ next, readName buf pos = some (name, next) ∧ isInteresting name := by
  have hfold (offsets : List Nat) (out : List Str) : name ∈ offsets.foldl (extractAt buf) out ↔
      name ∈ out ∨ ∃ pos ∈ offsets, ∃ next,
        readName buf pos = some (name, next) ∧ isInteresting name := by
    induction offsets generalizing out with
    | nil => simp
    | cons pos offsets ih =>
        rw [List.foldl_cons, ih, mem_extractAt]
        simp only [List.mem_cons, exists_eq_or_imp, or_assoc]
  simp [extractNames, hfold]

end Lanscope.Dns
