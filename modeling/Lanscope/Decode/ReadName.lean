import Lanscope.Decode.DhcpWire
import Lanscope.Decode.Questions

/-!
# Reading one name

The loop of `read_name` round by round. Each round but the last moves the cursor over one complete
label, so the loop ends within the buffer. A name that a zero byte closes is really there. A name
that a pointer ends is reported to end two bytes on although only the first of them was looked at.
-/

namespace Lanscope.Dns

open Framework

/-! ## The loop by rounds -/

inductive Round
  | done (found : Option (Str × Nat))
  | more (pos : Nat) (labels : List Str)

/-- One round of the loop, with its checked accesses. -/
def readRound (buf : List UInt8) (pos : Nat) (labels : List Str) : Round :=
  match buf[pos]? with
  | none => .done none
  | some len =>
    if len = 0 then .done (some (Str.join ['.'] labels, pos + 1))
    -- compression pointer or reserved bits: stop here
    else if len &&& 0xC0 ≠ 0 then
      if labels = [] then .done none else .done (some (Str.join ['.'] labels, pos + 2))
    else
      match Dhcp.slice buf (pos + 1) (pos + 1 + len.toNat) with
      | none => .done none
      | some label =>
        if label.all isLabelByte then
          .more (pos + 1 + len.toNat) (labels ++ [Utf8.fromUtf8Lossy label])
        else .done none

/-- At most so many rounds. `none` when they do not suffice. -/
def readLoop (buf : List UInt8) : Nat → Nat → List Str → Option (Option (Str × Nat))
  | 0, _, _ => none
  | rounds + 1, pos, labels =>
    match readRound buf pos labels with
    | .done found => some found
    | .more pos labels => readLoop buf rounds pos labels

theorem readLabels_eq_readRound (buf : List UInt8) (pos : Nat) (labels : List Str) :
    readLabels buf pos labels = match readRound buf pos labels with
      | .done found => found
      | .more pos labels => readLabels buf pos labels := by
  unfold readRound
  cases hlen : buf[pos]? with
  | none => exact readLabels_none hlen labels
  | some len =>
      rw [readLabels_step hlen]
      by_cases hzero : len = 0
      · simp [hzero]
      · by_cases hptr : len &&& 0xC0 ≠ 0
        · by_cases hlabels : labels = [] <;> simp [hzero, hptr, hlabels]
        · by_cases hshort : buf.length < pos + 1 + len.toNat
          · simp [hzero, hptr, hshort, Dhcp.slice, not_le.mpr hshort]
          · by_cases hlabel : ((buf.drop (pos + 1)).take len.toNat).all isLabelByte
            · simp only [hzero, hptr, hshort, hlabel, Dhcp.slice, not_lt.mp hshort]
              simp [hlabel]
            · simp only [hzero, hptr, hshort, hlabel, Dhcp.slice, not_lt.mp hshort]
              simp [hlabel]

private theorem length_of_no_pointer :
    ∀ n : Fin 256, UInt8.ofNat n &&& 0xC0 = 0 → n.val ≤ 63 := by
  decide +kernel

/-- A round that is not the last takes one label off the buffer. -/
theorem readRound_more {buf : List UInt8} {pos next : Nat} {labels labels' : List Str}
    (h : readRound buf pos labels = .more next labels') :
    pos < next ∧ next ≤ buf.length ∧ ∃ l : Label, labels' = labels ++ [l.text] ∧
      buf.drop pos = l.lengthByte :: (l.bytes ++ buf.drop next) := by
  unfold readRound at h
  cases hlen : buf[pos]? with
  | none => simp [hlen] at h
  | some len =>
      simp only [hlen] at h
      split_ifs at h with hzero hptr
      cases hslice : Dhcp.slice buf (pos + 1) (pos + 1 + len.toNat) with
      | none => simp [hslice] at h
      | some label =>
          simp only [hslice] at h
          split_ifs at h with hlabel
          obtain ⟨rfl, rfl⟩ := Round.more.inj h
          obtain ⟨⟨_, hfit⟩, hbytes⟩ := Option.ite_none_right_eq_some.mp hslice
          rw [Option.some.injEq, Nat.add_sub_cancel_left] at hbytes
          have hlength : label.length = len.toNat := by
            rw [← hbytes, List.length_take, List.length_drop]
            omega
          have hne : label ≠ [] := by
            intro hnil
            rw [hnil] at hlength
            exact hzero (UInt8.toNat_inj.mp hlength.symm)
          have hshort : label.length ≤ 63 := by
            rw [hlength]
            apply length_of_no_pointer ⟨len.toNat, len.toNat_lt⟩
            rw [UInt8.ofNat_toNat]
            exact not_not.mp hptr
          let l : Label := ⟨label, hne, hshort, hlabel⟩
          have hbyte : l.lengthByte = len := by
            rw [Label.lengthByte, hlength, UInt8.ofNat_toNat]
          have hdrop : buf.drop (pos + 1) = label ++ buf.drop (pos + 1 + len.toNat) := by
            rw [← hbytes, ← List.drop_drop (i := len.toNat)]
            exact (List.take_append_drop _ _).symm
          refine ⟨by omega, hfit, l, by rw [← l.fromUtf8Lossy_bytes], ?_⟩
          obtain ⟨hpos, hget⟩ := List.getElem?_eq_some_iff.mp hlen
          rw [List.drop_eq_getElem_cons hpos, hget, hbyte, hdrop]

/-- The loop ends after as many rounds as there are bytes left, and one more. -/
theorem readLoop_eq {buf : List UInt8} {rounds pos : Nat} (h : buf.length - pos < rounds)
    (labels : List Str) :
    readLoop buf rounds pos labels = some (readLabels buf pos labels) := by
  induction rounds generalizing pos labels with
  | zero => exact absurd h (Nat.not_lt_zero _)
  | succ rounds ih =>
      rw [readLoop, readLabels_eq_readRound]
      cases hround : readRound buf pos labels with
      | done found => rfl
      | more next labels' =>
          obtain ⟨hlt, hle, _⟩ := readRound_more hround
          exact ih (by omega) labels'

/-! ## What was read -/

/-- A byte that ends a name: a compression pointer, or one top bit alone, which is reserved. The loop
makes no difference between the two, and a name that either of them ends is said to be ended by a
pointer. -/
def Stops (b : UInt8) : Prop := b &&& 0xC0 ≠ 0

instance : DecidablePred Stops := fun _ => inferInstanceAs (Decidable (_ ≠ _))

/-- The bytes are labels and a zero byte, or at least one label and a pointer of two bytes. -/
def Closed (labels : List Label) (bytes : List UInt8) : Prop :=
  bytes = encodeLabels labels ++ [0] ∨
    (labels ≠ [] ∧ ∃ b c, Stops b ∧ bytes = encodeLabels labels ++ [b, c])

/-- The loop ends and moves forward within the buffer, and what it returns was there to be read. -/
structure ReadsWhatIsThere (buf : List UInt8) (start : Nat) : Prop where
  terminates : readLoop buf (buf.length - start + 1) start [] = some (readName buf start)
  advances : ∀ pos labels next labels', readRound buf pos labels = .more next labels' →
    pos < next ∧ next ≤ buf.length
  consumed : ∀ name next, readName buf start = some (name, next) →
    start < next ∧ next ≤ buf.length ∧
      ∃ labels, name = dotted labels ∧ Closed labels ((buf.drop start).take (next - start))

/-- Labels from the offset on, and then the first byte of a pointer as the last of the buffer. -/
def CutPointer (buf : List UInt8) (start : Nat) : Prop :=
  ∃ labels b, labels ≠ [] ∧ Stops b ∧ buf.drop start = encodeLabels labels ++ [b]

/-- The last round looks at one byte, which is a zero byte or the first byte of a pointer. -/
theorem readRound_done {buf : List UInt8} {pos next : Nat} {labels : List Str} {name : Str}
    (h : readRound buf pos labels = .done (some (name, next))) :
    name = Str.join ['.'] labels ∧ ∃ b rest, buf.drop pos = b :: rest ∧
      ((b = 0 ∧ next = pos + 1) ∨ (labels ≠ [] ∧ Stops b ∧ next = pos + 2)) := by
  unfold readRound at h
  cases hlen : buf[pos]? with
  | none => simp [hlen] at h
  | some len =>
      obtain ⟨hpos, hget⟩ := List.getElem?_eq_some_iff.mp hlen
      rw [List.drop_eq_getElem_cons hpos, hget]
      simp only [hlen] at h
      split_ifs at h with hzero hptr hlabels
      · simp only [Round.done.injEq, Option.some.injEq, Prod.mk.injEq] at h
        exact ⟨h.1.symm, len, _, rfl, Or.inl ⟨hzero, h.2.symm⟩⟩
      · simp at h
      · simp only [Round.done.injEq, Option.some.injEq, Prod.mk.injEq] at h
        exact ⟨h.1.symm, len, _, rfl, Or.inr ⟨hlabels, hptr, h.2.symm⟩⟩
      · cases hslice : Dhcp.slice buf (pos + 1) (pos + 1 + len.toNat) with
        | none => simp [hslice] at h
        | some label =>
            simp only [hslice] at h
            split_ifs at h
            simp at h

/-- A name is read off labels and a zero byte, or off labels and the first byte of a pointer. -/
theorem readLoop_spells {buf : List UInt8} {rounds pos next : Nat} {read : List Str} {name : Str}
    (h : readLoop buf rounds pos read = some (some (name, next))) :
    ∃ labels b rest, name = Str.join ['.'] (read ++ labels.map Label.text) ∧
      buf.drop pos = encodeLabels labels ++ b :: rest ∧
      ((b = 0 ∧ next = pos + (encodeLabels labels).length + 1) ∨
        (read ++ labels.map Label.text ≠ [] ∧ Stops b ∧
          next = pos + (encodeLabels labels).length + 2)) := by
  induction rounds generalizing pos read with
  | zero => exact absurd h.symm (Option.some_ne_none _)
  | succ rounds ih =>
      rw [readLoop] at h
      cases hround : readRound buf pos read with
      | done found =>
          rw [hround] at h
          obtain rfl := Option.some.inj h
          obtain ⟨hname, b, rest, hdrop, hend⟩ := readRound_done hround
          exact ⟨[], b, rest, by simpa using hname, hdrop, by simpa [encodeLabels] using hend⟩
      | more mid read' =>
          rw [hround] at h
          obtain ⟨hlt, hle, l, rfl, hdrop⟩ := readRound_more hround
          obtain ⟨labels, b, rest, hname, hrest, hend⟩ := ih h
          have hmid : mid = pos + (l.lengthByte :: l.bytes).length := by
            have hlength := congrArg List.length hdrop
            simp only [List.length_drop, List.length_cons, List.length_append] at hlength ⊢
            omega
          refine ⟨l :: labels, b, rest, ?_, ?_, ?_⟩
          · simpa using hname
          · rw [hdrop, hrest, encodeLabels_cons]
            simp
          · rw [encodeLabels_cons, List.length_append, ← Nat.add_assoc, ← hmid]
            simpa using hend

theorem readName_spells {buf : List UInt8} {start next : Nat} {name : Str}
    (h : readName buf start = some (name, next)) :
    ∃ labels b rest, name = dotted labels ∧ buf.drop start = encodeLabels labels ++ b :: rest ∧
      ((b = 0 ∧ next = start + (encodeLabels labels).length + 1) ∨
        (labels ≠ [] ∧ Stops b ∧ next = start + (encodeLabels labels).length + 2)) := by
  have hloop := readLoop_eq (Nat.lt_succ_self (buf.length - start)) []
  rw [show readLabels buf start [] = readName buf start from rfl, h] at hloop
  simpa [dotted] using readLoop_spells hloop

/-- Labels and the first byte of a pointer are read as a name. -/
theorem readName_of_stops {buf : List UInt8} {start : Nat} {labels : List Label} {b : UInt8}
    {rest : List UInt8} (hne : labels ≠ []) (hb : Stops b)
    (hdrop : buf.drop start = encodeLabels labels ++ b :: rest) :
    readName buf start = some (dotted labels, start + (encodeLabels labels).length + 2) := by
  have hget : buf[start + (encodeLabels labels).length]? = some b := by
    rw [← List.head?_drop, ← List.drop_drop, hdrop, List.drop_left, List.head?_cons]
  have hzero : b ≠ 0 := by
    rintro rfl
    exact hb rfl
  have hptr : b &&& 0xC0 ≠ 0 := hb
  have hread : [] ++ labels.map Label.text ≠ [] := by simpa using hne
  rw [readName, readLabels_encodeLabels labels hdrop, readLabels_step hget, if_neg hzero, if_pos hptr,
    if_neg hread]
  rfl

/-- Bytes that stand at an offset are there to be consumed. -/
theorem consumed_of_drop {buf used rest : List UInt8} {start next : Nat} (hne : used ≠ [])
    (hdrop : buf.drop start = used ++ rest) (hnext : next = start + used.length) :
    start < next ∧ next ≤ buf.length ∧ (buf.drop start).take (next - start) = used := by
  have hpos := List.length_pos_iff.mpr hne
  have hlength := congrArg List.length hdrop
  rw [List.length_drop, List.length_append] at hlength
  refine ⟨by omega, by omega, ?_⟩
  rw [hdrop, hnext, Nat.add_sub_cancel_left, List.take_left]

/-- The loop ends within the buffer whatever it holds. What it returns was all there exactly when the
labels do not run up to a pointer of which the buffer holds only the first byte. -/
theorem readsWhatIsThere_iff (buf : List UInt8) (start : Nat) :
    ReadsWhatIsThere buf start ↔ ¬ CutPointer buf start := by
  constructor
  · intro h hcut
    obtain ⟨labels, b, hne, hb, hdrop⟩ := hcut
    obtain ⟨_, hle, _⟩ := h.consumed _ _ (readName_of_stops hne hb hdrop)
    have hlength := congrArg List.length hdrop
    rw [List.length_drop, List.length_append, List.length_singleton] at hlength
    omega
  · intro hwhole
    refine ⟨readLoop_eq (Nat.lt_succ_self _) [], ?_, ?_⟩
    · intro pos labels next labels' h
      obtain ⟨hlt, hle, _⟩ := readRound_more h
      exact ⟨hlt, hle⟩
    · intro name next h
      obtain ⟨labels, b, rest, hname, hdrop, hend⟩ := readName_spells h
      cases hend with
      | inl hzero =>
          obtain ⟨rfl, hnext⟩ := hzero
          rw [List.append_cons] at hdrop
          obtain ⟨hlt, hle, hused⟩ := consumed_of_drop (by simp) hdrop (by simpa [Nat.add_assoc] using hnext)
          exact ⟨hlt, hle, labels, hname, Or.inl hused⟩
      | inr hptr =>
          obtain ⟨hne, hb, hnext⟩ := hptr
          cases rest with
          | nil => exact absurd ⟨labels, b, hne, hb, hdrop⟩ hwhole
          | cons c rest =>
              rw [List.append_cons, List.append_cons, List.append_assoc (encodeLabels labels)] at hdrop
              obtain ⟨hlt, hle, hused⟩ := consumed_of_drop (by simp) hdrop (by simpa [Nat.add_assoc] using hnext)
              exact ⟨hlt, hle, labels, hname, Or.inr ⟨hne, b, c, hb, hused⟩⟩

/-- The label `a` and the first byte of a pointer. -/
def cutPointer : List UInt8 := [1, 97, 0xC0]

/-- The reported end lies one byte past the buffer. -/
theorem readName_passes_end : ¬ ∀ buf start, ReadsWhatIsThere buf start := by
  intro h
  have hread : readName cutPointer 0 = some ("a".toList, 4) :=
    readName_of_stops (List.cons_ne_nil (Mdns.letterLabel 97 rfl) [])
      (show Stops 0xC0 by decide) (show cutPointer.drop 0 = _ ++ 0xC0 :: [] from rfl)
  obtain ⟨_, hle, _⟩ := (h cutPointer 0).consumed _ _ hread
  exact absurd hle (by decide)

end Lanscope.Dns
