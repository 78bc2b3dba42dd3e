import Lanscope.Decode.Mdns
import Lanscope.Framework.BigEndian

/-!
# Names and questions on the wire

Names encoded as length-prefixed labels, alone in any context and as the questions of a message. The
scan finds every such name, and with it the names that start at its later labels. What else it finds
it reads at an offset where no label starts.
-/

namespace Lanscope

open Framework

namespace Dns

private theorem isLabelByte_fin : ∀ n : Fin 256, isLabelByte (UInt8.ofNat n) →
    UInt8.ofNat n < 0x80 ∧ 32 ≤ n.val := by
  decide +kernel

private theorem isLabelByte_bounds {b : UInt8} (h : isLabelByte b) : b < 0x80 ∧ 32 ≤ b.toNat := by
  have hfin := isLabelByte_fin ⟨b.toNat, b.toNat_lt⟩
  rw [UInt8.ofNat_toNat] at hfin
  exact hfin h

/-- A label of printable ASCII and spaces. -/
structure Label where
  bytes : List UInt8
  ne_nil : bytes ≠ []
  length_le : bytes.length ≤ 63
  printable : bytes.all isLabelByte

namespace Label

def text (l : Label) : Str := l.bytes.map fun b => Char.ofNat b.toNat

def lengthByte (l : Label) : UInt8 := UInt8.ofNat l.bytes.length

theorem toNat_lengthByte (l : Label) : l.lengthByte.toNat = l.bytes.length :=
  UInt8.toNat_ofNat_of_lt' (Nat.lt_of_le_of_lt l.length_le (by decide))

theorem lengthByte_ne_zero (l : Label) : l.lengthByte ≠ 0 := by
  intro h
  have hlen := l.toNat_lengthByte
  rw [h] at hlen
  exact l.ne_nil (List.length_eq_zero_iff.mp hlen.symm)

private theorem length_no_pointer : ∀ n : Fin 64, UInt8.ofNat n &&& 0xC0 = 0 := by decide

theorem lengthByte_no_pointer (l : Label) : l.lengthByte &&& 0xC0 = 0 :=
  length_no_pointer ⟨l.bytes.length, Nat.lt_succ_of_le l.length_le⟩

theorem fromUtf8Lossy_bytes (l : Label) : Utf8.fromUtf8Lossy l.bytes = l.text :=
  Utf8.fromUtf8Lossy_ascii fun b hb =>
    (isLabelByte_bounds (List.all_eq_true.mp l.printable b hb)).1

end Label

/-- Each label after its length, and a zero byte. -/
def encodeName : List Label → List UInt8
  | [] => [0]
  | l :: ls => l.lengthByte :: (l.bytes ++ encodeName ls)

/-- Each label after its length. -/
def encodeLabels (labels : List Label) : List UInt8 :=
  labels.flatMap fun l => l.lengthByte :: l.bytes

theorem encodeLabels_cons (l : Label) (labels : List Label) :
    encodeLabels (l :: labels) = l.lengthByte :: l.bytes ++ encodeLabels labels := rfl

theorem encodeName_eq (labels : List Label) : encodeName labels = encodeLabels labels ++ [0] := by
  induction labels with
  | nil => rfl
  | cons l labels ih => rw [encodeName, ih, encodeLabels_cons, List.append_assoc, List.cons_append]

def dotted (labels : List Label) : Str := Str.join ['.'] (labels.map Label.text)

/-- Reading does not look back. -/
theorem readLabels_append (before buf : List UInt8) (pos : Nat) (labels : List Str) :
    readLabels (before ++ buf) (before.length + pos) labels =
      (readLabels buf pos labels).map fun found => (found.1, before.length + found.2) := by
  have hget (pos : Nat) : (before ++ buf)[before.length + pos]? = buf[pos]? := by
    rw [List.getElem?_append_right (Nat.le_add_right _ _), Nat.add_sub_cancel_left]
  have hdrop (pos : Nat) : (before ++ buf).drop (before.length + pos + 1) = buf.drop (pos + 1) := by
    rw [Nat.add_assoc, ← List.drop_drop, List.drop_left]
  fun_induction readLabels buf pos labels with
  | case1 pos labels hnone => exact readLabels_none ((hget pos).trans hnone) labels
  | case2 pos labels hlen => exact readLabels_zero ((hget pos).trans hlen) labels rfl
  | case3 pos len hlen hne hptr =>
      rw [readLabels_step ((hget pos).trans hlen), if_neg hne, if_pos hptr, if_pos rfl]
      rfl
  | case4 pos labels len hlen hne hptr hlabels =>
      rw [readLabels_step ((hget pos).trans hlen), if_neg hne, if_pos hptr, if_neg hlabels]
      rfl
  | case5 pos labels len hlen hne hptr stop hshort =>
      have hshort' : (before ++ buf).length < before.length + pos + 1 + len.toNat := by
        rw [List.length_append]
        omega
      rw [readLabels_step ((hget pos).trans hlen), if_neg hne, if_neg hptr, if_pos hshort']
      rfl
  | case6 pos labels len hlen hne hptr stop hfit label hlabel ih =>
      have hfit' : ¬ (before ++ buf).length < before.length + pos + 1 + len.toNat := by
        rw [List.length_append]
        omega
      have hstop : before.length + pos + 1 + len.toNat = before.length + stop := by omega
      rw [readLabels_step ((hget pos).trans hlen), if_neg hne, if_neg hptr, if_neg hfit', hdrop,
        if_pos hlabel, hstop]
      exact ih
  | case7 pos labels len hlen hne hptr stop hfit label hlabel =>
      have hfit' : ¬ (before ++ buf).length < before.length + pos + 1 + len.toNat := by
        rw [List.length_append]
        omega
      rw [readLabels_step ((hget pos).trans hlen), if_neg hne, if_neg hptr, if_neg hfit', hdrop,
        if_neg hlabel]
      rfl

/-- The loop reads over labels one by one. -/
theorem readLabels_encodeLabels {buf : List UInt8} {pos : Nat} (labels : List Label)
    {rest : List UInt8} (hdrop : buf.drop pos = encodeLabels labels ++ rest) (read : List Str) :
    readLabels buf pos read =
      readLabels buf (pos + (encodeLabels labels).length) (read ++ labels.map Label.text) := by
  induction labels generalizing pos read with
  | nil => simp [encodeLabels]
  | cons l labels ih =>
      rw [encodeLabels_cons, List.append_assoc, List.cons_append] at hdrop
      have hlen : buf[pos]? = some l.lengthByte := by
        rw [← List.head?_drop, hdrop, List.head?_cons]
      have hlabel : buf.drop (pos + 1) = l.bytes ++ (encodeLabels labels ++ rest) := by
        rw [← List.drop_drop, hdrop, List.drop_one, List.tail_cons]
      have hrest : buf.drop (pos + 1 + l.lengthByte.toNat) = encodeLabels labels ++ rest := by
        rw [← List.drop_drop, hlabel, List.drop_left' l.toNat_lengthByte.symm]
      rw [readLabels_label hlen read l.lengthByte_ne_zero l.lengthByte_no_pointer hlabel
        l.toNat_lengthByte.symm, if_pos l.printable, l.fromUtf8Lossy_bytes, ih hrest,
        l.toNat_lengthByte, encodeLabels_cons, List.length_append, List.length_cons, List.map_cons,
        List.append_assoc, List.singleton_append]
      congr 1
      omega

private theorem readLabels_encode (labels : List Label) (after : List UInt8) (read : List Str) :
    (readLabels (encodeName labels ++ after) 0 read) =
      some (Str.join ['.'] (read ++ labels.map Label.text), (encodeName labels).length) := by
  have hdrop : (encodeName labels ++ after).drop 0 = encodeLabels labels ++ (0 :: after) := by
    rw [encodeName_eq, List.append_assoc, List.drop_zero, List.singleton_append]
  have hzero : (encodeName labels ++ after)[0 + (encodeLabels labels).length]? = some 0 := by
    rw [← List.head?_drop, ← List.drop_drop, hdrop, List.drop_left, List.head?_cons]
  rw [readLabels_encodeLabels labels hdrop, readLabels_zero hzero _ rfl, encodeName_eq,
    List.length_append, List.length_singleton, Nat.zero_add]

theorem readName_encode (before after : List UInt8) (labels : List Label) :
    readName (before ++ encodeName labels ++ after) before.length =
      some (dotted labels, before.length + (encodeName labels).length) := by
  have hread := readLabels_append before (encodeName labels ++ after) 0 []
  rw [readLabels_encode, List.nil_append] at hread
  rw [readName, List.append_assoc]
  exact hread

/-- What a read at the first byte returns. -/
def Spells (bytes : List UInt8) (name : Str) : Prop := ∃ next, readName bytes 0 = some (name, next)

theorem spells_drop_iff (buf : List UInt8) {pos : Nat} (hpos : pos < buf.length) (name : Str) :
    Spells (buf.drop pos) name ↔ ∃ next, readName buf pos = some (name, next) := by
  have hread := readLabels_append (buf.take pos) (buf.drop pos) 0 []
  rw [List.take_append_drop, List.length_take, Nat.min_eq_left hpos.le] at hread
  unfold Spells readName
  rw [show readLabels buf pos [] = _ from hread]
  cases readLabels (buf.drop pos) 0 [] with
  | none => simp
  | some found => simp [Prod.ext_iff]

theorem mem_extractNames_iff {buf : List UInt8} {name : Str} : name ∈ extractNames buf ↔
    isInteresting name ∧ ∃ rest, rest ≠ [] ∧ rest <:+ buf ∧ Spells rest name := by
  rw [mem_extractNames]
  constructor
  · rintro ⟨pos, hpos, next, hread, hint⟩
    refine ⟨hint, buf.drop pos, ?_, List.drop_suffix _ _,
      (spells_drop_iff _ hpos _).mpr ⟨next, hread⟩⟩
    exact List.ne_nil_of_length_pos (by rw [List.length_drop]; omega)
  · rintro ⟨hint, rest, hne, ⟨before, rfl⟩, hspells⟩
    have hpos : before.length < (before ++ rest).length := by
      rw [List.length_append]
      exact Nat.lt_add_of_pos_right (List.length_pos_iff.mpr hne)
    have hdrop : (before ++ rest).drop before.length = rest := List.drop_left
    rw [← hdrop] at hspells
    obtain ⟨next, hread⟩ := (spells_drop_iff _ hpos _).mp hspells
    exact ⟨before.length, hpos, next, hread, hint⟩

theorem spells_encode (labels : List Label) (after : List UInt8) :
    Spells (encodeName labels ++ after) (dotted labels) := by
  refine ⟨(encodeName labels).length, ?_⟩
  rw [readName, readLabels_encode]
  rfl

theorem encodeName_ne_nil (labels : List Label) : encodeName labels ≠ [] := by
  cases labels <;> exact List.cons_ne_nil _ _

end Dns

namespace Mdns

private theorem mem_extractNames_encode (before after : List UInt8) (labels : List Dns.Label)
    (hint : Dns.isInteresting (Dns.dotted labels)) :
    Dns.dotted labels ∈ Dns.extractNames (before ++ Dns.encodeName labels ++ after) := by
  refine Dns.mem_extractNames_iff.mpr ⟨hint, Dns.encodeName labels ++ after, ?_, ?_,
    Dns.spells_encode labels after⟩
  · exact List.append_ne_nil_of_left_ne_nil (Dns.encodeName_ne_nil labels) _
  · rw [List.append_assoc]
    exact List.suffix_append _ _

/-- An encoded name is read back, and what it stands for is reported, whatever surrounds it. -/
theorem decode_encodedName (before after : List UInt8) (labels : List Dns.Label) :
    Dns.readName (before ++ Dns.encodeName labels ++ after) before.length =
        some (Dns.dotted labels, before.length + (Dns.encodeName labels).length) ∧
      (3 ≤ (Dns.dotted labels).byteLen → (Dns.dotted labels).byteLen ≤ 255 →
        ((Dns.dotted labels).contains "._tcp".toList ∨ (Dns.dotted labels).contains "._udp".toList →
          .service (Dns.dotted labels) ∈ decode (before ++ Dns.encodeName labels ++ after)) ∧
        (¬ ((Dns.dotted labels).contains "._tcp".toList ∨
            (Dns.dotted labels).contains "._udp".toList) →
          ∀ host : Str, Dns.dotted labels = host ++ ".local".toList → host ≠ [] →
            host.head? ≠ some '_' →
            .hostname host ∈ decode (before ++ Dns.encodeName labels ++ after))) := by
  refine ⟨Dns.readName_encode before after labels, fun hlow hhigh => ⟨fun hservice => ?_, ?_⟩⟩
  · have hint : Dns.isInteresting (Dns.dotted labels) := by
      simp only [Dns.isInteresting, hlow, hhigh, decide_true, Bool.true_and, Bool.or_eq_true]
      rcases hservice with htcp | hudp
      · exact Or.inl (Or.inr htcp)
      · exact Or.inr hudp
    refine List.mem_flatMap.mpr ⟨_, mem_extractNames_encode before after labels hint, ?_⟩
    have hs : isService (Dns.dotted labels) := by
      simpa only [isService, Bool.or_eq_true] using hservice
    simp only [nameSignal, hs, if_true, List.mem_singleton]
  · intro hservice host hname hne hhead
    have hint : Dns.isInteresting (Dns.dotted labels) := by
      have hlocal : ".local".toList <:+ Dns.dotted labels := by
        rw [hname]
        exact List.suffix_append _ _
      simp only [Dns.isInteresting, hlow, hhigh, hlocal, decide_true, Bool.true_and, Bool.true_or]
    refine List.mem_flatMap.mpr ⟨_, mem_extractNames_encode before after labels hint, ?_⟩
    have hs : ¬ isService (Dns.dotted labels) := by
      simpa only [isService, Bool.or_eq_true] using hservice
    have hstrip := (Str.stripSuffix_eq_some_iff _ _ _).mpr hname
    simp only [nameSignal, hs, hstrip, hne, hhead, ne_eq, not_false_eq_true, and_self, if_true,
      Bool.false_eq_true, if_false, List.mem_singleton]

/-- The label `local`. -/
def localLabel : Dns.Label := ⟨[108, 111, 99, 97, 108], by decide, by decide, by decide⟩

def letterLabel (b : UInt8) (h : Dns.isLabelByte b) : Dns.Label :=
  ⟨[b], by simp, by simp, by simpa using h⟩

theorem decode_encodedName_host :
    .hostname "a.b".toList ∈ decode ([0] ++
      Dns.encodeName [letterLabel 97 rfl, letterLabel 98 rfl, localLabel] ++ [1]) :=
  ((decode_encodedName [0] [1] [letterLabel 97 rfl, letterLabel 98 rfl, localLabel]).2
    (by decide) (by decide)).2 (by decide) "a.b".toList (by decide) (by decide) (by decide)

end Mdns

/-! ## Messages -/

structure Question where
  labels : List Dns.Label
  qtype : UInt16
  qclass : UInt16

def Question.fields (q : Question) : List UInt8 :=
  BigEndian.bytes16 q.qtype ++ BigEndian.bytes16 q.qclass

def Question.bytes (q : Question) : List UInt8 := Dns.encodeName q.labels ++ q.fields

/-- A message that carries nothing but questions. -/
structure Message where
  header : List UInt8
  header_length : header.length = 12
  questions : List Question

namespace Message

def bytes (m : Message) : List UInt8 := m.header ++ m.questions.flatMap Question.bytes

/-- The rest of the message from one of the labels of a question on. -/
def LabelStart (m : Message) (rest : List UInt8) : Prop :=
  ∃ before q after ls, m.questions = before ++ q :: after ∧ ls <:+ q.labels ∧ ls ≠ [] ∧
    rest = Dns.encodeName ls ++ (q.fields ++ after.flatMap Question.bytes)

/-- The name of a question, or what is left of it after its first labels. -/
def Asks (m : Message) (name : Str) : Prop :=
  ∃ q ∈ m.questions, ∃ ls, ls <:+ q.labels ∧ name = Dns.dotted ls

/-- The name is read at an offset where no label starts. -/
def Misreads (m : Message) (name : Str) : Prop :=
  ∃ rest, rest <:+ m.bytes ∧ Dns.Spells rest name ∧ ¬ m.LabelStart rest

/-- The first byte is no label length, or the second is no byte of a label. -/
def Fenced (b c : UInt8) : Prop := b = 0 ∨ b &&& 0xC0 ≠ 0 ∨ Dns.isLabelByte c = false

instance : DecidableRel Fenced := fun _ _ => inferInstanceAs (Decidable (_ ∨ _ ∨ _))

/-- Labels of less than 32 bytes, and no byte in the header, a type or a class that could be the
length of a label that follows. -/
def Ordinary (m : Message) : Prop :=
  (∀ q ∈ m.questions, ∀ l ∈ q.labels, l.bytes.length < 32) ∧
    m.header.IsChain Fenced ∧ ∀ q ∈ m.questions, q.fields.IsChain Fenced

instance : DecidablePred Ordinary := fun _ => inferInstanceAs (Decidable (_ ∧ _ ∧ _))

end Message

namespace Dns

theorem Spells.unique {bytes : List UInt8} {name name' : Str} (h : Spells bytes name)
    (h' : Spells bytes name') : name = name' := by
  obtain ⟨next, hread⟩ := h
  obtain ⟨next', hread'⟩ := h'
  exact congrArg Prod.fst (Option.some.inj (hread.symm.trans hread'))

/-- A text is only read off a length byte that as many label bytes follow. -/
theorem Spells.label {b : UInt8} {rest : List UInt8} {name : Str} (h : Spells (b :: rest) name)
    (hname : name ≠ []) : b ≠ 0 ∧ b &&& 0xC0 = 0 ∧ b.toNat ≤ rest.length ∧
      (rest.take b.toNat).all isLabelByte := by
  obtain ⟨next, hread⟩ := h
  have hlen : (b :: rest)[0]? = some b := rfl
  rw [readName, readLabels_step hlen] at hread
  by_cases hb : b = 0
  · rw [if_pos hb, Option.some.injEq, Prod.mk.injEq] at hread
    exact absurd hread.1.symm hname
  · rw [if_neg hb] at hread
    by_cases hptr : b &&& 0xC0 ≠ 0
    · rw [if_pos hptr, if_pos rfl] at hread
      exact absurd hread.symm (Option.some_ne_none _)
    · rw [if_neg hptr] at hread
      by_cases hshort : (b :: rest).length < 0 + 1 + b.toNat
      · rw [if_pos hshort] at hread
        exact absurd hread.symm (Option.some_ne_none _)
      · rw [if_neg hshort] at hread
        by_cases hlabel : (((b :: rest).drop (0 + 1)).take b.toNat).all isLabelByte
        · refine ⟨hb, not_not.mp hptr, ?_, hlabel⟩
          rw [List.length_cons] at hshort
          omega
        · rw [if_neg hlabel] at hread
          exact absurd hread.symm (Option.some_ne_none _)

/-- The byte after the first one belongs to a label. -/
private theorem Spells.not_fenced {b c : UInt8} {rest : List UInt8} {name : Str}
    (h : Spells (b :: c :: rest) name) (hname : name ≠ []) : ¬ Message.Fenced b c := by
  obtain ⟨hb, hptr, _, hall⟩ := h.label hname
  have hpos : b.toNat ≠ 0 := fun hzero => hb (UInt8.toNat_inj.mp hzero)
  obtain ⟨n, hn⟩ := Nat.exists_eq_succ_of_ne_zero hpos
  rw [hn, List.take_succ_cons, List.all_cons, Bool.and_eq_true] at hall
  rintro (hzero | hpointer | hother)
  · exact hb hzero
  · exact hpointer hptr
  · rw [hall.1] at hother
    exact absurd hother.symm Bool.false_ne_true

/-- No byte of a label passes for the length of a label that crosses the end of its own. -/
private theorem not_spells_within {u rest : List UInt8} {c : UInt8} (hu : u.all isLabelByte)
    (hne : u ≠ []) (hshort : u.length ≤ 32) (hc : isLabelByte c = false) {name : Str}
    (hname : name ≠ []) : ¬ Spells (u ++ c :: rest) name := by
  intro h
  cases u with
  | nil => exact hne rfl
  | cons b u =>
      obtain ⟨_, _, _, hall⟩ := h.label hname
      rw [List.all_cons, Bool.and_eq_true] at hu
      have hlow := (isLabelByte_bounds hu.1).2
      have hcross : u.length < b.toNat := by
        rw [List.length_cons] at hshort
        omega
      have hmem : c ∈ (u ++ c :: rest).take b.toNat := by
        obtain ⟨n, hn⟩ := Nat.exists_eq_add_of_lt hcross
        rw [hn, Nat.add_assoc, List.take_length_add_append, List.take_succ_cons]
        exact List.mem_append_right _ List.mem_cons_self
      rw [List.all_eq_true.mp hall c hmem] at hc
      exact absurd hc.symm Bool.false_ne_true

/-- A name starts with a byte that is no byte of a label, while its labels are short. -/
private theorem encodeName_head (ls : List Label) (hshort : ∀ l ∈ ls, l.bytes.length < 32)
    (tail : List UInt8) : ∃ c rest, encodeName ls ++ tail = c :: rest ∧ isLabelByte c = false := by
  cases ls with
  | nil => exact ⟨0, tail, rfl, by decide⟩
  | cons l ls =>
      refine ⟨l.lengthByte, l.bytes ++ encodeName ls ++ tail, rfl, ?_⟩
      by_contra hlabel
      have hlow := (isLabelByte_bounds (Bool.not_eq_false _ ▸ hlabel)).2
      rw [l.toNat_lengthByte] at hlow
      exact absurd (hshort l List.mem_cons_self) (not_lt.mpr hlow)

/-- Within a name of short labels, a text is only read where a label starts. -/
private theorem spells_within_name {ls : List Label} (hshort : ∀ l ∈ ls, l.bytes.length < 32)
    {c : UInt8} {u tail : List UInt8} (hu : c :: u <:+ encodeName ls) {name : Str}
    (hname : name ≠ []) (h : Spells (c :: u ++ tail) name) :
    ∃ ls', ls' <:+ ls ∧ ls' ≠ [] ∧ c :: u = encodeName ls' := by
  induction ls with
  | nil =>
      have hzero : c = 0 := by
        cases List.suffix_cons_iff.mp hu with
        | inl heq => exact (List.cons.inj heq).1
        | inr hnil => exact absurd (List.suffix_nil.mp hnil) (List.cons_ne_nil _ _)
      exact absurd hzero (Spells.label h hname).1
  | cons l ls ih =>
      cases List.suffix_cons_iff.mp hu with
      | inl heq => exact ⟨l :: ls, List.suffix_refl _, List.cons_ne_nil _ _, heq⟩
      | inr hrest =>
          have hls : ∀ l ∈ ls, l.bytes.length < 32 :=
            fun k hk => hshort k (List.mem_cons_of_mem _ hk)
          cases suffix_append_cases hrest with
          | inl hlater =>
              obtain ⟨ls', hsuffix, hne, heq⟩ := ih hls hlater
              exact ⟨ls', hsuffix.trans (List.suffix_cons l ls), hne, heq⟩
          | inr hinside =>
              obtain ⟨d, v, hv, heq⟩ := hinside
              obtain ⟨e, rest, hhead, he⟩ := encodeName_head ls hls tail
              rw [heq, List.append_assoc, hhead] at h
              have hprintable : (d :: v).all isLabelByte :=
                List.all_eq_true.mpr fun b hb => List.all_eq_true.mp l.printable b (hv.subset hb)
              have hlen : (d :: v).length ≤ 32 :=
                hv.length_le.trans (hshort l List.mem_cons_self).le
              exact absurd h (not_spells_within hprintable (List.cons_ne_nil _ _) hlen he hname)

/-- Nothing is read in a fenced field that no byte of a label follows. -/
private theorem not_spells_fenced {field : List UInt8} (hfield : field.IsChain Message.Fenced)
    {b : UInt8} {u tail : List UInt8} (hu : b :: u <:+ field)
    (htail : tail = [] ∨ ∃ c rest, tail = c :: rest ∧ isLabelByte c = false) {name : Str}
    (hname : name ≠ []) : ¬ Spells (b :: u ++ tail) name := by
  intro h
  cases u with
  | cons c u =>
      have hfence := (List.isChain_cons_cons.mp (hfield.suffix hu)).1
      exact Spells.not_fenced h hname hfence
  | nil =>
      rcases htail with rfl | ⟨c, rest, rfl, hc⟩
      · obtain ⟨hb, _, hlen, _⟩ := Spells.label h hname
        exact hb (UInt8.toNat_inj.mp (Nat.le_zero.mp hlen))
      · exact Spells.not_fenced h hname (Or.inr (Or.inr hc))

end Dns

namespace Message

private theorem questions_head (qs : List Question)
    (hshort : ∀ q ∈ qs, ∀ l ∈ q.labels, l.bytes.length < 32) :
    qs.flatMap Question.bytes = [] ∨
      ∃ c rest, qs.flatMap Question.bytes = c :: rest ∧ Dns.isLabelByte c = false := by
  cases qs with
  | nil => exact Or.inl rfl
  | cons q qs =>
      rw [List.flatMap_cons, Question.bytes, List.append_assoc]
      exact Or.inr (Dns.encodeName_head q.labels (hshort q List.mem_cons_self) _)

private theorem spells_in_questions {qs : List Question}
    (hshort : ∀ q ∈ qs, ∀ l ∈ q.labels, l.bytes.length < 32)
    (hfields : ∀ q ∈ qs, q.fields.IsChain Fenced) {c : UInt8} {u : List UInt8}
    (hu : c :: u <:+ qs.flatMap Question.bytes) {name : Str} (hname : name ≠ [])
    (h : Dns.Spells (c :: u) name) :
    ∃ before q after ls, qs = before ++ q :: after ∧ ls <:+ q.labels ∧ ls ≠ [] ∧
      c :: u = Dns.encodeName ls ++ (q.fields ++ after.flatMap Question.bytes) := by
  induction qs with
  | nil => exact absurd (List.suffix_nil.mp hu) (List.cons_ne_nil _ _)
  | cons q qs ih =>
      have hshort' : ∀ q ∈ qs, ∀ l ∈ q.labels, l.bytes.length < 32 :=
        fun k hk => hshort k (List.mem_cons_of_mem _ hk)
      rw [List.flatMap_cons] at hu
      cases suffix_append_cases hu with
      | inl hlater =>
          obtain ⟨before, r, after, ls, rfl, hrest⟩ :=
            ih hshort' (fun k hk => hfields k (List.mem_cons_of_mem _ hk)) hlater
          exact ⟨q :: before, r, after, ls, rfl, hrest⟩
      | inr hinside =>
          obtain ⟨d, v, hv, heq⟩ := hinside
          rw [heq] at h ⊢
          rw [Question.bytes] at hv
          cases suffix_append_cases hv with
          | inl hfield =>
              exact absurd h (Dns.not_spells_fenced (hfields q List.mem_cons_self) hfield
                (questions_head qs hshort') hname)
          | inr hlabels =>
              obtain ⟨e, w, hw, heq'⟩ := hlabels
              rw [heq', List.append_assoc] at h ⊢
              obtain ⟨ls, hsuffix, hne, hls⟩ :=
                Dns.spells_within_name (hshort q List.mem_cons_self) hw hname h
              exact ⟨[], q, qs, ls, rfl, hsuffix, hne, by rw [hls]⟩

private theorem Ordinary.labelStart {m : Message} (hm : m.Ordinary) {rest : List UInt8}
    (hrest : rest <:+ m.bytes) (hne : rest ≠ []) {name : Str} (hname : name ≠ [])
    (h : Dns.Spells rest name) : m.LabelStart rest := by
  obtain ⟨hshort, hheader, hfields⟩ := hm
  cases suffix_append_cases hrest with
  | inl hquestions =>
      cases rest with
      | nil => exact absurd rfl hne
      | cons c u => exact spells_in_questions hshort hfields hquestions hname h
  | inr hinside =>
      obtain ⟨c, u, hu, rfl⟩ := hinside
      exact absurd h
        (Dns.not_spells_fenced hheader hu (questions_head m.questions hshort) hname)

private theorem LabelStart.asks {m : Message} {rest : List UInt8} (h : m.LabelStart rest)
    {name : Str} (hspells : Dns.Spells rest name) : m.Asks name := by
  obtain ⟨before, q, after, ls, hquestions, hsuffix, _, rfl⟩ := h
  refine ⟨q, ?_, ls, hsuffix, hspells.unique (Dns.spells_encode ls _)⟩
  rw [hquestions]
  exact List.mem_append_right _ List.mem_cons_self

end Message

namespace Mdns

/-- The name that a signal was made of. -/
def MadeOf (sig : Signal) (name : Str) : Prop :=
  sig = .service name ∨ ∃ host, sig = .hostname host ∧ name = host ++ ".local".toList

private theorem madeOf_of_mem_nameSignal {sig : Signal} {name : Str}
    (h : sig ∈ nameSignal name) : MadeOf sig name := by
  unfold nameSignal at h
  split_ifs at h with hservice
  · exact Or.inl (List.mem_singleton.mp h)
  · cases hstrip : name.stripSuffix ".local".toList with
    | none =>
        rw [hstrip] at h
        exact absurd h List.not_mem_nil
    | some host =>
        rw [hstrip] at h
        dsimp only at h
        split_ifs at h
        · exact Or.inr ⟨host, List.mem_singleton.mp h, (Str.stripSuffix_eq_some_iff _ _ _).mp hstrip⟩
        · exact absurd h List.not_mem_nil

private theorem exists_spells_of_mem_decode {payload : List UInt8} {sig : Signal}
    (h : sig ∈ decode payload) : ∃ name rest, MadeOf sig name ∧ name ≠ [] ∧ rest ≠ [] ∧
      rest <:+ payload ∧ Dns.Spells rest name := by
  obtain ⟨name, hname, hsig⟩ := List.mem_flatMap.mp h
  obtain ⟨hint, rest, hne, hsuffix, hspells⟩ := Dns.mem_extractNames_iff.mp hname
  refine ⟨name, rest, madeOf_of_mem_nameSignal hsig, ?_, hne, hsuffix, hspells⟩
  rintro rfl
  exact absurd hint (by decide)

/-- What is reported of a message of questions is the name of a question or what its later labels
spell, or is read where no label starts. In an ordinary message nothing is read there. -/
theorem decode_questions (m : Message) :
    (∀ sig ∈ decode m.bytes, ∃ name, MadeOf sig name ∧ (m.Asks name ∨ m.Misreads name)) ∧
      (m.Ordinary → ∀ sig ∈ decode m.bytes, ∃ name, MadeOf sig name ∧ m.Asks name) := by
  constructor
  · intro sig hsig
    obtain ⟨name, rest, hmade, _, _, hsuffix, hspells⟩ := exists_spells_of_mem_decode hsig
    refine ⟨name, hmade, ?_⟩
    by_cases hstart : m.LabelStart rest
    · exact Or.inl (hstart.asks hspells)
    · exact Or.inr ⟨rest, hsuffix, hspells, hstart⟩
  · intro hm sig hsig
    obtain ⟨name, rest, hmade, hname, hne, hsuffix, hspells⟩ := exists_spells_of_mem_decode hsig
    exact ⟨name, hmade, (hm.labelStart hsuffix hne hname hspells).asks hspells⟩

/-- A question for the address of `a.b.local`. -/
def addressQuery : Message where
  header := [0, 0, 0, 0, 0, 1, 0, 0, 0, 0, 0, 0]
  header_length := rfl
  questions := [⟨[letterLabel 97 rfl, letterLabel 98 rfl, localLabel], 1, 1⟩]

theorem decode_questions_address : ∀ sig ∈ decode addressQuery.bytes,
    ∃ name, MadeOf sig name ∧ addressQuery.Asks name :=
  (decode_questions addressQuery).2 (by decide)

/-- A question for `local` under a header whose last two bytes read as the label `a`. -/
def countedQuery : Message where
  header := [0, 0, 0, 0, 0, 1, 0, 0, 0, 0, 1, 97]
  header_length := rfl
  questions := [⟨[localLabel], 1, 1⟩]

private theorem addressQuery_reports : .hostname "b".toList ∈ decode addressQuery.bytes := by
  have hbytes : addressQuery.bytes = [0, 0, 0, 0, 0, 1, 0, 0, 0, 0, 0, 0, 1, 97] ++
      Dns.encodeName [letterLabel 98 rfl, localLabel] ++ [0, 1, 0, 1] := by decide +kernel
  rw [hbytes]
  exact List.mem_flatMap.mpr ⟨_, mem_extractNames_encode _ _ _ (by decide), by decide⟩

private theorem countedQuery_reports : .hostname "a".toList ∈ decode countedQuery.bytes := by
  have hbytes : countedQuery.bytes = [0, 0, 0, 0, 0, 1, 0, 0, 0, 0] ++
      Dns.encodeName [letterLabel 97 rfl, localLabel] ++ [0, 1, 0, 1] := by decide +kernel
  rw [hbytes]
  exact List.mem_flatMap.mpr ⟨_, mem_extractNames_encode _ _ _ (by decide), by decide⟩

private theorem eq_of_madeOf_hostname {host name : Str} (h : MadeOf (.hostname host) name) :
    name = host ++ ".local".toList := by
  rcases h with hservice | ⟨_, heq, hname⟩
  · exact absurd hservice (by simp)
  · rw [hname, Signal.hostname.inj heq]

/-- A host that only the later labels of a question spell, and one that no labels spell. -/
theorem decode_invents :
    (¬ ∀ (m : Message), ∀ sig ∈ decode m.bytes,
      ∃ q ∈ m.questions, MadeOf sig (Dns.dotted q.labels)) ∧
    ¬ ∀ (m : Message), ∀ sig ∈ decode m.bytes, ∃ name, MadeOf sig name ∧ m.Asks name := by
  constructor
  · intro h
    obtain ⟨q, hq, hmade⟩ := h addressQuery _ addressQuery_reports
    obtain rfl := List.mem_singleton.mp hq
    exact absurd (eq_of_madeOf_hostname hmade) (by decide)
  · intro h
    obtain ⟨name, hmade, q, hq, ls, hsuffix, hdotted⟩ := h countedQuery _ countedQuery_reports
    obtain rfl := List.mem_singleton.mp hq
    rw [eq_of_madeOf_hostname hmade] at hdotted
    cases List.suffix_cons_iff.mp hsuffix with
    | inl hall =>
        rw [hall] at hdotted
        exact absurd hdotted (by decide)
    | inr hnil =>
        rw [List.suffix_nil.mp hnil] at hdotted
        exact absurd hdotted (by decide)

end Mdns

end Lanscope
