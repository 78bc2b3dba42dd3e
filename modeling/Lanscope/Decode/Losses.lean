import Lanscope.Decode.Truncation

/-!
# What a cut loses

The first bytes of a payload say all that the whole says exactly when the options that say something
end before the cut, the names that say something are spelled before it, or the line it falls in reports
what the lines from there on report. The kernel cuts at `copyLen`, so this is when a discovery datagram
reaches userspace undiminished.
-/

namespace Lanscope

open Framework

/-! ## DHCP -/

namespace Dhcp

private theorem OptionTo.two_le {code : UInt8} {data area : List UInt8} {stop : Nat}
    (h : OptionTo code data area stop) : 2 ≤ stop := by
  induction h with
  | here => omega
  | pad _ ih => omega
  | later => omega

private theorem optionTo_pad_iff {code : UInt8} {data rest : List UInt8} {stop : Nat} :
    OptionTo code data (optPad :: rest) stop ↔
      ∃ s, stop = s + 1 ∧ OptionTo code data rest s := by
  constructor
  · intro h
    cases h with
    | here hpad => exact absurd rfl hpad
    | pad h => exact ⟨_, rfl, h⟩
    | later hpad => exact absurd rfl hpad
  · rintro ⟨s, rfl, h⟩
    exact .pad h

private theorem optionTo_option_iff {c len : UInt8} (hpad : c ≠ optPad) (hend : c ≠ optEnd)
    {body : List UInt8} (hfit : len.toNat ≤ body.length) {code : UInt8} {data : List UInt8}
    {stop : Nat} : OptionTo code data (c :: len :: body) stop ↔
      (code = c ∧ data = body.take len.toNat ∧ stop = len.toNat + 2) ∨
      ∃ s, stop = len.toNat + 2 + s ∧ OptionTo code data (body.drop len.toNat) s := by
  constructor
  · intro h
    cases h with
    | here _ _ _ hdata => exact Or.inl ⟨rfl, hdata, rfl⟩
    | pad => exact absurd rfl hpad
    | later _ _ _ h => exact Or.inr ⟨_, rfl, h⟩
  · rintro (⟨rfl, hdata, rfl⟩ | ⟨s, rfl, h⟩)
    · exact .here hpad hend hfit hdata
    · exact .later hpad hend hfit h

/-- All options that say something end within the first bytes. -/
def OptionsSpared (area : List UInt8) (n : Nat) : Prop :=
  ∀ code data stop, OptionTo code data area stop → Usable code data → stop ≤ n

private theorem optionsSpared_of_none {area : List UInt8} {n : Nat}
    (h : ∀ code data stop, ¬ OptionTo code data area stop) : OptionsSpared area n :=
  fun code data stop hopt => absurd hopt (h code data stop)

private theorem optionsSpared_pad_iff {rest : List UInt8} {n : Nat} :
    OptionsSpared (optPad :: rest) n ↔ OptionsSpared rest (n - 1) := by
  simp only [OptionsSpared, optionTo_pad_iff]
  constructor
  · intro h code data stop hopt husable
    have hstop := h code data _ ⟨stop, rfl, hopt⟩ husable
    omega
  · rintro h code data _ ⟨s, rfl, hopt⟩ husable
    have hstop := h code data s hopt husable
    have htwo := hopt.two_le
    omega

private theorem optionsSpared_option_iff {c len : UInt8} (hpad : c ≠ optPad) (hend : c ≠ optEnd)
    {body : List UInt8} (hfit : len.toNat ≤ body.length) {n : Nat} :
    OptionsSpared (c :: len :: body) n ↔
      (Usable c (body.take len.toNat) → len.toNat + 2 ≤ n) ∧
        OptionsSpared (body.drop len.toNat) (n - (len.toNat + 2)) := by
  simp only [OptionsSpared, optionTo_option_iff hpad hend hfit]
  constructor
  · refine fun h => ⟨h c _ _ (Or.inl ⟨rfl, rfl, rfl⟩), fun code data stop hopt husable => ?_⟩
    have hstop := h code data _ (Or.inr ⟨stop, rfl, hopt⟩) husable
    omega
  · rintro ⟨hhere, hlater⟩ code data stop (⟨rfl, rfl, rfl⟩ | ⟨s, rfl, hopt⟩) husable
    · exact hhere husable
    · have hstop := hlater code data s hopt husable
      have htwo := hopt.two_le
      omega

/-- An area says the same when it is cut exactly when what says something ends before the cut. -/
theorem walk_take_eq_iff (area : List UInt8) (n : Nat) :
    walk (area.take n) = walk area ↔ OptionsSpared area n := by
  fun_induction walk area generalizing n with
  | case1 => exact iff_of_true (by simp) (optionsSpared_of_none fun _ _ _ h => by cases h)
  | case2 rest ih =>
      rw [optionsSpared_pad_iff, ← ih]
      cases n with
      | zero => simp
      | succ n => rw [List.take_succ_cons, walk_pad, Nat.add_sub_cancel]
  | case3 rest hne =>
      refine iff_of_true ?_ (optionsSpared_of_none fun _ _ _ h => ?_)
      · cases n with
        | zero => simp
        | succ n => rw [List.take_succ_cons, walk_end]
      · generalize harea : optEnd :: rest = area at h
        cases h with
        | here _ hend | later _ hend => exact hend (List.cons.inj harea).1.symm
        | pad => exact hne (List.cons.inj harea).1
  | case4 code hpad hend =>
      refine iff_of_true ?_ (optionsSpared_of_none fun _ _ _ h => ?_)
      · cases n with
        | zero => simp
        | succ n => rw [List.take_succ_cons, List.take_nil, walk_code hpad hend]
      · cases h with
        | pad => exact hpad rfl
  | case5 code hpad hend len body hcut =>
      refine iff_of_true (walk_take_cut hpad hend (Or.inl hcut)) (optionsSpared_of_none fun _ _ _ h => ?_)
      cases h with
      | here _ _ hfit | later _ _ hfit => omega
      | pad => exact hpad rfl
  | case6 code hpad hend len body hcut ih =>
      rw [optionsSpared_option_iff hpad hend (not_lt.mp hcut), ← ih]
      by_cases hn : n < len.toNat + 2
      · rw [walk_take_cut hpad hend (Or.inr hn), Nat.sub_eq_zero_of_le hn.le, List.take_zero, walk_nil,
          eq_comm, List.append_eq_nil_iff, eq_comm (a := [])]
        refine and_congr_left fun _ => ?_
        rw [← not_iff_not, ← ne_eq, optionSignal_ne_nil_iff]
        simp [hn]
      · obtain ⟨m, rfl⟩ := Nat.exists_eq_add_of_le (not_lt.mp hn)
        have hdata : (body.take len.toNat).length = len.toNat := by
          rw [List.length_take]
          omega
        rw [take_option, walk_option hpad hend hdata, List.append_cancel_left_eq, Nat.add_sub_cancel_left]
        exact ⟨fun h => ⟨fun _ => Nat.le_add_right _ _, h⟩, And.right⟩

/-- After the first magic cookie, all options that say something end within the first bytes. -/
def OptionsInside (payload : List UInt8) (n : Nat) : Prop :=
  ∀ p, FirstCookie payload p → ∀ code data stop, OptionTo code data (payload.drop (p + 4)) stop →
    Usable code data → p + 4 + stop ≤ n

theorem decode_take_eq_iff (payload : List UInt8) (n : Nat) :
    decode (payload.take n) = decode payload ↔ OptionsInside payload n := by
  cases hfind : findOptions payload with
  | none =>
      have hnone : decode payload = [] := by rw [decode, hfind]
      refine iff_of_true ?_ fun p hp => ?_
      · rw [hnone, ← List.prefix_nil, ← hnone]
        exact decode_take_prefix payload n
      · rw [(findOptions_eq_some_iff _ _).mpr ⟨p, rfl, hp⟩] at hfind
        exact absurd hfind (Option.some_ne_none _)
  | some start =>
      obtain ⟨p, rfl, hfirst⟩ := (findOptions_eq_some_iff _ _).mp hfind
      have hunique (q : Nat) (hq : FirstCookie payload q) : q = p := by
        have hsame := (findOptions_eq_some_iff _ _).mpr ⟨q, rfl, hq⟩
        rw [hfind, Option.some.injEq] at hsame
        omega
      have hinside : OptionsInside payload n ↔ ∀ code data stop,
          OptionTo code data (payload.drop (p + 4)) stop → Usable code data → p + 4 + stop ≤ n :=
        ⟨fun h => h p hfirst, fun h q hq => hunique q hq ▸ h⟩
      rw [hinside, decode_of_firstCookie hfirst]
      by_cases hn : p + 4 ≤ n
      · have hcut : FirstCookie (payload.take n) p := by
          refine ⟨(cookie_take payload n p).mpr ⟨hn, hfirst.1⟩, fun q hq hcookie => ?_⟩
          exact hfirst.2 q hq ((cookie_take payload n q).mp hcookie).2
        rw [decode_of_firstCookie hcut, List.drop_take, walk_take_eq_iff]
        unfold OptionsSpared
        exact forall₅_congr fun code data stop _ _ => by omega
      · have hcut : decode (payload.take n) = walk ((payload.drop (p + 4)).take 0) := by
          rw [List.take_zero, walk_nil, decode]
          cases hcookie : findOptions (payload.take n) with
          | none => rfl
          | some start =>
              obtain ⟨q, rfl, hq⟩ := (findOptions_eq_some_iff _ _).mp hcookie
              obtain ⟨hle, hq⟩ := hq.of_take
              exact absurd (hunique q hq ▸ hle) hn
        rw [hcut, walk_take_eq_iff]
        unfold OptionsSpared
        refine forall₅_congr fun code data stop hopt _ => ?_
        have htwo := hopt.two_le
        omega

end Dhcp

/-! ## mDNS -/

namespace Dns

private theorem length_dotted {labels : List Label} (h : labels ≠ []) :
    (dotted labels).length + 1 = (encodeLabels labels).length := by
  induction labels with
  | nil => exact absurd rfl h
  | cons l labels ih =>
      have hl : l.text.length = l.bytes.length := List.length_map _
      cases labels with
      | nil => simp [dotted, Str.join, encodeLabels, hl]
      | cons l' labels =>
          have hrest := ih (List.cons_ne_nil _ _)
          have hjoin : dotted (l :: l' :: labels) = l.text ++ (['.'] ++ dotted (l' :: labels)) := by
            rw [dotted, List.map_cons, List.map_cons, Str.join, List.intercalate_cons_cons,
              List.append_assoc]
            rfl
          rw [hjoin, encodeLabels_cons]
          simp only [List.length_append, List.length_cons, List.length_nil, hl] at hrest ⊢
          omega

/-- How long a name is on the wire does not depend on how it is cut into labels. -/
private theorem SpelledAt.stop_eq {buf : List UInt8} {pos stop : Nat} {name : Str}
    (h : SpelledAt buf pos stop name) (hne : name ≠ []) : stop = pos + name.length + 2 := by
  obtain ⟨labels, b, rest, rfl, _, rfl, _⟩ := h
  have hlabels : labels ≠ [] := by
    rintro rfl
    exact hne rfl
  have hlength := length_dotted hlabels
  omega

/-- The first bytes spell what is spelled within them. -/
theorem spelledAt_take_iff {buf : List UInt8} {n pos stop : Nat} {name : Str} :
    SpelledAt (buf.take n) pos stop name ↔ SpelledAt buf pos stop name ∧ stop ≤ n := by
  unfold SpelledAt
  rw [List.drop_take]
  constructor
  · rintro ⟨labels, b, rest, hname, hdrop, rfl, hend⟩
    have hlength := congrArg List.length hdrop
    rw [List.length_take, List.length_append, List.length_cons] at hlength
    refine ⟨⟨labels, b, rest ++ (buf.drop pos).drop (n - pos), hname, ?_, rfl, hend⟩, by omega⟩
    rw [← List.cons_append, ← List.append_assoc, ← hdrop, List.take_append_drop]
  · rintro ⟨⟨labels, b, rest, hname, hdrop, rfl, hend⟩, hle⟩
    obtain ⟨m, hm⟩ : ∃ m, n - pos = (encodeLabels labels).length + (m + 1) :=
      ⟨n - pos - (encodeLabels labels).length - 1, by omega⟩
    refine ⟨labels, b, rest.take m, hname, ?_, rfl, hend⟩
    rw [hdrop, hm, List.take_length_add_append, List.take_succ_cons]

/-- The name is spelled within the first bytes. -/
def SpelledWithin (buf : List UInt8) (n : Nat) (name : Str) : Prop :=
  ∃ pos stop, SpelledAt buf pos stop name ∧ stop ≤ n

theorem ne_nil_of_isInteresting {name : Str} (h : isInteresting name) : name ≠ [] := by
  rintro rfl
  exact absurd h (by decide)

/-- A name that the first bytes spell is first spelled there. -/
private theorem FirstSpelledAt.take {buf : List UInt8} {n p : Nat} {name : Str}
    (h : FirstSpelledAt buf p name) (hne : name ≠ []) (hwithin : SpelledWithin buf n name) :
    FirstSpelledAt (buf.take n) p name := by
  obtain ⟨⟨stop, hspelled⟩, hfirst⟩ := h
  obtain ⟨q, stop', hq, hle⟩ := hwithin
  refine ⟨⟨stop, spelledAt_take_iff.mpr ⟨hspelled, ?_⟩⟩, fun r hr stop'' hspelled' => ?_⟩
  · have hpq : p ≤ q := by
      by_contra hlt
      exact hfirst q (not_le.mp hlt) stop' hq
    have hp := hspelled.stop_eq hne
    have hstop := hq.stop_eq hne
    omega
  · exact hfirst r hr stop'' (spelledAt_take_iff.mp hspelled').1

private theorem exists_first_of_mem {buf : List UInt8} {name : Str} (h : name ∈ extractNames buf) :
    ∃ p, FirstSpelledAt buf p name :=
  exists_firstSpelledAt (mem_extractNames_iff_spelledAt.mp h).2

private theorem nodup_extractNames (buf : List UInt8) : (extractNames buf).Nodup := by
  refine (pairwise_extractNames buf).imp_of_mem fun {a b} ha _ hlt hab => ?_
  subst b
  obtain ⟨p, hp⟩ := exists_first_of_mem ha
  exact absurd (hlt p p hp hp) (lt_irrefl p)

private theorem mem_extractNames_take_iff {buf : List UInt8} {n : Nat} {name : Str} :
    name ∈ extractNames (buf.take n) ↔ name ∈ extractNames buf ∧ SpelledWithin buf n name := by
  simp only [mem_extractNames_iff_spelledAt, spelledAt_take_iff]
  constructor
  · rintro ⟨hint, pos, stop, hspelled, hle⟩
    exact ⟨⟨hint, pos, stop, hspelled⟩, pos, stop, hspelled, hle⟩
  · rintro ⟨⟨hint, _⟩, hwithin⟩
    exact ⟨hint, hwithin⟩

open Classical in
/-- A cut keeps the names that are spelled before it, in their order. -/
theorem extractNames_take (buf : List UInt8) (n : Nat) :
    extractNames (buf.take n) = (extractNames buf).filter fun name => SpelledWithin buf n name := by
  have hmem (name : Str) : name ∈ extractNames (buf.take n) ↔
      name ∈ (extractNames buf).filter fun name => SpelledWithin buf n name := by
    rw [List.mem_filter, decide_eq_true_iff, mem_extractNames_take_iff]
  have hfirst {p : Nat} {name : Str} (hname : name ∈ extractNames (buf.take n))
      (hp : FirstSpelledAt buf p name) : FirstSpelledAt (buf.take n) p name := by
    obtain ⟨hwhole, hwithin⟩ := mem_extractNames_take_iff.mp hname
    exact hp.take (ne_nil_of_isInteresting (mem_extractNames_iff_spelledAt.mp hwhole).1) hwithin
  -- both lists hold the same names in the order in which the buffer spells them first
  refine @List.Perm.eq_of_pairwise Str (fun a b => ∀ p q, FirstSpelledAt buf p a →
    FirstSpelledAt buf q b → p < q) _ _ ?_ ?_ ?_ ?_
  · intro a b ha hb hab hba
    obtain ⟨p, hp⟩ := exists_first_of_mem (mem_extractNames_take_iff.mp ha).1
    obtain ⟨q, hq⟩ := exists_first_of_mem (List.mem_of_mem_filter hb)
    exact absurd (hab p q hp hq) (hba q p hq hp).asymm
  · exact (pairwise_extractNames _).imp_of_mem fun ha hb hlt p q hp hq =>
      hlt p q (hfirst ha hp) (hfirst hb hq)
  · exact (pairwise_extractNames buf).filter _
  · exact (List.perm_ext_iff_of_nodup (nodup_extractNames _) ((nodup_extractNames _).filter _)).mpr
      hmem

end Dns

namespace Mdns

/-- Every name that says something is spelled within the first bytes. -/
def NamesInside (payload : List UInt8) (n : Nat) : Prop :=
  ∀ name pos stop, Dns.SpelledAt payload pos stop name → Dns.isInteresting name → Usable name →
    Dns.SpelledWithin payload n name

private theorem flatMap_filter_eq_iff {α β : Type} (p : α → Bool) (f : α → List β) (l : List α) :
    (l.filter p).flatMap f = l.flatMap f ↔ ∀ a ∈ l, f a ≠ [] → p a := by
  induction l with
  | nil => simp
  | cons a l ih =>
      rw [List.forall_mem_cons, ← ih, List.flatMap_cons]
      by_cases ha : p a
      · rw [List.filter_cons_of_pos ha, List.flatMap_cons, List.append_cancel_left_eq]
        exact (and_iff_right fun _ => ha).symm
      · rw [List.filter_cons_of_neg ha]
        constructor
        · intro h
          have hle := ((List.filter_sublist (p := p) (l := l)).flatMap f).length_le
          rw [h, List.length_append] at hle
          have hnil : f a = [] := List.eq_nil_of_length_eq_zero (by omega)
          rw [hnil, List.nil_append] at h
          exact ⟨fun hne => absurd hnil hne, h⟩
        · rintro ⟨hnil, h⟩
          rw [h, not_not.mp (mt hnil ha), List.nil_append]

theorem decode_take_eq_iff (payload : List UInt8) (n : Nat) :
    decode (payload.take n) = decode payload ↔ NamesInside payload n := by
  classical
  rw [decode, Dns.extractNames_take, decode, flatMap_filter_eq_iff]
  simp only [nameSignal_ne_nil_iff, Dns.mem_extractNames_iff_spelledAt, decide_eq_true_iff]
  constructor
  · intro h name pos stop hspelled hint husable
    exact h name ⟨hint, pos, stop, hspelled⟩ husable
  · rintro h name ⟨hint, pos, stop, hspelled⟩ husable
    exact h name pos stop hspelled hint husable

end Mdns

/-! ## SSDP -/

namespace Ssdp

def Silent (line : Str) : Prop := ∀ service, ¬ Reports line service

/-- The line that the cut falls in reports what the lines of the whole from there on report: nothing
at all, or one service that one of them reports. -/
def CutLineSpared (payload : List UInt8) (n : Nat) : Prop :=
  let cut := Utf8.fromUtf8Lossy (payload.take n)
  let rest := (Utf8.fromUtf8Lossy payload).lines.drop cut.finishedLines.length
  (Silent cut.unfinishedLine ∧ ∀ line ∈ rest, Silent line) ∨
    ∃ service before line after, rest = before ++ line :: after ∧
      Reports cut.unfinishedLine service ∧ Reports line service ∧
      ∀ other ∈ before ++ after, Silent other

private theorem lineSignal_shape (line : Str) :
    lineSignal line = [] ∨ ∃ service, lineSignal line = [.service service] := by
  unfold lineSignal
  split
  · exact Or.inl rfl
  · dsimp only
    split_ifs
    · exact Or.inl rfl
    · exact Or.inr ⟨_, rfl⟩
    · exact Or.inr ⟨_, rfl⟩
    · exact Or.inl rfl

private theorem silent_iff {line : Str} : Silent line ↔ lineSignal line = [] := by
  constructor
  · intro h
    refine (lineSignal_shape line).resolve_right fun ⟨service, hone⟩ => ?_
    obtain ⟨service', _, hreports⟩ := (mem_lineSignal_iff line (.service service)).mp (by simp [hone])
    exact h service' hreports
  · intro h service hreports
    have hmem := (mem_lineSignal_iff line (.service service)).mpr ⟨service, rfl, hreports⟩
    rw [h] at hmem
    exact absurd hmem List.not_mem_nil

private theorem reports_iff {line service : Str} :
    Reports line service ↔ lineSignal line = [.service service] := by
  constructor
  · intro h
    have hmem := (mem_lineSignal_iff line (.service service)).mpr ⟨service, rfl, h⟩
    rcases lineSignal_shape line with hnil | ⟨other, hone⟩
    · rw [hnil] at hmem
      exact absurd hmem List.not_mem_nil
    · rw [hone, List.mem_singleton] at hmem
      rw [hone, hmem]
  · intro h
    obtain ⟨other, hother, hreports⟩ := (mem_lineSignal_iff line (.service service)).mp (by simp [h])
    exact Signal.service.inj hother ▸ hreports

private theorem flatMap_eq_singleton_iff {α β : Type} {f : α → List β} {l : List α} {b : β} :
    l.flatMap f = [b] ↔ ∃ before a after, l = before ++ a :: after ∧ f a = [b] ∧
      ∀ c ∈ before ++ after, f c = [] := by
  induction l with
  | nil => simp
  | cons a l ih =>
      rw [List.flatMap_cons, List.append_eq_singleton_iff, ih, List.flatMap_eq_nil_iff]
      constructor
      · rintro (⟨ha, before, c, after, rfl, hc, hothers⟩ | ⟨ha, hl⟩)
        · refine ⟨a :: before, c, after, rfl, hc, ?_⟩
          rw [List.cons_append, List.forall_mem_cons]
          exact ⟨ha, hothers⟩
        · exact ⟨[], a, l, rfl, ha, hl⟩
      · rintro ⟨before, c, after, hl, hc, hothers⟩
        cases before with
        | nil =>
            obtain ⟨rfl, rfl⟩ := List.cons.inj hl
            exact Or.inr ⟨hc, hothers⟩
        | cons d before =>
            obtain ⟨rfl, rfl⟩ := List.cons.inj hl
            rw [List.cons_append, List.forall_mem_cons] at hothers
            exact Or.inl ⟨hothers.1, before, c, after, rfl, hc, hothers.2⟩

private theorem decode_eq_finished (payload : List UInt8) : decode payload =
    (Utf8.fromUtf8Lossy payload).finishedLines.flatMap lineSignal ++
      lineSignal (Utf8.fromUtf8Lossy payload).unfinishedLine := by
  rw [decode, Str.lines_eq, List.flatMap_append]
  by_cases h : (Utf8.fromUtf8Lossy payload).unfinishedLine = []
  · rw [h]
    rfl
  · simp [h]

theorem decode_take_eq_iff (payload : List UInt8) (n : Nat) :
    decode (payload.take n) = decode payload ↔ CutLineSpared payload n := by
  obtain ⟨more, hmore⟩ := finishedLines_take payload n
  unfold CutLineSpared
  rw [decode_eq_finished (payload.take n)]
  generalize Utf8.fromUtf8Lossy (payload.take n) = cut at hmore ⊢
  obtain ⟨rest, hrest⟩ : ∃ rest, (Utf8.fromUtf8Lossy payload).lines = cut.finishedLines ++ rest := by
    rw [Str.lines_eq, ← hmore, List.append_assoc]
    exact ⟨_, rfl⟩
  rw [decode, hrest, List.flatMap_append, List.append_cancel_left_eq]
  dsimp only
  rw [List.drop_left]
  simp only [silent_iff, reports_iff]
  constructor
  · intro h
    rcases lineSignal_shape cut.unfinishedLine with hnil | ⟨service, hone⟩
    · exact Or.inl ⟨hnil, List.flatMap_eq_nil_iff.mp (h ▸ hnil)⟩
    · obtain ⟨before, line, after, hsplit, hline, hothers⟩ :=
        flatMap_eq_singleton_iff.mp (h.symm.trans hone)
      exact Or.inr ⟨service, before, line, after, hsplit, hone, hline, hothers⟩
  · rintro (⟨hnil, hall⟩ | ⟨service, before, line, after, hsplit, hone, hline, hothers⟩)
    · rw [hnil, List.flatMap_eq_nil_iff.mpr hall]
    · rw [hone, flatMap_eq_singleton_iff.mpr ⟨before, line, after, hsplit, hline, hothers⟩]

end Ssdp

/-! ## On the way to userspace -/

/-- The first bytes of the payload say what the whole says. -/
def CutSpares (kind : EventKind) (payload : List UInt8) (n : Nat) : Prop :=
  match kind with
  | .dhcp => Dhcp.OptionsInside payload n
  | .mdns => Mdns.NamesInside payload n
  | .ssdp => Ssdp.CutLineSpared payload n
  | .newHost | .arp | .tlsHello | .unknown => True

theorem decodeEvent_take_eq_iff (kind : EventKind) (mac : MacAddr) (srcIp : Ipv4Be)
    {payload : List UInt8} (hfits : payload.length ≤ eventPayloadLen) (n : Nat) :
    decodeEvent (Event.holding kind mac srcIp (payload.take n)) =
        decodeEvent (Event.holding kind mac srcIp payload) ↔ CutSpares kind payload n := by
  have hcut : (payload.take n).length ≤ eventPayloadLen :=
    (List.length_take_le' n payload).trans hfits
  have htag : Function.Injective fun signal =>
      (⟨mac, eventIp (Event.holding kind mac srcIp payload), signal⟩ : Observation) :=
    fun _ _ h => (Observation.mk.inj h).2.2
  have hsignals : decodeEvent (Event.holding kind mac srcIp (payload.take n)) =
        decodeEvent (Event.holding kind mac srcIp payload) ↔
      eventSignals (Event.holding kind mac srcIp (payload.take n)) =
        eventSignals (Event.holding kind mac srcIp payload) :=
    (List.map_injective_iff.mpr htag).eq_iff
  have hkind (bytes : List UInt8) : (Event.holding kind mac srcIp bytes).eventKind = kind :=
    EventKind.fromU8_toU8 kind
  rw [hsignals, eventSignals, eventSignals, hkind, hkind, Event.validPayload_holding _ _ _ hcut,
    Event.validPayload_holding _ _ _ hfits]
  cases kind with
  | dhcp => exact Dhcp.decode_take_eq_iff payload n
  | mdns => exact Mdns.decode_take_eq_iff payload n
  | ssdp => exact Ssdp.decode_take_eq_iff payload n
  | newHost | arp | tlsHello | unknown => exact iff_of_true rfl trivial

/-- A payload that is not cut loses nothing. -/
theorem cutSpares_of_length_le (kind : EventKind) {payload : List UInt8}
    (hfits : payload.length ≤ eventPayloadLen) {n : Nat} (h : payload.length ≤ n) :
    CutSpares kind payload n := by
  rw [← decodeEvent_take_eq_iff kind zeroMac 0 hfits, List.take_of_length_le h]

/-- A discovery datagram that fits an event reaches userspace undiminished exactly when its first
`copyLen` payload bytes say what the whole payload says. -/
theorem discovery_delivered_iff (f : UdpFrame) (kind : EventKind)
    (hkind : udpDiscoveryKind f.srcPort f.dstPort = some kind)
    (hfits : f.payload.length ≤ eventPayloadLen) (env : XdpEnv) (s : Kernel)
    (hload : LoadsInRange env f.bytes) (hslot : env.discoverySlot.isSome) :
    (∃ ev : Event, (tryLanscope env f.bytes s).1.events =
        (announceNewHost env f.bytes f.srcMac s).events ++ [ev] ∧
      decodeEvent ev = decodeEvent (Event.holding kind f.srcMac f.ip.srcIp f.payload)) ↔
      CutSpares kind f.payload copyLen := by
  obtain ⟨ev, hev, hdecode⟩ := discovery_event f kind hkind env s hload hslot
  rw [← decodeEvent_take_eq_iff kind f.srcMac f.ip.srcIp hfits, ← hdecode]
  constructor
  · rintro ⟨ev', hev', hwhole⟩
    rw [hev, List.append_cancel_left_eq, List.cons.injEq] at hev'
    rw [hev'.1]
    exact hwhole
  · intro hwhole
    exact ⟨ev, hev, hwhole⟩

/-- A hostname, and padding up to past the last byte that is copied. -/
def paddedHostname : List UInt8 := 12 :: 1 :: ([97] ++ 255 :: List.replicate 40 0)

theorem discovery_delivered_padded :
    ∃ ev : Event, (tryLanscope readyKernel (dhcpFrame paddedHostname).bytes Kernel.empty).1.events =
        (announceNewHost readyKernel (dhcpFrame paddedHostname).bytes
          (dhcpFrame paddedHostname).srcMac Kernel.empty).events ++ [ev] ∧
      decodeEvent ev = decodeEvent (Event.holding .dhcp (dhcpFrame paddedHostname).srcMac
        (dhcpFrame paddedHostname).ip.srcIp (dhcpFrame paddedHostname).payload) := by
  have hwhole : Dhcp.FirstCookie (dhcpFrame paddedHostname).payload 236 := by decide +kernel
  have hcut : Dhcp.FirstCookie ((dhcpFrame paddedHostname).payload.take copyLen) 236 := by
    decide +kernel
  have hwholeArea : (dhcpFrame paddedHostname).payload.drop 240 = paddedHostname := by decide +kernel
  have hcutArea : ((dhcpFrame paddedHostname).payload.take copyLen).drop 240 =
      12 :: 1 :: ([97] ++ 255 :: List.replicate 12 0) := by decide +kernel
  refine (discovery_delivered_iff (dhcpFrame paddedHostname) .dhcp rfl (by decide +kernel) readyKernel
    Kernel.empty (loadsInRange_readyKernel _) rfl).mpr ?_
  refine (Dhcp.decode_take_eq_iff _ _).mp ?_
  have hoption (n : Nat) : Dhcp.walk (12 :: 1 :: ([97] ++ 255 :: List.replicate n 0)) =
      Dhcp.optionSignal 12 [97] := by
    rw [Dhcp.walk_option (by decide) (by decide) rfl]
    exact (congrArg _ (Dhcp.walk_end _)).trans (List.append_nil _)
  rw [Dhcp.decode_of_firstCookie hwhole, Dhcp.decode_of_firstCookie hcut, hwholeArea, hcutArea, hoption,
    paddedHostname, hoption]

end Lanscope
