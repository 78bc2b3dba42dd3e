import Lanscope.Decode.ReadName
import Lanscope.Decode.Ssdp

/-!
# What a message tells

The decoded fields in terms of the options, the header lines and the names that a message holds, each
with the place where it ends. Of a field that a message gives more than once, the last one counts.
-/

namespace Lanscope

open Framework

/-- The last value of a kind. -/
def lastField (kind : Signal → Option Str) (signals : List Signal) : Option Str :=
  (signals.filterMap kind).getLast?

section LastField

variable {α : Type} {kind : Signal → Option Str} {tells : α → List Signal}

theorem lastField_append (s t : List Signal) :
    lastField kind (s ++ t) = (lastField kind t).or (lastField kind s) := by
  rw [lastField, List.filterMap_append, List.getLast?_append]
  rfl

theorem lastField_eq_none_iff {signals : List Signal} :
    lastField kind signals = none ↔ ∀ s ∈ signals, kind s = none := by
  rw [lastField, List.getLast?_eq_none_iff, List.filterMap_eq_nil_iff]

theorem lastField_flatMap_eq_none_iff {l : List α} :
    lastField kind (l.flatMap tells) = none ↔ ∀ a ∈ l, lastField kind (tells a) = none := by
  simp only [lastField_eq_none_iff, List.mem_flatMap, forall_exists_index, and_imp]
  exact ⟨fun h a ha s hs => h s a ha hs, fun h s a ha hs => h a ha s hs⟩

/-- The last of the parts that give a value decides. -/
theorem lastField_flatMap_eq_some_iff {l : List α} {v : Str} :
    lastField kind (l.flatMap tells) = some v ↔ ∃ before a after, l = before ++ a :: after ∧
      lastField kind (tells a) = some v ∧ ∀ b ∈ after, lastField kind (tells b) = none := by
  induction l with
  | nil => simp [lastField]
  | cons a l ih =>
      rw [List.flatMap_cons, lastField_append]
      cases hrest : lastField kind (l.flatMap tells) with
      | none =>
          have hnone := lastField_flatMap_eq_none_iff.mp hrest
          rw [Option.none_or]
          constructor
          · intro hv
            exact ⟨[], a, l, rfl, hv, hnone⟩
          · rintro ⟨before, b, after, hl, hv, _⟩
            cases before with
            | nil =>
                obtain ⟨rfl, rfl⟩ := List.cons.inj hl
                exact hv
            | cons c before =>
                obtain ⟨rfl, rfl⟩ := List.cons.inj hl
                exact absurd (hnone b (by simp)) (by simp [hv])
      | some w =>
          rw [Option.some_or, ← hrest, ih]
          constructor
          · rintro ⟨before, b, after, rfl, hv, hafter⟩
            exact ⟨a :: before, b, after, rfl, hv, hafter⟩
          · rintro ⟨before, b, after, hl, hv, hafter⟩
            cases before with
            | nil =>
                obtain ⟨rfl, rfl⟩ := List.cons.inj hl
                exact absurd (lastField_flatMap_eq_none_iff.mpr hafter) (by simp [hrest])
            | cons c before =>
                obtain ⟨rfl, rfl⟩ := List.cons.inj hl
                exact ⟨before, b, after, rfl, hv, hafter⟩

end LastField

/-! ## DHCP -/

namespace Dhcp

/-- The area has an option with the code and the data, and the option ends at the offset. -/
inductive OptionTo (code : UInt8) (data : List UInt8) : List UInt8 → Nat → Prop
  | here {len : UInt8} {body : List UInt8} : code ≠ optPad → code ≠ optEnd →
      len.toNat ≤ body.length → data = body.take len.toNat →
      OptionTo code data (code :: len :: body) (len.toNat + 2)
  | pad {rest : List UInt8} {stop : Nat} : OptionTo code data rest stop →
      OptionTo code data (optPad :: rest) (stop + 1)
  | later {c len : UInt8} {body : List UInt8} {stop : Nat} : c ≠ optPad → c ≠ optEnd →
      len.toNat ≤ body.length → OptionTo code data (body.drop len.toNat) stop →
      OptionTo code data (c :: len :: body) (len.toNat + 2 + stop)

/-- The option is the last one of its code, after the first magic cookie, that carries a field. -/
def LastOption (payload : List UInt8) (code : UInt8) (data : List UInt8) : Prop :=
  ∃ p before after, FirstCookie payload p ∧
    options (payload.drop (p + 4)) = before ++ (code, data) :: after ∧ Usable code data ∧
    ∀ o ∈ after, o.1 = code → ¬ Usable code o.2

/-- The text of an option, without what stands around it. -/
def optionText (code : UInt8) (data : List UInt8) : Option Str :=
  if code = optHostname then
    (Utf8.fromUtf8 data).map fun h => (h.trimMatches fun c => c = Char.ofNat 0).trim
  else if code = optParamRequestList then some (fingerprint data)
  else if code = optVendorClass then (Utf8.fromUtf8 data).map Str.trim
  else none

private def signalOf (code : UInt8) (text : Str) : Signal :=
  if code = optHostname then .hostname text
  else if code = optParamRequestList then .dhcpFingerprint text
  else if code = optVendorClass then .dhcpVendorClass text
  else .seen

/-- An option says its text, if it has one that is not empty. -/
private theorem optionSignal_eq (code : UInt8) (data : List UInt8) : optionSignal code data =
    (((optionText code data).filter fun text => text ≠ []).map (signalOf code)).toList := by
  have hone (c : Str → Signal) (text : Str) : (if text ≠ [] then [c text] else []) =
      (((some text).filter fun text => text ≠ []).map c).toList := by
    by_cases h : text = [] <;> simp [h, Option.filter]
  unfold optionSignal optionText signalOf
  split_ifs with hhost hparam hvendor
  · cases Utf8.fromUtf8 data with
    | none => rfl
    | some h => exact hone Signal.hostname _
  · exact hone Signal.dhcpFingerprint _
  · cases Utf8.fromUtf8 data with
    | none => rfl
    | some v => exact hone Signal.dhcpVendorClass _
  · rfl

theorem usable_iff {code : UInt8} {data : List UInt8} :
    Usable code data ↔ ∃ text, optionText code data = some text ∧ text ≠ [] := by
  rw [← optionSignal_ne_nil_iff, optionSignal_eq]
  cases optionText code data with
  | none => simp
  | some text => by_cases h : text = [] <;> simp [h]

section LastFields

variable {kind : Signal → Option Str} {code : UInt8}
  (hkind : ∀ c text, kind (signalOf c text) = if c = code then some text else none)
include hkind

private theorem lastField_optionSignal (c : UInt8) (data : List UInt8) :
    lastField kind (optionSignal c data) =
      if c = code then (optionText c data).filter fun text => text ≠ [] else none := by
  rw [optionSignal_eq]
  cases (optionText c data).filter fun text => text ≠ [] with
  | none => simp [lastField]
  | some text =>
      simp only [Option.map_some, Option.toList_some, lastField, List.filterMap_cons, hkind]
      split_ifs <;> rfl

/-- The last option of the code that carries a field decides. -/
private theorem lastField_decode_iff {payload : List UInt8} {v : Str} :
    lastField kind (decode payload) = some v ↔
      ∃ data, LastOption payload code data ∧ optionText code data = some v := by
  have hsome (o : UInt8 × List UInt8) (v : Str) : lastField kind (optionSignal o.1 o.2) = some v ↔
      o.1 = code ∧ Usable code o.2 ∧ optionText code o.2 = some v := by
    rw [lastField_optionSignal hkind, Option.ite_none_right_eq_some, Option.filter_eq_some_iff,
      usable_iff]
    constructor
    · rintro ⟨rfl, htext, hne⟩
      exact ⟨rfl, ⟨v, htext, of_decide_eq_true hne⟩, htext⟩
    · rintro ⟨rfl, ⟨w, hw, hne⟩, htext⟩
      obtain rfl := Option.some.inj (hw.symm.trans htext)
      exact ⟨rfl, htext, decide_eq_true hne⟩
  have hnone (o : UInt8 × List UInt8) :
      lastField kind (optionSignal o.1 o.2) = none ↔ (o.1 = code → ¬ Usable code o.2) := by
    rw [Option.eq_none_iff_forall_ne_some]
    simp only [ne_eq, hsome, usable_iff]
    constructor
    · rintro h hc ⟨text, htext, hne⟩
      exact h text ⟨hc, ⟨text, htext, hne⟩, htext⟩
    · rintro h text ⟨hc, husable, _⟩
      exact h hc husable
  constructor
  · intro h
    cases hfind : findOptions payload with
    | none =>
        rw [decode, hfind] at h
        exact absurd h (by simp [lastField])
    | some start =>
        obtain ⟨p, rfl, hfirst⟩ := (findOptions_eq_some_iff _ _).mp hfind
        rw [decode_of_firstCookie hfirst, walk_eq_flatMap, lastField_flatMap_eq_some_iff] at h
        obtain ⟨before, ⟨c, data⟩, after, hsplit, hv, hafter⟩ := h
        obtain ⟨rfl, husable, htext⟩ := (hsome _ _).mp hv
        exact ⟨data, ⟨p, before, after, hfirst, hsplit, husable,
          fun o ho => (hnone o).mp (hafter o ho)⟩, htext⟩
  · rintro ⟨data, ⟨p, before, after, hfirst, hsplit, husable, hafter⟩, htext⟩
    rw [decode_of_firstCookie hfirst, walk_eq_flatMap, lastField_flatMap_eq_some_iff]
    exact ⟨before, (code, data), after, hsplit, (hsome _ _).mpr ⟨rfl, husable, htext⟩,
      fun o ho => (hnone o).mpr (hafter o ho)⟩

end LastFields

section Fields

variable {payload : List UInt8} {v : Str}

theorem lastHostname_iff : lastField Signal.asHostname (decode payload) = some v ↔
    ∃ data, LastOption payload optHostname data ∧ optionText optHostname data = some v :=
  lastField_decode_iff fun c text => by
    unfold signalOf
    split_ifs <;> rfl

theorem lastFingerprint_iff : lastField Signal.asDhcpFingerprint (decode payload) = some v ↔
    ∃ data, LastOption payload optParamRequestList data ∧
      optionText optParamRequestList data = some v :=
  lastField_decode_iff fun c text => by
    unfold signalOf
    split_ifs <;> simp_all [Signal.asDhcpFingerprint, optHostname, optParamRequestList]

theorem lastVendorClass_iff : lastField Signal.asDhcpVendorClass (decode payload) = some v ↔
    ∃ data, LastOption payload optVendorClass data ∧ optionText optVendorClass data = some v :=
  lastField_decode_iff fun c text => by
    unfold signalOf
    split_ifs <;>
      simp_all [Signal.asDhcpVendorClass, optHostname, optParamRequestList, optVendorClass]

end Fields

theorem services_decode (payload : List UInt8) : (decode payload).filterMap Signal.asService = [] := by
  have hsignal (code : UInt8) (text : Str) : (signalOf code text).asService = none := by
    unfold signalOf
    split_ifs <;> rfl
  rw [List.filterMap_eq_nil_iff]
  intro sig hsig
  unfold decode at hsig
  split at hsig
  · exact absurd hsig List.not_mem_nil
  · rw [walk_eq_flatMap] at hsig
    obtain ⟨o, _, hsig⟩ := List.mem_flatMap.mp hsig
    rw [optionSignal_eq, Option.mem_toList] at hsig
    obtain ⟨text, _, rfl⟩ := Option.map_eq_some_iff.mp hsig
    exact hsignal o.1 text

end Dhcp

/-! ## mDNS -/

namespace Dns

/-- Labels that spell the name start at `pos`, and a zero byte or a pointer closes them, the first
byte of which is the last one before `stop`. -/
def SpelledAt (buf : List UInt8) (pos stop : Nat) (name : Str) : Prop :=
  ∃ labels b rest, name = dotted labels ∧ buf.drop pos = encodeLabels labels ++ b :: rest ∧
    stop = pos + (encodeLabels labels).length + 1 ∧ (b = 0 ∨ (labels ≠ [] ∧ Stops b))

theorem readName_iff_spelledAt {buf : List UInt8} {pos : Nat} {name : Str} :
    (∃ next, readName buf pos = some (name, next)) ↔ ∃ stop, SpelledAt buf pos stop name := by
  constructor
  · rintro ⟨next, hread⟩
    obtain ⟨labels, b, rest, hname, hdrop, hend⟩ := readName_spells hread
    exact ⟨_, labels, b, rest, hname, hdrop, rfl, hend.imp And.left fun h => ⟨h.1, h.2.1⟩⟩
  · rintro ⟨stop, labels, b, rest, rfl, hdrop, -, rfl | ⟨hne, hb⟩⟩
    · have hget : buf[pos + (encodeLabels labels).length]? = some 0 := by
        rw [← List.head?_drop, ← List.drop_drop, hdrop, List.drop_left, List.head?_cons]
      exact ⟨_, (readLabels_encodeLabels labels hdrop []).trans (readLabels_zero hget _ rfl)⟩
    · exact ⟨_, readName_of_stops hne hb hdrop⟩

theorem mem_extractNames_iff_spelledAt {buf : List UInt8} {name : Str} : name ∈ extractNames buf ↔
    isInteresting name ∧ ∃ pos stop, SpelledAt buf pos stop name := by
  simp only [mem_extractNames, ← readName_iff_spelledAt]
  constructor
  · rintro ⟨pos, _, next, hread, hint⟩
    exact ⟨hint, pos, next, hread⟩
  · rintro ⟨hint, pos, next, hread⟩
    refine ⟨pos, ?_, next, hread, hint⟩
    by_contra hlong
    have hnone : readName buf pos = none :=
      readLabels_none (List.getElem?_eq_none_iff.mpr (not_lt.mp hlong)) []
    exact absurd (hnone.symm.trans hread).symm (Option.some_ne_none _)

/-- No name is spelled before the place. -/
def FirstSpelledAt (buf : List UInt8) (pos : Nat) (name : Str) : Prop :=
  (∃ stop, SpelledAt buf pos stop name) ∧ ∀ q < pos, ∀ stop, ¬ SpelledAt buf q stop name

theorem exists_firstSpelledAt {buf : List UInt8} {name : Str}
    (h : ∃ pos stop, SpelledAt buf pos stop name) : ∃ pos, FirstSpelledAt buf pos name := by
  classical
  refine ⟨Nat.find h, Nat.find_spec h, fun q hq stop hspelled => ?_⟩
  exact Nat.find_min h hq ⟨stop, hspelled⟩

theorem FirstSpelledAt.unique {buf : List UInt8} {p q : Nat} {name : Str}
    (hp : FirstSpelledAt buf p name) (hq : FirstSpelledAt buf q name) : p = q := by
  obtain ⟨⟨stop, hstop⟩, hp⟩ := hp
  obtain ⟨⟨stop', hstop'⟩, hq⟩ := hq
  by_contra hne
  cases Nat.lt_or_gt_of_ne hne with
  | inl hlt => exact hq p hlt stop hstop
  | inr hgt => exact hp q hgt stop' hstop'

/-- What a scan of the first offsets finds is first spelled there, and in this order. -/
private structure Scanned (buf : List UInt8) (n : Nat) (out : List Str) : Prop where
  sound : ∀ name ∈ out, ∃ pos < n, ∃ stop, SpelledAt buf pos stop name
  complete : ∀ pos < n, ∀ stop name, SpelledAt buf pos stop name → isInteresting name → name ∈ out
  ordered : out.Pairwise fun a b => ∀ p q, FirstSpelledAt buf p a → FirstSpelledAt buf q b → p < q

private theorem scanned_extractAt {buf : List UInt8} {n : Nat} {out : List Str}
    (h : Scanned buf n out) : Scanned buf (n + 1) (extractAt buf out n) where
  sound name hname := by
    rcases mem_extractAt.mp hname with hout | ⟨next, hread, _⟩
    · obtain ⟨pos, hpos, hspelled⟩ := h.sound name hout
      exact ⟨pos, Nat.lt_succ_of_lt hpos, hspelled⟩
    · exact ⟨n, Nat.lt_succ_self n, readName_iff_spelledAt.mp ⟨next, hread⟩⟩
  complete pos hpos stop name hspelled hint := by
    cases Nat.lt_succ_iff_lt_or_eq.mp hpos with
    | inl hlt => exact mem_extractAt.mpr (Or.inl (h.complete pos hlt stop name hspelled hint))
    | inr heq =>
        subst pos
        obtain ⟨next, hread⟩ := readName_iff_spelledAt.mpr ⟨stop, hspelled⟩
        exact mem_extractAt.mpr (Or.inr ⟨next, hread, hint⟩)
  ordered := by
    unfold extractAt
    split
    · next name next hread =>
      split_ifs with hnew
      · refine List.pairwise_append.mpr ⟨h.ordered, List.pairwise_singleton _ _, ?_⟩
        rintro a ha b hb p q hp ⟨⟨stop, hq⟩, _⟩
        obtain rfl := List.mem_singleton.mp hb
        -- the older name is spelled before the new offset, and the new one is not
        obtain ⟨pos, hpos, stop', hspelled⟩ := h.sound a ha
        have hearly : p ≤ pos := by
          by_contra hlate
          exact hp.2 pos (not_le.mp hlate) stop' hspelled
        have hlate : n ≤ q := by
          by_contra hlt
          exact hnew.2 (h.complete q (not_le.mp hlt) stop b hq hnew.1)
        omega
      · exact h.ordered
    · exact h.ordered

/-- The names are extracted in the order in which they are first spelled. -/
theorem pairwise_extractNames (buf : List UInt8) : (extractNames buf).Pairwise fun a b =>
    ∀ p q, FirstSpelledAt buf p a → FirstSpelledAt buf q b → p < q := by
  have hscan (n : Nat) : Scanned buf n ((List.range n).foldl (extractAt buf) []) := by
    induction n with
    | zero => exact ⟨by simp, by simp, List.Pairwise.nil⟩
    | succ n ih =>
        rw [List.range_succ, List.foldl_concat]
        exact scanned_extractAt ih
  exact (hscan buf.length).ordered

end Dns

namespace Mdns

/-- The name is that of a host, and no service. -/
def NamesHost (name host : Str) : Prop :=
  ¬ isService name ∧ name = host ++ ".local".toList ∧ host ≠ [] ∧ host.head? ≠ some '_'

/-- Of all the hosts that the payload names, this is the one named last for the first time. -/
def LastHost (payload : List UInt8) (host : Str) : Prop :=
  ∃ pos name, Dns.FirstSpelledAt payload pos name ∧ Dns.isInteresting name ∧ NamesHost name host ∧
    ∀ q other, Dns.FirstSpelledAt payload q other → Dns.isInteresting other →
      ∀ h, NamesHost other h → q ≤ pos

private theorem lastField_nameSignal {name v : Str} :
    lastField Signal.asHostname (nameSignal name) = some v ↔ NamesHost name v := by
  unfold nameSignal NamesHost
  by_cases hs : isService name
  · simp [hs, lastField, Signal.asHostname]
  · rw [if_neg hs]
    cases hstrip : name.stripSuffix ".local".toList with
    | none =>
        refine iff_of_false (by simp [lastField]) fun h => ?_
        rw [(Str.stripSuffix_eq_some_iff _ _ v).mpr h.2.1] at hstrip
        exact Option.some_ne_none _ hstrip
    | some host =>
        obtain rfl := (Str.stripSuffix_eq_some_iff _ _ _).mp hstrip
        dsimp only
        by_cases hhost : host ≠ [] ∧ host.head? ≠ some '_'
        · rw [if_pos hhost]
          constructor
          · intro h
            obtain rfl := Option.some.inj h
            exact ⟨hs, rfl, hhost⟩
          · rintro ⟨_, hname, _⟩
            exact congrArg some (List.append_cancel_right hname)
        · rw [if_neg hhost]
          refine iff_of_false (by simp [lastField]) fun h => hhost ?_
          rw [List.append_cancel_right h.2.1]
          exact h.2.2

theorem lastHost_iff {payload : List UInt8} {v : Str} :
    lastField Signal.asHostname (decode payload) = some v ↔ LastHost payload v := by
  have hsilent (name : Str) : lastField Signal.asHostname (nameSignal name) = none ↔
      ∀ host, ¬ NamesHost name host := by
    rw [Option.eq_none_iff_forall_ne_some]
    simp only [ne_eq, lastField_nameSignal]
  rw [decode, lastField_flatMap_eq_some_iff]
  simp only [lastField_nameSignal, hsilent]
  constructor
  · rintro ⟨before, name, after, hsplit, hhost, hafter⟩
    have hordered := Dns.pairwise_extractNames payload
    obtain ⟨hint, hspelled⟩ := Dns.mem_extractNames_iff_spelledAt.mp
      (show name ∈ Dns.extractNames payload by simp [hsplit])
    obtain ⟨pos, hpos⟩ := Dns.exists_firstSpelledAt hspelled
    refine ⟨pos, name, hpos, hint, hhost, fun q other hq hother h hname => ?_⟩
    have hmem : other ∈ Dns.extractNames payload :=
      Dns.mem_extractNames_iff_spelledAt.mpr ⟨hother, q, hq.1⟩
    rw [hsplit] at hmem hordered
    rcases List.mem_append.mp hmem with hbefore | hrest
    · exact ((List.pairwise_append.mp hordered).2.2 other hbefore name List.mem_cons_self q pos hq
        hpos).le
    · rcases List.mem_cons.mp hrest with rfl | hlater
      · exact (hq.unique hpos).le
      · exact absurd hname (hafter other hlater h)
  · rintro ⟨pos, name, hpos, hint, hhost, hlast⟩
    obtain ⟨before, after, hsplit⟩ := List.append_of_mem
      (Dns.mem_extractNames_iff_spelledAt.mpr ⟨hint, pos, hpos.1⟩)
    refine ⟨before, name, after, hsplit, hhost, fun other hother h hname => ?_⟩
    have hordered := Dns.pairwise_extractNames payload
    obtain ⟨hother', hspelled⟩ := Dns.mem_extractNames_iff_spelledAt.mp
      (show other ∈ Dns.extractNames payload by simp [hsplit, hother])
    obtain ⟨q, hq⟩ := Dns.exists_firstSpelledAt hspelled
    rw [hsplit] at hordered
    have hlater := (List.pairwise_cons.mp (List.pairwise_append.mp hordered).2.1).1 other hother pos q
      hpos hq
    exact absurd (hlast q other hq hother' h hname) (not_le.mpr hlater)

theorem mem_services_decode {payload : List UInt8} {service : Str} :
    service ∈ (decode payload).filterMap Signal.asService ↔
      isService service ∧ Dns.isInteresting service ∧
        ∃ pos stop, Dns.SpelledAt payload pos stop service := by
  have hname (name : Str) : service ∈ (nameSignal name).filterMap Signal.asService ↔
      isService name ∧ name = service := by
    unfold nameSignal
    by_cases hs : isService name
    · simp [hs, Signal.asService, eq_comm]
    · rw [if_neg hs]
      refine iff_of_false ?_ fun h => hs h.1
      split
      · split_ifs <;> simp [Signal.asService]
      · simp
  rw [decode, List.filterMap_flatMap, List.mem_flatMap]
  simp only [hname, Dns.mem_extractNames_iff_spelledAt]
  constructor
  · rintro ⟨_, hspelled, hs, rfl⟩
    exact ⟨hs, hspelled⟩
  · rintro ⟨hs, hspelled⟩
    exact ⟨service, hspelled, hs, rfl⟩

/-- A message of names has no DHCP fields. -/
theorem dhcpFields_decode {kind : Signal → Option Str} (hhost : ∀ h, kind (.hostname h) = none)
    (hservice : ∀ s, kind (.service s) = none) (payload : List UInt8) :
    lastField kind (decode payload) = none := by
  rw [decode, lastField_flatMap_eq_none_iff]
  intro name _
  unfold nameSignal
  split_ifs
  · simp [lastField, hservice]
  · split
    · split_ifs
      · simp [lastField, hhost]
      · rfl
    · rfl

end Mdns

/-! ## SSDP -/

namespace Ssdp

/-- The line has a wanted key and a value, and is reported as the given service. -/
def Reports (line : Str) (service : Str) : Prop :=
  ∃ key value, line.splitOnce ':' = some (key, value) ∧ value.trim ≠ [] ∧
    ((key.trim.toAsciiUppercase = "SERVER".toList ∧ service = "server=".toList ++ value.trim) ∨
      (key.trim.toAsciiUppercase ∈ ["NT".toList, "ST".toList] ∧ service = value.trim))

theorem mem_lineSignal_iff (line : Str) (sig : Signal) :
    sig ∈ lineSignal line ↔ ∃ service, sig = .service service ∧ Reports line service := by
  unfold lineSignal Reports
  cases hline : line.splitOnce ':' with
  | none => simp
  | some kv =>
      obtain ⟨key, value⟩ := kv
      simp only [Option.some.injEq, Prod.mk.injEq, exists_and_left, exists_eq_left', and_assoc,
        List.mem_cons, List.not_mem_nil, or_false]
      generalize key.trim.toAsciiUppercase = wanted
      by_cases hv : value.trim = []
      · rw [if_pos hv]
        exact iff_of_false List.not_mem_nil fun ⟨_, _, hne, _⟩ => hne hv
      · rw [if_neg hv]
        have hreported (text : Str) : sig = .service text ↔
            ∃ service, sig = .service service ∧ value.trim ≠ [] ∧ service = text := by
          constructor
          · intro h
            exact ⟨text, h, hv, rfl⟩
          · rintro ⟨_, h, _, rfl⟩
            exact h
        by_cases hserver : wanted = "SERVER".toList
        · have hother : ¬ (wanted = "NT".toList ∨ wanted = "ST".toList) := by
            rw [hserver]
            decide
          simp only [hserver, if_true, List.mem_singleton] at hother ⊢
          simp only [hother, true_and, false_and, or_false]
          exact hreported _
        · by_cases ht : wanted = "NT".toList ∨ wanted = "ST".toList
          · simp only [hserver, ht, if_true, if_false, true_and, false_and, false_or,
              List.mem_singleton]
            exact hreported _
          · simp only [hserver, ht, if_false, false_and, or_self, and_false, exists_false,
              List.not_mem_nil]

theorem mem_decode_iff (payload : List UInt8) (sig : Signal) : sig ∈ decode payload ↔
    ∃ service, sig = .service service ∧
      ∃ line ∈ (Utf8.fromUtf8Lossy payload).lines, Reports line service := by
  simp only [decode, List.mem_flatMap, mem_lineSignal_iff]
  constructor
  · rintro ⟨line, hline, service, rfl, hreports⟩
    exact ⟨service, rfl, line, hline, hreports⟩
  · rintro ⟨service, rfl, line, hline, hreports⟩
    exact ⟨line, hline, service, rfl, hreports⟩

theorem mem_services_lines {lines : List Str} {service : Str} :
    service ∈ (lines.flatMap lineSignal).filterMap Signal.asService ↔
      ∃ line ∈ lines, Reports line service := by
  simp only [List.mem_filterMap, List.mem_flatMap, mem_lineSignal_iff]
  constructor
  · rintro ⟨_, ⟨line, hline, s, rfl, hreports⟩, hs⟩
    exact ⟨line, hline, Option.some.inj hs ▸ hreports⟩
  · rintro ⟨line, hline, hreports⟩
    exact ⟨.service service, ⟨line, hline, service, rfl, hreports⟩, rfl⟩

/-- Header lines report services only. -/
theorem otherFields_lines {kind : Signal → Option Str} (hservice : ∀ s, kind (.service s) = none)
    (lines : List Str) : lastField kind (lines.flatMap lineSignal) = none := by
  rw [lastField_eq_none_iff]
  intro sig hsig
  obtain ⟨line, _, hsig⟩ := List.mem_flatMap.mp hsig
  obtain ⟨service, rfl, _⟩ := (mem_lineSignal_iff line sig).mp hsig
  exact hservice service

private theorem lineSignal_eq_nil_of_head {line : Str} (h : line.head? = some 'M') :
    lineSignal line = [] := by
  obtain ⟨rest, rfl⟩ := List.head?_eq_some_iff.mp h
  unfold lineSignal
  cases hsplit : Str.splitOnce ':' ('M' :: rest) with
  | none => rfl
  | some kv =>
      obtain ⟨key, value⟩ := kv
      have hkey : ∃ k, key = 'M' :: k := by
        rw [Str.splitOnce, if_neg (by decide)] at hsplit
        obtain ⟨kv, _, hkv⟩ := Option.map_eq_some_iff.mp hsplit
        exact ⟨kv.1, (congrArg Prod.fst hkv).symm⟩
      obtain ⟨k, rfl⟩ := hkey
      -- the key starts with a letter, so it is not trimmed in front
      have hhead : ∃ k', (Str.trim ('M' :: k)).toAsciiUppercase = 'M' :: k' := by
        obtain ⟨core, hcore⟩ := Str.trimMatches_cons_of_not (p := Str.isWhitespace) (c := 'M')
          (by decide) k
        exact ⟨Str.toAsciiUppercase core, congrArg Str.toAsciiUppercase hcore⟩
      obtain ⟨k', hk'⟩ := hhead
      simp [hk']

/-- The first line of a search says nothing. -/
theorem decode_search {payload : List UInt8}
    (h : ("M-SEARCH".toList.map fun c => UInt8.ofNat c.toNat) <+: payload) :
    decode payload = (Utf8.fromUtf8Lossy payload).lines.tail.flatMap lineSignal := by
  obtain ⟨rest, rfl⟩ := h
  have htext : ∃ text, Utf8.fromUtf8Lossy (("M-SEARCH".toList.map fun c => UInt8.ofNat c.toNat) ++
      rest) = 'M' :: text := by
    have hfirst : "M-SEARCH".toList.map (fun c => UInt8.ofNat c.toNat) =
        77 :: "-SEARCH".toList.map fun c => UInt8.ofNat c.toNat := rfl
    rw [hfirst, List.cons_append, Utf8.fromUtf8Lossy, Utf8.chunks_cons_ascii (by decide), List.map_cons]
    exact ⟨_, rfl⟩
  obtain ⟨text, htext⟩ := htext
  obtain ⟨line, hline⟩ := Str.lines_cons (show 'M' ≠ '\n' by decide) (by decide) text
  rw [decode, htext, hline, List.flatMap_cons, List.tail_cons,
    lineSignal_eq_nil_of_head (List.head?_cons), List.nil_append]

end Ssdp

end Lanscope
