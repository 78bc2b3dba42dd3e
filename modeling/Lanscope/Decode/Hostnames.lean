import Lanscope.Decode.Dispatch
import Lanscope.Decode.ReadName
import Lanscope.Decode.Truncation

/-!
# Hostnames in payloads

The DHCP decoder strips NULs and then whitespace, once each, and the mDNS decoder strips nothing. So
a hostname keeps padding where the two kinds are mixed, or where a label holds spaces.
-/

namespace Lanscope

open Framework

def isNul (c : Char) : Bool := c = Char.ofNat 0

def isPadding (c : Char) : Bool := isNul c || Str.isWhitespace c

/-- Not empty, and without padding at either end, so that it is not blank either. -/
def Unpadded (h : Str) : Prop := h ≠ [] ∧ Str.Bare isPadding h

/-- What the DHCP decoder makes of the text of a hostname. -/
def normalise (text : Str) : Str := (text.trimMatches isNul).trim

theorem Unpadded.bare_nul {h : Str} (hu : Unpadded h) : Str.Bare isNul h :=
  hu.2.imp fun c hc => by simp [isPadding, hc]

theorem Unpadded.bare_whitespace {h : Str} (hu : Unpadded h) : Str.Bare Str.isWhitespace h :=
  hu.2.imp fun c hc => by simp [isPadding, hc]

/-- Normalising changes exactly the hostnames that have padding. -/
theorem unpadded_iff_normalise (h : Str) : Unpadded h ↔ h ≠ [] ∧ normalise h = h := by
  constructor
  · intro hu
    refine ⟨hu.1, ?_⟩
    rw [normalise, Str.trimMatches_of_bare hu.bare_nul, Str.trim,
      Str.trimMatches_of_bare hu.bare_whitespace]
  · intro hsame
    obtain ⟨hne, hsame⟩ := hsame
    have hwhite : Str.Bare Str.isWhitespace h := hsame ▸ Str.bare_trimMatches _ _
    have hinner : h <:+: h.trimMatches isNul := by
      have hinfix := Str.trimMatches_infix Str.isWhitespace (h.trimMatches isNul)
      rw [show (h.trimMatches isNul).trimMatches Str.isWhitespace = h from hsame] at hinfix
      exact hinfix
    have hnul : h.trimMatches isNul = h :=
      (Str.trimMatches_infix isNul h).sublist.antisymm hinner.sublist
    have hbare : Str.Bare isNul h := hnul ▸ Str.bare_trimMatches isNul h
    refine ⟨hne, fun c hc hpad => ?_, fun c hc hpad => ?_⟩
    · cases Bool.or_eq_true_iff.mp hpad with
      | inl hn => exact hbare.1 c hc hn
      | inr hw => exact hwhite.1 c hc hw
    · cases Bool.or_eq_true_iff.mp hpad with
      | inl hn => exact hbare.2 c hc hn
      | inr hw => exact hwhite.2 c hc hw

/-! ## DHCP -/

/-- NULs, whitespace, a core without padding at its ends, whitespace, NULs. -/
def Layered (text : Str) : Prop := ∃ nuls spaces core spaces' nuls' : Str,
  text = nuls ++ (spaces ++ core ++ spaces') ++ nuls' ∧ (∀ c ∈ nuls, isNul c) ∧
    (∀ c ∈ spaces, Str.isWhitespace c) ∧ Str.Bare isPadding core ∧
    (∀ c ∈ spaces', Str.isWhitespace c) ∧ ∀ c ∈ nuls', isNul c

theorem isNul_eq_false_of_isWhitespace {c : Char} (h : Str.isWhitespace c) : isNul c = false := by
  by_contra hnul
  have hc : c = Char.ofNat 0 := by simpa [isNul] using hnul
  rw [hc] at h
  exact absurd h (by decide)

/-- The decoder gets at a core without padding exactly where the padding is layered. -/
theorem layered_iff (text : Str) : Layered text ↔ Str.Bare isPadding (normalise text) := by
  constructor
  · rintro ⟨nuls, spaces, core, spaces', nuls', rfl, hnuls, hspaces, hcore, hspaces', hnuls'⟩
    have hspace (s : Str) (hs : ∀ c ∈ s, Str.isWhitespace c) (c : Char) (hc : c ∈ s) :
        ¬ isNul c := by
      rw [isNul_eq_false_of_isWhitespace (hs c hc)]
      exact Bool.false_ne_true
    have hnul := hcore.imp fun c (hc : isNul c) => by simp [isPadding, hc]
    have hinner := Str.bare_append (hspace spaces hspaces) hnul (hspace spaces' hspaces')
    have hwhite := hcore.imp fun c (hc : Str.isWhitespace c) => by simp [isPadding, hc]
    rw [normalise, Str.trimMatches_append hnuls hnuls', Str.trimMatches_of_bare hinner, Str.trim,
      Str.trimMatches_append hspaces hspaces', Str.trimMatches_of_bare hwhite]
    exact hcore
  · intro hbare
    obtain ⟨nuls, nuls', houter, hnuls, hnuls'⟩ := Str.exists_trimMatches isNul text
    obtain ⟨spaces, spaces', hinner, hspaces, hspaces'⟩ :=
      Str.exists_trimMatches Str.isWhitespace (text.trimMatches isNul)
    refine ⟨nuls, spaces, normalise text, spaces', nuls', ?_, hnuls, hspaces, hbare, hspaces', hnuls'⟩
    rw [← show text.trimMatches isNul = spaces ++ normalise text ++ spaces' from hinner]
    exact houter

/-- The text of a complete hostname option. -/
def Dhcp.HostnameText (payload : List UInt8) (text : Str) : Prop :=
  ∃ start, findOptions payload = some start ∧ ∃ data,
    (optHostname, data) ∈ options (payload.drop start) ∧ Utf8.fromUtf8 data = some text

private theorem hostname_mem_ite_iff {p : Prop} [Decidable p] (host h : Str) :
    Signal.hostname h ∈ (if p then [Signal.hostname host] else []) ↔ p ∧ host = h := by
  split_ifs with hp <;> simp [hp, eq_comm]

private theorem Dhcp.hostname_mem_optionSignal_iff (code : UInt8) (data : List UInt8) (h : Str) :
    .hostname h ∈ optionSignal code data ↔ code = optHostname ∧
      ∃ text, Utf8.fromUtf8 data = some text ∧ normalise text = h ∧ h ≠ [] := by
  unfold optionSignal
  by_cases hcode : code = optHostname
  · rw [if_pos hcode]
    cases Utf8.fromUtf8 data with
    | none => simp
    | some text =>
        change _ ∈ (if normalise text ≠ [] then [Signal.hostname (normalise text)] else []) ↔ _
        simp only [hostname_mem_ite_iff, hcode, true_and, Option.some.injEq, exists_eq_left']
        constructor
        · rintro ⟨hne, rfl⟩
          exact ⟨rfl, hne⟩
        · rintro ⟨rfl, hne⟩
          exact ⟨hne, rfl⟩
  · rw [if_neg hcode]
    simp only [hcode, false_and, iff_false]
    split_ifs
    · simp
    · simp
    · cases Utf8.fromUtf8 data with
      | none => simp
      | some text => by_cases htext : text.trim = [] <;> simp [htext]
    · simp

theorem Dhcp.hostname_mem_decode_iff (payload : List UInt8) (h : Str) :
    .hostname h ∈ decode payload ↔
      ∃ text, HostnameText payload text ∧ normalise text = h ∧ h ≠ [] := by
  unfold decode HostnameText
  cases findOptions payload with
  | none => simp
  | some start =>
      simp only [walk_eq_flatMap, List.mem_flatMap, hostname_mem_optionSignal_iff,
        Option.some.injEq, exists_eq_left']
      constructor
      · rintro ⟨⟨_, data⟩, ho, rfl, text, htext, hh⟩
        exact ⟨text, ⟨data, ho, htext⟩, hh⟩
      · rintro ⟨text, ⟨data, ho, htext⟩, hh⟩
        exact ⟨(optHostname, data), ho, rfl, text, htext, hh⟩

/-! ## mDNS -/

/-- A name of the form `host.local`, read at some offset, that the decoder takes for a host. -/
def Mdns.HostName (payload : List UInt8) (host : Str) : Prop :=
  ∃ pos next, Dns.readName payload pos = some (host ++ ".local".toList, next) ∧
    Dns.isInteresting (host ++ ".local".toList) ∧ ¬ isService (host ++ ".local".toList) ∧
    host ≠ [] ∧ host.head? ≠ some '_'

theorem Mdns.hostname_mem_decode_iff (payload : List UInt8) (h : Str) :
    .hostname h ∈ decode payload ↔ HostName payload h := by
  have hsignal (name : Str) : .hostname h ∈ nameSignal name ↔
      ¬ isService name ∧ name = h ++ ".local".toList ∧ h ≠ [] ∧ h.head? ≠ some '_' := by
    rw [← Str.stripSuffix_eq_some_iff]
    unfold nameSignal
    by_cases hservice : isService name
    · simp [hservice]
    · cases name.stripSuffix ".local".toList with
      | none => simp [hservice]
      | some host =>
          simp only [hservice, Bool.false_eq_true, if_false, hostname_mem_ite_iff, Option.some.injEq,
            not_false_eq_true, true_and]
          constructor
          · rintro ⟨hhost, rfl⟩
            exact ⟨rfl, hhost⟩
          · rintro ⟨rfl, hhost⟩
            exact ⟨hhost, rfl⟩
  simp only [decode, List.mem_flatMap, Dns.mem_extractNames, hsignal]
  constructor
  · rintro ⟨_, ⟨pos, _, next, hread, hint⟩, hservice, rfl, hh⟩
    exact ⟨pos, next, hread, hint, hservice, hh⟩
  · rintro ⟨pos, next, hread, hint, hservice, hh⟩
    have hpos : pos < payload.length := by
      by_contra hout
      rw [Dns.readName, Dns.readLabels_none (List.getElem?_eq_none_iff.mpr (not_lt.mp hout))] at hread
      exact absurd hread.symm (Option.some_ne_none _)
    exact ⟨_, ⟨pos, hpos, next, hread, hint⟩, hservice, rfl, hh⟩

private theorem labelByte_padding : ∀ n : Fin 256, Dns.isLabelByte (UInt8.ofNat n) →
    isPadding (Char.ofNat n) → Char.ofNat n = ' ' := by
  decide +kernel

/-- The characters of a host name are printable or spaces. -/
theorem Mdns.HostName.eq_space {payload : List UInt8} {host : Str} (h : HostName payload host)
    {c : Char} (hc : c ∈ host) (hpad : isPadding c) : c = ' ' := by
  obtain ⟨pos, next, hread, _⟩ := h
  obtain ⟨labels, _, _, hname, _⟩ := Dns.readName_spells hread
  have hlabel : ∀ text ∈ labels.map Dns.Label.text, ∀ c ∈ text, isPadding c → c = ' ' := by
    intro text htext c hc hpad
    obtain ⟨l, _, rfl⟩ := List.mem_map.mp htext
    obtain ⟨b, hb, rfl⟩ := List.mem_map.mp hc
    have hbyte := labelByte_padding ⟨b.toNat, b.toNat_lt⟩
    rw [UInt8.ofNat_toNat] at hbyte
    exact hbyte (List.all_eq_true.mp l.printable b hb) hpad
  have hdot : ∀ c ∈ ['.'], isPadding c → c = ' ' := Str.forall_mem_of_all (by decide)
  have hmem : c ∈ Dns.dotted labels := hname ▸ List.mem_append_left _ hc
  exact Str.forall_mem_join hdot hlabel c hmem hpad

/-! ## Events -/

/-- The padding around each hostname is such that the decoder gets at a bare core. -/
def CleanHostnames (e : Event) : Prop :=
  match e.eventKind with
  | .dhcp => ∀ text, Dhcp.HostnameText e.validPayload text → Layered text
  | .mdns => ∀ host, Mdns.HostName e.validPayload host →
      host.head? ≠ some ' ' ∧ host.getLast? ≠ some ' '
  | _ => True

theorem Dhcp.unpadded_iff (payload : List UInt8) :
    (∀ text, HostnameText payload text → Layered text) ↔
      ∀ h, .hostname h ∈ decode payload → Unpadded h := by
  simp only [hostname_mem_decode_iff]
  constructor
  · intro hclean h hh
    obtain ⟨text, htext, rfl, hne⟩ := hh
    exact ⟨hne, (layered_iff text).mp (hclean text htext)⟩
  · intro hall text htext
    apply (layered_iff text).mpr
    by_cases hne : normalise text = []
    · rw [hne]
      exact ⟨by simp, by simp⟩
    · exact (hall _ ⟨text, htext, rfl, hne⟩).2

theorem Mdns.unpadded_iff (payload : List UInt8) :
    (∀ host, HostName payload host → host.head? ≠ some ' ' ∧ host.getLast? ≠ some ' ') ↔
      ∀ h, .hostname h ∈ decode payload → Unpadded h := by
  simp only [hostname_mem_decode_iff]
  apply forall₂_congr
  intro host hhost
  have hne : host ≠ [] := by
    obtain ⟨_, _, _, _, _, hne, _⟩ := hhost
    exact hne
  constructor
  · intro hbare
    refine ⟨hne, fun c hc hpad => ?_, fun c hc hpad => ?_⟩
    · rw [hhost.eq_space (List.mem_of_mem_head? hc) hpad] at hc
      exact hbare.1 hc
    · rw [hhost.eq_space (List.mem_of_getLast? hc) hpad] at hc
      exact hbare.2 hc
  · intro hunpadded
    exact ⟨fun hc => hunpadded.2.1 _ hc (by decide), fun hc => hunpadded.2.2 _ hc (by decide)⟩

theorem cleanHostnames_iff (e : Event) :
    CleanHostnames e ↔ ∀ h, .hostname h ∈ eventSignals e → Unpadded h := by
  unfold CleanHostnames eventSignals
  cases e.eventKind with
  | dhcp => exact Dhcp.unpadded_iff e.validPayload
  | mdns => exact Mdns.unpadded_iff e.validPayload
  | ssdp =>
      simp only [true_iff]
      intro h hh
      obtain ⟨_, hservice, _⟩ := (Ssdp.mem_decode_iff e.validPayload _).mp hh
      exact absurd hservice (by simp)
  | newHost | arp | tlsHello | unknown => simp

end Lanscope
