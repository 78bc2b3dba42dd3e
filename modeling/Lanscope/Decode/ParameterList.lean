import Lanscope.Decode.DhcpWire

/-!
# Fingerprints of parameter request lists

The fingerprint prints the requested codes in decimal between commas. No digit is a comma, so the
list can be read back, and two lists with one fingerprint are the same.
-/

namespace Lanscope

open Framework

namespace Dhcp

/-- The list whose fingerprint the text is. -/
def parameters (text : Str) : List UInt8 := (text.split ',').map Str.byteOfDecimal

theorem parameters_fingerprint {data : List UInt8} (h : data ≠ []) :
    parameters (fingerprint data) = data :=
  Str.map_split_join (by decide) h

theorem fingerprint_inj {data data' : List UInt8} (h : data ≠ []) (h' : data' ≠ []) :
    fingerprint data = fingerprint data' ↔ data = data' := by
  constructor
  · intro hsame
    have hlists := congrArg parameters hsame
    rw [parameters_fingerprint h, parameters_fingerprint h'] at hlists
    exact hlists
  · exact congrArg fingerprint

example : fingerprint [1, 23] = "1,23".toList ∧ fingerprint [12, 3] = "12,3".toList := by decide

/-! ## Packets -/

/-- A message: anything up to the first cookie, and an option area. -/
structure Packet where
  before : List UInt8
  items : List Item
  ending : Ending
  cookie_first : FirstCookie
    (before ++ magicCookie ++ (items.flatMap Item.bytes ++ ending.bytes)) before.length

/-- The codes that an item requests. -/
def Item.requested : Item → Option (List UInt8)
  | pad => none
  | option o => if o.code = optParamRequestList ∧ o.data ≠ [] then some o.data else none

namespace Packet

def bytes (p : Packet) : List UInt8 :=
  p.before ++ magicCookie ++ (p.items.flatMap Item.bytes ++ p.ending.bytes)

/-- The parameter request lists that the packet carries, in order. -/
def parameterLists (p : Packet) : List (List UInt8) := p.items.filterMap Item.requested

theorem ne_nil_of_mem (p : Packet) {data : List UInt8} (h : data ∈ p.parameterLists) :
    data ≠ [] := by
  obtain ⟨item, _, hitem⟩ := List.mem_filterMap.mp h
  cases item with
  | pad => exact absurd hitem.symm (Option.some_ne_none data)
  | option o =>
      obtain ⟨⟨_, hne⟩, hdata⟩ := Option.ite_none_right_eq_some.mp hitem
      exact Option.some.inj hdata ▸ hne

end Packet

private theorem fingerprints_optionSignal (code : UInt8) (data : List UInt8) :
    (optionSignal code data).filterMap Signal.asDhcpFingerprint =
      if code = optParamRequestList ∧ data ≠ [] then [fingerprint data] else [] := by
  have hother {c : Prop} [Decidable c] {s : Signal} (hs : s.asDhcpFingerprint = none) :
      (if c then [s] else []).filterMap Signal.asDhcpFingerprint = [] := by
    split_ifs <;> simp [hs]
  unfold optionSignal
  by_cases hlist : code = optParamRequestList
  · subst code
    rw [if_neg (by decide), if_pos rfl]
    by_cases hdata : data = []
    · simp [hdata, (fingerprint_eq_nil_iff []).mpr rfl]
    · simp [hdata, (fingerprint_eq_nil_iff data).not.mpr hdata, Signal.asDhcpFingerprint]
  · have hnone : ¬ (code = optParamRequestList ∧ data ≠ []) := fun h => hlist h.1
    rw [if_neg hlist, if_neg hnone]
    split_ifs
    · cases Utf8.fromUtf8 data with
      | none => rfl
      | some text => exact hother rfl
    · cases Utf8.fromUtf8 data with
      | none => rfl
      | some text => exact hother rfl
    · rfl

private theorem fingerprints_signals (items : List Item) :
    (items.filterMap Item.signal).filterMap Signal.asDhcpFingerprint =
      (items.filterMap Item.requested).map fingerprint := by
  induction items with
  | nil => rfl
  | cons item items ih =>
      have hone : item.signal.toList.filterMap Signal.asDhcpFingerprint =
          item.requested.toList.map fingerprint := by
        cases item with
        | pad => rfl
        | option o =>
            rw [Item.signal, ← o.optionSignal_eq, fingerprints_optionSignal, Item.requested]
            split_ifs <;> rfl
      have hcons {β : Type} (f : Item → Option β) :
          (item :: items).filterMap f = (f item).toList ++ items.filterMap f := by
        cases h : f item <;> simp [h]
      rw [hcons, hcons, List.filterMap_append, List.map_append, hone, ih]

/-- The fingerprint signals of a packet are those of its parameter request lists in order. Those of
two lists, in any two packets, are equal exactly when the lists are, and each list can be read off
its fingerprint. -/
theorem fingerprint_identifies (p q : Packet) :
    (decode p.bytes).filterMap Signal.asDhcpFingerprint = p.parameterLists.map fingerprint ∧
      (∀ data ∈ p.parameterLists, ∀ data' ∈ q.parameterLists,
        fingerprint data = fingerprint data' ↔ data = data') ∧
      ∀ data ∈ p.parameterLists, parameters (fingerprint data) = data := by
  refine ⟨?_, ?_, ?_⟩
  · rw [Packet.bytes, decode_area p.cookie_first, walk_items, walk_ending, List.append_nil]
    exact fingerprints_signals p.items
  · intro data hdata data' hdata'
    exact fingerprint_inj (p.ne_nil_of_mem hdata) (q.ne_nil_of_mem hdata')
  · exact fun data hdata => parameters_fingerprint (p.ne_nil_of_mem hdata)

end Dhcp

end Lanscope
