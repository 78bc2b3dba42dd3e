import Lanscope.Common.Event
import Lanscope.Framework.BigEndian
import Lanscope.Framework.Text

/-!
# Addresses as text

Hardware addresses print as colon-separated hexadecimal bytes and IPv4 addresses as dotted quads.
Both renderings are injective, and parsing undoes the first.
-/

namespace Lanscope

open Framework

def fmtMac (mac : MacAddr) : Str := Str.join [':'] (mac.toList.map Str.ofByteHex)

/-- Parse the six pieces around the colons; there must be no seventh. -/
def parseMac (s : Str) : Option MacAddr :=
  match s.split ':' with
  | [a, b, c, d, e, f] => do
    return MacAddr.ofBytes (← a.toByteRadix16) (← b.toByteRadix16) (← c.toByteRadix16)
      (← d.toByteRadix16) (← e.toByteRadix16) (← f.toByteRadix16)
  | _ => none

def fmtIpv4 (ip : Ipv4Be) : Str :=
  Str.join ['.'] ((BigEndian.bytes32 ip).map fun o => Str.ofNat o.toNat)

theorem split_fmtMac (mac : MacAddr) :
    (fmtMac mac).split ':' = mac.toList.map Str.ofByteHex := by
  apply List.splitOn_intercalate
  · intro l hl
    obtain ⟨b, _, rfl⟩ := List.mem_map.mp hl
    exact Str.colon_notMem_ofByteHex b
  · obtain ⟨a, b, c, d, e, f, rfl⟩ := mac.exists_ofBytes
    simp

/-- The pieces around the colons are six, and each of them is read as its byte. -/
theorem parseMac_eq_some_iff (s : Str) (mac : MacAddr) :
    parseMac s = some mac ↔ (s.split ':').map Str.toByteRadix16 = mac.toList.map some := by
  obtain ⟨u, v, w, x, y, z, rfl⟩ := mac.exists_ofBytes
  unfold parseMac
  split
  · next a b c d e f hpieces =>
    rw [hpieces]
    simp only [MacAddr.toList_ofBytes, List.map_cons, List.map_nil, List.cons.injEq, and_true]
    constructor
    · intro h
      simp only [Option.bind_eq_bind, Option.bind_eq_some_iff, Option.pure_def,
        Option.some.injEq] at h
      obtain ⟨a', ha, b', hb, c', hc, d', hd, e', he, f', hf, hmac⟩ := h
      have hbytes := congrArg Vector.toList hmac
      simp only [MacAddr.toList_ofBytes, List.cons.injEq, and_true] at hbytes
      obtain ⟨rfl, rfl, rfl, rfl, rfl, rfl⟩ := hbytes
      exact ⟨ha, hb, hc, hd, he, hf⟩
    · intro h
      obtain ⟨ha, hb, hc, hd, he, hf⟩ := h
      rw [ha, hb, hc, hd, he, hf]
      rfl
  · next hother =>
    constructor
    · intro h
      exact absurd h.symm (Option.some_ne_none _)
    · intro h
      have hlength := congrArg List.length h
      rw [List.length_map, MacAddr.toList_ofBytes] at hlength
      match hpieces : s.split ':', hlength with
      | [a, b, c, d, e, f], _ => exact absurd hpieces (hother a b c d e f)

@[simp] theorem parseMac_fmtMac (mac : MacAddr) : parseMac (fmtMac mac) = some mac := by
  rw [parseMac_eq_some_iff, split_fmtMac, List.map_map]
  exact List.map_congr_left fun b _ => Str.toByteRadix16_ofByteHex b

theorem fmtMac_injective : Function.Injective fmtMac := by
  intro m n h
  have hparse := congrArg parseMac h
  simpa using hparse

theorem fmtIpv4_injective : Function.Injective fmtIpv4 := by
  have hread (ip : Ipv4Be) :
      ((fmtIpv4 ip).split '.').map Str.byteOfDecimal = BigEndian.bytes32 ip :=
    Str.map_split_join (by decide) (List.cons_ne_nil _ _)
  intro a b h
  apply BigEndian.bytes32_injective
  rw [← hread a, ← hread b, h]

end Lanscope
