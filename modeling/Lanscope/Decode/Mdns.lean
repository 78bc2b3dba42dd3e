import Lanscope.Decode.Dns
import Lanscope.Decode.Signal

/-!
# mDNS decoder

A `_service._tcp.local` name becomes a service and a bare `host.local` a hostname.
-/

namespace Lanscope.Mdns

open Framework

def isService (name : Str) : Bool :=
  name.contains "._tcp".toList || name.contains "._udp".toList

def nameSignal (name : Str) : List Signal :=
  if isService name then [.service name]
  else
    match name.stripSuffix ".local".toList with
    | some host => if host ≠ [] ∧ host.head? ≠ some '_' then [.hostname host] else []
    | none => []

def decode (payload : List UInt8) : List Signal := (Dns.extractNames payload).flatMap nameSignal

/-- A service, or a nonempty host before `.local` that does not start with an underscore. -/
def Usable (name : Str) : Prop :=
  isService name ∨ ∃ host, name.stripSuffix ".local".toList = some host ∧ host ≠ [] ∧
    host.head? ≠ some '_'

def CarriesField (payload : List UInt8) : Prop :=
  ∃ pos < payload.length, ∃ name next, Dns.readName payload pos = some (name, next) ∧
    Dns.isInteresting name ∧ Usable name

theorem nameSignal_ne_nil_iff (name : Str) : nameSignal name ≠ [] ↔ Usable name := by
  unfold nameSignal Usable
  by_cases hs : isService name
  · simp [hs]
  · cases name.stripSuffix ".local".toList <;> simp [hs]

theorem decode_ne_nil_iff (payload : List UInt8) : decode payload ≠ [] ↔ CarriesField payload := by
  simp only [decode, ne_eq, List.flatMap_eq_nil_iff, not_forall, exists_prop]
  constructor
  · rintro ⟨name, hname, hsig⟩
    obtain ⟨pos, hpos, next, hread, hint⟩ := Dns.mem_extractNames.mp hname
    exact ⟨pos, hpos, name, next, hread, hint, (nameSignal_ne_nil_iff name).mp hsig⟩
  · rintro ⟨pos, hpos, name, next, hread, hint, husable⟩
    exact ⟨name, Dns.mem_extractNames.mpr ⟨pos, hpos, next, hread, hint⟩,
      (nameSignal_ne_nil_iff name).mpr husable⟩

end Lanscope.Mdns
