import Lanscope.Decode.Dhcp
import Lanscope.Decode.Mdns
import Lanscope.Decode.Ssdp

/-!
# Decoding events

A capture event is decoded by the decoder of its kind. Kinds without a decoder yield bare presence.
-/

namespace Lanscope

def eventSignals (ev : Event) : List Signal :=
  match ev.eventKind with
  | .dhcp => Dhcp.decode ev.validPayload
  | .mdns => Mdns.decode ev.validPayload
  | .ssdp => Ssdp.decode ev.validPayload
  | .arp | .newHost => [.seen]
  | .tlsHello => [.seen]
  | .unknown => [.seen]

def eventIp (ev : Event) : Option Ipv4Be := if ev.srcIp ≠ 0 then some ev.srcIp else none

def decodeEvent (ev : Event) : List Observation :=
  (eventSignals ev).map fun signal => ⟨ev.srcMac, eventIp ev, signal⟩

/-- The frame is of a kind without a decoder, or its decoder finds a field in the payload. -/
def Recognised (ev : Event) : Prop :=
  match ev.eventKind with
  | .dhcp => Dhcp.CarriesField ev.validPayload
  | .mdns => Mdns.CarriesField ev.validPayload
  | .ssdp => Ssdp.CarriesField ev.validPayload
  | _ => True

theorem decodeEvent_ne_nil_iff (ev : Event) : decodeEvent ev ≠ [] ↔ Recognised ev := by
  unfold decodeEvent eventSignals Recognised
  rw [ne_eq, List.map_eq_nil_iff]
  cases ev.eventKind with
  | dhcp => exact Dhcp.decode_ne_nil_iff ev.validPayload
  | mdns => exact Mdns.decode_ne_nil_iff ev.validPayload
  | ssdp => exact Ssdp.decode_ne_nil_iff ev.validPayload
  | newHost | arp | tlsHello | unknown => simp

theorem mem_decodeEvent {ev : Event} {obs : Observation} (h : obs ∈ decodeEvent ev) :
    obs.mac = ev.srcMac ∧ obs.ip = eventIp ev := by
  obtain ⟨signal, _, rfl⟩ := List.mem_map.mp h
  exact ⟨rfl, rfl⟩

/-- What a decoder returns depends on the kind, the addresses and the valid payload alone. -/
theorem decodeEvent_congr {e f : Event} (hkind : e.kind = f.kind) (hmac : e.srcMac = f.srcMac)
    (hip : e.srcIp = f.srcIp) (hpayload : e.validPayload = f.validPayload) :
    decodeEvent e = decodeEvent f := by
  simp only [decodeEvent, eventSignals, eventIp, Event.eventKind, hkind, hmac, hip, hpayload]

end Lanscope
