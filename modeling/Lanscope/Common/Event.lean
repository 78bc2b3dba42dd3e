import Mathlib.Tactic

/-!
# Discovery events

The record the kernel side pushes through the ring buffer: the kind of frame, its source addresses
and a bounded copy of its payload. Padding bytes carry nothing and are left out.
-/

namespace Lanscope

/-- A 48-bit hardware address. All zeros means "unknown". -/
abbrev MacAddr := Vector UInt8 6

/-- An IPv4 address as the number its four bytes spell in wire order. -/
abbrev Ipv4Be := UInt32

def MacAddr.ofBytes (a b c d e f : UInt8) : MacAddr := #v[a, b, c, d, e, f]

@[simp] theorem MacAddr.toList_ofBytes (a b c d e f : UInt8) :
    (ofBytes a b c d e f).toList = [a, b, c, d, e, f] := rfl

theorem MacAddr.exists_ofBytes (mac : MacAddr) : ∃ a b c d e f, mac = ofBytes a b c d e f := by
  obtain ⟨⟨bytes⟩, hsize⟩ := mac
  match bytes, hsize with
  | [a, b, c, d, e, f], _ => exact ⟨a, b, c, d, e, f, rfl⟩

def zeroMac : MacAddr := MacAddr.ofBytes 0 0 0 0 0 0

def eventPayloadLen : Nat := 512

inductive EventKind
  | newHost
  | arp
  | dhcp
  | mdns
  | ssdp
  | tlsHello
  | unknown
  deriving DecidableEq

def EventKind.toU8 : EventKind → UInt8
  | .newHost => 0
  | .arp => 1
  | .dhcp => 2
  | .mdns => 3
  | .ssdp => 4
  | .tlsHello => 5
  | .unknown => 255

def EventKind.fromU8 (v : UInt8) : EventKind :=
  if v = 0 then .newHost
  else if v = 1 then .arp
  else if v = 2 then .dhcp
  else if v = 3 then .mdns
  else if v = 4 then .ssdp
  else if v = 5 then .tlsHello
  else .unknown

@[simp] theorem EventKind.fromU8_toU8 (k : EventKind) : EventKind.fromU8 k.toU8 = k := by
  cases k <;> rfl

/-- The payload buffer of an event, always of full size. -/
structure Payload where
  bytes : List UInt8
  size : bytes.length = eventPayloadLen
  deriving DecidableEq

def Payload.overwrite (p : Payload) (bytes : List UInt8) : Payload where
  bytes := (bytes ++ p.bytes.drop bytes.length).take eventPayloadLen
  size := by
    have h := p.size
    simp only [List.length_take, List.length_append, List.length_drop]
    omega

def Payload.zero : Payload where
  bytes := List.replicate eventPayloadLen 0
  size := List.length_replicate

structure Event where
  kind : UInt8
  payloadLen : UInt16
  /-- 0 when the frame is not an IP frame. -/
  srcIp : Ipv4Be
  srcMac : MacAddr
  payload : Payload
  deriving DecidableEq

namespace Event

def eventKind (ev : Event) : EventKind := EventKind.fromU8 ev.kind

def validPayload (ev : Event) : List UInt8 :=
  ev.payload.bytes.take (min ev.payloadLen.toNat eventPayloadLen)

/-- An event whose payload is the given byte string, cut to the buffer where it is longer. -/
def holding (kind : EventKind) (srcMac : MacAddr) (srcIp : Ipv4Be) (bytes : List UInt8) : Event where
  kind := kind.toU8
  payloadLen := UInt16.ofNat bytes.length
  srcIp := srcIp
  srcMac := srcMac
  payload := Payload.zero.overwrite bytes

end Event

theorem Payload.take_overwrite (p : Payload) {bytes : List UInt8}
    (h : bytes.length ≤ eventPayloadLen) :
    (p.overwrite bytes).bytes.take bytes.length = bytes := by
  simp only [Payload.overwrite, List.take_take]
  rw [Nat.min_eq_left h, List.take_left']
  rfl

theorem Event.validPayload_holding (kind : EventKind) (srcMac : MacAddr) (srcIp : Ipv4Be)
    {bytes : List UInt8} (h : bytes.length ≤ eventPayloadLen) :
    (Event.holding kind srcMac srcIp bytes).validPayload = bytes := by
  have hlen : (UInt16.ofNat bytes.length).toNat = bytes.length := by
    have : bytes.length < 65536 := h.trans_lt (by decide)
    simp [this]
  simp only [Event.validPayload, Event.holding, hlen, Nat.min_eq_left h]
  exact Payload.take_overwrite _ h

end Lanscope
