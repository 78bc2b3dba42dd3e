import Lanscope.Decode.Dispatch
import Lanscope.Ebpf.Frame

/-!
# Delivery of discovery payloads

What userspace decodes from the event of a discovery datagram, compared with what it would decode
from the whole UDP payload. The kernel copies at most `copyLen` bytes, half of what an event holds.
-/

namespace Lanscope

open Framework

/-- An Ethernet frame carrying a UDP datagram that ends the frame. -/
structure UdpFrame where
  dstMac : MacAddr
  srcMac : MacAddr
  ip : Ipv4Header
  isUdp : ip.protocol = ipprotoUdp
  srcPort : UInt16
  dstPort : UInt16
  length : UInt16
  checksum : UInt16
  payload : List UInt8

namespace UdpFrame

def l4 (f : UdpFrame) : List UInt8 :=
  BigEndian.bytes16 f.srcPort ++ BigEndian.bytes16 f.dstPort ++ BigEndian.bytes16 f.length ++
    BigEndian.bytes16 f.checksum ++ f.payload

def frame (f : UdpFrame) : Ipv4Frame := ⟨f.dstMac, f.srcMac, f.ip, f.l4⟩

def bytes (f : UdpFrame) : List UInt8 := f.frame.bytes

def payloadOffset (f : UdpFrame) : Nat := f.frame.l4Offset + 8

theorem length_bytes (f : UdpFrame) : f.bytes.length = f.payloadOffset + f.payload.length := by
  have h : f.l4.length = 8 + f.payload.length := by
    simp only [l4, List.length_append, BigEndian.length_bytes16]
  rw [bytes, Ipv4Frame.length_bytes, payloadOffset]
  change f.frame.l4Offset + f.l4.length = _
  omega

theorem drop_payloadOffset (f : UdpFrame) : f.bytes.drop f.payloadOffset = f.payload := by
  rw [bytes, payloadOffset, ← List.drop_drop, Ipv4Frame.drop_l4Offset]
  rfl

end UdpFrame

/-- The load helper copies every range that lies inside the packet. -/
def LoadsInRange (env : XdpEnv) (ctx : List UInt8) : Prop :=
  ∀ off len, off + len ≤ ctx.length → env.loadBytes ctx off len = some ((ctx.drop off).take len)

theorem loadL4_udp (env : XdpEnv) (f : UdpFrame) (hload : LoadsInRange env f.bytes) :
    loadL4 env f.bytes ipprotoUdp f.frame.l4Offset = (f.srcPort, f.dstPort, 0) := by
  have hlen := f.length_bytes
  unfold UdpFrame.payloadOffset at hlen
  have hdr : env.loadBytes f.bytes f.frame.l4Offset 8 =
      some (BigEndian.bytes16 f.srcPort ++ BigEndian.bytes16 f.dstPort ++
        BigEndian.bytes16 f.length ++ BigEndian.bytes16 f.checksum) := by
    rw [hload _ _ (by omega), UdpFrame.bytes, Ipv4Frame.drop_l4Offset]
    rfl
  have hsrc := BigEndian.word16_bytes f.srcPort
  have hdst := BigEndian.word16_bytes f.dstPort
  simp only [loadL4, show ipprotoUdp ≠ ipprotoTcp by decide, if_false, if_true, hdr]
  exact congrArg₂ Prod.mk hsrc (congrArg₂ Prod.mk hdst rfl)

/-- The event of a payload copy holds the first `copyLen` bytes from the copy's offset on. -/
theorem emit_payload (env : XdpEnv) (stale : Payload) (ctx : List UInt8) (kind : EventKind)
    (mac : MacAddr) (srcIp : Ipv4Be) (off : Nat) (s : Kernel) (hload : LoadsInRange env ctx) :
    ∃ ev : Event, (emit env (some stale) ctx kind mac srcIp (some off) s).events = s.events ++ [ev] ∧
      ev.kind = kind.toU8 ∧ ev.srcMac = mac ∧ ev.srcIp = srcIp ∧
      ev.validPayload = (ctx.drop off).take copyLen := by
  by_cases hoff : ctx.length > off
  · set n := if ctx.length - off > copyLen then copyLen else ctx.length - off with hn
    have hfit : n ≤ copyLen ∧ off + n ≤ ctx.length := by
      rw [hn]
      split_ifs <;> omega
    have htake : (ctx.drop off).take n = (ctx.drop off).take copyLen := by
      by_cases hlong : ctx.length - off > copyLen
      · rw [hn, if_pos hlong]
      · rw [hn, if_neg hlong, List.take_of_length_le (by simp),
          List.take_of_length_le (by simpa using hlong)]
    have hlen : ((ctx.drop off).take n).length = n := by
      rw [List.length_take, List.length_drop]
      omega
    have hcap : n ≤ eventPayloadLen := hfit.1.trans (by decide)
    refine ⟨⟨kind.toU8, UInt16.ofNat n, srcIp, mac, stale.overwrite ((ctx.drop off).take n)⟩,
      ?_, rfl, rfl, rfl, ?_⟩
    · simp only [emit, Option.bind_eq_bind, Option.bind_some, hoff, if_true, ← hn,
        hload off n hfit.2, Option.pure_def]
    · have hvalid : (UInt16.ofNat n).toNat = n := by
        have hsmall : n < 65536 := hcap.trans_lt (by decide)
        simp [hsmall]
      have hbytes : ((ctx.drop off).take n).length ≤ eventPayloadLen := by
        rw [hlen]
        exact hcap
      have htaken := Payload.take_overwrite stale hbytes
      rw [hlen] at htaken
      simp only [Event.validPayload, hvalid, Nat.min_eq_left hcap]
      exact htaken.trans htake
  · refine ⟨⟨kind.toU8, 0, srcIp, mac, stale⟩, ?_, rfl, rfl, rfl, ?_⟩
    · simp only [emit, Option.bind_eq_bind, Option.bind_some, hoff, if_false]
    · simp [Event.validPayload, List.drop_eq_nil_of_le (not_lt.mp hoff)]

/-- A discovery datagram adds one event after the announcement, which decodes as its first
`copyLen` payload bytes do. -/
theorem discovery_event (f : UdpFrame) (kind : EventKind)
    (hkind : udpDiscoveryKind f.srcPort f.dstPort = some kind) (env : XdpEnv) (s : Kernel)
    (hload : LoadsInRange env f.bytes) (hslot : env.discoverySlot.isSome) :
    ∃ ev : Event, (tryLanscope env f.bytes s).1.events =
        (announceNewHost env f.bytes f.srcMac s).events ++ [ev] ∧
      decodeEvent ev =
        decodeEvent (Event.holding kind f.srcMac f.ip.srcIp (f.payload.take copyLen)) := by
  obtain ⟨stale, hstale⟩ := Option.isSome_iff_exists.mp hslot
  obtain ⟨ev, hev, hk, hmac, hip, hpayload⟩ := emit_payload env stale f.bytes kind f.srcMac
    f.ip.srcIp f.payloadOffset (announceNewHost env f.bytes f.srcMac s) hload
  refine ⟨ev, ?_, ?_⟩
  · have hl4 : loadL4 env f.frame.bytes f.frame.ip.protocol f.frame.l4Offset =
        (f.srcPort, f.dstPort, 0) := by
      rw [show f.frame.ip.protocol = ipprotoUdp from f.isUdp]
      exact loadL4_udp env f hload
    have hevents := Ipv4Frame.tryLanscope_events s hl4
    rw [show f.frame.ip.protocol = ipprotoUdp from f.isUdp, if_pos rfl, hkind, hstale] at hevents
    exact hevents.trans hev
  · rw [f.drop_payloadOffset] at hpayload
    apply decodeEvent_congr hk hmac hip
    rw [hpayload, Event.validPayload_holding]
    exact (List.length_take_le _ _).trans (by decide)

/-- No observation is lost or altered on the way to userspace while the payload is at most `copyLen`
bytes long; of a longer payload, what the first `copyLen` bytes say arrives. -/
theorem discovery_delivered (f : UdpFrame) (kind : EventKind)
    (hkind : udpDiscoveryKind f.srcPort f.dstPort = some kind) (env : XdpEnv) (s : Kernel)
    (hload : LoadsInRange env f.bytes) (hslot : env.discoverySlot.isSome) :
    ∃ ev : Event, (tryLanscope env f.bytes s).1.events =
        (announceNewHost env f.bytes f.srcMac s).events ++ [ev] ∧
      decodeEvent ev =
        decodeEvent (Event.holding kind f.srcMac f.ip.srcIp (f.payload.take copyLen)) ∧
      (f.payload.length ≤ copyLen →
        decodeEvent ev = decodeEvent (Event.holding kind f.srcMac f.ip.srcIp f.payload)) := by
  obtain ⟨ev, hev, hdecode⟩ := discovery_event f kind hkind env s hload hslot
  refine ⟨ev, hev, hdecode, fun hlen => ?_⟩
  rw [hdecode, List.take_of_length_le hlen]

def plainUdpHeader : Ipv4Header where
  tos := 0
  totalLen := 0
  ident := 0
  fragment := 0
  ttl := 64
  protocol := ipprotoUdp
  checksum := 0
  srcIp := 0xC0A80132
  dstIp := 0xFFFFFFFF
  options := []
  options_words := by decide
  options_short := by decide

theorem plainUdpHeader_protocol : plainUdpHeader.protocol = ipprotoUdp := rfl

/-- A DHCP client message with the given bytes after its magic cookie. -/
def dhcpFrame (area : List UInt8) : UdpFrame where
  dstMac := MacAddr.ofBytes 0xff 0xff 0xff 0xff 0xff 0xff
  srcMac := MacAddr.ofBytes 0xb8 0x27 0xeb 0x01 0x02 0x03
  ip := plainUdpHeader
  isUdp := rfl
  srcPort := 68
  dstPort := 67
  length := 0
  checksum := 0
  payload := List.replicate 236 0 ++ Dhcp.magicCookie ++ area

def readyKernel : XdpEnv where
  ktime := 0
  loadBytes := fun ctx off len =>
    if off + len ≤ ctx.length then some ((ctx.drop off).take len) else none
  seenInsert := true
  announceSlot := some Payload.zero
  discoverySlot := some Payload.zero

theorem loadsInRange_readyKernel (ctx : List UInt8) : LoadsInRange readyKernel ctx :=
  fun _ _ h => if_pos h

example :
    ∃ ev : Event, (tryLanscope readyKernel (dhcpFrame [12, 1, 97, 255]).bytes Kernel.empty).1.events =
        (announceNewHost readyKernel (dhcpFrame [12, 1, 97, 255]).bytes
          (dhcpFrame [12, 1, 97, 255]).srcMac Kernel.empty).events ++ [ev] ∧
      decodeEvent ev = decodeEvent (Event.holding .dhcp (dhcpFrame [12, 1, 97, 255]).srcMac
        (dhcpFrame [12, 1, 97, 255]).ip.srcIp (dhcpFrame [12, 1, 97, 255]).payload) := by
  obtain ⟨ev, hev, _, hwhole⟩ := discovery_delivered (dhcpFrame [12, 1, 97, 255]) .dhcp rfl
    readyKernel Kernel.empty (loadsInRange_readyKernel _) rfl
  exact ⟨ev, hev, hwhole (by decide +kernel)⟩

private theorem signals_holding_dhcp (mac : MacAddr) (srcIp : Ipv4Be) {bytes : List UInt8}
    (h : bytes.length ≤ eventPayloadLen) :
    (decodeEvent (Event.holding .dhcp mac srcIp bytes)).map Observation.signal =
      Dhcp.decode bytes := by
  have hkind : (Event.holding .dhcp mac srcIp bytes).eventKind = .dhcp :=
    EventKind.fromU8_toU8 .dhcp
  simp [decodeEvent, eventSignals, hkind, Event.validPayload_holding _ _ _ h, Function.comp_def]

/-- A host name of twenty letters that starts inside the copied bytes and ends outside. -/
def longHostname : List UInt8 := [12, 20] ++ List.replicate 20 97 ++ [255]

private theorem decode_longHostname_cut :
    Dhcp.decode ((dhcpFrame longHostname).payload.take copyLen) = [] := by
  have hfind : Dhcp.findOptions ((dhcpFrame longHostname).payload.take copyLen) = some 240 := by
    decide +kernel
  have hrest : ((dhcpFrame longHostname).payload.take copyLen).drop 240 =
      12 :: 20 :: List.replicate 14 97 := by decide +kernel
  rw [Dhcp.decode, hfind]
  simp only [hrest]
  rw [Dhcp.walk.eq_def]
  simp [Dhcp.optPad, Dhcp.optEnd]

private theorem decode_longHostname : Dhcp.decode (dhcpFrame longHostname).payload ≠ [] := by
  have hfind : Dhcp.findOptions (dhcpFrame longHostname).payload = some 240 := by decide +kernel
  have hrest : (dhcpFrame longHostname).payload.drop 240 = longHostname := by decide +kernel
  rw [Dhcp.decode_ne_nil_iff]
  refine ⟨240, hfind, (12, List.replicate 20 97), ?_, Or.inl ⟨rfl, List.replicate 20 'a', ?_, ?_⟩⟩
  · rw [hrest, longHostname, Dhcp.options.eq_def]
    simp [Dhcp.optPad, Dhcp.optEnd]
  · rw [Utf8.fromUtf8_ascii (by simp)]
    rfl
  · decide +kernel

/-- A payload that fits an event can still lose what lies past its first `copyLen` bytes. -/
theorem discovery_truncated :
    ¬ ∀ (f : UdpFrame) (kind : EventKind), udpDiscoveryKind f.srcPort f.dstPort = some kind →
      f.payload.length ≤ eventPayloadLen →
      ∀ (env : XdpEnv) (s : Kernel), LoadsInRange env f.bytes → env.discoverySlot.isSome →
      ∃ ev : Event, (tryLanscope env f.bytes s).1.events =
          (announceNewHost env f.bytes f.srcMac s).events ++ [ev] ∧
        decodeEvent ev = decodeEvent (Event.holding kind f.srcMac f.ip.srcIp f.payload) := by
  intro h
  have hfits : (dhcpFrame longHostname).payload.length ≤ eventPayloadLen := by decide +kernel
  obtain ⟨ev, hev, hwhole⟩ := h (dhcpFrame longHostname) .dhcp rfl hfits readyKernel
    Kernel.empty (loadsInRange_readyKernel _) rfl
  obtain ⟨ev', hev', hcut⟩ := discovery_event (dhcpFrame longHostname) .dhcp rfl readyKernel
    Kernel.empty (loadsInRange_readyKernel _) rfl
  obtain rfl : ev = ev' := by simpa using hev.symm.trans hev'
  have hsame := congrArg (List.map Observation.signal) (hcut.symm.trans hwhole)
  rw [signals_holding_dhcp _ _ ((List.length_take_le _ _).trans (by decide)),
    signals_holding_dhcp _ _ hfits, decode_longHostname_cut] at hsame
  exact decode_longHostname hsame.symm

end Lanscope
