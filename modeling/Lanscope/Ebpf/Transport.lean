import Lanscope.Ebpf.Delivery

/-!
# Flow updates of whole packets

Frames that carry a complete TCP or UDP header, or any other protocol, and the one flow update and
the discovery event that the program makes of them. Frames it cannot read as IPv4 update no flow.
-/

namespace Lanscope

open Framework

structure TcpHeader where
  srcPort : UInt16
  dstPort : UInt16
  seq : UInt32
  ack : UInt32
  /-- Data offset and reserved bits. The options it announces open the body. -/
  offset : UInt8
  flags : UInt8
  window : UInt16
  checksum : UInt16
  urgent : UInt16

def TcpHeader.bytes (h : TcpHeader) : List UInt8 :=
  BigEndian.bytes16 h.srcPort ++ BigEndian.bytes16 h.dstPort ++ BigEndian.bytes32 h.seq ++
    BigEndian.bytes32 h.ack ++ [h.offset, h.flags] ++ BigEndian.bytes16 h.window ++
    BigEndian.bytes16 h.checksum ++ BigEndian.bytes16 h.urgent

structure UdpHeader where
  srcPort : UInt16
  dstPort : UInt16
  length : UInt16
  checksum : UInt16

def UdpHeader.bytes (h : UdpHeader) : List UInt8 :=
  BigEndian.bytes16 h.srcPort ++ BigEndian.bytes16 h.dstPort ++ BigEndian.bytes16 h.length ++
    BigEndian.bytes16 h.checksum

/-- What an IPv4 packet carries. -/
inductive Transport
  | tcp (header : TcpHeader) (body : List UInt8)
  | udp (header : UdpHeader) (body : List UInt8)
  | other (protocol : UInt8) (notTcp : protocol ≠ ipprotoTcp) (notUdp : protocol ≠ ipprotoUdp)
      (body : List UInt8)

namespace Transport

def protocol : Transport → UInt8
  | tcp _ _ => ipprotoTcp
  | udp _ _ => ipprotoUdp
  | other protocol _ _ _ => protocol

def srcPort : Transport → UInt16
  | tcp header _ => header.srcPort
  | udp header _ => header.srcPort
  | other _ _ _ _ => 0

def dstPort : Transport → UInt16
  | tcp header _ => header.dstPort
  | udp header _ => header.dstPort
  | other _ _ _ _ => 0

def tcpFlags : Transport → UInt8
  | tcp header _ => header.flags
  | _ => 0

def bytes : Transport → List UInt8
  | tcp header body => header.bytes ++ body
  | udp header body => header.bytes ++ body
  | other _ _ _ body => body

/-- The UDP ports of the discovery protocols: DHCP, mDNS and SSDP. -/
def discoveryPorts : List UInt16 := [67, 68, 5353, 1900]

def IsDiscovery (l4 : Transport) : Prop :=
  l4.protocol = ipprotoUdp ∧ (l4.srcPort ∈ discoveryPorts ∨ l4.dstPort ∈ discoveryPorts)

instance : DecidablePred IsDiscovery := fun _ => inferInstanceAs (Decidable (_ ∧ _))

end Transport

theorem udpDiscoveryKind_isSome_iff (src dst : UInt16) : (udpDiscoveryKind src dst).isSome ↔
    src ∈ Transport.discoveryPorts ∨ dst ∈ Transport.discoveryPorts := by
  simp only [udpDiscoveryKind, Transport.discoveryPorts, List.mem_cons, List.not_mem_nil,
    or_false, Bool.or_eq_true, decide_eq_true_eq]
  split_ifs <;> grind

structure TransportFrame where
  dstMac : MacAddr
  srcMac : MacAddr
  ip : Ipv4Header
  l4 : Transport
  protocol_eq : ip.protocol = l4.protocol

namespace TransportFrame

def frame (f : TransportFrame) : Ipv4Frame := ⟨f.dstMac, f.srcMac, f.ip, f.l4.bytes⟩

def bytes (f : TransportFrame) : List UInt8 := f.frame.bytes

def key (f : TransportFrame) : FlowKey :=
  ⟨f.ip.srcIp, f.ip.dstIp, f.l4.srcPort, f.l4.dstPort, f.ip.protocol⟩

end TransportFrame

/-- The header fields are read back from wherever the IP options end. -/
theorem loadL4_bytes (env : XdpEnv) (f : TransportFrame) (hload : LoadsInRange env f.bytes) :
    loadL4 env f.bytes f.ip.protocol f.frame.l4Offset =
      (f.l4.srcPort, f.l4.dstPort, f.l4.tcpFlags) := by
  obtain ⟨dstMac, srcMac, ip, l4, hproto⟩ := f
  cases l4 with
  | tcp h body =>
      have hlen := Ipv4Frame.length_bytes ⟨dstMac, srcMac, ip, h.bytes ++ body⟩
      have hheader : 16 ≤ (h.bytes ++ body).length := by
        simp only [TcpHeader.bytes, List.length_append, BigEndian.length_bytes16,
          BigEndian.length_bytes32, List.length_cons, List.length_nil]
        omega
      have hdr := hload (Ipv4Frame.l4Offset ⟨dstMac, srcMac, ip, h.bytes ++ body⟩) 16
        (hlen.symm ▸ Nat.add_le_add_left hheader _)
      simp only [TransportFrame.bytes, TransportFrame.frame, Transport.bytes,
        Ipv4Frame.drop_l4Offset] at hdr
      have hsrc := BigEndian.word16_bytes h.srcPort
      have hdst := BigEndian.word16_bytes h.dstPort
      simp only [loadL4, hproto, Transport.protocol, if_true, TransportFrame.bytes,
        TransportFrame.frame, Transport.bytes, hdr]
      exact congrArg₂ Prod.mk hsrc (congrArg₂ Prod.mk hdst rfl)
  | udp h body =>
      have hudp := loadL4_udp env
        ⟨dstMac, srcMac, ip, hproto, h.srcPort, h.dstPort, h.length, h.checksum, body⟩ hload
      simp only [hproto]
      exact hudp
  | other protocol notTcp notUdp body =>
      have hother : ip.protocol = protocol := hproto
      simp only [loadL4, hother, notTcp, notUdp, if_false]
      rfl

/-- One flow update under the packet's own key, and one discovery event where the packet calls for
it and the ring buffer has room. -/
structure Counted (env : XdpEnv) (f : TransportFrame) (s t : Kernel) : Prop where
  flows : t.flows = updateFlow s.flows f.key f.ip.totalLen.toUInt64 f.l4.tcpFlags env.ktime
  discovery : f.l4.IsDiscovery → env.discoverySlot.isSome →
    ∃ kind ev, udpDiscoveryKind f.l4.srcPort f.l4.dstPort = some kind ∧
      t.events = (announceNewHost env f.bytes f.srcMac s).events ++ [ev] ∧
      ev.kind = kind.toU8 ∧ ev.srcMac = f.srcMac ∧ ev.srcIp = f.ip.srcIp
  quiet : ¬ (f.l4.IsDiscovery ∧ env.discoverySlot.isSome) →
    t.events = (announceNewHost env f.bytes f.srcMac s).events

/-- The frame is too short for an IPv4 header, has another ethertype, or announces a header of less
than five words. -/
def NotIpv4 (ctx : List UInt8) : Prop :=
  ctx.length < 34 ∨ (ctx.drop 12).take 2 ≠ BigEndian.bytes16 ethPIp ∨
    ∃ verIhl, ctx[14]? = some verIhl ∧ (verIhl &&& 0x0f).toNat < 5

private theorem tryLanscope_counted (env : XdpEnv) (f : TransportFrame) (s : Kernel)
    (hload : LoadsInRange env f.bytes) : Counted env f s (tryLanscope env f.bytes s).1 := by
  have hl4 := loadL4_bytes env f hload
  have hevents := Ipv4Frame.tryLanscope_events s hl4
  have hproto : f.frame.ip.protocol = f.l4.protocol := f.protocol_eq
  have hports := udpDiscoveryKind_isSome_iff f.l4.srcPort f.l4.dstPort
  refine ⟨Ipv4Frame.tryLanscope_flows s hl4, ?_, ?_⟩
  · intro hdisc hslot
    obtain ⟨kind, hkind⟩ := Option.isSome_iff_exists.mp (hports.mpr hdisc.2)
    obtain ⟨stale, hstale⟩ := Option.isSome_iff_exists.mp hslot
    rw [hproto, if_pos hdisc.1, hkind, hstale] at hevents
    obtain ⟨ev, hev, hfields⟩ := emit_some env stale f.bytes kind f.srcMac f.ip.srcIp
      (some (f.frame.l4Offset + 8)) (announceNewHost env f.bytes f.srcMac s)
    exact ⟨kind, ev, hkind, hevents.trans hev, hfields⟩
  · intro hquiet
    rw [hproto] at hevents
    by_cases hudp : f.l4.protocol = ipprotoUdp
    · rw [if_pos hudp] at hevents
      cases hkind : udpDiscoveryKind f.l4.srcPort f.l4.dstPort with
      | none =>
          rw [hkind] at hevents
          exact hevents
      | some kind =>
          have hdisc : f.l4.IsDiscovery := ⟨hudp, hports.mp (by rw [hkind]; rfl)⟩
          have hslot : env.discoverySlot = none :=
            Option.not_isSome_iff_eq_none.mp fun h => hquiet ⟨hdisc, h⟩
          rw [hkind, hslot] at hevents
          exact hevents
    · rw [if_neg hudp] at hevents
      exact hevents

private theorem loadIpv4_short {ctx : List UInt8} (h : ctx.length < 34) : loadIpv4 ctx = none := by
  have hdst : loadU32Be ctx (ethHdrLen + 16) = none := by
    have hlast : loadU8 ctx (ethHdrLen + 16 + 3) = none := by
      rw [loadU8_eq]
      exact List.getElem?_eq_none (by unfold ethHdrLen; omega)
    simp only [loadU32Be, hlast, Option.bind_eq_bind, Option.bind_none, Option.bind_fun_none]
  simp only [loadIpv4, hdst, Option.bind_eq_bind, Option.bind_none, Option.bind_fun_none, ite_self]

private theorem loadIpv4_ihl {ctx : List UInt8} {verIhl : UInt8} (h : ctx[14]? = some verIhl)
    (hihl : (verIhl &&& 0x0f).toNat < 5) : loadIpv4 ctx = none := by
  have hver : loadU8 ctx ethHdrLen = some verIhl := (loadU8_eq _ _).trans h
  have hshort : (verIhl &&& 0x0f).toNat * 4 < 20 := by omega
  simp only [loadIpv4, hver, Option.bind_eq_bind, Option.bind_some, hshort, if_true]

private theorem loadEthertype_eq {ctx : List UInt8} (h : loadU16Be ctx 12 = some ethPIp) :
    (ctx.drop 12).take 2 = BigEndian.bytes16 ethPIp := by
  simp only [loadU16Be, loadU8_eq, Option.bind_eq_bind, Option.bind_eq_some_iff, Option.pure_def,
    Option.some.injEq] at h
  obtain ⟨hi, hhi, lo, hlo, hword⟩ := h
  obtain ⟨hlen₀, hget₀⟩ := List.getElem?_eq_some_iff.mp hhi
  obtain ⟨hlen₁, hget₁⟩ := List.getElem?_eq_some_iff.mp hlo
  rw [List.drop_eq_getElem_cons hlen₀, List.drop_eq_getElem_cons hlen₁, hget₀, hget₁, ← hword]
  rw [List.take_succ_cons, List.take_succ_cons, List.take_zero]
  exact (BigEndian.bytes16_word16 hi lo).symm

private theorem tryLanscope_notIpv4 (env : XdpEnv) {ctx : List UInt8} (s : Kernel)
    (h : NotIpv4 ctx) : (tryLanscope env ctx s).1.flows = s.flows := by
  unfold tryLanscope
  split
  · rename_i srcMac ethertype hmac hether
    dsimp only
    split_ifs with harp hip
    · simp
    · have hnone : loadIpv4 ctx = none := by
        rcases h with hshort | hother | ⟨verIhl, hver, hihl⟩
        · exact loadIpv4_short hshort
        · exact absurd (loadEthertype_eq (hip ▸ hether)) hother
        · exact loadIpv4_ihl hver hihl
      simp [handleIpv4, hnone]
    · simp
  · rfl

/-- Whole packets are counted once, under their own key; frames that are no IPv4 packets are not
counted. -/
theorem tryLanscope_counts :
    (∀ (f : TransportFrame) (env : XdpEnv) (s : Kernel), LoadsInRange env f.bytes →
      Counted env f s (tryLanscope env f.bytes s).1) ∧
    ∀ (ctx : List UInt8) (env : XdpEnv) (s : Kernel), NotIpv4 ctx →
      (tryLanscope env ctx s).1.flows = s.flows :=
  ⟨fun f env s hload => tryLanscope_counted env f s hload,
    fun _ env s h => tryLanscope_notIpv4 env s h⟩

/-- An SSDP announcement without a payload. -/
def ssdpFrame : TransportFrame where
  dstMac := MacAddr.ofBytes 0x01 0x00 0x5e 0x7f 0xff 0xfa
  srcMac := MacAddr.ofBytes 0xb8 0x27 0xeb 0x01 0x02 0x03
  ip := plainUdpHeader
  l4 := .udp ⟨50000, 1900, 8, 0⟩ []
  protocol_eq := plainUdpHeader_protocol

theorem tryLanscope_counts_ssdp :
    Counted readyKernel ssdpFrame Kernel.empty
      (tryLanscope readyKernel ssdpFrame.bytes Kernel.empty).1 ∧
    (tryLanscope readyKernel (ssdpFrame.bytes.take 33) Kernel.empty).1.flows =
      Kernel.empty.flows := by
  refine ⟨tryLanscope_counts.1 ssdpFrame readyKernel Kernel.empty (loadsInRange_readyKernel _),
    tryLanscope_counts.2 _ readyKernel Kernel.empty (Or.inl ?_)⟩
  exact (List.length_take_le _ _).trans_lt (by decide)

/-- No event is left behind where the ring buffer is full. -/
theorem discovery_full_ring : ¬ ∀ (f : TransportFrame) (env : XdpEnv) (s : Kernel),
    LoadsInRange env f.bytes → f.l4.IsDiscovery →
      ∃ ev, (tryLanscope env f.bytes s).1.events =
        (announceNewHost env f.bytes f.srcMac s).events ++ [ev] := by
  intro h
  obtain ⟨ev, hev⟩ := h ssdpFrame { readyKernel with discoverySlot := none } Kernel.empty
    (fun _ _ hin => if_pos hin) (by decide)
  have hcounted := tryLanscope_counted { readyKernel with discoverySlot := none } ssdpFrame
    Kernel.empty (fun _ _ hin => if_pos hin)
  rw [hcounted.quiet (by simp)] at hev
  simp at hev

end Lanscope
