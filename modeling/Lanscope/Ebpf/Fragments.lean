import Lanscope.Ebpf.Aggregate
import Lanscope.Ebpf.Transport

/-!
# Fragments

The program takes the bytes after the IP header for a transport header, whatever the fragment
offset. What it makes of the later fragments of a datagram depends on how their data starts.
-/

namespace Lanscope

open Framework

/-- A TCP or UDP datagram before it is split. -/
structure Datagram where
  srcIp : Ipv4Be
  dstIp : Ipv4Be
  l4 : Transport
  ports : l4.protocol = ipprotoTcp ∨ l4.protocol = ipprotoUdp

structure Fragment where
  dstMac : MacAddr
  srcMac : MacAddr
  ip : Ipv4Header
  data : List UInt8
  /-- What pads a short frame. -/
  trailer : List UInt8

namespace Fragment

/-- The fragment offset, which the header counts in units of eight bytes. -/
def offset (f : Fragment) : Nat := (f.ip.fragment &&& 0x1fff).toNat * 8

def moreFragments (f : Fragment) : Bool := f.ip.fragment &&& 0x2000 ≠ 0

def frame (f : Fragment) : Ipv4Frame := ⟨f.dstMac, f.srcMac, f.ip, f.data ++ f.trailer⟩

def bytes (f : Fragment) : List UInt8 := f.frame.bytes

end Fragment

/-- The data of the fragments follows on from the given offset to the end of the datagram. -/
def Consecutive : Nat → List Fragment → Prop
  | _, [] => True
  | n, f :: fs =>
    f.offset = n ∧ (f.moreFragments ↔ fs ≠ []) ∧ Consecutive (n + f.data.length) fs

/-- A way of splitting a datagram. -/
structure Fragmentation (d : Datagram) where
  fragments : List Fragment
  headers : ∀ f ∈ fragments, f.ip.srcIp = d.srcIp ∧ f.ip.dstIp = d.dstIp ∧
    f.ip.protocol = d.l4.protocol ∧ f.ip.totalLen.toNat = f.ip.ihl * 4 + f.data.length
  consecutive : Consecutive 0 fragments
  data : (fragments.map Fragment.data).flatten = d.l4.bytes

/-- The load helper copies what lies inside the packet, and fails for every other range. -/
def LoadsExactly (env : XdpEnv) (ctx : List UInt8) : Prop :=
  ∀ off len, env.loadBytes ctx off len =
    if off + len ≤ ctx.length then some ((ctx.drop off).take len) else none

def OwnOrZero (own port : UInt16) : Prop := port = own ∨ port = 0

instance (own port : UInt16) : Decidable (OwnOrZero own port) := inferInstanceAs (Decidable (_ ∨ _))

/-- One flow update with the datagram's addresses, its ports or zero and no TCP flag, and no
discovery event. -/
def NotMisread (d : Datagram) (f : Fragment) (env : XdpEnv) (s : Kernel) : Prop :=
  (∃ srcPort dstPort, OwnOrZero d.l4.srcPort srcPort ∧ OwnOrZero d.l4.dstPort dstPort ∧
    (tryLanscope env f.bytes s).1.flows =
      updateFlow s.flows ⟨d.srcIp, d.dstIp, srcPort, dstPort, d.l4.protocol⟩
        f.ip.totalLen.toUInt64 0 env.ktime) ∧
  (tryLanscope env f.bytes s).1.events = (announceNewHost env f.bytes f.srcMac s).events

/-- The frame ends too early for a header, or the bytes in the place of the ports are the
datagram's own or zero, those in the place of the TCP flags set none that is counted, and those in
the place of UDP ports name no discovery port. -/
def StartsHarmless (d : Datagram) (f : Fragment) : Prop :=
  let start := f.data ++ f.trailer
  if d.l4.protocol = ipprotoTcp then
    start.length < 16 ∨
      (OwnOrZero d.l4.srcPort (hdrU16 start 0) ∧ OwnOrZero d.l4.dstPort (hdrU16 start 2) ∧
        start.getD 13 0 &&& 0x17 = 0)
  else
    start.length < 8 ∨
      (OwnOrZero d.l4.srcPort (hdrU16 start 0) ∧ OwnOrZero d.l4.dstPort (hdrU16 start 2) ∧
        hdrU16 start 0 ∉ Transport.discoveryPorts ∧ hdrU16 start 2 ∉ Transport.discoveryPorts)

instance (d : Datagram) (f : Fragment) : Decidable (StartsHarmless d f) := by
  unfold StartsHarmless
  infer_instance

/-! ## What the flags leave in a record -/

private theorem countedFlags_fin : ∀ n : Fin 256, UInt8.ofNat n &&& 0x17 = 0 ↔
    UInt8.ofNat n &&& 0x02 = 0 ∧ UInt8.ofNat n &&& 0x01 = 0 ∧ UInt8.ofNat n &&& 0x04 = 0 ∧
      UInt8.ofNat n &&& 0x10 = 0 := by
  decide +kernel

private theorem countedFlags_iff (tcpFlags : UInt8) : tcpFlags &&& 0x17 = 0 ↔
    tcpFlags &&& 0x02 = 0 ∧ tcpFlags &&& 0x01 = 0 ∧ tcpFlags &&& 0x04 = 0 ∧
      tcpFlags &&& 0x10 = 0 := by
  simpa using countedFlags_fin ⟨tcpFlags.toNat, tcpFlags.toNat_lt⟩

private theorem bump_eq_self_iff (tcpFlags flag : UInt8) (count : UInt32) :
    bump tcpFlags flag count = count ↔ tcpFlags &&& flag = 0 := by
  unfold bump
  by_cases h : tcpFlags &&& flag = 0
  · simp [h]
  · rw [if_pos h]
    constructor
    · intro hcount
      have hone := congrArg UInt32.toNat hcount
      rw [UInt32.toNat_add] at hone
      have hlt := count.toNat_lt
      simp only [UInt32.reduceToNat] at hone
      omega
    · intro hzero
      exact absurd hzero h

/-- The flags leave no trace in a record exactly when none of the four counted ones is set. -/
private theorem accumulateFlags_eq_zero_iff (stats : FlowStats) (tcpFlags : UInt8) :
    accumulateFlags stats tcpFlags = accumulateFlags stats 0 ↔ tcpFlags &&& 0x17 = 0 := by
  have hzero (flag : UInt8) (count : UInt32) : bump 0 flag count = count := by
    rw [bump_eq_self_iff]
    exact UInt8.zero_and
  rw [accumulateFlags_eq, accumulateFlags_eq, countedFlags_iff]
  simp only [hzero, FlowStats.mk.injEq, bump_eq_self_iff, true_and, and_true]

/-! ## What is loaded -/

private theorem hdrU16_take (bytes : List UInt8) {n off : Nat} (h : off + 1 < n) :
    hdrU16 (bytes.take n) off = hdrU16 bytes off := by
  simp only [hdrU16, List.getD_eq_getElem?_getD, List.getElem?_take, h,
    Nat.lt_of_succ_lt h, if_true]

private theorem loadBytes_fragment {env : XdpEnv} {f : Fragment} (hload : LoadsExactly env f.bytes)
    (n : Nat) : env.loadBytes f.bytes f.frame.l4Offset n =
      if (f.data ++ f.trailer).length < n then none else some ((f.data ++ f.trailer).take n) := by
  have hdrop : f.bytes.drop f.frame.l4Offset = f.data ++ f.trailer := f.frame.drop_l4Offset
  have hlen : f.bytes.length = f.frame.l4Offset + (f.data ++ f.trailer).length :=
    f.frame.length_bytes
  rw [hload, hdrop, hlen]
  by_cases h : (f.data ++ f.trailer).length < n
  · rw [if_pos h, if_neg (by omega)]
  · rw [if_neg h, if_pos (by omega)]

/-- How many bytes are loaded for a header. -/
private def headerLen (d : Datagram) : Nat := if d.l4.protocol = ipprotoTcp then 16 else 8

private def flagsAt (d : Datagram) (start : List UInt8) : UInt8 :=
  if d.l4.protocol = ipprotoTcp then start.getD 13 0 else 0

private theorem udp_ne_tcp : ipprotoUdp ≠ ipprotoTcp := by decide

private theorem loadL4_start (d : Datagram) {env : XdpEnv} {f : Fragment}
    (hload : LoadsExactly env f.bytes) :
    loadL4 env f.bytes d.l4.protocol f.frame.l4Offset =
      if (f.data ++ f.trailer).length < headerLen d then (0, 0, 0)
      else (hdrU16 (f.data ++ f.trailer) 0, hdrU16 (f.data ++ f.trailer) 2,
        flagsAt d (f.data ++ f.trailer)) := by
  unfold loadL4 headerLen flagsAt
  cases d.ports with
  | inl htcp =>
      simp only [htcp, if_true, loadBytes_fragment hload]
      by_cases h : (f.data ++ f.trailer).length < 16
      · simp only [h, if_true]
      · simp only [h, if_false]
        rw [hdrU16_take _ (by omega), hdrU16_take _ (by omega), List.getD_eq_getElem?_getD,
          List.getElem?_take_of_lt (by omega), ← List.getD_eq_getElem?_getD]
  | inr hudp =>
      simp only [hudp, udp_ne_tcp, if_true, if_false, loadBytes_fragment hload]
      by_cases h : (f.data ++ f.trailer).length < 8
      · simp only [h, if_true]
      · simp only [h, if_false]
        rw [hdrU16_take _ (by omega), hdrU16_take _ (by omega)]

/-- Harmless ports, flags and, for UDP, no discovery port among the ports. -/
private def HarmlessL4 (d : Datagram) (srcPort dstPort : UInt16) (tcpFlags : UInt8) : Prop :=
  OwnOrZero d.l4.srcPort srcPort ∧ OwnOrZero d.l4.dstPort dstPort ∧ tcpFlags &&& 0x17 = 0 ∧
    (d.l4.protocol = ipprotoUdp → udpDiscoveryKind srcPort dstPort = none)

private theorem harmlessL4_zero (d : Datagram) : HarmlessL4 d 0 0 0 :=
  ⟨Or.inr rfl, Or.inr rfl, by decide, fun _ => by decide⟩

private theorem startsHarmless_iff_or (d : Datagram) (f : Fragment) : StartsHarmless d f ↔
    (f.data ++ f.trailer).length < headerLen d ∨
      HarmlessL4 d (hdrU16 (f.data ++ f.trailer) 0) (hdrU16 (f.data ++ f.trailer) 2)
        (flagsAt d (f.data ++ f.trailer)) := by
  have hkind (src dst : UInt16) : udpDiscoveryKind src dst = none ↔
      src ∉ Transport.discoveryPorts ∧ dst ∉ Transport.discoveryPorts := by
    rw [← Option.not_isSome_iff_eq_none, udpDiscoveryKind_isSome_iff, not_or]
  unfold StartsHarmless HarmlessL4 headerLen flagsAt
  cases d.ports with
  | inl htcp =>
      simp only [htcp, udp_ne_tcp.symm, if_true, IsEmpty.forall_iff, and_true]
  | inr hudp =>
      simp only [hudp, udp_ne_tcp, hkind, if_false, forall_const, UInt8.zero_and, true_and]

private theorem startsHarmless_iff {d : Datagram} {f : Fragment} {env : XdpEnv}
    (hload : LoadsExactly env f.bytes) {srcPort dstPort : UInt16} {tcpFlags : UInt8}
    (hl4 : loadL4 env f.bytes d.l4.protocol f.frame.l4Offset = (srcPort, dstPort, tcpFlags)) :
    StartsHarmless d f ↔ HarmlessL4 d srcPort dstPort tcpFlags := by
  rw [loadL4_start d hload] at hl4
  rw [startsHarmless_iff_or]
  by_cases hshort : (f.data ++ f.trailer).length < headerLen d
  · rw [if_pos hshort, Prod.mk.injEq, Prod.mk.injEq] at hl4
    obtain ⟨rfl, rfl, rfl⟩ := hl4
    exact iff_of_true (Or.inl hshort) (harmlessL4_zero d)
  · rw [if_neg hshort, Prod.mk.injEq, Prod.mk.injEq] at hl4
    obtain ⟨rfl, rfl, rfl⟩ := hl4
    exact or_iff_right hshort

/-! ## What is done with it -/

private theorem updateFlow_flags (flows : FlowTable) (key : FlowKey) (pktLen : UInt64)
    {tcpFlags : UInt8} (now : UInt64) (h : tcpFlags &&& 0x17 = 0) :
    updateFlow flows key pktLen tcpFlags now = updateFlow flows key pktLen 0 now := by
  simp only [updateFlow, nextPacket, firstPacket, (accumulateFlags_eq_zero_iff _ tcpFlags).mpr h]

/-- In an empty table an update shows its key and the flags it counts. -/
private theorem updateFlow_empty_inj {key key' : FlowKey} {pktLen now : UInt64} {tcpFlags : UInt8}
    (h : updateFlow ∅ key pktLen tcpFlags now = updateFlow ∅ key' pktLen 0 now) :
    key = key' ∧ tcpFlags &&& 0x17 = 0 := by
  have hroom : (∅ : FlowTable).keys.card < flowsMaxEntries := by decide
  simp only [updateFlow, Finmap.lookup_empty, hroom, if_true] at h
  have hlookup := congrArg (Finmap.lookup key) h
  rw [HashMap.lookup_insert_eq, HashMap.lookup_insert_eq, if_pos rfl] at hlookup
  by_cases hkey : key = key'
  · rw [if_pos hkey, Option.some.injEq] at hlookup
    exact ⟨hkey, (accumulateFlags_eq_zero_iff _ _).mp hlookup⟩
  · rw [if_neg hkey, Finmap.lookup_empty] at hlookup
    exact absurd hlookup (Option.some_ne_none _)

private theorem notMisread_of_startsHarmless {d : Datagram} {f : Fragment}
    (hsrc : f.ip.srcIp = d.srcIp) (hdst : f.ip.dstIp = d.dstIp)
    (hproto : f.ip.protocol = d.l4.protocol) {env : XdpEnv} (hload : LoadsExactly env f.bytes)
    (h : StartsHarmless d f) (s : Kernel) : NotMisread d f env s := by
  obtain ⟨srcPort, dstPort, tcpFlags, hl4⟩ :
      ∃ srcPort dstPort tcpFlags, loadL4 env f.bytes f.ip.protocol f.frame.l4Offset =
        (srcPort, dstPort, tcpFlags) := ⟨_, _, _, rfl⟩
  obtain ⟨hown, hown', hflags, hkind⟩ := (startsHarmless_iff hload (hproto ▸ hl4)).mp h
  refine ⟨⟨srcPort, dstPort, hown, hown', ?_⟩, ?_⟩
  · rw [← hsrc, ← hdst, ← hproto, ← updateFlow_flags _ _ _ _ hflags]
    exact Ipv4Frame.tryLanscope_flows s hl4
  · have hnone : (if f.frame.ip.protocol = ipprotoUdp then udpDiscoveryKind srcPort dstPort
        else none) = none := by
      rw [ite_eq_right_iff]
      exact fun hudp => hkind (hproto.symm.trans hudp)
    have hevents := Ipv4Frame.tryLanscope_events s hl4
    rw [hnone] at hevents
    exact hevents

/-- A single run on an empty table, with room for an event, tells. -/
private theorem startsHarmless_of_notMisread {d : Datagram} {f : Fragment}
    (hproto : f.ip.protocol = d.l4.protocol) (hload : LoadsExactly readyKernel f.bytes)
    (h : NotMisread d f readyKernel Kernel.empty) : StartsHarmless d f := by
  obtain ⟨srcPort, dstPort, tcpFlags, hl4⟩ :
      ∃ srcPort dstPort tcpFlags, loadL4 readyKernel f.bytes f.ip.protocol f.frame.l4Offset =
        (srcPort, dstPort, tcpFlags) := ⟨_, _, _, rfl⟩
  obtain ⟨⟨src, dst, hown, hown', hflows⟩, hevents⟩ := h
  have hflows' := Ipv4Frame.tryLanscope_flows Kernel.empty hl4
  obtain ⟨hkey, hflags⟩ := updateFlow_empty_inj (hflows'.symm.trans hflows)
  simp only [FlowKey.mk.injEq] at hkey
  obtain ⟨_, _, rfl, rfl, _⟩ := hkey
  refine (startsHarmless_iff hload (hproto ▸ hl4)).mpr ⟨hown, hown', hflags, fun hudp => ?_⟩
  have hevents' := Ipv4Frame.tryLanscope_events Kernel.empty hl4
  rw [show f.frame.ip.protocol = ipprotoUdp from hproto.trans hudp, if_pos rfl] at hevents'
  cases hkind : udpDiscoveryKind srcPort dstPort with
  | none => rfl
  | some kind =>
      rw [hkind] at hevents'
      obtain ⟨ev, hev, _⟩ := emit_some readyKernel Payload.zero f.bytes kind f.srcMac f.ip.srcIp
        (some (f.frame.l4Offset + 8)) (announceNewHost readyKernel f.bytes f.srcMac Kernel.empty)
      have hgrown := (hevents.symm.trans hevents').trans hev
      simp at hgrown

theorem loadsExactly_readyKernel (ctx : List UInt8) : LoadsExactly readyKernel ctx :=
  fun _ _ => rfl

private theorem notMisread_iff {d : Datagram} (split : Fragmentation d) {f : Fragment}
    (hf : f ∈ split.fragments) :
    (∀ (env : XdpEnv) (s : Kernel), LoadsExactly env f.bytes → NotMisread d f env s) ↔
      StartsHarmless d f := by
  obtain ⟨hsrc, hdst, hproto, _⟩ := split.headers f hf
  constructor
  · intro h
    exact startsHarmless_of_notMisread hproto (loadsExactly_readyKernel _)
      (h readyKernel Kernel.empty (loadsExactly_readyKernel _))
  · intro h env s hload
    exact notMisread_of_startsHarmless hsrc hdst hproto hload h s

/-- No later fragment is taken for a packet of its own exactly when the data of each starts with
nothing that reads as a port, a flag or a discovery port of another. -/
theorem laterFragments_notMisread_iff (d : Datagram) (split : Fragmentation d) :
    (∀ f ∈ split.fragments, f.offset ≠ 0 →
      ∀ (env : XdpEnv) (s : Kernel), LoadsExactly env f.bytes → NotMisread d f env s) ↔
    ∀ f ∈ split.fragments, f.offset ≠ 0 → StartsHarmless d f :=
  forall₂_congr fun _ hf => imp_congr_right fun _ => notMisread_iff split hf

/-- A datagram between two high ports whose payload holds what reads as the ports of DHCP. -/
def smuggled : Datagram where
  srcIp := 0x0A000001
  dstIp := 0x0A000002
  l4 := .udp ⟨40000, 40001, 24, 0⟩
    (List.replicate 8 0 ++ [0, 68, 0, 67, 0, 0, 0, 0])
  ports := Or.inr rfl

def smuggledHeader (fragment totalLen : UInt16) : Ipv4Header :=
  { plainUdpHeader with
    totalLen := totalLen
    ident := 1
    fragment := fragment
    srcIp := 0x0A000001
    dstIp := 0x0A000002 }

def smuggledTail : Fragment where
  dstMac := MacAddr.ofBytes 0xb8 0x27 0xeb 0x01 0x02 0x03
  srcMac := MacAddr.ofBytes 0xb8 0x27 0xeb 0x04 0x05 0x06
  ip := smuggledHeader 2 28
  data := [0, 68, 0, 67, 0, 0, 0, 0]
  trailer := []

def smuggledSplit : Fragmentation smuggled where
  fragments := [
    { smuggledTail with
      ip := smuggledHeader 0x2000 36
      data := (UdpHeader.mk 40000 40001 24 0).bytes ++ List.replicate 8 0 },
    smuggledTail]
  headers := by decide
  consecutive := by
    refine ⟨rfl, by decide, rfl, by decide, trivial⟩
  data := rfl

/-- The tail of the datagram is counted as a DHCP packet and sent to userspace as one. -/
theorem laterFragment_misread : ¬ ∀ (d : Datagram) (split : Fragmentation d),
    ∀ f ∈ split.fragments, f.offset ≠ 0 →
      ∀ (env : XdpEnv) (s : Kernel), LoadsExactly env f.bytes → NotMisread d f env s := by
  intro h
  have htail : smuggledTail ∈ smuggledSplit.fragments := List.mem_cons_of_mem _ List.mem_cons_self
  have hharmless := (notMisread_iff smuggledSplit htail).mp
    (h smuggled smuggledSplit smuggledTail htail (by decide))
  exact absurd hharmless (by decide)

end Lanscope
