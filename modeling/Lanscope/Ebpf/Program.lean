import Lanscope.Common.Flow
import Lanscope.Framework.BigEndian
import Lanscope.Framework.HashMap

/-!
# The XDP data path

One frame at a time: announce hosts not seen before, count the packet into its flow, and copy
discovery frames into the ring buffer. Every load is checked against the end of the packet. What
the kernel decides (the clock, whether a ring-buffer slot is free, whether a helper call succeeds)
comes in through `XdpEnv`.
-/

namespace Lanscope

open Framework

def flowsMaxEntries : Nat := 10240

def ethHdrLen : Nat := 14
def ethPIp : UInt16 := 0x0800
def ethPArp : UInt16 := 0x0806
def ipprotoTcp : UInt8 := 6
def ipprotoUdp : UInt8 := 17

def copyLen : Nat := 256

abbrev FlowTable := HashMap FlowKey FlowStats

/-- The maps of the program. `events` lists every record submitted to the ring buffer so far. -/
structure Kernel where
  flows : FlowTable
  seen : HashMap MacAddr UInt8
  events : List Event

def Kernel.empty : Kernel := ⟨∅, ∅, []⟩

/-- The kernel's answers while one frame is processed. A free ring-buffer slot still holds stale
bytes where the payload goes. -/
structure XdpEnv where
  ktime : UInt64
  /-- `bpf_xdp_load_bytes(ctx, off, buf, len)` -/
  loadBytes : List UInt8 → Nat → Nat → Option (List UInt8)
  /-- Whether `SEEN` accepts a new key. -/
  seenInsert : Bool
  announceSlot : Option Payload
  discoverySlot : Option Payload

/-- A typed pointer into the packet, refused when it would pass the packet's end. -/
def ptrAt (ctx : List UInt8) (offset size : Nat) : Option (List UInt8) :=
  if offset + size > ctx.length then none else some ((ctx.drop offset).take size)

def loadU8 (ctx : List UInt8) (off : Nat) : Option UInt8 :=
  (ptrAt ctx off 1).bind List.head?

def loadU16Be (ctx : List UInt8) (off : Nat) : Option UInt16 := do
  let hi ← loadU8 ctx off
  let lo ← loadU8 ctx (off + 1)
  return BigEndian.word16 hi lo

def loadU32Be (ctx : List UInt8) (off : Nat) : Option UInt32 := do
  let a ← loadU8 ctx off
  let b ← loadU8 ctx (off + 1)
  let c ← loadU8 ctx (off + 2)
  let d ← loadU8 ctx (off + 3)
  return BigEndian.word32 a b c d

def loadMac (ctx : List UInt8) (off : Nat) : Option MacAddr :=
  match ptrAt ctx off 6 with
  | some [a, b, c, d, e, f] => some (MacAddr.ofBytes a b c d e f)
  | _ => none

/-- Fill a reserved slot and submit it. Nothing happens when the reservation fails. The payload is
what one helper call copies; a failed call leaves the event without payload. -/
def emit (env : XdpEnv) (slot : Option Payload) (ctx : List UInt8) (kind : EventKind)
    (mac : MacAddr) (srcIp : Ipv4Be) (payloadOff : Option Nat) (s : Kernel) : Kernel :=
  match slot with
  | none => s
  | some stale =>
    let copied : Option (Nat × List UInt8) := do
      let off ← payloadOff
      if ctx.length > off then
        let avail := ctx.length - off
        let toCopy := if avail > copyLen then copyLen else avail
        let bytes ← env.loadBytes ctx off toCopy
        return (toCopy, bytes)
      else none
    let ev : Event :=
      match copied with
      | none => ⟨kind.toU8, 0, srcIp, mac, stale⟩
      | some (n, bytes) => ⟨kind.toU8, UInt16.ofNat n, srcIp, mac, stale.overwrite bytes⟩
    { s with events := s.events ++ [ev] }

def announceNewHost (env : XdpEnv) (ctx : List UInt8) (mac : MacAddr) (s : Kernel) : Kernel :=
  if mac ∈ s.seen then s
  else
    let marked := if env.seenInsert then { s with seen := s.seen.insert mac 1 } else s
    emit env env.announceSlot ctx .newHost mac 0 none marked

def udpDiscoveryKind (src dst : UInt16) : Option EventKind :=
  let p (port : UInt16) : Bool := src = port || dst = port
  if p 67 || p 68 then some .dhcp
  else if p 5353 then some .mdns
  else if p 1900 then some .ssdp
  else none

def accumulateFlags (stats : FlowStats) (tcpFlags : UInt8) : FlowStats :=
  let stats := if tcpFlags &&& 0x02 ≠ 0 then { stats with syn := stats.syn + 1 } else stats
  let stats := if tcpFlags &&& 0x01 ≠ 0 then { stats with fin := stats.fin + 1 } else stats
  let stats := if tcpFlags &&& 0x04 ≠ 0 then { stats with rst := stats.rst + 1 } else stats
  if tcpFlags &&& 0x10 ≠ 0 then { stats with ack := stats.ack + 1 } else stats

def firstPacket (pktLen : UInt64) (len16 : UInt16) (tcpFlags : UInt8) (now : UInt64) : FlowStats :=
  accumulateFlags
    { packets := 1, bytes := pktLen, firstSeenNs := now, lastSeenNs := now,
      minLen := len16, maxLen := len16 } tcpFlags

def nextPacket (stats : FlowStats) (pktLen : UInt64) (len16 : UInt16) (tcpFlags : UInt8)
    (now : UInt64) : FlowStats :=
  accumulateFlags
    { stats with
      packets := stats.packets + 1
      bytes := stats.bytes + pktLen
      lastSeenNs := now
      minLen := if len16 < stats.minLen then len16 else stats.minLen
      maxLen := if len16 > stats.maxLen then len16 else stats.maxLen } tcpFlags

/-- Accumulate counters for one packet. A full table refuses new flows. -/
def updateFlow (flows : FlowTable) (key : FlowKey) (pktLen : UInt64) (tcpFlags : UInt8)
    (now : UInt64) : FlowTable :=
  let len16 := if pktLen > 65535 then 65535 else pktLen.toUInt16
  match flows.lookup key with
  | some stats => flows.insert key (nextPacket stats pktLen len16 tcpFlags now)
  | none =>
    if flows.keys.card < flowsMaxEntries then
      flows.insert key (firstPacket pktLen len16 tcpFlags now)
    else flows

/-- The fields `handle_ipv4` loads from the IP header, all of them before any effect. -/
structure Ipv4Fields where
  ihl : Nat
  totalLen : UInt64
  proto : UInt8
  srcIp : Ipv4Be
  dstIp : Ipv4Be

def loadIpv4 (ctx : List UInt8) : Option Ipv4Fields := do
  let verIhl ← loadU8 ctx ethHdrLen
  let ihl := (verIhl &&& 0x0f).toNat * 4
  if ihl < 20 then none
  else
    let totalLen ← loadU16Be ctx (ethHdrLen + 2)
    let proto ← loadU8 ctx (ethHdrLen + 9)
    let srcIp ← loadU32Be ctx (ethHdrLen + 12)
    let dstIp ← loadU32Be ctx (ethHdrLen + 16)
    return ⟨ihl, totalLen.toUInt64, proto, srcIp, dstIp⟩

/-- The 16-bit big-endian field at an offset of a zero-initialised header buffer. -/
def hdrU16 (hdr : List UInt8) (off : Nat) : UInt16 :=
  BigEndian.word16 (hdr.getD off 0) (hdr.getD (off + 1) 0)

/-- Source port, destination port and TCP flags, zero where the L4 header cannot be loaded. -/
def loadL4 (env : XdpEnv) (ctx : List UInt8) (proto : UInt8) (l4 : Nat) :
    UInt16 × UInt16 × UInt8 :=
  if proto = ipprotoTcp then
    match env.loadBytes ctx l4 16 with
    | some hdr => (hdrU16 hdr 0, hdrU16 hdr 2, hdr.getD 13 0)
    | none => (0, 0, 0)
  else if proto = ipprotoUdp then
    match env.loadBytes ctx l4 8 with
    | some hdr => (hdrU16 hdr 0, hdrU16 hdr 2, 0)
    | none => (0, 0, 0)
  else (0, 0, 0)

def handleIpv4 (env : XdpEnv) (ctx : List UInt8) (srcMac : MacAddr) (s : Kernel) :
    Kernel × Option Unit :=
  match loadIpv4 ctx with
  | none => (s, none)
  | some ip =>
    let l4 := ethHdrLen + ip.ihl
    let (srcPort, dstPort, tcpFlags) := loadL4 env ctx ip.proto l4
    let s :=
      if ip.proto = ipprotoUdp then
        match udpDiscoveryKind srcPort dstPort with
        -- skip the 8-byte UDP header
        | some kind => emit env env.discoverySlot ctx kind srcMac ip.srcIp (some (l4 + 8)) s
        | none => s
      else s
    let key : FlowKey := ⟨ip.srcIp, ip.dstIp, srcPort, dstPort, ip.proto⟩
    ({ s with flows := updateFlow s.flows key ip.totalLen tcpFlags env.ktime }, some ())

/-- Process one frame. `none` is the internal error, which keeps the effects made before it. -/
def tryLanscope (env : XdpEnv) (ctx : List UInt8) (s : Kernel) : Kernel × Option Unit :=
  match loadMac ctx 6, loadU16Be ctx 12 with
  | some srcMac, some ethertype =>
    let s := announceNewHost env ctx srcMac s
    if ethertype = ethPArp then
      (emit env env.discoverySlot ctx .arp srcMac 0 none s, some ())
    else if ethertype = ethPIp then handleIpv4 env ctx srcMac s
    else (s, some ())
  | _, _ => (s, none)

inductive XdpAction
  | pass
  deriving DecidableEq

/-- The entry point: an internal error never affects forwarding. -/
def lanscope (env : XdpEnv) (ctx : List UInt8) (s : Kernel) : Kernel × XdpAction :=
  ((tryLanscope env ctx s).1, .pass)

/-! ## What the helpers leave alone -/

@[simp] theorem emit_seen (env : XdpEnv) (slot : Option Payload) (ctx : List UInt8)
    (kind : EventKind) (mac : MacAddr) (srcIp : Ipv4Be) (off : Option Nat) (s : Kernel) :
    (emit env slot ctx kind mac srcIp off s).seen = s.seen := by
  cases slot <;> rfl

@[simp] theorem emit_flows (env : XdpEnv) (slot : Option Payload) (ctx : List UInt8)
    (kind : EventKind) (mac : MacAddr) (srcIp : Ipv4Be) (off : Option Nat) (s : Kernel) :
    (emit env slot ctx kind mac srcIp off s).flows = s.flows := by
  cases slot <;> rfl

@[simp] theorem announceNewHost_flows (env : XdpEnv) (ctx : List UInt8) (mac : MacAddr)
    (s : Kernel) : (announceNewHost env ctx mac s).flows = s.flows := by
  unfold announceNewHost
  dsimp only
  split_ifs
  · rfl
  · rw [emit_flows]
  · rw [emit_flows]

theorem emit_some (env : XdpEnv) (stale : Payload) (ctx : List UInt8) (kind : EventKind)
    (mac : MacAddr) (srcIp : Ipv4Be) (off : Option Nat) (s : Kernel) :
    ∃ ev : Event, (emit env (some stale) ctx kind mac srcIp off s).events = s.events ++ [ev] ∧
      ev.kind = kind.toU8 ∧ ev.srcMac = mac ∧ ev.srcIp = srcIp := by
  simp only [emit]
  split <;> exact ⟨_, rfl, rfl, rfl, rfl⟩

theorem emit_events_grow (env : XdpEnv) (slot : Option Payload) (ctx : List UInt8)
    (kind : EventKind) (mac : MacAddr) (srcIp : Ipv4Be) (off : Option Nat) (s : Kernel) :
    s.events <+: (emit env slot ctx kind mac srcIp off s).events := by
  cases slot with
  | none => exact List.prefix_refl _
  | some stale =>
      obtain ⟨ev, hev, _⟩ := emit_some env stale ctx kind mac srcIp off s
      rw [hev]
      exact List.prefix_append _ _

theorem handleIpv4_seen (env : XdpEnv) (ctx : List UInt8) (mac : MacAddr) (s : Kernel) :
    (handleIpv4 env ctx mac s).1.seen = s.seen := by
  unfold handleIpv4
  split
  · rfl
  · dsimp only
    split_ifs
    · split <;> simp
    · rfl

end Lanscope
