import Lanscope.Ebpf.Program

/-!
# Frames on the wire

Ethernet frames carrying IPv4, with any header options, and what the loads of the XDP program read
from them.
-/

namespace Lanscope

open Framework

/-- An IPv4 header. Its options fill whole words, so that its length is five to fifteen words. -/
structure Ipv4Header where
  tos : UInt8
  totalLen : UInt16
  ident : UInt16
  fragment : UInt16
  ttl : UInt8
  protocol : UInt8
  checksum : UInt16
  srcIp : Ipv4Be
  dstIp : Ipv4Be
  options : List UInt8
  options_words : options.length % 4 = 0
  options_short : options.length ≤ 40

namespace Ipv4Header

def ihl (h : Ipv4Header) : Nat := 5 + h.options.length / 4

theorem ihl_bounds (h : Ipv4Header) : 5 ≤ h.ihl ∧ h.ihl ≤ 15 := by
  have := h.options_short
  unfold ihl
  omega

theorem ihl_bytes (h : Ipv4Header) : h.ihl * 4 = 20 + h.options.length := by
  have := h.options_words
  unfold ihl
  omega

def bytes (h : Ipv4Header) : List UInt8 :=
  [UInt8.ofNat (0x40 + h.ihl), h.tos] ++ BigEndian.bytes16 h.totalLen ++
    BigEndian.bytes16 h.ident ++ BigEndian.bytes16 h.fragment ++ [h.ttl, h.protocol] ++
    BigEndian.bytes16 h.checksum ++ BigEndian.bytes32 h.srcIp ++ BigEndian.bytes32 h.dstIp ++
    h.options

end Ipv4Header

structure Ipv4Frame where
  dstMac : MacAddr
  srcMac : MacAddr
  ip : Ipv4Header
  l4 : List UInt8

namespace Ipv4Frame

def bytes (f : Ipv4Frame) : List UInt8 :=
  f.dstMac.toList ++ f.srcMac.toList ++ BigEndian.bytes16 ethPIp ++ f.ip.bytes ++ f.l4

def l4Offset (f : Ipv4Frame) : Nat := ethHdrLen + f.ip.ihl * 4

private theorem l4Offset_eq (f : Ipv4Frame) : f.l4Offset = 34 + f.ip.options.length := by
  have := f.ip.ihl_bytes
  unfold l4Offset ethHdrLen
  omega

/-- The bytes between the hardware addresses and the options. -/
private def fixedHeader (f : Ipv4Frame) : List UInt8 :=
  [0x08, 0x00, UInt8.ofNat (0x40 + f.ip.ihl), f.ip.tos,
    (f.ip.totalLen >>> 8).toUInt8, f.ip.totalLen.toUInt8,
    (f.ip.ident >>> 8).toUInt8, f.ip.ident.toUInt8,
    (f.ip.fragment >>> 8).toUInt8, f.ip.fragment.toUInt8, f.ip.ttl, f.ip.protocol,
    (f.ip.checksum >>> 8).toUInt8, f.ip.checksum.toUInt8,
    (f.ip.srcIp >>> 24).toUInt8, (f.ip.srcIp >>> 16).toUInt8, (f.ip.srcIp >>> 8).toUInt8,
    f.ip.srcIp.toUInt8, (f.ip.dstIp >>> 24).toUInt8, (f.ip.dstIp >>> 16).toUInt8,
    (f.ip.dstIp >>> 8).toUInt8, f.ip.dstIp.toUInt8]

private theorem bytes_eq (f : Ipv4Frame) : f.bytes =
    (f.dstMac.toList ++ f.srcMac.toList) ++ (f.fixedHeader ++ (f.ip.options ++ f.l4)) := by
  simp only [bytes, Ipv4Header.bytes, BigEndian.bytes16, BigEndian.bytes32, List.append_assoc]
  rfl

theorem length_bytes (f : Ipv4Frame) : f.bytes.length = f.l4Offset + f.l4.length := by
  rw [bytes_eq, l4Offset_eq]
  simp only [fixedHeader, List.length_append, List.length_cons, List.length_nil,
    Vector.length_toList]
  omega

theorem drop_l4Offset (f : Ipv4Frame) : f.bytes.drop f.l4Offset = f.l4 := by
  rw [bytes_eq, l4Offset_eq, ← List.append_assoc, ← List.append_assoc]
  apply List.drop_left'
  simp only [fixedHeader, List.length_append, List.length_cons, List.length_nil,
    Vector.length_toList]

end Ipv4Frame

theorem loadU8_eq (ctx : List UInt8) (off : Nat) : loadU8 ctx off = ctx[off]? := by
  unfold loadU8 ptrAt
  split_ifs with h
  · rw [List.getElem?_eq_none (by omega)]
    rfl
  · rw [List.getElem?_eq_getElem (by omega), Option.bind_some,
      List.drop_eq_getElem_cons (by omega), List.take_succ_cons, List.head?_cons]

private theorem lowNibble {n : Nat} (hlo : 5 ≤ n) (hhi : n ≤ 15) :
    (UInt8.ofNat (0x40 + n) &&& 0x0f).toNat = n := by
  interval_cases n <;> rfl

namespace Ipv4Frame

theorem loadMac_bytes (f : Ipv4Frame) : loadMac f.bytes 6 = some f.srcMac := by
  have hlen : ¬ 6 + 6 > f.bytes.length := by
    rw [length_bytes, l4Offset_eq]
    omega
  have hread : (f.bytes.drop 6).take 6 = f.srcMac.toList := by
    rw [bytes_eq, List.append_assoc, List.drop_left' (by simp), List.take_left' (by simp)]
  obtain ⟨a, b, c, d, e, g, hmac⟩ := f.srcMac.exists_ofBytes
  unfold loadMac ptrAt
  rw [if_neg hlen, hread, hmac]
  rfl

private theorem loadU8_bytes (f : Ipv4Frame) {i : Nat} (h : i < 22) :
    loadU8 f.bytes (12 + i) = f.fixedHeader[i]? := by
  rw [loadU8_eq, bytes_eq, List.getElem?_append_right (by simp),
    List.getElem?_append_left (by simpa [fixedHeader] using h)]
  simp

private theorem loadU16Be_bytes (f : Ipv4Frame) {i : Nat} (h : i + 1 < 22) :
    loadU16Be f.bytes (12 + i) = do
      return BigEndian.word16 (← f.fixedHeader[i]?) (← f.fixedHeader[i + 1]?) := by
  rw [loadU16Be, f.loadU8_bytes (by omega), Nat.add_assoc, f.loadU8_bytes h]

private theorem loadU32Be_bytes (f : Ipv4Frame) {i : Nat} (h : i + 3 < 22) :
    loadU32Be f.bytes (12 + i) = do
      return BigEndian.word32 (← f.fixedHeader[i]?) (← f.fixedHeader[i + 1]?)
        (← f.fixedHeader[i + 2]?) (← f.fixedHeader[i + 3]?) := by
  simp only [loadU32Be, Nat.add_assoc]
  rw [f.loadU8_bytes (by omega), f.loadU8_bytes (by omega), f.loadU8_bytes (by omega),
    f.loadU8_bytes h]

theorem loadEthertype_bytes (f : Ipv4Frame) : loadU16Be f.bytes 12 = some ethPIp :=
  f.loadU16Be_bytes (i := 0) (by omega)

/-- The program reads back the header fields, whatever the options. -/
theorem loadIpv4_bytes (f : Ipv4Frame) : loadIpv4 f.bytes =
    some ⟨f.ip.ihl * 4, f.ip.totalLen.toUInt64, f.ip.protocol, f.ip.srcIp, f.ip.dstIp⟩ := by
  obtain ⟨hlo, hhi⟩ := f.ip.ihl_bounds
  have hlow := lowNibble hlo hhi
  have hihl : ¬ f.ip.ihl * 4 < 20 := by omega
  have hver : loadU8 f.bytes ethHdrLen = some (UInt8.ofNat (0x40 + f.ip.ihl)) :=
    f.loadU8_bytes (i := 2) (by omega)
  have htotal : loadU16Be f.bytes (ethHdrLen + 2) = some f.ip.totalLen :=
    (f.loadU16Be_bytes (i := 4) (by omega)).trans
      (congrArg some (BigEndian.word16_bytes f.ip.totalLen))
  have hproto : loadU8 f.bytes (ethHdrLen + 9) = some f.ip.protocol :=
    f.loadU8_bytes (i := 11) (by omega)
  have hsrc : loadU32Be f.bytes (ethHdrLen + 12) = some f.ip.srcIp :=
    (f.loadU32Be_bytes (i := 14) (by omega)).trans
      (congrArg some (BigEndian.word32_bytes f.ip.srcIp))
  have hdst : loadU32Be f.bytes (ethHdrLen + 16) = some f.ip.dstIp :=
    (f.loadU32Be_bytes (i := 18) (by omega)).trans
      (congrArg some (BigEndian.word32_bytes f.ip.dstIp))
  simp only [loadIpv4, hver, htotal, hproto, hsrc, hdst, Option.bind_eq_bind,
    Option.bind_some, hihl, if_false, Option.pure_def, hlow]

theorem tryLanscope_bytes (env : XdpEnv) (f : Ipv4Frame) (s : Kernel) :
    tryLanscope env f.bytes s =
      handleIpv4 env f.bytes f.srcMac (announceNewHost env f.bytes f.srcMac s) := by
  simp only [tryLanscope, f.loadMac_bytes, f.loadEthertype_bytes,
    show ethPIp ≠ ethPArp by decide, if_false, if_true]

section Effects

variable {env : XdpEnv} {f : Ipv4Frame} {srcPort dstPort : UInt16} {tcpFlags : UInt8}

/-- One flow update, under the ports and flags that were loaded. -/
theorem tryLanscope_flows (s : Kernel)
    (hl4 : loadL4 env f.bytes f.ip.protocol f.l4Offset = (srcPort, dstPort, tcpFlags)) :
    (tryLanscope env f.bytes s).1.flows =
      updateFlow s.flows ⟨f.ip.srcIp, f.ip.dstIp, srcPort, dstPort, f.ip.protocol⟩
        f.ip.totalLen.toUInt64 tcpFlags env.ktime := by
  simp only [tryLanscope_bytes, handleIpv4, f.loadIpv4_bytes]
  rw [show ethHdrLen + f.ip.ihl * 4 = f.l4Offset from rfl, hl4]
  dsimp only
  split_ifs
  · split <;> simp
  · simp

/-- Only a UDP packet on a discovery port adds to the announcement. -/
theorem tryLanscope_events (s : Kernel)
    (hl4 : loadL4 env f.bytes f.ip.protocol f.l4Offset = (srcPort, dstPort, tcpFlags)) :
    (tryLanscope env f.bytes s).1.events =
      match if f.ip.protocol = ipprotoUdp then udpDiscoveryKind srcPort dstPort else none with
      | some kind => (emit env env.discoverySlot f.bytes kind f.srcMac f.ip.srcIp
          (some (f.l4Offset + 8)) (announceNewHost env f.bytes f.srcMac s)).events
      | none => (announceNewHost env f.bytes f.srcMac s).events := by
  simp only [tryLanscope_bytes, handleIpv4, f.loadIpv4_bytes]
  rw [show ethHdrLen + f.ip.ihl * 4 = f.l4Offset from rfl, hl4]
  dsimp only
  split_ifs
  · cases udpDiscoveryKind srcPort dstPort <;> rfl
  · rfl

end Effects

end Ipv4Frame

end Lanscope
