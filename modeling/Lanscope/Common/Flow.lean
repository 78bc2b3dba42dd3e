import Lanscope.Common.Event

/-!
# Flows

A flow is a unidirectional 5-tuple with the counters the kernel accumulates for it. Counters are
machine words and wrap, since the kernel program is built without overflow checks.
-/

namespace Lanscope

structure FlowKey where
  srcIp : Ipv4Be
  dstIp : Ipv4Be
  srcPort : UInt16
  dstPort : UInt16
  protocol : UInt8
  deriving DecidableEq

structure FlowStats where
  packets : UInt64 := 0
  bytes : UInt64 := 0
  /-- Kernel monotonic nanoseconds of the first and last packet. -/
  firstSeenNs : UInt64 := 0
  lastSeenNs : UInt64 := 0
  syn : UInt32 := 0
  fin : UInt32 := 0
  rst : UInt32 := 0
  ack : UInt32 := 0
  minLen : UInt16 := 0
  maxLen : UInt16 := 0
  deriving DecidableEq

end Lanscope
