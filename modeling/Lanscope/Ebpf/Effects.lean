import Lanscope.Ebpf.Announce

/-!
# Effects of a frame

Whatever a frame holds, the program makes at most one flow update, which does not depend on the
maps, and only ever adds records to the ring buffer.
-/

namespace Lanscope

open Framework

/-- The flow update that a frame calls for: key, length and TCP flags. -/
def frameUpdate (env : XdpEnv) (ctx : List UInt8) : Option (FlowKey × UInt64 × UInt8) := do
  let _ ← loadMac ctx 6
  let ethertype ← loadU16Be ctx 12
  if ethertype = ethPIp then
    let ip ← loadIpv4 ctx
    let (srcPort, dstPort, tcpFlags) := loadL4 env ctx ip.proto (ethHdrLen + ip.ihl)
    return (⟨ip.srcIp, ip.dstIp, srcPort, dstPort, ip.proto⟩, ip.totalLen, tcpFlags)
  else none

private theorem flows_handleIpv4 (env : XdpEnv) (ctx : List UInt8) (mac : MacAddr) (s : Kernel) :
    (handleIpv4 env ctx mac s).1.flows = (loadIpv4 ctx).elim s.flows fun ip =>
      let l4 := loadL4 env ctx ip.proto (ethHdrLen + ip.ihl)
      updateFlow s.flows ⟨ip.srcIp, ip.dstIp, l4.1, l4.2.1, ip.proto⟩ ip.totalLen l4.2.2
        env.ktime := by
  unfold handleIpv4
  cases loadIpv4 ctx with
  | none => rfl
  | some ip =>
      simp only [Option.elim_some]
      congr 1
      split_ifs
      · split
        · rw [emit_flows]
        · rfl
      · rfl

theorem flows_tryLanscope (env : XdpEnv) (ctx : List UInt8) (s : Kernel) :
    (tryLanscope env ctx s).1.flows = (frameUpdate env ctx).elim s.flows fun update =>
      updateFlow s.flows update.1 update.2.1 update.2.2 env.ktime := by
  unfold tryLanscope frameUpdate
  cases loadMac ctx 6 with
  | none => rfl
  | some mac =>
      cases loadU16Be ctx 12 with
      | none => rfl
      | some ethertype =>
          have hann := announceNewHost_flows env ctx mac s
          simp only [Option.bind_eq_bind, Option.bind_some]
          by_cases harp : ethertype = ethPArp
          · subst ethertype
            simp only [if_true, emit_flows, hann]
            rfl
          · by_cases hip : ethertype = ethPIp
            · simp only [if_neg harp, if_pos hip, flows_handleIpv4, hann]
              cases loadIpv4 ctx <;> rfl
            · simp only [if_neg harp, if_neg hip, hann, Option.elim_none]

private theorem events_announceNewHost (env : XdpEnv) (ctx : List UInt8) (mac : MacAddr)
    (s : Kernel) : s.events <+: (announceNewHost env ctx mac s).events := by
  unfold announceNewHost
  dsimp only
  split_ifs
  · exact List.prefix_refl _
  · exact emit_events_grow env env.announceSlot ctx .newHost mac 0 none
      { s with seen := s.seen.insert mac 1 }
  · exact emit_events_grow _ _ _ _ _ _ _ _

private theorem events_handleIpv4 (env : XdpEnv) (ctx : List UInt8) (mac : MacAddr) (s : Kernel) :
    s.events <+: (handleIpv4 env ctx mac s).1.events := by
  unfold handleIpv4
  split
  · exact List.prefix_refl _
  · dsimp only
    split_ifs
    · split
      · exact emit_events_grow _ _ _ _ _ _ _ _
      · exact List.prefix_refl _
    · exact List.prefix_refl _

theorem events_tryLanscope (env : XdpEnv) (ctx : List UInt8) (s : Kernel) :
    s.events <+: (tryLanscope env ctx s).1.events := by
  unfold tryLanscope
  split
  · next mac ethertype _ _ =>
    refine (events_announceNewHost env ctx mac s).trans ?_
    dsimp only
    split_ifs
    · exact emit_events_grow _ _ _ _ _ _ _ _
    · exact events_handleIpv4 _ _ _ _
    · exact List.prefix_refl _
  · exact List.prefix_refl _

theorem events_kernelStep {s t : Kernel} {step : KernelStep} (h : kernelStep s step = some t) :
    s.events <+: t.events := by
  cases step with
  | frame ctx env =>
      obtain rfl := Option.some.inj h
      exact events_tryLanscope env ctx s
  | evict macs =>
      obtain rfl := Option.some.inj h
      exact List.prefix_refl _

end Lanscope
