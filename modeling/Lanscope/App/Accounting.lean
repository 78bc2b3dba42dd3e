import Lanscope.App.Traffic
import Lanscope.App.Transit
import Lanscope.Capture.Ledger

/-!
# Where the traffic goes

A ledger of the whole pipeline. Each packet that a frame counts ends up with a device, or it is
still on its way, or one of the known losses took it: the race with a removal, a full table, a
counter that wraps or saturates, or a source address that no device lists.
-/

namespace Lanscope

open Framework

def Counter.amount : Counter → FlowStats → UInt64
  | .packets => FlowStats.packets
  | .bytes => FlowStats.bytes

def Counter.ofDevice : Counter → Device → Nat
  | .packets, d => d.packets.toNat
  | .bytes, d => d.bytes.toNat

section Ledger

variable (c : Counter)

/-- A counter over all devices. -/
def devicesHold (agent : Agent) : Nat := agent.registry.devices.total fun _ d => c.ofDevice d

def brought (arrival : Arrival) : Nat :=
  (arrival.event.snapshot.map (snapshotSum c fun _ => True)).getD 0

/-- What an event brings of flows whose source no device lists. -/
def stray (agent : Agent) (arrival : Arrival) : Nat :=
  (arrival.event.snapshot.map (snapshotSum c fun key =>
    ∀ d ∈ agent.registry.devices.values arrival.order, fmtIpv4 key.srcIp ∉ d.ips)).getD 0

/-- What the flows of an event bring to devices whose counters are at their end. -/
def clipped (agent : Agent) (arrival : Arrival) : Nat :=
  (arrival.event.snapshot.map fun flows => agent.registry.devices.total fun mac d =>
    c.ofDevice d + snapshotSum c
      (fun key => DeviceRegistry.flowTarget arrival.order agent.registry key = some mac) flows -
      (2 ^ 64 - 1)).getD 0

/-! ## One event -/

private theorem of_eq_amount (stats : FlowStats) : c.of stats = (c.amount stats).toNat := by
  cases c <;> rfl

private theorem snapshotSum_creditedTo (order : List MacAddr) (registry : DeviceRegistry)
    (flows : Snapshot) (mac : MacAddr) :
    snapshotSum c (fun key => DeviceRegistry.flowTarget order registry key = some mac) flows =
      sumOf c.amount (creditedTo order registry flows mac) := by
  cases c <;> rfl

private theorem snapshotSum_split (P : FlowKey → Prop) [DecidablePred P] (flows : Snapshot) :
    snapshotSum c P flows + snapshotSum c (fun key => ¬ P key) flows =
      snapshotSum c (fun _ => True) flows := by
  induction flows with
  | nil => rfl
  | cons f flows ih =>
      by_cases h : P f.1 <;> simp [snapshotSum, h] at ih ⊢ <;> omega

private theorem devicesHold_handleObservation (now : Int) (agent : Agent) (obs : Observation) :
    devicesHold c (handleObservation now agent obs).1 = devicesHold c agent := by
  by_cases hzero : obs.mac = zeroMac
  · rw [handleObservation_zero now agent obs hzero]
  · have hinsert : (handleObservation now agent obs).1.registry.devices =
        agent.registry.devices.insert obs.mac (observed agent.registry obs now) := by
      apply Finmap.ext_lookup
      intro mac
      rw [HashMap.lookup_insert_eq]
      exact get_handleObservation now agent obs hzero mac
    have htotal := HashMap.total_insert (fun _ d => c.ofDevice d) agent.registry.devices obs.mac
      (observed agent.registry obs now)
    -- an observation leaves the counters alone, and a new record starts at zero
    have hsame : c.ofDevice (observed agent.registry obs now) =
        (agent.registry.devices.lookup obs.mac).elim 0 fun d => c.ofDevice d := by
      simp only [observed, retype, foldObservation_eq, DeviceRegistry.get]
      cases agent.registry.devices.lookup obs.mac <;> cases c <;> rfl
    rw [devicesHold, hinsert, devicesHold]
    omega

private theorem ofDevice_creditTotal (d : Device) (flows : Snapshot) (now : Int) :
    c.ofDevice (creditTotal d flows now) =
      min (c.ofDevice d + sumOf c.amount flows) (2 ^ 64 - 1) := by
  cases c <;> exact toNat_saturated _

/-- What devices are credited with, less what their counters cannot take. -/
private theorem devicesHold_applyFlows {agent : Agent} {order : List MacAddr}
    (horder : agent.registry.devices.IterOrder order) (flows : Snapshot) (now : Int) :
    (applyFlows order agent.registry flows now).devices.total (fun _ d => c.ofDevice d) +
        clipped c agent ⟨.flows flows, now, order⟩ =
      devicesHold c agent + sumOf c.amount (knownFlows order agent.registry flows) := by
  have hcredits : agent.registry.devices.total (fun mac _ =>
      sumOf c.amount (creditedTo order agent.registry flows mac)) =
        sumOf c.amount (knownFlows order agent.registry flows) := by
    rw [HashMap.total_eq_sum _ horder, ← sum_creditedTo horder]
    apply congrArg List.sum
    apply List.map_congr_left
    intro mac hmac
    obtain ⟨d, hd⟩ := Finmap.mem_iff.mp ((horder.mem_iff mac).mp hmac)
    rw [hd, Option.elim_some]
  rw [HashMap.total_map (get_applyFlows order agent.registry flows now), ← hcredits, devicesHold,
    ← HashMap.total_add]
  simp only [clipped, CaptureEvent.snapshot, Option.map_some, Option.getD_some]
  rw [← HashMap.total_add]
  apply HashMap.total_congr
  intro mac d _
  rw [ofDevice_creditTotal, snapshotSum_creditedTo]
  omega

/-- What the flows of a snapshot hold is of sources that some device lists, or stray. -/
private theorem sumOf_knownFlows (agent : Agent) (order : List MacAddr) (flows : Snapshot)
    (now : Int) :
    sumOf c.amount (knownFlows order agent.registry flows) +
        stray c agent ⟨.flows flows, now, order⟩ =
      brought c ⟨.flows flows, now, order⟩ := by
  have hknown : sumOf c.amount (knownFlows order agent.registry flows) = snapshotSum c (fun key =>
      ¬ ∀ d ∈ agent.registry.devices.values order, fmtIpv4 key.srcIp ∉ d.ips) flows := by
    have hamount : c.of = fun stats => (c.amount stats).toNat := funext (of_eq_amount c)
    simp only [sumOf, knownFlows, snapshotSum, hamount]
    congr 2
    apply List.filter_congr
    intro f _
    rw [Bool.eq_iff_iff, List.any_eq_true]
    simp
  rw [hknown, Nat.add_comm]
  exact snapshotSum_split c
    (fun key => ∀ d ∈ agent.registry.devices.values order, fmtIpv4 key.srcIp ∉ d.ips) flows

private theorem devicesHold_step (agent : Agent) (arrival : Arrival) (later : Agent)
    (h : agentStep agent arrival = some later) :
    devicesHold c later + (stray c agent arrival + clipped c agent arrival) =
      devicesHold c agent + brought c arrival := by
  obtain ⟨ev, now, order⟩ := arrival
  obtain ⟨horder, hlater⟩ := Option.ite_none_right_eq_some.mp h
  obtain rfl := Option.some.inj hlater
  cases ev with
  | discovery e =>
      have hfold := foldEmit_invariant (f := handleObservation now) (l := decodeEvent e)
        (I := fun a : Agent => devicesHold c a = devicesHold c agent) (P := fun _ => True)
        (fun a obs _ ha =>
          ⟨(devicesHold_handleObservation c now a obs).trans ha, fun _ _ => trivial⟩) rfl
      exact congrArg (· + 0) hfold.1
  | flows flows =>
      obtain ⟨hagent, _⟩ := handleEvent_flows now order agent flows
      have hiter : agent.registry.devices.IterOrder order := horder
      have hdevices := devicesHold_applyFlows c hiter flows now
      have hknown := sumOf_knownFlows c agent order flows now
      dsimp only
      rw [hagent, devicesHold]
      dsimp only
      omega

/-- Nothing is clipped while the devices and the event together stay below the largest count. -/
private theorem clipped_eq_zero (agent : Agent) (arrival : Arrival)
    (hbound : devicesHold c agent + brought c arrival < 2 ^ 64) : clipped c agent arrival = 0 := by
  obtain ⟨ev, now, order⟩ := arrival
  cases ev with
  | discovery e => rfl
  | flows flows =>
      apply HashMap.total_eq_zero
      intro mac d hd
      have hdevice : c.ofDevice d ≤ devicesHold c agent :=
        HashMap.le_total (fun _ d => c.ofDevice d) hd
      have hflows : snapshotSum c (fun key =>
          DeviceRegistry.flowTarget order agent.registry key = some mac) flows ≤
            brought c ⟨.flows flows, now, order⟩ := by
        have hsplit := snapshotSum_split c
          (fun key => DeviceRegistry.flowTarget order agent.registry key = some mac) flows
        simp only [brought, CaptureEvent.snapshot, Option.map_some, Option.getD_some]
        omega
      dsimp only
      omega

/-- Over any history of events, what the devices gained, what was stray and what was clipped add up
to what the events brought. -/
theorem devicesHold_exec {history : List Arrival} {agent later : Agent}
    (hrun : exec agentStep agent history = some later) :
    devicesHold c later + runSum agentStep (stray c) agent history +
        runSum agentStep (clipped c) agent history =
      devicesHold c agent + (history.map (brought c)).sum ∧
    (devicesHold c agent + (history.map (brought c)).sum < 2 ^ 64 →
      runSum agentStep (clipped c) agent history = 0) := by
  have hledger := exec_ledger (devicesHold_step c) hrun
  have hbrought := runSum_of_labels (brought c) hrun
  rw [hbrought, runSum_add] at hledger
  refine ⟨by omega, fun hbound => ?_⟩
  refine exec_lossless (fun agent arrival later h => ?_)
    (fun agent arrival later _ => clipped_eq_zero c agent arrival) hrun (by rwa [hbrought])
  have hone := devicesHold_step c agent arrival later h
  omega

/-! ## Whole runs -/

/-- What the snapshots among some events hold. -/
def carried (events : List CaptureEvent) : Nat :=
  ((events.filterMap CaptureEvent.snapshot).map (snapshotSum c fun _ => True)).sum

/-- What a frame adds to its flow. -/
def counted : PipelineStep → Nat
  | .kernel (.frame ctx env) => (frameUpdate env ctx).elim 0 fun update => c.gain update.2.1
  | _ => 0

private theorem sum_brought (history : List Arrival) :
    (history.map (brought c)).sum = carried c (history.map Arrival.event) := by
  induction history with
  | nil => rfl
  | cons arrival history ih =>
      rw [List.map_cons, List.sum_cons, ih, brought, List.map_cons, carried, carried,
        List.filterMap_cons]
      cases arrival.event <;> simp

private theorem carried_append (evs evs' : List CaptureEvent) :
    carried c (evs ++ evs') = carried c evs + carried c evs' := by
  simp [carried]

private theorem sum_gained (steps : List PipelineStep) :
    ((steps.flatMap drainSteps).map (gained c fun _ => True)).sum =
      (steps.map (counted c)).sum := by
  induction steps with
  | nil => rfl
  | cons step steps ih =>
      have hone : ((drainSteps step).map (gained c fun _ => True)).sum = counted c step := by
        cases step with
        | kernel step =>
            cases step with
            | frame ctx env =>
                rw [drainSteps, counted]
                cases frameUpdate env ctx <;> simp [gained]
            | evict macs => rfl
        | _ => rfl
      rw [List.flatMap_cons, List.map_append, List.sum_append, ih, hone, List.map_cons,
        List.sum_cons]

/-- The whole pipeline, from frames to devices. What the devices gained, the snapshots on their way,
the snapshot in progress and the rest of the table hold, and the four losses add up to what the
frames counted, and two of these losses need more than 64 bits of traffic. -/
theorem traffic_accounted (serde : Serde) (agent : Agent) (store : SqliteStore)
    (steps : List PipelineStep) (t : Pipeline)
    (hrun : exec (pipelineStep serde) (Pipeline.spawned agent store) steps = some t) :
    devicesHold c t.loop.agent +
        (carried c (t.loop.channel.map Prod.fst) + carried c t.undelivered +
          carried c t.task.sends) +
        (snapshotSum c (fun _ => True) t.task.phase.snapshot +
          uncopiedSum c (fun _ => True) t.task.phase.copied t.kernel.flows) +
        runSum drainStep (lostTo c (fun _ => True) .raced) DrainState.init
          (steps.flatMap drainSteps) +
        runSum drainStep (lostTo c (fun _ => True) .refused) DrainState.init
          (steps.flatMap drainSteps) +
        2 ^ 64 * runSum drainStep (wraps c fun _ => True) DrainState.init
          (steps.flatMap drainSteps) +
        runSum agentStep (stray c) agent t.loop.handled +
        runSum agentStep (clipped c) agent t.loop.handled =
      devicesHold c agent + (steps.map (counted c)).sum ∧
    (devicesHold c agent + (steps.map (counted c)).sum < 2 ^ 64 →
      runSum drainStep (wraps c fun _ => True) DrainState.init (steps.flatMap drainSteps) = 0 ∧
      runSum agentStep (clipped c) agent t.loop.handled = 0) := by
  have htable := held_exec c (fun _ => True) (exec_drain hrun)
  obtain ⟨hdevices, hclipped⟩ := devicesHold_exec c (exec_handled hrun)
  have hsent : (t.drain.sent.map (snapshotSum c fun _ => True)).sum =
      carried c (t.loop.handled.map Arrival.event) + (carried c (t.loop.channel.map Prod.fst) +
        carried c t.undelivered + carried c t.task.sends) := by
    have hunderway : (t.drain.sent.map (snapshotSum c fun _ => True)).sum =
      carried c t.underway := rfl
    rw [hunderway, Pipeline.underway, carried_append, carried_append, carried_append]
    omega
  rw [sum_gained, held, hsent] at htable
  rw [sum_brought] at hdevices hclipped
  simp only [Pipeline.drain] at htable
  refine ⟨by omega, fun hbound => ⟨by omega, hclipped (by omega)⟩⟩

end Ledger

theorem traffic_accounted_busyRun :
    ∃ t, exec (pipelineStep jsonSerde) (Pipeline.spawned Agent.initial SqliteStore.empty)
        busyRun = some t ∧
      runSum agentStep (clipped .packets) Agent.initial t.loop.handled = 0 :=
  ⟨_, rfl, ((traffic_accounted .packets jsonSerde Agent.initial SqliteStore.empty busyRun _ rfl).2
    (by decide)).2⟩

end Lanscope
