import Lanscope.App.Pipeline
import Lanscope.App.Session
import Lanscope.Ebpf.Effects

/-!
# Events in transit

What the backend has taken out of the kernel's maps is with the loop, in the channel, in its own
hands, or could not be sent because the loop had returned. Read in this order it is a history that
only ever grows at its end: by ring-buffer records as they come, and by snapshots as the drains
complete them.
-/

namespace Lanscope

open Framework

/-- The event that the backend is sending. -/
@[simp] def BackendTask.sends : BackendTask → List CaptureEvent
  | .records (some ev) => [.discovery ev]
  | .sending out => [.flows out]
  | .records none | .selecting | .reading _ _ | .removing _ _ | .stopped => []

/-- All events that left the kernel's maps, oldest first. -/
def Pipeline.underway (s : Pipeline) : List CaptureEvent :=
  s.loop.handled.map Arrival.event ++ s.loop.channel.map Prod.fst ++ s.undelivered ++ s.task.sends

@[simp] def CaptureEvent.record : CaptureEvent → Option Event
  | .discovery ev => some ev
  | .flows _ => none

@[simp] def CaptureEvent.snapshot : CaptureEvent → Option Snapshot
  | .discovery _ => none
  | .flows out => some out

/-- The events that a step takes out of the kernel's maps. -/
def pipelineTakes (s : Pipeline) : PipelineStep → List CaptureEvent
  | .takeRecord => (s.kernel.events[s.consumed]?).toList.map .discovery
  | .endRemove =>
    match s.task with
    | .removing [] out => [.flows out]
    | _ => []
  | _ => []

/-- What a step does to the flow table, in the steps of the drain. -/
def drainSteps : PipelineStep → List DrainStep
  | .kernel (.frame ctx env) =>
    (frameUpdate env ctx).toList.map fun update =>
      .packet update.1 update.2.1 update.2.2 env.ktime
  | .flowTick => [.begin]
  | .readEntry key => [.read key]
  | .endRead => [.endRead]
  | .removeEntry => [.remove]
  | .endRemove => [.send]
  | _ => []

/-- What a step does to the loop and its channel, in the steps of the loop. -/
def loopSteps (s : Pipeline) : PipelineStep → List LoopStep
  | .sendRecord =>
    match s.task with
    | .records (some ev) => if s.loop.finalFlush.isSome then [] else [.send (.discovery ev)]
    | _ => []
  | .sendFlows =>
    match s.task with
    | .sending out =>
      if s.loop.finalFlush.isSome then [.closeSender] else [.send (.flows out)]
    | _ => []
  | .stopBackend => [.closeSender]
  | .loop step => [step]
  | _ => []

/-- What a step of the loop asks of the store, in the steps of a session. -/
def siteSteps (s : LoopState) : LoopStep → List SiteStep
  | .recv now order outcomes =>
    match s.channel with
    | (ev, _) :: _ => [.event ev now order outcomes]
    | [] => []
  | .recvClosed order outcomes | .tick order outcomes | .shutdown order outcomes =>
    [.flush order outcomes]
  | .send _ | .closeSender | .signal => []

@[simp] def BackendTask.phase : BackendTask → DrainPhase
  | .reading unread out => .reading unread out
  | .removing todo out => .removing todo out
  | .selecting | .records _ | .sending _ | .stopped => .idle

/-- The flow table and the drain, without the rest. -/
def Pipeline.drain (s : Pipeline) : DrainState :=
  ⟨s.kernel.flows, s.task.phase, s.underway.filterMap CaptureEvent.snapshot⟩

/-! ## One step -/

/-- A send that completes puts the event at the end of the channel and does nothing else. -/
theorem loopStep_send {serde : Serde} {s t : LoopState} {ev : CaptureEvent}
    (h : loopStep serde s (.send ev) = some t) :
    t.channel.map Prod.fst = s.channel.map Prod.fst ++ [ev] ∧ t.handled = s.handled ∧
      t.agent = s.agent ∧ t.store = s.store ∧ t.finalFlush = s.finalFlush ∧
      t.channel.length ≤ channelCapacity := by
  simp only [loopStep, Option.ite_none_right_eq_some, Option.some.injEq] at h
  obtain ⟨⟨_, _, hroom⟩, rfl⟩ := h
  refine ⟨by simp, rfl, rfl, rfl, rfl, ?_⟩
  rw [List.length_append]
  exact hroom

/-- A step of the loop moves the first event of the channel to the handled ones, or none. -/
theorem loopStep_own {serde : Serde} {s t : LoopState} {step : LoopStep} (own : step.Own)
    (h : loopStep serde s step = some t) :
    t.handled.map Arrival.event ++ t.channel.map Prod.fst =
        s.handled.map Arrival.event ++ s.channel.map Prod.fst ∧
      t.channel.length ≤ s.channel.length ∧ (t.finalFlush = none → s.finalFlush = none) := by
  cases loopMove_of_loopStep h with
  | send | closeSender => exact own.elim
  | signal => exact ⟨rfl, le_rfl, id⟩
  | recv running channel =>
      refine ⟨?_, ?_, fun _ => running⟩
      · simp [channel]
      · simp [channel]
  | tick => exact ⟨rfl, le_rfl, id⟩
  | recvClosed running => exact ⟨rfl, le_rfl, fun _ => running⟩
  | shutdown running => exact ⟨rfl, le_rfl, fun _ => running⟩

theorem underway_step {serde : Serde} {s t : Pipeline} {step : PipelineStep}
    (hundelivered : s.loop.finalFlush = none → s.undelivered = [])
    (h : pipelineStep serde s step = some t) :
    t.underway = s.underway ++ pipelineTakes s step := by
  cases pipelineMove_of_pipelineStep h with
  | kernel move => simp [Pipeline.underway, pipelineTakes]
  | takeRecord task ring => simp [Pipeline.underway, pipelineTakes, task, ring]
  | sendRecord task running send =>
      obtain ⟨hchannel, hhandled, _⟩ := loopStep_send send
      simp [Pipeline.underway, pipelineTakes, task, hchannel, hhandled,
        hundelivered running]
  | sendFlows task running send =>
      obtain ⟨hchannel, hhandled, _⟩ := loopStep_send send
      simp [Pipeline.underway, pipelineTakes, task, hchannel, hhandled,
        hundelivered running]
  | loop own move =>
      obtain ⟨hevents, _⟩ := loopStep_own own move
      simp only [Pipeline.underway, pipelineTakes, List.append_nil, hevents]
  | readable task | ringEmpty task | dropRecord task | flowTick task | readEntry task
  | endEmpty task | endRead task | removeEntry task | endRemove task | dropFlows task
  | stopBackend task =>
      simp [Pipeline.underway, pipelineTakes, stopTask, task]

/-- Each step of the pipeline is at most one step of the loop. -/
theorem loop_step {serde : Serde} {s t : Pipeline} {step : PipelineStep}
    (h : pipelineStep serde s step = some t) :
    exec (loopStep serde) s.loop (loopSteps s step) = some t.loop := by
  cases pipelineMove_of_pipelineStep h with
  | sendRecord task running send =>
      have hrun := exec_cons_iff.mpr ⟨_, send, exec_nil _⟩
      simpa [loopSteps, task, running] using hrun
  | sendFlows task running send =>
      have hrun := exec_cons_iff.mpr ⟨_, send, exec_nil _⟩
      simpa [loopSteps, task, running] using hrun
  | dropRecord task returned => simp [loopSteps, task, returned]
  | dropFlows task returned =>
      simp only [loopSteps, task, returned, if_true]
      rfl
  | stopBackend task => rfl
  | loop own move => exact exec_cons_iff.mpr ⟨_, move, exec_nil _⟩
  | kernel | readable | takeRecord | ringEmpty | flowTick | readEntry | endEmpty | endRead
  | removeEntry | endRemove => rfl

private theorem drain_kernel {s : Pipeline} {step : KernelStep} {kernel : Kernel}
    (h : kernelStep s.kernel step = some kernel) :
    exec drainStep s.drain (drainSteps (.kernel step)) =
      some { s.drain with flows := kernel.flows } := by
  cases step with
  | frame ctx env =>
      obtain rfl := Option.some.inj h
      have hflows : (lanscope env ctx s.kernel).1.flows = _ := flows_tryLanscope env ctx s.kernel
      rw [hflows, drainSteps]
      cases frameUpdate env ctx <;> rfl
  | evict macs =>
      obtain rfl := Option.some.inj h
      rfl

private theorem site_flush {serde : Serde} {s : LoopState} {order : List MacAddr}
    {outcomes : List Bool} {store : SqliteStore} (h : flushed serde s order outcomes = some store) :
    exec (siteStep serde) ⟨s.store, some s.agent⟩ [.flush order outcomes] =
      some ⟨store, some s.agent⟩ := by
  obtain ⟨⟨horder, hlen⟩, hstore⟩ := Option.ite_none_right_eq_some.mp h
  obtain rfl := Option.some.inj hstore
  simp [exec, siteStep, call, finish, horder, hlen]

/-- Each step of the loop is at most one step of the session over its store. -/
theorem site_step {serde : Serde} {s t : LoopState} {step : LoopStep}
    (h : loopStep serde s step = some t) :
    exec (siteStep serde) ⟨s.store, some s.agent⟩ (siteSteps s step) =
      some ⟨t.store, some t.agent⟩ := by
  cases step with
  | send ev =>
      obtain ⟨_, _, hagent, hstore, _⟩ := loopStep_send h
      rw [hagent, hstore]
      rfl
  | closeSender | signal =>
      obtain rfl := Option.some.inj h
      rfl
  | recv now order outcomes =>
      simp only [loopStep] at h
      split at h
      · next ev mark rest _ hchannel =>
        obtain ⟨agent, hagent, h⟩ := Option.bind_eq_some_iff.mp h
        obtain ⟨hlen, hsome⟩ := Option.ite_none_right_eq_some.mp h
        obtain rfl := Option.some.inj hsome
        obtain ⟨horder, hhandled⟩ := Option.ite_none_right_eq_some.mp hagent
        obtain rfl := Option.some.inj hhandled
        dsimp only at horder
        simp [siteSteps, hchannel, exec, siteStep, call, finish, horder, hlen]
      · exact absurd h (by simp)
  | recvClosed order outcomes | shutdown order outcomes =>
      obtain ⟨_, hreturn⟩ := Option.ite_none_right_eq_some.mp h
      obtain ⟨store, hstore, rfl⟩ := Option.map_eq_some_iff.mp hreturn
      exact site_flush hstore
  | tick order outcomes =>
      obtain ⟨_, hflush⟩ := Option.ite_none_right_eq_some.mp h
      obtain ⟨store, hstore, rfl⟩ := Option.map_eq_some_iff.mp hflush
      exact site_flush hstore

/-- Each step of the pipeline is at most one step of the drain. -/
theorem drain_step {serde : Serde} {s t : Pipeline} {step : PipelineStep}
    (hundelivered : s.loop.finalFlush = none → s.undelivered = [])
    (h : pipelineStep serde s step = some t) :
    exec drainStep s.drain (drainSteps step) = some t.drain := by
  have hdrain : t.drain = ⟨t.kernel.flows, t.task.phase, s.drain.sent ++
      (pipelineTakes s step).filterMap CaptureEvent.snapshot⟩ := by
    rw [Pipeline.drain, underway_step hundelivered h, List.filterMap_append]
    rfl
  rw [hdrain]
  cases pipelineMove_of_pipelineStep h with
  | kernel move =>
      rw [drain_kernel move]
      simp [pipelineTakes, Pipeline.drain]
  | takeRecord task ring => simp [drainSteps, pipelineTakes, Pipeline.drain, task, ring]
  | endRemove task => simp [drainSteps, exec, drainStep, pipelineTakes, Pipeline.drain, task]
  | readEntry task entry new =>
      simpa [drainSteps, exec, drainStep, pipelineTakes, Pipeline.drain, task, entry] using new
  | endRead task some =>
      simp [drainSteps, exec, drainStep, pipelineTakes, Pipeline.drain, task, some]
  | flowTick task | endEmpty task | removeEntry task =>
      simp [drainSteps, exec, drainStep, pipelineTakes, Pipeline.drain, task]
  | readable task | ringEmpty task | sendRecord task | dropRecord task | sendFlows task
  | dropFlows task | stopBackend task =>
      simp [drainSteps, pipelineTakes, Pipeline.drain, stopTask, task]
  | loop own move => simp [drainSteps, pipelineTakes, Pipeline.drain]

structure TransitOk (s : Pipeline) : Prop where
  records : s.underway.filterMap CaptureEvent.record = s.kernel.events.take s.consumed
  consumed : s.consumed ≤ s.kernel.events.length
  undelivered : s.loop.finalFlush = none → s.undelivered = []

private theorem transitOk_kernel {s : Pipeline} (hs : TransitOk s) {kernel : Kernel}
    (hgrow : s.kernel.events <+: kernel.events) : TransitOk { s with kernel := kernel } where
  records := by
    obtain ⟨new, hnew⟩ := hgrow
    rw [← hnew, List.take_append_of_le_length hs.consumed, ← hs.records]
    rfl
  consumed := hs.consumed.trans hgrow.length_le
  undelivered := hs.undelivered

theorem transitOk_step {serde : Serde} (s : Pipeline) (step : PipelineStep) (t : Pipeline)
    (hs : TransitOk s) (h : pipelineStep serde s step = some t) : TransitOk t := by
  have hrecords : t.underway.filterMap CaptureEvent.record = s.kernel.events.take s.consumed ++
      (pipelineTakes s step).filterMap CaptureEvent.record := by
    rw [underway_step hs.undelivered h, List.filterMap_append, hs.records]
  have hconsumed := hs.consumed
  cases pipelineMove_of_pipelineStep h with
  | kernel move => exact transitOk_kernel hs (events_kernelStep move)
  | takeRecord task ring =>
      obtain ⟨hlt, hget⟩ := List.getElem?_eq_some_iff.mp ring
      refine ⟨?_, hlt, hs.undelivered⟩
      rw [hrecords, List.take_add_one]
      simp [pipelineTakes, ring]
  | sendRecord task running send =>
      obtain ⟨_, _, _, _, hflush, _⟩ := loopStep_send send
      refine ⟨by simpa [pipelineTakes] using hrecords, hconsumed, fun _ => hs.undelivered running⟩
  | sendFlows task running send =>
      refine ⟨by simpa [pipelineTakes] using hrecords, hconsumed, fun _ => hs.undelivered running⟩
  | loop own move =>
      obtain ⟨_, _, hflush⟩ := loopStep_own own move
      refine ⟨by simpa [pipelineTakes] using hrecords, hconsumed, fun hnone => ?_⟩
      exact hs.undelivered (hflush hnone)
  | dropRecord task returned | dropFlows task returned =>
      refine ⟨by simpa [pipelineTakes, stopTask] using hrecords, hconsumed, fun hnone => ?_⟩
      exact absurd hnone (Option.isSome_iff_ne_none.mp returned)
  | endRemove task =>
      exact ⟨by simpa [pipelineTakes, task, List.filterMap_cons] using hrecords, hconsumed,
        hs.undelivered⟩
  | readable | ringEmpty | flowTick | readEntry | endEmpty | endRead | removeEntry
  | stopBackend =>
      exact ⟨by simpa [pipelineTakes, stopTask] using hrecords, hconsumed, hs.undelivered⟩

/-! ## Whole runs -/

section Runs

variable {serde : Serde} {agent : Agent} {store : SqliteStore} {steps : List PipelineStep}
  {t : Pipeline}

theorem transitOk_spawned (agent : Agent) (store : SqliteStore) :
    TransitOk (Pipeline.spawned agent store) :=
  ⟨rfl, Nat.zero_le _, fun _ => rfl⟩

theorem transitOk_of_exec
    (hrun : exec (pipelineStep serde) (Pipeline.spawned agent store) steps = some t) :
    TransitOk t :=
  exec_invariant transitOk_step (transitOk_spawned agent store) hrun

/-- The loop of a pipeline run is a run of the loop. -/
theorem exec_loop
    (hrun : exec (pipelineStep serde) (Pipeline.spawned agent store) steps = some t) :
    exec (loopStep serde) (LoopState.spawned agent store)
      (trace (pipelineStep serde) loopSteps (Pipeline.spawned agent store) steps) =
        some t.loop := by
  obtain ⟨loop, hloop, rfl⟩ := exec_simulation (R := fun s (loop : LoopState) => s.loop = loop)
    (fun s loop step t hs h => ⟨t.loop, hs ▸ loop_step h, rfl⟩) rfl hrun
  exact hloop

/-- The registry and the detectors are what the handled events made of them. -/
theorem exec_handled
    (hrun : exec (pipelineStep serde) (Pipeline.spawned agent store) steps = some t) :
    exec agentStep agent t.loop.handled = some t.loop.agent :=
  (exec_invariant (loopOk_step agent) (loopOk_spawned agent store) (exec_loop hrun)).folded

theorem channel_le_capacity
    (hrun : exec (pipelineStep serde) (Pipeline.spawned agent store) steps = some t) :
    t.loop.channel.length ≤ channelCapacity := by
  refine exec_invariant (I := fun s : LoopState => s.channel.length ≤ channelCapacity) ?_
    (Nat.zero_le _) (exec_loop hrun)
  intro s step u hs h
  cases step with
  | send ev =>
      obtain ⟨_, _, _, _, _, hroom⟩ := loopStep_send h
      exact hroom
  | closeSender =>
      obtain rfl := Option.some.inj h
      exact hs
  | signal | recv | recvClosed | tick | shutdown =>
      obtain ⟨_, hle, _⟩ := loopStep_own (by trivial) h
      exact hle.trans hs

/-- The table and the drain of a pipeline run are a run of the drain. -/
theorem exec_drain
    (hrun : exec (pipelineStep serde) (Pipeline.spawned agent store) steps = some t) :
    exec drainStep DrainState.init (steps.flatMap drainSteps) = some t.drain := by
  obtain ⟨drain, hdrain, hend, _⟩ := exec_simulation
    (R := fun s (drain : DrainState) => s.drain = drain ∧ TransitOk s)
    (fun s drain step t hs h =>
      ⟨t.drain, hs.1 ▸ drain_step hs.2.undelivered h, rfl, transitOk_step s step t hs.2 h⟩)
    ⟨rfl, transitOk_spawned agent store⟩ hrun
  rw [trace_of_labels drainSteps hrun] at hdrain
  exact hdrain.trans (congrArg some hend.symm)

/-- The store and the agent of a run of the loop are a session. -/
theorem exec_site {s u : LoopState} {loopSteps : List LoopStep}
    (hrun : exec (loopStep serde) s loopSteps = some u) :
    exec (siteStep serde) ⟨s.store, some s.agent⟩ (trace (loopStep serde) siteSteps s loopSteps) =
      some ⟨u.store, some u.agent⟩ := by
  obtain ⟨site, hsite, hend⟩ := exec_simulation
    (R := fun s (site : Site) => site = ⟨s.store, some s.agent⟩)
    (fun s site step u hs h => ⟨_, hs ▸ site_step h, rfl⟩) rfl hrun
  rw [hsite, hend]

end Runs

/-- Records are handled in the order in which the kernel submitted them, each one once. What is not
handled yet is in the channel, with the backend or in the ring buffer, and only what the backend
tries to send after the loop has returned goes nowhere. -/
theorem records_in_order (serde : Serde) (agent : Agent) (store : SqliteStore)
    (steps : List PipelineStep) (t : Pipeline)
    (hrun : exec (pipelineStep serde) (Pipeline.spawned agent store) steps = some t) :
    t.kernel.events =
      (t.loop.handled.map Arrival.event).filterMap CaptureEvent.record ++
        (t.loop.channel.map Prod.fst).filterMap CaptureEvent.record ++
        t.undelivered.filterMap CaptureEvent.record ++
        t.task.sends.filterMap CaptureEvent.record ++ t.kernel.events.drop t.consumed ∧
    exec agentStep agent t.loop.handled = some t.loop.agent ∧
    t.loop.channel.length ≤ channelCapacity ∧ (t.loop.finalFlush = none → t.undelivered = []) := by
  have hok := transitOk_of_exec hrun
  have hrecords := hok.records
  simp only [Pipeline.underway, List.filterMap_append] at hrecords
  refine ⟨?_, exec_handled hrun, channel_le_capacity hrun, hok.undelivered⟩
  rw [hrecords, List.take_append_drop]

/-- An ICMP packet of twenty bytes. -/
def pingFrame : List UInt8 :=
  [0xff, 0xff, 0xff, 0xff, 0xff, 0xff, 0xb8, 0x27, 0xeb, 0x01, 0x02, 0x03, 0x08, 0x00,
    0x45, 0, 0, 20, 0, 0, 0, 0, 64, 1, 0, 0, 10, 0, 0, 66, 8, 8, 8, 8]

def pingFlow : FlowKey := ⟨leasedIp, 0x08080808, 0, 0, 1⟩

def freeSlots : XdpEnv :=
  { fullRing with announceSlot := some Payload.zero, discoverySlot := some Payload.zero }

/-- A host is announced and its flow drained while it keeps sending. -/
def busyRun : List PipelineStep :=
  [.kernel (.frame pingFrame freeSlots), .readable, .takeRecord,
    .kernel (.frame arpFrame freeSlots), .sendRecord, .loop (.recv 100 [] [true, true]),
    .takeRecord, .sendRecord, .ringEmpty, .flowTick, .readEntry pingFlow, .endRead,
    .kernel (.frame pingFrame freeSlots), .removeEntry, .endRemove, .loop .signal, .sendFlows]

theorem records_in_order_busyRun :
    ∃ t, exec (pipelineStep jsonSerde) (Pipeline.spawned Agent.initial SqliteStore.empty)
        busyRun = some t ∧
      exec agentStep Agent.initial t.loop.handled = some t.loop.agent ∧
      t.loop.channel.length ≤ channelCapacity :=
  have h := records_in_order jsonSerde Agent.initial SqliteStore.empty busyRun _ rfl
  ⟨_, rfl, h.2.1, h.2.2.1⟩

/-- The flow table and the backend are, in every run of the pipeline, a run of the drain over the
flow updates that the frames call for, and the snapshots that this drain sent are, in order, those
handled, those in the channel, those sent too late and the one that is being sent. -/
theorem snapshots_in_order (serde : Serde) (agent : Agent) (store : SqliteStore)
    (steps : List PipelineStep) (t : Pipeline)
    (hrun : exec (pipelineStep serde) (Pipeline.spawned agent store) steps = some t) :
    exec drainStep DrainState.init (steps.flatMap drainSteps) =
      some ⟨t.kernel.flows, t.task.phase,
        (t.loop.handled.map Arrival.event).filterMap CaptureEvent.snapshot ++
          (t.loop.channel.map Prod.fst).filterMap CaptureEvent.snapshot ++
          t.undelivered.filterMap CaptureEvent.snapshot ++
          t.task.sends.filterMap CaptureEvent.snapshot⟩ := by
  rw [exec_drain hrun, Pipeline.drain, Pipeline.underway]
  simp only [List.filterMap_append]

theorem snapshots_in_order_busyRun :
    ∃ t, exec drainStep DrainState.init (busyRun.flatMap drainSteps) = some t ∧
      t.sent.length = 1 :=
  ⟨_, snapshots_in_order jsonSerde Agent.initial SqliteStore.empty busyRun _ rfl, rfl⟩

end Lanscope
