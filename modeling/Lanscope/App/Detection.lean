import Lanscope.Anomaly.PortScan
import Lanscope.App.Monitor

/-!
# Detection

Over a whole run the flow detectors do what they do over the flows that the loop handled, one after
the other: discovery events leave them alone. A flow that enters the flow table does reach them, so
a port scan on the wire is reported however frames, drains and the loop interleave.
-/

namespace Lanscope

open Framework

/-! ## The engine over a history -/

/-- The flows that an event brings to the engine. -/
def arrivalFlows (arrival : Arrival) : List FlowArrival :=
  (arrival.event.snapshot.map (snapshotAt arrival.now)).getD []

/-- The flows of a history, in the order in which the engine takes them in. -/
def flowsIn (history : List Arrival) : List FlowArrival := history.flatMap arrivalFlows

theorem Engine.run_append (e : Engine) (flows more : List FlowArrival) :
    e.run (flows ++ more) =
      (((e.run flows).1.run more).1, (e.run flows).2 ++ ((e.run flows).1.run more).2) :=
  foldEmit_append e flows more

/-- The alert is about a flow. -/
def Alert.ofFlow (alert : Alert) : Bool := alert.kind ≠ newDeviceKind

private theorem anomaly_handleObservation (now : Int) (agent : Agent) (obs : Observation) :
    (handleObservation now agent obs).1.anomaly = agent.anomaly := by
  by_cases hmac : obs.mac = zeroMac
  · rw [handleObservation_zero now agent obs hmac]
  · obtain ⟨hanomaly, _⟩ := (handleObservation_spec now agent obs hmac).2 _ rfl
    exact hanomaly.trans (Engine.onDevice_fst _ _ _ _)

/-- An event takes the engine through its flows, and what it raises about flows is what the engine
raises on the way. -/
theorem engine_handleEvent (agent : Agent) (arrival : Arrival) :
    (handleEvent arrival.now arrival.order agent arrival.event).agent.anomaly =
        (agent.anomaly.run (arrivalFlows arrival)).1 ∧
      (raisedBy agent arrival).filter Alert.ofFlow =
        (agent.anomaly.run (arrivalFlows arrival)).2 := by
  obtain ⟨ev, now, order⟩ := arrival
  cases ev with
  | discovery e =>
      have hfold := foldEmit_invariant (f := handleObservation now) (l := decodeEvent e)
        (I := fun a : Agent => a.anomaly = agent.anomaly)
        (P := fun w => ∀ alert, w.alert = some alert → alert.kind = newDeviceKind)
        (fun a obs _ ha => by
          refine ⟨(anomaly_handleObservation now a obs).trans ha, fun w hw alert halert => ?_⟩
          obtain ⟨device, change, hraised⟩ := mem_onDevice_of_handleObservation hw halert
          exact Engine.kind_of_mem_onDevice _ _ _ _ hraised) rfl
      refine ⟨hfold.1, List.filter_eq_nil_iff.mpr fun alert halert => ?_⟩
      obtain ⟨w, hw, hsome⟩ := List.mem_filterMap.mp halert
      simp [Alert.ofFlow, hfold.2 w hw alert hsome]
  | flows flows =>
      obtain ⟨hagent, hwrites⟩ := handleEvent_flows now order agent flows
      refine ⟨by rw [hagent]; rfl, ?_⟩
      have hraised : raisedBy agent ⟨.flows flows, now, order⟩ =
          (agent.anomaly.run (snapshotAt now flows)).2 := by
        rw [raisedBy, hwrites, List.filterMap_map]
        exact List.filterMap_some
      rw [hraised]
      refine List.filter_eq_self.mpr fun alert halert => ?_
      obtain ⟨_, _, _, _, hf⟩ := mem_foldEmit halert
      exact decide_eq_true (Engine.kind_of_mem_onFlow _ _ _ _ hf)

/-- The same for a whole history. -/
theorem engine_exec {history : List Arrival} {agent later : Agent}
    (hrun : exec agentStep agent history = some later) :
    later.anomaly = (agent.anomaly.run (flowsIn history)).1 ∧
      (raised agent history).filter Alert.ofFlow = (agent.anomaly.run (flowsIn history)).2 := by
  induction history generalizing agent with
  | nil =>
      obtain rfl := Option.some.inj hrun
      exact ⟨rfl, rfl⟩
  | cons arrival history ih =>
      obtain ⟨m, hm, hrest⟩ := exec_cons_iff.mp hrun
      obtain ⟨_, hnext⟩ := Option.ite_none_right_eq_some.mp hm
      obtain ⟨hanomaly, hraised⟩ := engine_handleEvent agent arrival
      rw [Option.some.inj hnext] at hanomaly
      obtain ⟨hlater, hlaterRaised⟩ := ih hrest
      rw [flowsIn, List.flatMap_cons, ← flowsIn, Engine.run_append, ← hanomaly]
      refine ⟨hlater, ?_⟩
      rw [raised, trace, hm, Option.elim_some, List.filter_append, hraised]
      exact congrArg _ hlaterRaised

/-! ## One detector among others -/

def Detector.run (d : Detector) (flows : List FlowArrival) : Detector × List Alert :=
  foldEmit (fun d f => d.onFlow f.key f.stats f.now) d flows

/-- The engine raises all that each of its detectors raises on its own. -/
theorem Engine.mem_run {e : Engine} {d : Detector} (hd : d ∈ e.detectors)
    (flows : List FlowArrival) : (d.run flows).2 ⊆ (e.run flows).2 := by
  induction flows generalizing e d with
  | nil => exact List.nil_subset _
  | cons f flows ih =>
      have hnext : (d.onFlow f.key f.stats f.now).1 ∈
          (e.onFlow f.key f.stats f.now).1.detectors := by
        simp only [Engine.onFlow, List.map_map]
        exact List.mem_map_of_mem (f := fun d : Detector => (d.onFlow f.key f.stats f.now).1) hd
      rw [Detector.run, foldEmit_cons, Engine.run, foldEmit_cons]
      intro alert halert
      cases List.mem_append.mp halert with
      | inl hone =>
          refine List.mem_append_left _ (List.mem_flatMap.mpr ⟨_, ?_, hone⟩)
          exact List.mem_map_of_mem (f := fun d : Detector => d.onFlow f.key f.stats f.now) hd
      | inr hrest => exact List.mem_append_right _ (ih hnext hrest)

private theorem run_portScan (d : PortScanDetector) (flows : List FlowArrival) :
    ((Detector.portScan d).run flows).2 = (d.run flows).2 := by
  have hrun := foldEmit_simulation (f := fun (d : Detector) f => d.onFlow f.key f.stats f.now)
    (g := fun (d : PortScanDetector) f => d.onFlow f.key f.now) (i := id) (o := id)
    (e := Detector.portScan) (l := flows) (fun d f _ => by
      rw [List.map_id_fun]
      rfl) d
  rw [List.map_id, List.map_id_fun] at hrun
  exact congrArg Prod.snd hrun

/-- Contacts with twice the threshold less one ports within one window are reported, whatever flows
stand between them and whatever other detectors there are. -/
theorem Engine.reports_scan {e : Engine} {window : Int} {threshold : Nat} (hw : 0 ≤ window)
    (ht : 1 ≤ threshold) (hd : .portScan (.fresh window threshold) ∈ e.detectors)
    {flows : List FlowArrival} (hordered : Ordered flows) {s : Ipv4Be} {ports : Finset UInt16}
    (hmany : 2 * threshold - 1 ≤ ports.card) {start : Int}
    (hcontacts : ∀ port ∈ ports, ∃ f ∈ flows, f.src = s ∧ f.key.dstPort = port ∧
      start ≤ f.now ∧ f.now ≤ start + window) :
    ∃ alert ∈ (e.run flows).2, alert.kind = portScanKind ∧ alert.concerns s ∧
      start - window ≤ alert.ts ∧ alert.ts ≤ start + window := by
  have hmax : max threshold 1 = threshold := Nat.max_eq_left ht
  have henough : 2 * max threshold 1 - 1 ≤ ports.card := by rwa [hmax]
  have htimes : ∀ port ∈ ports, ∃ contact ∈ contactsOf s flows, contact.2 = port ∧
      start ≤ contact.1 ∧ contact.1 ≤ start + window := by
    intro port hport
    obtain ⟨f, hf, hsrc, hdst, htime⟩ := hcontacts port hport
    have hown : f ∈ flowsOf s flows := List.mem_filter.mpr ⟨hf, decide_eq_true hsrc⟩
    exact ⟨f.contact, List.mem_map_of_mem hown, hdst, htime⟩
  obtain ⟨hit, hhit, hfrom, hto⟩ := Tumbling.exists_hit_of_items hw (le_max_right _ _)
    (hordered.contacts s) henough htimes
  have halerts := (PortScanDetector.run_fresh window threshold flows s).2
  have hmem := List.mem_map_of_mem (f := scanAlert s (max threshold 1) window) hhit
  rw [contactsOf, ← halerts] at hmem
  obtain ⟨hraised, hconcerns⟩ := List.mem_filter.mp hmem
  rw [← run_portScan] at hraised
  exact ⟨_, Engine.mem_run hd flows hraised, rfl, hconcerns, hfrom, hto⟩

/-! ## From the wire to the engine -/

/-- A frame of the flow is received, and the flow table takes it. -/
def Probes (key : FlowKey) (p : Pipeline) : PipelineStep → Prop
  | .kernel (.frame ctx env) =>
    (frameUpdate env ctx).map Prod.fst = some key ∧
      (key ∈ p.kernel.flows.keys ∨ p.kernel.flows.keys.card < flowsMaxEntries)
  | _ => False

/-- The flow is in the table, or in a snapshot that the loop has not handled. -/
def Pipeline.OnItsWay (p : Pipeline) (key : FlowKey) : Prop :=
  (∃ snap ∈ (p.loop.channel.map Prod.fst ++ p.undelivered ++ p.task.sends).filterMap
    CaptureEvent.snapshot, key ∈ snap.map Prod.fst) ∨
  key ∈ p.task.phase.snapshot.map Prod.fst ∨ key ∈ p.kernel.flows.keys

/-- The flows that the loop has handled out of snapshots that were complete later than `p`. -/
def flowsSince (p t : Pipeline) : List FlowArrival :=
  flowsIn ((t.loop.handled.filter fun arrival => arrival.event.snapshot.isSome).drop
    p.drain.sent.length)

/-- When the loop first handled the flow out of such a snapshot. -/
def firstHandled (p t : Pipeline) (key : FlowKey) : Option Int :=
  ((flowsSince p t).find? fun f => f.key = key).map FlowArrival.now

/-- The flow does not wait to be handled since `p`, and was first handled within the window. -/
structure HandledWithin (p t : Pipeline) (key : FlowKey) (start window : Int) : Prop where
  arrived : firstHandled p t key = none → ¬ t.OnItsWay key
  inTime : ∀ time, firstHandled p t key = some time → start ≤ time ∧ time ≤ start + window

/-- The flow is known, and will not be lost. -/
private structure Tracked (since : Nat) (key : FlowKey) (p : Pipeline) : Prop extends
    TransitOk p where
  copied : p.drain.phase.copied ⊆ p.drain.phase.snapshot.map Prod.fst
  tracks : p.drain.Tracks since key

private theorem tracked_step {serde : Serde} {since : Nat} {key : FlowKey} (p : Pipeline)
    (step : PipelineStep) (q : Pipeline) (hp : Tracked since key p)
    (h : pipelineStep serde p step = some q) : Tracked since key q := by
  have hdrain := drain_step hp.undelivered h
  obtain ⟨hcopied, htracks⟩ := exec_invariant
    (I := fun d : DrainState =>
      d.phase.copied ⊆ d.phase.snapshot.map Prod.fst ∧ d.Tracks since key)
    (fun d step d' hd h => ⟨copied_step d step d' hd.1 h, tracks_step hd.1 hd.2 h⟩)
    ⟨hp.copied, hp.tracks⟩ hdrain
  exact ⟨transitOk_step p step q hp.toTransitOk h, hcopied, htracks⟩

section Runs

variable {serde : Serde} {agent : Agent} {store : SqliteStore} {steps : List PipelineStep}
  {t : Pipeline}

private theorem copied_of_exec
    (hrun : exec (pipelineStep serde) (Pipeline.spawned agent store) steps = some t) :
    t.drain.phase.copied ⊆ t.drain.phase.snapshot.map Prod.fst :=
  exec_invariant copied_step (List.nil_subset _) (exec_drain hrun)

private theorem snapshots_handled (history : List Arrival) :
    (history.map Arrival.event).filterMap CaptureEvent.snapshot =
      (history.filter fun arrival => arrival.event.snapshot.isSome).map fun arrival =>
        arrival.event.snapshot.getD [] := by
  induction history with
  | nil => rfl
  | cons arrival history ih =>
      obtain ⟨ev, now, order⟩ := arrival
      cases ev with
      | discovery e => exact ih
      | flows out => exact congrArg (out :: ·) ih

private theorem mem_arrivalFlows {arrival : Arrival} {entry : FlowKey × FlowStats}
    (h : entry ∈ arrival.event.snapshot.getD []) :
    ⟨entry.1, entry.2, arrival.now⟩ ∈ arrivalFlows arrival := by
  obtain ⟨ev, now, order⟩ := arrival
  cases ev with
  | discovery e => exact absurd h List.not_mem_nil
  | flows out => exact List.mem_map_of_mem h

private theorem flowsSince_subset (p t : Pipeline) : flowsSince p t ⊆ flowsIn t.loop.handled := by
  intro f hf
  obtain ⟨arrival, harrival, hmem⟩ := List.mem_flatMap.mp hf
  exact List.mem_flatMap.mpr ⟨arrival, (List.mem_filter.mp (List.mem_of_mem_drop harrival)).1, hmem⟩

/-- What does not wait to be handled since has been handled within the window. -/
private theorem HandledWithin.handled {p t : Pipeline} {key : FlowKey} {start window : Int}
    (h : HandledWithin p t key start window)
    (hfate : t.OnItsWay key ∨ ∃ f ∈ flowsSince p t, f.key = key) :
    ∃ f ∈ flowsIn t.loop.handled, f.key = key ∧ start ≤ f.now ∧ f.now ≤ start + window := by
  cases hfirst : (flowsSince p t).find? fun f => f.key = key with
  | none =>
      have hnever := h.arrived (by rw [firstHandled, hfirst]; rfl)
      obtain ⟨f, hf, hkey⟩ := hfate.resolve_left hnever
      exact absurd (decide_eq_true hkey) (List.find?_eq_none.mp hfirst f hf)
  | some f =>
      refine ⟨f, flowsSince_subset p t (List.mem_of_find?_eq_some hfirst),
        by simpa using List.find?_some hfirst, h.inTime f.now ?_⟩
      rw [firstHandled, hfirst]
      rfl

/-- A flow that the table took has been handled since, or it is on its way to the loop. -/
theorem handled_of_probes
    (hrun : exec (pipelineStep serde) (Pipeline.spawned agent store) steps = some t)
    {earlier later : List PipelineStep} {step : PipelineStep} {p : Pipeline}
    (hsteps : steps = earlier ++ step :: later)
    (hearlier : exec (pipelineStep serde) (Pipeline.spawned agent store) earlier = some p)
    {key : FlowKey} (hprobes : Probes key p step) :
    t.OnItsWay key ∨ ∃ f ∈ flowsSince p t, f.key = key := by
  subst hsteps
  obtain ⟨p', hp', hrest⟩ := exec_append_iff.mp hrun
  obtain rfl := Option.some.inj (hearlier.symm.trans hp')
  obtain ⟨q, hstep, hlater⟩ := exec_cons_iff.mp hrest
  have hq := exec_append_iff.mpr ⟨p, hearlier, exec_cons_iff.mpr ⟨q, hstep, exec_nil q⟩⟩
  obtain ⟨hkey, hsent⟩ : key ∈ q.kernel.flows.keys ∧ q.drain.sent = p.drain.sent := by
    obtain ⟨ctx, env, rfl⟩ : ∃ ctx env, step = .kernel (.frame ctx env) := by
      cases step with
      | kernel step =>
          cases step with
          | frame ctx env => exact ⟨ctx, env, rfl⟩
          | evict macs => exact absurd hprobes not_false
      | _ => exact absurd hprobes not_false
    obtain ⟨hupdate, hroom⟩ := hprobes
    obtain ⟨update, hsome, rfl⟩ := Option.map_eq_some_iff.mp hupdate
    obtain rfl := Option.some.inj hstep
    refine ⟨?_, rfl⟩
    have hflows : (lanscope env ctx p.kernel).1.flows = _ := flows_tryLanscope env ctx p.kernel
    rw [hsome, Option.elim_some] at hflows
    dsimp only
    rw [hflows]
    exact mem_keys_updateFlow hroom _ _ _
  have htracked : Tracked p.drain.sent.length key t := exec_invariant tracked_step
    ⟨transitOk_of_exec hq, copied_of_exec hq, hsent ▸ le_rfl, Or.inr (Or.inr hkey)⟩ hlater
  rcases htracked.tracks.somewhere with ⟨snap, hsnap, hmem⟩ | hwaiting
  · rw [flowsSince]
    generalize p.drain.sent.length = since at hsnap ⊢
    simp only [Pipeline.drain, Pipeline.underway, List.append_assoc, List.filterMap_append]
      at hsnap
    rw [List.drop_append, List.mem_append] at hsnap
    cases hsnap with
    | inl hhandled =>
        rw [snapshots_handled, ← List.map_drop] at hhandled
        obtain ⟨arrival, harrival, rfl⟩ := List.mem_map.mp hhandled
        obtain ⟨entry, hentry, rfl⟩ := List.mem_map.mp hmem
        refine Or.inr ⟨⟨entry.1, entry.2, arrival.now⟩, ?_, rfl⟩
        exact List.mem_flatMap.mpr ⟨arrival, harrival, mem_arrivalFlows hentry⟩
    | inr hunhandled =>
        refine Or.inl (Or.inl ⟨snap, ?_, hmem⟩)
        simpa only [List.append_assoc, List.filterMap_append] using List.mem_of_mem_drop hunhandled
  · exact Or.inl (Or.inr hwaiting)

/-- What a run of the pipeline raises and does not fail to store is in the store. -/
theorem stored_of_raised
    (hrun : exec (pipelineStep serde) (Pipeline.spawned agent store) steps = some t)
    (hsteps : ∀ step ∈ steps, step.Succeeds) {alert : Alert}
    (halert : alert ∈ raised agent t.loop.handled) : rowOfAlert alert ∈ t.loop.store.alerts := by
  obtain ⟨s, hmonitor, hs⟩ := monitored_of_exec true (exec_loop hrun)
  obtain ⟨stored, _, hall, hrows⟩ := (monitorOk_of_exec hmonitor).stored
  rw [hs] at hall hrows
  have hlabels : ∀ step ∈ trace (pipelineStep serde) loopSteps (Pipeline.spawned agent store) steps,
      step.Succeeds := by
    intro step hstep
    obtain ⟨p, l, hl, hmem⟩ := of_mem_trace hstep
    exact loopSteps_succeed (hsteps l hl) step hmem
  rw [hrows, hall hlabels]
  exact List.mem_append_right _ (List.mem_map_of_mem halert)

end Runs

private theorem now_of_mem_arrivalFlows {arrival : Arrival} {f : FlowArrival}
    (h : f ∈ arrivalFlows arrival) : f.now = arrival.now := by
  obtain ⟨ev, now, order⟩ := arrival
  cases ev with
  | discovery e => exact absurd h List.not_mem_nil
  | flows flows =>
      obtain ⟨entry, _, rfl⟩ := List.mem_map.mp h
      rfl

theorem ordered_flowsIn {history : List Arrival}
    (hclock : history.Pairwise fun a b => a.now ≤ b.now) : Ordered (flowsIn history) := by
  refine List.pairwise_flatMap.mpr ⟨fun arrival _ => ?_, hclock.imp fun hle f hf g hg => ?_⟩
  · exact List.pairwise_of_forall_mem_list fun f hf g hg =>
      ((now_of_mem_arrivalFlows hf).trans (now_of_mem_arrivalFlows hg).symm).le
  · rw [now_of_mem_arrivalFlows hf, now_of_mem_arrivalFlows hg]
    exact hle

/-- A host that makes contact with twice the threshold less one ports is reported, however its
frames interleave with other traffic, the drains and the loop: as soon as the flows of these contacts
have been handled, each for the first time since, and if this took no longer than the window, the
alert is in the store. -/
theorem scan_reported (serde : Serde) (agent : Agent) (store : SqliteStore) (window : Int)
    (threshold : Nat) (hw : 0 ≤ window) (ht : 1 ≤ threshold)
    (hd : .portScan (.fresh window threshold) ∈ agent.anomaly.detectors)
    (steps : List PipelineStep) (t : Pipeline)
    (hrun : exec (pipelineStep serde) (Pipeline.spawned agent store) steps = some t)
    (hclock : t.loop.handled.Pairwise fun a b => a.now ≤ b.now) (s : Ipv4Be)
    (ports : Finset UInt16) (hmany : 2 * threshold - 1 ≤ ports.card) (start : Int)
    (hprobes : ∀ port ∈ ports, ∃ earlier step later p, ∃ key : FlowKey,
      steps = earlier ++ step :: later ∧
      exec (pipelineStep serde) (Pipeline.spawned agent store) earlier = some p ∧
      key.srcIp = s ∧ key.dstPort = port ∧ Probes key p step ∧
      HandledWithin p t key start window) :
    ∃ alert ∈ raised agent t.loop.handled, alert.kind = portScanKind ∧ alert.concerns s ∧
      start - window ≤ alert.ts ∧ alert.ts ≤ start + window ∧
      ((∀ step ∈ steps, step.Succeeds) → rowOfAlert alert ∈ t.loop.store.alerts) := by
  have hcontacts : ∀ port ∈ ports, ∃ f ∈ flowsIn t.loop.handled, f.src = s ∧
      f.key.dstPort = port ∧ start ≤ f.now ∧ f.now ≤ start + window := by
    intro port hport
    obtain ⟨earlier, step, later, p, key, hsteps, hearlier, hsrc, hdst, hprobe, hwithin⟩ :=
      hprobes port hport
    obtain ⟨f, hf, rfl, htime⟩ :=
      hwithin.handled (handled_of_probes hrun hsteps hearlier hprobe)
    exact ⟨f, hf, hsrc, hdst, htime⟩
  obtain ⟨alert, halert, hkind, hconcerns, hfrom, hto⟩ :=
    Engine.reports_scan hw ht hd (ordered_flowsIn hclock) hmany hcontacts
  rw [← (engine_exec (exec_handled hrun)).2] at halert
  have hraised := (List.mem_filter.mp halert).1
  exact ⟨alert, hraised, hkind, hconcerns, hfrom, hto, fun hsteps =>
    stored_of_raised hrun hsteps hraised⟩

example : .portScan (.fresh 10 20) ∈ Engine.defaultStack.detectors :=
  List.mem_cons_of_mem _ List.mem_cons_self

/-- A TCP packet with the SYN flag to the given port below 256. -/
def synFrame (port : UInt8) : List UInt8 :=
  [0xff, 0xff, 0xff, 0xff, 0xff, 0xff, 0xb8, 0x27, 0xeb, 0x01, 0x02, 0x03, 0x08, 0x00,
    0x45, 0, 0, 40, 0, 0, 0, 0, 64, 6, 0, 0, 10, 0, 0, 66, 8, 8, 8, 8,
    0x9c, 0x40, 0, port, 0, 0, 0, 0, 0, 0, 0, 0, 0x50, 0x02, 0, 0, 0, 0, 0, 0]

def synFlow (port : UInt16) : FlowKey := ⟨leasedIp, 0x08080808, 40000, port, 6⟩

def linearFrames : XdpEnv :=
  { fullRing with loadBytes := fun ctx off len =>
      if off + len ≤ ctx.length then some ((ctx.drop off).take len) else none }

def pairDetector : Agent := ⟨DeviceRegistry.empty, ⟨[.portScan (.fresh 10 2)]⟩⟩

/-- Three ports, one of which is only found when the drain has begun. -/
def scanRun : List PipelineStep :=
  [.kernel (.frame (synFrame 22) linearFrames), .kernel (.frame (synFrame 80) linearFrames),
    .flowTick, .readEntry (synFlow 80), .kernel (.frame (synFrame 23) linearFrames),
    .readEntry (synFlow 22), .readEntry (synFlow 23), .endRead, .removeEntry, .removeEntry,
    .removeEntry, .endRemove, .sendFlows, .loop (.recv 100 [] [true])]

theorem scan_reported_scanRun :
    ∃ t alert, exec (pipelineStep jsonSerde) (Pipeline.spawned pairDetector SqliteStore.empty)
        scanRun = some t ∧ alert.kind = portScanKind ∧ rowOfAlert alert ∈ t.loop.store.alerts := by
  obtain ⟨t, hrun, hkeys, htask, hchannel, hundelivered, hnow⟩ : ∃ t,
      exec (pipelineStep jsonSerde) (Pipeline.spawned pairDetector SqliteStore.empty)
        scanRun = some t ∧ t.kernel.flows.keys = ∅ ∧ t.task = .selecting ∧
      t.loop.channel = [] ∧ t.undelivered = [] ∧ t.loop.handled.map Arrival.now = [100] :=
    ⟨_, rfl, rfl, rfl, rfl, rfl, rfl⟩
  obtain ⟨arrival, hhandled, harrival⟩ := List.map_eq_singleton_iff.mp hnow
  have hwithin (p : Pipeline) (key : FlowKey) : HandledWithin p t key 100 10 := by
    refine ⟨fun _ => ?_, fun time htime => ?_⟩
    · simp [Pipeline.OnItsWay, hkeys, htask, hchannel, hundelivered, DrainPhase.snapshot]
    · obtain ⟨f, hf, rfl⟩ := Option.map_eq_some_iff.mp htime
      have hflow := flowsSince_subset p t (List.mem_of_find?_eq_some hf)
      rw [hhandled] at hflow
      obtain ⟨a, ha, hmem⟩ := List.mem_flatMap.mp hflow
      obtain rfl := List.mem_singleton.mp ha
      rw [now_of_mem_arrivalFlows hmem, harrival]
      decide
  have hprobe (n : Nat) (port : UInt16) (frame : List UInt8)
      (hsteps : scanRun =
        scanRun.take n ++ .kernel (.frame frame linearFrames) :: scanRun.drop (n + 1))
      (hroom : (exec (pipelineStep jsonSerde) (Pipeline.spawned pairDetector SqliteStore.empty)
        (scanRun.take n)).any fun p => p.kernel.flows.keys.card < 3)
      (hupdate : (frameUpdate linearFrames frame).map Prod.fst = some (synFlow port)) :
      ∃ earlier step later p, ∃ key : FlowKey, scanRun = earlier ++ step :: later ∧
        exec (pipelineStep jsonSerde) (Pipeline.spawned pairDetector SqliteStore.empty)
          earlier = some p ∧ key.srcIp = leasedIp ∧ key.dstPort = port ∧ Probes key p step ∧
        HandledWithin p t key 100 10 := by
    obtain ⟨p, hp, hcard⟩ := (Option.any_eq_true _ _).mp hroom
    refine ⟨_, _, _, p, synFlow port, hsteps, hp, rfl, rfl, ⟨hupdate, Or.inr ?_⟩, hwithin p _⟩
    exact (of_decide_eq_true hcard).trans (by decide)
  obtain ⟨alert, _, hkind, _, _, _, hstored⟩ := scan_reported jsonSerde pairDetector
    SqliteStore.empty 10 2 (by decide) (by decide) List.mem_cons_self scanRun t hrun
    (by rw [hhandled]; exact List.pairwise_singleton _ _) leasedIp {22, 80, 23} (by decide) 100
    (fun port hport => by
      simp only [Finset.mem_insert, Finset.mem_singleton] at hport
      rcases hport with rfl | rfl | rfl
      · exact hprobe 0 22 (synFrame 22) rfl rfl rfl
      · exact hprobe 1 80 (synFrame 80) rfl rfl rfl
      · exact hprobe 4 23 (synFrame 23) rfl rfl rfl)
  have hsucceeds : ∀ step ∈ scanRun, step.Succeeds := by
    simp [scanRun, PipelineStep.Succeeds, LoopStep.Succeeds]
  exact ⟨t, alert, hrun, hkind, hstored hsucceeds⟩

end Lanscope
