import Lanscope.App.Accounting
import Lanscope.App.Discovery
import Lanscope.Storage.Alerts

/-!
# Dashboard and metrics

While it works, the loop keeps a dashboard for the terminal interface, if there is one, and counts
for the metrics exporter. It reads neither back, so both can be laid over the loop as it is. What
they show is compared here with the store and the registry.
-/

namespace Lanscope

open Framework

def maxAlerts : Nat := 200

/-- Snapshot of pipeline state shared with the renderer. -/
structure Dashboard where
  devices : List Device
  /-- Newest first. -/
  alerts : List Alert

namespace Dashboard

def new : Dashboard := ⟨[], []⟩

/-- Replace the device list, most recently seen first. -/
def setDevices (dash : Dashboard) (devices : List Device) : Dashboard :=
  { dash with devices := sortByDesc Device.lastSeen devices }

/-- Push a new alert, evicting the oldest beyond the cap. -/
def pushAlert (dash : Dashboard) (alert : Alert) : Dashboard :=
  { dash with alerts := (alert :: dash.alerts).take maxAlerts }

end Dashboard

/-- The metrics: the counters, which wrap, and what was last put into the gauge. -/
structure Exporter where
  devicesTotal : Option Nat
  flowTotal : Counter → UInt64
  alertsTotal : Severity → UInt64

namespace Exporter

def new : Exporter := ⟨none, fun _ => 0, fun _ => 0⟩

def setDeviceCount (e : Exporter) (n : Nat) : Exporter := { e with devicesTotal := some n }

def recordFlow (e : Exporter) (stats : FlowStats) : Exporter :=
  { e with flowTotal := fun c => e.flowTotal c + UInt64.ofNat (c.of stats) }

def recordAlert (e : Exporter) (severity : Severity) : Exporter :=
  { e with alertsTotal := fun s => e.alertsTotal s + if s = severity then 1 else 0 }

end Exporter

/-- What the loop writes for others to see. Without a terminal interface there is no dashboard. -/
structure Outputs where
  dashboard : Option Dashboard
  exporter : Exporter

def StoreWrite.alert : StoreWrite → Option Alert
  | .upsertDevice _ => none
  | .recordAlert a => some a

def emitAlert (out : Outputs) (alert : Alert) : Outputs where
  dashboard := out.dashboard.map fun dash => dash.pushAlert alert
  exporter := out.exporter.recordAlert alert.severity

/-- Surface the alerts among the writes of a loop body. -/
def emitAlerts (out : Outputs) (writes : List StoreWrite) : Outputs :=
  (writes.filterMap StoreWrite.alert).foldl emitAlert out

def showObservation (now : Int) (s : Agent × Outputs) (obs : Observation) : Agent × Outputs :=
  let (agent, writes) := handleObservation now s.1 obs
  (agent, emitAlerts s.2 writes)

def showFlow (now : Int) (order : List MacAddr) (s : Agent × Outputs) (flow : FlowKey × FlowStats) :
    Agent × Outputs :=
  let out := { s.2 with exporter := s.2.exporter.recordFlow flow.2 }
  let (agent, writes) := handleFlow now order s.1 flow
  (agent, emitAlerts out writes)

/-- The outputs of `handle_event`. -/
def showEvent (agent : Agent) (out : Outputs) (arrival : Arrival) : Outputs :=
  match arrival.event with
  | .discovery e => ((decodeEvent e).foldl (showObservation arrival.now) (agent, out)).2
  | .flows flows => (flows.foldl (showFlow arrival.now arrival.order) (agent, out)).2

/-- Mirror the current device set into the dashboard. -/
def publishDevices (order : List MacAddr) (registry : DeviceRegistry) (dashboard : Option Dashboard) :
    Option Dashboard :=
  dashboard.map fun dash => dash.setDevices (registry.devices.values order)

structure Monitored where
  loop : LoopState
  outputs : Outputs

def Monitored.spawned (agent : Agent) (store : SqliteStore) (headless : Bool) : Monitored where
  loop := LoopState.spawned agent store
  outputs := ⟨if headless then none else some Dashboard.new, Exporter.new⟩

def shown (s : Monitored) : LoopStep → Outputs
  | .recv now order _ =>
    match s.loop.channel with
    | (ev, _) :: _ => showEvent s.loop.agent s.outputs ⟨ev, now, order⟩
    | [] => s.outputs
  | .tick order _ =>
    { dashboard := publishDevices order s.loop.agent.registry s.outputs.dashboard
      exporter := s.outputs.exporter.setDeviceCount s.loop.agent.registry.devices.keys.card }
  -- the last flush is not shown
  | .recvClosed _ _ | .shutdown _ _ | .send _ | .closeSender | .signal => s.outputs

def monitorStep (serde : Serde) (s : Monitored) (step : LoopStep) : Option Monitored :=
  (loopStep serde s.loop step).map fun loop => ⟨loop, shown s step⟩

/-! ## One event -/

/-- The alerts that an event raises, in order. -/
def raisedBy (agent : Agent) (arrival : Arrival) : List Alert :=
  (handleEvent arrival.now arrival.order agent arrival.event).writes.filterMap StoreWrite.alert

/-- The outputs tell of the given alerts and of the given traffic. -/
structure Outputs.Shows (out : Outputs) (tui : Bool) (raised : List Alert) (total : Counter → Nat) :
    Prop where
  present : out.dashboard.isSome = tui
  feed : ∀ dash, out.dashboard = some dash → dash.alerts = raised.reverse.take maxAlerts
  flows : ∀ c, out.exporter.flowTotal c = UInt64.ofNat (total c)
  alerts : ∀ severity, out.exporter.alertsTotal severity =
    UInt64.ofNat (raised.countP fun alert => alert.severity = severity)

private theorem shows_emitAlert {out : Outputs} {tui : Bool} {raised : List Alert}
    {total : Counter → Nat} (h : out.Shows tui raised total) (alert : Alert) :
    (emitAlert out alert).Shows tui (raised ++ [alert]) total where
  present := Option.isSome_map.trans h.present
  feed dash hdash := by
    obtain ⟨old, hold, rfl⟩ := Option.map_eq_some_iff.mp hdash
    rw [Dashboard.pushAlert, h.feed old hold, List.reverse_concat]
    simp only [maxAlerts, List.take_succ_cons, List.take_take]
    rfl
  flows := h.flows
  alerts severity := by
    rw [emitAlert, Exporter.recordAlert, List.countP_append, List.countP_singleton,
      UInt64.ofNat_add, ← h.alerts]
    by_cases hsev : alert.severity = severity
    · simp [hsev]
    · simp [hsev, Ne.symm hsev]

private theorem shows_emitAlerts {out : Outputs} {tui : Bool} {raised : List Alert}
    {total : Counter → Nat} (h : out.Shows tui raised total) (writes : List StoreWrite) :
    (emitAlerts out writes).Shows tui (raised ++ writes.filterMap StoreWrite.alert) total := by
  unfold emitAlerts
  generalize writes.filterMap StoreWrite.alert = alerts
  induction alerts generalizing out raised with
  | nil => simpa using h
  | cons alert alerts ih =>
      rw [List.foldl_cons, ← List.singleton_append, ← List.append_assoc]
      exact ih (shows_emitAlert h alert)

private theorem shows_recordFlow {out : Outputs} {tui : Bool} {raised : List Alert}
    {total : Counter → Nat} (h : out.Shows tui raised total) (stats : FlowStats) :
    Outputs.Shows { out with exporter := out.exporter.recordFlow stats } tui raised
      fun c => total c + c.of stats where
  present := h.present
  feed := h.feed
  flows c := by
    rw [UInt64.ofNat_add, ← h.flows]
    rfl
  alerts := h.alerts

/-- A loop whose body shows what it emits shows what the whole loop emits. -/
private theorem shows_foldl {α : Type} {f : Agent → α → Agent × List StoreWrite}
    {g : Agent × Outputs → α → Agent × Outputs} {w : α → Counter → Nat} {tui : Bool}
    (hg : ∀ s a raised total, s.2.Shows tui raised total → (g s a).1 = (f s.1 a).1 ∧
      (g s a).2.Shows tui (raised ++ (f s.1 a).2.filterMap StoreWrite.alert)
        fun c => total c + w a c)
    (l : List α) {s : Agent × Outputs} {raised : List Alert} {total : Counter → Nat}
    (h : s.2.Shows tui raised total) :
    (l.foldl g s).2.Shows tui (raised ++ (foldEmit f s.1 l).2.filterMap StoreWrite.alert)
      fun c => total c + (l.map fun a => w a c).sum := by
  induction l generalizing s raised total with
  | nil => simpa using h
  | cons a l ih =>
      obtain ⟨hagent, hone⟩ := hg s a raised total h
      have hrest := ih hone
      rw [hagent] at hrest
      simpa only [List.foldl_cons, foldEmit_cons, List.filterMap_append, List.append_assoc,
        List.map_cons, List.sum_cons, Nat.add_assoc] using hrest

theorem shows_showEvent {out : Outputs} {tui : Bool} {raised : List Alert}
    {total : Counter → Nat} (h : out.Shows tui raised total) (agent : Agent) (arrival : Arrival) :
    (showEvent agent out arrival).Shows tui (raised ++ raisedBy agent arrival)
      fun c => total c + brought c arrival := by
  obtain ⟨ev, now, order⟩ := arrival
  cases ev with
  | discovery e =>
      have hfold := shows_foldl (f := handleObservation now) (g := showObservation now)
        (w := fun _ _ => 0) (fun s obs raised total hs => ⟨rfl, shows_emitAlerts hs _⟩)
        (decodeEvent e) (s := (agent, out)) h
      simpa [showEvent, raisedBy, handleEvent, brought] using hfold
  | flows flows =>
      have hfold := shows_foldl (f := handleFlow now order) (g := showFlow now order)
        (w := fun flow c => c.of flow.2)
        (fun s flow raised total hs => ⟨rfl, shows_emitAlerts (shows_recordFlow hs flow.2) _⟩)
        flows (s := (agent, out)) h
      simpa [showEvent, raisedBy, handleEvent, brought, snapshotSum] using hfold

/-- What neither an alert nor a flow changes, an event leaves alone. -/
theorem showEvent_keeps {β : Type} (view : Outputs → β)
    (halert : ∀ out alert, view (emitAlert out alert) = view out)
    (hflow : ∀ out : Outputs, ∀ stats,
      view { out with exporter := out.exporter.recordFlow stats } = view out)
    (agent : Agent) (out : Outputs) (arrival : Arrival) :
    view (showEvent agent out arrival) = view out := by
  have hemit (writes : List StoreWrite) (out : Outputs) : view (emitAlerts out writes) = view out := by
    unfold emitAlerts
    exact List.foldlRecOn (motive := fun o => view o = view out) _ emitAlert rfl
      fun o ho alert _ => (halert o alert).trans ho
  unfold showEvent
  cases arrival.event with
  | discovery e =>
      exact List.foldlRecOn (motive := fun s : Agent × Outputs => view s.2 = view out) _
        (showObservation arrival.now) rfl fun s hs obs _ => (hemit _ s.2).trans hs
  | flows flows =>
      exact List.foldlRecOn (motive := fun s : Agent × Outputs => view s.2 = view out) _
        (showFlow arrival.now arrival.order) rfl
        fun s hs flow _ => (hemit _ _).trans ((hflow s.2 flow.2).trans hs)

/-! ## When alerts are raised -/

/-- The alert that a write records, if it records one, carries the given time. -/
private def StampedAt (now : Int) (w : StoreWrite) : Prop := ∀ alert, w.alert = some alert → alert.ts = now

private theorem ts_of_mem_onDevice {e : Engine} {device : Device} {change : Change} {now : Int}
    {alert : Alert} (h : alert ∈ (e.onDevice device change now).2) : alert.ts = now := by
  simp only [Engine.onDevice, List.mem_flatMap, List.mem_map] at h
  obtain ⟨_, ⟨d, _, rfl⟩, h⟩ := h
  cases d with
  | newDevice =>
      simp only [Detector.onDevice, newDeviceAlerts] at h
      split_ifs at h
      · exact absurd h List.not_mem_nil
      · rw [List.mem_singleton.mp h]
  | portScan p | volumeSpike v => exact absurd h List.not_mem_nil

private theorem ts_of_mem_onFlow {e : Engine} {key : FlowKey} {stats : FlowStats} {now : Int}
    {alert : Alert} (h : alert ∈ (e.onFlow key stats now).2) : alert.ts = now := by
  simp only [Engine.onFlow, List.mem_flatMap, List.mem_map] at h
  obtain ⟨_, ⟨d, _, rfl⟩, h⟩ := h
  cases d with
  | newDevice => exact absurd h List.not_mem_nil
  | portScan p =>
      simp only [Detector.onFlow, PortScanDetector.onFlow] at h
      split_ifs at h
      · rw [List.mem_singleton.mp h, portScanAlert]
      · exact absurd h List.not_mem_nil
  | volumeSpike v =>
      simp only [Detector.onFlow, VolumeSpikeDetector.onFlow] at h
      split at h
      · split_ifs at h
        · rw [List.mem_singleton.mp h, volumeSpikeAlert]
        · exact absurd h List.not_mem_nil
      · exact absurd h List.not_mem_nil

/-- An observation raises what the detectors say about its device. -/
theorem mem_onDevice_of_handleObservation {now : Int} {agent : Agent} {obs : Observation}
    {w : StoreWrite} (hw : w ∈ (handleObservation now agent obs).2) {alert : Alert}
    (halert : w.alert = some alert) :
    ∃ device change, alert ∈ (agent.anomaly.onDevice device change now).2 := by
  by_cases hmac : obs.mac = zeroMac
  · rw [handleObservation_zero now agent obs hmac] at hw
    exact absurd hw List.not_mem_nil
  · obtain ⟨_, hwrites⟩ := (handleObservation_spec now agent obs hmac).2 _ rfl
    generalize (if (agent.registry.get obs.mac).isSome then Change.updated else .newDevice) = change
      at hwrites
    rw [hwrites, List.mem_append] at hw
    cases hw with
    | inl hrow =>
        split_ifs at hrow
        · obtain rfl := List.mem_singleton.mp hrow
          exact absurd halert (by simp [StoreWrite.alert])
        · exact absurd hrow List.not_mem_nil
    | inr hraised =>
        obtain ⟨b, hb, rfl⟩ := List.mem_map.mp hraised
        obtain rfl := Option.some.inj halert
        exact ⟨_, _, hb⟩

private theorem ts_of_mem_raisedBy {agent : Agent} {arrival : Arrival} {alert : Alert}
    (h : alert ∈ raisedBy agent arrival) : alert.ts = arrival.now := by
  obtain ⟨w, hw, halert⟩ := List.mem_filterMap.mp h
  obtain ⟨ev, now, order⟩ := arrival
  cases ev with
  | discovery e =>
      refine (foldEmit_invariant (I := fun _ => True) (P := StampedAt now) (l := decodeEvent e)
        (fun a obs _ _ => ⟨trivial, fun w hw alert halert => ?_⟩)
        (s := agent) trivial).2 w hw alert halert
      obtain ⟨device, change, hraised⟩ := mem_onDevice_of_handleObservation hw halert
      exact ts_of_mem_onDevice hraised
  | flows flows =>
      refine (foldEmit_invariant (I := fun _ => True) (P := StampedAt now) (l := flows)
        (fun a flow _ _ => ⟨trivial, fun w hw alert halert => ?_⟩)
        (s := agent) trivial).2 w hw alert halert
      obtain ⟨b, hb, rfl⟩ := List.mem_map.mp hw
      obtain rfl := Option.some.inj halert
      exact ts_of_mem_onFlow hb

/-! ## Alerts in the store -/

/-- The alert that a write puts into the store, if it puts one. -/
def saved (w : StoreWrite × Bool) : Option Alert := if w.2 then w.1.alert else none

/-- Whether the write would have recorded an alert of the severity, but failed. -/
def refusedAlert (severity : Severity) (w : StoreWrite × Bool) : Bool :=
  !w.2 && w.1.alert.any fun alert => alert.severity = severity

theorem alerts_writeAll (serde : Serde) (ws : List (StoreWrite × Bool)) (store : SqliteStore) :
    (store.writeAll serde ws).alerts = store.alerts ++ (ws.filterMap saved).map rowOfAlert := by
  induction ws generalizing store with
  | nil => simp [SqliteStore.writeAll]
  | cons w ws ih =>
      have hrest := ih (store.write serde w)
      rw [SqliteStore.writeAll, List.foldl_cons, ← SqliteStore.writeAll, hrest]
      obtain ⟨w, ok⟩ := w
      cases ok with
      | false => rfl
      | true =>
          cases w with
          | upsertDevice d => simp [SqliteStore.write, saved, StoreWrite.alert]
          | recordAlert a =>
              simp [SqliteStore.write, SqliteStore.recordAlert, saved, StoreWrite.alert, rowOfAlert]

private theorem saved_sublist (ws : List (StoreWrite × Bool)) :
    (ws.filterMap saved).Sublist (ws.filterMap fun w => w.1.alert) := by
  induction ws with
  | nil => exact List.Sublist.slnil
  | cons w ws ih =>
      obtain ⟨w, ok⟩ := w
      rw [List.filterMap_cons, List.filterMap_cons, saved]
      cases w.alert with
      | none => simpa using ih
      | some a =>
          cases ok with
          | false => exact ih.cons a
          | true => exact ih.cons_cons a

private theorem saved_of_succeeding {ws : List (StoreWrite × Bool)} (hok : ∀ w ∈ ws, w.2 = true) :
    ws.filterMap saved = ws.filterMap fun w => w.1.alert :=
  List.filterMap_congr fun w hw => by rw [saved, hok w hw, if_pos rfl]

private theorem countP_alerts (severity : Severity) (ws : List (StoreWrite × Bool)) :
    (ws.filterMap fun w => w.1.alert).countP (fun a => a.severity = severity) =
      (ws.filterMap saved).countP (fun a => a.severity = severity) +
        ws.countP (refusedAlert severity) := by
  induction ws with
  | nil => rfl
  | cons w ws ih =>
      obtain ⟨w, ok⟩ := w
      cases halert : w.alert with
      | none => simpa [saved, refusedAlert, halert] using ih
      | some a =>
          cases ok with
          | false =>
              simp only [List.filterMap_cons, saved, halert, Bool.false_eq_true, if_false,
                List.countP_cons, ih, refusedAlert]
              simp only [Bool.not_false, Bool.true_and, Option.any_some]
              omega
          | true =>
              simp only [List.filterMap_cons, saved, halert, if_true, List.countP_cons, ih,
                refusedAlert]
              simp only [Bool.not_true, Bool.false_and, Bool.false_eq_true, if_false]
              omega

private theorem alerts_zip {writes : List StoreWrite} {outcomes : List Bool}
    (hlen : outcomes.length = writes.length) :
    (writes.zip outcomes).filterMap (fun w => w.1.alert) = writes.filterMap StoreWrite.alert := by
  rw [← Function.comp_def StoreWrite.alert, ← List.filterMap_map, List.map_fst_zip hlen.ge]

/-! ## Runs -/

/-- The alerts raised by a history of events, in order. -/
def raised (agent : Agent) (history : List Arrival) : List Alert :=
  trace agentStep raisedBy agent history

private theorem alerts_flushed {serde : Serde} {s : LoopState} {order : List MacAddr}
    {outcomes : List Bool} {store : SqliteStore} (h : flushed serde s order outcomes = some store) :
    store.alerts = s.store.alerts := by
  obtain ⟨_, hstore⟩ := Option.ite_none_right_eq_some.mp h
  obtain rfl := Option.some.inj hstore
  have hnone : ((flushAll order s.agent.registry).zip outcomes).filterMap saved = [] := by
    rw [List.filterMap_eq_nil_iff]
    intro w hw
    obtain ⟨d, _, hd⟩ := List.mem_map.mp (List.of_mem_zip hw).1
    rw [saved, ← hd, StoreWrite.alert, ite_self]
  rw [alerts_writeAll, hnone, List.map_nil, List.append_nil]

/-- A step of the loop receives an event, or it raises nothing and handles nothing. -/
private theorem loopStep_cases {serde : Serde} {s t : LoopState} {step : LoopStep}
    (h : loopStep serde s step = some t) :
    (∃ now order outcomes ev mark rest, step = .recv now order outcomes ∧
      s.channel = (ev, mark) :: rest ∧ agentStep s.agent ⟨ev, now, order⟩ = some t.agent ∧
      t.handled = s.handled ++ [⟨ev, now, order⟩] ∧
      outcomes.length = (handleEvent now order s.agent ev).writes.length ∧
      t.store = s.store.writeAll serde
        ((handleEvent now order s.agent ev).writes.zip outcomes)) ∨
    (∀ now order outcomes, step ≠ .recv now order outcomes) ∧ t.agent = s.agent ∧
      t.handled = s.handled ∧ t.store.alerts = s.store.alerts := by
  cases step with
  | send ev =>
      obtain ⟨_, hhandled, hagent, hstore, _⟩ := loopStep_send h
      exact Or.inr ⟨by simp, hagent, hhandled, congrArg _ hstore⟩
  | closeSender | signal =>
      obtain rfl := Option.some.inj h
      exact Or.inr ⟨by simp, rfl, rfl, rfl⟩
  | recv now order outcomes =>
      simp only [loopStep] at h
      split at h
      · next ev mark rest _ hchannel =>
        obtain ⟨agent, hagent, h⟩ := Option.bind_eq_some_iff.mp h
        obtain ⟨hlen, hsome⟩ := Option.ite_none_right_eq_some.mp h
        obtain rfl := Option.some.inj hsome
        exact Or.inl ⟨now, order, outcomes, ev, mark, rest, rfl, hchannel, hagent, rfl, hlen, rfl⟩
      · exact absurd h (by simp)
  | recvClosed order outcomes | shutdown order outcomes =>
      obtain ⟨_, hreturn⟩ := Option.ite_none_right_eq_some.mp h
      obtain ⟨store, hstore, rfl⟩ := Option.map_eq_some_iff.mp hreturn
      exact Or.inr ⟨by simp, rfl, rfl, alerts_flushed hstore⟩
  | tick order outcomes =>
      obtain ⟨_, hflush⟩ := Option.ite_none_right_eq_some.mp h
      obtain ⟨store, hstore, rfl⟩ := Option.map_eq_some_iff.mp hflush
      exact Or.inr ⟨by simp, rfl, rfl, alerts_flushed hstore⟩

private theorem shows_shown {s : Monitored} {tui : Bool} {raised : List Alert}
    {total : Counter → Nat} (h : s.outputs.Shows tui raised total) {step : LoopStep}
    (hstep : ∀ now order outcomes, step ≠ .recv now order outcomes) :
    (shown s step).Shows tui raised total := by
  cases step with
  | recv now order outcomes => exact absurd rfl (hstep now order outcomes)
  | tick order outcomes =>
      refine ⟨Option.isSome_map.trans h.present, fun dash hdash => ?_, h.flows, h.alerts⟩
      obtain ⟨old, hold, rfl⟩ := Option.map_eq_some_iff.mp hdash
      exact h.feed old hold
  | recvClosed | shutdown | send | closeSender | signal => exact h

/-- The agent of the loop is what the handled events make of the first one. -/
def MonitorFolded (agent : Agent) (s : Monitored) : Prop :=
  exec agentStep agent s.loop.handled = some s.loop.agent

private theorem monitorFolded_step {serde : Serde} {agent : Agent} (s : Monitored) (step : LoopStep)
    (t : Monitored) (hs : MonitorFolded agent s) (h : monitorStep serde s step = some t) :
    MonitorFolded agent t := by
  obtain ⟨loop, hloop, rfl⟩ := Option.map_eq_some_iff.mp h
  rcases loopStep_cases hloop with
    ⟨now, order, outcomes, ev, mark, rest, rfl, _, hagent, hhandled, _⟩ | ⟨_, hagent, hhandled, _⟩
  · rw [MonitorFolded, hhandled]
    exact exec_append_iff.mpr ⟨_, hs, exec_cons_iff.mpr ⟨_, hagent, rfl⟩⟩
  · rw [MonitorFolded, hhandled, hagent]
    exact hs

/-- What holds of a monitored loop after the given steps. -/
structure MonitorOk (agent : Agent) (store : SqliteStore) (tui : Bool) (steps : List LoopStep)
    (s : Monitored) : Prop where
  folded : MonitorFolded agent s
  shows : s.outputs.Shows tui (raised agent s.loop.handled)
    fun c => (s.loop.handled.map (brought c)).sum
  stored : ∃ stored : List Alert, stored.Sublist (raised agent s.loop.handled) ∧
    ((∀ step ∈ steps, step.Succeeds) → stored = raised agent s.loop.handled) ∧
    s.loop.store.alerts = store.alerts ++ stored.map rowOfAlert

theorem monitorOk_spawned (agent : Agent) (store : SqliteStore) (headless : Bool) :
    MonitorOk agent store (!headless) [] (Monitored.spawned agent store headless) where
  folded := rfl
  shows := by
    refine ⟨by cases headless <;> rfl, fun dash hdash => ?_, fun _ => rfl, fun _ => rfl⟩
    cases headless with
    | false => exact (Option.some.inj hdash) ▸ rfl
    | true => exact absurd hdash (by simp [Monitored.spawned])
  stored := ⟨[], List.Sublist.slnil, fun _ => rfl, (List.append_nil _).symm⟩

theorem monitorOk_step {serde : Serde} {agent : Agent} {store : SqliteStore} {tui : Bool}
    (steps : List LoopStep) (s : Monitored) (step : LoopStep) (t : Monitored)
    (hs : MonitorOk agent store tui steps s) (h : monitorStep serde s step = some t) :
    MonitorOk agent store tui (steps ++ [step]) t := by
  have hfolded := monitorFolded_step s step t hs.folded h
  obtain ⟨loop, hloop, rfl⟩ := Option.map_eq_some_iff.mp h
  obtain ⟨stored, hsub, hall, hrows⟩ := hs.stored
  rcases loopStep_cases hloop with
    ⟨now, order, outcomes, ev, mark, rest, rfl, hchannel, hagent, hhandled, hlen, hstore⟩ |
    ⟨hstep, hagent, hhandled, halerts⟩
  · have hraised : raised agent loop.handled =
        raised agent s.loop.handled ++ raisedBy s.loop.agent ⟨ev, now, order⟩ := by
      rw [hhandled, raised, trace_concat hs.folded]
      rfl
    have hzip : raisedBy s.loop.agent ⟨ev, now, order⟩ =
        ((handleEvent now order s.loop.agent ev).writes.zip outcomes).filterMap
          fun w => w.1.alert := (alerts_zip hlen).symm
    refine ⟨hfolded, ?_, stored ++ ((handleEvent now order s.loop.agent ev).writes.zip
      outcomes).filterMap saved, ?_, fun hok => ?_, ?_⟩
    · have hshows := shows_showEvent hs.shows s.loop.agent ⟨ev, now, order⟩
      simp only [shown, hchannel, hraised]
      simpa only [hhandled, List.map_append, List.map_singleton, List.sum_append,
        List.sum_singleton] using hshows
    · rw [hraised, hzip]
      exact hsub.append (saved_sublist _)
    · have hone : LoopStep.Succeeds (.recv now order outcomes) := hok _ (by simp)
      rw [hall fun p hp => hok p (List.mem_append_left _ hp), hraised, hzip,
        saved_of_succeeding fun w hw => hone w.2 (List.of_mem_zip hw).2]
    · rw [hstore, alerts_writeAll, hrows, List.append_assoc, List.map_append]
  · refine ⟨hfolded, ?_, stored, ?_, fun hok => ?_, ?_⟩
    · rw [hhandled]
      exact shows_shown hs.shows hstep
    · rwa [hhandled]
    · rw [hhandled]
      exact hall fun p hp => hok p (List.mem_append_left _ hp)
    · rw [halerts, hrows]

section Runs

variable {serde : Serde} {agent : Agent} {store : SqliteStore} {headless : Bool}
  {steps : List LoopStep} {s : Monitored}

/-- The dashboard and the metrics leave the loop as it is. -/
theorem exec_monitored {r : Monitored} (hrun : exec (monitorStep serde) r steps = some s) :
    exec (loopStep serde) r.loop steps = some s.loop := by
  have hstep (s : Monitored) (loop : LoopState) (step : LoopStep) (t : Monitored)
      (hs : s.loop = loop) (h : monitorStep serde s step = some t) :
      ∃ next, exec (loopStep serde) loop [step] = some next ∧ t.loop = next := by
    obtain ⟨next, hnext, rfl⟩ := Option.map_eq_some_iff.mp h
    exact ⟨next, hs ▸ exec_cons_iff.mpr ⟨next, hnext, rfl⟩, rfl⟩
  obtain ⟨loop, hloop, rfl⟩ := exec_simulation hstep rfl hrun
  rwa [trace_of_labels (fun step => [step]) hrun, List.flatMap_singleton'] at hloop

/-- Every run of the loop can be monitored. -/
theorem monitored_of_exec (headless : Bool) {l : LoopState}
    (hrun : exec (loopStep serde) (LoopState.spawned agent store) steps = some l) :
    ∃ s, exec (monitorStep serde) (Monitored.spawned agent store headless) steps = some s ∧
      s.loop = l := by
  have hstep (l : LoopState) (s : Monitored) (step : LoopStep) (next : LoopState) (hs : s.loop = l)
      (h : loopStep serde l step = some next) :
      ∃ t, exec (monitorStep serde) s [step] = some t ∧ t.loop = next := by
    refine ⟨⟨next, shown s step⟩, exec_cons_iff.mpr ⟨_, ?_, rfl⟩, rfl⟩
    rw [monitorStep, hs, h, Option.map_some]
  have hspawned : (Monitored.spawned agent store headless).loop = LoopState.spawned agent store := rfl
  obtain ⟨s, hs, hloop⟩ := exec_simulation hstep hspawned hrun
  rw [trace_of_labels (fun step => [step]) hrun, List.flatMap_singleton'] at hs
  exact ⟨s, hs, hloop⟩

theorem monitorOk_of_exec
    (hrun : exec (monitorStep serde) (Monitored.spawned agent store headless) steps = some s) :
    MonitorOk agent store (!headless) steps s :=
  exec_history monitorOk_step (monitorOk_spawned agent store headless) hrun

end Runs

theorem ts_of_mem_raised {agent : Agent} {history : List Arrival} {alert : Alert}
    (h : alert ∈ raised agent history) : ∃ arrival ∈ history, alert.ts = arrival.now := by
  obtain ⟨a, arrival, harrival, halert⟩ := of_mem_trace h
  exact ⟨arrival, harrival, ts_of_mem_raisedBy halert⟩

theorem pairwise_raised {agent later : Agent} {history : List Arrival}
    (hrun : exec agentStep agent history = some later)
    (hclock : history.Pairwise fun a b => a.now ≤ b.now) :
    (raised agent history).Pairwise fun a b => a.ts ≤ b.ts := by
  induction history generalizing agent with
  | nil => exact List.Pairwise.nil
  | cons arrival history ih =>
      obtain ⟨m, hm, hrest⟩ := exec_cons_iff.mp hrun
      rw [List.pairwise_cons] at hclock
      rw [raised, trace, hm, Option.elim_some, List.pairwise_append]
      refine ⟨?_, ih hrest hclock.2, ?_⟩
      · exact List.pairwise_of_forall_mem_list fun a ha b hb =>
          ((ts_of_mem_raisedBy ha).trans (ts_of_mem_raisedBy hb).symm).le
      · intro a ha b hb
        obtain ⟨later, hlater, hts⟩ := ts_of_mem_raised hb
        rw [ts_of_mem_raisedBy ha, hts]
        exact hclock.1 later hlater

/-! ## The feed and the table of alerts -/

/-- With a terminal interface, the feed holds the newest of all alerts raised since the start. The
store gained a part of these alerts, or all of them if no write failed. Unless the clock goes back,
it lists them newest first before what it held already, and if no write failed the feed is the
beginning of that list. -/
theorem feed_agrees (serde : Serde) (agent : Agent) (store : SqliteStore) (steps : List LoopStep)
    (s : Monitored)
    (hrun : exec (monitorStep serde) (Monitored.spawned agent store false) steps = some s) :
    ∃ dash stored, s.outputs.dashboard = some dash ∧
      dash.alerts = (raised agent s.loop.handled).reverse.take maxAlerts ∧
      stored.Sublist (raised agent s.loop.handled) ∧
      ((∀ step ∈ steps, step.Succeeds) → stored = raised agent s.loop.handled) ∧
      (s.loop.handled.Pairwise (fun a b => a.now ≤ b.now) →
        (∀ row ∈ store.alerts, ∀ arrival ∈ s.loop.handled, row.ts ≤ arrival.now) →
        (∀ limit, s.loop.store.recentAlerts limit =
          sqlLimit limit.toInt64 (stored.reverse ++ store.alertsByTime)) ∧
        ((∀ step ∈ steps, step.Succeeds) → dash.alerts <+: s.loop.store.recentAlerts 200)) := by
  have hs := monitorOk_of_exec hrun
  obtain ⟨dash, hdash⟩ := Option.isSome_iff_exists.mp hs.shows.present
  obtain ⟨stored, hsub, hall, hrows⟩ := hs.stored
  have hfeed := hs.shows.feed dash hdash
  refine ⟨dash, stored, hdash, hfeed, hsub, hall, fun hclock hold => ?_⟩
  have hlist (limit : UInt64) : s.loop.store.recentAlerts limit =
      sqlLimit limit.toInt64 (stored.reverse ++ store.alertsByTime) := by
    rw [SqliteStore.recentAlerts, SqliteStore.alertsByTime_append hrows
      ((pairwise_raised hs.folded hclock).sublist hsub)]
    intro row hrow alert halert
    obtain ⟨arrival, harrival, hts⟩ := ts_of_mem_raised (hsub.subset halert)
    exact (hold row hrow arrival harrival).trans_eq hts.symm
  refine ⟨hlist, fun hok => ?_⟩
  rw [hlist, hfeed, hall hok]
  exact (List.prefix_append _ _).take maxAlerts

/-- An event is received, and then the devices are published. -/
def watchedRun : List LoopStep :=
  [.send (.discovery (Event.holding .arp laptop leasedIp [])), .recv 100 [] [true, true],
    .tick [laptop] [true]]

theorem feed_agrees_watchedRun :
    ∃ s dash, exec (monitorStep jsonSerde) (Monitored.spawned Agent.initial SqliteStore.empty false)
        watchedRun = some s ∧ s.outputs.dashboard = some dash ∧
      dash.alerts = (raised Agent.initial s.loop.handled).reverse.take maxAlerts := by
  obtain ⟨s, hrun⟩ : ∃ s, exec (monitorStep jsonSerde)
    (Monitored.spawned Agent.initial SqliteStore.empty false) watchedRun = some s := ⟨_, rfl⟩
  obtain ⟨dash, _, hdash, hfeed, _⟩ :=
    feed_agrees jsonSerde Agent.initial SqliteStore.empty watchedRun s hrun
  exact ⟨s, dash, hrun, hdash, hfeed⟩

/-! ## The metrics -/

/-- The alerts of a severity that the store holds. -/
def SqliteStore.alertsOf (store : SqliteStore) (severity : Severity) : Nat :=
  store.alerts.countP fun row => row.severity = severity.asStr

/-- How many alerts of a severity the step fails to store. -/
def refusedAlerts (severity : Severity) (s : LoopState) : LoopStep → Nat
  | .recv now order outcomes =>
    match s.channel with
    | (ev, _) :: _ => ((handleEvent now order s.agent ev).writes.zip outcomes).countP
        (refusedAlert severity)
    | [] => 0
  | _ => 0

/-- How many alerts of a severity the step raises. -/
def raisedAlerts (severity : Severity) (s : LoopState) : LoopStep → Nat
  | .recv now order _ =>
    match s.channel with
    | (ev, _) :: _ => (raisedBy s.agent ⟨ev, now, order⟩).countP fun a => a.severity = severity
    | [] => 0
  | _ => 0

private theorem asStr_injective : Function.Injective Severity.asStr := by
  intro a b h
  have hparse := congrArg Severity.fromStr h
  rw [Severity.fromStr_asStr, Severity.fromStr_asStr] at hparse
  exact Except.ok.inj hparse

private theorem alertsOf_append {store later : SqliteStore} {new : List Alert}
    (h : later.alerts = store.alerts ++ new.map rowOfAlert) (severity : Severity) :
    later.alertsOf severity =
      store.alertsOf severity + new.countP fun a => a.severity = severity := by
  rw [SqliteStore.alertsOf, h, List.countP_append, List.countP_map, SqliteStore.alertsOf]
  congr 2
  funext a
  simp only [Function.comp_apply, rowOfAlert, asStr_injective.eq_iff]

section Metrics

variable {serde : Serde} {agent : Agent} {store : SqliteStore} (severity : Severity)

/-- How many alerts of a severity were raised so far. -/
private def raisedSoFar (agent : Agent) (s : Monitored) : Nat :=
  (raised agent s.loop.handled).countP fun alert => alert.severity = severity

private theorem raisedSoFar_step (s : Monitored) (step : LoopStep) (t : Monitored)
    (hs : exec agentStep agent s.loop.handled = some s.loop.agent)
    (h : monitorStep serde s step = some t) :
    raisedSoFar severity agent t + 0 =
      raisedSoFar severity agent s + raisedAlerts severity s.loop step := by
  obtain ⟨loop, hloop, rfl⟩ := Option.map_eq_some_iff.mp h
  rcases loopStep_cases hloop with
    ⟨now, order, outcomes, ev, mark, rest, rfl, hchannel, _, hhandled, _⟩ | ⟨hstep, _, hhandled, _⟩
  · have hraised : raised agent loop.handled =
        raised agent s.loop.handled ++ raisedBy s.loop.agent ⟨ev, now, order⟩ := by
      rw [hhandled, raised, trace_concat hs]
      rfl
    simp only [raisedSoFar, raisedAlerts, hchannel, hraised, List.countP_append, Nat.add_zero]
  · have hsame : raisedSoFar severity agent ⟨loop, shown s step⟩ = raisedSoFar severity agent s :=
      congrArg (fun history => (raised agent history).countP _) hhandled
    cases step with
    | recv now order outcomes => exact absurd rfl (hstep now order outcomes)
    | _ => exact hsame

/-- The store gains what is raised and not refused. -/
private theorem alertsOf_step (s : Monitored) (step : LoopStep) (t : Monitored)
    (h : monitorStep serde s step = some t) :
    t.loop.store.alertsOf severity + refusedAlerts severity s.loop step =
      s.loop.store.alertsOf severity + raisedAlerts severity s.loop step := by
  obtain ⟨loop, hloop, rfl⟩ := Option.map_eq_some_iff.mp h
  rcases loopStep_cases hloop with
    ⟨now, order, outcomes, ev, mark, rest, rfl, hchannel, _, _, hlen, hstore⟩ |
    ⟨hstep, _, _, halerts⟩
  · have hrows : loop.store.alertsOf severity = s.loop.store.alertsOf severity + _ :=
      alertsOf_append (by rw [hstore, alerts_writeAll]) severity
    have hcount := countP_alerts severity
      ((handleEvent now order s.loop.agent ev).writes.zip outcomes)
    rw [alerts_zip hlen] at hcount
    simp only [refusedAlerts, raisedAlerts, hchannel, raisedBy]
    omega
  · have hsame : loop.store.alertsOf severity = s.loop.store.alertsOf severity :=
      congrArg (List.countP _) halerts
    cases step with
    | recv now order outcomes => exact absurd rfl (hstep now order outcomes)
    | _ => exact hsame

private theorem card_le_of_agentStep {agent later : Agent} {arrival : Arrival}
    (h : agentStep agent arrival = some later) :
    agent.registry.devices.keys.card ≤ later.registry.devices.keys.card := by
  obtain ⟨_, hlater⟩ := Option.ite_none_right_eq_some.mp h
  obtain rfl := Option.some.inj hlater
  refine Finset.card_le_card fun mac hmac => ?_
  rw [Finmap.mem_keys, ← Finmap.lookup_isSome, Option.isSome_iff_exists] at hmac ⊢
  obtain ⟨d, hd⟩ := hmac
  obtain ⟨d', hd', _⟩ := (kept_handleEvent arrival.now arrival.order agent arrival.event).1 mac d hd
  exact ⟨d', hd'⟩

/-- The gauge never shows more devices than are known. -/
def GaugeOk (s : Monitored) : Prop :=
  ∀ n, s.outputs.exporter.devicesTotal = some n → n ≤ s.loop.agent.registry.devices.keys.card

/-- Nor does it ever go down. -/
private theorem gauge_step (s : Monitored) (step : LoopStep) (t : Monitored) (hs : GaugeOk s)
    (h : monitorStep serde s step = some t) :
    GaugeOk t ∧ ∀ n, s.outputs.exporter.devicesTotal = some n →
      ∃ m, t.outputs.exporter.devicesTotal = some m ∧ n ≤ m := by
  obtain ⟨loop, hloop, rfl⟩ := Option.map_eq_some_iff.mp h
  have hcard : s.loop.agent.registry.devices.keys.card ≤ loop.agent.registry.devices.keys.card := by
    rcases loopStep_cases hloop with ⟨_, _, _, _, _, _, _, _, hagent, _⟩ | ⟨_, hagent, _⟩
    · exact card_le_of_agentStep hagent
    · exact (congrArg (fun agent : Agent => agent.registry.devices.keys.card) hagent).ge
  have hshown : (shown s step).exporter.devicesTotal = s.outputs.exporter.devicesTotal ∨
      (shown s step).exporter.devicesTotal = some s.loop.agent.registry.devices.keys.card := by
    cases step with
    | recv now order outcomes =>
        simp only [shown]
        split
        · exact Or.inl (showEvent_keeps (fun out => out.exporter.devicesTotal) (fun _ _ => rfl)
            (fun _ _ => rfl) _ _ _)
        · exact Or.inl rfl
    | tick order outcomes => exact Or.inr rfl
    | _ => exact Or.inl rfl
  cases hshown with
  | inl hsame =>
      refine ⟨fun n hn => (hs n (hsame ▸ hn)).trans hcard, fun n hn => ⟨n, hsame.trans hn, le_rfl⟩⟩
  | inr hset =>
      refine ⟨fun n hn => ?_, fun n hn => ⟨_, hset, hs n hn⟩⟩
      obtain rfl := Option.some.inj (hset.symm.trans hn)
      exact hcard

end Metrics

/-- The metrics agree with the devices and with the store. The counters count modulo `2^64`. -/
theorem metrics_reconcile (serde : Serde) (agent : Agent) (store : SqliteStore) (headless : Bool)
    (earlier later : List LoopStep) (r s : Monitored)
    (hearlier : exec (monitorStep serde) (Monitored.spawned agent store headless) earlier = some r)
    (hlater : exec (monitorStep serde) r later = some s) :
    (∀ c, ∃ total, s.outputs.exporter.flowTotal c = UInt64.ofNat total ∧
      total + devicesHold c agent =
        devicesHold c s.loop.agent + runSum agentStep (stray c) agent s.loop.handled +
          runSum agentStep (clipped c) agent s.loop.handled) ∧
    (∀ severity, ∃ total, s.outputs.exporter.alertsTotal severity = UInt64.ofNat total ∧
      total + store.alertsOf severity =
        s.loop.store.alertsOf severity +
          runSum (monitorStep serde) (fun s => refusedAlerts severity s.loop)
            (Monitored.spawned agent store headless) (earlier ++ later)) ∧
    GaugeOk s ∧ ∀ n, r.outputs.exporter.devicesTotal = some n →
      ∃ m, s.outputs.exporter.devicesTotal = some m ∧ n ≤ m := by
  have hrun := exec_append_iff.mpr ⟨r, hearlier, hlater⟩
  have hs := monitorOk_of_exec hrun
  refine ⟨fun c => ⟨_, hs.shows.flows c, ?_⟩, fun severity => ⟨_, hs.shows.alerts severity, ?_⟩, ?_⟩
  · have hdevices := (devicesHold_exec c hs.folded).1
    omega
  · have hraised : raisedSoFar severity agent s + runSum (monitorStep serde) (fun _ _ => 0)
          (Monitored.spawned agent store headless) (earlier ++ later) =
        0 + runSum (monitorStep serde) (fun s => raisedAlerts severity s.loop)
          (Monitored.spawned agent store headless) (earlier ++ later) :=
      exec_ledger_of_invariant (I := fun s : Monitored => MonitorFolded agent s)
        monitorFolded_step (raisedSoFar_step severity) rfl hrun
    have hrows := exec_ledger (alertsOf_step severity) hrun
    have hstore : (Monitored.spawned agent store headless).loop.store = store := rfl
    have hnone := runSum_of_labels (fun _ => 0) hrun
    simp only [List.map_const', List.sum_replicate, smul_zero] at hnone
    rw [hnone, raisedSoFar] at hraised
    rw [hstore] at hrows
    omega
  · have hgauge : GaugeOk (Monitored.spawned agent store headless) :=
      fun n hn => absurd hn (by simp [Monitored.spawned, Exporter.new])
    have hr := exec_invariant (fun s step t hs h => (gauge_step s step t hs h).1) hgauge hearlier
    exact exec_invariant (I := fun s : Monitored => GaugeOk s ∧ ∀ n,
      r.outputs.exporter.devicesTotal = some n →
        ∃ m, s.outputs.exporter.devicesTotal = some m ∧ n ≤ m)
      (fun s step t hs h => ⟨(gauge_step s step t hs.1 h).1, fun n hn => by
        obtain ⟨m, hm, hnm⟩ := hs.2 n hn
        obtain ⟨k, hk, hmk⟩ := (gauge_step s step t hs.1 h).2 m hm
        exact ⟨k, hk, hnm.trans hmk⟩⟩)
      ⟨hr, fun n hn => ⟨n, hn, le_rfl⟩⟩ hlater

theorem metrics_reconcile_watchedRun :
    ∃ s, exec (monitorStep jsonSerde) (Monitored.spawned Agent.initial SqliteStore.empty false)
        watchedRun = some s ∧ GaugeOk s :=
  ⟨_, rfl, (metrics_reconcile jsonSerde Agent.initial SqliteStore.empty false [] watchedRun _ _ rfl
    rfl).2.2.1⟩

/-! ## The device table -/

/-- What `list` shows of the store, most recently seen first. -/
def listDevices (serde : Serde) (store : SqliteStore) (rows : List Str) : List Device :=
  sortByDesc Device.lastSeen (store.loadDevices serde rows)

/-- A step that does not publish the devices. -/
def LoopStep.Quiet : LoopStep → Prop
  | .tick _ _ => False
  | .send _ | .closeSender | .signal | .recv _ _ _ | .recvClosed _ _ | .shutdown _ _ => True

private theorem devices_shown (s : Monitored) {step : LoopStep} (hquiet : step.Quiet) :
    (shown s step).dashboard.map Dashboard.devices = s.outputs.dashboard.map Dashboard.devices := by
  cases step with
  | tick => exact hquiet.elim
  | recv now order outcomes =>
      simp only [shown]
      split
      · refine showEvent_keeps (fun out => out.dashboard.map Dashboard.devices)
          (fun out alert => ?_) (fun _ _ => rfl) _ _ _
        rw [emitAlert, Option.map_map]
        rfl
      · rfl
  | recvClosed | shutdown | send | closeSender | signal => rfl

/-- The rows of a store that a registry was flushed into, in any order, are its records. -/
private theorem loadDevices_perm {serde : Serde} {store : SqliteStore} {registry : DeviceRegistry}
    (hkeys : KeysCanonical store) {rows : List Str} (hrows : store.devices.IterOrder rows)
    (hseed : seedRegistry DeviceRegistry.empty (store.loadDevices serde rows) = registry)
    {order : List MacAddr} (horder : registry.devices.IterOrder order) :
    (store.loadDevices serde rows).Perm (registry.devices.values order) := by
  have hget (mac : MacAddr) : registry.devices.lookup mac =
      (store.devices.lookup (fmtMac mac)).map (SqliteStore.deviceOfRow serde (fmtMac mac)) := by
    rw [← hseed]
    exact get_seedRegistry serde hkeys hrows mac
  have hcanonical : rows ∈ Set.range (List.map fmtMac) := by
    rw [Set.range_list_map]
    intro key hkey
    obtain ⟨mac, rfl⟩ := hkeys key ((hrows.mem_iff key).mp hkey)
    exact ⟨mac, rfl⟩
  obtain ⟨macs, rfl⟩ := hcanonical
  have hmacs : registry.devices.IterOrder macs := by
    refine ⟨List.Nodup.of_map fmtMac hrows.1, ?_⟩
    ext mac
    rw [List.mem_toFinset, ← List.mem_map_of_injective fmtMac_injective, hrows.mem_iff,
      Finmap.mem_keys, ← Finmap.lookup_isSome, ← Finmap.lookup_isSome, hget, Option.isSome_map]
  have hload : store.loadDevices serde (macs.map fmtMac) = registry.devices.values macs := by
    rw [SqliteStore.loadDevices, List.filterMap_map, HashMap.values]
    exact List.filterMap_congr fun mac _ => (hget mac).symm
  rw [hload]
  exact HashMap.values_perm hmacs horder

/-- Until the next tick, the table of the dashboard is what `list` shows of the store as the last
tick left it, up to the order of devices seen in the same second. -/
theorem table_agrees (serde : Serde) (hserde : serde.RoundTrip) (history : List SiteStep)
    (agent : Agent) (store : SqliteStore)
    (hsite : exec (siteStep serde) Site.initial history = some ⟨store, some agent⟩)
    (earlier later : List LoopStep) (order : List MacAddr) (outcomes : List Bool)
    (hok : ∀ ok ∈ outcomes, ok = true) (hquiet : ∀ step ∈ later, step.Quiet) (r s t : Monitored)
    (hearlier : exec (monitorStep serde) (Monitored.spawned agent store false) earlier = some r)
    (htick : monitorStep serde r (.tick order outcomes) = some s)
    (hlater : exec (monitorStep serde) s later = some t) :
    ∃ dash, t.outputs.dashboard = some dash ∧ ∀ rows, s.loop.store.devices.IterOrder rows →
      (listDevices serde s.loop.store rows).Perm dash.devices ∧
        (listDevices serde s.loop.store rows).map Device.lastSeen =
          dash.devices.map Device.lastSeen := by
  obtain ⟨loop, hloop, rfl⟩ := Option.map_eq_some_iff.mp htick
  obtain ⟨hrunning, hflush⟩ := Option.ite_none_right_eq_some.mp hloop
  obtain ⟨flushedStore, hstore, rfl⟩ := Option.map_eq_some_iff.mp hflush
  obtain ⟨⟨horder, hlen⟩, hwritten⟩ := Option.ite_none_right_eq_some.mp hstore
  obtain rfl := Option.some.inj hwritten
  -- what the tick published stays
  have hpublished : t.outputs.dashboard.map Dashboard.devices =
      some (sortByDesc Device.lastSeen (r.loop.agent.registry.devices.values order)) := by
    refine exec_history (I := fun steps (t : Monitored) => (∀ step ∈ steps, step.Quiet) →
      t.outputs.dashboard.map Dashboard.devices = _) ?_ (fun _ => ?_) hlater hquiet
    · intro steps s step t ih hstep hquiet
      obtain ⟨loop, _, rfl⟩ := Option.map_eq_some_iff.mp hstep
      rw [devices_shown s (hquiet step (by simp)),
        ih fun p hp => hquiet p (List.mem_append_left _ hp)]
    · obtain ⟨old, hold⟩ := Option.isSome_iff_exists.mp (monitorOk_of_exec hearlier).shows.present
      simp only [shown, publishDevices, hold, Option.map_some, Dashboard.setDevices]
  obtain ⟨dash, hdash, hdevices⟩ := Option.map_eq_some_iff.mp hpublished
  refine ⟨dash, hdash, fun rows hrows => ?_⟩
  -- and the store was flushed from the same registry
  have hsiteOk := exec_invariant (siteOk_step serde) siteOk_initial
    (exec_append_iff.mpr ⟨_, hsite, exec_site (exec_monitored hearlier)⟩)
  obtain ⟨hkeyed, hagrees⟩ := hsiteOk.running _ rfl
  have hseed := seed_flushed hserde hkeyed hagrees horder hlen hok hrows
  have hkeys : KeysCanonical _ :=
    (hagrees.writeAll serde (covers_flushAll horder hkeyed) outcomes).canonical
  have hperm := loadDevices_perm hkeys hrows hseed horder
  rw [hdevices]
  exact ⟨(perm_sortByDesc _ _).trans (hperm.trans (perm_sortByDesc _ _).symm),
    map_sortByDesc_of_perm _ hperm⟩

theorem table_agrees_watchedRun :
    ∃ s dash, exec (monitorStep jsonSerde) (Monitored.spawned Agent.initial SqliteStore.empty false)
        watchedRun = some s ∧ s.outputs.dashboard = some dash ∧
      (listDevices jsonSerde s.loop.store [fmtMac laptop]).Perm dash.devices := by
  obtain ⟨r, s, hearlier, htick, hrows⟩ : ∃ r s,
      exec (monitorStep jsonSerde) (Monitored.spawned Agent.initial SqliteStore.empty false)
        (watchedRun.take 2) = some r ∧
      monitorStep jsonSerde r (.tick [laptop] [true]) = some s ∧
      s.loop.store.devices.IterOrder [fmtMac laptop] := ⟨_, _, rfl, rfl, by decide⟩
  obtain ⟨dash, hdash, hlist⟩ := table_agrees jsonSerde roundTrip_jsonSerde [.start []] Agent.initial
    SqliteStore.empty rfl (watchedRun.take 2) [] [laptop] [true] (by decide) (by simp) r s s hearlier
    htick rfl
  have hrun := exec_append_iff.mpr ⟨r, hearlier, exec_cons_iff.mpr ⟨s, htick, exec_nil s⟩⟩
  exact ⟨s, dash, hrun, hdash, (hlist _ hrows).1⟩

end Lanscope
