import Lanscope.Anomaly.Engine
import Lanscope.Fingerprint.Rules
import Lanscope.Framework.Emit
import Lanscope.Storage.Sqlite

/-!
# Event handling

One capture event at a time goes through the registry, the fingerprinter and the anomaly engine. No
answer of the store is ever looked at, so an event is modelled by the new state and the list of
writes it asks for. Logging, metrics and the dashboard only mirror these and are left out.
-/

namespace Lanscope

open Framework

inductive CaptureEvent
  | discovery (event : Event)
  | flows (flows : List (FlowKey × FlowStats))
  deriving DecidableEq

structure Agent where
  registry : DeviceRegistry
  anomaly : Engine

/-- The body of the discovery loop: fold an observation in, classify the device anew, persist it if
it is new, and raise alerts. -/
def handleObservation (now : Int) (agent : Agent) (obs : Observation) : Agent × List StoreWrite :=
  -- the all-zero address is not a device
  if obs.mac = zeroMac then (agent, [])
  else
    let (registry, mac, change) := agent.registry.observe obs now
    let cls := (registry.get mac).bind classify
    let registry := registry.setDeviceType mac (cls.map Classification.deviceType)
    match registry.get mac with
    | some dev =>
      let persisted := if change = .newDevice then [StoreWrite.upsertDevice dev] else []
      let (anomaly, alerts) := agent.anomaly.onDevice dev change now
      (⟨registry, anomaly⟩, persisted ++ alerts.map .recordAlert)
    | none => (⟨registry, agent.anomaly⟩, [])

def handleFlow (now : Int) (order : List MacAddr) (agent : Agent) (flow : FlowKey × FlowStats) :
    Agent × List StoreWrite :=
  let registry := DeviceRegistry.applyFlow order agent.registry flow.1 flow.2 now
  let (anomaly, alerts) := agent.anomaly.onFlow flow.1 flow.2 now
  (⟨registry, anomaly⟩, alerts.map .recordAlert)

/-- What a call does: the state it leaves, its writes in order, and the number it returns. -/
structure Handled where
  agent : Agent
  writes : List StoreWrite
  observations : Nat

/-- Process one capture event. `order` is the iteration order of the registry, which no flow of a
snapshot changes. -/
def handleEvent (now : Int) (order : List MacAddr) (agent : Agent) : CaptureEvent → Handled
  | .discovery e =>
    let observations := decodeEvent e
    let (agent, writes) := foldEmit (handleObservation now) agent observations
    ⟨agent, writes, observations.countP fun obs => obs.mac ≠ zeroMac⟩
  | .flows flows =>
    let (agent, writes) := foldEmit (handleFlow now order) agent flows
    ⟨agent, writes, 0⟩

def flushAll (order : List MacAddr) (registry : DeviceRegistry) : List StoreWrite :=
  (registry.devices.values order).map .upsertDevice

/-- Load the persisted records whose address parses. -/
def seedRegistry (registry : DeviceRegistry) (devices : List Device) : DeviceRegistry :=
  devices.foldl (fun reg dev =>
    match parseMac dev.mac with
    | some mac => reg.load mac dev
    | none => reg) registry

/-! ## One pass of a loop body -/

def retype (d : Device) : Device :=
  { d with deviceType := (classify d).map Classification.deviceType }

def observed (registry : DeviceRegistry) (obs : Observation) (now : Int) : Device :=
  retype (foldObservation ((registry.get obs.mac).getD (Device.new obs.mac now)) obs now)

def joined (d : Device) (now : Int) : Alert :=
  ⟨now, some d.mac, .info, newDeviceKind,
    "New device joined: ".toList ++ d.label ++ " (".toList ++
      d.vendor.getD "unknown vendor".toList ++ ")".toList⟩

theorem handleObservation_zero (now : Int) (agent : Agent) (obs : Observation)
    (h : obs.mac = zeroMac) : handleObservation now agent obs = (agent, []) := by
  simp [handleObservation, h]

private theorem get_retyped (registry : DeviceRegistry) (obs : Observation) (now : Int)
    (a : MacAddr) :
    ((registry.observe obs now).1.setDeviceType obs.mac
      ((((registry.observe obs now).1.get obs.mac).bind classify).map Classification.deviceType)).get a =
    if a = obs.mac then some (observed registry obs now) else registry.get a := by
  rw [DeviceRegistry.get_setDeviceType, DeviceRegistry.get_observe, DeviceRegistry.get_observe]
  by_cases h : a = obs.mac
  · simp only [h, if_true, Option.map_some, Option.bind_some, observed, retype]
  · simp only [h, if_false]

/-- What a pass about a device does to the records, the detectors and the store. -/
theorem handleObservation_spec (now : Int) (agent : Agent) (obs : Observation)
    (hmac : obs.mac ≠ zeroMac) :
    (∀ a, (handleObservation now agent obs).1.registry.get a =
      if a = obs.mac then some (observed agent.registry obs now) else agent.registry.get a) ∧
    ∀ change, change = (if (agent.registry.get obs.mac).isSome then Change.updated else .newDevice) →
      (handleObservation now agent obs).1.anomaly =
        (agent.anomaly.onDevice (observed agent.registry obs now) change now).1 ∧
      (handleObservation now agent obs).2 =
        (if change = .newDevice then [.upsertDevice (observed agent.registry obs now)] else []) ++
          (agent.anomaly.onDevice (observed agent.registry obs now) change now).2.map
            .recordAlert := by
  have hget := get_retyped agent.registry obs now
  have hself := hget obs.mac
  rw [if_pos rfl] at hself
  have hchange := DeviceRegistry.observe_change agent.registry obs now
  have hobs := DeviceRegistry.observe_mac agent.registry obs now
  simp only [handleObservation, hmac, if_false, hobs, hself, hchange]
  refine ⟨hget, ?_⟩
  rintro _ rfl
  exact ⟨rfl, rfl⟩

theorem get_handleObservation (now : Int) (agent : Agent) (obs : Observation)
    (hmac : obs.mac ≠ zeroMac) (a : MacAddr) :
    (handleObservation now agent obs).1.registry.get a =
      if a = obs.mac then some (observed agent.registry obs now) else agent.registry.get a :=
  (handleObservation_spec now agent obs hmac).1 a

/-- With the default stack, a pass leaves the detectors alone, and writes a row and an alert for a
new device and nothing else. -/
theorem handleObservation_default (now : Int) (agent : Agent) (obs : Observation)
    (hstack : agent.anomaly.IsDefault) (hmac : obs.mac ≠ zeroMac) :
    (handleObservation now agent obs).1.anomaly = agent.anomaly ∧
    (handleObservation now agent obs).2 =
      if (agent.registry.get obs.mac).isSome then []
      else [.upsertDevice (observed agent.registry obs now),
        .recordAlert (joined (observed agent.registry obs now) now)] := by
  obtain ⟨_, hrest⟩ := handleObservation_spec now agent obs hmac
  obtain ⟨hanomaly, hwrites⟩ := hrest _ rfl
  rw [hanomaly, hwrites, hstack.onDevice_eq]
  refine ⟨rfl, ?_⟩
  split_ifs <;> first | rfl | contradiction

/-- A pass about a known device writes nothing, whatever the detectors. -/
theorem handleObservation_known (now : Int) (agent : Agent) (obs : Observation)
    (hknown : (agent.registry.get obs.mac).isSome) :
    (handleObservation now agent obs).1.anomaly = agent.anomaly ∧
      (handleObservation now agent obs).2 = [] := by
  by_cases hmac : obs.mac = zeroMac
  · rw [handleObservation_zero now agent obs hmac]
    exact ⟨rfl, rfl⟩
  · obtain ⟨_, hrest⟩ := handleObservation_spec now agent obs hmac
    obtain ⟨hanomaly, hwrites⟩ := hrest .updated (by rw [if_pos hknown])
    rw [Engine.onDevice_updated] at hanomaly hwrites
    exact ⟨hanomaly, hwrites⟩

/-- A property of the record that a write puts into the store, if it puts one. -/
def StoreWrite.Upserts (Q : Device → Prop) : StoreWrite → Prop
  | .upsertDevice d => Q d
  | .recordAlert _ => True

theorem StoreWrite.Upserts.imp {Q R : Device → Prop} (h : ∀ d, Q d → R d) {w : StoreWrite}
    (hw : w.Upserts Q) : w.Upserts R := by
  cases w with
  | upsertDevice d => exact h d hw
  | recordAlert _ => trivial

theorem upserts_handleObservation (now : Int) (agent : Agent) (obs : Observation) :
    ∀ w ∈ (handleObservation now agent obs).2, w.Upserts fun d =>
      obs.mac ≠ zeroMac ∧ agent.registry.get obs.mac = none ∧
        d = observed agent.registry obs now := by
  intro w hw
  by_cases hmac : obs.mac = zeroMac
  · rw [handleObservation_zero now agent obs hmac] at hw
    exact absurd hw List.not_mem_nil
  · obtain ⟨_, hrest⟩ := handleObservation_spec now agent obs hmac
    rw [(hrest _ rfl).2, List.mem_append] at hw
    rcases hw with hw | hw
    · cases hknown : agent.registry.get obs.mac <;> simp [hknown] at hw
      subst hw
      exact ⟨hmac, rfl, rfl⟩
    · obtain ⟨_, _, rfl⟩ := List.mem_map.mp hw
      trivial

theorem get_handleFlow (now : Int) (order : List MacAddr) (agent : Agent)
    (flow : FlowKey × FlowStats) (a : MacAddr) :
    (handleFlow now order agent flow).1.registry.get a =
      if DeviceRegistry.flowTarget order agent.registry flow.1 = some a then
        (agent.registry.get a).map fun d => creditFlow d flow.2 now
      else agent.registry.get a :=
  DeviceRegistry.get_applyFlow _ _ _ _ _ _

/-- A flow writes alerts only, none of them about a new device. -/
theorem of_mem_handleFlow {now : Int} {order : List MacAddr} {agent : Agent}
    {flow : FlowKey × FlowStats} {w : StoreWrite} (h : w ∈ (handleFlow now order agent flow).2) :
    ∃ alert, w = .recordAlert alert ∧ alert.kind ≠ newDeviceKind := by
  obtain ⟨alert, halert, rfl⟩ := List.mem_map.mp h
  exact ⟨alert, rfl, Engine.kind_of_mem_onFlow _ _ _ _ halert⟩

theorem upserts_handleFlow (now : Int) (order : List MacAddr) (agent : Agent)
    (flow : FlowKey × FlowStats) (Q : Device → Prop) :
    ∀ w ∈ (handleFlow now order agent flow).2, w.Upserts Q := by
  intro w hw
  obtain ⟨_, rfl, _⟩ := of_mem_handleFlow hw
  trivial

end Lanscope
