import Lanscope.Anomaly.Heuristics

/-!
# Anomaly engine

Detectors side by side: every event goes to each of them, and their alerts are concatenated.
-/

namespace Lanscope

open Framework

inductive Detector
  | newDevice
  | portScan (d : PortScanDetector)
  | volumeSpike (d : VolumeSpikeDetector)

namespace Detector

def onDevice (d : Detector) (device : Device) (change : Change) (now : Int) :
    Detector × List Alert :=
  match d with
  | .newDevice => (d, newDeviceAlerts device change now)
  | .portScan _ | .volumeSpike _ => (d, [])

def onFlow (d : Detector) (key : FlowKey) (stats : FlowStats) (now : Int) : Detector × List Alert :=
  match d with
  | .newDevice => (d, [])
  | .portScan p => ((p.onFlow key now).map .portScan id)
  | .volumeSpike v => ((v.onFlow key stats now).map .volumeSpike id)

end Detector

structure Engine where
  detectors : List Detector

namespace Engine

def defaultStack : Engine := ⟨[.newDevice, .portScan {}, .volumeSpike {}]⟩

def onDevice (e : Engine) (device : Device) (change : Change) (now : Int) : Engine × List Alert :=
  let results := e.detectors.map fun d => d.onDevice device change now
  (⟨results.map Prod.fst⟩, results.flatMap Prod.snd)

def onFlow (e : Engine) (key : FlowKey) (stats : FlowStats) (now : Int) : Engine × List Alert :=
  let results := e.detectors.map fun d => d.onFlow key stats now
  (⟨results.map Prod.fst⟩, results.flatMap Prod.snd)

/-- The three detectors of the default stack, in any of their states. -/
def IsDefault (e : Engine) : Prop :=
  ∃ p v, e.detectors = [.newDevice, .portScan p, .volumeSpike v]

theorem isDefault_defaultStack : defaultStack.IsDefault := ⟨_, _, rfl⟩

/-- The update of a known device leaves every detector alone. -/
theorem onDevice_updated (e : Engine) (device : Device) (now : Int) :
    e.onDevice device .updated now = (e, []) := by
  have hquiet (d : Detector) : d.onDevice device .updated now = (d, []) := by
    cases d <;> rfl
  simp only [onDevice, hquiet, List.map_map]
  have hsame : e.detectors.map (Prod.fst ∘ fun d => (d, ([] : List Alert))) = e.detectors :=
    List.map_id'' (fun _ => rfl) _
  rw [hsame, List.flatMap_map]
  simp

/-- No detector remembers a device. -/
theorem onDevice_fst (e : Engine) (device : Device) (change : Change) (now : Int) :
    (e.onDevice device change now).1 = e := by
  have hkept (d : Detector) : (d.onDevice device change now).1 = d := by
    cases d <;> rfl
  simp only [onDevice, List.map_map, Function.comp_def, hkept, List.map_id']

/-- Devices raise new-device alerts only. -/
theorem kind_of_mem_onDevice (e : Engine) (device : Device) (change : Change) (now : Int)
    {alert : Alert} (h : alert ∈ (e.onDevice device change now).2) :
    alert.kind = newDeviceKind := by
  simp only [Engine.onDevice, List.mem_flatMap, List.mem_map] at h
  obtain ⟨_, ⟨d, _, rfl⟩, h⟩ := h
  cases d with
  | newDevice =>
      simp only [Detector.onDevice, newDeviceAlerts] at h
      split_ifs at h
      · exact absurd h List.not_mem_nil
      · rw [List.mem_singleton.mp h]
  | portScan p | volumeSpike v => exact absurd h List.not_mem_nil

/-- Device updates change no detector, and the default stack reports new devices only. -/
theorem IsDefault.onDevice_eq {e : Engine} (h : e.IsDefault) (device : Device) (change : Change)
    (now : Int) : e.onDevice device change now = (e, newDeviceAlerts device change now) := by
  obtain ⟨p, v, hd⟩ := h
  cases e
  subst hd
  simp [onDevice, Detector.onDevice]

theorem IsDefault.onFlow {e : Engine} (h : e.IsDefault) (key : FlowKey) (stats : FlowStats)
    (now : Int) : (e.onFlow key stats now).1.IsDefault := by
  obtain ⟨p, v, hd⟩ := h
  refine ⟨(p.onFlow key now).1, (v.onFlow key stats now).1, ?_⟩
  simp [Engine.onFlow, hd, Detector.onFlow]

/-- Flows raise no new-device alert. -/
theorem kind_of_mem_onFlow (e : Engine) (key : FlowKey) (stats : FlowStats) (now : Int)
    {alert : Alert} (h : alert ∈ (e.onFlow key stats now).2) : alert.kind ≠ newDeviceKind := by
  simp only [Engine.onFlow, List.mem_flatMap, List.mem_map] at h
  obtain ⟨_, ⟨d, _, rfl⟩, h⟩ := h
  cases d with
  | newDevice => exact absurd h List.not_mem_nil
  | portScan p =>
      rw [p.kind_of_mem_onFlow key now h]
      decide
  | volumeSpike v =>
      rw [v.kind_of_mem_onFlow key stats now h]
      decide

end Engine

end Lanscope
