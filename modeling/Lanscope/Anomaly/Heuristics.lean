import Lanscope.Alert
import Lanscope.Registry.Device

/-!
# Heuristic detectors

Each detector reacts to device updates or to flows, with an explicit clock. The moving averages of
the volume detector are exact rationals here, where the source uses floating point.
-/

namespace Lanscope

open Framework

/-! ## New devices -/

def newDeviceKind : Str := "new_device".toList

def newDeviceAlerts (device : Device) (change : Change) (now : Int) : List Alert :=
  if change ≠ .newDevice then []
  else
    let vendor := device.vendor.getD "unknown vendor".toList
    [⟨now, some device.mac, .info, newDeviceKind,
      "New device joined: ".toList ++ device.label ++ " (".toList ++ vendor ++ ")".toList⟩]

/-! ## Port scans -/

def portScanKind : Str := "port_scan".toList

structure ScanState where
  windowStart : Int
  ports : Finset UInt16
  alerted : Bool
  deriving DecidableEq

structure PortScanDetector where
  seen : HashMap Ipv4Be ScanState := ∅
  windowSecs : Int := 10
  threshold : Nat := 20

def portScanAlert (srcIp : Ipv4Be) (ports : Nat) (window now : Int) : Alert :=
  ⟨now, none, .warning, portScanKind,
    "Possible port scan from ".toList ++ fmtIpv4 srcIp ++ ": ".toList ++ Str.ofNat ports ++
      " distinct ports in ".toList ++ Str.ofInt window ++ "s".toList⟩

/-- The state of the flow's source once the flow is counted. -/
def PortScanDetector.counted (d : PortScanDetector) (key : FlowKey) (now : Int) : ScanState :=
  let state := (d.seen.lookup key.srcIp).getD ⟨now, ∅, false⟩
  -- roll the window forward if it has elapsed
  let state := if now - state.windowStart > d.windowSecs then ⟨now, ∅, false⟩ else state
  { state with ports := insert key.dstPort state.ports }

def PortScanDetector.onFlow (d : PortScanDetector) (key : FlowKey) (now : Int) :
    PortScanDetector × List Alert :=
  let state := d.counted key now
  if state.ports.card ≥ d.threshold ∧ ¬ state.alerted then
    ({ d with seen := d.seen.insert key.srcIp { state with alerted := true } },
      [portScanAlert key.srcIp state.ports.card d.windowSecs now])
  else ({ d with seen := d.seen.insert key.srcIp state }, [])

theorem PortScanDetector.kind_of_mem_onFlow (d : PortScanDetector) (key : FlowKey) (now : Int)
    {alert : Alert} (h : alert ∈ (d.onFlow key now).2) : alert.kind = portScanKind := by
  simp only [PortScanDetector.onFlow, apply_ite Prod.snd] at h
  split_ifs at h
  · rw [List.mem_singleton.mp h]
    rfl
  · exact absurd h List.not_mem_nil

/-! ## Volume spikes -/

def volumeSpikeKind : Str := "volume_spike".toList

structure VolumeSpikeDetector where
  ewma : HashMap Ipv4Be ℚ := ∅
  alpha : ℚ := 3 / 10
  spikeFactor : ℚ := 5
  floorBytes : ℚ := 1000000

def volumeSpikeAlert (srcIp : Ipv4Be) (bytes avg : ℚ) (now : Int) : Alert :=
  ⟨now, none, .warning, volumeSpikeKind,
    "Traffic spike from ".toList ++ fmtIpv4 srcIp ++ ": ".toList ++ Str.ofRatRounded bytes ++
      " bytes vs ~".toList ++ Str.ofRatRounded avg ++ " avg".toList⟩

def VolumeSpikeDetector.onFlow (d : VolumeSpikeDetector) (key : FlowKey) (stats : FlowStats)
    (now : Int) : VolumeSpikeDetector × List Alert :=
  let bytes : ℚ := stats.bytes.toNat
  let avg := d.ewma.lookup key.srcIp
  -- the average moves before the decision, so that a first flow only seeds it
  let newAvg := match avg with
    | some a => d.alpha * bytes + (1 - d.alpha) * a
    | none => bytes
  let d := { d with ewma := d.ewma.insert key.srcIp newAvg }
  match avg with
  | some a =>
    if bytes > d.floorBytes ∧ a > 0 ∧ bytes > d.spikeFactor * a then
      (d, [volumeSpikeAlert key.srcIp bytes a now])
    else (d, [])
  | none => (d, [])

theorem VolumeSpikeDetector.kind_of_mem_onFlow (d : VolumeSpikeDetector) (key : FlowKey)
    (stats : FlowStats) (now : Int) {alert : Alert} (h : alert ∈ (d.onFlow key stats now).2) :
    alert.kind = volumeSpikeKind := by
  simp only [VolumeSpikeDetector.onFlow] at h
  split at h
  · simp only [apply_ite Prod.snd] at h
    split_ifs at h
    · rw [List.mem_singleton.mp h]
      rfl
    · exact absurd h List.not_mem_nil
  · exact absurd h List.not_mem_nil

end Lanscope
