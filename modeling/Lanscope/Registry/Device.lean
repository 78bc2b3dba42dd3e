import Lanscope.Common.Flow
import Lanscope.Decode.Dispatch
import Lanscope.Fingerprint.Oui
import Lanscope.Framework.HashMap
import Lanscope.Netfmt

/-!
# Device registry

The registry joins observations and flow snapshots into one record per hardware address. A clock
reading is an argument of every operation that takes one.
-/

namespace Lanscope

open Framework

def maxServices : Nat := 32

structure Device where
  /-- The formatted hardware address. -/
  mac : Str
  vendor : Option Str
  hostname : Option Str
  /-- Observed addresses as dotted quads, most recent last. -/
  ips : List Str
  services : List Str
  dhcpFingerprint : Option Str
  dhcpVendorClass : Option Str
  deviceType : Option Str
  /-- Unix seconds. -/
  firstSeen : Int
  lastSeen : Int
  packets : UInt64
  bytes : UInt64
  deriving DecidableEq

def Device.new (mac : MacAddr) (now : Int) : Device where
  mac := fmtMac mac
  vendor := Oui.lookup mac
  hostname := none
  ips := []
  services := []
  dhcpFingerprint := none
  dhcpVendorClass := none
  deviceType := none
  firstSeen := now
  lastSeen := now
  packets := 0
  bytes := 0

def Device.label (dev : Device) : Str := (dev.hostname.or dev.vendor).getD dev.mac

inductive Change
  | newDevice
  | updated
  deriving DecidableEq

def pushIp (dev : Device) (ip : Ipv4Be) : Device :=
  let s := fmtIpv4 ip
  if s ∈ dev.ips then { dev with ips := dev.ips.erase s ++ [s] }
  else { dev with ips := dev.ips ++ [s] }

def applySignal (dev : Device) : Signal → Device
  | .hostname h => if dev.hostname ≠ some h then { dev with hostname := some h } else dev
  | .service s =>
    if s ∉ dev.services ∧ dev.services.length < maxServices then
      { dev with services := dev.services ++ [s] }
    else dev
  | .dhcpFingerprint f => { dev with dhcpFingerprint := some f }
  | .dhcpVendorClass v => { dev with dhcpVendorClass := some v }
  | .seen => dev

/-- What `observe` does to the record of the observed device. -/
def foldObservation (dev : Device) (obs : Observation) (now : Int) : Device :=
  let dev := { dev with lastSeen := now }
  let dev := match obs.ip with
    | some ip => pushIp dev ip
    | none => dev
  applySignal dev obs.signal

def saturatingAdd (a b : UInt64) : UInt64 :=
  if a.toNat + b.toNat < UInt64.size then a + b else UInt64.ofNat (UInt64.size - 1)

/-- What `apply_flow` does to the record it credits. -/
def creditFlow (dev : Device) (stats : FlowStats) (now : Int) : Device :=
  { dev with
    packets := saturatingAdd dev.packets stats.packets
    bytes := saturatingAdd dev.bytes stats.bytes
    lastSeen := now }

@[ext] structure DeviceRegistry where
  devices : HashMap MacAddr Device
  deriving DecidableEq

namespace DeviceRegistry

def empty : DeviceRegistry := ⟨∅⟩

def load (reg : DeviceRegistry) (mac : MacAddr) (device : Device) : DeviceRegistry :=
  ⟨reg.devices.insert mac device⟩

def get (reg : DeviceRegistry) (mac : MacAddr) : Option Device := reg.devices.lookup mac

def setDeviceType (reg : DeviceRegistry) (mac : MacAddr) (deviceType : Option Str) :
    DeviceRegistry :=
  ⟨reg.devices.modify mac fun d => { d with deviceType := deviceType }⟩

def observe (reg : DeviceRegistry) (obs : Observation) (now : Int) :
    DeviceRegistry × MacAddr × Change :=
  let (dev, change) := match reg.devices.lookup obs.mac with
    | some dev => (dev, Change.updated)
    | none => (Device.new obs.mac now, Change.newDevice)
  (⟨reg.devices.insert obs.mac (foldObservation dev obs now)⟩, obs.mac, change)

/-- The first device in iteration order that lists the flow's source address. -/
def flowTarget (order : List MacAddr) (reg : DeviceRegistry) (key : FlowKey) : Option MacAddr :=
  order.find? fun mac =>
    match reg.devices.lookup mac with
    | some d => d.ips.any fun ip => ip = fmtIpv4 key.srcIp
    | none => false

def applyFlow (order : List MacAddr) (reg : DeviceRegistry) (key : FlowKey) (stats : FlowStats)
    (now : Int) : DeviceRegistry :=
  match flowTarget order reg key with
  | some mac => ⟨reg.devices.modify mac fun dev => creditFlow dev stats now⟩
  | none => reg

/-! ## What each operation does to each record -/

theorem ext_get {r s : DeviceRegistry} (h : ∀ mac, r.get mac = s.get mac) : r = s :=
  DeviceRegistry.ext (Finmap.ext_lookup h)

@[simp] theorem get_empty (mac : MacAddr) : empty.get mac = none := rfl

theorem get_load (reg : DeviceRegistry) (mac a : MacAddr) (device : Device) :
    (reg.load mac device).get a = if a = mac then some device else reg.get a :=
  HashMap.lookup_insert_eq _ _ _ _

theorem get_setDeviceType (reg : DeviceRegistry) (mac a : MacAddr) (deviceType : Option Str) :
    (reg.setDeviceType mac deviceType).get a =
      if a = mac then (reg.get mac).map fun d => { d with deviceType := deviceType }
      else reg.get a :=
  HashMap.lookup_modify _ _ _ _

theorem get_observe (reg : DeviceRegistry) (obs : Observation) (now : Int) (a : MacAddr) :
    (reg.observe obs now).1.get a =
      if a = obs.mac then
        some (foldObservation ((reg.get obs.mac).getD (Device.new obs.mac now)) obs now)
      else reg.get a := by
  unfold observe get
  cases reg.devices.lookup obs.mac <;> exact HashMap.lookup_insert_eq _ _ _ _

@[simp] theorem observe_mac (reg : DeviceRegistry) (obs : Observation) (now : Int) :
    (reg.observe obs now).2.1 = obs.mac := rfl

theorem observe_change (reg : DeviceRegistry) (obs : Observation) (now : Int) :
    (reg.observe obs now).2.2 =
      if (reg.get obs.mac).isSome then Change.updated else Change.newDevice := by
  unfold observe get
  cases reg.devices.lookup obs.mac <;> rfl

theorem get_applyFlow (order : List MacAddr) (reg : DeviceRegistry) (key : FlowKey)
    (stats : FlowStats) (now : Int) (a : MacAddr) :
    (applyFlow order reg key stats now).get a =
      if flowTarget order reg key = some a then (reg.get a).map fun d => creditFlow d stats now
      else reg.get a := by
  unfold applyFlow
  cases flowTarget order reg key with
  | none => simp
  | some mac =>
      simp only [get, HashMap.lookup_modify, Option.some.injEq]
      by_cases h : a = mac
      · subst a
        simp
      · simp [h, Ne.symm h]

end DeviceRegistry

end Lanscope
