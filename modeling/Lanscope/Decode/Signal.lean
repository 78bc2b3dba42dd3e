import Lanscope.Common.Event
import Lanscope.Framework.Text

/-!
# Signals

A signal is one typed fact read off a frame. An observation tags it with the device it pertains to.
-/

namespace Lanscope

open Framework

inductive Signal
  | hostname (h : Str)
  | service (s : Str)
  /-- The option-55 parameter request list as comma-joined codes. -/
  | dhcpFingerprint (f : Str)
  | dhcpVendorClass (v : Str)
  | seen
  deriving DecidableEq

structure Observation where
  mac : MacAddr
  ip : Option Ipv4Be
  signal : Signal
  deriving DecidableEq

namespace Signal

def asHostname : Signal → Option Str
  | .hostname h => some h
  | _ => none

theorem asHostname_eq_some_iff {s : Signal} {h : Str} : s.asHostname = some h ↔ s = .hostname h := by
  cases s <;> simp [asHostname]

def asService : Signal → Option Str
  | .service s => some s
  | _ => none

def asDhcpFingerprint : Signal → Option Str
  | .dhcpFingerprint f => some f
  | _ => none

def asDhcpVendorClass : Signal → Option Str
  | .dhcpVendorClass v => some v
  | _ => none

end Signal

end Lanscope
