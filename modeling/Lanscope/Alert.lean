import Lanscope.Framework.Text

/-!
# Alerts
-/

namespace Lanscope

open Framework

inductive Severity
  | info
  | warning
  | critical
  deriving DecidableEq

def Severity.asStr : Severity → Str
  | .info => "info".toList
  | .warning => "warning".toList
  | .critical => "critical".toList

structure Alert where
  /-- Unix seconds. -/
  ts : Int
  /-- The device concerned, as a formatted hardware address. -/
  mac : Option Str
  severity : Severity
  kind : Str
  message : Str
  deriving DecidableEq

end Lanscope
