import Lanscope.Alert
import Lanscope.Framework.Json
import Lanscope.Registry.Device

/-!
# SQLite store

One table of devices keyed by formatted hardware address and one of alerts in insertion order.
Address and service lists are JSON text columns, and the unsigned counters pass through signed
integer columns. Each statement is atomic: it happens as a whole or fails and changes nothing.
-/

namespace Lanscope

open Framework

/-- `serde_json::to_string` and `serde_json::from_str` on lists of strings. -/
structure Serde where
  toString : List Str → Option Str
  fromStr : Str → Option (List Str)

def Serde.RoundTrip (serde : Serde) : Prop :=
  ∀ strings, ∃ text, serde.toString strings = some text ∧ serde.fromStr text = some strings

def jsonSerde : Serde where
  toString strings := some (Json.encode strings)
  fromStr := Json.decode

theorem roundTrip_jsonSerde : jsonSerde.RoundTrip :=
  fun strings => ⟨Json.encode strings, rfl, Json.decode_encode strings⟩

structure DeviceRow where
  vendor : Option Str
  hostname : Option Str
  ips : Str
  services : Str
  dhcpFingerprint : Option Str
  dhcpVendorClass : Option Str
  deviceType : Option Str
  firstSeen : Int
  lastSeen : Int
  packets : Int64
  bytes : Int64
  deriving DecidableEq

structure AlertRow where
  ts : Int
  mac : Option Str
  severity : Str
  kind : Str
  message : Str
  deriving DecidableEq

structure SqliteStore where
  devices : HashMap Str DeviceRow
  alerts : List AlertRow
  deriving DecidableEq

inductive StoreWrite
  | upsertDevice (device : Device)
  | recordAlert (alert : Alert)
  deriving DecidableEq

namespace SqliteStore

def empty : SqliteStore := ⟨∅, []⟩

section Serde

variable (serde : Serde)

/-- The record that a row stands for. Unreadable JSON counts as an empty list. -/
def deviceOfRow (mac : Str) (row : DeviceRow) : Device where
  mac := mac
  vendor := row.vendor
  hostname := row.hostname
  ips := (serde.fromStr row.ips).getD []
  services := (serde.fromStr row.services).getD []
  dhcpFingerprint := row.dhcpFingerprint
  dhcpVendorClass := row.dhcpVendorClass
  deviceType := row.deviceType
  firstSeen := row.firstSeen
  lastSeen := row.lastSeen
  packets := row.packets.toUInt64
  bytes := row.bytes.toUInt64

def rowOfDevice (d : Device) : DeviceRow where
  vendor := d.vendor
  hostname := d.hostname
  ips := (serde.toString d.ips).getD "[]".toList
  services := (serde.toString d.services).getD "[]".toList
  dhcpFingerprint := d.dhcpFingerprint
  dhcpVendorClass := d.dhcpVendorClass
  deviceType := d.deviceType
  firstSeen := d.firstSeen
  lastSeen := d.lastSeen
  packets := d.packets.toInt64
  bytes := d.bytes.toInt64

/-- Load all persisted records, in the order in which the table yields its rows. -/
def loadDevices (store : SqliteStore) (order : List Str) : List Device :=
  order.filterMap fun mac => (store.devices.lookup mac).map (deviceOfRow serde mac)

/-- Insert or update a device. On a conflict every column but `first_seen` is overwritten. -/
def upsertDevice (store : SqliteStore) (d : Device) : SqliteStore :=
  let excluded := rowOfDevice serde d
  match store.devices.lookup d.mac with
  | none => { store with devices := store.devices.insert d.mac excluded }
  | some row =>
    { store with devices := store.devices.insert d.mac { excluded with firstSeen := row.firstSeen } }

def recordAlert (store : SqliteStore) (a : Alert) : SqliteStore :=
  { store with alerts := store.alerts ++ [⟨a.ts, a.mac, a.severity.asStr, a.kind, a.message⟩] }

def write (store : SqliteStore) (w : StoreWrite × Bool) : SqliteStore :=
  match w with
  | (_, false) => store
  | (.upsertDevice d, true) => store.upsertDevice serde d
  | (.recordAlert a, true) => store.recordAlert a

def writeAll (store : SqliteStore) (writes : List (StoreWrite × Bool)) : SqliteStore :=
  writes.foldl (write serde) store

variable {serde}

def firstSeenAfter (store : SqliteStore) (d : Device) : Int :=
  match store.devices.lookup d.mac with
  | none => d.firstSeen
  | some row => row.firstSeen

theorem lookup_upsertDevice (store : SqliteStore) (d : Device) (key : Str) :
    (store.upsertDevice serde d).devices.lookup key =
      if key = d.mac then
        some { rowOfDevice serde d with firstSeen := store.firstSeenAfter d }
      else store.devices.lookup key := by
  unfold upsertDevice firstSeenAfter
  cases store.devices.lookup d.mac <;> exact HashMap.lookup_insert_eq _ _ _ _

@[simp] theorem alerts_upsertDevice (store : SqliteStore) (d : Device) :
    (store.upsertDevice serde d).alerts = store.alerts := by
  unfold upsertDevice
  cases store.devices.lookup d.mac <;> rfl

/-- A row written from a record reads back as the record, but for its first-seen column. -/
theorem deviceOfRow_rowOfDevice (hserde : serde.RoundTrip) (d : Device) (firstSeen : Int) :
    deviceOfRow serde d.mac { rowOfDevice serde d with firstSeen := firstSeen } =
      { d with firstSeen := firstSeen } := by
  obtain ⟨ips, hips, hips'⟩ := hserde d.ips
  obtain ⟨services, hservices, hservices'⟩ := hserde d.services
  simp only [deviceOfRow, rowOfDevice, hips, hservices, Option.getD_some, hips', hservices',
    UInt64.toUInt64_toInt64]

end Serde

end SqliteStore

end Lanscope
