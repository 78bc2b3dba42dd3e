import Lanscope.Framework.Distinct
import Lanscope.Registry.Device

/-!
# Registry records as summaries of histories

A registry fed from empty holds, for each address, a summary of the observations of that address
alone. The summary says what each field is for: the last hostname, the first distinct services, the
addresses by recency.
-/

namespace Lanscope

open Framework

/-- An observation and the clock reading it was folded in at. -/
abbrev Sighting := Observation × Int

def observeAll (reg : DeviceRegistry) (history : List Sighting) : DeviceRegistry :=
  history.foldl (fun reg o => (reg.observe o.1 o.2).1) reg

def own (mac : MacAddr) (history : List Sighting) : List Sighting :=
  history.filter fun o => o.1.mac = mac

def lastSignal (kind : Signal → Option Str) (sightings : List Sighting) : Option Str :=
  (sightings.filterMap fun o => kind o.1.signal).getLast?

/-- The distinct observed addresses, most recently observed last. -/
def recentIps (sightings : List Sighting) : List Ipv4Be :=
  (sightings.filterMap fun o => o.1.ip).dedup

def firstServices (sightings : List Sighting) : List Str :=
  (sightings.filterMap fun o => o.1.signal.asService).eraseDups.take maxServices

/-- The record an address is meant to have after the given sightings of it. -/
def summary (mac : MacAddr) : List Sighting → Option Device
  | [] => none
  | first :: rest => some {
      mac := fmtMac mac
      vendor := Oui.lookup mac
      hostname := lastSignal Signal.asHostname (first :: rest)
      ips := (recentIps (first :: rest)).map fmtIpv4
      services := firstServices (first :: rest)
      dhcpFingerprint := lastSignal Signal.asDhcpFingerprint (first :: rest)
      dhcpVendorClass := lastSignal Signal.asDhcpVendorClass (first :: rest)
      deviceType := none
      firstSeen := first.2
      lastSeen := (rest.getLast?.getD first).2
      packets := 0
      bytes := 0 }

theorem summary_isSome (mac : MacAddr) (sightings : List Sighting) :
    (summary mac sightings).isSome ↔ sightings ≠ [] := by
  cases sightings <;> simp [summary]

/-! ## One more sighting -/

theorem lastSignal_concat (kind : Signal → Option Str) (sightings : List Sighting) (o : Sighting) :
    lastSignal kind (sightings ++ [o]) = (kind o.1.signal).or (lastSignal kind sightings) := by
  unfold lastSignal
  cases h : kind o.1.signal <;> simp [h]

def withIp (ips : List Str) : Option Ipv4Be → List Str
  | some ip => ips.erase (fmtIpv4 ip) ++ [fmtIpv4 ip]
  | none => ips

def withService (services : List Str) : Option Str → List Str
  | some s => if s ∉ services ∧ services.length < maxServices then services ++ [s] else services
  | none => services

theorem withIp_dedup (addresses : List Ipv4Be) (ip : Ipv4Be) :
    withIp (addresses.dedup.map fmtIpv4) (some ip) = (addresses ++ [ip]).dedup.map fmtIpv4 := by
  rw [dedup_concat, List.map_append, List.map_erase fmtIpv4_injective]
  rfl

theorem recentIps_concat (sightings : List Sighting) (o : Sighting) :
    (recentIps (sightings ++ [o])).map fmtIpv4 =
      withIp ((recentIps sightings).map fmtIpv4) o.1.ip := by
  unfold recentIps
  cases h : o.1.ip with
  | none => simp [h, withIp]
  | some ip =>
      have hone : [o].filterMap (fun o => o.1.ip) = [ip] := by simp [h]
      rw [List.filterMap_append, hone, withIp_dedup]

theorem firstServices_concat (sightings : List Sighting) (o : Sighting) :
    firstServices (sightings ++ [o]) = withService (firstServices sightings) o.1.signal.asService := by
  unfold firstServices
  cases h : o.1.signal.asService with
  | none => simp [h, withService]
  | some s =>
      have hone : [o].filterMap (fun o => o.1.signal.asService) = [s] := by simp [h]
      rw [List.filterMap_append, hone, take_eraseDups_concat]
      rfl

theorem pushIp_eq (dev : Device) (ip : Ipv4Be) :
    pushIp dev ip = { dev with ips := withIp dev.ips (some ip) } := by
  unfold pushIp
  by_cases h : fmtIpv4 ip ∈ dev.ips
  · simp [h, withIp]
  · simp [h, withIp, List.erase_of_not_mem h]

theorem applySignal_eq (dev : Device) (signal : Signal) :
    applySignal dev signal = { dev with
      hostname := signal.asHostname.or dev.hostname
      services := withService dev.services signal.asService
      dhcpFingerprint := signal.asDhcpFingerprint.or dev.dhcpFingerprint
      dhcpVendorClass := signal.asDhcpVendorClass.or dev.dhcpVendorClass } := by
  cases signal with
  | hostname h =>
      simp only [applySignal]
      split_ifs with hh
      · rfl
      · cases dev
        simp_all [Signal.asHostname, Signal.asService, Signal.asDhcpFingerprint,
          Signal.asDhcpVendorClass, withService]
  | service s =>
      simp only [applySignal, Signal.asHostname, Signal.asService, Signal.asDhcpFingerprint,
        Signal.asDhcpVendorClass, Option.none_or, withService]
      split_ifs <;> rfl
  | dhcpFingerprint f => rfl
  | dhcpVendorClass v => rfl
  | seen => rfl

theorem foldObservation_eq (dev : Device) (obs : Observation) (now : Int) :
    foldObservation dev obs now = { dev with
      hostname := obs.signal.asHostname.or dev.hostname
      ips := withIp dev.ips obs.ip
      services := withService dev.services obs.signal.asService
      dhcpFingerprint := obs.signal.asDhcpFingerprint.or dev.dhcpFingerprint
      dhcpVendorClass := obs.signal.asDhcpVendorClass.or dev.dhcpVendorClass
      lastSeen := now } := by
  unfold foldObservation
  cases obs.ip with
  | none => exact applySignal_eq _ _
  | some ip =>
      simp only [pushIp_eq]
      exact applySignal_eq _ _

/-- Folding in one more sighting turns the summary before it into the summary after it. -/
theorem summary_concat (mac : MacAddr) (sightings : List Sighting) (o : Sighting) :
    summary mac (sightings ++ [o]) =
      some (foldObservation ((summary mac sightings).getD (Device.new mac o.2)) o.1 o.2) := by
  rw [foldObservation_eq]
  cases sightings with
  | nil =>
      have hone : [o] = [] ++ [o] := rfl
      simp only [List.nil_append, summary, Option.getD_none]
      rw [hone, lastSignal_concat, lastSignal_concat, lastSignal_concat, recentIps_concat,
        firstServices_concat]
      simp [Device.new, lastSignal, recentIps, firstServices]
  | cons first rest =>
      simp only [List.cons_append, summary, Option.getD_some]
      rw [← List.cons_append, lastSignal_concat, lastSignal_concat, lastSignal_concat,
        recentIps_concat, firstServices_concat]
      simp

/-! ## Whole histories -/

theorem observeAll_concat (reg : DeviceRegistry) (history : List Sighting) (o : Sighting) :
    observeAll reg (history ++ [o]) = ((observeAll reg history).observe o.1 o.2).1 := by
  rw [observeAll, List.foldl_append]
  rfl

theorem own_concat (mac : MacAddr) (history : List Sighting) (o : Sighting) :
    own mac (history ++ [o]) = if o.1.mac = mac then own mac history ++ [o] else own mac history := by
  rw [own, List.filter_append, List.filter_singleton]
  by_cases h : o.1.mac = mac <;> simp [own, h]

theorem get_observeAll (history : List Sighting) (mac : MacAddr) :
    (observeAll DeviceRegistry.empty history).get mac = summary mac (own mac history) := by
  induction history using List.reverseRecOn with
  | nil => rfl
  | append_singleton history o ih =>
      rw [observeAll_concat, DeviceRegistry.get_observe, own_concat]
      by_cases h : mac = o.1.mac
      · subst mac
        rw [if_pos rfl, if_pos rfl, ih, summary_concat]
      · rw [if_neg h, if_neg (Ne.symm h), ih]

theorem own_ne_nil_iff (mac : MacAddr) (history : List Sighting) :
    own mac history ≠ [] ↔ ∃ o ∈ history, o.1.mac = mac := by
  simp [own, List.filter_eq_nil_iff]

private theorem isSome_get_observeAll (history : List Sighting) (mac : MacAddr) :
    ((observeAll DeviceRegistry.empty history).get mac).isSome ↔ ∃ o ∈ history, o.1.mac = mac := by
  rw [get_observeAll, summary_isSome, own_ne_nil_iff]

/-- From an empty registry, an address becomes a key exactly when it is observed, its record is the
summary of its own sightings whatever else happens in between, and `observe` reports a new device
exactly at the first of them. -/
theorem registry_summarises_history (history : List Sighting) (next : Sighting) :
    (∀ mac, mac ∈ (observeAll DeviceRegistry.empty history).devices ↔
      ∃ o ∈ history, o.1.mac = mac) ∧
    (∀ mac, (observeAll DeviceRegistry.empty history).get mac = summary mac (own mac history)) ∧
    (((observeAll DeviceRegistry.empty history).observe next.1 next.2).2.2 = Change.newDevice ↔
      ∀ o ∈ history, o.1.mac ≠ next.1.mac) := by
  refine ⟨fun mac => ?_, get_observeAll history, ?_⟩
  · rw [← isSome_get_observeAll, DeviceRegistry.get, Finmap.lookup_isSome]
  · have hseen := isSome_get_observeAll history next.1.mac
    rw [DeviceRegistry.observe_change]
    by_cases h : ∃ o ∈ history, o.1.mac = next.1.mac
    · rw [if_pos (hseen.mpr h)]
      obtain ⟨o, ho, hmac⟩ := h
      exact ⟨fun hc => absurd hc (by decide), fun hnone => absurd hmac (hnone o ho)⟩
    · rw [if_neg fun hs => h (hseen.mp hs)]
      exact ⟨fun _ o ho hmac => h ⟨o, ho, hmac⟩, fun _ => rfl⟩

end Lanscope
