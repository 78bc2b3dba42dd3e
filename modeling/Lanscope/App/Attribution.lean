import Lanscope.App.Records
import Lanscope.Framework.Run

/-!
# Attribution of flows

An address can move from one device to another, and every device that ever had it still lists it. A
flow goes to the first device that the iteration over the map meets among these, so whether it is
the latest holder is up to the iteration order.
-/

namespace Lanscope

open Framework

/-- An event as the capture loop takes it in: when, and with which iteration order of the map. -/
structure Arrival where
  event : CaptureEvent
  now : Int
  order : List MacAddr

def Agent.initial : Agent := ⟨DeviceRegistry.empty, Engine.defaultStack⟩

def agentStep (agent : Agent) (arrival : Arrival) : Option Agent :=
  if agent.registry.devices.IterOrder arrival.order then
    some (handleEvent arrival.now arrival.order agent arrival.event).agent
  else none

def sightingAddress (obs : Observation) : Option (MacAddr × Ipv4Be) :=
  if obs.mac = zeroMac then none else obs.ip.map fun ip => (obs.mac, ip)

def eventAddresses : CaptureEvent → List (MacAddr × Ipv4Be)
  | .discovery e => (decodeEvent e).filterMap sightingAddress
  | .flows _ => []

def addresses (history : List Arrival) : List (MacAddr × Ipv4Be) :=
  history.flatMap fun arrival => eventAddresses arrival.event

/-- The device most recently seen at an address. -/
def latestHolder (seen : List (MacAddr × Ipv4Be)) (ip : Ipv4Be) : Option MacAddr :=
  (seen.filter fun entry => entry.2 = ip).getLast?.map Prod.fst

/-- The flow's traffic goes to the given device and to no other, whatever its counters. -/
def Credits (order : List MacAddr) (registry : DeviceRegistry) (key : FlowKey) (mac : MacAddr) :
    Prop :=
  ∀ stats now a, (DeviceRegistry.applyFlow order registry key stats now).get a =
    if a = mac then (registry.get a).map fun d => creditFlow d stats now else registry.get a

/-! ## Devices list the addresses they were seen at -/

/-- A device lists exactly the addresses at which it was seen. -/
def Lists (registry : DeviceRegistry) (seen : List (MacAddr × Ipv4Be)) : Prop :=
  ∀ mac ip, (∃ d, registry.get mac = some d ∧ fmtIpv4 ip ∈ d.ips) ↔ (mac, ip) ∈ seen

private theorem mem_withIp (ips : List Str) (new : Option Ipv4Be) (ip : Ipv4Be) :
    fmtIpv4 ip ∈ withIp ips new ↔ fmtIpv4 ip ∈ ips ∨ new = some ip := by
  cases new with
  | none => simp [withIp]
  | some n =>
      simp only [withIp, List.mem_append, List.mem_singleton, Option.some.injEq,
        fmtIpv4_injective.eq_iff, eq_comm (a := n)]
      by_cases h : ip = n
      · simp [h]
      · rw [List.mem_erase_of_ne fun heq => h (fmtIpv4_injective heq)]

private theorem lists_handleObservation (now : Int) {agent : Agent}
    {seen : List (MacAddr × Ipv4Be)} (h : Lists agent.registry seen) (obs : Observation) :
    Lists (handleObservation now agent obs).1.registry
      (seen ++ (sightingAddress obs).toList) := by
  by_cases hzero : obs.mac = zeroMac
  · rw [handleObservation_zero now agent obs hzero, sightingAddress, if_pos hzero]
    simpa using h
  · intro mac ip
    rw [get_handleObservation now agent obs hzero, sightingAddress, if_neg hzero, List.mem_append,
      ← h mac ip]
    by_cases hmac : mac = obs.mac
    · subst mac
      have hold : fmtIpv4 ip ∈ ((agent.registry.get obs.mac).getD (Device.new obs.mac now)).ips ↔
          ∃ d, agent.registry.get obs.mac = some d ∧ fmtIpv4 ip ∈ d.ips := by
        cases agent.registry.get obs.mac <;> simp [Device.new]
      simp only [if_true, Option.some.injEq, exists_eq_left', observed, retype, foldObservation_eq,
        mem_withIp, hold]
      cases obs.ip <;> simp [eq_comm]
    · cases hip : obs.ip <;> simp [hmac]

private theorem lists_discovery (now : Int) (observations : List Observation) {agent : Agent}
    {seen : List (MacAddr × Ipv4Be)} (h : Lists agent.registry seen) :
    Lists (foldEmit (handleObservation now) agent observations).1.registry
      (seen ++ observations.filterMap sightingAddress) := by
  induction observations generalizing agent seen with
  | nil => simpa using h
  | cons obs rest ih =>
      have hrest := ih (lists_handleObservation now h obs)
      rw [foldEmit_cons]
      cases hobs : sightingAddress obs with
      | none => simpa [hobs] using hrest
      | some entry => simpa [hobs] using hrest

private theorem lists_handleFlow (now : Int) (order : List MacAddr) {agent : Agent}
    {seen : List (MacAddr × Ipv4Be)} (h : Lists agent.registry seen)
    (flow : FlowKey × FlowStats) :
    Lists (handleFlow now order agent flow).1.registry seen := by
  intro mac ip
  rw [get_handleFlow, ← h mac ip]
  split_ifs
  · cases agent.registry.get mac <;> simp [creditFlow]
  · rfl

/-- An event adds the addresses that it shows. -/
theorem lists_step (agent : Agent) (arrival : Arrival) (later : Agent)
    {seen : List (MacAddr × Ipv4Be)} (h : Lists agent.registry seen)
    (hstep : agentStep agent arrival = some later) :
    Lists later.registry (seen ++ eventAddresses arrival.event) := by
  unfold agentStep at hstep
  split_ifs at hstep
  obtain rfl := Option.some.inj hstep
  obtain ⟨ev, now, order⟩ := arrival
  cases ev with
  | discovery e => exact lists_discovery now (decodeEvent e) h
  | flows flows =>
      have hflows := foldEmit_invariant (f := handleFlow now order) (l := flows)
        (I := fun a : Agent => Lists a.registry seen) (P := fun _ => True)
        (fun _ flow _ ha => ⟨lists_handleFlow now order ha flow, fun _ _ => trivial⟩) h
      rw [eventAddresses, List.append_nil]
      exact hflows.1

/-- After any history, each device lists exactly the addresses at which the history saw it. -/
theorem lists_addresses {history : List Arrival} {agent : Agent}
    (hrun : exec agentStep Agent.initial history = some agent) :
    Lists agent.registry (addresses history) := by
  refine exec_history (I := fun history agent => Lists agent.registry (addresses history)) ?_ ?_ hrun
  · intro history agent arrival later h hstep
    have hlater := lists_step agent arrival later h hstep
    simpa [addresses] using hlater
  · intro mac ip
    simp [Agent.initial, addresses]

/-! ## Which device a flow goes to -/

private theorem find?_eq_some_iff_takeWhile {p : MacAddr → Bool} {order : List MacAddr}
    {mac : MacAddr} (hmem : mac ∈ order) (hp : p mac) :
    order.find? p = some mac ↔ ∀ other ∈ order.takeWhile (fun m => m ≠ mac), ¬ p other := by
  induction order with
  | nil => exact absurd hmem List.not_mem_nil
  | cons m order ih =>
      by_cases hm : m = mac
      · subst m
        simp [hp]
      · have hmem' : mac ∈ order := (List.mem_cons.mp hmem).resolve_left (Ne.symm hm)
        have ih := ih hmem'
        by_cases hpm : p m
        · simp [hpm, hm]
        · simpa [hpm, hm] using ih

/-- What a flow does to the registry betrays the device that the search stopped at. -/
theorem credits_iff_flowTarget {order : List MacAddr} {registry : DeviceRegistry} {key : FlowKey}
    {mac : MacAddr} {d : Device} (hd : registry.get mac = some d) :
    Credits order registry key mac ↔ DeviceRegistry.flowTarget order registry key = some mac := by
  constructor
  · intro h
    by_contra hne
    -- a flow stamped at another time than the record's moves the record
    have hcredit := h {} (d.lastSeen + 1) mac
    rw [DeviceRegistry.get_applyFlow, if_neg hne, if_pos rfl, hd] at hcredit
    have hseen := congrArg Device.lastSeen (Option.some.inj hcredit)
    simp only [creditFlow] at hseen
    omega
  · intro h stats now a
    rw [DeviceRegistry.get_applyFlow, h]
    simp only [Option.some.injEq, eq_comm]

theorem mem_of_latestHolder {seen : List (MacAddr × Ipv4Be)} {ip : Ipv4Be} {mac : MacAddr}
    (h : latestHolder seen ip = some mac) : (mac, ip) ∈ seen := by
  obtain ⟨⟨m, i⟩, hlast, rfl⟩ := Option.map_eq_some_iff.mp h
  have hmem := List.mem_filter.mp (List.mem_of_getLast? hlast)
  obtain rfl : i = ip := by simpa using hmem.2
  exact hmem.1

/-- The search for a flow's device, in terms of what was seen where. -/
theorem flowTarget_of_lists {registry : DeviceRegistry} {seen : List (MacAddr × Ipv4Be)}
    (h : Lists registry seen) (order : List MacAddr) (key : FlowKey) :
    DeviceRegistry.flowTarget order registry key =
      order.find? fun mac => decide ((mac, key.srcIp) ∈ seen) := by
  unfold DeviceRegistry.flowTarget
  congr 1
  funext mac
  simp only [← h mac key.srcIp, DeviceRegistry.get]
  cases registry.devices.lookup mac with
  | none => simp
  | some d =>
      rw [Bool.eq_iff_iff]
      simp

/-- In a state that lists addresses as seen, a flow is credited to a holder of its source address
and to no other device exactly when the iteration meets no other holder before. -/
private theorem credits_iff {registry : DeviceRegistry} {seen : List (MacAddr × Ipv4Be)}
    (h : Lists registry seen) {order : List MacAddr} (horder : registry.devices.IterOrder order)
    (key : FlowKey) {mac : MacAddr} (hmac : (mac, key.srcIp) ∈ seen) :
    Credits order registry key mac ↔
      ∀ other ∈ order.takeWhile (fun m => m ≠ mac), (other, key.srcIp) ∉ seen := by
  obtain ⟨d, hd, _⟩ := (h mac key.srcIp).mpr hmac
  have hmem : mac ∈ order := (horder.mem_iff mac).mpr (Finmap.mem_of_lookup_eq_some hd)
  rw [credits_iff_flowTarget hd, flowTarget_of_lists h,
    find?_eq_some_iff_takeWhile hmem (by simpa using hmac)]
  simp only [decide_eq_true_eq]

private theorem exists_order_from {registry : DeviceRegistry} {order : List MacAddr}
    (horder : registry.devices.IterOrder order) {mac : MacAddr} (hmem : mac ∈ order) :
    registry.devices.IterOrder (mac :: order.erase mac) := by
  have hperm := List.perm_cons_erase hmem
  exact ⟨hperm.nodup_iff.mp horder.1, (List.toFinset_eq_of_perm _ _ hperm).symm.trans horder.2⟩

/-- After any sequence of events, a flow from an address that was ever seen is credited to the
device most recently seen there, and to no other, exactly when the iteration order puts no other
device ever seen there before it. All iteration orders do so exactly when no other device was ever
seen there. -/
theorem credits_latest_iff (history : List Arrival) (agent : Agent)
    (hrun : exec agentStep Agent.initial history = some agent) (order : List MacAddr)
    (horder : agent.registry.devices.IterOrder order) (key : FlowKey) (mac : MacAddr)
    (hlatest : latestHolder (addresses history) key.srcIp = some mac) :
    (Credits order agent.registry key mac ↔
      ∀ other ∈ order.takeWhile (fun m => m ≠ mac), (other, key.srcIp) ∉ addresses history) ∧
    ((∀ order', agent.registry.devices.IterOrder order' → Credits order' agent.registry key mac) ↔
      ∀ other, (other, key.srcIp) ∈ addresses history → other = mac) := by
  have hlists := lists_addresses hrun
  have hmac := mem_of_latestHolder hlatest
  refine ⟨credits_iff hlists horder key hmac, ?_⟩
  constructor
  · intro hall other hother
    obtain ⟨d, hd, _⟩ := (hlists other key.srcIp).mpr hother
    have hmem : other ∈ order := (horder.mem_iff other).mpr (Finmap.mem_of_lookup_eq_some hd)
    have horder' := exists_order_from horder hmem
    have hfirst := (credits_iff hlists horder' key hmac).mp (hall _ horder')
    by_contra hne
    exact hfirst other (by simp [hne]) hother
  · intro honly order' horder'
    rw [credits_iff hlists horder' key hmac]
    intro other hother hseen
    have hne := List.mem_takeWhile_imp hother
    simp [honly other hseen] at hne

/-! ## A reassigned address -/

def laptop : MacAddr := MacAddr.ofBytes 0xf0 0x18 0x98 0x01 0x02 0x03

def phone : MacAddr := MacAddr.ofBytes 0xac 0xbc 0x32 0x01 0x02 0x03

def leasedIp : Ipv4Be := 0x0A000042

def reassigned : List Arrival := [
  ⟨.discovery (Event.holding .arp laptop leasedIp []), 100, []⟩,
  ⟨.discovery (Event.holding .arp phone leasedIp []), 200, [laptop]⟩]

def leasedFlow : FlowKey := ⟨leasedIp, 0x08080808, 40000, 443, 6⟩

theorem credits_latest_iff_reassigned :
    ∃ agent, exec agentStep Agent.initial reassigned = some agent ∧
      Credits [phone, laptop] agent.registry leasedFlow phone :=
  ⟨_, rfl, (credits_latest_iff reassigned _ rfl [phone, laptop] (by decide) leasedFlow phone
    (by decide)).1.mpr (by simp)⟩

/-- With the laptop first in the map, the phone's traffic is credited to the laptop. -/
theorem credits_old_holder :
    ¬ ∀ (history : List Arrival) (agent : Agent),
      exec agentStep Agent.initial history = some agent → ∀ (order : List MacAddr),
      agent.registry.devices.IterOrder order → ∀ (key : FlowKey) (mac : MacAddr),
      latestHolder (addresses history) key.srcIp = some mac →
      Credits order agent.registry key mac := by
  intro h
  have hcredits := h reassigned _ rfl [laptop, phone] (by decide) leasedFlow phone (by decide)
  have htarget := (credits_iff_flowTarget rfl).mp hcredits
  exact absurd htarget (by decide)

end Lanscope
