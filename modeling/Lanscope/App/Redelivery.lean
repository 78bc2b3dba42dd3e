import Lanscope.App.Persistence

/-!
# Duplicate delivery

A discovery event that is handled a second time finds everything it says already recorded: the last
hostname, the services or a full list, and its address at the end of the list. Only the time of the
last sighting moves, and nothing is written.
-/

namespace Lanscope

open Framework

/-! ## The record after a frame -/

/-- What the observations of one frame say, taken into a record. -/
def absorb (d : Device) (observations : List Observation) (now : Int) : Device :=
  { d with
    hostname := observations.foldl (fun h obs => obs.signal.asHostname.or h) d.hostname
    ips := observations.foldl (fun ips obs => withIp ips obs.ip) d.ips
    services := observations.foldl (fun s obs => withService s obs.signal.asService) d.services
    dhcpFingerprint :=
      observations.foldl (fun f obs => obs.signal.asDhcpFingerprint.or f) d.dhcpFingerprint
    dhcpVendorClass :=
      observations.foldl (fun v obs => obs.signal.asDhcpVendorClass.or v) d.dhcpVendorClass
    lastSeen := now }

private theorem foldl_retyped (now : Int) (d : Device) {observations : List Observation}
    (hne : observations ≠ []) :
    observations.foldl (fun d obs => retype (foldObservation d obs now)) d =
      retype (absorb d observations now) := by
  induction observations using List.reverseRecOn with
  | nil => exact absurd rfl hne
  | append_singleton observations obs ih =>
      rw [List.foldl_concat, foldObservation_eq]
      cases observations with
      | nil => rfl
      | cons first rest =>
          rw [ih (List.cons_ne_nil _ _)]
          simp only [absorb, retype, List.foldl_concat]
          rfl

private theorem get_foldEmit_handleObservation (now : Int) {mac : MacAddr} (hmac : mac ≠ zeroMac)
    (observations : List Observation) (hobs : ∀ obs ∈ observations, obs.mac = mac) (agent : Agent)
    (a : MacAddr) :
    (foldEmit (handleObservation now) agent observations).1.registry.get a =
      if a = mac ∧ observations ≠ [] then
        some (observations.foldl (fun d obs => retype (foldObservation d obs now))
          ((agent.registry.get mac).getD (Device.new mac now)))
      else agent.registry.get a := by
  induction observations generalizing agent with
  | nil => simp
  | cons obs rest ih =>
      have hone : obs.mac = mac := hobs obs List.mem_cons_self
      have hget := get_handleObservation now agent obs (hone ▸ hmac)
      rw [hone] at hget
      rw [foldEmit_cons, ih (fun o ho => hobs o (List.mem_cons_of_mem _ ho)), hget, hget,
        if_pos rfl]
      by_cases ha : a = mac
      · subst a
        cases rest <;> simp [observed, hone]
      · simp [ha]

private theorem quiet_foldEmit_handleObservation (now : Int) {mac : MacAddr}
    (observations : List Observation) (hobs : ∀ obs ∈ observations, obs.mac = mac) {agent : Agent}
    (hknown : (agent.registry.get mac).isSome) :
    (foldEmit (handleObservation now) agent observations).1.anomaly = agent.anomaly ∧
      (foldEmit (handleObservation now) agent observations).2 = [] := by
  have hquiet := foldEmit_invariant (f := handleObservation now) (l := observations)
    (I := fun a : Agent => a.anomaly = agent.anomaly ∧ (a.registry.get mac).isSome)
    (P := fun _ => False) (fun a obs hmem ha => ?_) ⟨rfl, hknown⟩
  · exact ⟨hquiet.1.1, List.eq_nil_iff_forall_not_mem.mpr hquiet.2⟩
  · have hone := hobs obs hmem
    obtain ⟨hanomaly, hwrites⟩ := handleObservation_known now a obs (hone ▸ ha.2)
    rw [hanomaly, hwrites]
    refine ⟨⟨ha.1, ?_⟩, by simp⟩
    by_cases hzero : obs.mac = zeroMac
    · rw [handleObservation_zero now a obs hzero]
      exact ha.2
    · rw [get_handleObservation now a obs hzero, if_pos hone.symm]
      rfl

/-! ## The second time -/

/-- The record does not list the frame's address twice. -/
def ListsOnce (registry : DeviceRegistry) (e : Event) : Prop :=
  ∀ d, registry.get e.srcMac = some d → ∀ ip, eventIp e = some ip → d.ips.count (fmtIpv4 ip) ≤ 1

/-- The registries differ at most in when the device was last seen. -/
def SameButLastSeen (mac : MacAddr) (registry later : DeviceRegistry) : Prop :=
  (∀ a, a ≠ mac → later.get a = registry.get a) ∧
    ∃ t, later.get mac = (registry.get mac).map fun d => { d with lastSeen := t }

theorem withIp_twice {ips : List Str} {ip : Option Ipv4Be}
    (h : ∀ a, ip = some a → ips.count (fmtIpv4 a) ≤ 1) :
    withIp (withIp ips ip) ip = withIp ips ip := by
  cases ip with
  | none => rfl
  | some a =>
      have hgone : fmtIpv4 a ∉ ips.erase (fmtIpv4 a) := by
        rw [← List.count_eq_zero, List.count_erase_self]
        have := h a rfl
        omega
      simp only [withIp]
      rw [List.erase_append_right _ hgone, List.erase_cons_head, List.append_nil]

private theorem foldl_withIp_twice {observations : List Observation} {ip : Option Ipv4Be}
    (hobs : ∀ obs ∈ observations, obs.ip = ip) {ips : List Str}
    (h : ∀ a, ip = some a → ips.count (fmtIpv4 a) ≤ 1) :
    observations.foldl (fun ips obs => withIp ips obs.ip)
        (observations.foldl (fun ips obs => withIp ips obs.ip) ips) =
      observations.foldl (fun ips obs => withIp ips obs.ip) ips := by
  have hsettled (rest : List Observation) (hrest : ∀ obs ∈ rest, obs.ip = ip) :
      rest.foldl (fun ips obs => withIp ips obs.ip) (withIp ips ip) = withIp ips ip := by
    apply foldl_settled
    intro obs hmem
    rw [hrest obs hmem]
    exact withIp_twice h
  cases observations with
  | nil => rfl
  | cons first rest =>
      have hfirst := hobs first List.mem_cons_self
      have hrest := hsettled rest fun obs hmem => hobs obs (List.mem_cons_of_mem _ hmem)
      simp only [List.foldl_cons, hfirst, hrest, withIp_twice h]

/-- A service is listed once it is taken in, or there was no room for it. -/
theorem listed_or_full_withService (services : List Str) (s : Str) :
    s ∈ withService services (some s) ∨
      maxServices ≤ (withService services (some s)).length := by
  simp only [withService]
  split_ifs with h
  · simp
  · by_cases hmem : s ∈ services
    · exact Or.inl hmem
    · exact Or.inr (not_lt.mp fun hroom => h ⟨hmem, hroom⟩)

theorem withService_settled {services : List Str} {s : Str}
    (h : s ∈ services ∨ maxServices ≤ services.length) :
    withService services (some s) = services := by
  apply if_neg
  intro hnew
  cases h with
  | inl hmem => exact hnew.1 hmem
  | inr hfull => exact absurd hnew.2 (not_lt.mpr hfull)

theorem prefix_withService (services : List Str) (s : Option Str) :
    services <+: withService services s := by
  cases s with
  | none => exact List.prefix_refl _
  | some s =>
      simp only [withService]
      split_ifs
      · exact List.prefix_append _ _
      · exact List.prefix_refl _

private theorem foldl_withService_twice (observations : List Observation) (services : List Str) :
    observations.foldl (fun s obs => withService s obs.signal.asService)
        (observations.foldl (fun s obs => withService s obs.signal.asService) services) =
      observations.foldl (fun s obs => withService s obs.signal.asService) services := by
  apply foldl_twice
  · intro services obs
    cases obs.signal.asService with
    | none => rfl
    | some s => exact withService_settled (listed_or_full_withService services s)
  · intro services obs other h
    cases hs : obs.signal.asService with
    | none => rfl
    | some s =>
        have hlisted := listed_or_full_withService services s
        rw [← hs, h] at hlisted
        have hgrows := prefix_withService services other.signal.asService
        apply withService_settled
        cases hlisted with
        | inl hmem => exact Or.inl (hgrows.subset hmem)
        | inr hfull => exact Or.inr (hfull.trans hgrows.length_le)

private theorem retype_absorb_twice (d : Device) (now now' : Int)
    {observations : List Observation} {ip : Option Ipv4Be}
    (hobs : ∀ obs ∈ observations, obs.ip = ip)
    (h : ∀ a, ip = some a → d.ips.count (fmtIpv4 a) ≤ 1) :
    retype (absorb (retype (absorb d observations now)) observations now') =
      { retype (absorb d observations now) with lastSeen := now' } := by
  have hagain : absorb (retype (absorb d observations now)) observations now' =
      { retype (absorb d observations now) with lastSeen := now' } := by
    simp only [absorb, retype, foldl_or_twice, foldl_withIp_twice hobs h, foldl_withService_twice]
  rw [hagain]
  rfl

private theorem foldEmit_zeroMac (now : Int) {observations : List Observation}
    (hobs : ∀ obs ∈ observations, obs.mac = zeroMac) (agent : Agent) :
    foldEmit (handleObservation now) agent observations = (agent, []) := by
  induction observations with
  | nil => rfl
  | cons obs rest ih =>
      rw [foldEmit_cons, handleObservation_zero now agent obs (hobs obs List.mem_cons_self),
        ih fun o ho => hobs o (List.mem_cons_of_mem _ ho)]
      rfl

/-- A second handling moves the time of the last sighting at most, and writes nothing. -/
theorem handleEvent_twice {agent : Agent} {e : Event} (honce : ListsOnce agent.registry e)
    (now now' : Int) (order order' : List MacAddr) {once : Agent}
    (hfirst : once = (handleEvent now order agent (.discovery e)).agent) :
    SameButLastSeen e.srcMac once.registry
        (handleEvent now' order' once (.discovery e)).agent.registry ∧
      (handleEvent now' order' once (.discovery e)).writes = [] := by
  have hmacs : ∀ obs ∈ decodeEvent e, obs.mac = e.srcMac := fun _ hobs => (mem_decodeEvent hobs).1
  have hips : ∀ obs ∈ decodeEvent e, obs.ip = eventIp e := fun _ hobs => (mem_decodeEvent hobs).2
  simp only [handleEvent] at hfirst ⊢
  by_cases hidle : e.srcMac = zeroMac ∨ decodeEvent e = []
  · have hnothing (now : Int) (agent : Agent) :
        foldEmit (handleObservation now) agent (decodeEvent e) = (agent, []) := by
      cases hidle with
      | inl hzero => exact foldEmit_zeroMac now (fun obs hobs => (hmacs obs hobs).trans hzero) agent
      | inr hnone => rw [hnone, foldEmit_nil]
    rw [hnothing]
    refine ⟨⟨fun a _ => rfl, ?_⟩, rfl⟩
    cases hget : once.registry.get e.srcMac with
    | none => exact ⟨0, rfl⟩
    | some d => exact ⟨d.lastSeen, rfl⟩
  · rw [not_or] at hidle
    obtain ⟨hmac, hne⟩ := hidle
    have hget := get_foldEmit_handleObservation now hmac (decodeEvent e) hmacs agent
    have hget' := get_foldEmit_handleObservation now' hmac (decodeEvent e) hmacs once
    simp only [ne_eq, hne, not_false_eq_true, and_true, foldl_retyped _ _ hne] at hget hget'
    rw [← hfirst] at hget
    have hself := (hget e.srcMac).trans (if_pos rfl)
    have hknown : (once.registry.get e.srcMac).isSome := by
      rw [hself]
      rfl
    refine ⟨⟨fun a ha => (hget' a).trans (if_neg ha), now', ?_⟩,
      (quiet_foldEmit_handleObservation now' _ hmacs hknown).2⟩
    rw [hget', if_pos rfl, hself, Option.getD_some, Option.map_some, retype_absorb_twice _ _ _ hips]
    intro a ha
    cases hd : agent.registry.get e.srcMac with
    | none => simp [Device.new]
    | some d => exact honce d hd a ha

/-! ## Which registries list an address once -/

private theorem nodup_withIp {ips : List Str} (h : ips.Nodup) (ip : Option Ipv4Be) :
    (withIp ips ip).Nodup := by
  cases ip with
  | none => exact h
  | some a =>
      have hgone : fmtIpv4 a ∉ ips.erase (fmtIpv4 a) := h.not_mem_erase
      exact (h.erase _).append (List.nodup_singleton _) (List.disjoint_singleton.mpr hgone)

private theorem nodup_recordInvariant : RecordInvariant fun _ d => d.ips.Nodup where
  created obs now _ := by
    simp only [retype, foldObservation_eq]
    exact nodup_withIp List.nodup_nil obs.ip
  updated obs now d h := by
    simp only [retype, foldObservation_eq]
    exact nodup_withIp h obs.ip
  credited _ _ _ _ h := h

theorem listsOnce_of_history {serde : Serde} (hserde : serde.RoundTrip) {history : List SiteStep}
    {s : Site} (hrun : exec (siteStep serde) Site.initial history = some s) {agent : Agent}
    (hagent : s.agent = some agent) (e : Event) : ListsOnce agent.registry e := by
  have hs := exec_invariant (siteHolds_step nodup_recordInvariant hserde fun _ _ h => h)
    (siteHolds_initial serde fun d => d.ips.Nodup) hrun
  intro d hd ip _
  exact List.nodup_iff_count_le_one.mp (hs.records agent hagent e.srcMac d hd) (fmtIpv4 ip)

/-- Where the sender's record lists the frame's address at most once, a second delivery of a frame
changes nothing but when the sender was last seen, raises no alert and writes no row. All
registries that sessions over one store lead to are such. -/
theorem redelivery_harmless :
    (∀ (agent : Agent) (e : Event) (now now' : Int) (order order' : List MacAddr),
      ListsOnce agent.registry e →
      let once := (handleEvent now order agent (.discovery e)).agent
      let again := handleEvent now' order' once (.discovery e)
      SameButLastSeen e.srcMac once.registry again.agent.registry ∧ again.writes = []) ∧
    ∀ serde : Serde, serde.RoundTrip → ∀ (history : List SiteStep) (s : Site),
      exec (siteStep serde) Site.initial history = some s → ∀ agent, s.agent = some agent →
      ∀ e, ListsOnce agent.registry e :=
  ⟨fun _ _ now now' order order' honce => handleEvent_twice honce now now' order order' rfl,
    fun _ hserde _ _ hrun _ hagent e => listsOnce_of_history hserde hrun hagent e⟩

/-- A lease request that names its host and its parameters. -/
def leaseRequest : Event :=
  Event.holding .dhcp arpEvent.srcMac arpEvent.srcIp
    (Dhcp.magicCookie ++ [12, 1, 97, 55, 2, 1, 3, 60, 1, 98, 255])

/-- A device that has had the address before, and another one since. -/
def roaming : Agent where
  registry := DeviceRegistry.empty.load arpEvent.srcMac
    { Device.new arpEvent.srcMac 50 with
      ips := [fmtIpv4 0x0A000041, fmtIpv4 arpEvent.srcIp, fmtIpv4 0x0A000043] }
  anomaly := Engine.defaultStack

theorem redelivery_harmless_leaseRequest :
    (handleEvent 101 [] (handleEvent 100 [] roaming (.discovery leaseRequest)).agent
      (.discovery leaseRequest)).writes = [] := by
  refine (redelivery_harmless.1 roaming leaseRequest 100 101 [] [] fun d hd ip hip => ?_).2
  obtain rfl := Option.some.inj hd
  obtain rfl := Option.some.inj hip
  decide

/-- A record that a store lists twice at one address, with another address after it. -/
def twiceListed : Device :=
  { Device.new arpEvent.srcMac 100 with
    ips := [fmtIpv4 arpEvent.srcIp, fmtIpv4 arpEvent.srcIp, fmtIpv4 0x0A000043] }

/-- Each handling moves one of the two entries to the end. -/
theorem redelivery_moves_twice : ¬ ∀ (agent : Agent) (e : Event) (now now' : Int)
    (order order' : List MacAddr),
    let once := (handleEvent now order agent (.discovery e)).agent
    let again := handleEvent now' order' once (.discovery e)
    SameButLastSeen e.srcMac once.registry again.agent.registry ∧ again.writes = [] := by
  intro h
  let agent : Agent :=
    ⟨DeviceRegistry.empty.load arpEvent.srcMac twiceListed, Engine.defaultStack⟩
  let once := (handleEvent 200 [] agent (.discovery arpEvent)).agent
  let again := (handleEvent 201 [] once (.discovery arpEvent)).agent
  obtain ⟨⟨_, t, hself⟩, _⟩ := h agent arpEvent 200 201 [] []
  have hips : (again.registry.get arpEvent.srcMac).map Device.ips =
      (once.registry.get arpEvent.srcMac).map Device.ips := by
    rw [hself, Option.map_map]
    rfl
  exact absurd hips (by decide)

end Lanscope
