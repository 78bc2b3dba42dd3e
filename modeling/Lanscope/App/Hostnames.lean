import Lanscope.App.HandleEvent
import Lanscope.Decode.Hostnames
import Lanscope.Registry.History

/-!
# Hostnames in the registry

A hostname is recorded as its decoder returns it, so the registry holds padded hostnames as soon as
one frame carries a hostname whose padding the decoder does not get off.
-/

namespace Lanscope

open Framework

def HostnamesUnpadded (registry : DeviceRegistry) : Prop :=
  ∀ mac d, registry.get mac = some d → ∀ h, d.hostname = some h → Unpadded h

/-- The registries that an agent holds while it handles discovery events, each at its time: between
two events, and between two observations of one. -/
inductive Visits : Agent → List (Event × Int) → DeviceRegistry → Prop
  | here (agent : Agent) (events : List (Event × Int)) : Visits agent events agent.registry
  | within (agent : Agent) (e : Event) (now : Int) (events : List (Event × Int))
      (seen : List Observation) (h : seen <+: decodeEvent e) :
      Visits agent ((e, now) :: events) (foldEmit (handleObservation now) agent seen).1.registry
  | later (agent : Agent) (e : Event) (now : Int) (events : List (Event × Int))
      (registry : DeviceRegistry)
      (h : Visits (handleEvent now [] agent (.discovery e)).agent events registry) :
      Visits agent ((e, now) :: events) registry

/-- One observation puts its own hostname at most into the record. -/
theorem hostnamesUnpadded_handleObservation (now : Int) {agent : Agent}
    (h : HostnamesUnpadded agent.registry) {obs : Observation}
    (hobs : obs.mac = zeroMac ∨ ∀ host, obs.signal = .hostname host → Unpadded host) :
    HostnamesUnpadded (handleObservation now agent obs).1.registry := by
  by_cases hmac : obs.mac = zeroMac
  · rw [handleObservation_zero now agent obs hmac]
    exact h
  · have hclean := hobs.resolve_left hmac
    intro a d hd host hhost
    rw [get_handleObservation now agent obs hmac] at hd
    by_cases ha : a = obs.mac
    · rw [if_pos ha, Option.some.injEq] at hd
      subst d
      have hor : (obs.signal.asHostname.or
          ((agent.registry.get obs.mac).getD (Device.new obs.mac now)).hostname) = some host := by
        simpa only [observed, retype, foldObservation_eq] using hhost
      cases Option.or_eq_some_iff.mp hor with
      | inl hnew => exact hclean host (Signal.asHostname_eq_some_iff.mp hnew)
      | inr hkept =>
          cases hget : agent.registry.get obs.mac with
          | none => simp [hget, Device.new] at hkept
          | some old =>
              rw [hget] at hkept
              exact h obs.mac old hget host hkept.2
    · rw [if_neg ha] at hd
      exact h a d hd host hhost

theorem hostnamesUnpadded_foldEmit (now : Int) {agent : Agent}
    (h : HostnamesUnpadded agent.registry) {e : Event}
    (he : e.srcMac = zeroMac ∨ CleanHostnames e) {seen : List Observation}
    (hseen : seen <+: decodeEvent e) :
    HostnamesUnpadded (foldEmit (handleObservation now) agent seen).1.registry := by
  have hstep : ∀ a : Agent, ∀ obs ∈ seen, HostnamesUnpadded a.registry →
      HostnamesUnpadded (handleObservation now a obs).1.registry ∧
        ∀ w ∈ (handleObservation now a obs).2, True := by
    intro a obs hmem ha
    refine ⟨hostnamesUnpadded_handleObservation now ha ?_, fun _ _ => trivial⟩
    have hmem' := hseen.subset hmem
    rw [(mem_decodeEvent hmem').1]
    apply he.imp_right
    intro hclean host hsignal
    obtain ⟨signal, hin, rfl⟩ := List.mem_map.mp hmem'
    exact (cleanHostnames_iff e).mp hclean host (hsignal ▸ hin)
  exact (foldEmit_invariant hstep h).1

/-- A hostname that a frame carries is recorded at some moment. -/
theorem visits_hostname (agent : Agent) {e : Event} (hmac : e.srcMac ≠ zeroMac) (now : Int)
    (events : List (Event × Int)) {host : Str} (hhost : .hostname host ∈ eventSignals e) :
    ∃ registry d, Visits agent ((e, now) :: events) registry ∧
      registry.get e.srcMac = some d ∧ d.hostname = some host := by
  obtain ⟨before, after, hsplit⟩ := List.append_of_mem hhost
  let observation (signal : Signal) : Observation := ⟨e.srcMac, eventIp e, signal⟩
  have hseen : before.map observation ++ [observation (.hostname host)] <+: decodeEvent e := by
    refine ⟨after.map observation, ?_⟩
    rw [decodeEvent, hsplit, List.map_append, List.map_cons, List.append_assoc]
    rfl
  let earlier := (foldEmit (handleObservation now) agent (before.map observation)).1
  let device := observed earlier.registry (observation (.hostname host)) now
  have hget : (foldEmit (handleObservation now) agent
      (before.map observation ++ [observation (.hostname host)])).1.registry.get e.srcMac =
      some device := by
    rw [foldEmit_append, foldEmit_singleton, get_handleObservation _ _ _ hmac]
    exact if_pos rfl
  have hname : device.hostname = some host := by
    simp only [device, observed, retype, foldObservation_eq]
    rfl
  exact ⟨_, device, Visits.within agent e now events _ hseen, hget, hname⟩

theorem hostnamesUnpadded_of_visits {agent : Agent} {events : List (Event × Int)}
    {registry : DeviceRegistry} (hvisits : Visits agent events registry)
    (h : HostnamesUnpadded agent.registry)
    (hclean : ∀ ev ∈ events, ev.1.srcMac = zeroMac ∨ CleanHostnames ev.1) :
    HostnamesUnpadded registry := by
  induction hvisits with
  | here agent events => exact h
  | within agent e now events seen hseen =>
      exact hostnamesUnpadded_foldEmit now h (hclean _ List.mem_cons_self) hseen
  | later agent e now events registry hvisits ih =>
      apply ih
      · exact hostnamesUnpadded_foldEmit now h (hclean _ List.mem_cons_self) (List.prefix_refl _)
      · exact fun ev hev => hclean ev (List.mem_cons_of_mem _ hev)

theorem clean_of_visits {agent : Agent} {events : List (Event × Int)}
    (h : ∀ registry, Visits agent events registry → HostnamesUnpadded registry) :
    ∀ ev ∈ events, ev.1.srcMac = zeroMac ∨ CleanHostnames ev.1 := by
  induction events generalizing agent with
  | nil => simp
  | cons ev events ih =>
      obtain ⟨e, now⟩ := ev
      intro ev hev
      cases List.mem_cons.mp hev with
      | inl hhead =>
          subst ev
          by_cases hmac : e.srcMac = zeroMac
          · exact Or.inl hmac
          · apply Or.inr
            apply (cleanHostnames_iff e).mpr
            intro host hhost
            obtain ⟨registry, d, hvisits, hd, hname⟩ := visits_hostname agent hmac now events hhost
            exact h registry hvisits e.srcMac d hd host hname
      | inr htail =>
          exact ih (fun registry hv => h registry (Visits.later _ _ _ _ _ hv)) ev htail

/-- From an empty registry, whatever frames arrive, no hostname is padded at any moment exactly when
no frame carries one whose padding its decoder leaves on. A hostname is without padding exactly when
normalising it again changes nothing. -/
theorem hostnames_unpadded_iff (engine : Engine) (events : List (Event × Int)) :
    ((∀ registry, Visits ⟨DeviceRegistry.empty, engine⟩ events registry →
        HostnamesUnpadded registry) ↔
      ∀ ev ∈ events, ev.1.srcMac = zeroMac ∨ CleanHostnames ev.1) ∧
    ∀ h, Unpadded h ↔ h ≠ [] ∧ normalise h = h := by
  refine ⟨⟨clean_of_visits, fun hclean registry hvisits => ?_⟩, unpadded_iff_normalise⟩
  have hempty : HostnamesUnpadded DeviceRegistry.empty := by
    intro mac d hd
    exact absurd hd (by simp)
  exact hostnamesUnpadded_of_visits hvisits hempty hclean

/-- A hostname option that holds a space, a NUL and `pi`. -/
def paddedDhcp : Event :=
  .holding .dhcp (MacAddr.ofBytes 2 0 0 0 0 1) 0 (Dhcp.magicCookie ++ [12, 4, 32, 0, 112, 105])

def spacedLabel : Dns.Label := ⟨[32, 116, 118], by decide, by decide, by decide⟩

/-- The name ` tv.local`. -/
def paddedMdns : Event :=
  .holding .mdns (MacAddr.ofBytes 2 0 0 0 0 1) 0 (Dns.encodeName [spacedLabel, Mdns.localLabel])

private theorem paddedDhcp_carries :
    .hostname [Char.ofNat 0, 'p', 'i'] ∈ eventSignals paddedDhcp := by
  have hfirst : Dhcp.FirstCookie (Dhcp.magicCookie ++ [12, 4, 32, 0, 112, 105]) 0 := by decide
  have htext : Utf8.fromUtf8 [32, 0, 112, 105] = some [' ', Char.ofNat 0, 'p', 'i'] :=
    (Utf8.fromUtf8_ascii (by simp)).trans rfl
  have hwalk : Dhcp.walk [12, 4, 32, 0, 112, 105] =
      Dhcp.optionSignal 12 [32, 0, 112, 105] ++ Dhcp.walk [] :=
    Dhcp.walk_option (show (12 : UInt8) ≠ Dhcp.optPad by decide) (by decide)
      (show [32, 0, 112, 105].length = (4 : UInt8).toNat from rfl) []
  show _ ∈ Dhcp.decode paddedDhcp.validPayload
  rw [paddedDhcp, Event.validPayload_holding _ _ _ (by decide), Dhcp.decode_of_firstCookie hfirst]
  show _ ∈ Dhcp.walk [12, 4, 32, 0, 112, 105]
  rw [hwalk, Dhcp.walk_nil]
  simp only [Dhcp.optionSignal, htext]
  decide

private theorem paddedMdns_carries : .hostname " tv".toList ∈ eventSignals paddedMdns := by
  show _ ∈ Mdns.decode paddedMdns.validPayload
  rw [paddedMdns, Event.validPayload_holding _ _ _ (by decide), Mdns.hostname_mem_decode_iff]
  have hread := Dns.readName_encode [] [] [spacedLabel, Mdns.localLabel]
  rw [List.append_nil] at hread
  exact ⟨0, _, hread, by decide, by decide, by decide, by decide⟩

private theorem not_unpadded_of_carries {e : Event} (hmac : e.srcMac ≠ zeroMac) {host : Str}
    (hpadded : ¬ Unpadded host) (hhost : .hostname host ∈ eventSignals e) (engine : Engine)
    (now : Int) : ¬ ∀ registry, Visits ⟨DeviceRegistry.empty, engine⟩ [(e, now)] registry →
      HostnamesUnpadded registry := by
  intro h
  have hclean := (clean_of_visits h _ List.mem_cons_self).resolve_left hmac
  exact hpadded ((cleanHostnames_iff e).mp hclean host hhost)

/-- One frame of either kind puts a padded hostname into the registry. -/
theorem hostnames_padded :
    (¬ ∀ registry, Visits ⟨DeviceRegistry.empty, Engine.defaultStack⟩ [(paddedDhcp, 100)] registry →
      HostnamesUnpadded registry) ∧
    ¬ ∀ registry, Visits ⟨DeviceRegistry.empty, Engine.defaultStack⟩ [(paddedMdns, 100)] registry →
      HostnamesUnpadded registry := by
  have hnul : ¬ Unpadded [Char.ofNat 0, 'p', 'i'] := fun h => h.2.1 _ rfl (by decide)
  have hspace : ¬ Unpadded " tv".toList := fun h => h.2.1 _ rfl (by decide)
  constructor
  · exact not_unpadded_of_carries (by decide) hnul paddedDhcp_carries _ 100
  · exact not_unpadded_of_carries (by decide) hspace paddedMdns_carries _ 100

end Lanscope
