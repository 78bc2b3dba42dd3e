import Lanscope.App.Persistence
import Lanscope.App.Traffic

/-!
# The registry as a view of the event log

What the registry knows of a device is a function of the log of that device alone: its sightings, and
the flows from addresses at which it was seen and comes first. How the log was cut into runs of the
program makes no difference, as long as each run ends with a flush that succeeds.
-/

namespace Lanscope

open Framework

/-- What can happen to a device. -/
inductive LogEntry
  | sighted (sighting : Sighting)
  | credited (stats : FlowStats) (now : Int)

namespace LogEntry

def sighting : LogEntry → Option Sighting
  | .sighted o => some o
  | .credited _ _ => none

def stats : LogEntry → Option FlowStats
  | .sighted _ => none
  | .credited stats _ => some stats

def time : LogEntry → Int
  | .sighted o => o.2
  | .credited _ now => now

end LogEntry

/-- What an event means for a device, given who was seen at which address before. -/
def entriesOf (mac : MacAddr) (seen : List (MacAddr × Ipv4Be)) (arrival : Arrival) : List LogEntry :=
  match arrival.event with
  | .discovery e =>
    ((decodeEvent e).filter fun obs => obs.mac = mac ∧ obs.mac ≠ zeroMac).map fun obs =>
      .sighted (obs, arrival.now)
  | .flows flows =>
    -- of all devices seen at the source address, the first in the map gets the flow
    (flows.filter fun flow =>
      arrival.order.find? (fun m => decide ((m, flow.1.srcIp) ∈ seen)) = some mac).map fun flow =>
        .credited flow.2 arrival.now

def deviceLog (mac : MacAddr) : List (MacAddr × Ipv4Be) → List Arrival → List LogEntry
  | _, [] => []
  | seen, arrival :: history =>
    entriesOf mac seen arrival ++ deviceLog mac (seen ++ eventAddresses arrival.event) history

def creditSum (counter : FlowStats → UInt64) (log : List LogEntry) : Nat :=
  ((log.filterMap LogEntry.stats).map fun stats => (counter stats).toNat).sum

/-- The record that a log stands for: a summary of the sightings, with the counters of the credited
flows and the time of the last entry. -/
def recordOf (mac : MacAddr) (log : List LogEntry) : Option Device :=
  (summary mac (log.filterMap LogEntry.sighting)).map fun d =>
    { d with
      deviceType := (classify d).map Classification.deviceType
      packets := saturated (creditSum FlowStats.packets log)
      bytes := saturated (creditSum FlowStats.bytes log)
      lastSeen := (log.getLast?.map LogEntry.time).getD d.lastSeen }

/-! ## One more entry -/

/-- A log opens with a sighting. -/
def Opened (log : List LogEntry) : Prop := log.filterMap LogEntry.sighting = [] → log = []

theorem recordOf_eq_none {mac : MacAddr} {log : List LogEntry} :
    recordOf mac log = none ↔ log.filterMap LogEntry.sighting = [] := by
  rw [recordOf, Option.map_eq_none_iff]
  cases log.filterMap LogEntry.sighting <;> simp [summary]

theorem recordOf_sighted {mac : MacAddr} {log : List LogEntry} (hopened : Opened log)
    (o : Sighting) : recordOf mac (log ++ [LogEntry.sighted o]) =
      some (retype (foldObservation ((recordOf mac log).getD (Device.new mac o.2)) o.1 o.2)) := by
  have hsighting : (log ++ [LogEntry.sighted o]).filterMap LogEntry.sighting =
      log.filterMap LogEntry.sighting ++ [o] := by
    simp [LogEntry.sighting]
  have hsum (counter : FlowStats → UInt64) :
      creditSum counter (log ++ [LogEntry.sighted o]) = creditSum counter log := by
    simp [creditSum, List.filterMap_cons, LogEntry.stats]
  have htime : ((log ++ [LogEntry.sighted o]).getLast?.map LogEntry.time) = some o.2 := by
    simp [LogEntry.time]
  rw [recordOf, hsighting, summary_concat, htime, hsum, hsum, Option.map_some, Option.some.injEq]
  cases hsum : summary mac (log.filterMap LogEntry.sighting) with
  | none =>
      obtain rfl := hopened (recordOf_eq_none.mp (by rw [recordOf, hsum, Option.map_none]))
      have hzero : saturated 0 = 0 := by decide
      simp only [recordOf, Option.getD_none, foldObservation_eq, retype, creditSum,
        List.filterMap_nil, List.map_nil, List.sum_nil, hzero]
      rfl
  | some d =>
      rw [recordOf, hsum, Option.map_some, Option.getD_some, Option.getD_some, foldObservation_eq,
        foldObservation_eq, retype]
      congr 1

theorem recordOf_credited (mac : MacAddr) (log : List LogEntry) (stats : FlowStats) (now : Int) :
    recordOf mac (log ++ [LogEntry.credited stats now]) =
      (recordOf mac log).map fun d => creditFlow d stats now := by
  have hsighting : (log ++ [LogEntry.credited stats now]).filterMap LogEntry.sighting =
      log.filterMap LogEntry.sighting := by simp [List.filterMap_cons, LogEntry.sighting]
  have hsum (counter : FlowStats → UInt64) : creditSum counter (log ++ [LogEntry.credited stats now]) =
      creditSum counter log + (counter stats).toNat := by
    simp [creditSum, LogEntry.stats]
  rw [recordOf, recordOf, hsighting, Option.map_map]
  congr 1
  funext d
  simp only [Function.comp_apply, creditFlow, saturatingAdd_saturated, hsum, List.getLast?_concat,
    Option.map_some, Option.getD_some, LogEntry.time]

theorem recordOf_credits (mac : MacAddr) (log : List LogEntry) (flows : List (FlowKey × FlowStats))
    (now : Int) : recordOf mac (log ++ flows.map fun flow => .credited flow.2 now) =
      (recordOf mac log).map fun d => creditTotal d flows now := by
  induction flows using List.reverseRecOn with
  | nil => simp only [List.map_nil, List.append_nil, creditTotal_nil, Option.map_id']
  | append_singleton flows f ih =>
      rw [List.map_append, ← List.append_assoc, List.map_singleton, recordOf_credited, ih,
        Option.map_map]
      simp only [Function.comp_def, creditFlow_creditTotal]

/-! ## One event -/

/-- The records are what the logs say. -/
structure Mirrors (registry : DeviceRegistry) (log : MacAddr → List LogEntry) : Prop where
  get : ∀ mac, registry.get mac = recordOf mac (log mac)
  opened : ∀ mac, Opened (log mac)

private theorem opened_sighted (log : List LogEntry) (o : Sighting) :
    Opened (log ++ [.sighted o]) := by
  intro hnone
  simp [LogEntry.sighting] at hnone

private theorem mirrors_handleObservation (now : Int) {agent : Agent} {log : MacAddr → List LogEntry}
    (h : Mirrors agent.registry log) (obs : Observation) :
    Mirrors (handleObservation now agent obs).1.registry fun mac =>
      log mac ++ if obs.mac = mac ∧ obs.mac ≠ zeroMac then [.sighted (obs, now)] else [] := by
  by_cases hzero : obs.mac = zeroMac
  · rw [handleObservation_zero now agent obs hzero]
    simpa [hzero] using h
  · constructor
    · intro mac
      rw [get_handleObservation now agent obs hzero]
      by_cases hmac : mac = obs.mac
      · subst mac
        rw [if_pos rfl, if_pos ⟨rfl, hzero⟩, recordOf_sighted (h.opened obs.mac), ← h.get, observed]
      · rw [if_neg hmac, if_neg fun heq => hmac heq.1.symm, List.append_nil, h.get]
    · intro mac
      split_ifs
      · exact opened_sighted _ _
      · simpa using h.opened mac

private theorem mirrors_discovery (now : Int) (observations : List Observation) {agent : Agent}
    {log : MacAddr → List LogEntry} (h : Mirrors agent.registry log) :
    Mirrors (foldEmit (handleObservation now) agent observations).1.registry fun mac =>
      log mac ++ (observations.filter fun obs => obs.mac = mac ∧ obs.mac ≠ zeroMac).map fun obs =>
        .sighted (obs, now) := by
  induction observations generalizing agent log with
  | nil => simpa using h
  | cons obs rest ih =>
      have hrest := ih (mirrors_handleObservation now h obs)
      have hlog (mac : MacAddr) : log mac ++ ((obs :: rest).filter fun obs =>
            obs.mac = mac ∧ obs.mac ≠ zeroMac).map (fun obs => LogEntry.sighted (obs, now)) =
          (log mac ++ if obs.mac = mac ∧ obs.mac ≠ zeroMac then [.sighted (obs, now)] else []) ++
            (rest.filter fun obs => obs.mac = mac ∧ obs.mac ≠ zeroMac).map fun obs =>
              .sighted (obs, now) := by
        rw [List.filter_cons]
        split_ifs <;> simp_all
      rw [foldEmit_cons]
      simpa only [hlog] using hrest

private theorem mirrors_flows {registry : DeviceRegistry} {log : MacAddr → List LogEntry}
    (h : Mirrors registry log) {seen : List (MacAddr × Ipv4Be)} (hlists : Lists registry seen)
    (order : List MacAddr) (flows : List (FlowKey × FlowStats)) (now : Int) :
    Mirrors (applyFlows order registry flows now) fun mac =>
      log mac ++ (flows.filter fun flow =>
        order.find? (fun m => decide ((m, flow.1.srcIp) ∈ seen)) = some mac).map fun flow =>
          .credited flow.2 now := by
  have htarget (mac : MacAddr) : flows.filter (fun flow =>
      order.find? (fun m => decide ((m, flow.1.srcIp) ∈ seen)) = some mac) =
        creditedTo order registry flows mac := by
    simp only [creditedTo, flowTarget_of_lists hlists]
  constructor
  · intro mac
    rw [get_applyFlows, h.get, htarget, recordOf_credits]
  · intro mac hnone
    rw [List.filterMap_append, List.append_eq_nil_iff] at hnone
    have hunknown : registry.get mac = none := (h.get mac).trans (recordOf_eq_none.mpr hnone.1)
    rw [h.opened mac hnone.1, List.nil_append, List.map_eq_nil_iff, List.filter_eq_nil_iff]
    -- a device that is credited was seen before
    intro flow _ hfind
    have hseen := List.find?_some (of_decide_eq_true hfind)
    obtain ⟨d, hd, _⟩ := (hlists mac flow.1.srcIp).mpr (of_decide_eq_true hseen)
    exact absurd (hunknown.symm.trans hd) (by simp)

/-! ## Whole histories -/

theorem deviceLog_append (mac : MacAddr) (seen : List (MacAddr × Ipv4Be))
    (history later : List Arrival) : deviceLog mac seen (history ++ later) =
      deviceLog mac seen history ++ deviceLog mac (seen ++ addresses history) later := by
  induction history generalizing seen with
  | nil => simp [deviceLog, addresses]
  | cons arrival history ih =>
      rw [List.cons_append, deviceLog, deviceLog, ih]
      simp [addresses]

theorem mirrors_deviceLog {history : List Arrival} {agent : Agent}
    (hrun : exec agentStep Agent.initial history = some agent) :
    Mirrors agent.registry fun mac => deviceLog mac [] history := by
  have hall := exec_history (I := fun history (agent : Agent) =>
    Lists agent.registry (addresses history) ∧
      Mirrors agent.registry fun mac => deviceLog mac [] history) ?_ ⟨?_, ?_⟩ hrun
  · exact hall.2
  · intro history agent arrival later ih hstep
    have hlists := lists_step agent arrival later ih.1 hstep
    refine ⟨by simpa [addresses] using hlists, ?_⟩
    obtain ⟨_, hlater⟩ := Option.ite_none_right_eq_some.mp hstep
    obtain rfl := Option.some.inj hlater
    simp only [deviceLog_append, deviceLog, List.append_nil, List.nil_append]
    obtain ⟨ev, now, order⟩ := arrival
    cases ev with
    | discovery e => exact mirrors_discovery now (decodeEvent e) ih.2
    | flows flows =>
        rw [(handleEvent_flows now order agent flows).1]
        exact mirrors_flows ih.2 ih.1 order flows now
  · intro mac ip
    simp [Agent.initial, addresses]
  · exact ⟨fun _ => rfl, fun _ _ => rfl⟩

/-! ## Restarts -/

def SiteStep.arrival : SiteStep → Option Arrival
  | .event ev now order _ => some ⟨ev, now, order⟩
  | .start _ | .flush _ _ | .stop => none

/-- The step is a flush that succeeds. -/
def SiteStep.saves : SiteStep → Bool
  | .flush _ outcomes => outcomes.all id
  | .start _ | .event _ _ _ _ | .stop => false

/-- Runs stop right after a flush that succeeds. The flag tells whether there was one just now. -/
def Graceful : Bool → List SiteStep → Prop
  | _, [] => True
  | saved, step :: steps => (step = .stop → saved) ∧ Graceful step.saves steps

/-- The process gets through the step. -/
def Survives (serde : Serde) (s : Site) : SiteStep → Prop
  | .stop => True
  | step => ∀ t ∈ siteStep serde s step, t.agent.isSome

instance Survives.decidable (serde : Serde) (s : Site) :
    (step : SiteStep) → Decidable (Survives serde s step)
  | .stop => isTrue trivial
  | .start rows => inferInstanceAs (Decidable (∀ t ∈ siteStep serde s (.start rows), t.agent.isSome))
  | .event ev now order outcomes =>
    inferInstanceAs (Decidable (∀ t ∈ siteStep serde s (.event ev now order outcomes), t.agent.isSome))
  | .flush order outcomes =>
    inferInstanceAs (Decidable (∀ t ∈ siteStep serde s (.flush order outcomes), t.agent.isSome))

/-- The rows of the store, in any order, stand for the registry. -/
def StandsFor (serde : Serde) (store : SqliteStore) (registry : DeviceRegistry) : Prop :=
  ∀ rows, store.devices.IterOrder rows →
    seedRegistry DeviceRegistry.empty (store.loadDevices serde rows) = registry

private theorem standsFor_empty (serde : Serde) :
    StandsFor serde SqliteStore.empty DeviceRegistry.empty := by
  intro rows hrows
  obtain rfl : rows = [] := (List.toFinset_eq_empty_iff rows).mp hrows.2
  rfl

private theorem registry_handleObservation (now : Int) {a b : Agent} (h : a.registry = b.registry)
    (obs : Observation) :
    (handleObservation now a obs).1.registry = (handleObservation now b obs).1.registry := by
  by_cases hzero : obs.mac = zeroMac
  · rw [handleObservation_zero now a obs hzero, handleObservation_zero now b obs hzero, h]
  · apply DeviceRegistry.ext_get
    intro mac
    rw [get_handleObservation now a obs hzero, get_handleObservation now b obs hzero, h]

/-- What an event does to the registry does not depend on the detectors. -/
theorem registry_handleEvent (now : Int) (order : List MacAddr) {a b : Agent}
    (h : a.registry = b.registry) (ev : CaptureEvent) :
    (handleEvent now order a ev).agent.registry = (handleEvent now order b ev).agent.registry := by
  cases ev with
  | discovery e =>
      simp only [handleEvent]
      induction decodeEvent e generalizing a b with
      | nil => exact h
      | cons obs rest ih => exact ih (registry_handleObservation now h obs)
  | flows flows =>
      rw [(handleEvent_flows now order a flows).1, (handleEvent_flows now order b flows).1, h]

theorem agentStep_congr {a b a' : Agent} (h : a.registry = b.registry) (arrival : Arrival)
    (hstep : agentStep a arrival = some a') :
    ∃ b', agentStep b arrival = some b' ∧ a'.registry = b'.registry := by
  obtain ⟨horder, hlater⟩ := Option.ite_none_right_eq_some.mp hstep
  obtain rfl := Option.some.inj hlater
  rw [h] at horder
  exact ⟨_, if_pos horder, registry_handleEvent _ _ h _⟩

/-- The sites of a history go on as one process would. -/
structure Continues (serde : Serde) (saved : Bool) (s : Site) (whole : Agent) : Prop where
  ok : SiteOk s
  memory : ∀ agent, s.agent = some agent → agent.registry = whole.registry
  store : saved ∨ s.agent = none → StandsFor serde s.store whole.registry

private theorem continues_initial (serde : Serde) :
    Continues serde false Site.initial Agent.initial where
  ok := siteOk_initial
  memory _ h := absurd h (by simp [Site.initial])
  store _ := standsFor_empty serde

private theorem continues_step {serde : Serde} (hserde : serde.RoundTrip) {saved : Bool} {s t : Site}
    {whole : Agent} (hs : Continues serde saved s whole) {step : SiteStep}
    (hstop : step = .stop → saved) (hsurvives : Survives serde s step)
    (h : siteStep serde s step = some t) :
    ∃ later, exec agentStep whole step.arrival.toList = some later ∧
      Continues serde step.saves t later := by
  have hok := siteOk_step serde s step t hs.ok h
  rcases siteStep_cases h with ⟨rows, rfl, hagent, hrows, rfl⟩ |
    ⟨agent, agent', writes, outcomes, hagent, hcall, _, rfl⟩ | ⟨rfl, rfl⟩
  · refine ⟨whole, rfl, hok, ?_, fun hnone => absurd hnone (by simp [SiteStep.saves])⟩
    intro a ha
    obtain rfl := Option.some.inj ha
    exact hs.store (Or.inr hagent) rows hrows
  · have halive : outcomes.length = writes.length := by
      by_contra hne
      have hdead : (if outcomes.length = writes.length then some agent' else none).isSome := by
        cases step with
        | stop => exact absurd hcall (by simp [call])
        | start | event | flush => exact hsurvives _ h
      rw [if_neg hne] at hdead
      exact absurd hdead (by simp)
    rcases call_cases hcall with ⟨ev, now, order, rfl, horder, rfl, rfl⟩ |
      ⟨order, rfl, horder, rfl, rfl⟩
    · obtain ⟨later, hlater, hregistry⟩ := agentStep_congr (hs.memory agent hagent)
        ⟨ev, now, order⟩ (if_pos horder)
      refine ⟨later, exec_cons_iff.mpr ⟨later, hlater, rfl⟩, hok, fun a ha => ?_, fun hsaved => ?_⟩
      · rw [if_pos halive] at ha
        obtain rfl := Option.some.inj ha
        exact hregistry
      · exact absurd hsaved (by simp [SiteStep.saves, halive])
    · refine ⟨whole, rfl, hok, fun a ha => ?_, fun hsaved rows hrows => ?_⟩
      · rw [if_pos halive] at ha
        obtain rfl := Option.some.inj ha
        exact hs.memory agent' hagent
      · have hall : ∀ ok ∈ outcomes, ok = true := by
          simpa [SiteStep.saves, halive] using hsaved
        obtain ⟨hkeyed, hagrees⟩ := hs.ok.running agent' hagent
        rw [← hs.memory agent' hagent]
        exact seed_flushed hserde hkeyed hagrees horder halive hall hrows
  · refine ⟨whole, rfl, hok, fun _ ha => absurd ha (by simp), fun _ => ?_⟩
    exact hs.store (Or.inl (hstop rfl))

private theorem continues_exec {serde : Serde} (hserde : serde.RoundTrip) {steps : List SiteStep}
    {saved : Bool} {s t : Site} {whole : Agent} (hs : Continues serde saved s whole)
    (hgraceful : Graceful saved steps)
    (hsurvives : StepsSatisfy (siteStep serde) (Survives serde) s steps)
    (hrun : exec (siteStep serde) s steps = some t) :
    ∃ later, exec agentStep whole (steps.filterMap SiteStep.arrival) = some later ∧
      ∀ agent, t.agent = some agent → agent.registry = later.registry := by
  induction steps generalizing saved s whole with
  | nil =>
      obtain rfl := Option.some.inj hrun
      exact ⟨whole, rfl, hs.memory⟩
  | cons step steps ih =>
      obtain ⟨m, hm, hrest⟩ := exec_cons_iff.mp hrun
      obtain ⟨middle, hmiddle, hnext⟩ := continues_step hserde hs hgraceful.1 hsurvives.1 hm
      obtain ⟨later, hlater, hmemory⟩ := ih hnext hgraceful.2 (hsurvives.2 m hm) hrest
      refine ⟨later, ?_, hmemory⟩
      rw [← List.singleton_append, List.filterMap_append]
      exact exec_append_iff.mpr ⟨middle, by cases step <;> exact hmiddle, hlater⟩

/-- However a history is cut into runs, each stopped after a flush that succeeded, the registry is
that of one process that handled all the events, and every record is what the log of its device
says. -/
theorem registry_of_log (serde : Serde) (hserde : serde.RoundTrip) (history : List SiteStep)
    (hgraceful : Graceful false history)
    (hsurvives : StepsSatisfy (siteStep serde) (Survives serde) Site.initial history) (s : Site)
    (agent : Agent) (hrun : exec (siteStep serde) Site.initial history = some s)
    (hagent : s.agent = some agent) :
    (∃ whole, exec agentStep Agent.initial (history.filterMap SiteStep.arrival) = some whole ∧
      agent.registry = whole.registry) ∧
    ∀ mac, agent.registry.get mac =
      recordOf mac (deviceLog mac [] (history.filterMap SiteStep.arrival)) := by
  obtain ⟨whole, hwhole, hmemory⟩ :=
    continues_exec hserde (continues_initial serde) hgraceful hsurvives hrun
  refine ⟨⟨whole, hwhole, hmemory agent hagent⟩, fun mac => ?_⟩
  rw [hmemory agent hagent]
  exact (mirrors_deviceLog hwhole).get mac

/-- A sighting in one run, and traffic in the next one. -/
def restartedHistory : List SiteStep :=
  [.start [], .event (.discovery arpEvent) 100 [] [true, false], .flush [arpEvent.srcMac] [true],
    .stop, .start [fmtMac arpEvent.srcMac],
    .event (.flows [(leasedFlow, { packets := 3, bytes := 1800 })]) 200 [arpEvent.srcMac] []]

theorem registry_of_log_restartedHistory :
    ∃ s agent, exec (siteStep jsonSerde) Site.initial restartedHistory = some s ∧
      s.agent = some agent ∧ ∀ mac, agent.registry.get mac =
        recordOf mac (deviceLog mac [] (restartedHistory.filterMap SiteStep.arrival)) := by
  obtain ⟨s, agent, hrun, hagent⟩ : ∃ s agent,
      exec (siteStep jsonSerde) Site.initial restartedHistory = some s ∧ s.agent = some agent :=
    ⟨_, _, rfl, rfl⟩
  exact ⟨s, agent, hrun, hagent, (registry_of_log jsonSerde roundTrip_jsonSerde restartedHistory
    (by simp [restartedHistory, Graceful, SiteStep.saves]) (by decide) s agent hrun hagent).2⟩

end Lanscope
