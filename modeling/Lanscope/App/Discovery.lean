import Lanscope.App.NewDevice
import Lanscope.App.Transit

/-!
# Discovered hosts reach the store

The whole way of a host from its first frame to its row: the program announces it, the backend
carries the record over, the loop handles it, and the device is written before the loop takes the
next event. The pipeline may start out over any store that earlier runs left.
-/

namespace Lanscope

open Framework

/-- The records that the loop has not handled yet. -/
def Pipeline.pending (s : Pipeline) : List Event :=
  (s.loop.channel.map Prod.fst ++ s.undelivered ++ s.task.sends).filterMap CaptureEvent.record ++
    s.kernel.events.drop s.consumed

/-- No write of the step fails. -/
def LoopStep.Succeeds : LoopStep → Prop
  | .recv _ _ outcomes | .recvClosed _ outcomes | .tick _ outcomes | .shutdown _ outcomes =>
    ∀ ok ∈ outcomes, ok = true
  | .send _ | .closeSender | .signal => True

def PipelineStep.Succeeds : PipelineStep → Prop
  | .loop step => step.Succeeds
  | _ => True

/-- A frame of a host never announced before finds a slot for the announcement. -/
def FrameAnnounced (s : Pipeline) : PipelineStep → Prop
  | .kernel step => AnnouncementFits s.kernel step
  | _ => True

/-! ## The registry knows what was handled -/

theorem handled_known {history : List Arrival} {agent later : Agent}
    (hrun : exec agentStep agent history = some later) {arrival : Arrival} (harrival : arrival ∈ history)
    {mac : MacAddr} (hobs : arrival.event.Observes mac) : (later.registry.get mac).isSome := by
  have hknown := exec_history (I := fun history (later : Agent) => ∀ arrival ∈ history, ∀ mac,
    arrival.event.Observes mac → (later.registry.get mac).isSome) ?_ (by simp) hrun
  · exact hknown arrival harrival mac hobs
  · intro history agent arrival later ih hstep a ha mac hobs
    obtain ⟨_, hlater⟩ := Option.ite_none_right_eq_some.mp hstep
    obtain rfl := Option.some.inj hlater
    rw [isSome_handleEvent]
    cases List.mem_append.mp ha with
    | inl hearlier => exact Or.inl (ih a hearlier mac hobs)
    | inr hnow =>
        obtain rfl := List.mem_singleton.mp hnow
        exact Or.inr hobs

theorem seenAnnounced_pipelineStep {serde : Serde} (s : Pipeline) (step : PipelineStep)
    (t : Pipeline) (hs : SeenAnnounced s.kernel) (hfits : FrameAnnounced s step)
    (h : pipelineStep serde s step = some t) : SeenAnnounced t.kernel := by
  cases pipelineMove_of_pipelineStep h with
  | kernel move => exact (kernelStep_iff _ _ _ hs move).mpr hfits
  | _ => exact hs

theorem eq_discovery_of_record {e : CaptureEvent} {ev : Event} (h : e.record = some ev) :
    e = .discovery ev := by
  cases e with
  | discovery e => exact congrArg CaptureEvent.discovery (Option.some.inj h)
  | flows flows => exact absurd h (by simp)

theorem loopSteps_succeed {s : Pipeline} {step : PipelineStep} (hok : step.Succeeds) :
    ∀ l ∈ loopSteps s step, l.Succeeds := by
  intro l hl
  cases step with
  | loop step =>
      obtain rfl := List.mem_singleton.mp hl
      exact hok
  | sendRecord | sendFlows =>
      simp only [loopSteps] at hl
      split at hl
      · split_ifs at hl <;> simp at hl <;> subst hl <;> trivial
      · exact absurd hl List.not_mem_nil
  | stopBackend =>
      obtain rfl := List.mem_singleton.mp hl
      trivial
  | _ => exact absurd hl List.not_mem_nil

private theorem siteSteps_succeed {s : LoopState} {step : LoopStep} (hok : step.Succeeds) :
    ∀ p ∈ siteSteps s step, p.Succeeds := by
  intro p hp
  cases step with
  | recv now order outcomes =>
      simp only [siteSteps] at hp
      split at hp
      · obtain rfl := List.mem_singleton.mp hp
        exact hok
      · exact absurd hp List.not_mem_nil
  | recvClosed order outcomes | tick order outcomes | shutdown order outcomes =>
      obtain rfl := List.mem_singleton.mp hp
      exact hok
  | send | closeSender | signal => exact absurd hp List.not_mem_nil

section Runs

variable {serde : Serde} {history : List SiteStep} {agent : Agent} {store : SqliteStore}
  {steps : List PipelineStep} {t : Pipeline}

theorem events_split
    (hrun : exec (pipelineStep serde) (Pipeline.spawned agent store) steps = some t) :
    t.kernel.events =
      (t.loop.handled.map Arrival.event).filterMap CaptureEvent.record ++ t.pending := by
  have hrecords := (transitOk_of_exec hrun).records
  rw [Pipeline.underway] at hrecords
  rw [Pipeline.pending, ← List.append_assoc, ← List.filterMap_append, ← List.append_assoc,
    ← List.append_assoc, hrecords, List.take_append_drop]

/-- A run of the pipeline over a store continues the sessions that led to the store. -/
theorem exec_sessions
    (hsite : exec (siteStep serde) Site.initial history = some ⟨store, some agent⟩)
    (hrun : exec (pipelineStep serde) (Pipeline.spawned agent store) steps = some t) :
    ∃ later, exec (siteStep serde) Site.initial (history ++ later) =
        some ⟨t.loop.store, some t.loop.agent⟩ ∧
      ((∀ step ∈ steps, step.Succeeds) → ∀ p ∈ later, p.Succeeds) := by
  refine ⟨_, exec_append_iff.mpr ⟨_, hsite, exec_site (exec_loop hrun)⟩, fun hok p hp => ?_⟩
  obtain ⟨s, l, hl, hp⟩ := of_mem_trace hp
  obtain ⟨s', step, hstep, hl⟩ := of_mem_trace hl
  exact siteSteps_succeed (loopSteps_succeed (hok step hstep) l hl) p hp

end Runs

/-- As long as no write to the store fails, every device that the kernel sent a record about has its
row, unless the record is still on its way. Where in addition each host finds a slot for its
announcement, this holds of every host that the program has marked as seen. -/
theorem sightings_reach_store (serde : Serde) (history : List SiteStep)
    (hok : ∀ step ∈ history, step.Succeeds) (agent : Agent) (store : SqliteStore)
    (hsite : exec (siteStep serde) Site.initial history = some ⟨store, some agent⟩)
    (steps : List PipelineStep) (hsteps : ∀ step ∈ steps, step.Succeeds) (t : Pipeline)
    (hrun : exec (pipelineStep serde) (Pipeline.spawned agent store) steps = some t) :
    (∀ ev ∈ t.kernel.events, ∀ mac, CaptureEvent.Observes (.discovery ev) mac →
      ev ∈ t.pending ∨ fmtMac mac ∈ t.loop.store.devices) ∧
    (StepsSatisfy (pipelineStep serde) FrameAnnounced (Pipeline.spawned agent store) steps →
      ∀ mac ∈ t.kernel.seen, mac ≠ zeroMac →
        (∃ ev ∈ t.pending, CaptureEvent.Observes (.discovery ev) mac) ∨
          fmtMac mac ∈ t.loop.store.devices) := by
  have hrecords : ∀ ev ∈ t.kernel.events, ∀ mac, CaptureEvent.Observes (.discovery ev) mac →
      ev ∈ t.pending ∨ fmtMac mac ∈ t.loop.store.devices := by
    intro ev hev mac hobs
    by_cases hpending : ev ∈ t.pending
    · exact Or.inl hpending
    · -- what is not pending was handled, so that its device is known and has a row
      have hhandled : .discovery ev ∈ t.loop.handled.map Arrival.event := by
        rw [events_split hrun, List.mem_append] at hev
        obtain ⟨e, he, hrecord⟩ := List.mem_filterMap.mp (hev.resolve_right hpending)
        exact eq_discovery_of_record hrecord ▸ he
      obtain ⟨arrival, harrival, hevent⟩ := List.mem_map.mp hhandled
      have hknown := handled_known (exec_handled hrun) harrival (hevent ▸ hobs)
      obtain ⟨later, hlater, hlaterok⟩ := exec_sessions hsite hrun
      have hall : ∀ p ∈ history ++ later, p.Succeeds := by
        intro p hp
        exact (List.mem_append.mp hp).elim (hok p) (hlaterok hsteps p)
      exact Or.inr ((siteAnnounced_history hall hlater).1.known _ rfl mac hknown)
  refine ⟨hrecords, fun hfits mac hseen hne => ?_⟩
  have hannounced := exec_invariant_of_stepsSatisfy (I := fun s : Pipeline => SeenAnnounced s.kernel)
    seenAnnounced_pipelineStep (fun mac h => absurd h Finmap.notMem_empty) hfits hrun
  obtain ⟨ev, hev, hkind, rfl⟩ := hannounced mac hseen
  have hobs : CaptureEvent.Observes (.discovery ev) ev.srcMac := by
    refine ⟨rfl, hne, ?_⟩
    have heventKind : ev.eventKind = .newHost := by rw [Event.eventKind, hkind, EventKind.fromU8_toU8]
    rw [decodeEvent_ne_nil_iff, Recognised, heventKind]
    trivial
  exact (hrecords ev hev _ hobs).imp_left fun hpending => ⟨ev, hpending, hobs⟩

theorem sightings_reach_store_busyRun :
    ∃ t, exec (pipelineStep jsonSerde) (Pipeline.spawned Agent.initial SqliteStore.empty)
        busyRun = some t ∧
      ∀ ev ∈ t.kernel.events, ∀ mac, CaptureEvent.Observes (.discovery ev) mac →
        ev ∈ t.pending ∨ fmtMac mac ∈ t.loop.store.devices := by
  have hsteps : ∀ step ∈ busyRun, step.Succeeds := by
    simp [busyRun, PipelineStep.Succeeds, LoopStep.Succeeds]
  exact ⟨_, rfl, (sightings_reach_store jsonSerde [.start []] (by simp [SiteStep.Succeeds])
    Agent.initial SqliteStore.empty rfl busyRun hsteps _ rfl).1⟩

end Lanscope
