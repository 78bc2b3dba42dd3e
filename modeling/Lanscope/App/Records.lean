import Lanscope.App.HandleEvent
import Lanscope.Registry.History

/-!
# What an event does to the records

Rules for facts about device records. A property of single records that creation, observation and
crediting keep is kept by whole events, and so is the time at which a device was first seen.
-/

namespace Lanscope

open Framework

def Records (P : MacAddr → Device → Prop) (registry : DeviceRegistry) : Prop :=
  ∀ mac d, registry.get mac = some d → P mac d

/-- A property that the pipeline establishes for new records and keeps for old ones. -/
structure RecordInvariant (P : MacAddr → Device → Prop) : Prop where
  created : ∀ obs now, obs.mac ≠ zeroMac →
    P obs.mac (retype (foldObservation (Device.new obs.mac now) obs now))
  updated : ∀ obs now d, P obs.mac d → P obs.mac (retype (foldObservation d obs now))
  credited : ∀ mac d stats now, P mac d → P mac (creditFlow d stats now)

namespace RecordInvariant

variable {P : MacAddr → Device → Prop}

private theorem observed_record (hP : RecordInvariant P) {registry : DeviceRegistry}
    (h : Records P registry) {obs : Observation} (hmac : obs.mac ≠ zeroMac) (now : Int) :
    P obs.mac (observed registry obs now) := by
  unfold observed
  cases hget : registry.get obs.mac with
  | none => exact hP.created obs now hmac
  | some d => exact hP.updated obs now d (h obs.mac d hget)

private theorem handleObservation (hP : RecordInvariant P) (now : Int) {agent : Agent}
    (h : Records P agent.registry) (obs : Observation) :
    Records P (handleObservation now agent obs).1.registry ∧
      ∀ w ∈ (Lanscope.handleObservation now agent obs).2, w.Upserts fun d => ∃ mac, P mac d := by
  by_cases hmac : obs.mac = zeroMac
  · rw [handleObservation_zero now agent obs hmac]
    exact ⟨h, by simp⟩
  · have hobs := hP.observed_record h hmac now
    constructor
    · intro a d hd
      rw [get_handleObservation now agent obs hmac] at hd
      split_ifs at hd with ha
      · obtain rfl := Option.some.inj hd
        exact ha ▸ hobs
      · exact h a d hd
    · intro w hw
      refine (upserts_handleObservation now agent obs w hw).imp ?_
      rintro d ⟨_, _, rfl⟩
      exact ⟨obs.mac, hobs⟩

private theorem handleFlow (hP : RecordInvariant P) (now : Int) (order : List MacAddr)
    {agent : Agent} (h : Records P agent.registry) (flow : FlowKey × FlowStats) :
    Records P (handleFlow now order agent flow).1.registry := by
  intro a d hd
  rw [get_handleFlow] at hd
  split_ifs at hd
  · obtain ⟨old, hold, rfl⟩ := Option.map_eq_some_iff.mp hd
    exact hP.credited a old _ now (h a old hold)
  · exact h a d hd

theorem handleEvent (hP : RecordInvariant P) (now : Int) (order : List MacAddr) {agent : Agent}
    (h : Records P agent.registry) (ev : CaptureEvent) :
    Records P (handleEvent now order agent ev).agent.registry ∧
      ∀ w ∈ (Lanscope.handleEvent now order agent ev).writes,
        w.Upserts fun d => ∃ mac, P mac d := by
  cases ev with
  | discovery e =>
      exact foldEmit_invariant (l := decodeEvent e)
        (I := fun agent : Agent => Records P agent.registry)
        (fun _ obs _ hs => hP.handleObservation now hs obs) h
  | flows flows =>
      exact foldEmit_invariant (l := flows)
        (I := fun agent : Agent => Records P agent.registry)
        (fun _ flow _ hs => ⟨hP.handleFlow now order hs flow, upserts_handleFlow now order _ flow _⟩)
        h

end RecordInvariant

/-! ## First sightings -/

/-- Known devices stay known, with the time of their first sighting. -/
def Kept (registry later : DeviceRegistry) : Prop :=
  ∀ mac d, registry.get mac = some d → ∃ d', later.get mac = some d' ∧ d'.firstSeen = d.firstSeen

/-- The registry holds the device that a row written from this record is about. -/
def Covers (registry : DeviceRegistry) (d : Device) : Prop :=
  ∃ mac d', d.mac = fmtMac mac ∧ registry.get mac = some d' ∧ d'.firstSeen = d.firstSeen

theorem Kept.refl (registry : DeviceRegistry) : Kept registry registry :=
  fun _ d hd => ⟨d, hd, rfl⟩

theorem Kept.trans {r s t : DeviceRegistry} (h : Kept r s) (h' : Kept s t) : Kept r t := by
  intro mac d hd
  obtain ⟨d₁, hd₁, he₁⟩ := h mac d hd
  obtain ⟨d₂, hd₂, he₂⟩ := h' mac d₁ hd₁
  exact ⟨d₂, hd₂, he₂.trans he₁⟩

theorem Covers.mono {r s : DeviceRegistry} {d : Device} (h : Covers r d) (hk : Kept r s) :
    Covers s d := by
  obtain ⟨mac, d₁, hmac, hd₁, he₁⟩ := h
  obtain ⟨d₂, hd₂, he₂⟩ := hk mac d₁ hd₁
  exact ⟨mac, d₂, hmac, hd₂, he₂.trans he₁⟩

private theorem kept_handleObservation (now : Int) (agent : Agent) (obs : Observation) :
    Kept agent.registry (handleObservation now agent obs).1.registry ∧
      ∀ w ∈ (handleObservation now agent obs).2,
        w.Upserts (Covers (handleObservation now agent obs).1.registry) := by
  by_cases hmac : obs.mac = zeroMac
  · rw [handleObservation_zero now agent obs hmac]
    exact ⟨Kept.refl _, by simp⟩
  · have hget := get_handleObservation now agent obs hmac
    constructor
    · intro a d hd
      rw [hget]
      split_ifs with ha
      · subst a
        refine ⟨_, rfl, ?_⟩
        simp only [observed, retype, hd, Option.getD_some, foldObservation_eq]
      · exact ⟨d, hd, rfl⟩
    · intro w hw
      refine (upserts_handleObservation now agent obs w hw).imp ?_
      rintro d ⟨_, hnew, rfl⟩
      refine ⟨obs.mac, _, ?_, (hget obs.mac).trans (if_pos rfl), rfl⟩
      simp only [observed, retype, hnew, Option.getD_none, foldObservation_eq, Device.new]

private theorem kept_handleFlow (now : Int) (order : List MacAddr) (agent : Agent)
    (flow : FlowKey × FlowStats) :
    Kept agent.registry (handleFlow now order agent flow).1.registry := by
  intro a d hd
  rw [get_handleFlow]
  split_ifs
  · exact ⟨creditFlow d flow.2 now, by rw [hd]; rfl, rfl⟩
  · exact ⟨d, hd, rfl⟩

/-- Events keep first sightings, and write rows of devices they leave known only. -/
theorem kept_handleEvent (now : Int) (order : List MacAddr) (agent : Agent) (ev : CaptureEvent) :
    Kept agent.registry (handleEvent now order agent ev).agent.registry ∧
      ∀ w ∈ (handleEvent now order agent ev).writes,
        w.Upserts (Covers (handleEvent now order agent ev).agent.registry) := by
  cases ev with
  | discovery e =>
      exact foldEmit_grows (R := fun a b : Agent => Kept a.registry b.registry)
        (P := fun a w => StoreWrite.Upserts (Covers a.registry) w) (fun a => Kept.refl a.registry)
        (fun _ _ _ => Kept.trans) (fun _ _ _ hk hw => hw.imp fun _ hd => hd.mono hk)
        (kept_handleObservation now) agent (decodeEvent e)
  | flows flows =>
      exact foldEmit_grows (R := fun a b : Agent => Kept a.registry b.registry)
        (P := fun a w => StoreWrite.Upserts (Covers a.registry) w) (fun a => Kept.refl a.registry)
        (fun _ _ _ => Kept.trans) (fun _ _ _ hk hw => hw.imp fun _ hd => hd.mono hk)
        (fun a flow => ⟨kept_handleFlow now order a flow, upserts_handleFlow now order a flow _⟩)
        agent flows

/-! ## The detectors -/

theorem isDefault_handleEvent (now : Int) (order : List MacAddr) {agent : Agent}
    (h : agent.anomaly.IsDefault) (ev : CaptureEvent) :
    (handleEvent now order agent ev).agent.anomaly.IsDefault := by
  cases ev with
  | discovery e =>
      refine (foldEmit_invariant (l := decodeEvent e) (I := fun a : Agent => a.anomaly.IsDefault)
        (P := fun _ => True) (fun a obs _ ha => ⟨?_, fun _ _ => trivial⟩) h).1
      by_cases hmac : obs.mac = zeroMac
      · rw [handleObservation_zero now a obs hmac]
        exact ha
      · rw [(handleObservation_default now a obs ha hmac).1]
        exact ha
  | flows flows =>
      exact (foldEmit_invariant (l := flows) (I := fun a : Agent => a.anomaly.IsDefault)
        (P := fun _ => True) (fun a flow _ ha => ⟨ha.onFlow _ _ _, fun _ _ => trivial⟩) h).1

end Lanscope
