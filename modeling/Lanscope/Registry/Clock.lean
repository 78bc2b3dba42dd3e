import Lanscope.Framework.Run
import Lanscope.Registry.History

/-!
# Times of records under any clock

Both operations that touch a record stamp it with the reading they are given and compare it with
nothing. So a record keeps its times in order exactly as long as the clock does.
-/

namespace Lanscope

open Framework

inductive RegistryCall
  | observe (obs : Observation)
  | applyFlow (order : List MacAddr) (key : FlowKey) (stats : FlowStats)

def perform (reg : DeviceRegistry) (now : Int) : RegistryCall → DeviceRegistry
  | .observe obs => (reg.observe obs now).1
  | .applyFlow order key stats => DeviceRegistry.applyFlow order reg key stats now

/-- A call and the clock reading it is given. -/
abbrev Stamped := RegistryCall × Int

def registryStep (reg : DeviceRegistry) (c : Stamped) : Option DeviceRegistry :=
  some (perform reg c.2 c.1)

/-- The call is about the device. -/
def Touches (mac : MacAddr) (reg : DeviceRegistry) : RegistryCall → Prop
  | .observe obs => obs.mac = mac
  | .applyFlow order key _ => DeviceRegistry.flowTarget order reg key = some mac

theorem get_perform_untouched {mac : MacAddr} {reg : DeviceRegistry} {call : RegistryCall}
    (h : ¬ Touches mac reg call) (now : Int) : (perform reg now call).get mac = reg.get mac := by
  cases call with
  | observe obs => exact (DeviceRegistry.get_observe reg obs now mac).trans (if_neg (Ne.symm h))
  | applyFlow order key stats =>
      exact (DeviceRegistry.get_applyFlow order reg key stats now mac).trans (if_neg h)

/-- A call about a known device moves its last sighting to the reading. -/
theorem get_perform_touched {mac : MacAddr} {reg : DeviceRegistry} {call : RegistryCall}
    (h : Touches mac reg call) (now : Int) {d : Device} (hd : reg.get mac = some d) :
    ∃ d', (perform reg now call).get mac = some d' ∧ d'.firstSeen = d.firstSeen ∧
      d'.lastSeen = now := by
  cases call with
  | observe obs =>
      have hmac : obs.mac = mac := h
      subst mac
      refine ⟨foldObservation d obs now, ?_, ?_, ?_⟩
      · rw [perform, DeviceRegistry.get_observe, if_pos rfl, hd, Option.getD_some]
      · rw [foldObservation_eq]
      · rw [foldObservation_eq]
  | applyFlow order key stats =>
      have htarget : DeviceRegistry.flowTarget order reg key = some mac := h
      refine ⟨creditFlow d stats now, ?_, rfl, rfl⟩
      rw [perform, DeviceRegistry.get_applyFlow, if_pos htarget, hd, Option.map_some]

/-- A new record is stamped with one reading twice. -/
theorem get_perform_created {mac : MacAddr} {reg : DeviceRegistry} (hnone : reg.get mac = none)
    (now : Int) (call : RegistryCall) {d : Device} (hd : (perform reg now call).get mac = some d) :
    d.firstSeen = d.lastSeen := by
  cases call with
  | observe obs =>
      rw [perform, DeviceRegistry.get_observe] at hd
      by_cases hmac : mac = obs.mac
      · subst mac
        rw [if_pos rfl, hnone, Option.getD_none, Option.some.injEq, foldObservation_eq] at hd
        subst d
        rfl
      · rw [if_neg hmac, hnone] at hd
        exact absurd hd (by simp)
  | applyFlow order key stats =>
      rw [perform, DeviceRegistry.get_applyFlow, hnone] at hd
      exact absurd hd (by simp)

/-! ## Runs -/

def TimesInOrder (mac : MacAddr) (reg : DeviceRegistry) : Prop :=
  ∀ d, reg.get mac = some d → d.firstSeen ≤ d.lastSeen

/-- The call does not move the last sighting of the device back. -/
def LastSeenKept (mac : MacAddr) (reg : DeviceRegistry) (c : Stamped) : Prop :=
  ∀ d, reg.get mac = some d →
    ∃ d', (perform reg c.2 c.1).get mac = some d' ∧ d.lastSeen ≤ d'.lastSeen

/-- The reading of a call about the device is not before its last sighting. -/
def InTime (mac : MacAddr) (reg : DeviceRegistry) (c : Stamped) : Prop :=
  Touches mac reg c.1 → ∀ d, reg.get mac = some d → d.lastSeen ≤ c.2

theorem lastSeenKept_iff (mac : MacAddr) (reg : DeviceRegistry) (c : Stamped) :
    LastSeenKept mac reg c ↔ InTime mac reg c := by
  constructor
  · intro h htouch d hd
    obtain ⟨d', hd', hle⟩ := h d hd
    obtain ⟨d₂, hd₂, _, hseen⟩ := get_perform_touched htouch c.2 hd
    rw [hd', Option.some.injEq] at hd₂
    rw [← hseen, ← hd₂]
    exact hle
  · intro h d hd
    by_cases htouch : Touches mac reg c.1
    · obtain ⟨d', hd', _, hseen⟩ := get_perform_touched htouch c.2 hd
      exact ⟨d', hd', hseen ▸ h htouch d hd⟩
    · exact ⟨d, (get_perform_untouched htouch c.2).trans hd, le_refl _⟩

theorem timesInOrder_perform {mac : MacAddr} {reg : DeviceRegistry} {c : Stamped}
    (h : TimesInOrder mac reg) (hc : InTime mac reg c) :
    TimesInOrder mac (perform reg c.2 c.1) := by
  intro d' hd'
  cases hd : reg.get mac with
  | none => exact (get_perform_created hd c.2 c.1 hd').le
  | some d =>
      by_cases htouch : Touches mac reg c.1
      · obtain ⟨d₂, hd₂, hfirst, hseen⟩ := get_perform_touched htouch c.2 hd
        rw [hd', Option.some.injEq] at hd₂
        subst d₂
        rw [hfirst, hseen]
        exact (h d hd).trans (hc htouch d hd)
      · rw [get_perform_untouched htouch] at hd'
        exact h d' hd'

/-- From any registry, loaded records included, and under any readings: a device is never shown as
last seen before it was first seen and its last sighting never moves back exactly when this is so of
its loaded record and no call about it is given a reading before its last sighting. -/
theorem times_in_order_iff (mac : MacAddr) (reg : DeviceRegistry) (calls : List Stamped) :
    (StatesSatisfy registryStep (TimesInOrder mac) reg calls ∧
        StepsSatisfy registryStep (LastSeenKept mac) reg calls) ↔
      TimesInOrder mac reg ∧ StepsSatisfy registryStep (InTime mac) reg calls := by
  rw [StepsSatisfy.congr (lastSeenKept_iff mac)]
  constructor
  · intro h
    exact ⟨h.1.head, h.2⟩
  · intro h
    refine ⟨statesSatisfy_of_stepsSatisfy ?_ h.1 h.2, h.2⟩
    intro reg c next hreg hc hstep
    obtain rfl := Option.some.inj hstep
    exact timesInOrder_perform hreg hc

/-- A device that is observed again after the clock was set back. -/
theorem times_out_of_order : ¬ ∀ mac reg calls, TimesInOrder mac reg →
    StatesSatisfy registryStep (TimesInOrder mac) reg calls ∧
      StepsSatisfy registryStep (LastSeenKept mac) reg calls := by
  intro h
  let obs : Observation := ⟨MacAddr.ofBytes 2 0 0 0 0 1, none, .seen⟩
  have hrun := (h obs.mac DeviceRegistry.empty [(.observe obs, 100), (.observe obs, 50)]
    (fun _ hd => absurd hd (by simp))).1
  have hend := (hrun.2 _ rfl).2 _ rfl
  exact absurd (hend _ rfl) (by decide)

end Lanscope
