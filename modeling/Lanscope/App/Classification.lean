import Lanscope.App.Persistence

/-!
# Device types stay in step

A record carries its device type beside the signals that the type is inferred from. In every
reachable state the two agree, in memory and in the store.
-/

namespace Lanscope

open Framework

def Typed (d : Device) : Prop := d.deviceType = (classify d).map Classification.deviceType

theorem typed_retype (d : Device) : Typed (retype d) := by
  have hsame : classify (retype d) = classify d := classify_congr rfl rfl rfl rfl
  rw [Typed, hsame]
  rfl

theorem Typed.congr {d e : Device} (h : Typed d) (hvendor : e.vendor = d.vendor)
    (hclass : e.dhcpVendorClass = d.dhcpVendorClass) (hhost : e.hostname = d.hostname)
    (hservices : e.services = d.services) (htype : e.deviceType = d.deviceType) : Typed e := by
  rw [Typed, classify_congr hvendor hclass hhost hservices, htype]
  exact h

theorem typed_recordInvariant : RecordInvariant fun _ => Typed where
  created _ _ _ := typed_retype _
  updated _ _ _ _ := typed_retype _
  credited _ _ _ _ h := h.congr rfl rfl rfl rfl rfl

/-- Every row stands for a well-typed record. -/
def RowsTyped (serde : Serde) (store : SqliteStore) : Prop :=
  ∀ key row, store.devices.lookup key = some row → Typed (SqliteStore.deviceOfRow serde key row)

structure SiteTyped (serde : Serde) (s : Site) : Prop extends SiteOk s where
  rows : RowsTyped serde s.store
  records : ∀ agent, s.agent = some agent → Records (fun _ => Typed) agent.registry

private theorem siteTyped_step {serde : Serde} (hserde : serde.RoundTrip) (s : Site)
    (step : SiteStep) (t : Site) (hs : SiteTyped serde s) (h : siteStep serde s step = some t) :
    SiteTyped serde t := by
  have ht := siteHolds_step typed_recordInvariant hserde
    (fun _ _ hd => hd.congr rfl rfl rfl rfl rfl) s step t ⟨hs.toSiteOk, hs.rows, hs.records⟩ h
  exact ⟨ht.toSiteOk, ht.rows, ht.records⟩

private theorem siteTyped_initial (serde : Serde) : SiteTyped serde Site.initial :=
  ⟨siteOk_initial, (siteHolds_initial serde Typed).rows, (siteHolds_initial serde Typed).records⟩

/-- In every reachable state, over any number of runs with any pattern of failed writes and crashes,
each record in memory has the type the fingerprinter gives it, each row of the store stands for such
a record, and so does each record that the next call asks the store to write. -/
theorem deviceType_eq_classify (serde : Serde) (hserde : serde.RoundTrip) (history : List SiteStep)
    (s : Site) (hrun : exec (siteStep serde) Site.initial history = some s) :
    (∀ agent, s.agent = some agent → ∀ mac d, agent.registry.get mac = some d → Typed d) ∧
    (∀ key row, s.store.devices.lookup key = some row →
      Typed (SqliteStore.deviceOfRow serde key row)) ∧
    ∀ agent step agent' writes outcomes, s.agent = some agent →
      call agent step = some (agent', writes, outcomes) → ∀ w ∈ writes, w.Upserts Typed := by
  have hs := exec_invariant (siteTyped_step hserde) (siteTyped_initial serde) hrun
  refine ⟨hs.records, hs.rows, ?_⟩
  intro agent step agent' writes outcomes hagent hcall
  exact (holds_call typed_recordInvariant (hs.records agent hagent) hcall).2

theorem deviceType_eq_classify_arpHistory :
    ∃ s agent d, exec (siteStep jsonSerde) Site.initial arpHistory = some s ∧
      s.agent = some agent ∧ agent.registry.get arpEvent.srcMac = some d ∧
      d.deviceType = some "Raspberry Pi".toList ∧ Typed d :=
  ⟨_, _, _, rfl, rfl, rfl, by decide, (deviceType_eq_classify jsonSerde roundTrip_jsonSerde
    arpHistory _ rfl).1 _ rfl arpEvent.srcMac _ rfl⟩

end Lanscope
