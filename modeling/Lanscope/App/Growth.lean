import Lanscope.App.Redelivery
import Lanscope.App.Traffic

/-!
# What is known only grows

Whatever the program learns about a device it may learn more about, but never forgets: not in
memory, not in the store, and not across restarts and crashes. A row lags behind memory, and every
write brings it nearer.
-/

namespace Lanscope

open Framework

/-- The second record knows all that the first one does. -/
structure Device.Grows (d e : Device) : Prop where
  mac : e.mac = d.mac
  vendor : e.vendor = d.vendor
  hostname : d.hostname.isSome → e.hostname.isSome
  ips : ∀ ip ∈ d.ips, ip ∈ e.ips
  services : d.services <+: e.services
  dhcpFingerprint : d.dhcpFingerprint.isSome → e.dhcpFingerprint.isSome
  dhcpVendorClass : d.dhcpVendorClass.isSome → e.dhcpVendorClass.isSome
  firstSeen : e.firstSeen = d.firstSeen
  packets : d.packets ≤ e.packets
  bytes : d.bytes ≤ e.bytes

namespace Device.Grows

theorem refl (d : Device) : d.Grows d :=
  ⟨rfl, rfl, id, fun _ => id, List.prefix_refl _, id, id, rfl, UInt64.le_refl _, UInt64.le_refl _⟩

theorem trans {d e f : Device} (h : d.Grows e) (h' : e.Grows f) : d.Grows f where
  mac := h'.mac.trans h.mac
  vendor := h'.vendor.trans h.vendor
  hostname := h'.hostname ∘ h.hostname
  ips ip hip := h'.ips ip (h.ips ip hip)
  services := h.services.trans h'.services
  dhcpFingerprint := h'.dhcpFingerprint ∘ h.dhcpFingerprint
  dhcpVendorClass := h'.dhcpVendorClass ∘ h.dhcpVendorClass
  firstSeen := h'.firstSeen.trans h.firstSeen
  packets := UInt64.le_trans h.packets h'.packets
  bytes := UInt64.le_trans h.bytes h'.bytes

end Device.Grows

/-! ## Memory -/

private theorem isSome_or {α : Type} (new : Option α) {old : Option α} (h : old.isSome) :
    (new.or old).isSome := by
  cases new with
  | none => exact h
  | some a => rfl

private theorem mem_withIp_of_mem {ips : List Str} {ip : Str} (h : ip ∈ ips)
    (new : Option Ipv4Be) : ip ∈ withIp ips new := by
  cases new with
  | none => exact h
  | some n =>
      rw [withIp, List.mem_append, List.mem_singleton]
      by_cases hip : ip = fmtIpv4 n
      · exact Or.inr hip
      · exact Or.inl ((List.mem_erase_of_ne hip).mpr h)

theorem grows_foldObservation (d : Device) (obs : Observation) (now : Int) :
    d.Grows (retype (foldObservation d obs now)) := by
  rw [foldObservation_eq]
  exact ⟨rfl, rfl, isSome_or _, fun _ h => mem_withIp_of_mem h _, prefix_withService _ _,
    isSome_or _, isSome_or _, rfl, UInt64.le_refl _, UInt64.le_refl _⟩

private theorem le_saturatingAdd (a b : UInt64) : a ≤ saturatingAdd a b := by
  have hlt := a.toNat_lt
  rw [UInt64.le_iff_toNat_le, saturatingAdd_eq, toNat_saturated]
  simp only [UInt64.size]
  omega

theorem grows_creditFlow (d : Device) (stats : FlowStats) (now : Int) :
    d.Grows (creditFlow d stats now) :=
  ⟨rfl, rfl, id, fun _ => id, List.prefix_refl _, id, id, rfl, le_saturatingAdd _ _,
    le_saturatingAdd _ _⟩

/-- Every record of a registry has grown into one of the later registry. -/
def RegistryGrows (registry later : DeviceRegistry) : Prop :=
  ∀ mac d, registry.get mac = some d → ∃ e, later.get mac = some e ∧ d.Grows e

theorem RegistryGrows.refl (registry : DeviceRegistry) : RegistryGrows registry registry :=
  fun _ d hd => ⟨d, hd, .refl d⟩

theorem RegistryGrows.trans {r s t : DeviceRegistry} (h : RegistryGrows r s)
    (h' : RegistryGrows s t) : RegistryGrows r t := by
  intro mac d hd
  obtain ⟨e, he, hde⟩ := h mac d hd
  obtain ⟨f, hf, hef⟩ := h' mac e he
  exact ⟨f, hf, hde.trans hef⟩

/-- The device that the record is of is known, and the record has grown into its present one. -/
def GrowsInto (registry : DeviceRegistry) (d : Device) : Prop :=
  ∃ mac e, d.mac = fmtMac mac ∧ registry.get mac = some e ∧ d.Grows e

theorem GrowsInto.mono {r s : DeviceRegistry} {d : Device} (h : GrowsInto r d)
    (hgrows : RegistryGrows r s) : GrowsInto s d := by
  obtain ⟨mac, e, hmac, he, hde⟩ := h
  obtain ⟨f, hf, hef⟩ := hgrows mac e he
  exact ⟨mac, f, hmac, hf, hde.trans hef⟩

/-- What the registry held of the device, if anything, has grown into the record. -/
def Follows (registry : DeviceRegistry) (d : Device) : Prop :=
  ∀ mac old, d.mac = fmtMac mac → registry.get mac = some old → old.Grows d

private theorem mac_observed {registry : DeviceRegistry} {obs : Observation}
    (hnone : registry.get obs.mac = none) (now : Int) :
    (observed registry obs now).mac = fmtMac obs.mac := by
  rw [observed, hnone, foldObservation_eq]
  rfl

private theorem grows_handleObservation (now : Int) (agent : Agent) (obs : Observation) :
    RegistryGrows agent.registry (handleObservation now agent obs).1.registry ∧
      ∀ w ∈ (handleObservation now agent obs).2,
        w.Upserts (GrowsInto (handleObservation now agent obs).1.registry) := by
  by_cases hmac : obs.mac = zeroMac
  · rw [handleObservation_zero now agent obs hmac]
    exact ⟨.refl _, by simp⟩
  · have hget := get_handleObservation now agent obs hmac
    constructor
    · intro mac d hd
      rw [hget]
      by_cases h : mac = obs.mac
      · subst mac
        refine ⟨_, if_pos rfl, ?_⟩
        rw [observed, hd]
        exact grows_foldObservation d obs now
      · exact ⟨d, by rw [if_neg h, hd], .refl d⟩
    · intro w hw
      apply (upserts_handleObservation now agent obs w hw).imp
      rintro d ⟨_, hnone, rfl⟩
      exact ⟨obs.mac, _, mac_observed hnone now, (hget obs.mac).trans (if_pos rfl), .refl _⟩

/-- A record that an observation writes is of a device that was not known before. -/
private theorem follows_handleObservation (now : Int) {start : DeviceRegistry} {agent : Agent}
    (hgrows : RegistryGrows start agent.registry) (obs : Observation) :
    ∀ w ∈ (handleObservation now agent obs).2, w.Upserts (Follows start) := by
  intro w hw
  apply (upserts_handleObservation now agent obs w hw).imp
  rintro d ⟨_, hnone, rfl⟩ mac old hmac hold
  obtain rfl : obs.mac = mac := fmtMac_injective ((mac_observed hnone now).symm.trans hmac)
  obtain ⟨e, he, _⟩ := hgrows _ old hold
  exact absurd (hnone.symm.trans he) (by simp)

private theorem grows_handleFlow (now : Int) (order : List MacAddr) (agent : Agent)
    (flow : FlowKey × FlowStats) :
    RegistryGrows agent.registry (handleFlow now order agent flow).1.registry := by
  intro mac d hd
  rw [get_handleFlow, hd]
  split_ifs
  · exact ⟨_, rfl, grows_creditFlow d flow.2 now⟩
  · exact ⟨d, rfl, .refl d⟩

private theorem StoreWrite.Upserts.and {Q R : Device → Prop} {w : StoreWrite}
    (hQ : w.Upserts Q) (hR : w.Upserts R) : w.Upserts fun d => Q d ∧ R d := by
  cases w with
  | upsertDevice d => exact ⟨hQ, hR⟩
  | recordAlert a => trivial

theorem grows_handleEvent (now : Int) (order : List MacAddr) (agent : Agent) (ev : CaptureEvent) :
    RegistryGrows agent.registry (handleEvent now order agent ev).agent.registry ∧
      ∀ w ∈ (handleEvent now order agent ev).writes,
        w.Upserts fun d => GrowsInto (handleEvent now order agent ev).agent.registry d ∧
          Follows agent.registry d := by
  cases ev with
  | discovery e =>
      have hinto := foldEmit_grows (f := handleObservation now)
        (R := fun a b : Agent => RegistryGrows a.registry b.registry)
        (P := fun a w => StoreWrite.Upserts (GrowsInto a.registry) w) (fun a => .refl a.registry)
        (fun _ _ _ => .trans) (fun _ _ _ hg hw => hw.imp fun _ hd => hd.mono hg)
        (grows_handleObservation now) agent (decodeEvent e)
      have hfollows := foldEmit_invariant (f := handleObservation now) (l := decodeEvent e)
        (I := fun a : Agent => RegistryGrows agent.registry a.registry)
        (P := fun w => StoreWrite.Upserts (Follows agent.registry) w)
        (fun a obs _ ha => ⟨ha.trans (grows_handleObservation now a obs).1,
          follows_handleObservation now ha obs⟩) (.refl agent.registry)
      exact ⟨hinto.1, fun w hw => (hinto.2 w hw).and (hfollows.2 w hw)⟩
  | flows flows =>
      have hgrows := foldEmit_invariant (f := handleFlow now order) (l := flows)
        (I := fun a : Agent => RegistryGrows agent.registry a.registry)
        (P := fun w => ∀ Q, StoreWrite.Upserts Q w)
        (fun a flow _ ha => ⟨ha.trans (grows_handleFlow now order a flow),
          fun w hw Q => upserts_handleFlow now order a flow Q w hw⟩) (.refl agent.registry)
      exact ⟨hgrows.1, fun w hw => hgrows.2 w hw _⟩

/-! ## The store -/

/-- The record that the store has under a key. -/
def Site.record (serde : Serde) (s : Site) (key : Str) : Option Device :=
  (s.store.devices.lookup key).map (SqliteStore.deviceOfRow serde key)

/-- Where a process runs, each row has grown into the record in memory. -/
def RowsLag (serde : Serde) (s : Site) : Prop :=
  ∀ agent, s.agent = some agent → ∀ key d, s.record serde key = some d →
    GrowsInto agent.registry d

/-- What the writes of a call make of the store that they found. -/
private structure Written (serde : Serde) (before : SqliteStore) (registry : DeviceRegistry)
    (store : SqliteStore) : Prop where
  into : ∀ key row, store.devices.lookup key = some row →
    GrowsInto registry (SqliteStore.deviceOfRow serde key row)
  grown : ∀ key row, before.devices.lookup key = some row → ∃ row',
    store.devices.lookup key = some row' ∧
      (SqliteStore.deviceOfRow serde key row).Grows (SqliteStore.deviceOfRow serde key row')

/-- A row that is written reads back as the record, because the first sighting that it keeps is the
record's own. -/
private theorem firstSeen_kept {serde : Serde} {store : SqliteStore} {registry : DeviceRegistry}
    (hinto : ∀ key row, store.devices.lookup key = some row →
      GrowsInto registry (SqliteStore.deviceOfRow serde key row))
    {d : Device} (hd : GrowsInto registry d) : store.firstSeenAfter d = d.firstSeen := by
  unfold SqliteStore.firstSeenAfter
  cases hrow : store.devices.lookup d.mac with
  | none => rfl
  | some row =>
      obtain ⟨mac, e, hmac, he, hgrows⟩ := hd
      obtain ⟨mac', e', hmac', he', hgrows'⟩ := hinto d.mac row hrow
      obtain rfl : mac' = mac := fmtMac_injective (hmac'.symm.trans hmac)
      obtain rfl := Option.some.inj (he'.symm.trans he)
      exact hgrows'.firstSeen.symm.trans hgrows.firstSeen

private theorem written_upsert {serde : Serde} (hserde : serde.RoundTrip) {before : SqliteStore}
    {start registry : DeviceRegistry} (hlag : ∀ key row, before.devices.lookup key = some row →
      GrowsInto start (SqliteStore.deviceOfRow serde key row))
    {store : SqliteStore} (h : Written serde before registry store) {d : Device}
    (hinto : GrowsInto registry d) (hfollows : Follows start d) :
    Written serde before registry (store.upsertDevice serde d) := by
  have hread : SqliteStore.deviceOfRow serde d.mac
      { SqliteStore.rowOfDevice serde d with firstSeen := store.firstSeenAfter d } = d := by
    rw [SqliteStore.deviceOfRow_rowOfDevice hserde, firstSeen_kept h.into hinto]
  constructor
  · intro key row hrow
    rw [SqliteStore.lookup_upsertDevice] at hrow
    split_ifs at hrow with hkey
    · obtain rfl := Option.some.inj hrow
      rw [hkey, hread]
      exact hinto
    · exact h.into key row hrow
  · intro key row hrow
    rw [SqliteStore.lookup_upsertDevice]
    by_cases hkey : key = d.mac
    · refine ⟨_, if_pos hkey, ?_⟩
      rw [hkey, hread]
      obtain ⟨mac, old, hmac, hold, hgrows⟩ := hlag key row hrow
      rw [hkey] at hgrows
      exact hgrows.trans (hfollows mac old (hkey.symm.trans hmac) hold)
    · rw [if_neg hkey]
      exact h.grown key row hrow

private theorem grows_call {agent agent' : Agent} {step : SiteStep} {writes : List StoreWrite}
    {outcomes : List Bool} (hkeyed : Records Keyed agent.registry)
    (hcall : call agent step = some (agent', writes, outcomes)) :
    RegistryGrows agent.registry agent'.registry ∧
      ∀ w ∈ writes, w.Upserts fun d => GrowsInto agent'.registry d ∧ Follows agent.registry d := by
  rcases call_cases hcall with ⟨ev, now, order, _, _, rfl, rfl⟩ | ⟨order, _, horder, rfl, rfl⟩
  · exact grows_handleEvent now order agent ev
  · refine ⟨.refl _, fun w hw => (upserts_flushAll horder w hw).imp ?_⟩
    rintro d ⟨mac, hd⟩
    refine ⟨⟨mac, d, hkeyed mac d hd, hd, .refl d⟩, fun m old hm hold => ?_⟩
    obtain rfl : m = mac := fmtMac_injective (hm.symm.trans (hkeyed mac d hd))
    obtain rfl := Option.some.inj (hold.symm.trans hd)
    exact .refl _

/-- One step, whatever becomes of its writes. -/
private theorem lag_step {serde : Serde} (hserde : serde.RoundTrip) {s t : Site} {step : SiteStep}
    (hs : SiteOk s) (hlag : RowsLag serde s) (h : siteStep serde s step = some t) :
    RowsLag serde t ∧ ∀ key d, s.record serde key = some d →
      ∃ e, t.record serde key = some e ∧ d.Grows e := by
  rcases siteStep_cases h with ⟨rows, rfl, _, hrows, rfl⟩ |
    ⟨agent, agent', writes, outcomes, hagent, hcall, _, rfl⟩ | ⟨rfl, rfl⟩
  · refine ⟨?_, fun key d hd => ⟨d, hd, .refl d⟩⟩
    rintro _ ⟨⟩ key d hd
    obtain ⟨row, hrow, rfl⟩ := Option.map_eq_some_iff.mp hd
    obtain ⟨mac, rfl⟩ := hs.canonical key (Finmap.mem_of_lookup_eq_some hrow)
    exact ⟨mac, _, rfl, (get_seedRegistry serde hs.canonical hrows mac).trans hd, .refl _⟩
  · obtain ⟨hgrows, hwrites⟩ := grows_call (hs.running agent hagent).1 hcall
    have hbefore : ∀ key row, s.store.devices.lookup key = some row →
        GrowsInto agent.registry (SqliteStore.deviceOfRow serde key row) :=
      fun key row hrow => hlag agent hagent key _ (Option.map_eq_some_iff.mpr ⟨row, hrow, rfl⟩)
    have hwritten : Written serde s.store agent'.registry
        (s.store.writeAll serde (writes.zip outcomes)) :=
      writeAll_upserts (I := Written serde s.store agent'.registry)
        (fun _ _ hw hd => written_upsert hserde hbefore hw hd.1 hd.2)
        (fun _ _ hw => ⟨hw.into, hw.grown⟩) hwrites outcomes
        ⟨fun key row hrow => (hbefore key row hrow).mono hgrows,
          fun _ row hrow => ⟨row, hrow, .refl _⟩⟩
    constructor
    · intro a ha key d hd
      obtain ⟨row, hrow, rfl⟩ := Option.map_eq_some_iff.mp hd
      simp only at ha
      split_ifs at ha
      obtain rfl := Option.some.inj ha
      exact hwritten.into key row hrow
    · intro key d hd
      obtain ⟨row, hrow, rfl⟩ := Option.map_eq_some_iff.mp hd
      obtain ⟨row', hrow', hgrown⟩ := hwritten.grown key row hrow
      exact ⟨_, Option.map_eq_some_iff.mpr ⟨row', hrow', rfl⟩, hgrown⟩
  · exact ⟨fun _ ha => absurd ha (by simp), fun key d hd => ⟨d, hd, .refl d⟩⟩

/-- Over any number of runs, with failed writes and crashes anywhere and whatever the clock says: no
row is ever lost, and what a row once said of its device it says or has outgrown for ever. While a
process runs, its memory is ahead of every row. -/
theorem knowledge_grows (serde : Serde) (hserde : serde.RoundTrip) (earlier later : List SiteStep)
    (r s : Site) (hearlier : exec (siteStep serde) Site.initial earlier = some r)
    (hlater : exec (siteStep serde) r later = some s) :
    (∀ key d, r.record serde key = some d → ∃ e, s.record serde key = some e ∧ d.Grows e) ∧
    ∀ agent, s.agent = some agent → ∀ key e, s.record serde key = some e →
      GrowsInto agent.registry e := by
  have hinitial : SiteOk Site.initial ∧ RowsLag serde Site.initial :=
    ⟨siteOk_initial, fun _ ha => absurd ha (by simp [Site.initial])⟩
  have hr := exec_invariant (I := fun s => SiteOk s ∧ RowsLag serde s)
    (fun s step t hs h => ⟨siteOk_step serde s step t hs.1 h, (lag_step hserde hs.1 hs.2 h).1⟩)
    hinitial hearlier
  have hs := exec_invariant (I := fun s => (SiteOk s ∧ RowsLag serde s) ∧
    ∀ key d, r.record serde key = some d → ∃ e, s.record serde key = some e ∧ d.Grows e)
    (fun s step t hs h => by
      obtain ⟨hlag, hgrows⟩ := lag_step hserde hs.1.1 hs.1.2 h
      refine ⟨⟨siteOk_step serde s step t hs.1.1 h, hlag⟩, fun key d hd => ?_⟩
      obtain ⟨e, he, hde⟩ := hs.2 key d hd
      obtain ⟨f, hf, hef⟩ := hgrows key e he
      exact ⟨f, hf, hde.trans hef⟩)
    ⟨hr, fun key d hd => ⟨d, hd, .refl d⟩⟩ hlater
  exact ⟨hs.2, hs.1.2⟩

theorem knowledge_grows_arpHistory :
    ∃ s, exec (siteStep jsonSerde) Site.initial arpHistory = some s ∧
      ∀ agent, s.agent = some agent → ∀ key e, s.record jsonSerde key = some e →
        GrowsInto agent.registry e :=
  ⟨_, rfl, (knowledge_grows jsonSerde roundTrip_jsonSerde [] arpHistory _ _ rfl rfl).2⟩

end Lanscope
