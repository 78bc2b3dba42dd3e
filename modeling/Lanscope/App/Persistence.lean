import Lanscope.App.Session

/-!
# Persistence

After a flush whose writes all succeed, loading the store rebuilds the registry that was flushed,
whatever happened to the store before: earlier runs, failed writes, crashes. A row's first-seen
column is never updated, so the invariant says that it agrees with memory from the row's insertion
on.
-/

namespace Lanscope

open Framework

def Keyed (mac : MacAddr) (d : Device) : Prop := d.mac = fmtMac mac

theorem keyed_recordInvariant : RecordInvariant Keyed where
  created obs now _ := by simp only [Keyed, retype, foldObservation_eq, Device.new]
  updated obs now d h := by simpa only [Keyed, retype, foldObservation_eq] using h
  credited _ _ _ _ h := h

/-- Every row is about a device of the registry and was first seen when the device was. -/
def Agrees (store : SqliteStore) (registry : DeviceRegistry) : Prop :=
  ∀ key row, store.devices.lookup key = some row →
    ∃ mac d, key = fmtMac mac ∧ registry.get mac = some d ∧ d.firstSeen = row.firstSeen

theorem Agrees.canonical {store : SqliteStore} {registry : DeviceRegistry}
    (h : Agrees store registry) : KeysCanonical store := by
  intro key hkey
  obtain ⟨row, hrow⟩ := Option.isSome_iff_exists.mp (Finmap.lookup_isSome.mpr hkey)
  obtain ⟨mac, _, hmac, _⟩ := h key row hrow
  exact ⟨mac, hmac⟩

theorem Agrees.kept {store : SqliteStore} {registry later : DeviceRegistry}
    (h : Agrees store registry) (hkept : Kept registry later) : Agrees store later := by
  intro key row hrow
  obtain ⟨mac, d, hmac, hd, hfirst⟩ := h key row hrow
  obtain ⟨d', hd', hfirst'⟩ := hkept mac d hd
  exact ⟨mac, d', hmac, hd', hfirst'.trans hfirst⟩

/-- Writing a device that the registry holds keeps the agreement, for a new row because it takes
the first sighting from the record and for an old one because it leaves the column alone. -/
theorem Agrees.upsertDevice {serde : Serde} {store : SqliteStore} {registry : DeviceRegistry}
    (h : Agrees store registry) {d : Device} (hd : Covers registry d) :
    Agrees (store.upsertDevice serde d) registry := by
  intro key row hrow
  rw [SqliteStore.lookup_upsertDevice] at hrow
  split_ifs at hrow with hkey
  · obtain rfl := Option.some.inj hrow
    obtain ⟨mac, d', hmac, hd', hfirst⟩ := hd
    refine ⟨mac, d', hkey.trans hmac, hd', ?_⟩
    simp only [SqliteStore.firstSeenAfter]
    cases hold : store.devices.lookup d.mac with
    | none => exact hfirst
    | some old =>
        obtain ⟨m, e, hm, he, hfirst'⟩ := h d.mac old hold
        obtain rfl : m = mac := fmtMac_injective (hm.symm.trans hmac)
        obtain rfl := Option.some.inj (he.symm.trans hd')
        exact hfirst'
  · exact h key row hrow

theorem Agrees.writeAll (serde : Serde) {store : SqliteStore} {registry : DeviceRegistry}
    (h : Agrees store registry) {writes : List StoreWrite}
    (hwrites : ∀ w ∈ writes, w.Upserts (Covers registry)) (outcomes : List Bool) :
    Agrees (store.writeAll serde (writes.zip outcomes)) registry :=
  writeAll_upserts (I := fun store => Agrees store registry) (fun _ _ hs hd => hs.upsertDevice hd)
    (fun _ _ hs => hs) hwrites outcomes h

/-- What holds between any two steps: rows are keyed canonically, and a running process has its
records filed correctly and in agreement with the rows. -/
structure SiteOk (s : Site) : Prop where
  canonical : KeysCanonical s.store
  running : ∀ agent, s.agent = some agent →
    Records Keyed agent.registry ∧ Agrees s.store agent.registry

theorem siteOk_initial : SiteOk Site.initial where
  canonical _ hkey := absurd hkey Finmap.notMem_empty
  running _ h := absurd h (by simp [Site.initial])

theorem covers_flushAll {order : List MacAddr} {registry : DeviceRegistry}
    (horder : registry.devices.IterOrder order) (hkeyed : Records Keyed registry) :
    ∀ w ∈ flushAll order registry, w.Upserts (Covers registry) := by
  intro w hw
  refine (upserts_flushAll horder w hw).imp ?_
  rintro d ⟨mac, hd⟩
  exact ⟨mac, d, hkeyed mac d hd, hd, rfl⟩

private theorem call_keeps {agent agent' : Agent} {step : SiteStep} {writes : List StoreWrite}
    {outcomes : List Bool} (hkeyed : Records Keyed agent.registry)
    (h : call agent step = some (agent', writes, outcomes)) :
    Records Keyed agent'.registry ∧ Kept agent.registry agent'.registry ∧
      ∀ w ∈ writes, w.Upserts (Covers agent'.registry) := by
  rcases call_cases h with ⟨ev, now, order, _, _, rfl, rfl⟩ | ⟨order, _, horder, rfl, rfl⟩
  · exact ⟨(keyed_recordInvariant.handleEvent now order hkeyed ev).1,
      kept_handleEvent now order agent ev⟩
  · exact ⟨hkeyed, Kept.refl _, covers_flushAll horder hkeyed⟩

theorem siteOk_step (serde : Serde) (s : Site) (step : SiteStep) (t : Site) (hs : SiteOk s)
    (h : siteStep serde s step = some t) : SiteOk t := by
  rcases siteStep_cases h with ⟨rows, rfl, _, hrows, rfl⟩ |
    ⟨agent, agent', writes, outcomes, hagent, hcall, _, rfl⟩ | ⟨rfl, rfl⟩
  · have hget := get_seedRegistry serde hs.canonical hrows
    refine ⟨hs.canonical, ?_⟩
    rintro _ ⟨⟩
    constructor
    · intro mac d hd
      obtain ⟨row, _, rfl⟩ := Option.map_eq_some_iff.mp ((hget mac).symm.trans hd)
      rfl
    · intro key row hrow
      obtain ⟨mac, rfl⟩ := hs.canonical key (Finmap.mem_of_lookup_eq_some hrow)
      exact ⟨mac, _, rfl, (hget mac).trans (by rw [hrow]; rfl), rfl⟩
  · obtain ⟨hkeyed, hagrees⟩ := hs.running agent hagent
    obtain ⟨hkeyed', hkept, hwrites⟩ := call_keeps hkeyed hcall
    have hstore := (hagrees.kept hkept).writeAll serde hwrites outcomes
    refine ⟨hstore.canonical, fun a ha => ?_⟩
    split_ifs at ha
    obtain rfl := Option.some.inj ha
    exact ⟨hkeyed', hstore⟩
  · exact ⟨hs.canonical, fun _ h => absurd h (by simp)⟩

/-! ## Facts about every record -/

/-- The fact holds of every record in memory and of every record that a row stands for. -/
structure SiteHolds (serde : Serde) (Q : Device → Prop) (s : Site) : Prop extends SiteOk s where
  rows : ∀ key row, s.store.devices.lookup key = some row →
    Q (SqliteStore.deviceOfRow serde key row)
  records : ∀ agent, s.agent = some agent → Records (fun _ => Q) agent.registry

theorem siteHolds_initial (serde : Serde) (Q : Device → Prop) :
    SiteHolds serde Q Site.initial where
  toSiteOk := siteOk_initial
  rows _ _ hrow := absurd hrow (by simp [Site.initial, SqliteStore.empty])
  records _ h := absurd h (by simp [Site.initial])

section Facts

variable {Q : Device → Prop} (hQ : RecordInvariant fun _ => Q)
include hQ

/-- A call keeps the fact, and writes rows of records that have it. -/
theorem holds_call {agent agent' : Agent} {step : SiteStep} {writes : List StoreWrite}
    {outcomes : List Bool} (h : Records (fun _ => Q) agent.registry)
    (hcall : call agent step = some (agent', writes, outcomes)) :
    Records (fun _ => Q) agent'.registry ∧ ∀ w ∈ writes, w.Upserts Q := by
  rcases call_cases hcall with ⟨ev, now, order, _, _, rfl, rfl⟩ | ⟨order, _, horder, rfl, rfl⟩
  · obtain ⟨hrec, hwrites⟩ := hQ.handleEvent now order h ev
    exact ⟨hrec, fun w hw => (hwrites w hw).imp fun _ hd => hd.choose_spec⟩
  · refine ⟨h, fun w hw => (upserts_flushAll horder w hw).imp ?_⟩
    rintro d ⟨mac, hd⟩
    exact h mac d hd

/-- The store keeps the first sighting of an old row, so the fact must not depend on it. -/
theorem siteHolds_step {serde : Serde} (hserde : serde.RoundTrip)
    (hfirst : ∀ d firstSeen, Q d → Q { d with firstSeen := firstSeen }) (s : Site)
    (step : SiteStep) (t : Site) (hs : SiteHolds serde Q s) (h : siteStep serde s step = some t) :
    SiteHolds serde Q t := by
  have hok := siteOk_step serde s step t hs.toSiteOk h
  rcases siteStep_cases h with ⟨rows, rfl, _, hrows, rfl⟩ |
    ⟨agent, agent', writes, outcomes, hagent, hcall, _, rfl⟩ | ⟨rfl, rfl⟩
  · refine ⟨hok, hs.rows, ?_⟩
    rintro _ ⟨⟩ mac d hd
    have hget := get_seedRegistry serde hs.canonical hrows mac
    obtain ⟨row, hrow, rfl⟩ := Option.map_eq_some_iff.mp (hget.symm.trans hd)
    exact hs.rows _ row hrow
  · obtain ⟨hrecords, hwrites⟩ := holds_call hQ (hs.records agent hagent) hcall
    refine ⟨hok, ?_, ?_⟩
    · refine writeAll_upserts (I := fun store : SqliteStore => ∀ key row,
        store.devices.lookup key = some row → Q (SqliteStore.deviceOfRow serde key row))
        (fun store d hr hd key row hrow => ?_) (fun _ _ hr => hr) hwrites outcomes hs.rows
      rw [SqliteStore.lookup_upsertDevice] at hrow
      split_ifs at hrow with hkey
      · obtain rfl := Option.some.inj hrow
        rw [hkey, SqliteStore.deviceOfRow_rowOfDevice hserde]
        exact hfirst d _ hd
      · exact hr key row hrow
    · intro a ha
      simp only at ha
      split_ifs at ha
      obtain rfl := Option.some.inj ha
      exact hrecords
  · exact ⟨hok, hs.rows, fun _ ha => absurd ha (by simp)⟩

end Facts

/-! ## A flush that succeeds -/

private theorem zip_succeeding {writes : List StoreWrite} {outcomes : List Bool}
    (hlen : outcomes.length = writes.length) (hok : ∀ ok ∈ outcomes, ok = true) :
    writes.zip outcomes = writes.map fun w => (w, true) := by
  obtain rfl : outcomes = List.replicate writes.length true :=
    List.eq_replicate_iff.mpr ⟨hlen, hok⟩
  clear hlen hok
  induction writes with
  | nil => rfl
  | cons w writes ih =>
      simp only [List.length_cons, List.replicate_succ, List.zip_cons_cons, List.map_cons, ih]

/-- Once a row is written from a record, writing only this record under its key keeps it so. -/
private theorem lookup_writeAll_kept (serde : Serde) {devices : List Device} {d : Device}
    (hkey : ∀ e ∈ devices, e.mac = d.mac → e = d) {store : SqliteStore}
    (h : ∃ firstSeen, store.devices.lookup d.mac =
      some { SqliteStore.rowOfDevice serde d with firstSeen := firstSeen }) :
    ∃ firstSeen, (store.writeAll serde (devices.map fun e => (.upsertDevice e, true))).devices.lookup
      d.mac = some { SqliteStore.rowOfDevice serde d with firstSeen := firstSeen } := by
  induction devices generalizing store with
  | nil => exact h
  | cons e devices ih =>
      apply ih (fun e he => hkey e (List.mem_cons_of_mem _ he))
      change ∃ firstSeen, (store.upsertDevice serde e).devices.lookup d.mac = _
      rw [SqliteStore.lookup_upsertDevice]
      split_ifs with hmac
      · obtain rfl := hkey e List.mem_cons_self hmac.symm
        exact ⟨_, rfl⟩
      · exact h

/-- The row of a device in a list of devices with different keys, once all of them are written. -/
private theorem lookup_writeAll_upserts (serde : Serde) {devices : List Device} {d : Device}
    (hd : d ∈ devices) (hkey : ∀ e ∈ devices, e.mac = d.mac → e = d) (store : SqliteStore) :
    ∃ firstSeen, (store.writeAll serde (devices.map fun e => (.upsertDevice e, true))).devices.lookup
      d.mac = some { SqliteStore.rowOfDevice serde d with firstSeen := firstSeen } := by
  induction devices generalizing store with
  | nil => exact absurd hd List.not_mem_nil
  | cons e devices ih =>
      have hrest : ∀ e ∈ devices, e.mac = d.mac → e = d :=
        fun e he => hkey e (List.mem_cons_of_mem _ he)
      rcases List.mem_cons.mp hd with rfl | hd
      · apply lookup_writeAll_kept serde hrest
        change ∃ firstSeen, (store.upsertDevice serde d).devices.lookup d.mac = _
        rw [SqliteStore.lookup_upsertDevice, if_pos rfl]
        exact ⟨_, rfl⟩
      · exact ih hd hrest (store.upsertDevice serde e)

private theorem lookup_flushed {serde : Serde} (hserde : serde.RoundTrip) {registry : DeviceRegistry}
    (hkeyed : Records Keyed registry) {order : List MacAddr}
    (horder : registry.devices.IterOrder order) {outcomes : List Bool}
    (hlen : outcomes.length = (flushAll order registry).length) (hok : ∀ ok ∈ outcomes, ok = true)
    (store : SqliteStore) {mac : MacAddr} {d : Device} (hd : registry.get mac = some d) :
    ∃ row, (store.writeAll serde ((flushAll order registry).zip outcomes)).devices.lookup
        (fmtMac mac) = some row ∧
      SqliteStore.deviceOfRow serde (fmtMac mac) row = { d with firstSeen := row.firstSeen } := by
  have hmac := hkeyed mac d hd
  have hmem : d ∈ registry.devices.values order := (HashMap.mem_values horder d).mpr ⟨mac, hd⟩
  have hkey : ∀ e ∈ registry.devices.values order, e.mac = d.mac → e = d := by
    intro e he hemac
    obtain ⟨m, hm⟩ := (HashMap.mem_values horder e).mp he
    obtain rfl : m = mac :=
      fmtMac_injective ((hkeyed m e hm).symm.trans (hemac.trans hmac))
    exact Option.some.inj (hm.symm.trans hd)
  obtain ⟨firstSeen, hrow⟩ := lookup_writeAll_upserts serde hmem hkey store
  rw [zip_succeeding hlen hok, flushAll, List.map_map, ← hmac]
  exact ⟨_, hrow, SqliteStore.deviceOfRow_rowOfDevice hserde d firstSeen⟩

/-- A flush into a store that agrees with the registry makes the store stand for it. -/
theorem seed_flushed {serde : Serde} (hserde : serde.RoundTrip) {store : SqliteStore}
    {registry : DeviceRegistry} (hkeyed : Records Keyed registry) (hagrees : Agrees store registry)
    {order : List MacAddr} (horder : registry.devices.IterOrder order) {outcomes : List Bool}
    (hlen : outcomes.length = (flushAll order registry).length) (hok : ∀ ok ∈ outcomes, ok = true)
    {rows : List Str} (hrows : (store.writeAll serde
      ((flushAll order registry).zip outcomes)).devices.IterOrder rows) :
    seedRegistry DeviceRegistry.empty ((store.writeAll serde
      ((flushAll order registry).zip outcomes)).loadDevices serde rows) = registry := by
  have hafter := hagrees.writeAll serde (covers_flushAll horder hkeyed) outcomes
  apply DeviceRegistry.ext_get
  intro mac
  rw [get_seedRegistry serde hafter.canonical hrows]
  cases hrow : (store.writeAll serde ((flushAll order registry).zip outcomes)).devices.lookup
      (fmtMac mac) with
  | none =>
      cases hd : registry.get mac with
      | none => rfl
      | some d =>
          obtain ⟨row, hrow', _⟩ := lookup_flushed hserde hkeyed horder hlen hok store hd
          exact absurd (hrow.symm.trans hrow') (by simp)
  | some row =>
      obtain ⟨m, d, hm, hd, hfirst⟩ := hafter (fmtMac mac) row hrow
      obtain rfl := fmtMac_injective hm
      obtain ⟨row', hrow', hread⟩ := lookup_flushed hserde hkeyed horder hlen hok store hd
      obtain rfl := Option.some.inj (hrow.symm.trans hrow')
      rw [Option.map_some, hread, hd, ← hfirst]

/-- A flush that returns has tried to write every record. -/
private theorem siteStep_flush {serde : Serde} {s t : Site} {order : List MacAddr}
    {outcomes : List Bool} (h : siteStep serde s (.flush order outcomes) = some t)
    (hreturned : t.agent.isSome) {agent : Agent} (hagent : s.agent = some agent) :
    agent.registry.devices.IterOrder order ∧
      outcomes.length = (flushAll order agent.registry).length ∧
      t.store = s.store.writeAll serde ((flushAll order agent.registry).zip outcomes) := by
  rcases siteStep_cases h with ⟨_, hstep, _⟩ |
    ⟨a, agent', writes, outs, ha, hcall, _, rfl⟩ | ⟨hstep, _⟩
  · exact absurd hstep (by simp)
  · obtain rfl := Option.some.inj (hagent.symm.trans ha)
    rcases call_cases hcall with ⟨_, _, _, hstep, _⟩ | ⟨order', hstep, horder, rfl, rfl⟩
    · exact absurd hstep (by simp)
    obtain ⟨rfl, rfl⟩ := SiteStep.flush.inj hstep
    refine ⟨horder, ?_, rfl⟩
    by_contra hne
    simp [hne] at hreturned
  · exact absurd hstep (by simp)

/-- In every history over one store, a flush whose upserts all succeed leaves a store from which a
fresh registry is rebuilt equal to the flushed one, in whatever order the table yields its rows. -/
theorem reload_after_flush (serde : Serde) (hserde : serde.RoundTrip) (history : List SiteStep)
    (s : Site) (hrun : exec (siteStep serde) Site.initial history = some s) (agent : Agent)
    (hagent : s.agent = some agent) (order : List MacAddr) (outcomes : List Bool) (t : Site)
    (hflush : siteStep serde s (.flush order outcomes) = some t) (hreturned : t.agent.isSome)
    (hok : ∀ ok ∈ outcomes, ok = true) (rows : List Str) (hrows : t.store.devices.IterOrder rows) :
    seedRegistry DeviceRegistry.empty (t.store.loadDevices serde rows) = agent.registry := by
  have hs := exec_invariant (siteOk_step serde) siteOk_initial hrun
  have ht := siteOk_step serde s _ t hs hflush
  obtain ⟨hkeyed, hagrees⟩ := hs.running agent hagent
  obtain ⟨horder, hlen, hstore⟩ := siteStep_flush hflush hreturned hagent
  have hagrees' := hagrees.writeAll serde (covers_flushAll horder hkeyed) outcomes
  apply DeviceRegistry.ext_get
  intro mac
  rw [get_seedRegistry serde ht.canonical hrows, hstore]
  cases hd : agent.registry.get mac with
  | none =>
      -- a row of a device that the registry does not hold would disagree
      rw [Option.map_eq_none_iff]
      by_contra hsome
      obtain ⟨row, hrow⟩ := Option.ne_none_iff_exists'.mp hsome
      obtain ⟨m, d, hm, hd', _⟩ := hagrees' (fmtMac mac) row hrow
      obtain rfl := fmtMac_injective hm
      exact absurd (hd.symm.trans hd') (by simp)
  | some d =>
      obtain ⟨row, hrow, hread⟩ := lookup_flushed hserde hkeyed horder hlen hok s.store hd
      obtain ⟨m, e, hm, he, hfirst⟩ := hagrees' (fmtMac mac) row hrow
      obtain rfl := fmtMac_injective hm
      obtain rfl := Option.some.inj (hd.symm.trans he)
      rw [hrow, Option.map_some, hread, ← hfirst]

def arpEvent : Event :=
  Event.holding .arp (MacAddr.ofBytes 0xb8 0x27 0xeb 0x01 0x02 0x03) 0x0A000042 []

/-- A run that records a new device, while the store fails to record the alert about it. -/
def arpHistory : List SiteStep :=
  [.start [], .event (.discovery arpEvent) 100 [] [true, false]]

theorem reload_after_flush_arpHistory :
    ∃ s agent t, exec (siteStep jsonSerde) Site.initial arpHistory = some s ∧
      s.agent = some agent ∧
      siteStep jsonSerde s (.flush [arpEvent.srcMac] [true]) = some t ∧
      seedRegistry DeviceRegistry.empty
        (t.store.loadDevices jsonSerde [fmtMac arpEvent.srcMac]) = agent.registry :=
  ⟨_, _, _, rfl, rfl, rfl, reload_after_flush jsonSerde roundTrip_jsonSerde arpHistory _ rfl _ rfl
    [arpEvent.srcMac] [true] _ rfl rfl (by simp) [fmtMac arpEvent.srcMac] (by decide)⟩

end Lanscope
