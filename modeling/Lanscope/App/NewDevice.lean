import Lanscope.App.Persistence

/-!
# New-device alerts

A new device is written to the store before the alert about it, so that a crash between the two can
lose the alert but never repeat it. Over any number of runs with crashes anywhere, an address gets
at most one alert.
-/

namespace Lanscope

open Framework

/-- The event makes the pipeline record an observation of the address. -/
def CaptureEvent.Observes : CaptureEvent → MacAddr → Prop
  | .discovery e, mac => e.srcMac = mac ∧ mac ≠ zeroMac ∧ decodeEvent e ≠ []
  | .flows _, _ => False

/-! ## What a discovery event writes -/

private theorem writes_of_known (now : Int) (agent : Agent) {mac : MacAddr} (hmac : mac ≠ zeroMac)
    {observations : List Observation} (hobs : ∀ obs ∈ observations, obs.mac = mac)
    (hstack : agent.anomaly.IsDefault) (hknown : (agent.registry.get mac).isSome) :
    (foldEmit (handleObservation now) agent observations).2 = [] := by
  have hfold := foldEmit_invariant (f := handleObservation now) (l := observations)
    (I := fun a : Agent => a.anomaly.IsDefault ∧ (a.registry.get mac).isSome)
    (P := fun _ => False) (fun a obs hmem ha => by
      obtain rfl := hobs obs hmem
      obtain ⟨hanomaly, hwrites⟩ := handleObservation_default now a obs ha.1 hmac
      rw [if_pos ha.2] at hwrites
      rw [hanomaly, hwrites, get_handleObservation now a obs hmac, if_pos rfl]
      exact ⟨⟨ha.1, rfl⟩, by simp⟩) ⟨hstack, hknown⟩
  exact List.eq_nil_iff_forall_not_mem.mpr hfold.2

/-- An event writes the row of a device it creates and then the alert about it, or else alerts of
other kinds only. -/
theorem handleEvent_writes (now : Int) (order : List MacAddr) {agent : Agent}
    (hstack : agent.anomaly.IsDefault) (ev : CaptureEvent) :
    (∃ mac d, ev.Observes mac ∧ agent.registry.get mac = none ∧ d.mac = fmtMac mac ∧
      (handleEvent now order agent ev).writes = [.upsertDevice d, .recordAlert (joined d now)]) ∨
    (∀ mac, ev.Observes mac → (agent.registry.get mac).isSome) ∧
      ∀ w ∈ (handleEvent now order agent ev).writes,
        ∃ alert, w = .recordAlert alert ∧ alert.kind ≠ newDeviceKind := by
  cases ev with
  | flows flows =>
      refine Or.inr ⟨fun _ h => absurd h not_false, ?_⟩
      exact (foldEmit_invariant (f := handleFlow now order) (I := fun _ => True)
        (fun _ _ _ _ => ⟨trivial, fun _ => of_mem_handleFlow⟩) trivial).2
  | discovery e =>
      by_cases hmac : e.srcMac = zeroMac
      · refine Or.inr ⟨fun mac h => absurd (h.1.symm.trans hmac) h.2.1, ?_⟩
        exact (foldEmit_invariant (f := handleObservation now) (I := fun _ => True)
          (fun a obs hobs _ => ⟨trivial, by
            rw [handleObservation_zero now a obs ((mem_decodeEvent hobs).1.trans hmac)]
            simp⟩) trivial).2
      have hobs : ∀ obs ∈ decodeEvent e, obs.mac = e.srcMac := fun _ h => (mem_decodeEvent h).1
      by_cases hknown : (agent.registry.get e.srcMac).isSome
      · refine Or.inr ⟨fun mac h => h.1 ▸ hknown, ?_⟩
        have hnone := writes_of_known now agent hmac hobs hstack hknown
        intro w hw
        exact absurd (hnone ▸ hw : w ∈ []) List.not_mem_nil
      · have hget : agent.registry.get e.srcMac = none := by simpa using hknown
        cases hdecode : decodeEvent e with
        | nil =>
            refine Or.inr ⟨fun mac h => absurd hdecode h.2.2, ?_⟩
            simp [handleEvent, hdecode]
        | cons obs rest =>
            rw [hdecode] at hobs
            have hfirst : obs.mac = e.srcMac := hobs obs List.mem_cons_self
            have hnz : obs.mac ≠ zeroMac := fun h => hmac (hfirst.symm.trans h)
            obtain ⟨hanomaly, hwrites⟩ := handleObservation_default now agent obs hstack hnz
            rw [hfirst, hget] at hwrites
            -- the first observation writes, and finds the device known for the others
            have hrest := writes_of_known now (handleObservation now agent obs).1 hmac
              (fun o ho => hobs o (List.mem_cons_of_mem _ ho)) (hanomaly ▸ hstack) (by
                rw [get_handleObservation now agent obs hnz, if_pos hfirst.symm]
                rfl)
            refine Or.inl ⟨e.srcMac, observed agent.registry obs now, ⟨rfl, hmac, by simp [hdecode]⟩,
              hget, ?_, ?_⟩
            · simp only [observed, retype, hfirst, hget, Option.getD_none, foldObservation_eq,
                Device.new]
            · simp only [handleEvent, hdecode, foldEmit_cons, hwrites, hrest]
              rfl

private theorem isSome_discovery (now : Int) (agent : Agent) (observations : List Observation)
    (mac : MacAddr) :
    ((foldEmit (handleObservation now) agent observations).1.registry.get mac).isSome ↔
      (agent.registry.get mac).isSome ∨ mac ≠ zeroMac ∧ ∃ obs ∈ observations, obs.mac = mac := by
  induction observations generalizing agent with
  | nil => simp
  | cons obs rest ih =>
      have hone : ((handleObservation now agent obs).1.registry.get mac).isSome ↔
          (agent.registry.get mac).isSome ∨ mac ≠ zeroMac ∧ obs.mac = mac := by
        by_cases hzero : obs.mac = zeroMac
        · rw [handleObservation_zero now agent obs hzero]
          constructor
          · exact Or.inl
          · rintro (h | ⟨hne, rfl⟩)
            · exact h
            · exact absurd hzero hne
        · rw [get_handleObservation now agent obs hzero]
          by_cases hmac : mac = obs.mac
          · subst mac
            simp [hzero]
          · simp [hmac, Ne.symm hmac]
      rw [foldEmit_cons, ih, hone]
      simp only [List.mem_cons, exists_eq_or_imp]
      tauto

private theorem isSome_flows (now : Int) (order : List MacAddr) (agent : Agent)
    (flows : List (FlowKey × FlowStats)) (mac : MacAddr) :
    ((foldEmit (handleFlow now order) agent flows).1.registry.get mac).isSome ↔
      (agent.registry.get mac).isSome := by
  induction flows generalizing agent with
  | nil => rfl
  | cons flow flows ih =>
      rw [foldEmit_cons, ih, get_handleFlow]
      split_ifs
      · rw [Option.isSome_map]
      · rfl

theorem isSome_handleEvent (now : Int) (order : List MacAddr) (agent : Agent) (ev : CaptureEvent)
    (mac : MacAddr) :
    ((handleEvent now order agent ev).agent.registry.get mac).isSome ↔
      (agent.registry.get mac).isSome ∨ ev.Observes mac := by
  cases ev with
  | flows flows =>
      refine (isSome_flows now order agent flows mac).trans ?_
      simp [CaptureEvent.Observes]
  | discovery e =>
      refine (isSome_discovery now agent (decodeEvent e) mac).trans (or_congr Iff.rfl ?_)
      constructor
      · rintro ⟨hne, obs, hobs, rfl⟩
        exact ⟨(mem_decodeEvent hobs).1.symm, hne, List.ne_nil_of_mem hobs⟩
      · rintro ⟨rfl, hne, hsome⟩
        obtain ⟨obs, hobs⟩ := List.exists_mem_of_ne_nil _ hsome
        exact ⟨hne, obs, hobs, (mem_decodeEvent hobs).1⟩

/-! ## Alerts in the store -/

def announcements (store : SqliteStore) (mac : MacAddr) : Nat :=
  store.alerts.countP fun a => a.kind = newDeviceKind ∧ a.mac = some (fmtMac mac)

/-- No write of the step fails. A crash may still cut its writes short. -/
def SiteStep.Succeeds : SiteStep → Prop
  | .event _ _ _ outcomes | .flush _ outcomes => ∀ ok ∈ outcomes, ok = true
  | .start _ | .stop => True

/-- The step makes the pipeline record an observation of the address, or begin to. -/
def SiteStep.Observes : SiteStep → MacAddr → Prop
  | .event ev _ _ _, mac => ev.Observes mac
  | _, _ => False

theorem SiteStep.Observes.eq {step : SiteStep} {m n : MacAddr} (hm : step.Observes m)
    (hn : step.Observes n) : m = n := by
  cases step with
  | event ev now order outcomes =>
      cases ev with
      | discovery e => exact hm.1.symm.trans hn.1
      | flows _ => exact absurd hm not_false
  | start _ | flush _ _ | stop => exact absurd hm not_false

/-- Alerts were raised at most once per address, and for addresses with a row only. -/
structure StoreAnnounced (store : SqliteStore) : Prop where
  once : ∀ mac, announcements store mac ≤ 1
  row : ∀ mac, announcements store mac ≠ 0 → fmtMac mac ∈ store.devices
  zero : fmtMac zeroMac ∉ store.devices

/-- Between steps, every device of a running process has its row. -/
structure SiteAnnounced (s : Site) : Prop extends SiteOk s where
  store : StoreAnnounced s.store
  stack : ∀ agent, s.agent = some agent → agent.anomaly.IsDefault
  known : ∀ agent, s.agent = some agent → ∀ mac, (agent.registry.get mac).isSome →
    fmtMac mac ∈ s.store.devices

private theorem siteAnnounced_initial : SiteAnnounced Site.initial where
  toSiteOk := siteOk_initial
  store := ⟨fun _ => Nat.zero_le 1, fun _ h => absurd rfl h, Finmap.notMem_empty⟩
  stack _ h := absurd h (by simp [Site.initial])
  known _ h := absurd h (by simp [Site.initial])

private def SameAnnounced (store later : SqliteStore) : Prop :=
  (∀ mac, announcements later mac = announcements store mac) ∧
    ∀ key, key ∈ later.devices ↔ key ∈ store.devices

private theorem mem_upsertDevice {serde : Serde} (store : SqliteStore) (d : Device) (key : Str) :
    key ∈ (store.upsertDevice serde d).devices ↔ key = d.mac ∨ key ∈ store.devices := by
  rw [← Finmap.lookup_isSome, ← Finmap.lookup_isSome, SqliteStore.lookup_upsertDevice]
  by_cases h : key = d.mac <;> simp [h]

private theorem announcements_recordAlert (store : SqliteStore) (a : Alert) (mac : MacAddr) :
    announcements (store.recordAlert a) mac =
      announcements store mac + if a.kind = newDeviceKind ∧ a.mac = some (fmtMac mac) then 1 else 0 := by
  simp [announcements, SqliteStore.recordAlert, List.countP_append, List.countP_singleton]

@[simp] private theorem announcements_upsertDevice {serde : Serde} (store : SqliteStore) (d : Device)
    (mac : MacAddr) : announcements (store.upsertDevice serde d) mac = announcements store mac :=
  congrArg (List.countP _) (SqliteStore.alerts_upsertDevice store d)

private theorem announcements_joined (store : SqliteStore) {d : Device} {m : MacAddr}
    (hd : d.mac = fmtMac m) (now : Int) (mac : MacAddr) :
    announcements (store.recordAlert (joined d now)) mac =
      announcements store mac + if mac = m then 1 else 0 := by
  rw [announcements_recordAlert]
  simp only [joined, hd, true_and, Option.some.injEq, fmtMac_injective.eq_iff, eq_comm]

private theorem StoreAnnounced.same {store later : SqliteStore} (h : StoreAnnounced store)
    (hsame : SameAnnounced store later) : StoreAnnounced later where
  once mac := (hsame.1 mac).trans_le (h.once mac)
  row mac hmac := (hsame.2 _).mpr (h.row mac fun h0 => hmac ((hsame.1 mac).trans h0))
  zero hz := h.zero ((hsame.2 _).mp hz)

private theorem StoreAnnounced.upsertDevice {serde : Serde} {store : SqliteStore}
    (h : StoreAnnounced store) {d : Device} {mac : MacAddr} (hd : d.mac = fmtMac mac)
    (hne : mac ≠ zeroMac) : StoreAnnounced (store.upsertDevice serde d) where
  once m := by simpa using h.once m
  row m hm := (mem_upsertDevice store d _).mpr (Or.inr (h.row m (by simpa using hm)))
  zero hz := by
    rcases (mem_upsertDevice store d _).mp hz with heq | hz
    · exact hne (fmtMac_injective (heq.trans hd)).symm
    · exact h.zero hz

private theorem StoreAnnounced.recordJoined {store : SqliteStore} (h : StoreAnnounced store)
    {d : Device} {mac : MacAddr} (hd : d.mac = fmtMac mac) (hrow : fmtMac mac ∈ store.devices)
    (hfirst : announcements store mac = 0) (now : Int) :
    StoreAnnounced (store.recordAlert (joined d now)) where
  once m := by
    rw [announcements_joined store hd]
    split_ifs with hm
    · subst m
      omega
    · exact h.once m
  row m hm := by
    rw [announcements_joined store hd] at hm
    split_ifs at hm with hmac
    · subst m
      exact hrow
    · exact h.row m hm
  zero := h.zero

private theorem sameAnnounced_writeAll {serde : Serde} {store : SqliteStore}
    {writes : List StoreWrite} (h : ∀ w ∈ writes,
      (∃ d, w = .upsertDevice d ∧ d.mac ∈ store.devices) ∨
        ∃ alert, w = .recordAlert alert ∧ alert.kind ≠ newDeviceKind) (outcomes : List Bool) :
    SameAnnounced store (store.writeAll serde (writes.zip outcomes)) := by
  refine writeAll_invariant (I := SameAnnounced store) (fun now w hw hI => ?_) outcomes
    ⟨fun _ => rfl, fun _ => Iff.rfl⟩
  rcases h w hw with ⟨d, rfl, hd⟩ | ⟨alert, rfl, hkind⟩
  · refine ⟨fun mac => ?_, fun key => ?_⟩
    · exact (announcements_upsertDevice now d mac).trans (hI.1 mac)
    · refine (mem_upsertDevice now d key).trans ?_
      rw [hI.2]
      constructor
      · rintro (rfl | hkey)
        · exact hd
        · exact hkey
      · exact Or.inr
  · refine ⟨fun mac => ?_, hI.2⟩
    change announcements (now.recordAlert alert) mac = _
    rw [announcements_recordAlert, hI.1]
    simp [hkind]

private theorem call_known {agent agent' : Agent} {step : SiteStep} {writes : List StoreWrite}
    {outcomes : List Bool} (hstack : agent.anomaly.IsDefault)
    (h : call agent step = some (agent', writes, outcomes)) :
    agent'.anomaly.IsDefault ∧ ∀ mac, (agent'.registry.get mac).isSome ↔
      (agent.registry.get mac).isSome ∨ step.Observes mac := by
  rcases call_cases h with ⟨ev, now, order, rfl, _, rfl, rfl⟩ | ⟨order, rfl, _, rfl, rfl⟩
  · exact ⟨isDefault_handleEvent now order hstack ev, isSome_handleEvent now order agent ev⟩
  · exact ⟨hstack, by simp [SiteStep.Observes]⟩

/-- A call writes the row of a new device and then its alert, or nothing that matters here. -/
private theorem call_writes {agent agent' : Agent} {step : SiteStep} {writes : List StoreWrite}
    {outcomes : List Bool} {store : SqliteStore} (hkeyed : Records Keyed agent.registry)
    (hknown : ∀ mac, (agent.registry.get mac).isSome → fmtMac mac ∈ store.devices)
    (hstack : agent.anomaly.IsDefault) (h : call agent step = some (agent', writes, outcomes)) :
    (∃ mac d now, step.Observes mac ∧ mac ≠ zeroMac ∧ agent.registry.get mac = none ∧
      d.mac = fmtMac mac ∧ writes = [.upsertDevice d, .recordAlert (joined d now)]) ∨
    (∀ mac, step.Observes mac → (agent.registry.get mac).isSome) ∧
      ∀ w ∈ writes, (∃ d, w = .upsertDevice d ∧ d.mac ∈ store.devices) ∨
        ∃ alert, w = .recordAlert alert ∧ alert.kind ≠ newDeviceKind := by
  rcases call_cases h with ⟨ev, now, order, rfl, _, rfl, rfl⟩ | ⟨order, rfl, horder, rfl, rfl⟩
  · rcases handleEvent_writes now order hstack ev with ⟨mac, d, hobs, hget, hmac, hwrites⟩ | hother
    · cases ev with
      | discovery e => exact Or.inl ⟨mac, d, now, hobs, hobs.2.1, hget, hmac, hwrites⟩
      | flows _ => exact absurd hobs not_false
    · exact Or.inr ⟨hother.1, fun w hw => Or.inr (hother.2 w hw)⟩
  · refine Or.inr ⟨fun _ hobs => absurd hobs not_false, fun w hw => ?_⟩
    have hup := upserts_flushAll horder w hw
    cases w with
    | upsertDevice d =>
        obtain ⟨mac, hd⟩ := hup
        exact Or.inl ⟨d, rfl, hkeyed mac d hd ▸ hknown mac (by simp [hd])⟩
    | recordAlert a =>
        obtain ⟨_, _, hne⟩ := List.mem_map.mp hw
        exact absurd hne (by simp)

/-- What a call whose writes do not fail makes of the store: for a new device nothing, its row, or
its row and the one alert, the process surviving the last only. -/
private theorem call_effect {serde : Serde} {s : Site} (hs : SiteAnnounced s) {agent agent' : Agent}
    (hagent : s.agent = some agent) {step : SiteStep} {writes : List StoreWrite}
    {outcomes : List Bool} (hcall : call agent step = some (agent', writes, outcomes))
    (hlen : outcomes.length ≤ writes.length) (hok : step.Succeeds) :
    (∃ mac d now, step.Observes mac ∧ mac ≠ zeroMac ∧ agent.registry.get mac = none ∧
      d.mac = fmtMac mac ∧ fmtMac mac ∉ s.store.devices ∧ announcements s.store mac = 0 ∧
      (outcomes.length < writes.length ∧
          s.store.writeAll serde (writes.zip outcomes) = s.store ∨
        outcomes.length < writes.length ∧
          s.store.writeAll serde (writes.zip outcomes) = s.store.upsertDevice serde d ∨
        s.store.writeAll serde (writes.zip outcomes) =
          (s.store.upsertDevice serde d).recordAlert (joined d now))) ∨
    (∀ mac, step.Observes mac → (agent.registry.get mac).isSome) ∧
      SameAnnounced s.store (s.store.writeAll serde (writes.zip outcomes)) := by
  obtain ⟨hkeyed, hagrees⟩ := hs.running agent hagent
  have houtcomes : ∀ ok ∈ outcomes, ok = true := by
    rcases call_cases hcall with ⟨_, _, _, rfl, _⟩ | ⟨_, rfl, _⟩ <;> exact hok
  rcases call_writes hkeyed (hs.known agent hagent) (hs.stack agent hagent) hcall with
    ⟨mac, d, now, hobs, hne, hget, hmac, rfl⟩ | ⟨hknown, hwrites⟩
  · have hrow : fmtMac mac ∉ s.store.devices := by
      intro hmem
      obtain ⟨row, hrow⟩ := Option.isSome_iff_exists.mp (Finmap.lookup_isSome.mpr hmem)
      obtain ⟨m, e, hm, he, _⟩ := hagrees _ row hrow
      obtain rfl := fmtMac_injective hm
      exact absurd (hget.symm.trans he) (by simp)
    have hzero : announcements s.store mac = 0 := by
      by_contra hpos
      exact hrow (hs.store.row mac hpos)
    refine Or.inl ⟨mac, d, now, hobs, hne, hget, hmac, hrow, hzero, ?_⟩
    match outcomes, houtcomes, hlen with
    | [], _, _ => exact Or.inl ⟨by simp, rfl⟩
    | [_], h, _ =>
        obtain rfl := h _ List.mem_cons_self
        exact Or.inr (Or.inl ⟨by simp, rfl⟩)
    | [_, _], h, _ =>
        obtain rfl := h _ List.mem_cons_self
        obtain rfl := h _ (List.mem_cons_of_mem _ List.mem_cons_self)
        exact Or.inr (Or.inr rfl)
    | _ :: _ :: _ :: _, _, h => simp at h
  · exact Or.inr ⟨hknown, sameAnnounced_writeAll hwrites outcomes⟩

private theorem storeAnnounced_call {serde : Serde} {s : Site} (hs : SiteAnnounced s)
    {agent agent' : Agent} (hagent : s.agent = some agent) {step : SiteStep}
    {writes : List StoreWrite} {outcomes : List Bool}
    (hcall : call agent step = some (agent', writes, outcomes))
    (hlen : outcomes.length ≤ writes.length) (hok : step.Succeeds) :
    StoreAnnounced (s.store.writeAll serde (writes.zip outcomes)) := by
  rcases call_effect hs hagent hcall hlen hok with
    ⟨mac, d, now, _, hne, _, hmac, _, hfirst, ⟨_, hstore⟩ | ⟨_, hstore⟩ | hstore⟩ | ⟨_, hsame⟩
  · rw [hstore]
    exact hs.store
  · rw [hstore]
    exact hs.store.upsertDevice hmac hne
  · have hrow : fmtMac mac ∈ (s.store.upsertDevice serde d).devices :=
      (mem_upsertDevice _ d _).mpr (Or.inl hmac.symm)
    rw [hstore]
    exact (hs.store.upsertDevice hmac hne).recordJoined hmac hrow (by simpa using hfirst) now
  · exact hs.store.same hsame

/-- After a call that returns, every known device has its row: an old one had it, and the row of a
new one was written. -/
private theorem rows_call {serde : Serde} {s : Site} (hs : SiteAnnounced s) {agent agent' : Agent}
    (hagent : s.agent = some agent) {step : SiteStep} {writes : List StoreWrite}
    {outcomes : List Bool} (hcall : call agent step = some (agent', writes, outcomes))
    (hall : outcomes.length = writes.length) (hok : step.Succeeds) {mac : MacAddr}
    (hmac : (agent'.registry.get mac).isSome) :
    fmtMac mac ∈ (s.store.writeAll serde (writes.zip outcomes)).devices := by
  have hknown := ((call_known (hs.stack agent hagent) hcall).2 mac).mp hmac
  rcases call_effect hs hagent hcall hall.le hok with
    ⟨m, d, now, hobs, _, _, hd, _, _, ⟨hcut, _⟩ | ⟨hcut, _⟩ | hstore⟩ | ⟨hold, hsame⟩
  · omega
  · omega
  · have hrow : fmtMac mac = d.mac ∨ fmtMac mac ∈ s.store.devices := by
      rcases hknown with hknown | hnew
      · exact Or.inr (hs.known agent hagent mac hknown)
      · exact Or.inl (hnew.eq hobs ▸ hd.symm)
    rw [hstore]
    exact (mem_upsertDevice _ d _).mpr hrow
  · have hbefore : (agent.registry.get mac).isSome := hknown.elim id (hold mac)
    exact (hsame.2 _).mpr (hs.known agent hagent mac hbefore)

private theorem siteAnnounced_step {serde : Serde} (s : Site) (step : SiteStep) (t : Site)
    (hs : SiteAnnounced s) (hok : step.Succeeds) (h : siteStep serde s step = some t) :
    SiteAnnounced t := by
  have hsite := siteOk_step serde s step t hs.toSiteOk h
  rcases siteStep_cases h with ⟨rows, rfl, _, hrows, rfl⟩ |
    ⟨agent, agent', writes, outcomes, hagent, hcall, hlen, rfl⟩ | ⟨rfl, rfl⟩
  · refine ⟨hsite, hs.store, ?_, ?_⟩
    · rintro _ ⟨⟩
      exact Engine.isDefault_defaultStack
    · rintro _ ⟨⟩ mac hmac
      exact (isSome_started serde hs.canonical hrows mac).mp hmac
  · have hreturned {a : Agent}
        (ha : (if outcomes.length = writes.length then some agent' else none) = some a) :
        a = agent' ∧ outcomes.length = writes.length := by
      split_ifs at ha with hall
      exact ⟨(Option.some.inj ha).symm, hall⟩
    refine ⟨hsite, storeAnnounced_call hs hagent hcall hlen hok, fun a ha => ?_, fun a ha m hm => ?_⟩
    · rw [(hreturned ha).1]
      exact (call_known (hs.stack agent hagent) hcall).1
    · obtain ⟨rfl, hall⟩ := hreturned ha
      exact rows_call hs hagent hcall hall hok hm
  · exact ⟨hsite, hs.store, fun _ ha => absurd ha (by simp), fun _ ha => absurd ha (by simp)⟩

private theorem announcements_of_new {serde : Serde} {s t : Site} {step : SiteStep}
    (hs : SiteAnnounced s) (hok : step.Succeeds) (h : siteStep serde s step = some t)
    (hreturned : t.agent.isSome) {agent : Agent} (hagent : s.agent = some agent) {mac : MacAddr}
    (hobs : step.Observes mac) (hnew : agent.registry.get mac = none) :
    announcements t.store mac = 1 := by
  rcases siteStep_cases h with ⟨_, rfl, _⟩ |
    ⟨a, agent', writes, outcomes, ha, hcall, hlen, rfl⟩ | ⟨rfl, _⟩
  · exact absurd hobs not_false
  · obtain rfl := Option.some.inj (hagent.symm.trans ha)
    have hall : outcomes.length = writes.length := by
      by_contra hne
      simp [hne] at hreturned
    rcases call_effect hs hagent hcall hlen hok with
      ⟨m, d, now, hobs', _, _, hmac, _, hfirst, ⟨hcut, _⟩ | ⟨hcut, _⟩ | hstore⟩ | ⟨hold, _⟩
    · omega
    · omega
    · obtain rfl := hobs.eq hobs'
      change announcements (s.store.writeAll serde (writes.zip outcomes)) mac = 1
      rw [hstore, announcements_joined _ hmac, announcements_upsertDevice, hfirst, if_pos rfl]
    · exact absurd (hold mac hobs) (by simp [hnew])
  · exact absurd hobs not_false

private theorem announcements_mono {serde : Serde} {s t : Site} {step : SiteStep}
    (h : siteStep serde s step = some t) (mac : MacAddr) :
    announcements s.store mac ≤ announcements t.store mac := by
  rcases siteStep_cases h with ⟨_, _, _, _, rfl⟩ | ⟨_, _, writes, outcomes, _, _, _, rfl⟩ | ⟨_, rfl⟩
  · exact le_refl _
  · refine writeAll_invariant (I := fun store => announcements s.store mac ≤ announcements store mac)
      (fun now w _ hI => hI.trans ?_) outcomes (le_refl _)
    cases w with
    | upsertDevice d => exact (announcements_upsertDevice now d mac).ge
    | recordAlert a => exact (Nat.le_add_right _ _).trans (announcements_recordAlert now a mac).ge
  · exact le_refl _

/-- Nobody is known, to the store or to a running process, without having been observed. -/
def KnownObserved (history : List SiteStep) (s : Site) : Prop :=
  (∀ mac, fmtMac mac ∈ s.store.devices → ∃ step ∈ history, step.Observes mac) ∧
    ∀ agent, s.agent = some agent → ∀ mac, (agent.registry.get mac).isSome →
      ∃ step ∈ history, step.Observes mac

private theorem knownObserved_step {serde : Serde} {history : List SiteStep} {s t : Site}
    {step : SiteStep} (hs : SiteAnnounced s) (h : KnownObserved history s) (hok : step.Succeeds)
    (hstep : siteStep serde s step = some t) : KnownObserved (history ++ [step]) t := by
  have hearlier {mac : MacAddr} (hmac : ∃ step ∈ history, step.Observes mac) :
      ∃ p ∈ history ++ [step], p.Observes mac := by
    obtain ⟨p, hp, hobs⟩ := hmac
    exact ⟨p, List.mem_append_left _ hp, hobs⟩
  have hnow {mac : MacAddr} (hobs : step.Observes mac) : ∃ p ∈ history ++ [step], p.Observes mac :=
    ⟨step, by simp, hobs⟩
  rcases siteStep_cases hstep with ⟨rows, rfl, _, hrows, rfl⟩ |
    ⟨agent, agent', writes, outcomes, hagent, hcall, hlen, rfl⟩ | ⟨rfl, rfl⟩
  · refine ⟨fun mac hmac => hearlier (h.1 mac hmac), ?_⟩
    rintro _ ⟨⟩ mac hmac
    exact hearlier (h.1 mac ((isSome_started serde hs.canonical hrows mac).mp hmac))
  · constructor
    · intro mac hmem
      change fmtMac mac ∈ (s.store.writeAll serde (writes.zip outcomes)).devices at hmem
      rcases call_effect hs hagent hcall hlen hok with
        ⟨m, d, now, hobs, _, _, hd, _, _, hstore⟩ | ⟨_, hsame⟩
      · have hrow : fmtMac mac = d.mac ∨ fmtMac mac ∈ s.store.devices := by
          rcases hstore with ⟨_, hstore⟩ | ⟨_, hstore⟩ | hstore
          · exact Or.inr (hstore ▸ hmem)
          · exact (mem_upsertDevice _ d _).mp (hstore ▸ hmem)
          · exact (mem_upsertDevice _ d _).mp (hstore ▸ hmem)
        rcases hrow with heq | hrow
        · exact hnow (fmtMac_injective (heq.trans hd) ▸ hobs)
        · exact hearlier (h.1 mac hrow)
      · exact hearlier (h.1 mac ((hsame.2 _).mp hmem))
    · intro a ha mac hmac
      simp only at ha
      split_ifs at ha
      obtain rfl := Option.some.inj ha
      rcases ((call_known (hs.stack agent hagent) hcall).2 mac).mp hmac with hmac | hobs
      · exact hearlier (h.2 agent hagent mac hmac)
      · exact hnow hobs
  · exact ⟨fun mac hmac => hearlier (h.1 mac hmac), fun _ ha => absurd ha (by simp)⟩

theorem siteAnnounced_history {serde : Serde} {history : List SiteStep} {s : Site}
    (hok : ∀ step ∈ history, step.Succeeds)
    (hrun : exec (siteStep serde) Site.initial history = some s) :
    SiteAnnounced s ∧ KnownObserved history s := by
  refine exec_history (I := fun history s => (∀ step ∈ history, SiteStep.Succeeds step) →
    SiteAnnounced s ∧ KnownObserved history s) ?_ (fun _ => ⟨siteAnnounced_initial, ?_⟩) hrun hok
  · intro history s step t ih hstep hok
    obtain ⟨hs, hknown⟩ := ih fun p hp => hok p (List.mem_append_left _ hp)
    have hone : step.Succeeds := hok step (by simp)
    exact ⟨siteAnnounced_step s step t hs hone hstep, knownObserved_step hs hknown hone hstep⟩
  · exact ⟨fun _ h => absurd h Finmap.notMem_empty, fun _ h => absurd h (by simp [Site.initial])⟩

/-- Over any number of runs with crashes anywhere and no other failed write: no address gets more
than one new-device alert and the all-zero one gets none; while a process runs, between its calls,
every device it knows has a row; and an address gets exactly one alert from the first call that
observes it, unless the process dies in that call. First means the first of the history, or more
generally the first of a run that does not know the address from the store. -/
theorem new_device_alerted_once (serde : Serde) (history : List SiteStep)
    (hok : ∀ step ∈ history, step.Succeeds) (s : Site)
    (hrun : exec (siteStep serde) Site.initial history = some s) :
    (∀ mac, announcements s.store mac ≤ 1) ∧ announcements s.store zeroMac = 0 ∧
    (∀ agent, s.agent = some agent → ∀ mac, mac ∈ agent.registry.devices →
      fmtMac mac ∈ s.store.devices) ∧
    ∀ earlier step later r t agent mac, history = earlier ++ step :: later →
      exec (siteStep serde) Site.initial earlier = some r → r.agent = some agent →
      siteStep serde r step = some t → t.agent.isSome → step.Observes mac →
      ((∀ p ∈ earlier, ¬ p.Observes mac) ∨ agent.registry.get mac = none) →
      announcements s.store mac = 1 := by
  obtain ⟨hs, _⟩ := siteAnnounced_history hok hrun
  refine ⟨hs.store.once, ?_, ?_, ?_⟩
  · by_contra hne
    exact hs.store.zero (hs.store.row zeroMac hne)
  · intro agent hagent mac hmac
    exact hs.known agent hagent mac (Finmap.lookup_isSome.mpr hmac)
  · rintro earlier step later r t agent mac rfl hearlier hagent hstep hreturned hobs hfirst
    obtain ⟨hr, hknown⟩ := siteAnnounced_history (fun p hp => hok p (List.mem_append_left _ hp)) hearlier
    have hnew : agent.registry.get mac = none := by
      rcases hfirst with hfirst | hnew
      · by_contra hsome
        obtain ⟨p, hp, hobs'⟩ := hknown.2 agent hagent mac (Option.isSome_iff_ne_none.mpr hsome)
        exact hfirst p hp hobs'
      · exact hnew
    have hone := announcements_of_new hr (hok step (by simp)) hstep hreturned hagent hobs hnew
    obtain ⟨m, hm, hlater⟩ := exec_append_iff.mp hrun
    obtain ⟨n, hn, hlater⟩ := exec_cons_iff.mp hlater
    obtain rfl := Option.some.inj (hm.symm.trans hearlier)
    obtain rfl := Option.some.inj (hn.symm.trans hstep)
    have hkept := exec_invariant (I := fun u : Site => 1 ≤ announcements u.store mac)
      (fun _ _ _ hI h => hI.trans (announcements_mono h mac)) hone.ge hlater
    exact le_antisymm (hs.store.once mac) hkept

def restartHistory : List SiteStep :=
  [.start [], .event (.discovery arpEvent) 100 [] [true, true], .stop,
    .start [fmtMac arpEvent.srcMac],
    .event (.discovery arpEvent) 200 [arpEvent.srcMac] []]

theorem new_device_alerted_once_restartHistory :
    ∃ s, exec (siteStep jsonSerde) Site.initial restartHistory = some s ∧
      announcements s.store arpEvent.srcMac = 1 := by
  have hok : ∀ step ∈ restartHistory, step.Succeeds := by
    simp [restartHistory, SiteStep.Succeeds]
  refine ⟨_, rfl, (new_device_alerted_once jsonSerde restartHistory hok _ rfl).2.2.2 [.start []]
    (.event (.discovery arpEvent) 100 [] [true, true]) _ _ _ _ arpEvent.srcMac rfl rfl rfl rfl rfl
    ⟨rfl, by decide, by decide⟩ (Or.inl ?_)⟩
  simp [SiteStep.Observes]

end Lanscope
