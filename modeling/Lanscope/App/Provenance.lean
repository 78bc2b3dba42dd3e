import Lanscope.App.Discovery
import Lanscope.App.EventLog
import Lanscope.Ebpf.Delivery

/-!
# Provenance

Nothing that a record says of a device is made up. Each fact was carried by a frame that has the
device as its sender, through the ring buffer, the decoders and the registry, and over any number of
runs, failed writes and crashes. Neither the stale bytes of a ring-buffer slot nor the facts of
another device ever get into a record.
-/

namespace Lanscope

open Framework

/-! ## Frames and their records -/

/-- The record holds nothing but what stands in the frame. -/
structure Carries (ctx : List UInt8) (ev : Event) : Prop where
  mac : loadMac ctx 6 = some ev.srcMac
  ip : ev.srcIp = 0 ∨ loadU32Be ctx (ethHdrLen + 12) = some ev.srcIp
  payload : ev.validPayload <:+: ctx

section Emit

variable {env : XdpEnv} {ctx : List UInt8} (hload : LoadsInRange env ctx)
include hload

private theorem carries_emit {mac : MacAddr} (hmac : loadMac ctx 6 = some mac) {srcIp : Ipv4Be}
    (hip : srcIp = 0 ∨ loadU32Be ctx (ethHdrLen + 12) = some srcIp) (slot : Option Payload)
    (kind : EventKind) (off : Option Nat) (s : Kernel) :
    ∀ ev ∈ (emit env slot ctx kind mac srcIp off s).events, ev ∈ s.events ∨ Carries ctx ev := by
  cases slot with
  | none => exact fun ev hev => Or.inl hev
  | some stale =>
      intro ev hev
      simp only [emit] at hev
      refine (List.mem_append.mp hev).imp_right fun hnew => ?_
      obtain rfl := List.mem_singleton.mp hnew
      split
      · exact ⟨hmac, hip, by simp [Event.validPayload]⟩
      · next n bytes hcopied =>
        refine ⟨hmac, hip, ?_⟩
        obtain ⟨start, _, hcopied⟩ := Option.bind_eq_some_iff.mp hcopied
        obtain ⟨hinside, hcopied⟩ := Option.ite_none_right_eq_some.mp hcopied
        obtain ⟨b, hb, hpair⟩ := Option.bind_eq_some_iff.mp hcopied
        obtain ⟨rfl, rfl⟩ := Prod.mk.inj (Option.some.inj hpair)
        generalize hn : (if ctx.length - start > copyLen then copyLen else ctx.length - start) = n
          at hb ⊢
        have hle : n ≤ copyLen ∧ start + n ≤ ctx.length := by
          split_ifs at hn <;> omega
        have hsmall : n ≤ eventPayloadLen := hle.1.trans (by decide)
        have hword : (UInt16.ofNat n).toNat = n :=
          UInt16.toNat_ofNat_of_lt' (hsmall.trans_lt (by decide))
        have hbytes : b = (ctx.drop start).take n :=
          (Option.some.inj ((hload start n hle.2).symm.trans hb)).symm
        have hlen : b.length = n := by
          rw [hbytes, List.length_take, List.length_drop]
          omega
        have hvalid : (stale.overwrite b).bytes.take n = b := by
          rw [← hlen]
          exact Payload.take_overwrite stale (hlen ▸ hsmall)
        simp only [Event.validPayload, hword, Nat.min_eq_left hsmall, hvalid]
        rw [hbytes]
        exact (List.take_prefix _ _).isInfix.trans (List.drop_suffix _ _).isInfix

omit hload in
private theorem srcIp_loadIpv4 {ip : Ipv4Fields} (h : loadIpv4 ctx = some ip) :
    loadU32Be ctx (ethHdrLen + 12) = some ip.srcIp := by
  obtain ⟨_, _, h⟩ := Option.bind_eq_some_iff.mp h
  obtain ⟨_, h⟩ := Option.ite_none_left_eq_some.mp h
  obtain ⟨_, _, h⟩ := Option.bind_eq_some_iff.mp h
  obtain ⟨_, _, h⟩ := Option.bind_eq_some_iff.mp h
  obtain ⟨srcIp, hsrc, h⟩ := Option.bind_eq_some_iff.mp h
  obtain ⟨_, _, h⟩ := Option.bind_eq_some_iff.mp h
  obtain rfl := Option.some.inj h
  exact hsrc

/-- Whatever the slots of the ring buffer held before, a frame adds records of its own only. -/
theorem carries_tryLanscope (s : Kernel) :
    ∀ ev ∈ (tryLanscope env ctx s).1.events, ev ∈ s.events ∨ Carries ctx ev := by
  intro ev hev
  unfold tryLanscope at hev
  split at hev
  · next mac ethertype hmac _ =>
    have hann : ∀ ev ∈ (announceNewHost env ctx mac s).events, ev ∈ s.events ∨ Carries ctx ev := by
      intro ev hev
      unfold announceNewHost at hev
      dsimp only at hev
      split_ifs at hev
      · exact Or.inl hev
      · exact carries_emit hload hmac (Or.inl rfl) _ _ _
          { s with seen := s.seen.insert mac 1 } ev hev
      · exact carries_emit hload hmac (Or.inl rfl) _ _ _ s ev hev
    dsimp only at hev
    split_ifs at hev
    · exact (carries_emit hload hmac (Or.inl rfl) _ _ _ _ ev hev).elim (hann ev) Or.inr
    · unfold handleIpv4 at hev
      split at hev
      · exact hann ev hev
      · next ip hip =>
        have hsrc := srcIp_loadIpv4 hip
        dsimp only at hev
        split_ifs at hev
        · split at hev
          · exact (carries_emit hload hmac (Or.inr hsrc) _ _ _ _ ev hev).elim (hann ev) Or.inr
          · exact hann ev hev
        · exact hann ev hev
    · exact hann ev hev
  · exact Or.inl hev

end Emit

/-! ## Records with sources -/

/-- Each fact of the record was observed of the device, in observations of the given kind. -/
structure Facts (S : Observation → Prop) (mac : MacAddr) (d : Device) : Prop where
  keyed : d.mac = fmtMac mac
  vendor : d.vendor = Oui.lookup mac
  hostname : ∀ h, d.hostname = some h →
    ∃ obs, S obs ∧ obs.mac = mac ∧ obs.signal.asHostname = some h
  address : ∀ text ∈ d.ips, ∃ obs ip, S obs ∧ obs.mac = mac ∧ obs.ip = some ip ∧ text = fmtIpv4 ip
  service : ∀ s ∈ d.services, ∃ obs, S obs ∧ obs.mac = mac ∧ obs.signal.asService = some s
  dhcpFingerprint : ∀ f, d.dhcpFingerprint = some f →
    ∃ obs, S obs ∧ obs.mac = mac ∧ obs.signal.asDhcpFingerprint = some f
  dhcpVendorClass : ∀ v, d.dhcpVendorClass = some v →
    ∃ obs, S obs ∧ obs.mac = mac ∧ obs.signal.asDhcpVendorClass = some v

/-- Moreover, the device was observed at all. -/
structure Sourced (S : Observation → Prop) (mac : MacAddr) (d : Device) : Prop extends
    Facts S mac d where
  seen : ∃ obs, S obs ∧ obs.mac = mac

section Records

variable {S : Observation → Prop}

theorem facts_new (mac : MacAddr) (now : Int) : Facts S mac (Device.new mac now) := by
  constructor <;> simp [Device.new]

private theorem facts_or {mac : MacAddr} {old : Option Str} (kind : Signal → Option Str)
    (h : ∀ text, old = some text → ∃ obs, S obs ∧ obs.mac = mac ∧ kind obs.signal = some text)
    {obs : Observation} (hobs : S obs) (hmac : obs.mac = mac) :
    ∀ text, (kind obs.signal).or old = some text →
      ∃ obs, S obs ∧ obs.mac = mac ∧ kind obs.signal = some text := by
  intro text htext
  cases Option.or_eq_some_iff.mp htext with
  | inl hnew => exact ⟨obs, hobs, hmac, hnew⟩
  | inr hold => exact h text hold.2

theorem Facts.observe {d : Device} {obs : Observation} (h : Facts S obs.mac d) (hobs : S obs)
    (now : Int) : Facts S obs.mac (retype (foldObservation d obs now)) := by
  rw [foldObservation_eq]
  refine ⟨h.keyed, h.vendor, facts_or _ h.hostname hobs rfl, fun text htext => ?_, fun s hs => ?_,
    facts_or _ h.dhcpFingerprint hobs rfl, facts_or _ h.dhcpVendorClass hobs rfl⟩
  · cases hip : obs.ip with
    | none => exact h.address text (by simpa [retype, withIp, hip] using htext)
    | some ip =>
        simp only [retype, withIp, hip, List.mem_append, List.mem_singleton] at htext
        cases htext with
        | inl hold => exact h.address text (List.mem_of_mem_erase hold)
        | inr hnew => exact ⟨obs, ip, hobs, rfl, hip, hnew⟩
  · cases hservice : obs.signal.asService with
    | none => exact h.service s (by simpa [retype, withService, hservice] using hs)
    | some new =>
        simp only [retype, withService, hservice] at hs
        split_ifs at hs
        · cases List.mem_append.mp hs with
          | inl hold => exact h.service s hold
          | inr hnew => exact ⟨obs, hobs, rfl, hservice.trans (by rw [List.mem_singleton.mp hnew])⟩
        · exact h.service s hs

theorem Sourced.credit {mac : MacAddr} {d : Device} (h : Sourced S mac d) (stats : FlowStats)
    (now : Int) : Sourced S mac (creditFlow d stats now) :=
  ⟨⟨h.keyed, h.vendor, h.hostname, h.address, h.service, h.dhcpFingerprint, h.dhcpVendorClass⟩,
    h.seen⟩

private theorem sourced_observed {registry : DeviceRegistry} (h : Records (Sourced S) registry)
    {obs : Observation} (hobs : S obs) (now : Int) :
    Sourced S obs.mac (observed registry obs now) := by
  refine ⟨Facts.observe ?_ hobs now, obs, hobs, rfl⟩
  cases hget : registry.get obs.mac with
  | none => exact facts_new obs.mac now
  | some d => exact (h obs.mac d hget).toFacts

private theorem sourced_handleObservation {agent : Agent} (h : Records (Sourced S) agent.registry)
    {obs : Observation} (hobs : S obs) (now : Int) :
    Records (Sourced S) (handleObservation now agent obs).1.registry ∧
      ∀ w ∈ (handleObservation now agent obs).2, w.Upserts fun d => ∃ mac, Sourced S mac d := by
  by_cases hmac : obs.mac = zeroMac
  · rw [handleObservation_zero now agent obs hmac]
    exact ⟨h, by simp⟩
  · have hnew := sourced_observed h hobs now
    constructor
    · intro mac d hd
      rw [get_handleObservation now agent obs hmac] at hd
      split_ifs at hd with hself
      · obtain rfl := Option.some.inj hd
        exact hself ▸ hnew
      · exact h mac d hd
    · intro w hw
      refine (upserts_handleObservation now agent obs w hw).imp ?_
      rintro d ⟨_, _, rfl⟩
      exact ⟨obs.mac, hnew⟩

/-- What the observations of an event say is of the given kind. -/
def CaptureEvent.Says (S : Observation → Prop) : CaptureEvent → Prop
  | .discovery e => ∀ obs ∈ decodeEvent e, S obs
  | .flows _ => True

theorem sourced_handleEvent {agent : Agent} (h : Records (Sourced S) agent.registry)
    {ev : CaptureEvent} (hev : ev.Says S) (now : Int) (order : List MacAddr) :
    Records (Sourced S) (handleEvent now order agent ev).agent.registry ∧
      ∀ w ∈ (handleEvent now order agent ev).writes,
        w.Upserts fun d => ∃ mac, Sourced S mac d := by
  cases ev with
  | discovery e =>
      exact foldEmit_invariant (l := decodeEvent e)
        (I := fun agent : Agent => Records (Sourced S) agent.registry)
        (fun _ obs hobs hs => sourced_handleObservation hs (hev obs hobs) now) h
  | flows flows =>
      refine foldEmit_invariant (l := flows)
        (I := fun agent : Agent => Records (Sourced S) agent.registry)
        (fun a flow _ hs => ⟨fun mac d hd => ?_, upserts_handleFlow now order a flow _⟩) h
      rw [get_handleFlow] at hd
      split_ifs at hd
      · obtain ⟨old, hold, rfl⟩ := Option.map_eq_some_iff.mp hd
        exact (hs mac old hold).credit flow.2 now
      · exact hs mac d hd

end Records

/-! ## Sessions -/

/-- Every record, in memory and in the store, has its sources. -/
structure SiteSourced (serde : Serde) (S : Observation → Prop) (s : Site) : Prop extends
    SiteOk s where
  rows : ∀ mac row, s.store.devices.lookup (fmtMac mac) = some row →
    Sourced S mac (SqliteStore.deviceOfRow serde (fmtMac mac) row)
  records : ∀ agent, s.agent = some agent → Records (Sourced S) agent.registry

section Sessions

variable {serde : Serde} {S : Observation → Prop}

theorem siteSourced_initial : SiteSourced serde S Site.initial where
  toSiteOk := siteOk_initial
  rows _ _ hrow := absurd hrow (by simp [Site.initial, SqliteStore.empty])
  records _ h := absurd h (by simp [Site.initial])

private theorem sourced_call {agent agent' : Agent} {step : SiteStep} {writes : List StoreWrite}
    {outcomes : List Bool} (h : Records (Sourced S) agent.registry)
    (hstep : ∀ arrival, step.arrival = some arrival → arrival.event.Says S)
    (hcall : call agent step = some (agent', writes, outcomes)) :
    Records (Sourced S) agent'.registry ∧
      ∀ w ∈ writes, w.Upserts fun d => ∃ mac, Sourced S mac d := by
  rcases call_cases hcall with ⟨ev, now, order, rfl, _, rfl, rfl⟩ | ⟨order, _, horder, rfl, rfl⟩
  · exact sourced_handleEvent h (hstep _ rfl) now order
  · refine ⟨h, fun w hw => (upserts_flushAll horder w hw).imp ?_⟩
    rintro d ⟨mac, hd⟩
    exact ⟨mac, h mac d hd⟩

theorem siteSourced_step (hserde : serde.RoundTrip) {s t : Site} {step : SiteStep}
    (hs : SiteSourced serde S s)
    (hstep : ∀ arrival, step.arrival = some arrival → arrival.event.Says S)
    (h : siteStep serde s step = some t) : SiteSourced serde S t := by
  have hok := siteOk_step serde s step t hs.toSiteOk h
  rcases siteStep_cases h with ⟨rows, rfl, _, hrows, rfl⟩ |
    ⟨agent, agent', writes, outcomes, hagent, hcall, _, rfl⟩ | ⟨rfl, rfl⟩
  · refine ⟨hok, hs.rows, ?_⟩
    rintro _ ⟨⟩ mac d hd
    have hget := get_seedRegistry serde hs.canonical hrows mac
    obtain ⟨row, hrow, rfl⟩ := Option.map_eq_some_iff.mp (hget.symm.trans hd)
    exact hs.rows mac row hrow
  · obtain ⟨hrecords, hwrites⟩ := sourced_call (hs.records agent hagent) hstep hcall
    refine ⟨hok, ?_, fun a ha => ?_⟩
    · refine writeAll_upserts (I := fun store : SqliteStore => ∀ mac row,
        store.devices.lookup (fmtMac mac) = some row →
          Sourced S mac (SqliteStore.deviceOfRow serde (fmtMac mac) row))
        (fun store d hr hd mac row hrow => ?_) (fun _ _ hr => hr) hwrites outcomes hs.rows
      rw [SqliteStore.lookup_upsertDevice] at hrow
      split_ifs at hrow with hkey
      · obtain rfl := Option.some.inj hrow
        obtain ⟨mac', hd⟩ := hd
        obtain rfl : mac = mac' := fmtMac_injective (hkey.trans hd.keyed)
        -- the row may keep an older first sighting, which no source is asked for
        rw [hkey, SqliteStore.deviceOfRow_rowOfDevice hserde]
        exact ⟨⟨hd.keyed, hd.vendor, hd.hostname, hd.address, hd.service, hd.dhcpFingerprint,
          hd.dhcpVendorClass⟩, hd.seen⟩
      · exact hr mac row hrow
    · simp only at ha
      split_ifs at ha
      obtain rfl := Option.some.inj ha
      exact hrecords
  · exact ⟨hok, hs.rows, fun _ ha => absurd ha (by simp)⟩

theorem siteSourced_exec (hserde : serde.RoundTrip) {s t : Site} {steps : List SiteStep}
    (hs : SiteSourced serde S s)
    (hsteps : ∀ arrival ∈ steps.filterMap SiteStep.arrival, arrival.event.Says S)
    (hrun : exec (siteStep serde) s steps = some t) : SiteSourced serde S t := by
  refine exec_invariant_of_mem (fun s step hmem t hs h => ?_) hs hrun
  exact siteSourced_step hserde hs
    (fun arrival harrival => hsteps arrival (List.mem_filterMap.mpr ⟨step, hmem, harrival⟩)) h

end Sessions

/-! ## The pipeline -/

/-- The observation stands in an event that an earlier run handled. -/
def Reported (history : List SiteStep) (obs : Observation) : Prop :=
  ∃ arrival ∈ history.filterMap SiteStep.arrival, ∃ e, arrival.event = .discovery e ∧
    obs ∈ decodeEvent e

/-- The observation was decoded from a record of the ring buffer, and stands in a frame. -/
def OnTheWire (steps : List PipelineStep) (ring : List Event) (obs : Observation) : Prop :=
  ∃ ctx env, ∃ ev ∈ ring, PipelineStep.kernel (.frame ctx env) ∈ steps ∧ Carries ctx ev ∧
    obs ∈ decodeEvent ev

section Runs

variable {serde : Serde} {agent : Agent} {store : SqliteStore} {steps : List PipelineStep}
  {t : Pipeline}

/-- The events of the session are those that the loop handled. -/
theorem handled_of_exec {s u : LoopState} {steps : List LoopStep}
    (hrun : exec (loopStep serde) s steps = some u) : u.handled =
      s.handled ++ (trace (loopStep serde) siteSteps s steps).filterMap SiteStep.arrival := by
  induction steps generalizing s with
  | nil =>
      obtain rfl := Option.some.inj hrun
      exact (List.append_nil _).symm
  | cons step steps ih =>
      obtain ⟨m, hm, hrest⟩ := exec_cons_iff.mp hrun
      have hone : m.handled = s.handled ++ (siteSteps s step).filterMap SiteStep.arrival := by
        cases loopMove_of_loopStep hm with
        | recv running channel => simp [siteSteps, channel, SiteStep.arrival]
        | send | closeSender | signal | tick | recvClosed | shutdown =>
            exact (List.append_nil _).symm
      rw [ih hrest, hone, trace, hm, Option.elim_some, List.filterMap_append, List.append_assoc]

/-- Every record in the ring buffer was carried by a frame. -/
theorem carried_of_exec
    (hload : ∀ ctx env, PipelineStep.kernel (.frame ctx env) ∈ steps → LoadsInRange env ctx)
    (hrun : exec (pipelineStep serde) (Pipeline.spawned agent store) steps = some t) :
    ∀ ev ∈ t.kernel.events, ∃ ctx env, PipelineStep.kernel (.frame ctx env) ∈ steps ∧
      Carries ctx ev := by
  refine exec_invariant_of_mem (I := fun p : Pipeline => ∀ ev ∈ p.kernel.events, ∃ ctx env,
    PipelineStep.kernel (.frame ctx env) ∈ steps ∧ Carries ctx ev) (fun p step hstep q hp h => ?_)
    (by simp [Pipeline.spawned, Kernel.empty]) hrun
  cases pipelineMove_of_pipelineStep h with
  | @kernel step kernel move =>
      cases step with
      | frame ctx env =>
          obtain rfl := Option.some.inj move
          intro ev hev
          cases carries_tryLanscope (hload ctx env hstep) p.kernel ev hev with
          | inl hold => exact hp ev hold
          | inr hnew => exact ⟨ctx, env, hstep, hnew⟩
      | evict macs =>
          obtain rfl := Option.some.inj move
          exact hp
  | _ => exact hp

end Runs

/-- Over any number of runs, with failed writes and crashes anywhere: each device that is known, in
memory or in the store, was the sender of some frame, and each name, address, service and DHCP field
in its record was carried by a frame of its own. For earlier runs, the frame is known by its event
only. -/
theorem facts_have_sources (serde : Serde) (hserde : serde.RoundTrip) (history : List SiteStep)
    (agent : Agent) (store : SqliteStore)
    (hsite : exec (siteStep serde) Site.initial history = some ⟨store, some agent⟩)
    (steps : List PipelineStep)
    (hload : ∀ ctx env, PipelineStep.kernel (.frame ctx env) ∈ steps → LoadsInRange env ctx)
    (t : Pipeline)
    (hrun : exec (pipelineStep serde) (Pipeline.spawned agent store) steps = some t) :
    Records (Sourced fun obs => Reported history obs ∨ OnTheWire steps t.kernel.events obs)
        t.loop.agent.registry ∧
      ∀ mac row, t.loop.store.devices.lookup (fmtMac mac) = some row →
        Sourced (fun obs => Reported history obs ∨ OnTheWire steps t.kernel.events obs) mac
          (SqliteStore.deviceOfRow serde (fmtMac mac) row) := by
  have hbefore : SiteSourced serde
      (fun obs => Reported history obs ∨ OnTheWire steps t.kernel.events obs)
      ⟨store, some agent⟩ := by
    refine siteSourced_exec hserde siteSourced_initial (fun arrival harrival => ?_) hsite
    cases hev : arrival.event with
    | discovery e => exact fun obs hobs => Or.inl ⟨arrival, harrival, e, hev, hobs⟩
    | flows flows => trivial
  have hloop := exec_loop hrun
  have hhandled := handled_of_exec hloop
  have hafter := siteSourced_exec hserde hbefore (fun arrival harrival => ?_) (exec_site hloop)
  · exact ⟨hafter.records _ rfl, hafter.rows⟩
  · cases hev : arrival.event with
    | flows flows => trivial
    | discovery e =>
        have hmem : arrival ∈ t.loop.handled := hhandled ▸ List.mem_append_right _ harrival
        have hring : e ∈ t.kernel.events := by
          rw [events_split hrun]
          refine List.mem_append_left _ (List.mem_filterMap.mpr ⟨.discovery e, ?_, rfl⟩)
          exact List.mem_map.mpr ⟨arrival, hmem, hev⟩
        obtain ⟨ctx, env, hframe, hcarries⟩ := carried_of_exec hload hrun e hring
        exact fun obs hobs => Or.inr ⟨ctx, env, e, hring, hframe, hcarries, hobs⟩

def sender : MacAddr := MacAddr.ofBytes 0xb8 0x27 0xeb 0x01 0x02 0x03

/-- The first frame of a host is handled. -/
def sightedRun : List PipelineStep :=
  [.kernel (.frame pingFrame readyKernel), .readable, .takeRecord, .sendRecord,
    .loop (.recv 100 [] [true, true])]

theorem facts_have_sources_sightedRun :
    ∃ t d, exec (pipelineStep jsonSerde) (Pipeline.spawned Agent.initial SqliteStore.empty)
        sightedRun = some t ∧ t.loop.agent.registry.get sender = some d ∧
      Sourced (fun obs => Reported [.start []] obs ∨ OnTheWire sightedRun t.kernel.events obs)
        sender d := by
  obtain ⟨t, hrun, hknown⟩ : ∃ t, exec (pipelineStep jsonSerde)
      (Pipeline.spawned Agent.initial SqliteStore.empty) sightedRun = some t ∧
        (t.loop.agent.registry.get sender).isSome := ⟨_, rfl, rfl⟩
  obtain ⟨d, hd⟩ := Option.isSome_iff_exists.mp hknown
  have hload : ∀ ctx env, PipelineStep.kernel (.frame ctx env) ∈ sightedRun →
      LoadsInRange env ctx := by
    intro ctx env hmem
    simp only [sightedRun, List.mem_cons, PipelineStep.kernel.injEq, KernelStep.frame.injEq,
      reduceCtorEq, List.not_mem_nil, or_false] at hmem
    obtain ⟨rfl, rfl⟩ := hmem
    exact loadsInRange_readyKernel pingFrame
  exact ⟨t, d, hrun, hd, (facts_have_sources jsonSerde roundTrip_jsonSerde [.start []] Agent.initial
    SqliteStore.empty rfl sightedRun hload t hrun).1 sender d hd⟩

end Lanscope
