import Lanscope.App.Redelivery
import Lanscope.Decode.Contents

/-!
# Whom a message describes

A decoded field goes to the device that sent the frame, also where the message is about another
host. No decoder looks at the role of a message.
-/

namespace Lanscope

open Framework

/-- What a record says about what a device is. -/
structure Identity where
  hostname : Option Str
  services : List Str
  dhcpFingerprint : Option Str
  dhcpVendorClass : Option Str
  deriving DecidableEq

def Device.identity (d : Device) : Identity :=
  ⟨d.hostname, d.services, d.dhcpFingerprint, d.dhcpVendorClass⟩

/-- An unknown device has none of the fields. -/
def identity (registry : DeviceRegistry) (mac : MacAddr) : Identity :=
  ((registry.get mac).map Device.identity).getD ⟨none, [], none, none⟩

/-- The message does not describe its sender: a DHCP reply, an SSDP search, or an mDNS query without
answers. -/
def DescribesAnother (e : Event) : Prop :=
  match e.eventKind with
  | .dhcp => e.validPayload.head? = some 2
  | .ssdp => ("M-SEARCH".toList.map fun c => UInt8.ofNat c.toNat) <+: e.validPayload
  | .mdns => 12 ≤ e.validPayload.length ∧ e.validPayload.getD 2 0 &&& 0x80 = 0 ∧
      e.validPayload.getD 6 0 = 0 ∧ e.validPayload.getD 7 0 = 0
  | .newHost | .arp | .tlsHello | .unknown => False

/-- The fields repeat what is recorded, or are services that the full list has no room for. -/
structure Repeats (i : Identity) (signals : List Signal) : Prop where
  hostname : ∀ h, lastField Signal.asHostname signals = some h → i.hostname = some h
  services : ∀ s ∈ signals.filterMap Signal.asService,
    s ∈ i.services ∨ maxServices ≤ i.services.length
  dhcpFingerprint : ∀ f, lastField Signal.asDhcpFingerprint signals = some f →
    i.dhcpFingerprint = some f
  dhcpVendorClass : ∀ v, lastField Signal.asDhcpVendorClass signals = some v →
    i.dhcpVendorClass = some v

/-! ## What signals do to the fields -/

def Identity.learn (i : Identity) (signal : Signal) : Identity where
  hostname := signal.asHostname.or i.hostname
  services := withService i.services signal.asService
  dhcpFingerprint := signal.asDhcpFingerprint.or i.dhcpFingerprint
  dhcpVendorClass := signal.asDhcpVendorClass.or i.dhcpVendorClass

private theorem foldl_field (kind : Signal → Option Str) (signals : List Signal) (a : Option Str) :
    signals.foldl (fun a signal => (kind signal).or a) a = (lastField kind signals).or a := by
  have hlast : signals.foldl (fun a signal => (kind signal).or a) none = lastField kind signals := by
    induction signals using List.reverseRecOn with
    | nil => rfl
    | append_singleton signals signal ih =>
        rw [List.foldl_concat, ih, lastField_append]
        cases h : kind signal <;> simp [lastField, h]
  rw [foldl_or, hlast]

private theorem or_eq_self_iff (new old : Option Str) :
    new.or old = old ↔ ∀ v, new = some v → old = some v := by
  cases new <;> simp [eq_comm]

private theorem withService_eq_self_iff (services : List Str) (s : Str) :
    withService services (some s) = services ↔ s ∈ services ∨ maxServices ≤ services.length := by
  simp only [withService]
  split_ifs with h
  · constructor
    · intro hself
      exact absurd hself (by simp)
    · rintro (hmem | hfull)
      · exact absurd hmem h.1
      · exact absurd h.2 (by omega)
  · have hor : s ∈ services ∨ maxServices ≤ services.length := by
      by_contra hnot
      rw [not_or, not_le] at hnot
      exact h hnot
    exact iff_of_true rfl hor

private theorem foldl_withService_grows (signals : List Signal) (services : List Str) :
    services <+: signals.foldl (fun l signal => withService l signal.asService) services := by
  induction signals generalizing services with
  | nil => exact List.prefix_refl _
  | cons signal signals ih => exact (prefix_withService services _).trans (ih _)

private theorem foldl_withService_eq_self_iff (signals : List Signal) (services : List Str) :
    signals.foldl (fun l signal => withService l signal.asService) services = services ↔
      ∀ s ∈ signals.filterMap Signal.asService, s ∈ services ∨ maxServices ≤ services.length := by
  induction signals with
  | nil => simp
  | cons signal signals ih =>
      rw [List.foldl_cons]
      cases hs : signal.asService with
      | none =>
          rw [List.filterMap_cons_none hs]
          exact ih
      | some s =>
          rw [List.filterMap_cons_some hs, List.forall_mem_cons, ← withService_eq_self_iff, ← ih]
          constructor
          · intro hself
            -- the list only grows, so it has not grown at the first service either
            have hfirst := foldl_withService_grows signals (withService services (some s))
            rw [hself] at hfirst
            have hsame := hfirst.eq_of_length_le (prefix_withService services (some s)).length_le
            rw [hsame] at hself
            exact ⟨hsame, hself⟩
          · rintro ⟨hsame, hrest⟩
            rw [hsame]
            exact hrest

private theorem foldl_learn (signals : List Signal) (i : Identity) :
    signals.foldl Identity.learn i = ⟨(lastField Signal.asHostname signals).or i.hostname,
      signals.foldl (fun l signal => withService l signal.asService) i.services,
      (lastField Signal.asDhcpFingerprint signals).or i.dhcpFingerprint,
      (lastField Signal.asDhcpVendorClass signals).or i.dhcpVendorClass⟩ := by
  rw [← foldl_field, ← foldl_field, ← foldl_field]
  induction signals generalizing i with
  | nil => rfl
  | cons signal signals ih => exact ih _

theorem foldl_learn_eq_self_iff (signals : List Signal) (i : Identity) :
    signals.foldl Identity.learn i = i ↔ Repeats i signals := by
  rw [foldl_learn]
  constructor
  · intro h
    have hhost := congrArg Identity.hostname h
    have hserv := congrArg Identity.services h
    have hfp := congrArg Identity.dhcpFingerprint h
    have hvc := congrArg Identity.dhcpVendorClass h
    exact ⟨(or_eq_self_iff _ _).mp hhost, (foldl_withService_eq_self_iff _ _).mp hserv,
      (or_eq_self_iff _ _).mp hfp, (or_eq_self_iff _ _).mp hvc⟩
  · intro h
    rw [(or_eq_self_iff _ _).mpr h.hostname, (foldl_withService_eq_self_iff _ _).mpr h.services,
      (or_eq_self_iff _ _).mpr h.dhcpFingerprint, (or_eq_self_iff _ _).mpr h.dhcpVendorClass]

/-! ## Whole events -/

private theorem identity_handleObservation (now : Int) (agent : Agent) (obs : Observation)
    (hmac : obs.mac ≠ zeroMac) :
    identity (handleObservation now agent obs).1.registry obs.mac =
      (identity agent.registry obs.mac).learn obs.signal := by
  rw [identity, get_handleObservation now agent obs hmac, if_pos rfl]
  simp only [Option.map_some, Option.getD_some, observed, retype, foldObservation_eq, identity]
  cases agent.registry.get obs.mac <;> rfl

private theorem identity_observations (now : Int) (mac : MacAddr) (ip : Option Ipv4Be)
    (hmac : mac ≠ zeroMac) (signals : List Signal) (agent : Agent) :
    identity (foldEmit (handleObservation now) agent
        (signals.map fun signal => ⟨mac, ip, signal⟩)).1.registry mac =
      signals.foldl Identity.learn (identity agent.registry mac) := by
  induction signals generalizing agent with
  | nil => rfl
  | cons signal signals ih =>
      rw [List.map_cons, foldEmit_cons, List.foldl_cons, ih,
        identity_handleObservation now agent ⟨mac, ip, signal⟩ hmac]

private theorem registry_zero (now : Int) (ip : Option Ipv4Be) (signals : List Signal)
    (agent : Agent) :
    (foldEmit (handleObservation now) agent
      (signals.map fun signal => ⟨zeroMac, ip, signal⟩)).1 = agent := by
  induction signals generalizing agent with
  | nil => rfl
  | cons signal signals ih =>
      rw [List.map_cons, foldEmit_cons, handleObservation_zero now agent _ rfl]
      exact ih agent

private theorem get_other (now : Int) (agent : Agent) (e : Event) {mac : MacAddr}
    (hmac : mac ≠ e.srcMac) :
    (foldEmit (handleObservation now) agent (decodeEvent e)).1.registry.get mac =
      agent.registry.get mac := by
  refine (foldEmit_invariant (l := decodeEvent e) (P := fun _ => True)
    (I := fun a : Agent => a.registry.get mac = agent.registry.get mac)
    (fun a obs hobs ha => ⟨?_, fun _ _ => trivial⟩) rfl).1
  have hsrc := (mem_decodeEvent hobs).1
  by_cases hzero : obs.mac = zeroMac
  · rw [handleObservation_zero now a obs hzero]
    exact ha
  · rw [get_handleObservation now a obs hzero, if_neg (hsrc ▸ hmac)]
    exact ha

private theorem identity_discovery_eq_iff (now : Int) (order : List MacAddr) (agent : Agent)
    (e : Event) : identity (handleEvent now order agent (.discovery e)).agent.registry e.srcMac =
        identity agent.registry e.srcMac ↔
      e.srcMac = zeroMac ∨ Repeats (identity agent.registry e.srcMac) (eventSignals e) := by
  have hagent : (handleEvent now order agent (.discovery e)).agent =
      (foldEmit (handleObservation now) agent
        ((eventSignals e).map fun signal => ⟨e.srcMac, eventIp e, signal⟩)).1 := rfl
  rw [hagent]
  by_cases hzero : e.srcMac = zeroMac
  · rw [hzero, registry_zero]
    exact iff_of_true rfl (Or.inl rfl)
  · rw [identity_observations now e.srcMac (eventIp e) hzero, foldl_learn_eq_self_iff]
    exact ⟨Or.inr, fun h => h.resolve_left hzero⟩

/-- A discovery event, whomever its message describes, changes the record of the frame's source
address alone, and leaves the fields of that record as they are exactly when the address is the
zero address or the decoded fields repeat what is recorded. -/
theorem discovery_changes_source (now : Int) (order : List MacAddr) (agent : Agent) (e : Event) :
    (∀ mac, mac ≠ e.srcMac →
      (handleEvent now order agent (.discovery e)).agent.registry.get mac =
        agent.registry.get mac) ∧
    (identity (handleEvent now order agent (.discovery e)).agent.registry e.srcMac =
        identity agent.registry e.srcMac ↔
      e.srcMac = zeroMac ∨ Repeats (identity agent.registry e.srcMac) (eventSignals e)) :=
  ⟨fun _ hmac => get_other now agent e hmac, identity_discovery_eq_iff now order agent e⟩

/-! ## Messages about others -/

/-- The last usable options of a DHCP message repeat the recorded fields. -/
structure OptionsRepeat (i : Identity) (payload : List UInt8) : Prop where
  hostname : ∀ data, Dhcp.LastOption payload Dhcp.optHostname data →
    i.hostname = Dhcp.optionText Dhcp.optHostname data
  dhcpFingerprint : ∀ data, Dhcp.LastOption payload Dhcp.optParamRequestList data →
    i.dhcpFingerprint = Dhcp.optionText Dhcp.optParamRequestList data
  dhcpVendorClass : ∀ data, Dhcp.LastOption payload Dhcp.optVendorClass data →
    i.dhcpVendorClass = Dhcp.optionText Dhcp.optVendorClass data

/-- The header lines below the first line report services that are listed, or the list is full. -/
def HeadersRepeat (i : Identity) (payload : List UInt8) : Prop :=
  ∀ line ∈ (Utf8.fromUtf8Lossy payload).lines.tail, ∀ service, Ssdp.Reports line service →
    service ∈ i.services ∨ maxServices ≤ i.services.length

/-- The services that a DNS message names are listed, or the list is full, and of the hosts that it
names the last one has the recorded name. -/
structure NamesRepeat (i : Identity) (payload : List UInt8) : Prop where
  services : ∀ name pos stop, Dns.SpelledAt payload pos stop name → Dns.isInteresting name →
    Mdns.isService name → name ∈ i.services ∨ maxServices ≤ i.services.length
  hostname : ∀ host, Mdns.LastHost payload host → i.hostname = some host

/-- The message says nothing that is not recorded of its sender. -/
def MessageRepeats (i : Identity) (e : Event) : Prop :=
  match e.eventKind with
  | .dhcp => OptionsRepeat i e.validPayload
  | .ssdp => HeadersRepeat i e.validPayload
  | .mdns => NamesRepeat i e.validPayload
  | .newHost | .arp | .tlsHello | .unknown => True

section Messages

variable {i : Identity} {payload : List UInt8}

private theorem repeats_dhcp : Repeats i (Dhcp.decode payload) ↔ OptionsRepeat i payload := by
  have hnonempty {code : UInt8} {data : List UInt8} (h : Dhcp.LastOption payload code data) :
      ∃ text, Dhcp.optionText code data = some text := by
    obtain ⟨_, _, _, _, _, husable, _⟩ := h
    obtain ⟨text, htext, _⟩ := Dhcp.usable_iff.mp husable
    exact ⟨text, htext⟩
  constructor
  · intro h
    refine ⟨fun data hlast => ?_, fun data hlast => ?_, fun data hlast => ?_⟩
    all_goals obtain ⟨text, htext⟩ := hnonempty hlast
    all_goals rw [htext]
    · exact h.hostname text (Dhcp.lastHostname_iff.mpr ⟨data, hlast, htext⟩)
    · exact h.dhcpFingerprint text (Dhcp.lastFingerprint_iff.mpr ⟨data, hlast, htext⟩)
    · exact h.dhcpVendorClass text (Dhcp.lastVendorClass_iff.mpr ⟨data, hlast, htext⟩)
  · intro h
    refine ⟨fun v hv => ?_, ?_, fun v hv => ?_, fun v hv => ?_⟩
    · obtain ⟨data, hlast, htext⟩ := Dhcp.lastHostname_iff.mp hv
      exact (h.hostname data hlast).trans htext
    · rw [Dhcp.services_decode]
      simp
    · obtain ⟨data, hlast, htext⟩ := Dhcp.lastFingerprint_iff.mp hv
      exact (h.dhcpFingerprint data hlast).trans htext
    · obtain ⟨data, hlast, htext⟩ := Dhcp.lastVendorClass_iff.mp hv
      exact (h.dhcpVendorClass data hlast).trans htext

private theorem repeats_search
    (h : ("M-SEARCH".toList.map fun c => UInt8.ofNat c.toNat) <+: payload) :
    Repeats i (Ssdp.decode payload) ↔ HeadersRepeat i payload := by
  rw [Ssdp.decode_search h]
  have hnone {kind : Signal → Option Str} (hservice : ∀ s, kind (.service s) = none) (v : Str) :
      lastField kind ((Utf8.fromUtf8Lossy payload).lines.tail.flatMap Ssdp.lineSignal) ≠ some v := by
    rw [Ssdp.otherFields_lines hservice]
    exact (Option.some_ne_none v).symm
  constructor
  · intro h line hline service hreports
    exact h.services service (Ssdp.mem_services_lines.mpr ⟨line, hline, hreports⟩)
  · intro h
    refine ⟨fun v hv => absurd hv (hnone (fun _ => rfl) v), fun service hservice => ?_,
      fun v hv => absurd hv (hnone (fun _ => rfl) v), fun v hv => absurd hv (hnone (fun _ => rfl) v)⟩
    obtain ⟨line, hline, hreports⟩ := Ssdp.mem_services_lines.mp hservice
    exact h line hline service hreports

private theorem repeats_mdns : Repeats i (Mdns.decode payload) ↔ NamesRepeat i payload := by
  have hnone {kind : Signal → Option Str} (hhost : ∀ h, kind (.hostname h) = none)
      (hservice : ∀ s, kind (.service s) = none) (v : Str) :
      lastField kind (Mdns.decode payload) ≠ some v := by
    rw [Mdns.dhcpFields_decode hhost hservice]
    exact (Option.some_ne_none v).symm
  constructor
  · intro h
    refine ⟨fun name pos stop hspelled hint hservice => ?_, fun host hlast => ?_⟩
    · exact h.services name (Mdns.mem_services_decode.mpr ⟨hservice, hint, pos, stop, hspelled⟩)
    · exact h.hostname host (Mdns.lastHost_iff.mpr hlast)
  · intro h
    refine ⟨fun v hv => h.hostname v (Mdns.lastHost_iff.mp hv), fun service hservice => ?_,
      fun v hv => absurd hv (hnone (fun _ => rfl) (fun _ => rfl) v),
      fun v hv => absurd hv (hnone (fun _ => rfl) (fun _ => rfl) v)⟩
    obtain ⟨hs, hint, pos, stop, hspelled⟩ := Mdns.mem_services_decode.mp hservice
    exact h.services service pos stop hspelled hint hs

end Messages

/-- A message about another host leaves the fields of its sender as they are exactly when the sender
has no address, or the message repeats what is recorded of the sender: a DHCP reply in its last usable
options, a search in the headers below its request line, a query in the services and the last host
that it asks for. -/
theorem message_about_another_iff (now : Int) (order : List MacAddr) (agent : Agent) (e : Event)
    (hanother : DescribesAnother e) :
    identity (handleEvent now order agent (.discovery e)).agent.registry e.srcMac =
        identity agent.registry e.srcMac ↔
      e.srcMac = zeroMac ∨ MessageRepeats (identity agent.registry e.srcMac) e := by
  rw [identity_discovery_eq_iff]
  refine or_congr_right ?_
  unfold DescribesAnother at hanother
  unfold MessageRepeats eventSignals
  cases hkind : e.eventKind with
  | dhcp => exact repeats_dhcp
  | ssdp =>
      rw [hkind] at hanother
      exact repeats_search hanother
  | mdns => exact repeats_mdns
  | newHost | arp | tlsHello | unknown =>
      rw [hkind] at hanother
      exact hanother.elim

/-- A search for everything. -/
def searchAll : List UInt8 :=
  "M-SEARCH * HTTP/1.1\r\nST: ssdp:all\r\n\r\n".toList.map fun c => UInt8.ofNat c.toNat

/-- A device that has searched for everything before. -/
def searcher : Agent where
  registry := DeviceRegistry.empty.load (MacAddr.ofBytes 0xb8 0x27 0xeb 0x01 0x02 0x03)
    { Device.new (MacAddr.ofBytes 0xb8 0x27 0xeb 0x01 0x02 0x03) 50 with
      services := ["ssdp:all".toList] }
  anomaly := Engine.defaultStack

theorem message_about_another_searchAll :
    let e := Event.holding .ssdp (MacAddr.ofBytes 0xb8 0x27 0xeb 0x01 0x02 0x03) 0xC0A80132 searchAll
    identity (handleEvent 100 [] searcher (.discovery e)).agent.registry e.srcMac =
      identity searcher.registry e.srcMac := by
  intro e
  have hpayload : e.validPayload = searchAll := Event.validPayload_holding _ _ _ (by decide +kernel)
  have hkind : e.eventKind = .ssdp := rfl
  have hanother : DescribesAnother e := by
    simp only [DescribesAnother, hkind, hpayload]
    decide +kernel
  refine (message_about_another_iff 100 [] searcher e hanother).mpr (Or.inr ?_)
  simp only [MessageRepeats, hkind, hpayload]
  have hascii : searchAll.all (· < 0x80) := by decide +kernel
  have hlines : (Utf8.fromUtf8Lossy searchAll).lines.tail = ["ST: ssdp:all".toList, []] := by
    rw [Utf8.fromUtf8Lossy_ascii fun b hb => of_decide_eq_true (List.all_eq_true.mp hascii b hb)]
    decide +kernel
  intro line hline service hreports
  have hsignal := (Ssdp.mem_lineSignal_iff line (.service service)).mpr ⟨service, rfl, hreports⟩
  rw [hlines] at hline
  have hmem : Signal.service service ∈ ["ST: ssdp:all".toList, []].flatMap Ssdp.lineSignal :=
    List.mem_flatMap.mpr ⟨line, hline, hsignal⟩
  have hlisted : ["ST: ssdp:all".toList, []].flatMap Ssdp.lineSignal =
      [.service "ssdp:all".toList] := by decide +kernel
  rw [hlisted, List.mem_singleton] at hmem
  obtain rfl := Signal.service.inj hmem
  exact Or.inl (by decide +kernel)

/-! ## A DHCP server -/

/-- A DHCP acknowledgement: the reply opcode, the rest of the fixed header, and options that repeat
the client's hostname. -/
def dhcpAck : List UInt8 :=
  2 :: List.replicate 235 0 ++ Dhcp.magicCookie ++ [53, 1, 5, 12, 1, 97, 255]

private theorem decode_dhcpAck : Dhcp.decode dhcpAck = [.hostname "a".toList] := by
  have hfind : Dhcp.findOptions dhcpAck = some 240 := by decide +kernel
  have hrest : dhcpAck.drop 240 = [53, 1, 5, 12, 1, 97, 255] := by decide +kernel
  have hname : Utf8.fromUtf8 [97] = some "a".toList := Utf8.fromUtf8_ascii (by simp)
  have hack : Dhcp.walk (53 :: 1 :: ([5] ++ [12, 1, 97, 255])) =
      Dhcp.optionSignal 53 [5] ++ Dhcp.walk [12, 1, 97, 255] :=
    Dhcp.walk_option (by decide) (by decide) rfl _
  have hhost : Dhcp.walk (12 :: 1 :: ([97] ++ [255])) = Dhcp.optionSignal 12 [97] ++ Dhcp.walk [255] :=
    Dhcp.walk_option (by decide) (by decide) rfl _
  rw [Dhcp.decode, hfind]
  simp only [hrest]
  calc Dhcp.walk [53, 1, 5, 12, 1, 97, 255]
      = Dhcp.optionSignal 53 [5] ++ (Dhcp.optionSignal 12 [97] ++ Dhcp.walk [255]) := by
        rw [← hhost]
        exact hack
    _ = Dhcp.optionSignal 12 [97] := by
        rw [show Dhcp.walk [255] = [] from Dhcp.walk_end [], List.append_nil]
        rfl
    _ = [.hostname "a".toList] := by
        rw [Dhcp.optionSignal, if_pos (show (12 : UInt8) = Dhcp.optHostname from rfl), hname]
        rfl

/-- The server that acknowledges the lease of a client called `a` is called `a` itself. -/
theorem reply_renames_server :
    ¬ ∀ (now : Int) (order : List MacAddr) (agent : Agent) (e : Event), DescribesAnother e →
      identity (handleEvent now order agent (.discovery e)).agent.registry e.srcMac =
        identity agent.registry e.srcMac := by
  intro h
  let server : MacAddr := MacAddr.ofBytes 0x50 0xc7 0xbf 0x01 0x02 0x03
  let e := Event.holding .dhcp server 0xC0A80001 dhcpAck
  have hpayload : e.validPayload = dhcpAck := Event.validPayload_holding _ _ _ (by decide +kernel)
  have hkind : e.eventKind = .dhcp := rfl
  have hreply : DescribesAnother e := by
    simp only [DescribesAnother, hkind, hpayload]
    rfl
  have hsame := h 100 [] ⟨DeviceRegistry.empty, Engine.defaultStack⟩ e hreply
  rw [identity_discovery_eq_iff] at hsame
  rcases hsame with hzero | hrepeats
  · exact absurd hzero (by decide)
  · have hname := hrepeats.hostname "a".toList (by
      rw [eventSignals, hkind]
      simp only [hpayload, decode_dhcpAck]
      rfl)
    exact absurd hname (by decide)

end Lanscope
