import Lanscope.App.Records

/-!
# Presence

Whether a frame leaves a trace of its sender is up to its decoder: a device is touched once per
observation, and a decoder that finds nothing returns none.
-/

namespace Lanscope

open Framework

/-- The registry holds the device as seen just now, at the address where the frame carries one. -/
def Present (registry : DeviceRegistry) (mac : MacAddr) (now : Int) (srcIp : Ipv4Be) : Prop :=
  ∃ d, registry.get mac = some d ∧ d.lastSeen = now ∧
    (srcIp ≠ 0 → d.ips.getLast? = some (fmtIpv4 srcIp))

private theorem present_handleObservation (now : Int) (agent : Agent) {obs : Observation} {e : Event}
    (hobs : obs ∈ decodeEvent e) (hmac : e.srcMac ≠ zeroMac) :
    Present (handleObservation now agent obs).1.registry e.srcMac now e.srcIp := by
  obtain ⟨hobsmac, hip⟩ := mem_decodeEvent hobs
  have hne : obs.mac ≠ zeroMac := fun h => hmac (hobsmac.symm.trans h)
  refine ⟨observed agent.registry obs now, ?_, ?_, fun hsrc => ?_⟩
  · rw [get_handleObservation now agent obs hne, if_pos hobsmac.symm]
  · simp only [observed, retype, foldObservation_eq]
  · have hsome : obs.ip = some e.srcIp := hip.trans (if_pos hsrc)
    simp only [observed, retype, foldObservation_eq, hsome, withIp, List.getLast?_concat]

/-- After a discovery frame, its sender is recorded as present exactly when the frame is of a kind
without a decoder, its decoder finds a usable field, or the sender was so recorded before. -/
theorem present_iff_recognised (now : Int) (order : List MacAddr) (agent : Agent) (e : Event)
    (hmac : e.srcMac ≠ zeroMac) :
    Present (handleEvent now order agent (.discovery e)).agent.registry e.srcMac now e.srcIp ↔
      Recognised e ∨ Present agent.registry e.srcMac now e.srcIp := by
  rw [← decodeEvent_ne_nil_iff]
  change Present (foldEmit (handleObservation now) agent (decodeEvent e)).1.registry _ _ _ ↔ _
  cases hdecode : decodeEvent e with
  | nil => simp
  | cons obs rest =>
      have hmem : ∀ o ∈ obs :: rest, o ∈ decodeEvent e := fun o ho => hdecode ▸ ho
      have hfirst := present_handleObservation now agent (hmem obs List.mem_cons_self) hmac
      have hrest := foldEmit_invariant (f := handleObservation now) (l := rest)
        (I := fun a : Agent => Present a.registry e.srcMac now e.srcIp) (P := fun _ => True)
        (fun a o ho _ => ⟨present_handleObservation now a (hmem o (List.mem_cons_of_mem _ ho)) hmac,
          fun _ _ => trivial⟩) hfirst
      exact ⟨fun _ => Or.inl (List.cons_ne_nil _ _), fun _ => hrest.1⟩

theorem present_iff_recognised_arp :
    Present (handleEvent 100 [] ⟨DeviceRegistry.empty, Engine.defaultStack⟩ (.discovery
      (Event.holding .arp (MacAddr.ofBytes 0xb8 0x27 0xeb 0x01 0x02 0x03) 0x0A000042 []))).agent.registry
      (MacAddr.ofBytes 0xb8 0x27 0xeb 0x01 0x02 0x03) 100 0x0A000042 :=
  (present_iff_recognised 100 [] ⟨DeviceRegistry.empty, Engine.defaultStack⟩
    (Event.holding .arp (MacAddr.ofBytes 0xb8 0x27 0xeb 0x01 0x02 0x03) 0x0A000042 [])
    (by decide)).mpr (Or.inl trivial)

/-- A DHCP frame without a magic cookie leaves no trace of its sender. -/
theorem absent_after_dhcp_without_cookie :
    ¬ ∀ (now : Int) (order : List MacAddr) (agent : Agent) (e : Event), e.srcMac ≠ zeroMac →
      Present (handleEvent now order agent (.discovery e)).agent.registry e.srcMac now e.srcIp := by
  intro h
  obtain ⟨d, hd, _⟩ := h 100 [] ⟨DeviceRegistry.empty, Engine.defaultStack⟩
    (Event.holding .dhcp (MacAddr.ofBytes 0xb8 0x27 0xeb 0x01 0x02 0x03) 0x0A000042 [1, 1, 6, 0]) (by decide)
  have hnone : decodeEvent (Event.holding .dhcp (MacAddr.ofBytes 0xb8 0x27 0xeb 0x01 0x02 0x03) 0x0A000042
      [1, 1, 6, 0]) = [] := by decide
  simp [handleEvent, hnone, DeviceRegistry.get, DeviceRegistry.empty] at hd

end Lanscope
