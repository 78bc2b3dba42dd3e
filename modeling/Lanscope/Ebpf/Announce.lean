import Lanscope.Ebpf.Program
import Lanscope.Framework.Run

/-!
# Host announcements

`SEEN` is meant to hold the hosts already announced. A frame from a new host marks it and then
reserves a ring-buffer slot, and either can fail on its own. The runs below interleave frames with
evictions from `SEEN`, and the result says exactly which frames break the link.
-/

namespace Lanscope

open Framework

/-- One frame through the XDP program, or an eviction from the bounded `SEEN` table. -/
inductive KernelStep
  | frame (ctx : List UInt8) (env : XdpEnv)
  | evict (macs : List MacAddr)

def kernelStep (s : Kernel) : KernelStep → Option Kernel
  | .frame ctx env => some (lanscope env ctx s).1
  | .evict macs => some { s with seen := macs.foldl (fun seen mac => seen.erase mac) s.seen }

def Announced (s : Kernel) (mac : MacAddr) : Prop :=
  ∃ ev ∈ s.events, ev.kind = EventKind.newHost.toU8 ∧ ev.srcMac = mac

def SeenAnnounced (s : Kernel) : Prop := ∀ mac ∈ s.seen, Announced s mac

/-- A frame that would mark a host never announced before finds a slot for its announcement. -/
def AnnouncementFits (s : Kernel) : KernelStep → Prop
  | .frame ctx env => ∀ mac, loadMac ctx 6 = some mac → (loadU16Be ctx 12).isSome →
      mac ∉ s.seen → ¬ Announced s mac → env.seenInsert = true → env.announceSlot.isSome
  | .evict _ => True

theorem Announced.mono {s t : Kernel} {mac : MacAddr} (h : Announced s mac)
    (hp : s.events <+: t.events) : Announced t mac := by
  obtain ⟨ev, hev, hk⟩ := h
  exact ⟨ev, hp.subset hev, hk⟩

private theorem announced_emit_iff (env : XdpEnv) (slot : Option Payload) (ctx : List UInt8)
    {kind : EventKind} (mac : MacAddr) (srcIp : Ipv4Be) (off : Option Nat) (s : Kernel)
    (hkind : kind ≠ .newHost) (m : MacAddr) :
    Announced (emit env slot ctx kind mac srcIp off s) m ↔ Announced s m := by
  refine ⟨?_, fun h => h.mono (emit_events_grow _ _ _ _ _ _ _ _)⟩
  cases slot with
  | none => exact id
  | some stale =>
      obtain ⟨ev, hev, hk, _⟩ := emit_some env stale ctx kind mac srcIp off s
      rintro ⟨e, he, hekind, hemac⟩
      rw [hev, List.mem_append, List.mem_singleton] at he
      rcases he with he | rfl
      · exact ⟨e, he, hekind, hemac⟩
      · have hsame := congrArg EventKind.fromU8 (hk.symm.trans hekind)
        exact absurd (by simpa using hsame) hkind

private theorem udpDiscoveryKind_ne_newHost {src dst : UInt16} {kind : EventKind}
    (h : udpDiscoveryKind src dst = some kind) : kind ≠ .newHost := by
  rintro rfl
  unfold udpDiscoveryKind at h
  dsimp only at h
  split_ifs at h <;> simp at h

private theorem announced_handleIpv4_iff (env : XdpEnv) (ctx : List UInt8) (mac m : MacAddr)
    (s : Kernel) : Announced (handleIpv4 env ctx mac s).1 m ↔ Announced s m := by
  unfold handleIpv4
  split
  · rfl
  · dsimp only
    split_ifs
    · split
      · next kind hkind =>
        exact announced_emit_iff _ _ _ _ _ _ _ (udpDiscoveryKind_ne_newHost hkind) m
      · rfl
    · rfl

private theorem tryLanscope_after_announce (env : XdpEnv) (ctx : List UInt8) (s : Kernel)
    {mac : MacAddr} {ethertype : UInt16} (hmac : loadMac ctx 6 = some mac)
    (heth : loadU16Be ctx 12 = some ethertype) :
    (tryLanscope env ctx s).1.seen = (announceNewHost env ctx mac s).seen ∧
      ∀ m, Announced (tryLanscope env ctx s).1 m ↔ Announced (announceNewHost env ctx mac s) m := by
  simp only [tryLanscope, hmac, heth]
  split_ifs
  · exact ⟨emit_seen _ _ _ _ _ _ _ _, announced_emit_iff _ _ _ _ _ _ _ (by decide)⟩
  · exact ⟨handleIpv4_seen _ _ _ _, fun m => announced_handleIpv4_iff _ _ _ m _⟩
  · exact ⟨rfl, fun m => Iff.rfl⟩

private theorem tryLanscope_unparsed (env : XdpEnv) (ctx : List UInt8) (s : Kernel)
    (h : ¬ ∃ mac ethertype, loadMac ctx 6 = some mac ∧ loadU16Be ctx 12 = some ethertype) :
    (tryLanscope env ctx s).1 = s := by
  unfold tryLanscope
  split
  · next mac ethertype hmac heth => exact absurd ⟨mac, ethertype, hmac, heth⟩ h
  · rfl

/-- The announcement step keeps marked hosts announced exactly when the new mark comes with a
slot, or the host had been announced before its mark was evicted. -/
private theorem announceNewHost_iff (env : XdpEnv) (ctx : List UInt8) (mac : MacAddr) (s : Kernel)
    (hs : SeenAnnounced s) :
    SeenAnnounced (announceNewHost env ctx mac s) ↔
      (mac ∉ s.seen → ¬ Announced s mac → env.seenInsert = true → env.announceSlot.isSome) := by
  unfold announceNewHost
  split_ifs with hseen hinsert
  · exact ⟨fun _ h => absurd hseen h, fun _ => hs⟩
  · set marked : Kernel := { s with seen := s.seen.insert mac 1 } with hmarked
    have hmem (m : MacAddr) : m ∈ marked.seen ↔ m = mac ∨ m ∈ s.seen := Finmap.mem_insert
    cases hslot : env.announceSlot with
    | none =>
        have hemit : emit env none ctx .newHost mac 0 none marked = marked := rfl
        rw [hemit]
        constructor
        · intro h _ hann _
          exact absurd (h mac ((hmem mac).mpr (Or.inl rfl))) hann
        · intro h m hm
          rcases (hmem m).mp hm with rfl | hm
          · by_contra hann
            simpa using h hseen hann hinsert
          · exact hs m hm
    | some stale =>
        obtain ⟨ev, hev, hkind, hmac, _⟩ := emit_some env stale ctx .newHost mac 0 none marked
        refine ⟨fun _ _ _ _ => rfl, fun _ m hm => ?_⟩
        rw [emit_seen, hmem] at hm
        rcases hm with rfl | hm
        · exact ⟨ev, by simp [hev], hkind, hmac⟩
        · exact Announced.mono (s := marked) (hs m hm) (emit_events_grow _ _ _ _ _ _ _ _)
  · refine ⟨fun _ _ _ h => absurd h hinsert, fun _ m hm => ?_⟩
    rw [emit_seen] at hm
    exact (hs m hm).mono (emit_events_grow _ _ _ _ _ _ _ _)

private theorem mem_of_mem_evicted {seen : HashMap MacAddr UInt8} {macs : List MacAddr}
    {m : MacAddr} (h : m ∈ macs.foldl (fun seen mac => seen.erase mac) seen) : m ∈ seen := by
  induction macs generalizing seen with
  | nil => exact h
  | cons mac macs ih => exact (Finmap.mem_erase.mp (ih h)).2

theorem kernelStep_iff (s : Kernel) (step : KernelStep) (t : Kernel)
    (hs : SeenAnnounced s) (h : kernelStep s step = some t) :
    SeenAnnounced t ↔ AnnouncementFits s step := by
  cases step with
  | evict macs =>
      obtain rfl := Option.some.inj h
      exact ⟨fun _ => trivial, fun _ m hm => hs m (mem_of_mem_evicted hm)⟩
  | frame ctx env =>
      obtain rfl := Option.some.inj h
      by_cases hparsed : ∃ mac ethertype,
          loadMac ctx 6 = some mac ∧ loadU16Be ctx 12 = some ethertype
      · obtain ⟨mac, ethertype, hmac, heth⟩ := hparsed
        have hafter := tryLanscope_after_announce env ctx s hmac heth
        have hsame : SeenAnnounced (tryLanscope env ctx s).1 ↔
            SeenAnnounced (announceNewHost env ctx mac s) := by
          simp only [SeenAnnounced, hafter.1, hafter.2]
        change SeenAnnounced (tryLanscope env ctx s).1 ↔ _
        rw [hsame, announceNewHost_iff env ctx mac s hs]
        simp [AnnouncementFits, hmac, heth]
      · have hsame := tryLanscope_unparsed env ctx s hparsed
        change SeenAnnounced (tryLanscope env ctx s).1 ↔ _
        rw [hsame]
        refine ⟨fun _ mac hmac heth => ?_, fun _ => hs⟩
        obtain ⟨ethertype, heth⟩ := Option.isSome_iff_exists.mp heth
        exact absurd ⟨mac, ethertype, hmac, heth⟩ hparsed

private theorem exec_kernelStep (s : Kernel) (steps : List KernelStep) :
    ∃ t, exec kernelStep s steps = some t := by
  induction steps generalizing s with
  | nil => exact ⟨s, rfl⟩
  | cons step steps ih => cases step <;> exact ih _

/-- In a run from empty maps, every host marked in `SEEN` has been announced at every point exactly
when each frame that marks a host never announced before finds a free slot for the announcement. A
host that is marked again after an eviction counts as announced by its earlier event. -/
theorem seenAnnounced_iff_announcementFits (steps : List KernelStep) :
    StatesSatisfy kernelStep SeenAnnounced Kernel.empty steps ↔
      StepsSatisfy kernelStep AnnouncementFits Kernel.empty steps := by
  obtain ⟨t, ht⟩ := exec_kernelStep Kernel.empty steps
  have hempty : SeenAnnounced Kernel.empty := by
    intro mac hmac
    exact absurd hmac Finmap.notMem_empty
  exact statesSatisfy_iff_stepsSatisfy kernelStep_iff hempty ht

def arpFrame : List UInt8 :=
  [0xff, 0xff, 0xff, 0xff, 0xff, 0xff, 0xb8, 0x27, 0xeb, 0x01, 0x02, 0x03, 0x08, 0x06]

def fullRing : XdpEnv where
  ktime := 0
  loadBytes := fun _ _ _ => none
  seenInsert := true
  announceSlot := none
  discoverySlot := none

theorem seen_without_announcement :
    ¬ ∀ steps : List KernelStep, StatesSatisfy kernelStep SeenAnnounced Kernel.empty steps := by
  intro h
  have hafter := (h [.frame arpFrame fullRing]).2 _ rfl
  obtain ⟨ev, hev, _⟩ := hafter (MacAddr.ofBytes 0xb8 0x27 0xeb 0x01 0x02 0x03) (by decide)
  exact absurd hev (by decide +revert)

end Lanscope
