import Lanscope.Anomaly.Isolation
import Lanscope.App.Attribution

/-!
# Traffic of a snapshot

Folding a snapshot into the registry credits each flow to the first device that lists its source.
No flow changes which device that is, so a snapshot adds up device by device, in any order.
-/

namespace Lanscope

open Framework

/-- Fold a snapshot into the registry. -/
def applyFlows (order : List MacAddr) (registry : DeviceRegistry)
    (flows : List (FlowKey × FlowStats)) (now : Int) : DeviceRegistry :=
  flows.foldl (fun reg f => DeviceRegistry.applyFlow order reg f.1 f.2 now) registry

def ListedBy (registry : DeviceRegistry) (ip : Ipv4Be) (mac : MacAddr) : Prop :=
  ∃ d, registry.get mac = some d ∧ fmtIpv4 ip ∈ d.ips

/-- The flows of a snapshot that go to a device. -/
def creditedTo (order : List MacAddr) (registry : DeviceRegistry)
    (flows : List (FlowKey × FlowStats)) (mac : MacAddr) : List (FlowKey × FlowStats) :=
  flows.filter fun f => DeviceRegistry.flowTarget order registry f.1 = some mac

def sumOf (counter : FlowStats → UInt64) (flows : List (FlowKey × FlowStats)) : Nat :=
  (flows.map fun f => (counter f.2).toNat).sum

/-- The nearest 64-bit count. -/
def saturated (n : Nat) : UInt64 := UInt64.ofNat (min n (UInt64.size - 1))

/-- A record after all its credits. -/
def creditTotal (d : Device) (flows : List (FlowKey × FlowStats)) (now : Int) : Device :=
  { d with
    packets := saturated (d.packets.toNat + sumOf FlowStats.packets flows)
    bytes := saturated (d.bytes.toNat + sumOf FlowStats.bytes flows)
    lastSeen := if flows = [] then d.lastSeen else now }

/-! ## Saturating counters -/

theorem toNat_saturated (n : Nat) : (saturated n).toNat = min n (UInt64.size - 1) := by
  apply UInt64.toNat_ofNat_of_lt'
  exact lt_of_le_of_lt (min_le_right _ _) (by decide)

@[simp] theorem saturated_toNat (a : UInt64) : saturated a.toNat = a := by
  have hle : a.toNat ≤ UInt64.size - 1 := Nat.le_sub_one_of_lt a.toNat_lt
  rw [saturated, min_eq_left hle, UInt64.ofNat_toNat]

theorem saturatingAdd_eq (a b : UInt64) : saturatingAdd a b = saturated (a.toNat + b.toNat) := by
  unfold saturatingAdd
  split_ifs with h
  · rw [saturated, min_eq_left (Nat.le_sub_one_of_lt h), UInt64.ofNat_add, UInt64.ofNat_toNat,
      UInt64.ofNat_toNat]
  · rw [saturated, min_eq_right (by omega)]

theorem saturatingAdd_saturated (n : Nat) (b : UInt64) :
    saturatingAdd (saturated n) b = saturated (n + b.toNat) := by
  apply UInt64.toNat_inj.mp
  rw [saturatingAdd_eq, toNat_saturated, toNat_saturated, toNat_saturated]
  omega

theorem sumOf_concat (counter : FlowStats → UInt64) (flows : List (FlowKey × FlowStats))
    (f : FlowKey × FlowStats) :
    sumOf counter (flows ++ [f]) = sumOf counter flows + (counter f.2).toNat := by
  simp [sumOf]

theorem creditTotal_nil (d : Device) (now : Int) : creditTotal d [] now = d := by
  simp [creditTotal, sumOf]

theorem creditFlow_creditTotal (d : Device) (flows : List (FlowKey × FlowStats))
    (f : FlowKey × FlowStats) (now : Int) :
    creditFlow (creditTotal d flows now) f.2 now = creditTotal d (flows ++ [f]) now := by
  simp [creditFlow, creditTotal, saturatingAdd_saturated, sumOf_concat, Nat.add_assoc]

/-! ## One snapshot -/

/-- Which device a flow goes to depends on the listed addresses alone. -/
theorem flowTarget_congr {registry later : DeviceRegistry}
    (h : ∀ mac, (later.get mac).map Device.ips = (registry.get mac).map Device.ips)
    (order : List MacAddr) (key : FlowKey) :
    DeviceRegistry.flowTarget order later key = DeviceRegistry.flowTarget order registry key := by
  unfold DeviceRegistry.flowTarget
  congr 1
  funext mac
  have hips := h mac
  simp only [DeviceRegistry.get] at hips
  cases hl : later.devices.lookup mac <;> cases hr : registry.devices.lookup mac <;>
    simp_all

theorem applyFlows_concat (order : List MacAddr) (registry : DeviceRegistry)
    (flows : List (FlowKey × FlowStats)) (f : FlowKey × FlowStats) (now : Int) :
    applyFlows order registry (flows ++ [f]) now =
      DeviceRegistry.applyFlow order (applyFlows order registry flows now) f.1 f.2 now := by
  rw [applyFlows, List.foldl_concat]
  rfl

/-- A snapshot credits each record with all flows that go to it. -/
theorem get_applyFlows (order : List MacAddr) (registry : DeviceRegistry)
    (flows : List (FlowKey × FlowStats)) (now : Int) (mac : MacAddr) :
    (applyFlows order registry flows now).get mac =
      (registry.get mac).map fun d => creditTotal d (creditedTo order registry flows mac) now := by
  induction flows using List.reverseRecOn generalizing mac with
  | nil =>
      simp only [creditedTo, List.filter_nil, creditTotal_nil, Option.map_id']
      rfl
  | append_singleton flows f ih =>
      have htarget : DeviceRegistry.flowTarget order (applyFlows order registry flows now) f.1 =
          DeviceRegistry.flowTarget order registry f.1 := by
        refine flowTarget_congr (fun mac => ?_) order f.1
        rw [ih mac, Option.map_map]
        rfl
      rw [applyFlows_concat, DeviceRegistry.get_applyFlow, htarget, ih mac, creditedTo, creditedTo,
        List.filter_append]
      split_ifs with hf
      · simp only [Option.map_map, Function.comp_def, creditFlow_creditTotal, hf, decide_true,
          List.filter_cons_of_pos, List.filter_nil]
      · simp only [hf, decide_false, Bool.false_eq_true, not_false_eq_true,
          List.filter_cons_of_neg, List.filter_nil, List.append_nil]

theorem flowTarget_applyFlows (order : List MacAddr) (registry : DeviceRegistry)
    (flows : List (FlowKey × FlowStats)) (now : Int) (key : FlowKey) :
    DeviceRegistry.flowTarget order (applyFlows order registry flows now) key =
      DeviceRegistry.flowTarget order registry key := by
  refine flowTarget_congr (fun mac => ?_) order key
  rw [get_applyFlows, Option.map_map]
  rfl

/-! ## Which flows are credited -/

theorem listedBy_of_flowTarget {order : List MacAddr} {registry : DeviceRegistry} {key : FlowKey}
    {mac : MacAddr} (h : DeviceRegistry.flowTarget order registry key = some mac) :
    ListedBy registry key.srcIp mac := by
  have hfound := List.find?_some h
  unfold ListedBy DeviceRegistry.get
  cases hd : registry.devices.lookup mac with
  | none => simp [hd] at hfound
  | some d => exact ⟨d, rfl, by simpa [hd] using hfound⟩

theorem flowTarget_eq_none_iff {order : List MacAddr} {registry : DeviceRegistry}
    (horder : registry.devices.IterOrder order) (key : FlowKey) :
    DeviceRegistry.flowTarget order registry key = none ↔
      ¬ ∃ mac, ListedBy registry key.srcIp mac := by
  constructor
  · rintro hnone ⟨mac, d, hd, hip⟩
    have hmem : mac ∈ order := (horder.mem_iff mac).mpr (Finmap.mem_of_lookup_eq_some hd)
    have hmiss := List.find?_eq_none.mp hnone mac hmem
    have hlookup : registry.devices.lookup mac = some d := hd
    simp [hlookup, hip] at hmiss
  · intro hunlisted
    cases htarget : DeviceRegistry.flowTarget order registry key with
    | none => rfl
    | some mac => exact absurd ⟨mac, listedBy_of_flowTarget htarget⟩ hunlisted

/-- A flow with a target is credited to it and to nothing else. -/
private theorem credits_iff_eq {order : List MacAddr} {registry : DeviceRegistry} {key : FlowKey}
    {mac : MacAddr} (h : DeviceRegistry.flowTarget order registry key = some mac)
    (other : MacAddr) : Credits order registry key other ↔ other = mac := by
  obtain ⟨d, hd, _⟩ := listedBy_of_flowTarget h
  constructor
  · intro hother
    by_contra hne
    -- the target's record moves, though it is not the credited device
    have hmoved := hother {} (d.lastSeen + 1) mac
    rw [DeviceRegistry.get_applyFlow, if_pos h, if_neg (Ne.symm hne), hd] at hmoved
    have hseen := congrArg Device.lastSeen (Option.some.inj hmoved)
    simp only [creditFlow] at hseen
    omega
  · rintro rfl
    exact (credits_iff_flowTarget hd).mpr h

theorem applyFlows_perm {order : List MacAddr} {registry : DeviceRegistry}
    {flows flows' : List (FlowKey × FlowStats)} (h : flows.Perm flows') (now : Int) :
    applyFlows order registry flows now = applyFlows order registry flows' now := by
  apply DeviceRegistry.ext_get
  intro mac
  have hcredited : (creditedTo order registry flows mac).Perm
      (creditedTo order registry flows' mac) := h.filter _
  have hsum (counter : FlowStats → UInt64) : sumOf counter (creditedTo order registry flows mac) =
      sumOf counter (creditedTo order registry flows' mac) := (hcredited.map _).sum_eq
  have hnil : creditedTo order registry flows mac = [] ↔
      creditedTo order registry flows' mac = [] :=
    ⟨fun hn => by rw [hn] at hcredited; exact hcredited.nil_eq.symm,
      fun hn => by rw [hn] at hcredited; exact hcredited.eq_nil⟩
  rw [get_applyFlows, get_applyFlows]
  simp only [creditTotal, hsum, hnil]

/-! ## Sums over all devices -/

/-- A counter added up over the devices of the map. -/
def deviceTotal (order : List MacAddr) (counter : Device → UInt64)
    (registry : DeviceRegistry) : Nat :=
  ((registry.devices.values order).map fun d => (counter d).toNat).sum

/-- The flows of a snapshot whose source some device lists. -/
def knownFlows (order : List MacAddr) (registry : DeviceRegistry)
    (flows : List (FlowKey × FlowStats)) : List (FlowKey × FlowStats) :=
  flows.filter fun f =>
    (registry.devices.values order).any fun d => fmtIpv4 f.1.srcIp ∈ d.ips

private theorem deviceTotal_eq (order : List MacAddr) (counter : Device → UInt64)
    (registry : DeviceRegistry) : deviceTotal order counter registry =
    (order.map fun mac => (registry.get mac).elim 0 fun d => (counter d).toNat).sum := by
  unfold deviceTotal HashMap.values DeviceRegistry.get
  induction order with
  | nil => rfl
  | cons mac order ih =>
      cases hd : registry.devices.lookup mac with
      | none => simpa [hd] using ih
      | some d => simpa [hd] using ih

private theorem knownFlows_eq {order : List MacAddr} {registry : DeviceRegistry}
    (horder : registry.devices.IterOrder order) (flows : List (FlowKey × FlowStats)) :
    knownFlows order registry flows =
      flows.filter fun f => (DeviceRegistry.flowTarget order registry f.1).isSome := by
  apply List.filter_congr
  intro f _
  have hlisted : (∃ d ∈ registry.devices.values order, fmtIpv4 f.1.srcIp ∈ d.ips) ↔
      ∃ mac, ListedBy registry f.1.srcIp mac := by
    constructor
    · rintro ⟨d, hd, hip⟩
      obtain ⟨mac, hmac⟩ := (HashMap.mem_values horder d).mp hd
      exact ⟨mac, d, hmac, hip⟩
    · rintro ⟨mac, d, hmac, hip⟩
      exact ⟨d, (HashMap.mem_values horder d).mpr ⟨mac, hmac⟩, hip⟩
  have htarget := (flowTarget_eq_none_iff horder f.1).not
  rw [not_not, ← Ne, Option.ne_none_iff_isSome] at htarget
  rw [Bool.eq_iff_iff, htarget, ← hlisted, List.any_eq_true]
  simp only [decide_eq_true_eq]

private theorem mem_order_of_flowTarget {order : List MacAddr} {registry : DeviceRegistry}
    {key : FlowKey} {mac : MacAddr}
    (h : DeviceRegistry.flowTarget order registry key = some mac) : mac ∈ order :=
  List.mem_of_find?_eq_some h

/-- What the devices are credited with adds up to the known flows. -/
theorem sum_creditedTo {order : List MacAddr} {registry : DeviceRegistry}
    (horder : registry.devices.IterOrder order) (amount : FlowStats → UInt64)
    (flows : List (FlowKey × FlowStats)) :
    (order.map fun mac => sumOf amount (creditedTo order registry flows mac)).sum =
      sumOf amount (knownFlows order registry flows) := by
  rw [knownFlows_eq horder]
  induction flows with
  | nil => simp [creditedTo, sumOf]
  | cons f flows ih =>
      have hcons (mac : MacAddr) : sumOf amount (creditedTo order registry (f :: flows) mac) =
          (if DeviceRegistry.flowTarget order registry f.1 = some mac then (amount f.2).toNat
            else 0) + sumOf amount (creditedTo order registry flows mac) := by
        by_cases hf : DeviceRegistry.flowTarget order registry f.1 = some mac <;>
          simp [creditedTo, sumOf, hf]
      simp only [hcons, List.sum_map_add, ih]
      cases htarget : DeviceRegistry.flowTarget order registry f.1 with
      | none => simp [htarget, sumOf]
      | some mac =>
          have hmem : mac ∈ order.toFinset :=
            List.mem_toFinset.mpr (mem_order_of_flowTarget htarget)
          have hone : (order.map fun other => if some mac = some other then (amount f.2).toNat
              else 0).sum = (amount f.2).toNat := by
            rw [← List.sum_toFinset _ horder.1]
            simp only [Option.some.injEq, Finset.sum_ite_eq, hmem, if_true]
          rw [hone]
          simp [htarget, sumOf]

/-- A counter that every credit adds to, in a snapshot that saturates it for no device. -/
private theorem deviceTotal_applyFlows {order : List MacAddr} {registry : DeviceRegistry}
    (horder : registry.devices.IterOrder order) (counter : Device → UInt64)
    (amount : FlowStats → UInt64)
    (hcounter : ∀ d flows now,
      counter (creditTotal d flows now) = saturated ((counter d).toNat + sumOf amount flows))
    (flows : List (FlowKey × FlowStats)) (now : Int)
    (hroom : ∀ mac d, registry.get mac = some d →
      (counter d).toNat + sumOf amount (creditedTo order registry flows mac) < UInt64.size) :
    deviceTotal order counter (applyFlows order registry flows now) =
      deviceTotal order counter registry + sumOf amount (knownFlows order registry flows) := by
  have hrecord : ∀ mac ∈ order,
      ((applyFlows order registry flows now).get mac).elim 0 (fun d => (counter d).toNat) =
        (registry.get mac).elim 0 (fun d => (counter d).toNat) +
          sumOf amount (creditedTo order registry flows mac) := by
    intro mac hmac
    obtain ⟨d, hd⟩ : ∃ d, registry.get mac = some d :=
      Finmap.mem_iff.mp ((horder.mem_iff mac).mp hmac)
    rw [get_applyFlows, hd, Option.map_some, Option.elim_some, Option.elim_some, hcounter,
      toNat_saturated, min_eq_left (Nat.le_sub_one_of_lt (hroom mac d hd))]
  rw [deviceTotal_eq, deviceTotal_eq, List.map_congr_left hrecord, List.sum_map_add,
    sum_creditedTo horder]

/-- Every flow of a snapshot whose source a device lists is credited to exactly one such device, and
every other flow to none. The credits of a device add up in its counters, up to the largest 64-bit
count, and nothing else of it changes but the time it was last seen. So the sums over all devices
grow by the known flows, and the order of the flows does not matter. -/
theorem applyFlows_credits (order : List MacAddr) (registry : DeviceRegistry)
    (horder : registry.devices.IterOrder order) (flows : List (FlowKey × FlowStats)) (now : Int) :
    (∀ before f after, flows = before ++ f :: after →
      ((∃ mac, ListedBy registry f.1.srcIp mac) →
        ∃ mac, ListedBy registry f.1.srcIp mac ∧ f ∈ creditedTo order registry flows mac ∧
          ∀ other, Credits order (applyFlows order registry before now) f.1 other ↔ other = mac) ∧
      ((¬ ∃ mac, ListedBy registry f.1.srcIp mac) →
        (∀ mac, f ∉ creditedTo order registry flows mac) ∧
          ∀ stats now', DeviceRegistry.applyFlow order (applyFlows order registry before now) f.1
            stats now' = applyFlows order registry before now)) ∧
    (∀ mac, (applyFlows order registry flows now).get mac = (registry.get mac).map fun d => { d with
      packets := saturated (d.packets.toNat +
        sumOf FlowStats.packets (creditedTo order registry flows mac))
      bytes := saturated (d.bytes.toNat +
        sumOf FlowStats.bytes (creditedTo order registry flows mac))
      lastSeen := if creditedTo order registry flows mac = [] then d.lastSeen else now }) ∧
    ((∀ mac d, registry.get mac = some d →
        d.packets.toNat + sumOf FlowStats.packets (creditedTo order registry flows mac) <
          UInt64.size) →
      deviceTotal order Device.packets (applyFlows order registry flows now) =
        deviceTotal order Device.packets registry +
          sumOf FlowStats.packets (knownFlows order registry flows)) ∧
    ((∀ mac d, registry.get mac = some d →
        d.bytes.toNat + sumOf FlowStats.bytes (creditedTo order registry flows mac) <
          UInt64.size) →
      deviceTotal order Device.bytes (applyFlows order registry flows now) =
        deviceTotal order Device.bytes registry +
          sumOf FlowStats.bytes (knownFlows order registry flows)) ∧
    ∀ flows', flows.Perm flows' →
      applyFlows order registry flows now = applyFlows order registry flows' now := by
  refine ⟨?_, get_applyFlows order registry flows now,
    deviceTotal_applyFlows horder _ _ (fun _ _ _ => rfl) flows now,
    deviceTotal_applyFlows horder _ _ (fun _ _ _ => rfl) flows now,
    fun _ hperm => applyFlows_perm hperm now⟩
  rintro before f after rfl
  have hsame := flowTarget_applyFlows order registry before now f.1
  constructor
  · intro hlisted
    cases htarget : DeviceRegistry.flowTarget order registry f.1 with
    | none => exact absurd hlisted ((flowTarget_eq_none_iff horder f.1).mp htarget)
    | some mac =>
        refine ⟨mac, listedBy_of_flowTarget htarget, ?_, credits_iff_eq (hsame.trans htarget)⟩
        exact List.mem_filter.mpr ⟨by simp, decide_eq_true htarget⟩
  · intro hunlisted
    have htarget := (flowTarget_eq_none_iff horder f.1).mpr hunlisted
    constructor
    · intro mac hmem
      have hcredited := of_decide_eq_true (List.mem_filter.mp hmem).2
      rw [htarget] at hcredited
      exact absurd hcredited (by simp)
    · intro stats now'
      rw [DeviceRegistry.applyFlow, hsame, htarget]

/-- Two devices that list the same address. -/
def leasedRegistry : DeviceRegistry :=
  (DeviceRegistry.empty.load laptop (pushIp (Device.new laptop 100) leasedIp)).load phone
    (pushIp (Device.new phone 150) leasedIp)

/-- Two flows of the address, and one of an address that no device lists. -/
def leasedFlows : List (FlowKey × FlowStats) :=
  [(leasedFlow, { packets := 3, bytes := 1800 }),
    ({ leasedFlow with dstPort := 80 }, { packets := 2, bytes := 120 }),
    ({ leasedFlow with srcIp := 0x0A000043 }, { packets := 5, bytes := 300 })]

theorem applyFlows_credits_leased :
    (applyFlows [phone, laptop] leasedRegistry leasedFlows 200).get phone =
        (leasedRegistry.get phone).map (fun d => { d with
          packets := saturated (d.packets.toNat + 5)
          bytes := saturated (d.bytes.toNat + 1920)
          lastSeen := 200 }) ∧
      ((applyFlows [phone, laptop] leasedRegistry leasedFlows 200).get laptop).map Device.packets =
        (leasedRegistry.get laptop).map Device.packets := by
  have hcredits :=
    (applyFlows_credits [phone, laptop] leasedRegistry (by decide) leasedFlows 200).2.1
  refine ⟨hcredits phone, ?_⟩
  rw [hcredits laptop]
  rfl

/-! ## The event loop -/

/-- A snapshot event folds its flows into the registry, runs the engine over them, and stores the
alerts. -/
theorem handleEvent_flows (now : Int) (order : List MacAddr) (agent : Agent)
    (flows : List (FlowKey × FlowStats)) :
    (handleEvent now order agent (.flows flows)).agent =
      ⟨applyFlows order agent.registry flows now, (agent.anomaly.run (snapshotAt now flows)).1⟩ ∧
    (handleEvent now order agent (.flows flows)).writes =
      (agent.anomaly.run (snapshotAt now flows)).2.map .recordAlert := by
  have hfold : foldEmit (handleFlow now order) agent flows =
      (⟨applyFlows order agent.registry flows now, (agent.anomaly.run (snapshotAt now flows)).1⟩,
        (agent.anomaly.run (snapshotAt now flows)).2.map .recordAlert) := by
    induction flows generalizing agent with
    | nil => rfl
    | cons f flows ih =>
        rw [foldEmit_cons, ih]
        simp only [Engine.run, snapshotAt, List.map_cons, foldEmit_cons, List.map_append]
        rfl
  simp only [handleEvent, hfold, and_self]

end Lanscope
