import Lanscope.Ebpf.Program
import Lanscope.Framework.Run

/-!
# Draining the flow table

Userspace drains the flow table in two passes, reading every entry into a snapshot and then
removing the keys it read, while packets keep arriving. The runs below interleave packets with the
single reads and removals of any number of drains.
-/

namespace Lanscope

open Framework

abbrev Snapshot := List (FlowKey × FlowStats)

/-- Where the drain in progress stands. While reading, `unread` holds the keys the iterator still
owes; while removing, `todo` holds the keys still to be removed. -/
inductive DrainPhase
  | idle
  | reading (unread : Finset FlowKey) (out : Snapshot)
  | removing (todo : List FlowKey) (out : Snapshot)
  deriving DecidableEq

structure DrainState where
  flows : FlowTable
  phase : DrainPhase
  sent : List Snapshot
  deriving DecidableEq

def DrainState.init : DrainState := ⟨∅, .idle, []⟩

inductive DrainStep
  | packet (key : FlowKey) (pktLen : UInt64) (tcpFlags : UInt8) (now : UInt64)
  | begin
  | read (key : FlowKey)
  | endRead
  | remove
  | send

/-- `drain_flows` one access at a time, interleaved with `update_flow`. The iterator yields each
entry present when it starts once, and an entry added meanwhile at most once. -/
def drainStep (s : DrainState) : DrainStep → Option DrainState
  | .packet key pktLen tcpFlags now =>
    some { s with flows := updateFlow s.flows key pktLen tcpFlags now }
  | .begin =>
    match s.phase with
    | .idle => some { s with phase := .reading s.flows.keys [] }
    | _ => none
  | .read key =>
    match s.phase, s.flows.lookup key with
    | .reading unread out, some stats =>
      if key ∈ out.map Prod.fst then none
      else some { s with phase := .reading (unread.erase key) (out ++ [(key, stats)]) }
    | _, _ => none
  | .endRead =>
    match s.phase with
    | .reading unread out =>
      if unread ≠ ∅ then none
      -- an empty snapshot is neither removed nor sent
      else if out = [] then some { s with phase := .idle }
      else some { s with phase := .removing (out.map Prod.fst) out }
    | _ => none
  | .remove =>
    match s.phase with
    | .removing (key :: todo) out =>
      some { s with flows := s.flows.erase key, phase := .removing todo out }
    | _ => none
  | .send =>
    match s.phase with
    | .removing [] out => some { s with phase := .idle, sent := s.sent ++ [out] }
    | _ => none

/-- The accesses of the drain to the flow table. -/
inductive DrainAccess : DrainState → DrainStep → DrainState → Prop
  | begin {flows : FlowTable} {sent : List Snapshot} :
    DrainAccess ⟨flows, .idle, sent⟩ .begin ⟨flows, .reading flows.keys [], sent⟩
  | read {flows : FlowTable} {key : FlowKey} {stats : FlowStats} {unread : Finset FlowKey}
      {out : Snapshot} {sent : List Snapshot} (hk : flows.lookup key = some stats)
      (hout : key ∉ out.map Prod.fst) :
    DrainAccess ⟨flows, .reading unread out, sent⟩ (.read key)
      ⟨flows, .reading (unread.erase key) (out ++ [(key, stats)]), sent⟩
  | endEmpty {flows : FlowTable} {sent : List Snapshot} :
    DrainAccess ⟨flows, .reading ∅ [], sent⟩ .endRead ⟨flows, .idle, sent⟩
  | endRead {flows : FlowTable} {out : Snapshot} {sent : List Snapshot} (hout : out ≠ []) :
    DrainAccess ⟨flows, .reading ∅ out, sent⟩ .endRead
      ⟨flows, .removing (out.map Prod.fst) out, sent⟩
  | remove {flows : FlowTable} {key : FlowKey} {todo : List FlowKey} {out : Snapshot}
      {sent : List Snapshot} :
    DrainAccess ⟨flows, .removing (key :: todo) out, sent⟩ .remove
      ⟨flows.erase key, .removing todo out, sent⟩
  | send {flows : FlowTable} {out : Snapshot} {sent : List Snapshot} :
    DrainAccess ⟨flows, .removing [] out, sent⟩ .send ⟨flows, .idle, sent ++ [out]⟩

/-- Every step but a packet is one of the accesses. -/
theorem DrainAccess.of_drainStep {s t : DrainState} {step : DrainStep}
    (hstep : ∀ k l f n, step ≠ .packet k l f n) (h : drainStep s step = some t) :
    DrainAccess s step t := by
  obtain ⟨flows, phase, sent⟩ := s
  cases step with
  | packet k l f n => exact absurd rfl (hstep k l f n)
  | begin =>
      cases phase with
      | idle =>
          obtain rfl := Option.some.inj h
          exact .begin
      | reading _ _ | removing _ _ => simp [drainStep] at h
  | read k =>
      cases phase with
      | idle | removing _ _ => simp [drainStep] at h
      | reading unread out =>
          cases hk : flows.lookup k with
          | none => simp [drainStep, hk] at h
          | some stats =>
              simp only [drainStep, hk] at h
              split_ifs at h with hout
              obtain rfl := Option.some.inj h
              exact .read hk hout
  | endRead =>
      cases phase with
      | idle | removing _ _ => simp [drainStep] at h
      | reading unread out =>
          simp only [drainStep] at h
          split_ifs at h with hunread hout
          · obtain rfl := Option.some.inj h
            obtain rfl := not_not.mp hunread
            subst out
            exact .endEmpty
          · obtain rfl := Option.some.inj h
            obtain rfl := not_not.mp hunread
            exact .endRead hout
  | remove =>
      cases phase with
      | idle | reading _ _ => simp [drainStep] at h
      | removing todo out =>
          cases todo with
          | nil => simp [drainStep] at h
          | cons k todo =>
              obtain rfl := Option.some.inj h
              exact .remove
  | send =>
      cases phase with
      | idle | reading _ _ => simp [drainStep] at h
      | removing todo out =>
          cases todo with
          | cons k todo => simp [drainStep] at h
          | nil =>
              obtain rfl := Option.some.inj h
              exact .send

/-- Keys copied into the snapshot in progress and not yet removed from the table. -/
def DrainPhase.copied : DrainPhase → List FlowKey
  | .idle => []
  | .reading _ out => out.map Prod.fst
  | .removing todo _ => todo

def DrainPhase.snapshot : DrainPhase → Snapshot
  | .idle => []
  | .reading _ out => out
  | .removing _ out => out

inductive Counter
  | packets
  | bytes

def Counter.of : Counter → FlowStats → Nat
  | .packets, stats => stats.packets.toNat
  | .bytes, stats => stats.bytes.toNat

def Counter.gain : Counter → UInt64 → Nat
  | .packets, _ => 1
  | .bytes, pktLen => pktLen.toNat

def snapshotTotal (c : Counter) (key : FlowKey) (snap : Snapshot) : Nat :=
  ((snap.filter fun e => e.1 = key).map fun e => c.of e.2).sum

def tableTotal (c : Counter) (key : FlowKey) (flows : FlowTable) : Nat :=
  (flows.lookup key).elim 0 c.of

/-- What the snapshots sent so far and the table hold for a key. -/
def accounted (c : Counter) (key : FlowKey) (s : DrainState) : Nat :=
  (s.sent.map (snapshotTotal c key)).sum + tableTotal c key s.flows

def passed (c : Counter) (key : FlowKey) : DrainStep → Nat
  | .packet k pktLen _ _ => if k = key then c.gain pktLen else 0
  | _ => 0

/-- No packet or byte is lost and none counted twice. -/
def Conserved (steps : List DrainStep) (s : DrainState) : Prop :=
  ∀ (c : Counter) (key : FlowKey), accounted c key s = (steps.map (passed c key)).sum

def HasRoom (s : DrainState) : Prop := s.flows.keys.card < flowsMaxEntries

instance : DecidablePred HasRoom := fun _ => inferInstanceAs (Decidable (_ < _))

/-- A packet that arrives while its flow is not between its copy and its removal, and whose counters
do not wrap. -/
def PacketCounted (s : DrainState) : DrainStep → Prop
  | .packet key pktLen _ _ => key ∉ s.phase.copied ∧ ∀ stats, s.flows.lookup key = some stats →
      ∀ c : Counter, c.of stats + c.gain pktLen < 2 ^ 64
  | _ => True

private theorem accumulateFlags_counters (stats : FlowStats) (tcpFlags : UInt8) :
    (accumulateFlags stats tcpFlags).packets = stats.packets ∧
      (accumulateFlags stats tcpFlags).bytes = stats.bytes := by
  unfold accumulateFlags
  dsimp only
  split_ifs <;> exact ⟨rfl, rfl⟩

theorem Counter.of_firstPacket (c : Counter) (pktLen : UInt64) (len16 : UInt16) (tcpFlags : UInt8)
    (now : UInt64) : c.of (firstPacket pktLen len16 tcpFlags now) = c.gain pktLen := by
  have h := accumulateFlags_counters
    { packets := 1, bytes := pktLen, firstSeenNs := now, lastSeenNs := now,
      minLen := len16, maxLen := len16 } tcpFlags
  cases c with
  | packets => exact congrArg UInt64.toNat h.1
  | bytes => exact congrArg UInt64.toNat h.2

theorem Counter.of_nextPacket (c : Counter) (stats : FlowStats) (pktLen : UInt64) (len16 : UInt16)
    (tcpFlags : UInt8) (now : UInt64) :
    c.of (nextPacket stats pktLen len16 tcpFlags now) = (c.of stats + c.gain pktLen) % 2 ^ 64 := by
  have h := accumulateFlags_counters
    { stats with
      packets := stats.packets + 1
      bytes := stats.bytes + pktLen
      lastSeenNs := now
      minLen := if len16 < stats.minLen then len16 else stats.minLen
      maxLen := if len16 > stats.maxLen then len16 else stats.maxLen } tcpFlags
  cases c with
  | packets => exact (congrArg UInt64.toNat h.1).trans (UInt64.toNat_add _ _)
  | bytes => exact (congrArg UInt64.toNat h.2).trans (UInt64.toNat_add _ _)

theorem Counter.of_lt (c : Counter) (stats : FlowStats) : c.of stats < 2 ^ 64 := by
  cases c with
  | packets => exact stats.packets.toNat_lt
  | bytes => exact stats.bytes.toNat_lt

theorem Counter.gain_lt (c : Counter) (pktLen : UInt64) : c.gain pktLen < 2 ^ 64 := by
  cases c with
  | packets => exact Nat.one_lt_two_pow (by decide)
  | bytes => exact pktLen.toNat_lt

/-- The balance the drain keeps: snapshots sent, the one in progress, and the table entries that
are not already copied into it. -/
private def balance (c : Counter) (key : FlowKey) (s : DrainState) : Nat :=
  (s.sent.map (snapshotTotal c key)).sum + snapshotTotal c key s.phase.snapshot +
    if key ∈ s.phase.copied then 0 else tableTotal c key s.flows

/-- What a step takes out of the balance: a packet of a copied flow, or a counter that wraps. -/
private def lost (c : Counter) (key : FlowKey) (s : DrainState) : DrainStep → Nat
  | .packet k pktLen _ _ =>
    if k ≠ key then 0
    else if key ∈ s.phase.copied then c.gain pktLen
    else if tableTotal c key s.flows + c.gain pktLen < 2 ^ 64 then 0 else 2 ^ 64
  | _ => 0

private theorem tableTotal_updateFlow (c : Counter) (key k : FlowKey) (flows : FlowTable)
    (pktLen : UInt64) (tcpFlags : UInt8) (now : UInt64) (hroom : flows.keys.card < flowsMaxEntries) :
    tableTotal c key (updateFlow flows k pktLen tcpFlags now) =
      if k = key then (tableTotal c key flows + c.gain pktLen) % 2 ^ 64
      else tableTotal c key flows := by
  unfold updateFlow tableTotal
  cases hk : flows.lookup k with
  | none =>
      simp only [hroom, if_true, HashMap.lookup_insert_eq]
      by_cases h : k = key
      · subst k
        have hgain := c.gain_lt pktLen
        rw [Nat.mod_eq_of_lt (by simpa [hk] using hgain)]
        simp [hk, Counter.of_firstPacket]
      · simp [h, Ne.symm h]
  | some stats =>
      simp only [HashMap.lookup_insert_eq]
      by_cases h : k = key
      · subst k
        simp [hk, Counter.of_nextPacket]
      · simp [h, Ne.symm h]

private theorem tableTotal_lt (c : Counter) (key : FlowKey) (flows : FlowTable) :
    tableTotal c key flows < 2 ^ 64 := by
  unfold tableTotal
  cases flows.lookup key with
  | none => exact Nat.two_pow_pos 64
  | some stats => exact c.of_lt stats

private theorem balance_packet (c : Counter) (key : FlowKey) (s : DrainState) (k : FlowKey)
    (pktLen : UInt64) (tcpFlags : UInt8) (now : UInt64) (hroom : HasRoom s) :
    balance c key { s with flows := updateFlow s.flows k pktLen tcpFlags now } +
        lost c key s (.packet k pktLen tcpFlags now) =
      balance c key s + passed c key (.packet k pktLen tcpFlags now) := by
  have htable := tableTotal_updateFlow c key k s.flows pktLen tcpFlags now hroom
  have hlt := tableTotal_lt c key s.flows
  have hgain := c.gain_lt pktLen
  simp only [balance, lost, passed, htable]
  by_cases hk : k = key
  · by_cases hc : key ∈ s.phase.copied
    · simp [hk, hc]
    · by_cases hw : tableTotal c key s.flows + c.gain pktLen < 2 ^ 64
      · simp only [hk, hc, hw, ne_eq, not_true_eq_false, if_true, if_false, Nat.mod_eq_of_lt hw]
        omega
      · simp only [hk, hc, hw, ne_eq, not_true_eq_false, if_true, if_false]
        omega
  · simp [hk]

private theorem snapshotTotal_append (c : Counter) (key k : FlowKey) (out : Snapshot)
    (stats : FlowStats) : snapshotTotal c key (out ++ [(k, stats)]) =
      snapshotTotal c key out + if k = key then c.of stats else 0 := by
  by_cases h : k = key <;> simp [snapshotTotal, h]

/-- Copying an entry into the snapshot takes it out of the part of the table that counts. -/
private theorem balance_read (c : Counter) (key k : FlowKey) {flows : FlowTable} {stats : FlowStats}
    (hk : flows.lookup k = some stats) (unread : Finset FlowKey) {out : Snapshot}
    (hout : k ∉ out.map Prod.fst) (sent : List Snapshot) :
    balance c key ⟨flows, .reading (unread.erase k) (out ++ [(k, stats)]), sent⟩ =
      balance c key ⟨flows, .reading unread out, sent⟩ := by
  simp only [balance, DrainPhase.snapshot, DrainPhase.copied, snapshotTotal_append,
    List.map_append, List.map_cons, List.map_nil, List.mem_append, List.mem_singleton]
  by_cases hkey : key = k
  · subst key
    simp only [hout, tableTotal, hk, or_true, if_true, if_false, Option.elim_some]
    omega
  · by_cases hmem : key ∈ out.map Prod.fst
    · simp only [hmem, Ne.symm hkey, true_or, if_true, if_false, Nat.add_zero]
    · simp only [hmem, hkey, Ne.symm hkey, or_self, if_false, Nat.add_zero]

/-- What an access of the drain moves out of the table it moves into the snapshot. -/
private theorem balance_drain (c : Counter) (key : FlowKey) {s t : DrainState} {step : DrainStep}
    (h : DrainAccess s step t) : balance c key t = balance c key s := by
  cases h with
  | begin => rfl
  | read hk hout => exact balance_read c key _ hk _ hout _
  | endEmpty => rfl
  | endRead _ => rfl
  | @remove flows k todo out sent =>
      simp only [balance, DrainPhase.snapshot, DrainPhase.copied, tableTotal,
        HashMap.lookup_erase_eq, List.mem_cons]
      by_cases hkey : key = k <;> simp [hkey]
  | send => simp [balance, DrainPhase.snapshot, DrainPhase.copied, snapshotTotal]

private theorem balance_step (c : Counter) (key : FlowKey) (s : DrainState) (step : DrainStep)
    (t : DrainState) (hroom : HasRoom s) (h : drainStep s step = some t) :
    balance c key t + lost c key s step = balance c key s + passed c key step := by
  cases step with
  | packet k pktLen tcpFlags now =>
      obtain rfl := Option.some.inj h
      exact balance_packet c key s k pktLen tcpFlags now hroom
  | _ => exact balance_drain c key (DrainAccess.of_drainStep (by simp) h)

private theorem lost_eq_zero_iff (s : DrainState) (step : DrainStep) :
    (∀ (c : Counter) (key : FlowKey), lost c key s step = 0) ↔ PacketCounted s step := by
  cases step with
  | packet k pktLen tcpFlags now =>
      simp only [lost, PacketCounted]
      constructor
      · intro h
        have hcopied : k ∉ s.phase.copied := by
          intro hk
          have := h .packets k
          simp [hk, Counter.gain] at this
        refine ⟨hcopied, fun stats hstats c => ?_⟩
        have hc := h c k
        simp only [ne_eq, not_true_eq_false, hcopied, if_false, tableTotal, hstats,
          Option.elim_some] at hc
        by_contra hw
        rw [if_neg hw] at hc
        exact absurd hc (Nat.two_pow_pos 64).ne'
      · rintro ⟨hcopied, hw⟩ c key
        by_cases hk : k = key
        · subst k
          have hlt : tableTotal c key s.flows + c.gain pktLen < 2 ^ 64 := by
            unfold tableTotal
            cases hs : s.flows.lookup key with
            | none => simpa using c.gain_lt pktLen
            | some stats => exact hw stats hs c
          simp only [ne_eq, not_true_eq_false, hcopied, if_false, hlt, if_true]
        · simp [hk]
  | _ => simp [lost, PacketCounted]

/-- When no drain is in progress, nothing has been lost or counted twice exactly when every packet
of the run arrived outside the window between the copy and the removal of its flow. -/
theorem drain_conserved_iff_packetCounted (steps : List DrainStep) (s : DrainState)
    (hrun : exec drainStep DrainState.init steps = some s)
    (hroom : StatesSatisfy drainStep HasRoom DrainState.init steps) (hidle : s.phase = .idle) :
    Conserved steps s ↔ StepsSatisfy drainStep PacketCounted DrainState.init steps := by
  have hbalance (c : Counter) (key : FlowKey) : accounted c key s +
      runSum drainStep (lost c key) DrainState.init steps = (steps.map (passed c key)).sum := by
    have h := exec_balance (φ := balance c key) (balance_step c key) hroom hrun
    rw [runSum_of_labels (passed c key) hrun] at h
    simpa [balance, accounted, hidle, DrainPhase.copied, DrainPhase.snapshot, snapshotTotal,
      DrainState.init, tableTotal] using h
  have hzero : Conserved steps s ↔
      ∀ (c : Counter) (key : FlowKey), runSum drainStep (lost c key) DrainState.init steps = 0 := by
    refine forall_congr' fun c => forall_congr' fun key => ?_
    have := hbalance c key
    omega
  rw [hzero, ← StepsSatisfy.congr lost_eq_zero_iff, stepsSatisfy_forall]
  apply forall_congr'
  intro c
  rw [stepsSatisfy_forall]
  exact forall_congr' fun key => runSum_eq_zero_iff hrun

def racingFlow : FlowKey := ⟨0x0a000001, 0x0a000002, 40000, 443, 6⟩

def racingRun : List DrainStep :=
  [.packet racingFlow 60 0x10 1, .begin, .read racingFlow, .packet racingFlow 1500 0x10 2, .endRead,
    .remove, .send]

def racingEnd : DrainState := ⟨∅, .idle, [[(racingFlow, firstPacket 60 60 0x10 1)]]⟩

theorem drain_conserved_iff_racingRun : Conserved racingRun racingEnd ↔
    StepsSatisfy drainStep PacketCounted DrainState.init racingRun :=
  drain_conserved_iff_packetCounted racingRun racingEnd (by decide) (by decide) rfl

theorem drain_loses_racing_packet : ¬ ∀ (steps : List DrainStep) (s : DrainState),
    exec drainStep DrainState.init steps = some s →
    StatesSatisfy drainStep HasRoom DrainState.init steps → s.phase = .idle →
    Conserved steps s := by
  intro h
  have hpackets : accounted .packets racingFlow racingEnd =
      (racingRun.map (passed .packets racingFlow)).sum :=
    h racingRun racingEnd (by decide) (by decide) rfl .packets racingFlow
  exact absurd hpackets (by decide)

end Lanscope
