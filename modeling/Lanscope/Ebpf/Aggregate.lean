import Lanscope.Capture.Drain
import Lanscope.Features

/-!
# Flow records as aggregates

What a record of the flow table says about the packets counted into it, over any interleaving of
flows and, between the drains, over the packets since its flow was last removed.
-/

namespace Lanscope

open Framework

/-- One call of `update_flow`. The total-length field of the IP header has 16 bits. -/
structure Packet where
  key : FlowKey
  len : UInt16
  tcpFlags : UInt8
  now : UInt64
  deriving DecidableEq

def Packet.count (flows : FlowTable) (p : Packet) : FlowTable :=
  updateFlow flows p.key p.len.toUInt64 p.tcpFlags p.now

def ofFlow (key : FlowKey) (ps : List Packet) : List Packet := ps.filter fun p => p.key = key

def totalLen (ps : List Packet) : Nat := (ps.map fun p => p.len.toNat).sum

def flagCount (flag : UInt8) (ps : List Packet) : Nat := ps.countP fun p => p.tcpFlags &&& flag ≠ 0

def TimeOrdered (ps : List Packet) : Prop := ps.Pairwise fun p q => p.now ≤ q.now

instance : DecidablePred TimeOrdered := fun ps => inferInstanceAs (Decidable (ps.Pairwise _))

/-- The record says exactly what the packets do, up to the width of its counters. -/
structure IsAggregate (ps : List Packet) (stats : FlowStats) : Prop where
  packets : stats.packets.toNat = ps.length % 2 ^ 64
  bytes : stats.bytes.toNat = totalLen ps % 2 ^ 64
  firstSeenNs : ps.head?.map Packet.now = some stats.firstSeenNs
  lastSeenNs : ps.getLast?.map Packet.now = some stats.lastSeenNs
  syn : stats.syn.toNat = flagCount 0x02 ps % 2 ^ 32
  fin : stats.fin.toNat = flagCount 0x01 ps % 2 ^ 32
  rst : stats.rst.toNat = flagCount 0x04 ps % 2 ^ 32
  ack : stats.ack.toNat = flagCount 0x10 ps % 2 ^ 32
  minLen : IsLeast {n | ∃ p ∈ ps, p.len.toNat = n} stats.minLen.toNat
  maxLen : IsGreatest {n | ∃ p ∈ ps, p.len.toNat = n} stats.maxLen.toNat

namespace IsAggregate

variable {ps : List Packet} {stats : FlowStats}

theorem ne_nil (h : IsAggregate ps stats) : ps ≠ [] := by
  rintro rfl
  have hfirst := h.firstSeenNs
  simp at hfirst

/-- The clock of the first packet is not past the clock of the last one. -/
theorem firstSeenNs_le (h : IsAggregate ps stats) (htime : TimeOrdered ps) :
    stats.firstSeenNs ≤ stats.lastSeenNs := by
  have hfirst := h.firstSeenNs
  have hlast := h.lastSeenNs
  cases ps with
  | nil => exact absurd rfl h.ne_nil
  | cons p ps =>
      simp only [List.getLast?_eq_some_getLast (List.cons_ne_nil p ps), Option.map_some,
        Option.some.injEq] at hlast
      simp only [List.head?_cons, Option.map_some, Option.some.injEq] at hfirst
      rw [← hfirst, ← hlast]
      cases List.mem_cons.mp (List.getLast_mem (List.cons_ne_nil p ps)) with
      | inl heq =>
          rw [heq]
          exact UInt64.le_refl _
      | inr hmem => exact (List.pairwise_cons.mp htime).1 _ hmem

/-- While the counters have not wrapped, the mean length lies between the extremes. -/
theorem mean_bounds (h : IsAggregate ps stats) (hpackets : ps.length < 2 ^ 64)
    (hbytes : totalLen ps < 2 ^ 64) : 1 ≤ stats.packets ∧
      (stats.minLen.toNat : ℚ) ≤ stats.meanPacketLen ∧
      stats.meanPacketLen ≤ (stats.maxLen.toNat : ℚ) := by
  have hcount : stats.packets.toNat = ps.length := h.packets.trans (Nat.mod_eq_of_lt hpackets)
  have htotal : stats.bytes.toNat = totalLen ps := h.bytes.trans (Nat.mod_eq_of_lt hbytes)
  have hpos : 0 < ps.length := List.length_pos_iff.mpr h.ne_nil
  have hone : 1 ≤ stats.packets := by
    rw [UInt64.le_iff_toNat_le, hcount]
    exact hpos
  have hne : stats.packets ≠ 0 := by
    intro hzero
    rw [hzero] at hcount
    exact absurd hcount hpos.ne
  have hlow : ps.length * stats.minLen.toNat ≤ totalLen ps := by
    have := List.card_nsmul_le_sum (ps.map fun p => p.len.toNat) stats.minLen.toNat
      (by simpa using fun p hp => h.minLen.2 ⟨p, hp, rfl⟩)
    simpa [totalLen] using this
  have hhigh : totalLen ps ≤ ps.length * stats.maxLen.toNat := by
    have := List.sum_le_card_nsmul (ps.map fun p => p.len.toNat) stats.maxLen.toNat
      (by simpa using fun p hp => h.maxLen.2 ⟨p, hp, rfl⟩)
    simpa [totalLen] using this
  have hlen : (0 : ℚ) < ps.length := by exact_mod_cast hpos
  rw [FlowStats.meanPacketLen, if_neg hne, hcount, htotal]
  refine ⟨hone, ?_, ?_⟩
  · rw [le_div_iff₀ hlen, mul_comm]
    exact_mod_cast hlow
  · rw [div_le_iff₀ hlen, mul_comm]
    exact_mod_cast hhigh

end IsAggregate

/-! ## One packet -/

private theorem len16_eq (len : UInt16) :
    (if len.toUInt64 > 65535 then 65535 else len.toUInt64.toUInt16) = len := by
  have hlt := len.toNat_lt
  have hsmall : ¬ len.toUInt64 > 65535 := by
    rw [gt_iff_lt, UInt64.lt_iff_toNat_lt, UInt16.toNat_toUInt64]
    exact not_lt.mpr (Nat.le_of_lt_succ hlt)
  rw [if_neg hsmall]
  exact UInt16.toUInt16_toUInt64 len

theorem lookup_count (flows : FlowTable) (p : Packet) (key : FlowKey) :
    (p.count flows).lookup key = if key = p.key then
      match flows.lookup p.key with
      | some stats => some (nextPacket stats p.len.toUInt64 p.len p.tcpFlags p.now)
      | none =>
        if flows.keys.card < flowsMaxEntries then
          some (firstPacket p.len.toUInt64 p.len p.tcpFlags p.now)
        else none
    else flows.lookup key := by
  unfold Packet.count updateFlow
  rw [len16_eq]
  cases hk : flows.lookup p.key with
  | some stats => exact HashMap.lookup_insert_eq _ _ _ _
  | none =>
      by_cases hroom : flows.keys.card < flowsMaxEntries
      · simp only [hroom, if_true, HashMap.lookup_insert_eq]
      · by_cases h : key = p.key
        · subst key
          simp only [hroom, if_true, if_false, hk]
        · simp only [hroom, h, if_false]

/-- What an entry of the table can be after a packet. -/
private theorem lookup_count_cases {flows : FlowTable} {p : Packet} {key : FlowKey}
    {stats : FlowStats} (h : (p.count flows).lookup key = some stats) :
    (key ≠ p.key ∧ flows.lookup key = some stats) ∨
    (key = p.key ∧ ∃ old, flows.lookup key = some old ∧
      stats = nextPacket old p.len.toUInt64 p.len p.tcpFlags p.now) ∨
    (key = p.key ∧ flows.lookup key = none ∧
      stats = firstPacket p.len.toUInt64 p.len p.tcpFlags p.now) := by
  rw [lookup_count] at h
  by_cases hkey : key = p.key
  · subst key
    rw [if_pos rfl] at h
    cases hk : flows.lookup p.key with
    | some old =>
        rw [hk] at h
        exact Or.inr (Or.inl ⟨rfl, old, rfl, (Option.some.inj h).symm⟩)
    | none =>
        rw [hk] at h
        obtain ⟨_, hfirst⟩ := Option.ite_none_right_eq_some.mp h
        exact Or.inr (Or.inr ⟨rfl, rfl, (Option.some.inj hfirst).symm⟩)
  · rw [if_neg hkey] at h
    exact Or.inl ⟨hkey, h⟩

def bump (tcpFlags flag : UInt8) (count : UInt32) : UInt32 :=
  if tcpFlags &&& flag ≠ 0 then count + 1 else count

theorem accumulateFlags_eq (stats : FlowStats) (tcpFlags : UInt8) :
    accumulateFlags stats tcpFlags =
      { stats with
        syn := bump tcpFlags 0x02 stats.syn
        fin := bump tcpFlags 0x01 stats.fin
        rst := bump tcpFlags 0x04 stats.rst
        ack := bump tcpFlags 0x10 stats.ack } := by
  unfold accumulateFlags bump
  dsimp only
  split_ifs <;> rfl

private theorem bump_step (flag : UInt8) (ps : List Packet) (p : Packet) {count : UInt32}
    (h : count.toNat = flagCount flag ps % 2 ^ 32) :
    (bump p.tcpFlags flag count).toNat = flagCount flag (ps ++ [p]) % 2 ^ 32 := by
  unfold flagCount at h ⊢
  unfold bump
  rw [List.countP_append, List.countP_singleton]
  by_cases hf : p.tcpFlags &&& flag ≠ 0
  · rw [if_pos hf, if_pos (decide_eq_true hf), UInt32.toNat_add, h]
    exact Nat.mod_add_mod _ _ _
  · rw [if_neg hf, if_neg (by simpa using hf)]
    exact h

private theorem lens_append (ps : List Packet) (p : Packet) :
    {n | ∃ q ∈ ps ++ [p], q.len.toNat = n} =
      insert p.len.toNat {n | ∃ q ∈ ps, q.len.toNat = n} := by
  ext n
  simp only [List.mem_append, List.mem_singleton, or_and_right, exists_or, exists_eq_left,
    Set.mem_ofPred_eq, Set.mem_insert_iff, eq_comm (a := n)]
  exact or_comm

private theorem toNat_smaller (a b : UInt16) :
    (if a < b then a else b).toNat = min a.toNat b.toNat := by
  simp only [UInt16.lt_iff_toNat_lt]
  split_ifs <;> omega

private theorem toNat_larger (a b : UInt16) :
    (if a > b then a else b).toNat = max a.toNat b.toNat := by
  simp only [gt_iff_lt, UInt16.lt_iff_toNat_lt]
  split_ifs <;> omega

namespace IsAggregate

/-- The first packet of a flow and every later one leave the record an aggregate. -/
theorem first (p : Packet) :
    IsAggregate [p] (firstPacket p.len.toUInt64 p.len p.tcpFlags p.now) where
  packets := by simp [firstPacket, accumulateFlags_eq]
  bytes := by
    have := p.len.toNat_lt
    simp only [firstPacket, accumulateFlags_eq, totalLen, List.map_cons, List.map_nil,
      List.sum_cons, List.sum_nil, UInt16.toNat_toUInt64]
    omega
  firstSeenNs := by simp [firstPacket, accumulateFlags_eq]
  lastSeenNs := by simp [firstPacket, accumulateFlags_eq]
  syn := by
    rw [firstPacket, accumulateFlags_eq]
    exact bump_step 0x02 [] p rfl
  fin := by
    rw [firstPacket, accumulateFlags_eq]
    exact bump_step 0x01 [] p rfl
  rst := by
    rw [firstPacket, accumulateFlags_eq]
    exact bump_step 0x04 [] p rfl
  ack := by
    rw [firstPacket, accumulateFlags_eq]
    exact bump_step 0x10 [] p rfl
  minLen := by simp [firstPacket, accumulateFlags_eq, IsLeast, lowerBounds]
  maxLen := by simp [firstPacket, accumulateFlags_eq, IsGreatest, upperBounds]

theorem next {ps : List Packet} {stats : FlowStats} (h : IsAggregate ps stats) (p : Packet) :
    IsAggregate (ps ++ [p]) (nextPacket stats p.len.toUInt64 p.len p.tcpFlags p.now) := by
  rw [nextPacket, accumulateFlags_eq]
  exact {
    packets := by
      simp only [UInt64.toNat_add, h.packets, List.length_append, List.length_singleton]
      exact Nat.mod_add_mod _ _ _
    bytes := by
      simp only [UInt64.toNat_add, h.bytes, UInt16.toNat_toUInt64, totalLen, List.map_append,
        List.sum_append, List.map_cons, List.map_nil, List.sum_cons, List.sum_nil, Nat.add_zero]
      exact Nat.mod_add_mod _ _ _
    firstSeenNs := by
      rw [List.head?_append_of_ne_nil _ h.ne_nil]
      exact h.firstSeenNs
    lastSeenNs := by simp
    syn := bump_step 0x02 ps p h.syn
    fin := bump_step 0x01 ps p h.fin
    rst := bump_step 0x04 ps p h.rst
    ack := bump_step 0x10 ps p h.ack
    minLen := by
      rw [lens_append, toNat_smaller]
      exact h.minLen.insert _
    maxLen := by
      rw [lens_append, toNat_larger]
      exact h.maxLen.insert _ }

end IsAggregate

/-! ## The table -/

/-- The keys of the table are the keys seen, each with the aggregate of its packets. -/
structure Accounts (ps : List Packet) (flows : FlowTable) : Prop where
  keys : flows.keys = (ps.map Packet.key).toFinset
  aggregate : ∀ key stats, flows.lookup key = some stats → IsAggregate (ofFlow key ps) stats

private theorem ofFlow_append (key : FlowKey) (ps : List Packet) (p : Packet) :
    ofFlow key (ps ++ [p]) = if p.key = key then ofFlow key ps ++ [p] else ofFlow key ps := by
  by_cases h : p.key = key <;> simp [ofFlow, h]

private theorem ofFlow_eq_nil {ps : List Packet} {flows : FlowTable} (h : Accounts ps flows)
    {key : FlowKey} (hkey : flows.lookup key = none) : ofFlow key ps = [] := by
  have hnot : key ∉ (ps.map Packet.key).toFinset := by
    rw [← h.keys, Finmap.mem_keys]
    exact Finmap.lookup_eq_none.mp hkey
  apply List.filter_eq_nil_iff.mpr
  intro p hp
  rw [decide_eq_true_eq]
  rintro rfl
  exact hnot (List.mem_toFinset.mpr (List.mem_map_of_mem hp))

private theorem keys_count {flows : FlowTable} {p : Packet}
    (hroom : p.key ∈ flows.keys ∨ flows.keys.card < flowsMaxEntries) :
    (p.count flows).keys = insert p.key flows.keys := by
  ext key
  rw [Finset.mem_insert, Finmap.mem_keys, Finmap.mem_keys, ← Finmap.lookup_isSome,
    ← Finmap.lookup_isSome, lookup_count]
  by_cases h : key = p.key
  · subst key
    cases hk : flows.lookup p.key with
    | some stats => simp
    | none =>
        have hnot : p.key ∉ flows.keys := by
          rw [Finmap.mem_keys]
          exact Finmap.lookup_eq_none.mp hk
        simp [hroom.resolve_left hnot]
  · simp [h]

theorem Accounts.count {ps : List Packet} {flows : FlowTable} (h : Accounts ps flows) (p : Packet)
    (hroom : p.key ∈ flows.keys ∨ flows.keys.card < flowsMaxEntries) :
    Accounts (ps ++ [p]) (p.count flows) where
  keys := by
    rw [keys_count hroom, h.keys]
    ext key
    simp
  aggregate := by
    intro key stats hlookup
    rw [ofFlow_append]
    rcases lookup_count_cases hlookup with ⟨hkey, hold⟩ | ⟨rfl, old, hold, rfl⟩ | ⟨rfl, hnew, rfl⟩
    · rw [if_neg (Ne.symm hkey)]
      exact h.aggregate key stats hold
    · rw [if_pos rfl]
      exact (h.aggregate p.key old hold).next p
    · rw [if_pos rfl, ofFlow_eq_nil h hnew]
      exact IsAggregate.first p

/-- While all keys fit, the table accounts for every packet, in any interleaving of the flows. -/
theorem accounts_foldl (ps : List Packet)
    (hkeys : (ps.map Packet.key).toFinset.card ≤ flowsMaxEntries) :
    Accounts ps (ps.foldl Packet.count ∅) := by
  induction ps using List.reverseRecOn with
  | nil => exact ⟨rfl, fun key stats h => by simp at h⟩
  | append_singleton ps p ih =>
      have hset : ((ps ++ [p]).map Packet.key).toFinset =
          insert p.key (ps.map Packet.key).toFinset := by
        ext key
        simp
      rw [hset] at hkeys
      have hps := ih ((Finset.card_le_card (Finset.subset_insert _ _)).trans hkeys)
      rw [List.foldl_append]
      apply hps.count p
      rw [hps.keys]
      by_cases hmem : p.key ∈ (ps.map Packet.key).toFinset
      · exact Or.inl hmem
      · rw [Finset.card_insert_of_notMem hmem] at hkeys
        exact Or.inr hkeys

/-! ## Between the drains -/

def DrainStep.packet? : DrainStep → Option Packet
  | .packet key pktLen tcpFlags now => some ⟨key, pktLen.toUInt16, tcpFlags, now⟩
  | _ => none

def arrivals (steps : List DrainStep) : List Packet := steps.filterMap DrainStep.packet?

/-- No packet is longer than the field its length is read from can say. -/
def LengthsFit (steps : List DrainStep) : Prop :=
  ∀ key pktLen tcpFlags now, DrainStep.packet key pktLen tcpFlags now ∈ steps → pktLen ≤ 65535

/-- The entries copied so far by all drains. -/
private def copies (s : DrainState) : Snapshot := s.sent.flatten ++ s.phase.snapshot

/-- An access of the drain adds no entry to the table, and copies only what the table holds. -/
private theorem DrainAccess.copied_from_table {s t : DrainState} {step : DrainStep}
    (h : DrainAccess s step t) :
    (∀ key stats, t.flows.lookup key = some stats → s.flows.lookup key = some stats) ∧
      ∀ e ∈ copies t, e ∈ copies s ∨ s.flows.lookup e.1 = some e.2 := by
  cases h with
  | begin | endEmpty | endRead _ => exact ⟨fun _ _ h => h, fun e he => Or.inl he⟩
  | read hk _ =>
      refine ⟨fun _ _ h => h, fun e he => ?_⟩
      rw [copies, DrainPhase.snapshot, ← List.append_assoc, List.mem_append,
        List.mem_singleton] at he
      cases he with
      | inl hold => exact Or.inl hold
      | inr hnew =>
          subst e
          exact Or.inr hk
  | remove =>
      refine ⟨fun key stats hkey => ?_, fun e he => Or.inl he⟩
      rw [HashMap.lookup_erase_eq] at hkey
      exact (Option.ite_none_left_eq_some.mp hkey).2
  | send =>
      refine ⟨fun _ _ h => h, fun e he => Or.inl ?_⟩
      simpa [copies, DrainPhase.snapshot] using he

/-- Every entry of the table is the aggregate of the latest packets of its key, and every copied
entry that of some consecutive ones. -/
private structure Segments (ps : List Packet) (s : DrainState) : Prop where
  table : ∀ key stats, s.flows.lookup key = some stats →
    ∃ seg, seg <:+ ofFlow key ps ∧ IsAggregate seg stats
  copied : ∀ e ∈ copies s, ∃ seg, seg <:+: ofFlow e.1 ps ∧ IsAggregate seg e.2

private theorem Segments.count {ps : List Packet} {s : DrainState} (h : Segments ps s)
    (p : Packet) : Segments (ps ++ [p]) { s with flows := p.count s.flows } where
  table := by
    intro key stats hlookup
    rw [ofFlow_append]
    rcases lookup_count_cases hlookup with ⟨hkey, hold⟩ | ⟨rfl, old, hold, rfl⟩ | ⟨rfl, hnew, rfl⟩
    · rw [if_neg (Ne.symm hkey)]
      exact h.table key stats hold
    · rw [if_pos rfl]
      obtain ⟨seg, ⟨before, hseg⟩, hagg⟩ := h.table p.key old hold
      exact ⟨seg ++ [p], ⟨before, by rw [← hseg, List.append_assoc]⟩, hagg.next p⟩
    · rw [if_pos rfl]
      exact ⟨[p], List.suffix_append _ _, IsAggregate.first p⟩
  copied := by
    intro e he
    obtain ⟨seg, hseg, hagg⟩ := h.copied e he
    refine ⟨seg, hseg.trans ?_, hagg⟩
    rw [ofFlow_append]
    split_ifs
    · exact (List.prefix_append _ _).isInfix
    · exact List.infix_refl _

private theorem segments_exec {steps : List DrainStep} {s : DrainState}
    (hrun : exec drainStep DrainState.init steps = some s) (hfit : LengthsFit steps) :
    Segments (arrivals steps) s := by
  revert hfit
  refine exec_history (I := fun as s => LengthsFit as → Segments (arrivals as) s) ?_ ?_ hrun
  · intro as s step t ih hstep hfit
    have hs := ih fun k l f n hmem => hfit k l f n (List.mem_append_left _ hmem)
    rw [arrivals, List.filterMap_append, ← arrivals]
    by_cases hpacket : ∃ k l f n, step = .packet k l f n
    · obtain ⟨k, l, f, n, rfl⟩ := hpacket
      obtain rfl := Option.some.inj hstep
      have hl : l.toUInt16.toUInt64 = l := by
        have hle := UInt64.le_iff_toNat_le.mp
          (hfit k l f n (List.mem_append_right _ (List.mem_singleton_self _)))
        rw [← UInt64.toNat_inj, UInt16.toNat_toUInt64, UInt64.toNat_toUInt16]
        exact Nat.mod_eq_of_lt (Nat.lt_succ_of_le hle)
      have hcount := hs.count ⟨k, l.toUInt16, f, n⟩
      rw [Packet.count, hl] at hcount
      exact hcount
    · have hother : ∀ k l f n, step ≠ .packet k l f n := fun k l f n h => hpacket ⟨k, l, f, n, h⟩
      have hnone : [step].filterMap DrainStep.packet? = [] := by
        cases step with
        | packet k l f n => exact absurd rfl (hother k l f n)
        | _ => rfl
      obtain ⟨htable, hcopies⟩ :=
        (DrainAccess.of_drainStep hother hstep).copied_from_table
      rw [hnone, List.append_nil]
      refine ⟨fun key stats h => hs.table key stats (htable key stats h), fun e he => ?_⟩
      cases hcopies e he with
      | inl hold => exact hs.copied e hold
      | inr hnew =>
          obtain ⟨seg, hseg, hagg⟩ := hs.table e.1 e.2 hnew
          exact ⟨seg, hseg.isInfix, hagg⟩
  · intro _
    exact ⟨fun key stats h => by simp [DrainState.init] at h, fun e he => by
      simp [copies, DrainState.init, DrainPhase.snapshot] at he⟩

/-! ## What userspace can rely on -/

/-- A record together with what userspace derives from it. -/
structure Describes (ps : List Packet) (stats : FlowStats) : Prop extends IsAggregate ps stats where
  ordered : stats.firstSeenNs ≤ stats.lastSeenNs
  mean : ps.length < 2 ^ 64 → totalLen ps < 2 ^ 64 → 1 ≤ stats.packets ∧
    (stats.minLen.toNat : ℚ) ≤ stats.meanPacketLen ∧
    stats.meanPacketLen ≤ (stats.maxLen.toNat : ℚ)

private theorem IsAggregate.describes {ps : List Packet} {stats : FlowStats}
    (h : IsAggregate ps stats) (htime : TimeOrdered ps) : Describes ps stats :=
  ⟨h, h.firstSeenNs_le htime, h.mean_bounds⟩

private theorem TimeOrdered.ofFlow {ps : List Packet} (h : TimeOrdered ps) (key : FlowKey) :
    TimeOrdered (ofFlow key ps) := List.Pairwise.sublist List.filter_sublist h

/-- From an empty table, any interleaving of flows that fit leaves each of them its exact record;
and whatever the drains interleaved with the packets, each record they send describes consecutive
packets of its flow. -/
theorem flows_describe :
    (∀ ps : List Packet, (ps.map Packet.key).toFinset.card ≤ flowsMaxEntries → TimeOrdered ps →
      (ps.foldl Packet.count ∅).keys = (ps.map Packet.key).toFinset ∧
      ∀ key stats, (ps.foldl Packet.count ∅).lookup key = some stats →
        Describes (ofFlow key ps) stats) ∧
    ∀ (steps : List DrainStep) (s : DrainState), exec drainStep DrainState.init steps = some s →
      LengthsFit steps → TimeOrdered (arrivals steps) →
      ∀ snap ∈ s.sent, ∀ e ∈ snap,
        ∃ seg, seg <:+: ofFlow e.1 (arrivals steps) ∧ Describes seg e.2 := by
  constructor
  · intro ps hkeys htime
    have h := accounts_foldl ps hkeys
    exact ⟨h.keys, fun key stats hk => (h.aggregate key stats hk).describes (htime.ofFlow key)⟩
  · intro steps s hrun hfit htime snap hsnap e he
    have hcopied : e ∈ copies s :=
      List.mem_append_left _ (List.mem_flatten_of_mem hsnap he)
    obtain ⟨seg, hseg, hagg⟩ := (segments_exec hrun hfit).copied e hcopied
    exact ⟨seg, hseg, hagg.describes ((htime.ofFlow e.1).sublist hseg.sublist)⟩

theorem flows_describe_racing :
    (∀ stats, ([⟨racingFlow, 60, 0x02, 1⟩, ⟨racingFlow, 1500, 0x10, 2⟩].foldl
        Packet.count ∅).lookup racingFlow = some stats →
      Describes [⟨racingFlow, 60, 0x02, 1⟩, ⟨racingFlow, 1500, 0x10, 2⟩] stats) ∧
    ∃ seg, seg <:+: ofFlow racingFlow (arrivals racingRun) ∧
      Describes seg (firstPacket 60 60 0x10 1) := by
  constructor
  · intro stats hstats
    exact (flows_describe.1 [⟨racingFlow, 60, 0x02, 1⟩, ⟨racingFlow, 1500, 0x10, 2⟩]
      (by decide) (by decide)).2 racingFlow stats hstats
  · refine flows_describe.2 racingRun racingEnd (by decide) ?_ (by decide) _
      (List.mem_singleton_self _) (racingFlow, _) (List.mem_singleton_self _)
    intro key pktLen tcpFlags now hmem
    simp only [racingRun, List.mem_cons, DrainStep.packet.injEq, reduceCtorEq, false_or,
      List.not_mem_nil, or_false] at hmem
    obtain ⟨_, rfl, _⟩ | ⟨_, rfl, _⟩ := hmem
    · decide
    · decide

private theorem lookup_replicate (p : Packet) {n : Nat} (hn : 0 < n) :
    ∃ stats, ((List.replicate n p).foldl Packet.count ∅).lookup p.key = some stats ∧
      stats.bytes.toNat = n * p.len.toNat % 2 ^ 64 := by
  have hkeys : ((List.replicate n p).map Packet.key).toFinset = {p.key} := by
    rw [List.map_replicate]
    exact List.toFinset_replicate_of_ne_zero hn.ne'
  have h := accounts_foldl (List.replicate n p) (by
    rw [hkeys, Finset.card_singleton]
    decide)
  have hmem : p.key ∈ ((List.replicate n p).foldl Packet.count ∅).keys := by
    rw [h.keys, hkeys]
    exact Finset.mem_singleton_self _
  rw [Finmap.mem_keys, ← Finmap.lookup_isSome] at hmem
  obtain ⟨stats, hstats⟩ := Option.isSome_iff_exists.mp hmem
  refine ⟨stats, hstats, ?_⟩
  rw [(h.aggregate _ _ hstats).bytes]
  simp [ofFlow, totalLen]

/-- The byte counter has 64 bits and wraps after 2^49 packets of full length. -/
theorem bytes_wrap : ¬ ∀ ps : List Packet, (ps.map Packet.key).toFinset.card ≤ flowsMaxEntries →
    TimeOrdered ps → ∀ key stats, (ps.foldl Packet.count ∅).lookup key = some stats →
      stats.packets.toNat = (ofFlow key ps).length ∧ stats.bytes.toNat = totalLen (ofFlow key ps) := by
  intro h
  have hexact (n : Nat) (hn : 0 < n) : n * 65535 % 2 ^ 64 = n * 65535 := by
    obtain ⟨stats, hstats, hbytes⟩ := lookup_replicate ⟨racingFlow, 65535, 0x10, 0⟩ hn
    have hkeys : ((List.replicate n (⟨racingFlow, 65535, 0x10, 0⟩ : Packet)).map
        Packet.key).toFinset.card ≤ flowsMaxEntries := by
      rw [List.map_replicate, List.toFinset_replicate_of_ne_zero hn.ne']
      decide
    have htime : TimeOrdered (List.replicate n ⟨racingFlow, 65535, 0x10, 0⟩) := by
      simp [TimeOrdered, List.pairwise_replicate]
    have htotal := (h _ hkeys htime _ _ hstats).2
    rw [hbytes] at htotal
    simpa [ofFlow, totalLen] using htotal
  exact absurd (hexact (2 ^ 49) (by norm_num)) (by norm_num)

end Lanscope
