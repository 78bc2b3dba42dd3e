import Lanscope.Capture.Drain

/-!
# The ledger of the flow table

However packets and drains interleave, and whether or not the table fills up, each packet is
somewhere: in a snapshot, in the table, or lost for one of three reasons. The ledger adds up packets
or bytes over any set of flows.
-/

namespace Lanscope

open Framework

/-- What becomes of a packet at the flow table. -/
inductive Fate
  | kept
  /-- Its flow was copied and is about to be removed. -/
  | raced
  /-- Its flow is new and the table full. -/
  | refused
  /-- It makes a counter wrap around. -/
  | wrapped
  deriving DecidableEq

def fate (c : Counter) (s : DrainState) (key : FlowKey) (pktLen : UInt64) : Fate :=
  if key ∈ s.phase.copied then .raced
  else
    match s.flows.lookup key with
    | some stats => if c.of stats + c.gain pktLen < 2 ^ 64 then .kept else .wrapped
    | none => if s.flows.keys.card < flowsMaxEntries then .kept else .refused

section Ledger

variable (c : Counter) (P : FlowKey → Prop) [DecidablePred P]

def snapshotSum (snap : Snapshot) : Nat := ((snap.filter fun e => P e.1).map fun e => c.of e.2).sum

/-- The table entries that are not copied yet. -/
def uncopiedSum (copied : List FlowKey) (flows : FlowTable) : Nat :=
  flows.total fun key stats => if P key ∧ key ∉ copied then c.of stats else 0

/-- What the snapshots sent, the one in progress and the rest of the table hold. -/
def held (s : DrainState) : Nat :=
  (s.sent.map (snapshotSum c P)).sum + snapshotSum c P s.phase.snapshot +
    uncopiedSum c P s.phase.copied s.flows

def gained : DrainStep → Nat
  | .packet key pktLen _ _ => if P key then c.gain pktLen else 0
  | _ => 0

def lostTo (cause : Fate) (s : DrainState) : DrainStep → Nat
  | .packet key pktLen _ _ => if P key ∧ fate c s key pktLen = cause then c.gain pktLen else 0
  | _ => 0

def wraps (s : DrainState) : DrainStep → Nat
  | .packet key pktLen _ _ => if P key ∧ fate c s key pktLen = .wrapped then 1 else 0
  | _ => 0

/-! ## The table -/

/-- What a packet of the given size costs the ledger. -/
private def Fate.cost (gain : Nat) : Fate → Nat
  | .kept => 0
  | .raced | .refused => gain
  | .wrapped => 2 ^ 64

/-- What `update_flow` does to the table. -/
theorem updateFlow_cases (flows : FlowTable) (key : FlowKey) (pktLen : UInt64) (tcpFlags : UInt8)
    (now : UInt64) :
    (∃ stats len16, flows.lookup key = some stats ∧ updateFlow flows key pktLen tcpFlags now =
      flows.insert key (nextPacket stats pktLen len16 tcpFlags now)) ∨
    (∃ len16, flows.lookup key = none ∧ flows.keys.card < flowsMaxEntries ∧
      updateFlow flows key pktLen tcpFlags now =
        flows.insert key (firstPacket pktLen len16 tcpFlags now)) ∨
    flows.lookup key = none ∧ ¬ flows.keys.card < flowsMaxEntries ∧
      updateFlow flows key pktLen tcpFlags now = flows := by
  unfold updateFlow
  dsimp only
  split
  · next stats hknown => exact Or.inl ⟨stats, _, hknown, rfl⟩
  · next hnew =>
    by_cases hroom : flows.keys.card < flowsMaxEntries
    · exact Or.inr (Or.inl ⟨_, hnew, hroom, if_pos hroom⟩)
    · exact Or.inr (Or.inr ⟨hnew, hroom, if_neg hroom⟩)

theorem keys_updateFlow (flows : FlowTable) (key : FlowKey) (pktLen : UInt64) (tcpFlags : UInt8)
    (now : UInt64) : flows.keys ⊆ (updateFlow flows key pktLen tcpFlags now).keys := by
  rcases updateFlow_cases flows key pktLen tcpFlags now with
    ⟨_, _, _, h⟩ | ⟨_, _, _, h⟩ | ⟨_, _, h⟩
  · rw [h, HashMap.keys_insert]
    exact Finset.subset_insert _ _
  · rw [h, HashMap.keys_insert]
    exact Finset.subset_insert _ _
  · rw [h]

private theorem erase_updateFlow (flows : FlowTable) (key : FlowKey) (pktLen : UInt64)
    (tcpFlags : UInt8) (now : UInt64) :
    (updateFlow flows key pktLen tcpFlags now).erase key = flows.erase key := by
  have herase (stats : FlowStats) : (flows.insert key stats).erase key = flows.erase key := by
    apply Finmap.ext_lookup
    intro k
    rw [HashMap.lookup_erase_eq, HashMap.lookup_erase_eq, HashMap.lookup_insert_eq]
    split_ifs <;> rfl
  rcases updateFlow_cases flows key pktLen tcpFlags now with
    ⟨_, _, _, h⟩ | ⟨_, _, _, h⟩ | ⟨_, _, h⟩
  · rw [h, herase]
  · rw [h, herase]
  · rw [h]

/-- The entry of a flow that is not copied gains the packet, less what its fate costs. -/
private theorem tableTotal_update (s : DrainState) {key : FlowKey} (hnew : key ∉ s.phase.copied)
    (pktLen : UInt64) (tcpFlags : UInt8) (now : UInt64) :
    tableTotal c key (updateFlow s.flows key pktLen tcpFlags now) +
        (fate c s key pktLen).cost (c.gain pktLen) =
      tableTotal c key s.flows + c.gain pktLen := by
  have hgain := c.gain_lt pktLen
  unfold tableTotal fate
  rw [if_neg hnew]
  rcases updateFlow_cases s.flows key pktLen tcpFlags now with
    ⟨stats, _, hknown, h⟩ | ⟨_, hunknown, hroom, h⟩ | ⟨hunknown, hroom, h⟩
  · have hold := c.of_lt stats
    simp only [h, hknown, HashMap.lookup_insert_eq, if_true, Option.elim_some,
      Counter.of_nextPacket]
    split_ifs with hwrap
    · rw [Nat.mod_eq_of_lt hwrap, Fate.cost, Nat.add_zero]
    · rw [Fate.cost]
      omega
  · simp only [h, hunknown, hroom, HashMap.lookup_insert_eq, if_true, Option.elim_some,
      Option.elim_none, Counter.of_firstPacket, Fate.cost, Nat.add_zero, Nat.zero_add]
  · simp only [h, hunknown, hroom, if_false, Option.elim_none, Fate.cost]

theorem card_updateFlow (flows : FlowTable) (key : FlowKey) (pktLen : UInt64) (tcpFlags : UInt8)
    (now : UInt64) (hcard : flows.keys.card ≤ flowsMaxEntries) :
    (updateFlow flows key pktLen tcpFlags now).keys.card ≤ flowsMaxEntries := by
  rcases updateFlow_cases flows key pktLen tcpFlags now with
    ⟨_, _, hknown, h⟩ | ⟨_, _, hroom, h⟩ | ⟨_, _, h⟩
  · have hmem : key ∈ flows.keys := Finmap.mem_keys.mpr (Finmap.mem_of_lookup_eq_some hknown)
    rw [h, HashMap.keys_insert, Finset.insert_eq_of_mem hmem]
    exact hcard
  · rw [h, HashMap.keys_insert]
    exact (Finset.card_insert_le _ _).trans hroom
  · rw [h]
    exact hcard

/-- One entry of the table apart from the others. -/
private theorem uncopiedSum_apart (copied : List FlowKey) (flows : FlowTable) (key : FlowKey) :
    uncopiedSum c P copied flows = uncopiedSum c P copied (flows.erase key) +
      if P key ∧ key ∉ copied then tableTotal c key flows else 0 := by
  have hapart := HashMap.total_erase
    (fun k stats => if P k ∧ k ∉ copied then c.of stats else 0) flows key
  rw [uncopiedSum, uncopiedSum, ← hapart, tableTotal]
  cases flows.lookup key with
  | none => simp
  | some stats => rfl

/-- Keys that are gone from the table may count as copied or not. -/
private theorem uncopiedSum_erase {copied copied' : List FlowKey} {key : FlowKey}
    (h : ∀ k, k ≠ key → (k ∈ copied ↔ k ∈ copied')) (flows : FlowTable) :
    uncopiedSum c P copied (flows.erase key) = uncopiedSum c P copied' (flows.erase key) := by
  apply HashMap.total_congr
  intro k stats hk
  rw [HashMap.lookup_erase_eq] at hk
  split_ifs at hk with hne
  simp only [h k hne]

/-! ## One step -/

theorem snapshotSum_concat (snap : Snapshot) (key : FlowKey) (stats : FlowStats) :
    snapshotSum c P (snap ++ [(key, stats)]) =
      snapshotSum c P snap + if P key then c.of stats else 0 := by
  by_cases h : P key <;> simp [snapshotSum, h]

private theorem held_packet (s : DrainState) (key : FlowKey) (pktLen : UInt64) (tcpFlags : UInt8)
    (now : UInt64) :
    held c P { s with flows := updateFlow s.flows key pktLen tcpFlags now } +
        (if P key then (fate c s key pktLen).cost (c.gain pktLen) else 0) =
      held c P s + if P key then c.gain pktLen else 0 := by
  have hafter := uncopiedSum_apart c P s.phase.copied
    (updateFlow s.flows key pktLen tcpFlags now) key
  have hbefore := uncopiedSum_apart c P s.phase.copied s.flows key
  rw [erase_updateFlow] at hafter
  simp only [held]
  by_cases hcopied : key ∈ s.phase.copied
  · have hraced : fate c s key pktLen = .raced := if_pos hcopied
    simp only [hcopied, not_true_eq_false, and_false, if_false] at hafter hbefore
    simp only [hraced, Fate.cost]
    omega
  · have hentry := tableTotal_update c s hcopied pktLen tcpFlags now
    simp only [hcopied, not_false_eq_true, and_true] at hafter hbefore
    split_ifs at hafter hbefore ⊢ <;> omega

/-- What an access of the drain takes out of the table it puts into the snapshot. -/
private theorem held_drain {s t : DrainState} {step : DrainStep} (h : DrainAccess s step t) :
    held c P t = held c P s := by
  cases h with
  | begin => rfl
  | @read flows key stats unread out sent hkey hnew =>
      have hbefore := uncopiedSum_apart c P (out.map Prod.fst) flows key
      have hafter := uncopiedSum_apart c P ((out ++ [(key, stats)]).map Prod.fst) flows key
      have hsame : uncopiedSum c P ((out ++ [(key, stats)]).map Prod.fst) (flows.erase key) =
          uncopiedSum c P (out.map Prod.fst) (flows.erase key) :=
        uncopiedSum_erase c P (fun k hk => by simp [hk]) flows
      rw [tableTotal, hkey, Option.elim_some] at hbefore
      simp only [List.map_append, List.map_cons, List.map_nil, List.mem_append, List.mem_singleton,
        or_true, not_true_eq_false, and_false, if_false] at hafter hsame
      simp only [hnew, not_false_eq_true, and_true] at hbefore
      simp only [held, DrainPhase.snapshot, DrainPhase.copied, snapshotSum_concat, List.map_append,
        List.map_cons, List.map_nil]
      omega
  | endEmpty => rfl
  | endRead _ => rfl
  | @remove flows key todo out sent =>
      have hbefore := uncopiedSum_apart c P (key :: todo) flows key
      have hsame : uncopiedSum c P (key :: todo) (flows.erase key) =
          uncopiedSum c P todo (flows.erase key) :=
        uncopiedSum_erase c P (fun k hk => by simp [hk]) flows
      simp only [List.mem_cons, true_or, not_true_eq_false, and_false, if_false] at hbefore
      simp only [held, DrainPhase.snapshot, DrainPhase.copied]
      omega
  | send => simp [held, DrainPhase.snapshot, DrainPhase.copied, snapshotSum]

private theorem held_step (s : DrainState) (step : DrainStep) (t : DrainState)
    (h : drainStep s step = some t) :
    held c P t + (lostTo c P .raced s step + lostTo c P .refused s step +
      2 ^ 64 * wraps c P s step) = held c P s + gained c P step := by
  cases step with
  | packet key pktLen tcpFlags now =>
      obtain rfl := Option.some.inj h
      have hone := held_packet c P s key pktLen tcpFlags now
      simp only [lostTo, wraps, gained]
      by_cases hP : P key
      · cases hfate : fate c s key pktLen <;> simp [hP, hfate, Fate.cost] at hone ⊢ <;> omega
      · simpa [hP] using hone
  | _ =>
      rw [held_drain c P (DrainAccess.of_drainStep (by simp) h)]
      rfl

private theorem card_drain {s t : DrainState} {step : DrainStep} (h : DrainAccess s step t) :
    t.flows.keys.card ≤ s.flows.keys.card := by
  cases h with
  | remove =>
      rw [Finmap.keys_erase]
      exact Finset.card_le_card (Finset.erase_subset _ _)
  | begin | read _ _ | endEmpty | endRead _ | send => rfl

private theorem card_step (s : DrainState) (step : DrainStep) (t : DrainState)
    (hs : s.flows.keys.card ≤ flowsMaxEntries) (h : drainStep s step = some t) :
    t.flows.keys.card ≤ flowsMaxEntries := by
  cases step with
  | packet key pktLen tcpFlags now =>
      obtain rfl := Option.some.inj h
      exact card_updateFlow s.flows key pktLen tcpFlags now hs
  | _ => exact (card_drain (DrainAccess.of_drainStep (by simp) h)).trans hs

theorem held_exec {steps : List DrainStep} {t : DrainState}
    (hrun : exec drainStep DrainState.init steps = some t) :
    held c P t + runSum drainStep (lostTo c P .raced) DrainState.init steps +
        runSum drainStep (lostTo c P .refused) DrainState.init steps +
        2 ^ 64 * runSum drainStep (wraps c P) DrainState.init steps =
      (steps.map (gained c P)).sum := by
  have h := exec_ledger (held_step c P) hrun
  rw [runSum_of_labels (gained c P) hrun, runSum_add, runSum_add, runSum_mul] at h
  have hinit : held c P DrainState.init = 0 := rfl
  omega

theorem card_exec {steps : List DrainStep} {t : DrainState}
    (hrun : exec drainStep DrainState.init steps = some t) :
    t.flows.keys.card ≤ flowsMaxEntries :=
  exec_invariant card_step (Nat.zero_le _) hrun

/-- In every run, with the table full or not and in whatever phase the drain is, what the snapshots
and the table hold of a set of flows, what raced with a removal, what a full table refused, and
what wrapped around add up to what arrived. -/
theorem drain_ledger (steps : List DrainStep) (t : DrainState)
    (hrun : exec drainStep DrainState.init steps = some t) :
    held c P t + runSum drainStep (lostTo c P .raced) DrainState.init steps +
        runSum drainStep (lostTo c P .refused) DrainState.init steps +
        2 ^ 64 * runSum drainStep (wraps c P) DrainState.init steps =
      (steps.map (gained c P)).sum ∧
    t.flows.keys.card ≤ flowsMaxEntries :=
  ⟨held_exec c P hrun, card_exec hrun⟩

end Ledger

theorem drain_ledger_racingRun :
    held .packets (fun _ => True) racingEnd +
        runSum drainStep (lostTo .packets (fun _ => True) .raced) DrainState.init racingRun +
        runSum drainStep (lostTo .packets (fun _ => True) .refused) DrainState.init racingRun +
        2 ^ 64 * runSum drainStep (wraps .packets fun _ => True) DrainState.init racingRun = 2 :=
  (drain_ledger .packets (fun _ => True) racingRun racingEnd (by decide)).1

/-! ## Flows -/

/-- The flow is in a snapshot sent after the first so many, in the one in progress, or in the table. -/
structure DrainState.Tracks (s : DrainState) (since : Nat) (key : FlowKey) : Prop where
  sent_since : since ≤ s.sent.length
  somewhere : (∃ snap ∈ s.sent.drop since, key ∈ snap.map Prod.fst) ∨
    key ∈ s.phase.snapshot.map Prod.fst ∨ key ∈ s.flows.keys

theorem mem_keys_updateFlow {flows : FlowTable} {key : FlowKey}
    (h : key ∈ flows.keys ∨ flows.keys.card < flowsMaxEntries) (pktLen : UInt64)
    (tcpFlags : UInt8) (now : UInt64) : key ∈ (updateFlow flows key pktLen tcpFlags now).keys := by
  rcases updateFlow_cases flows key pktLen tcpFlags now with
    ⟨_, _, _, hupdate⟩ | ⟨_, _, _, hupdate⟩ | ⟨hnew, hfull, _⟩
  · rw [hupdate, HashMap.keys_insert]
    exact Finset.mem_insert_self _ _
  · rw [hupdate, HashMap.keys_insert]
    exact Finset.mem_insert_self _ _
  · have hknown := h.resolve_right hfull
    rw [Finmap.mem_keys] at hknown
    exact absurd (Finmap.lookup_eq_none.mp hnew) (not_not.mpr hknown)

private theorem copied_drain {s t : DrainState} {step : DrainStep}
    (hs : s.phase.copied ⊆ s.phase.snapshot.map Prod.fst) (h : DrainAccess s step t) :
    t.phase.copied ⊆ t.phase.snapshot.map Prod.fst := by
  cases h with
  | begin | endEmpty | send => exact List.nil_subset _
  | read | endRead => exact List.Subset.refl _
  | remove => exact List.subset_of_cons_subset hs

/-- What the drain is about to remove it has copied. -/
theorem copied_step (s : DrainState) (step : DrainStep) (t : DrainState)
    (hs : s.phase.copied ⊆ s.phase.snapshot.map Prod.fst) (h : drainStep s step = some t) :
    t.phase.copied ⊆ t.phase.snapshot.map Prod.fst := by
  cases step with
  | packet key pktLen tcpFlags now =>
      obtain rfl := Option.some.inj h
      exact hs
  | _ => exact copied_drain hs (DrainAccess.of_drainStep (by simp) h)

private theorem tracks_drain {s t : DrainState} {step : DrainStep} {since : Nat} {key : FlowKey}
    (hs : s.phase.copied ⊆ s.phase.snapshot.map Prod.fst) (htracks : s.Tracks since key)
    (h : DrainAccess s step t) : t.Tracks since key := by
  obtain ⟨hsince, htracks⟩ := htracks
  cases h with
  | begin | endEmpty | endRead => exact ⟨hsince, htracks⟩
  | read =>
      refine ⟨hsince, htracks.imp_right (Or.imp_left fun hkey => ?_)⟩
      simp only [DrainPhase.snapshot, List.map_append] at hkey ⊢
      exact List.mem_append_left _ hkey
  | @remove flows k todo out sent =>
      refine ⟨hsince, htracks.imp_right fun hkey => ?_⟩
      by_cases heq : key = k
      · subst k
        have hcopied : key ∈ out.map Prod.fst := hs List.mem_cons_self
        exact Or.inl hcopied
      · refine hkey.imp_right fun hkey => ?_
        rw [Finmap.keys_erase]
        exact Finset.mem_erase.mpr ⟨heq, hkey⟩
  | @send flows out sent =>
      refine ⟨hsince.trans (List.length_append ▸ Nat.le_add_right _ _), ?_⟩
      dsimp only
      rw [List.drop_append_of_le_length hsince]
      rcases htracks with ⟨snap, hsnap, hkey⟩ | hkey | hkey
      · exact Or.inl ⟨snap, List.mem_append_left _ hsnap, hkey⟩
      · exact Or.inl ⟨out, by simp, hkey⟩
      · exact Or.inr (Or.inr hkey)

/-- A flow that entered the table leaves it through a snapshot only. -/
theorem tracks_step {s t : DrainState} {step : DrainStep} {since : Nat} {key : FlowKey}
    (hs : s.phase.copied ⊆ s.phase.snapshot.map Prod.fst) (htracks : s.Tracks since key)
    (h : drainStep s step = some t) : t.Tracks since key := by
  cases step with
  | packet k pktLen tcpFlags now =>
      obtain rfl := Option.some.inj h
      exact ⟨htracks.sent_since, htracks.somewhere.imp_right (Or.imp_right fun hkey =>
        keys_updateFlow s.flows k _ _ _ hkey)⟩
  | _ => exact tracks_drain hs htracks (DrainAccess.of_drainStep (by simp) h)

end Lanscope
