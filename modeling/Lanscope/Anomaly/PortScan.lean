import Lanscope.Anomaly.Entries
import Lanscope.Framework.Tumbling

/-!
# Port scans

The entry of a source is a tumbling window over the ports it contacts, flagged once it is hit. What
bursts of contacts raise an alert, what an alert says, and how many a source can raise.
-/

namespace Lanscope

open Framework

/-- Timestamps do not decrease. -/
def Ordered (flows : List FlowArrival) : Prop := flows.Pairwise fun f g => f.now ≤ g.now

instance (flows : List FlowArrival) : Decidable (Ordered flows) :=
  inferInstanceAs (Decidable (flows.Pairwise _))

def portsOf (flows : List FlowArrival) : Finset UInt16 :=
  (flows.map fun f => f.key.dstPort).toFinset

def PortScanDetector.fresh (window : Int) (threshold : Nat) : PortScanDetector :=
  ⟨∅, window, threshold⟩

/-! ## Entries as windows -/

/-- The entry that a window stands for. -/
def flagged (n : Nat) (w : Tumbling.Window UInt16) : ScanState :=
  ⟨w.start, w.items, decide (n ≤ w.items.card)⟩

def FlowArrival.contact (f : FlowArrival) : Int × UInt16 := (f.now, f.key.dstPort)

def scanAlert (s : Ipv4Be) (n : Nat) (window : Int) (hit : Tumbling.Hit) : Alert :=
  portScanAlert s n window hit.time

private theorem countedEntry_flagged (window : Int) (n : Nat) (hn : 1 ≤ n)
    (w : Option (Tumbling.Window UInt16)) (f : FlowArrival) :
    let w' := Tumbling.opened window w f.now
    countedEntry window (w.map (flagged n)) f =
      ⟨w'.start, insert f.key.dstPort w'.items, decide (n ≤ w'.items.card)⟩ := by
  have hfresh : ScanState.mk f.now ∅ false = flagged n ⟨f.now, ∅⟩ := by
    have hempty : ¬ n ≤ (∅ : Finset UInt16).card := Nat.not_le.mpr hn
    simp only [flagged, hempty, decide_false]
  have hrolled : (if f.now - ((w.map (flagged n)).getD ⟨f.now, ∅, false⟩).windowStart > window
      then ScanState.mk f.now ∅ false else (w.map (flagged n)).getD ⟨f.now, ∅, false⟩) =
      flagged n (Tumbling.opened window w f.now) := by
    rw [hfresh]
    cases w with
    | none => exact ite_self _
    | some w => exact (apply_ite (flagged n) _ _ _).symm
  simp only [countedEntry, hrolled]
  rfl

/-- The contact that completes the threshold finds the flag down, and every later one finds it
up. -/
private theorem raise_flagged (window now : Int) (threshold : Nat) (s : Ipv4Be) (port : UInt16)
    (w : Tumbling.Window UInt16) :
    let n := max threshold 1
    let state : ScanState := ⟨w.start, insert port w.items, decide (n ≤ w.items.card)⟩
    (if state.ports.card ≥ threshold ∧ ¬ state.alerted then
      ({ state with alerted := true }, [portScanAlert s state.ports.card window now])
    else (state, [])) =
      (flagged n ⟨w.start, insert port w.items⟩,
        (if w.items.card < n ∧ n ≤ (insert port w.items).card then [⟨w.start, now⟩]
        else []).map (scanAlert s n window)) := by
  have hgrow : w.items.card ≤ (insert port w.items).card :=
    Finset.card_le_card (Finset.subset_insert _ _)
  have hone : (insert port w.items).card ≤ w.items.card + 1 := Finset.card_insert_le _ _
  have hpos : 0 < (insert port w.items).card := Finset.card_pos.mpr (Finset.insert_nonempty _ _)
  simp only [decide_eq_true_eq]
  by_cases hhit : w.items.card < max threshold 1 ∧ max threshold 1 ≤ (insert port w.items).card
  · have hraise : (insert port w.items).card ≥ threshold ∧ ¬ max threshold 1 ≤ w.items.card := by
      omega
    have hcard : (insert port w.items).card = max threshold 1 := by omega
    rw [if_pos hraise, if_pos hhit]
    simp [flagged, scanAlert, hcard]
  · have hquiet : ¬ ((insert port w.items).card ≥ threshold ∧
        ¬ max threshold 1 ≤ w.items.card) := by omega
    have hflag : max threshold 1 ≤ w.items.card ↔ max threshold 1 ≤ (insert port w.items).card := by
      omega
    rw [if_neg hquiet, if_neg hhit]
    simp [flagged, hflag]

/-- With an alert flag that is set exactly when the ports reach the threshold, a flow does to the
entry what a contact does to the window, and the alert is raised by the contact that hits it. -/
theorem entry_flagged (window : Int) (threshold : Nat) (w : Option (Tumbling.Window UInt16))
    (f : FlowArrival) :
    entry (scanEntry window threshold) (w.map (flagged (max threshold 1))) f =
      (Tumbling.step window (max threshold 1) w f.contact).map
        (Option.map (flagged (max threshold 1)))
        (List.map (scanAlert f.src (max threshold 1) window)) := by
  have hcounted := countedEntry_flagged window (max threshold 1) (le_max_right _ _) w f
  have hraise := raise_flagged window f.now threshold f.src f.key.dstPort
    (Tumbling.opened window w f.now)
  simp only [entry, scanEntry, hcounted]
  exact congrArg (fun r : ScanState × List Alert => (some r.1, r.2)) hraise

/-- What a fresh detector makes of the flows of a source. -/
theorem PortScanDetector.run_fresh (window : Int) (threshold : Nat) (flows : List FlowArrival)
    (s : Ipv4Be) :
    ((fresh window threshold).run flows).1.seen.lookup s =
      (Tumbling.run window (max threshold 1) ((flowsOf s flows).map FlowArrival.contact)).1.map
        (flagged (max threshold 1)) ∧
    ((fresh window threshold).run flows).2.filter (Alert.concerns s) =
      (Tumbling.run window (max threshold 1) ((flowsOf s flows).map FlowArrival.contact)).2.map
        (scanAlert s (max threshold 1) window) := by
  obtain ⟨hentry, halerts⟩ := (fresh window threshold).run_source flows s
  have hsim := foldEmit_simulation (f := entry (scanEntry window threshold))
    (g := Tumbling.step window (max threshold 1)) (i := FlowArrival.contact)
    (o := scanAlert s (max threshold 1) window)
    (e := Option.map (flagged (max threshold 1))) (l := flowsOf s flows)
    (fun w f hf => by
      have hsrc : f.src = s := by simpa using (List.mem_filter.mp hf).2
      rw [entry_flagged, hsrc]) none
  exact ⟨hentry.trans (congrArg Prod.fst hsim), halerts.trans (congrArg Prod.snd hsim)⟩

/-- The flows of a source as contacts. -/
def contactsOf (s : Ipv4Be) (flows : List FlowArrival) : List (Int × UInt16) :=
  (flowsOf s flows).map FlowArrival.contact

theorem Ordered.contacts {flows : List FlowArrival} (h : Ordered flows) (s : Ipv4Be) :
    Tumbling.Ordered (contactsOf s flows) :=
  List.pairwise_map.mpr (h.sublist List.filter_sublist)

theorem contactsOf_concat (flows : List FlowArrival) (f : FlowArrival) :
    contactsOf f.src (flows ++ [f]) = contactsOf f.src flows ++ [f.contact] := by
  simp [contactsOf, flowsOf]

/-- What a flow raises after others is what its contact hits after theirs. -/
theorem PortScanDetector.alerts_onFlow (window : Int) (threshold : Nat) (flows : List FlowArrival)
    (f : FlowArrival) :
    (((fresh window threshold).run flows).1.onFlow f.key f.now).2 =
      (Tumbling.step window (max threshold 1)
        (Tumbling.run window (max threshold 1) (contactsOf f.src flows)).1 f.contact).2.map
        (scanAlert f.src (max threshold 1) window) := by
  have hentry := (run_fresh window threshold flows f.src).1
  have hflow := PortScanDetector.onFlow_eq ((fresh window threshold).run flows).1 f
  have hstep := entry_flagged window threshold
    (Tumbling.run window (max threshold 1) (contactsOf f.src flows)).1 f
  have hparams : ((fresh window threshold).run flows).1.windowSecs = window ∧
      ((fresh window threshold).run flows).1.threshold = threshold := by
    rw [run_eq]
    exact ⟨rfl, rfl⟩
  rw [hflow, hparams.1, hparams.2]
  simp only [keyed, Prod.map, id, hentry]
  exact congrArg Prod.snd hstep

/-! ## Which bursts raise an alert -/

private theorem detects_burst {window : Int} {threshold : Nat} (hw : 0 ≤ window)
    (ht : 1 ≤ threshold) {flows burst : List FlowArrival} {last : FlowArrival} {start : Int}
    (hordered : Ordered (flows ++ [last])) (hburst : burst.Sublist flows)
    (htimes : ∀ f ∈ burst ++ [last], f.src = last.src ∧ start ≤ f.now ∧ f.now ≤ start + window)
    (hmany : 2 * threshold - 1 ≤ (portsOf (burst ++ [last])).card) :
    ∃ alert ∈ ((PortScanDetector.fresh window threshold).run (flows ++ [last])).2,
      alert.kind = portScanKind ∧ alert.concerns last.src ∧
        start - window ≤ alert.ts ∧ alert.ts ≤ last.now := by
  have hcontacts : burst.map FlowArrival.contact ⊆ contactsOf last.src flows := by
    intro e he
    obtain ⟨f, hf, rfl⟩ := List.mem_map.mp he
    refine List.mem_map_of_mem (List.mem_filter.mpr ⟨hburst.subset hf, ?_⟩)
    simpa using (htimes f (List.mem_append_left _ hf)).1
  have htimes' : ∀ e ∈ burst.map FlowArrival.contact ++ [last.contact],
      start ≤ e.1 ∧ e.1 ≤ start + window := by
    rw [← List.map_singleton, ← List.map_append]
    intro e he
    obtain ⟨f, hf, rfl⟩ := List.mem_map.mp he
    exact (htimes f hf).2
  have hitems : Tumbling.itemsOf (burst.map FlowArrival.contact ++ [last.contact]) =
      portsOf (burst ++ [last]) := by
    rw [← List.map_singleton, ← List.map_append, Tumbling.itemsOf, List.map_map]
    rfl
  have hordered' := hordered.contacts last.src
  rw [contactsOf_concat] at hordered'
  have hmax : max threshold 1 = threshold := Nat.max_eq_left ht
  obtain ⟨hit, hhit, hfrom, hto⟩ := Tumbling.exists_hit_of_burst hw (le_max_right threshold 1)
    hordered' hcontacts htimes' (by rwa [hitems, hmax])
  have halerts := (PortScanDetector.run_fresh window threshold (flows ++ [last]) last.src).2
  have hmem := List.mem_map_of_mem (f := scanAlert last.src (max threshold 1) window) hhit
  rw [← contactsOf_concat, contactsOf, ← halerts] at hmem
  obtain ⟨hraised, hconcerns⟩ := List.mem_filter.mp hmem
  exact ⟨_, hraised, rfl, hconcerns, hfrom, hto⟩

/-- A flow from the zero address that only makes contact with a port. -/
def probe (e : Int × UInt16) : FlowArrival := ⟨⟨0, 0, 0, e.2, 6⟩, {}, e.1⟩

private theorem contactsOf_probes (l : List (Int × UInt16)) : contactsOf 0 (l.map probe) = l := by
  have hall : flowsOf 0 (l.map probe) = l.map probe := by
    apply List.filter_eq_self.mpr
    intro f hf
    obtain ⟨e, _, rfl⟩ := List.mem_map.mp hf
    rfl
  rw [contactsOf, hall, List.map_map]
  exact List.map_id l

/-- Every alert of a run is about the source of one of its flows. -/
theorem PortScanDetector.concerns_of_mem_run (d : PortScanDetector) (flows : List FlowArrival) :
    ∀ alert ∈ (d.run flows).2, ∃ f ∈ flows, alert.concerns f.src := by
  have hrun := foldEmit_invariant
    (f := keyed FlowArrival.src (scanEntry d.windowSecs d.threshold)) (l := flows)
    (I := fun _ => True) (P := fun alert => ∃ f ∈ flows, alert.concerns f.src) (by
      intro seen f hf _
      refine ⟨trivial, fun alert halert => ⟨f, hf, ?_⟩⟩
      rw [concerns_scanEntry _ _ f.src _ f alert halert]
      exact decide_eq_true rfl) (s := d.seen) trivial
  rw [d.run_eq]
  exact hrun.2

private theorem run_probes (window : Int) (threshold : Nat) (l : List (Int × UInt16))
    (hquiet : (Tumbling.run window (max threshold 1) l).2 = []) :
    ((PortScanDetector.fresh window threshold).run (l.map probe)).2 = [] := by
  have halerts := (PortScanDetector.run_fresh window threshold (l.map probe) 0).2
  rw [← contactsOf, contactsOf_probes, hquiet, List.map_nil] at halerts
  apply List.eq_nil_iff_forall_not_mem.mpr
  intro alert halert
  obtain ⟨f, hf, hconcerns⟩ := PortScanDetector.concerns_of_mem_run _ _ alert halert
  obtain ⟨e, _, rfl⟩ := List.mem_map.mp hf
  exact List.filter_eq_nil_iff.mp halerts alert halert hconcerns

/-- The ports from a first one on. -/
def portRange (first count : Nat) : List UInt16 :=
  (List.range' first count).map UInt16.ofNat

private theorem card_portRange {first count : Nat} (h : first + count ≤ 65536) :
    (portRange first count).toFinset.card = count := by
  rw [List.toFinset_card_of_nodup, portRange, List.length_map, List.length_range']
  refine List.Nodup.map_on ?_ (List.nodup_range' 1)
  intro i hi j hj heq
  rw [List.mem_range'_1] at hi hj
  have hi' : i < 65536 := by omega
  have hj' : j < 65536 := by omega
  have hnat := congrArg UInt16.toNat heq
  rwa [UInt16.toNat_ofNat_of_lt' hi', UInt16.toNat_ofNat_of_lt' hj'] at hnat

private theorem portRange_append (count more : Nat) :
    portRange 0 count ++ portRange count more = portRange 0 (count + more) := by
  rw [portRange, portRange, portRange, ← List.map_append, ← List.range'_append_1, Nat.zero_add]

private theorem portsOf_probes_stamped (t t' : Int) (xs ys : List UInt16) :
    portsOf ((Tumbling.stamped t xs ++ Tumbling.stamped t' ys).map probe) =
      xs.toFinset ∪ ys.toFinset := by
  rw [portsOf, List.map_map, List.map_append, List.toFinset_append, Tumbling.stamped,
    Tumbling.stamped, List.map_map, List.map_map]
  have hport (t : Int) :
      ((fun f : FlowArrival => f.key.dstPort) ∘ probe) ∘ (fun x => (t, x)) = id := rfl
  rw [hport, hport, List.map_id, List.map_id]

private theorem card_ports_le (ports : Finset UInt16) : ports.card ≤ 65536 := by
  have hinj : Set.InjOn UInt16.toNat ports := fun _ _ _ _ h => UInt16.toNat_inj.mp h
  have hcard := Finset.card_le_card_of_injOn (t := Finset.range 65536) UInt16.toNat
    (fun p _ => Finset.mem_coe.mpr (Finset.mem_range.mpr p.toNat_lt)) hinj
  rwa [Finset.card_range] at hcard

/-- Half of the ports at the end of a window and the other half right after it. -/
def splitBurst (window : Int) (threshold : Nat) : List (Int × UInt16) :=
  Tumbling.stamped window (portRange 0 (threshold - 1)) ++
    Tumbling.stamped (window + 1) (portRange (threshold - 1) (threshold - 1))

/-- The burst after flows to its first half of the ports, which open the window. -/
def splitHistory (window : Int) (threshold : Nat) : List (Int × UInt16) :=
  Tumbling.stamped 0 (portRange 0 (threshold - 1)) ++ splitBurst window threshold

private theorem times_splitBurst {window : Int} {threshold : Nat} :
    ∀ e ∈ splitBurst window threshold, window ≤ e.1 ∧ e.1 ≤ window + 1 := by
  intro e he
  rcases List.mem_append.mp he with he | he
  · rw [Tumbling.mem_stamped he]
    omega
  · rw [Tumbling.mem_stamped he]
    omega

private theorem ordered_splitHistory {window : Int} (hw : 1 ≤ window) (threshold : Nat) :
    Ordered ((splitHistory window threshold).map probe) := by
  refine List.pairwise_map.mpr (Tumbling.ordered_stamped_append
    (Tumbling.ordered_stamped_append ?_ ?_) ?_)
  · exact List.pairwise_map.mpr (List.pairwise_of_forall fun _ _ => le_rfl)
  · intro e he
    rw [Tumbling.mem_stamped he]
    omega
  · intro e he
    have hwhen := times_splitBurst e he
    omega

private theorem card_portsOf_splitBurst (window : Int) {threshold : Nat}
    (hroom : 2 * threshold - 2 ≤ 65536) :
    (portsOf ((splitBurst window threshold).map probe)).card = 2 * threshold - 2 := by
  rw [splitBurst, portsOf_probes_stamped, ← List.toFinset_append, portRange_append, card_portRange]
  · omega
  · omega

private theorem quiet_splitHistory {window : Int} (hw : 1 ≤ window) {threshold : Nat}
    (ht : 1 < threshold) (hroom : 2 * threshold - 2 ≤ 65536) :
    ((PortScanDetector.fresh window threshold).run
      ((splitHistory window threshold).map probe)).2 = [] := by
  apply run_probes
  have hcard : ∀ first, first + (threshold - 1) ≤ 65536 →
      (portRange first (threshold - 1)).toFinset.card < max threshold 1 := by
    intro first hfirst
    rw [card_portRange hfirst]
    omega
  refine Tumbling.no_hit_across_roll (by omega) (hcard 0 (by omega))
    (hcard (threshold - 1) (by omega)) fun hnil => ?_
  have hlength : (portRange 0 (threshold - 1)).length = 0 := congrArg List.length hnil
  rw [portRange, List.length_map, List.length_range'] at hlength
  omega

private theorem undetected_burst {window : Int} {threshold : Nat} (hw : 1 ≤ window)
    (hroom : 2 * threshold - 2 ≤ 65536) :
    ∃ (flows burst : List FlowArrival) (s : Ipv4Be) (start : Int),
      Ordered flows ∧ burst.Sublist flows ∧
      (∀ f ∈ burst, f.src = s ∧ start ≤ f.now ∧ f.now ≤ start + window) ∧
      (portsOf burst).card = 2 * threshold - 2 ∧
      ((PortScanDetector.fresh window threshold).run flows).2 = [] := by
  by_cases hnone : threshold ≤ 1
  · refine ⟨[], [], 0, 0, List.Pairwise.nil, List.Sublist.refl _, by simp, ?_, rfl⟩
    have hzero : 2 * threshold - 2 = 0 := by omega
    rw [hzero]
    rfl
  · refine ⟨(splitHistory window threshold).map probe, (splitBurst window threshold).map probe, 0,
      window, ordered_splitHistory hw threshold, (List.sublist_append_right _ _).map probe, ?_,
      card_portsOf_splitBurst window hroom, quiet_splitHistory hw (not_le.mp hnone) hroom⟩
    intro f hf
    obtain ⟨e, he, rfl⟩ := List.mem_map.mp hf
    have hwhen := times_splitBurst e he
    simp only [probe]
    exact ⟨rfl, by omega, by omega⟩

/-- Twice the threshold less one ports within one window length are certain to raise an alert, and
where there are so many ports at all, one port less is not. -/
theorem PortScanDetector.detection_power (threshold : Nat) (window : Int) (ht : 1 ≤ threshold)
    (hw : 1 ≤ window) :
    (∀ (flows burst : List FlowArrival) (last : FlowArrival) (start : Int),
      Ordered (flows ++ [last]) → burst.Sublist flows →
      (∀ f ∈ burst ++ [last], f.src = last.src ∧ start ≤ f.now ∧ f.now ≤ start + window) →
      2 * threshold - 1 ≤ (portsOf (burst ++ [last])).card →
      ∃ alert ∈ ((fresh window threshold).run (flows ++ [last])).2, alert.kind = portScanKind ∧
        alert.concerns last.src ∧ start - window ≤ alert.ts ∧ alert.ts ≤ last.now) ∧
    (2 * threshold - 2 ≤ 65536 →
      ∃ (flows burst : List FlowArrival) (s : Ipv4Be) (start : Int),
        Ordered flows ∧ burst.Sublist flows ∧
        (∀ f ∈ burst, f.src = s ∧ start ≤ f.now ∧ f.now ≤ start + window) ∧
        (portsOf burst).card = 2 * threshold - 2 ∧
        ((fresh window threshold).run flows).2 = []) := by
  constructor
  · intro flows burst last start hordered hburst htimes hmany
    exact detects_burst (by omega) ht hordered hburst htimes hmany
  · intro hroom
    exact undetected_burst hw hroom

theorem PortScanDetector.detection_power_two :
    ∃ alert ∈ ((fresh 10 2).run ([(0, 1), (4, 2), (10, 3)].map probe)).2,
      alert.kind = portScanKind ∧ alert.concerns 0 ∧ -10 ≤ alert.ts ∧ alert.ts ≤ 10 :=
  (detection_power 2 10 (by decide) (by decide)).1 ([(0, 1), (4, 2)].map probe)
    ([(0, 1), (4, 2)].map probe) (probe (10, 3)) 0 (by decide) (List.Sublist.refl _) (by decide)
    (by decide)

/-- There are not enough ports for a threshold of 32,770. -/
theorem PortScanDetector.detection_power_ports :
    ¬ ∀ (threshold : Nat) (window : Int), 1 ≤ threshold → 1 ≤ window →
      ∃ (flows burst : List FlowArrival) (s : Ipv4Be) (start : Int),
        Ordered flows ∧ burst.Sublist flows ∧
        (∀ f ∈ burst, f.src = s ∧ start ≤ f.now ∧ f.now ≤ start + window) ∧
        (portsOf burst).card = 2 * threshold - 2 ∧
        ((fresh window threshold).run flows).2 = [] := by
  intro h
  obtain ⟨_, burst, _, _, _, _, _, hcard, _⟩ := h 32770 1 (by decide) (by decide)
  have hports := card_ports_le (portsOf burst)
  omega

/-! ## What alerts say, and how many there are -/

private theorem alert_backed (threshold : Nat) (ht : 1 ≤ threshold) (window : Nat)
    {flows : List FlowArrival} {f : FlowArrival} (hordered : Ordered (flows ++ [f])) {alert : Alert}
    (halert : alert ∈
      (((PortScanDetector.fresh window threshold).run flows).1.onFlow f.key f.now).2) :
    alert.concerns f.src ∧ alert.ts = f.now ∧
      ∃ backing : List FlowArrival, backing.Sublist (flows ++ [f]) ∧
        backing.length = threshold ∧ (backing.map fun b => b.key.dstPort).Nodup ∧
        ∀ b ∈ backing, b.src = f.src ∧ f.now - window ≤ b.now ∧ b.now ≤ f.now := by
  rw [PortScanDetector.alerts_onFlow] at halert
  obtain ⟨hit, hhit, rfl⟩ := List.mem_map.mp halert
  have hordered' := hordered.contacts f.src
  rw [contactsOf_concat] at hordered'
  obtain ⟨htime, backing, hsub, hlength, hnodup, htimes⟩ :=
    Tumbling.hit_backed (by omega) hordered' hhit
  rw [← contactsOf_concat] at hsub
  obtain ⟨own, hown, rfl⟩ := List.sublist_map_iff.mp hsub
  rw [List.length_map, Nat.max_eq_left ht] at hlength
  rw [List.map_map] at hnodup
  refine ⟨?_, htime, own, hown.trans List.filter_sublist, hlength, hnodup, fun b hb => ?_⟩
  · rw [scanAlert, concerns_portScanAlert]
    exact decide_eq_true rfl
  · have hsrc : b.src = f.src := by simpa using (List.mem_filter.mp (hown.subset hb)).2
    exact ⟨hsrc, htimes _ (List.mem_map_of_mem hb)⟩

private theorem alerts_spaced (threshold : Nat) (window : Nat) {before between : List FlowArrival}
    {f g : FlowArrival} (hordered : Ordered (before ++ [f] ++ between ++ [g])) (hsrc : f.src = g.src)
    (hf : (((PortScanDetector.fresh window threshold).run before).1.onFlow f.key f.now).2 ≠ [])
    (hg : (((PortScanDetector.fresh window threshold).run
      (before ++ [f] ++ between)).1.onFlow g.key g.now).2 ≠ []) :
    ∃ st st', ((PortScanDetector.fresh window threshold).run
        (before ++ [f])).1.seen.lookup f.src = some st ∧
      ((PortScanDetector.fresh window threshold).run
        (before ++ [f] ++ between ++ [g])).1.seen.lookup g.src = some st' ∧
      st.windowStart + window < st'.windowStart := by
  rw [PortScanDetector.alerts_onFlow] at hf hg
  obtain ⟨_, hf⟩ := List.exists_mem_of_ne_nil _ hf
  obtain ⟨_, hg⟩ := List.exists_mem_of_ne_nil _ hg
  obtain ⟨hitf, hhitf, _⟩ := List.mem_map.mp hf
  obtain ⟨hitg, hhitg, _⟩ := List.mem_map.mp hg
  have hcontacts : contactsOf g.src (before ++ [f] ++ between) =
      contactsOf f.src before ++ [f.contact] ++ contactsOf f.src between := by
    rw [← hsrc, ← contactsOf_concat]
    simp [contactsOf, flowsOf]
  have hordered' := hordered.contacts g.src
  rw [contactsOf_concat, hcontacts] at hordered'
  rw [hcontacts] at hhitg
  have hspaced :=
    Tumbling.spaced_of_hits (by omega) (le_max_right threshold 1) hordered' hhitf hhitg
  obtain ⟨_, w, hw, hstart⟩ := Tumbling.start_of_hit hhitf
  obtain ⟨_, w', hw', hstart'⟩ := Tumbling.start_of_hit hhitg
  have hentry := (PortScanDetector.run_fresh window threshold (before ++ [f]) f.src).1
  have hentry' :=
    (PortScanDetector.run_fresh window threshold (before ++ [f] ++ between ++ [g]) g.src).1
  rw [← contactsOf, contactsOf_concat, Tumbling.run_concat, hw] at hentry
  rw [← contactsOf, contactsOf_concat, hcontacts, Tumbling.run_concat, hw'] at hentry'
  refine ⟨_, _, hentry, hentry', ?_⟩
  simp only [flagged]
  omega

private theorem alerts_bounded (threshold : Nat) (window : Nat) {flows : List FlowArrival}
    (hordered : Ordered flows) (s : Ipv4Be) (x : Int) (period : Nat) :
    (((PortScanDetector.fresh window threshold).run flows).2.filter fun alert =>
      alert.concerns s ∧ x ≤ alert.ts ∧ alert.ts ≤ x + period).length ≤
        (period + window) / (window + 1) + 1 := by
  have halerts := (PortScanDetector.run_fresh window threshold flows s).2
  have hsplit : (((PortScanDetector.fresh window threshold).run flows).2.filter fun alert =>
      alert.concerns s ∧ x ≤ alert.ts ∧ alert.ts ≤ x + period) =
      (((PortScanDetector.fresh window threshold).run flows).2.filter (Alert.concerns s)).filter
        fun alert => x ≤ alert.ts ∧ alert.ts ≤ x + period := by
    rw [List.filter_filter]
    congr 1
    funext alert
    rw [Bool.decide_and, Bool.decide_eq_true, Bool.and_comm]
  rw [hsplit, halerts, List.filter_map, List.length_map, ← List.length_map Tumbling.Hit.start]
  obtain ⟨hspaced, htimes⟩ := Tumbling.hits_spaced (n := max threshold 1)
    (by omega : (0 : Int) ≤ window) (le_max_right _ _) (hordered.contacts s)
  refine Tumbling.length_le_of_spaced (x := x - window) _ ?_ ?_
  · exact List.pairwise_map.mpr (hspaced.sublist List.filter_sublist)
  · intro start hstart
    obtain ⟨hit, hhit, rfl⟩ := List.mem_map.mp hstart
    obtain ⟨hmem, hperiod⟩ := List.mem_filter.mp hhit
    obtain ⟨hfrom, hto, _⟩ := htimes hit hmem
    have hperiod' : x ≤ hit.time ∧ hit.time ≤ x + period := of_decide_eq_true hperiod
    omega

/-- An alert is backed by as many flows of its source as the threshold, to distinct ports and within
the last window length. Two alerts about a source come from windows that start more than a window
length apart, so a period of `d` seconds has at most `(d + w) / (w + 1) + 1` of them. -/
theorem PortScanDetector.alerts_justified (threshold : Nat) (ht : 1 ≤ threshold) (window : Nat) :
    (∀ (flows : List FlowArrival) (f : FlowArrival), Ordered (flows ++ [f]) →
      ∀ alert ∈ (((fresh window threshold).run flows).1.onFlow f.key f.now).2,
        alert.concerns f.src ∧ alert.ts = f.now ∧
          ∃ backing : List FlowArrival, backing.Sublist (flows ++ [f]) ∧
            backing.length = threshold ∧ (backing.map fun b => b.key.dstPort).Nodup ∧
            ∀ b ∈ backing, b.src = f.src ∧ f.now - window ≤ b.now ∧ b.now ≤ f.now) ∧
    (∀ (before between : List FlowArrival) (f g : FlowArrival),
      Ordered (before ++ [f] ++ between ++ [g]) → f.src = g.src →
      (((fresh window threshold).run before).1.onFlow f.key f.now).2 ≠ [] →
      (((fresh window threshold).run (before ++ [f] ++ between)).1.onFlow g.key g.now).2 ≠ [] →
      ∃ st st', ((fresh window threshold).run (before ++ [f])).1.seen.lookup f.src = some st ∧
        ((fresh window threshold).run (before ++ [f] ++ between ++ [g])).1.seen.lookup g.src =
          some st' ∧
        st.windowStart + window < st'.windowStart) ∧
    (∀ (flows : List FlowArrival), Ordered flows → ∀ (s : Ipv4Be) (x : Int) (period : Nat),
      (((fresh window threshold).run flows).2.filter fun alert =>
        alert.concerns s ∧ x ≤ alert.ts ∧ alert.ts ≤ x + period).length ≤
          (period + window) / (window + 1) + 1) := by
  refine ⟨?_, ?_, ?_⟩
  · intro flows f hordered alert halert
    exact alert_backed threshold ht window hordered halert
  · intro before between f g hordered hsrc hf hg
    exact alerts_spaced threshold window hordered hsrc hf hg
  · intro flows hordered s x period
    exact alerts_bounded threshold window hordered s x period

theorem PortScanDetector.alerts_justified_two :
    (((fresh 10 2).run ([(0, 1), (4, 2), (12, 1), (13, 2)].map probe)).2.filter fun alert =>
      alert.concerns 0 ∧ 0 ≤ alert.ts ∧ alert.ts ≤ 0 + 20).length ≤ 3 :=
  (alerts_justified 2 (by decide) 10).2.2 ([(0, 1), (4, 2), (12, 1), (13, 2)].map probe)
    (by decide) 0 0 20

/-! ## Snapshots in any order -/

private theorem flagged_of_run (window : Int) (threshold : Nat) (flows : List FlowArrival)
    (s : Ipv4Be) (st : ScanState)
    (h : ((PortScanDetector.fresh window threshold).run flows).1.seen.lookup s = some st) :
    ∃ w, st = flagged (max threshold 1) w := by
  rw [(PortScanDetector.run_fresh window threshold flows s).1] at h
  obtain ⟨w, _, hw⟩ := Option.map_eq_some_iff.mp h
  exact ⟨w, hw.symm⟩

private theorem exists_window {n : Nat} {o : Option ScanState}
    (h : ∀ st, o = some st → ∃ w, st = flagged n w) :
    ∃ w : Option (Tumbling.Window UInt16), o = w.map (flagged n) := by
  cases o with
  | none => exact ⟨none, rfl⟩
  | some st =>
      obtain ⟨w, rfl⟩ := h st rfl
      exact ⟨some w, rfl⟩

/-- What a flow of a snapshot does to the entry of its source. -/
private def snapshotEntry (window : Int) (threshold : Nat) (now : Int) (o : Option ScanState)
    (f : FlowKey × FlowStats) : ScanState × List Alert :=
  scanEntry window threshold o ⟨f.1, f.2, now⟩

private theorem run_snapshot (d : PortScanDetector) (now : Int)
    (flows : List (FlowKey × FlowStats)) : d.run (snapshotAt now flows) =
    (foldEmit (keyed (fun f : FlowKey × FlowStats => f.1.srcIp)
      (snapshotEntry d.windowSecs d.threshold now)) d.seen flows).map
      (fun seen => { d with seen := seen }) id := by
  rw [d.run_eq, snapshotAt, foldEmit_map]
  rfl

private theorem flagged_snapshotEntry (window : Int) (threshold : Nat) (now : Int)
    (o : Option ScanState) (f : FlowKey × FlowStats)
    (ho : ∀ st, o = some st → ∃ w, st = flagged (max threshold 1) w) :
    ∃ w, (snapshotEntry window threshold now o f).1 = flagged (max threshold 1) w := by
  obtain ⟨w, rfl⟩ := exists_window ho
  have hstate := congrArg Prod.fst (entry_flagged window threshold w ⟨f.1, f.2, now⟩)
  exact ⟨_, Option.some.inj hstate⟩

private theorem snapshotEntry_swap {window : Int} (hw : 0 ≤ window) (threshold : Nat) (now : Int)
    (o : Option ScanState) (f g : FlowKey × FlowStats)
    (ho : ∀ st, o = some st → ∃ w, st = flagged (max threshold 1) w)
    (hsrc : f.1.srcIp = g.1.srcIp) :
    foldEmit (entry (snapshotEntry window threshold now)) o [f, g] =
      foldEmit (entry (snapshotEntry window threshold now)) o [g, f] := by
  obtain ⟨w, rfl⟩ := exists_window ho
  have hsim (l : List (FlowKey × FlowStats)) (hl : ∀ a ∈ l, a.1.srcIp = g.1.srcIp) :
      foldEmit (entry (snapshotEntry window threshold now)) (w.map (flagged (max threshold 1))) l =
        (foldEmit (Tumbling.step window (max threshold 1)) w
          (Tumbling.stamped now (l.map fun a => a.1.dstPort))).map
          (Option.map (flagged (max threshold 1)))
          (List.map (scanAlert g.1.srcIp (max threshold 1) window)) := by
    rw [Tumbling.stamped, List.map_map]
    refine foldEmit_simulation (fun w a ha => ?_) w
    rw [← hl a ha]
    exact entry_flagged window threshold w ⟨a.1, a.2, now⟩
  rw [hsim [f, g] (by simp [hsrc]), hsim [g, f] (by simp [hsrc]),
    Tumbling.foldEmit_stamped hw w now (by simp), Tumbling.foldEmit_stamped hw w now (by simp)]
  have hports : ([f, g].map fun a => a.1.dstPort).toFinset =
      ([g, f].map fun a => a.1.dstPort).toFinset :=
    List.toFinset_eq_of_perm _ _ ((List.Perm.swap g f []).map _)
  rw [hports]

/-- The order of a snapshot's flows changes neither the alerts nor the state. -/
theorem PortScanDetector.snapshot_perm (window threshold : Nat) (history : List FlowArrival)
    (now : Int) (flows flows' : List (FlowKey × FlowStats)) (hperm : flows.Perm flows') :
    let d := ((fresh window threshold).run history).1
    (d.run (snapshotAt now flows)).1 = (d.run (snapshotAt now flows')).1 ∧
      (d.run (snapshotAt now flows)).2.Perm (d.run (snapshotAt now flows')).2 := by
  intro d
  have hwindow : d.windowSecs = window ∧ d.threshold = threshold := by
    simp only [d, run_eq]
    exact ⟨rfl, rfl⟩
  obtain ⟨hstate, halerts⟩ := foldEmit_keyed_perm
    (flagged_snapshotEntry d.windowSecs d.threshold now)
    (fun o f g ho hsrc => by
      rw [snapshotEntry_swap (hwindow.1 ▸ Int.natCast_nonneg window) d.threshold now o f g ho hsrc]
      exact ⟨rfl, List.Perm.refl _⟩)
    (m := d.seen) (fun s st hst => hwindow.2 ▸ flagged_of_run window threshold history s st hst)
    hperm
  rw [run_snapshot, run_snapshot]
  exact ⟨congrArg (fun seen => { d with seen := seen }) hstate, halerts⟩

/-- A source that has made contact with one port, and two more in the snapshot, beside another one. -/
theorem PortScanDetector.snapshot_perm_two :
    let history : List FlowArrival := [⟨⟨1, 9, 40000, 22, 6⟩, {}, 3⟩]
    let flows : List (FlowKey × FlowStats) := [(⟨1, 9, 40000, 80, 6⟩, {}), (⟨2, 9, 40000, 443, 6⟩, {}),
      (⟨1, 9, 40000, 443, 6⟩, {})]
    let d := ((fresh 10 3).run history).1
    (d.run (snapshotAt 5 flows)).2 ≠ [] ∧
      (d.run (snapshotAt 5 flows)).2.Perm (d.run (snapshotAt 5 flows.reverse)).2 := by
  intro history flows d
  exact ⟨by decide +kernel, (snapshot_perm 10 3 history 5 flows flows.reverse
    (List.reverse_perm flows).symm).2⟩

end Lanscope
