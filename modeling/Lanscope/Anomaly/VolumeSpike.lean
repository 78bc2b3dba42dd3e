import Lanscope.Anomaly.Entries
import Lanscope.Framework.MovingAverage

/-!
# Volume spikes

The entry of a source is a moving average over its flows, so the average and the alerts depend on
the byte counts of the flows and on their order. What the default constants make of any history.
-/

namespace Lanscope

open Framework

def FlowArrival.bytes (f : FlowArrival) : ℚ := f.stats.bytes.toNat

theorem raises_spikeEntry_iff (alpha spikeFactor floorBytes : ℚ) (o : Option ℚ) (f : FlowArrival) :
    (spikeEntry alpha spikeFactor floorBytes o f).2 ≠ [] ↔
      ∃ a, o = some a ∧ floorBytes < f.bytes ∧ 0 < a ∧ spikeFactor * a < f.bytes := by
  cases o with
  | none => simp [spikeEntry]
  | some a => simp [spikeEntry, FlowArrival.bytes]

/-- What a flow does after others. -/
theorem VolumeSpikeDetector.onFlow_run (d : VolumeSpikeDetector) (flows : List FlowArrival)
    (f : FlowArrival) :
    ((d.run flows).1.onFlow f.key f.stats f.now).2 =
      (spikeEntry d.alpha d.spikeFactor d.floorBytes ((d.run flows).1.ewma.lookup f.src) f).2 := by
  rw [VolumeSpikeDetector.onFlow_eq, d.run_eq]
  rfl

/-- A flow moves the average of its own source alone. -/
theorem VolumeSpikeDetector.lookup_run_concat (d : VolumeSpikeDetector) (flows : List FlowArrival)
    (f : FlowArrival) (s : Ipv4Be) :
    (d.run (flows ++ [f])).1.ewma.lookup s =
      if s = f.src then
        some (spikeEntry d.alpha d.spikeFactor d.floorBytes ((d.run flows).1.ewma.lookup f.src) f).1
      else (d.run flows).1.ewma.lookup s := by
  rw [d.run_eq, d.run_eq, foldEmit_append, foldEmit_singleton]
  exact lookup_keyed _ _ _

/-! ## The default detector -/

/-- The detector as the default stack starts it. -/
def spikes (flows : List FlowArrival) : VolumeSpikeDetector × List Alert :=
  ({} : VolumeSpikeDetector).run flows

/-- The flow raises an alert after these others. -/
def Spikes (flows : List FlowArrival) (f : FlowArrival) : Prop :=
  ((spikes flows).1.onFlow f.key f.stats f.now).2 ≠ []

theorem spikes_iff (flows : List FlowArrival) (f : FlowArrival) :
    Spikes flows f ↔ ∃ a, (spikes flows).1.ewma.lookup f.src = some a ∧
      1000000 < f.bytes ∧ 0 < a ∧ 5 * a < f.bytes := by
  rw [Spikes, spikes, VolumeSpikeDetector.onFlow_run]
  exact raises_spikeEntry_iff _ _ _ _ _

theorem flowsOf_concat (s : Ipv4Be) (flows : List FlowArrival) (f : FlowArrival) :
    flowsOf s (flows ++ [f]) = if s = f.src then flowsOf s flows ++ [f] else flowsOf s flows := by
  by_cases h : s = f.src
  · simp [flowsOf, h]
  · simp [flowsOf, h, Ne.symm h]

theorem lookup_spikes_concat (flows : List FlowArrival) (f : FlowArrival) (s : Ipv4Be) :
    (spikes (flows ++ [f])).1.ewma.lookup s =
      if s = f.src then
        some (((spikes flows).1.ewma.lookup f.src).elim f.bytes fun a =>
          moveAverage (3 / 10) a f.bytes)
      else (spikes flows).1.ewma.lookup s := by
  rw [spikes, VolumeSpikeDetector.lookup_run_concat]
  cases hentry : (spikes flows).1.ewma.lookup f.src with
  | none => rw [← spikes, hentry]; rfl
  | some a => rw [← spikes, hentry]; rfl

/-- The stored average lies between byte counts that the source has sent. -/
theorem lookup_spikes (flows : List FlowArrival) (s : Ipv4Be) :
    ((spikes flows).1.ewma.lookup s = none ∧ flowsOf s flows = []) ∨
      ∃ a, (spikes flows).1.ewma.lookup s = some a ∧ (∃ f ∈ flowsOf s flows, f.bytes ≤ a) ∧
        ∃ g ∈ flowsOf s flows, a ≤ g.bytes := by
  induction flows using List.reverseRecOn with
  | nil => exact Or.inl ⟨rfl, rfl⟩
  | append_singleton flows f ih =>
      rw [lookup_spikes_concat, flowsOf_concat]
      by_cases hs : s = f.src
      · subst s
        have hmem : f ∈ flowsOf f.src flows ++ [f] := by simp
        rw [if_pos rfl, if_pos rfl]
        refine Or.inr ⟨_, rfl, ?_⟩
        rcases ih with ⟨hnone, _⟩ | ⟨a, hsome, ⟨low, hlow, hle⟩, ⟨high, hhigh, hge⟩⟩
        · rw [hnone]
          exact ⟨⟨f, hmem, le_rfl⟩, f, hmem, le_rfl⟩
        · rw [hsome, Option.elim_some]
          constructor
          · rcases le_total f.bytes a with h | h
            · exact ⟨f, hmem, le_moveAverage (by norm_num) (by norm_num) h le_rfl⟩
            · exact ⟨low, List.mem_append_left _ hlow,
                le_moveAverage (by norm_num) (by norm_num) hle (hle.trans h)⟩
          · rcases le_total a f.bytes with h | h
            · exact ⟨f, hmem, moveAverage_le (by norm_num) (by norm_num) h le_rfl⟩
            · exact ⟨high, List.mem_append_left _ hhigh,
                moveAverage_le (by norm_num) (by norm_num) hge (h.trans hge)⟩
      · rw [if_neg hs, if_neg hs]
        exact ih

/-- An alert about a source is raised by one of its flows. -/
theorem exists_spike {flows : List FlowArrival} {s : Ipv4Be} {alert : Alert}
    (halert : alert ∈ (spikes flows).2) (hs : alert.concerns s) :
    ∃ before f after, flows = before ++ f :: after ∧ f.src = s ∧ Spikes before f := by
  obtain ⟨before, f, after, hflows, hmem⟩ := mem_foldEmit halert
  refine ⟨before, f, after, hflows, ?_, List.ne_nil_of_mem hmem⟩
  have hmem' : alert ∈ ((spikes before).1.onFlow f.key f.stats f.now).2 := hmem
  rw [spikes, VolumeSpikeDetector.onFlow_run] at hmem'
  have hconcerns := concerns_spikeEntry _ _ _ s _ f alert hmem'
  rw [hs] at hconcerns
  exact of_decide_eq_true hconcerns.symm

private theorem no_spike_of_even {flows : List FlowArrival} {s : Ipv4Be}
    (heven : ∀ f ∈ flowsOf s flows, ∀ g ∈ flowsOf s flows, g.bytes ≤ 5 * f.bytes) :
    ∀ alert ∈ (spikes flows).2, ¬ alert.concerns s := by
  intro alert halert hs
  obtain ⟨before, f, after, rfl, rfl, hspike⟩ := exists_spike halert hs
  obtain ⟨a, ha, _, _, hfactor⟩ := (spikes_iff before f).mp hspike
  rcases lookup_spikes before f.src with ⟨hnone, _⟩ | ⟨b, hb, ⟨low, hlow, hle⟩, _⟩
  · exact absurd (hnone.symm.trans ha) (by simp)
  · obtain rfl := Option.some.inj (hb.symm.trans ha)
    have hlow' : low ∈ flowsOf f.src (before ++ f :: after) := by
      rw [flowsOf, List.filter_append]
      exact List.mem_append_left _ hlow
    have hf : f ∈ flowsOf f.src (before ++ f :: after) := by simp [flowsOf]
    have hcap := heven low hlow' f hf
    linarith

theorem lookup_spikes_append (flows between : List FlowArrival) (s : Ipv4Be)
    (hnone : flowsOf s between = []) :
    (spikes (flows ++ between)).1.ewma.lookup s = (spikes flows).1.ewma.lookup s := by
  induction between using List.reverseRecOn with
  | nil => rw [List.append_nil]
  | append_singleton between g ih =>
      rw [flowsOf_concat] at hnone
      split_ifs at hnone with hs
      · simp at hnone
      · rw [← List.append_assoc, lookup_spikes_concat, if_neg hs, ih hnone]

private theorem spike_after_spike {before between : List FlowArrival} {f g : FlowArrival}
    (hsrc : f.src = g.src) (hnone : flowsOf f.src between = []) (hf : Spikes before f)
    (hg : Spikes (before ++ [f] ++ between) g) : 3 / 2 * f.bytes < g.bytes := by
  obtain ⟨a, ha, _, hpos, _⟩ := (spikes_iff before f).mp hf
  obtain ⟨b, hb, _, _, hfactor⟩ := (spikes_iff _ g).mp hg
  rw [← hsrc, lookup_spikes_append _ _ _ hnone, lookup_spikes_concat, if_pos rfl, ha,
    Option.elim_some] at hb
  obtain rfl := Option.some.inj hb
  unfold moveAverage at hfactor
  linarith

/-- Each alert in a row needs more than half as many bytes again as the alert before. -/
private theorem spikes_grow {before burst : List FlowArrival} {s : Ipv4Be}
    (hall : ∀ l f r, burst = l ++ f :: r → f.src = s → Spikes (before ++ l) f) :
    flowsOf s burst = [] ∨ ∃ a, (spikes (before ++ burst)).1.ewma.lookup s = some a ∧
      ∃ f ∈ flowsOf s burst, 3 / 10 * f.bytes < a ∧
        (3 / 2) ^ ((flowsOf s burst).length - 1) * 1000000 < f.bytes := by
  induction burst using List.reverseRecOn with
  | nil => exact Or.inl rfl
  | append_singleton burst f ih =>
      have hrest := ih fun l g r hl hg => hall l g (r ++ [f]) (by rw [hl]; simp) hg
      rw [← List.append_assoc, lookup_spikes_concat, flowsOf_concat]
      by_cases hs : s = f.src
      · obtain ⟨a, ha, hfloor, hpos, hfactor⟩ :=
          (spikes_iff _ f).mp (hall burst f [] rfl hs.symm)
        subst s
        rw [if_pos rfl, if_pos rfl, ha]
        refine Or.inr ⟨_, rfl, f, by simp, ?_, ?_⟩
        · rw [Option.elim_some, moveAverage]
          linarith
        · rcases hrest with hnil | ⟨b, hb, g, hg, hbound, hgrown⟩
          · simpa [hnil] using hfloor
          · obtain rfl := Option.some.inj (hb.symm.trans ha)
            obtain ⟨k, hk⟩ : ∃ k, (flowsOf f.src burst).length = k + 1 :=
              Nat.exists_eq_succ_of_ne_zero (List.length_pos_of_mem hg).ne'
            rw [List.length_append, List.length_singleton, hk, Nat.add_sub_cancel, pow_succ]
            rw [hk, Nat.add_sub_cancel] at hgrown
            linarith
      · rw [if_neg hs, if_neg hs]
        exact hrest

private theorem length_burst_le {before burst : List FlowArrival} {s : Ipv4Be}
    (hall : ∀ l f r, burst = l ++ f :: r → f.src = s → Spikes (before ++ l) f) :
    (flowsOf s burst).length ≤ 76 := by
  rcases spikes_grow hall with hnil | ⟨_, _, f, _, _, hgrown⟩
  · simp [hnil]
  · by_contra hlong
    have hword : f.bytes < 2 ^ 64 := by
      have hnat : f.stats.bytes.toNat < 2 ^ 64 := f.stats.bytes.toNat_lt
      unfold FlowArrival.bytes
      exact_mod_cast hnat
    have hpow : (3 / 2 : ℚ) ^ 76 ≤ (3 / 2) ^ ((flowsOf s burst).length - 1) :=
      pow_le_pow_right₀ (by norm_num) (by omega)
    have hbig : (2 : ℚ) ^ 64 < (3 / 2) ^ 76 * 1000000 := by norm_num
    linarith

/-- The stored average of a source stays between its smallest and its largest byte count, so flows
that differ by a factor of five at most raise no alert. A flow that raises an alert right after
another of its source carries more than half as many bytes again, so no more than 76 alerts follow
each other. -/
theorem VolumeSpikeDetector.default_history :
    (∀ flows s, flowsOf s flows ≠ [] → ∃ a, (spikes flows).1.ewma.lookup s = some a ∧
      (∃ f ∈ flowsOf s flows, f.bytes ≤ a) ∧ ∃ g ∈ flowsOf s flows, a ≤ g.bytes) ∧
    (∀ flows s, (∀ f ∈ flowsOf s flows, ∀ g ∈ flowsOf s flows, g.bytes ≤ 5 * f.bytes) →
      ∀ alert ∈ (spikes flows).2, ¬ alert.concerns s) ∧
    (∀ before between f g, f.src = g.src → flowsOf f.src between = [] → Spikes before f →
      Spikes (before ++ [f] ++ between) g → 3 / 2 * f.bytes < g.bytes) ∧
    (∀ before burst s, (∀ l f r, burst = l ++ f :: r → f.src = s → Spikes (before ++ l) f) →
      (flowsOf s burst).length ≤ 76) := by
  refine ⟨fun flows s hsent => ?_, fun _ _ => no_spike_of_even, fun _ _ _ _ => spike_after_spike,
    fun _ _ _ => length_burst_le⟩
  rcases lookup_spikes flows s with ⟨_, hnil⟩ | haverage
  · exact absurd hnil hsent
  · exact haverage

-- two alerts can follow each other
example :
    let flow (bytes : UInt64) : FlowArrival := ⟨⟨1, 9, 40000, 443, 6⟩, { bytes := bytes }, 5⟩
    Spikes [flow 1000] (flow 2000000) ∧ Spikes [flow 1000, flow 2000000] (flow 4000000) := by
  unfold Spikes
  decide +kernel

/-! ## Snapshots of the same volume -/

/-- The byte counts that a source sends in a snapshot, in order. -/
def bytesOf (s : Ipv4Be) (flows : List (FlowKey × FlowStats)) : List UInt64 :=
  (flows.filter fun f => f.1.srcIp = s).map fun f => f.2.bytes

def SameVolumes (flows flows' : List (FlowKey × FlowStats)) : Prop :=
  ∀ s, ((bytesOf s flows).map UInt64.toNat).sum = ((bytesOf s flows').map UInt64.toNat).sum

def SameSequences (flows flows' : List (FlowKey × FlowStats)) : Prop :=
  ∀ s, bytesOf s flows = bytesOf s flows'

/-- Both snapshots raise alerts about the same sources and leave the same averages. -/
def VolumeSpikeDetector.Alike (d : VolumeSpikeDetector) (now : Int)
    (flows flows' : List (FlowKey × FlowStats)) : Prop :=
  (∀ s, (∃ alert ∈ (d.run (snapshotAt now flows)).2, alert.concerns s) ↔
    ∃ alert ∈ (d.run (snapshotAt now flows')).2, alert.concerns s) ∧
  (d.run (snapshotAt now flows)).1.ewma = (d.run (snapshotAt now flows')).1.ewma

private theorem flowsOf_snapshotAt (now : Int) (flows : List (FlowKey × FlowStats)) (s : Ipv4Be) :
    (flowsOf s (snapshotAt now flows)).map (fun f => (f.src, f.now, f.stats.bytes)) =
      (bytesOf s flows).map fun b => (s, now, b) := by
  rw [flowsOf, snapshotAt, List.filter_map, List.map_map, bytesOf, List.map_map]
  apply List.map_congr_left
  intro f hf
  have hs : f.1.srcIp = s := of_decide_eq_true (List.mem_filter.mp hf).2
  simp [FlowArrival.src, hs]

/-- What a source does to its average and which alerts it raises depends on its byte counts. -/
private theorem run_of_bytes (d : VolumeSpikeDetector) (now : Int) (s : Ipv4Be)
    {flows flows' : List (FlowKey × FlowStats)} (h : bytesOf s flows = bytesOf s flows') :
    (d.run (snapshotAt now flows)).1.ewma.lookup s =
      (d.run (snapshotAt now flows')).1.ewma.lookup s ∧
    (d.run (snapshotAt now flows)).2.filter (Alert.concerns s) =
      (d.run (snapshotAt now flows')).2.filter (Alert.concerns s) := by
  have hev : ∀ o (f g : FlowArrival),
      (f.src, f.now, f.stats.bytes) = (g.src, g.now, g.stats.bytes) →
      entry (spikeEntry d.alpha d.spikeFactor d.floorBytes) o f =
        entry (spikeEntry d.alpha d.spikeFactor d.floorBytes) o g := by
    intro o f g heq
    simp only [Prod.mk.injEq] at heq
    cases o <;> simp only [entry, spikeEntry, heq]
  have hfold := foldEmit_congr_map hev (l := flowsOf s (snapshotAt now flows))
    (m := flowsOf s (snapshotAt now flows'))
    (by rw [flowsOf_snapshotAt, flowsOf_snapshotAt, h]) (d.ewma.lookup s)
  obtain ⟨hentry, halerts⟩ := d.run_source (snapshotAt now flows) s
  obtain ⟨hentry', halerts'⟩ := d.run_source (snapshotAt now flows') s
  rw [hentry, halerts, hentry', halerts', hfold]
  exact ⟨rfl, rfl⟩

private theorem entry_spikeEntry (alpha spikeFactor floorBytes a : ℚ) (flows : List FlowArrival) :
    (foldEmit (entry (spikeEntry alpha spikeFactor floorBytes)) (some a) flows).1 =
      some ((flows.map FlowArrival.bytes).foldl (moveAverage alpha) a) := by
  induction flows generalizing a with
  | nil => rfl
  | cons f flows ih => exact ih _

/-- The average that a snapshot leaves, by the byte counts of the source. -/
private theorem lookup_run_snapshot (d : VolumeSpikeDetector) (now : Int)
    (flows : List (FlowKey × FlowStats)) {s : Ipv4Be} {a : ℚ} (ha : d.ewma.lookup s = some a) :
    (d.run (snapshotAt now flows)).1.ewma.lookup s =
      some (((bytesOf s flows).map fun b => (b.toNat : ℚ)).foldl (moveAverage d.alpha) a) := by
  have hbytes := congrArg (List.map fun e : Ipv4Be × Int × UInt64 => (e.2.2.toNat : ℚ))
    (flowsOf_snapshotAt now flows s)
  rw [List.map_map, List.map_map] at hbytes
  rw [(d.run_source (snapshotAt now flows) s).1, ha, entry_spikeEntry]
  exact congrArg (fun l => some (List.foldl (moveAverage d.alpha) a l)) hbytes

private theorem exists_concerns_iff (alerts : List Alert) (s : Ipv4Be) :
    (∃ alert ∈ alerts, alert.concerns s) ↔ alerts.filter (Alert.concerns s) ≠ [] := by
  rw [Ne, List.filter_eq_nil_iff]
  push Not
  rfl

/-- Two snapshots are alike to every detector, whatever its smoothing factor and its averages,
exactly when each source sends the same byte counts in the same order in both. For the factor `0.3`
that the constructor sets, the condition is enough; that it is needed rests on other factors. -/
theorem VolumeSpikeDetector.alike_iff (flows flows' : List (FlowKey × FlowStats)) :
    (∀ (d : VolumeSpikeDetector) (now : Int), 0 < d.alpha → d.alpha < 1 → d.Alike now flows flows') ↔
      SameSequences flows flows' := by
  constructor
  · intro h s
    have hcast : Function.Injective fun b : UInt64 => (b.toNat : ℚ) :=
      Nat.cast_injective.comp fun _ _ => UInt64.toNat_inj.mp
    apply hcast.list_map
    refine eq_of_foldl_eq ?_ ?_ fun factor a hpos hone => ?_
    · intro z hz
      obtain ⟨b, _, rfl⟩ := List.mem_map.mp hz
      positivity
    · intro z hz
      obtain ⟨b, _, rfl⟩ := List.mem_map.mp hz
      positivity
    · let d : VolumeSpikeDetector := { ewma := Finmap.insert s a ∅, alpha := factor }
      have ha : d.ewma.lookup s = some a := Finmap.lookup_insert _
      have hewma := (h d 0 hpos hone).2
      have hlookup := congrArg (fun ewma : HashMap Ipv4Be ℚ => ewma.lookup s) hewma
      simp only [lookup_run_snapshot d 0 _ ha] at hlookup
      exact Option.some.inj hlookup
  · intro h d now _ _
    refine ⟨fun s => ?_, Finmap.ext_lookup fun s => (run_of_bytes d now s (h s)).1⟩
    rw [exists_concerns_iff, exists_concerns_iff, (run_of_bytes d now s (h s)).2]

/-! ## One flow or two -/

/-- A flow of the first address with this many bytes. -/
def upload (bytes : UInt64) : FlowKey × FlowStats := (⟨1, 9, 40000, 443, 6⟩, { bytes := bytes })

/-- After a flow of 1,000 bytes, 2,000,000 bytes in one flow raise an alert and in two flows of
1,000,000 bytes do not. -/
theorem VolumeSpikeDetector.split_volume :
    ¬ ∀ (d : VolumeSpikeDetector) (flows flows' : List (FlowKey × FlowStats)) (now : Int),
      SameVolumes flows flows' → d.Alike now flows flows' := by
  intro h
  let d := (spikes (snapshotAt 10 [upload 1000])).1
  have hsame : SameVolumes [upload 2000000] [upload 1000000, upload 1000000] := by
    intro s
    by_cases hs : s = 1
    · subst s
      decide
    · simp [bytesOf, upload, Ne.symm hs]
  have ha : d.ewma.lookup 1 = some 1000 := rfl
  have hfold (flows : List (FlowKey × FlowStats)) :
      (d.run (snapshotAt 20 flows)).2.filter (Alert.concerns 1) =
        (foldEmit (entry (spikeEntry (3 / 10) 5 1000000)) (some 1000)
          (flowsOf 1 (snapshotAt 20 flows))).2 :=
    ha ▸ (d.run_source (snapshotAt 20 flows) 1).2
  have hwhole : UInt64.toNat 2000000 = 2000000 := rfl
  have hhalf : UInt64.toNat 1000000 = 1000000 := rfl
  have hone : (d.run (snapshotAt 20 [upload 2000000])).2.filter (Alert.concerns 1) ≠ [] := by
    rw [hfold]
    norm_num [flowsOf, snapshotAt, upload, FlowArrival.src, entry, spikeEntry, foldEmit_cons,
      hwhole]
  have htwo : (d.run (snapshotAt 20 [upload 1000000, upload 1000000])).2.filter
      (Alert.concerns 1) = [] := by
    rw [hfold]
    norm_num [flowsOf, snapshotAt, upload, FlowArrival.src, entry, spikeEntry, foldEmit_cons,
      hhalf]
  have halike := (h d _ _ 20 hsame).1 1
  simp only [exists_concerns_iff, hone, htwo, ne_eq, not_true_eq_false, not_false_eq_true,
    true_iff] at halike

end Lanscope