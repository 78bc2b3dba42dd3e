import Lanscope.Anomaly.Engine
import Lanscope.Framework.Keyed

/-!
# One detector entry per source

Both flow detectors keep a map with an entry for each source address, and handle a flow by the
entry of its source alone. What each does to that entry, and whom an alert is about.
-/

namespace Lanscope

open Framework

/-- A flow as the engine takes it in. -/
structure FlowArrival where
  key : FlowKey
  stats : FlowStats
  now : Int
  deriving DecidableEq

def FlowArrival.src (f : FlowArrival) : Ipv4Be := f.key.srcIp

/-- The flows of one source. -/
def flowsOf (s : Ipv4Be) (flows : List FlowArrival) : List FlowArrival :=
  flows.filter fun f => f.src = s

/-- The flows of a snapshot, which all arrive at the same time. -/
def snapshotAt (now : Int) (flows : List (FlowKey × FlowStats)) : List FlowArrival :=
  flows.map fun f => ⟨f.1, f.2, now⟩

def PortScanDetector.run (d : PortScanDetector) (flows : List FlowArrival) :
    PortScanDetector × List Alert :=
  foldEmit (fun d f => d.onFlow f.key f.now) d flows

def VolumeSpikeDetector.run (d : VolumeSpikeDetector) (flows : List FlowArrival) :
    VolumeSpikeDetector × List Alert :=
  foldEmit (fun d f => d.onFlow f.key f.stats f.now) d flows

/-! ## Whom an alert is about -/

def scanOpening (ip : Ipv4Be) : Str :=
  "Possible port scan from ".toList ++ fmtIpv4 ip ++ ": ".toList

def spikeOpening (ip : Ipv4Be) : Str := "Traffic spike from ".toList ++ fmtIpv4 ip ++ ": ".toList

/-- The alert names this source address in its message. -/
def Alert.concerns (s : Ipv4Be) (a : Alert) : Bool :=
  (a.kind = portScanKind ∧ scanOpening s <+: a.message) ∨
    (a.kind = volumeSpikeKind ∧ spikeOpening s <+: a.message)

private theorem colon_notMem_fmtIpv4 (ip : Ipv4Be) : ':' ∉ fmtIpv4 ip := by
  have hdigits (n : Nat) : ':' ∉ Str.ofNat n :=
    fun h => absurd (Str.isDigit_of_mem_ofNat h) (by decide)
  simp [fmtIpv4, BigEndian.bytes32, Str.join, List.intercalate, hdigits]

/-- An address ends at the colon after it, so only one can stand between an opening and a colon. -/
private theorem opening_prefix_iff (text rest : Str) (s ip : Ipv4Be) :
    text ++ fmtIpv4 s ++ ": ".toList <+: text ++ fmtIpv4 ip ++ ": ".toList ++ rest ↔ ip = s := by
  constructor
  · rintro ⟨tail, htail⟩
    simp only [List.append_assoc, List.append_cancel_left_eq] at htail
    have htake := congrArg (List.takeWhile fun c => c ≠ ':') htail
    have hstop (ip : Ipv4Be) (more : Str) :
        (fmtIpv4 ip ++ (": ".toList ++ more)).takeWhile (fun c => c ≠ ':') = fmtIpv4 ip := by
      rw [List.takeWhile_append_of_pos]
      · simp
      · intro c hc
        have hne : c ≠ ':' := fun h => colon_notMem_fmtIpv4 ip (h ▸ hc)
        simpa using hne
    rw [hstop, hstop] at htake
    exact (fmtIpv4_injective htake).symm
  · rintro rfl
    exact List.prefix_append _ _

theorem concerns_portScanAlert (s ip : Ipv4Be) (ports : Nat) (window now : Int) :
    (portScanAlert ip ports window now).concerns s = decide (ip = s) := by
  have hkind : portScanKind ≠ volumeSpikeKind := by decide
  have hmessage : (portScanAlert ip ports window now).message =
      "Possible port scan from ".toList ++ fmtIpv4 ip ++ ": ".toList ++
        (Str.ofNat ports ++ " distinct ports in ".toList ++ Str.ofInt window ++ "s".toList) := by
    simp only [portScanAlert, List.append_assoc]
  rw [Bool.eq_iff_iff, decide_eq_true_eq, Alert.concerns, decide_eq_true_eq, hmessage]
  constructor
  · rintro (⟨_, h⟩ | ⟨h, _⟩)
    · exact (opening_prefix_iff _ _ s ip).mp h
    · exact absurd h hkind
  · intro h
    exact Or.inl ⟨rfl, (opening_prefix_iff _ _ s ip).mpr h⟩

theorem concerns_volumeSpikeAlert (s ip : Ipv4Be) (bytes avg : ℚ) (now : Int) :
    (volumeSpikeAlert ip bytes avg now).concerns s = decide (ip = s) := by
  have hkind : volumeSpikeKind ≠ portScanKind := by decide
  have hmessage : (volumeSpikeAlert ip bytes avg now).message =
      "Traffic spike from ".toList ++ fmtIpv4 ip ++ ": ".toList ++
        (Str.ofRatRounded bytes ++ " bytes vs ~".toList ++ Str.ofRatRounded avg ++
          " avg".toList) := by
    simp only [volumeSpikeAlert, List.append_assoc]
  rw [Bool.eq_iff_iff, decide_eq_true_eq, Alert.concerns, decide_eq_true_eq, hmessage]
  constructor
  · rintro (⟨h, _⟩ | ⟨_, h⟩)
    · exact absurd h hkind
    · exact (opening_prefix_iff _ _ s ip).mp h
  · intro h
    exact Or.inr ⟨rfl, (opening_prefix_iff _ _ s ip).mpr h⟩

/-! ## What a flow does to the entry of its source -/

def countedEntry (window : Int) (o : Option ScanState) (f : FlowArrival) : ScanState :=
  let state := o.getD ⟨f.now, ∅, false⟩
  let state := if f.now - state.windowStart > window then ⟨f.now, ∅, false⟩ else state
  { state with ports := insert f.key.dstPort state.ports }

def scanEntry (window : Int) (threshold : Nat) (o : Option ScanState) (f : FlowArrival) :
    ScanState × List Alert :=
  let state := countedEntry window o f
  if state.ports.card ≥ threshold ∧ ¬ state.alerted then
    ({ state with alerted := true }, [portScanAlert f.src state.ports.card window f.now])
  else (state, [])

theorem PortScanDetector.onFlow_eq (d : PortScanDetector) (f : FlowArrival) :
    d.onFlow f.key f.now =
      (keyed FlowArrival.src (scanEntry d.windowSecs d.threshold) d.seen f).map
        (fun seen => { d with seen := seen }) id := by
  have hcounted : d.counted f.key f.now = countedEntry d.windowSecs (d.seen.lookup f.src) f := rfl
  simp only [PortScanDetector.onFlow, hcounted, keyed, scanEntry, Prod.map, id]
  split_ifs <;> rfl

def spikeEntry (alpha spikeFactor floorBytes : ℚ) (o : Option ℚ) (f : FlowArrival) :
    ℚ × List Alert :=
  let bytes : ℚ := f.stats.bytes.toNat
  match o with
  | some a =>
    (alpha * bytes + (1 - alpha) * a,
      if bytes > floorBytes ∧ a > 0 ∧ bytes > spikeFactor * a then
        [volumeSpikeAlert f.src bytes a f.now]
      else [])
  | none => (bytes, [])

theorem VolumeSpikeDetector.onFlow_eq (d : VolumeSpikeDetector) (f : FlowArrival) :
    d.onFlow f.key f.stats f.now =
      (keyed FlowArrival.src (spikeEntry d.alpha d.spikeFactor d.floorBytes) d.ewma f).map
        (fun ewma => { d with ewma := ewma }) id := by
  simp only [VolumeSpikeDetector.onFlow, keyed, spikeEntry, FlowArrival.src, Prod.map, id]
  cases d.ewma.lookup f.key.srcIp with
  | none => rfl
  | some a =>
      dsimp only
      split_ifs <;> rfl

/-! ## Runs, source by source -/

theorem PortScanDetector.run_eq (d : PortScanDetector) (flows : List FlowArrival) : d.run flows =
    (foldEmit (keyed FlowArrival.src (scanEntry d.windowSecs d.threshold)) d.seen flows).map
      (fun seen => { d with seen := seen }) id := by
  have hrun := foldEmit_simulation (f := fun (d : PortScanDetector) f => d.onFlow f.key f.now)
    (g := keyed FlowArrival.src (scanEntry d.windowSecs d.threshold)) (i := id) (o := id)
    (e := fun seen => { d with seen := seen }) (l := flows)
    (fun seen f _ => by
      rw [List.map_id_fun]
      exact PortScanDetector.onFlow_eq { d with seen := seen } f) d.seen
  rwa [List.map_id, List.map_id_fun] at hrun

theorem VolumeSpikeDetector.run_eq (d : VolumeSpikeDetector) (flows : List FlowArrival) :
    d.run flows =
      (foldEmit (keyed FlowArrival.src (spikeEntry d.alpha d.spikeFactor d.floorBytes)) d.ewma
        flows).map (fun ewma => { d with ewma := ewma }) id := by
  have hrun := foldEmit_simulation
    (f := fun (d : VolumeSpikeDetector) f => d.onFlow f.key f.stats f.now)
    (g := keyed FlowArrival.src (spikeEntry d.alpha d.spikeFactor d.floorBytes)) (i := id)
    (o := id) (e := fun ewma => { d with ewma := ewma }) (l := flows)
    (fun ewma f _ => by
      rw [List.map_id_fun]
      exact VolumeSpikeDetector.onFlow_eq { d with ewma := ewma } f) d.ewma
  rwa [List.map_id, List.map_id_fun] at hrun

theorem concerns_scanEntry (window : Int) (threshold : Nat) (s : Ipv4Be) (o : Option ScanState)
    (f : FlowArrival) :
    ∀ a ∈ (scanEntry window threshold o f).2, a.concerns s = decide (f.src = s) := by
  intro a ha
  simp only [scanEntry, apply_ite Prod.snd] at ha
  split_ifs at ha
  · rw [List.mem_singleton.mp ha, concerns_portScanAlert]
  · exact absurd ha List.not_mem_nil

theorem concerns_spikeEntry (alpha spikeFactor floorBytes : ℚ) (s : Ipv4Be) (o : Option ℚ)
    (f : FlowArrival) :
    ∀ a ∈ (spikeEntry alpha spikeFactor floorBytes o f).2, a.concerns s = decide (f.src = s) := by
  intro a ha
  cases o with
  | none => exact absurd ha List.not_mem_nil
  | some avg =>
      simp only [spikeEntry] at ha
      split_ifs at ha
      · rw [List.mem_singleton.mp ha, concerns_volumeSpikeAlert]
      · exact absurd ha List.not_mem_nil

/-- The entry of a source, and the alerts about it, are those of its own flows. -/
theorem PortScanDetector.run_source (d : PortScanDetector) (flows : List FlowArrival)
    (s : Ipv4Be) :
    (d.run flows).1.seen.lookup s =
      (foldEmit (entry (scanEntry d.windowSecs d.threshold)) (d.seen.lookup s)
        (flowsOf s flows)).1 ∧
    (d.run flows).2.filter (Alert.concerns s) =
      (foldEmit (entry (scanEntry d.windowSecs d.threshold)) (d.seen.lookup s)
        (flowsOf s flows)).2 := by
  rw [d.run_eq]
  exact foldEmit_keyed (concerns_scanEntry _ _ s) d.seen flows

theorem VolumeSpikeDetector.run_source (d : VolumeSpikeDetector) (flows : List FlowArrival)
    (s : Ipv4Be) :
    (d.run flows).1.ewma.lookup s =
      (foldEmit (entry (spikeEntry d.alpha d.spikeFactor d.floorBytes)) (d.ewma.lookup s)
        (flowsOf s flows)).1 ∧
    (d.run flows).2.filter (Alert.concerns s) =
      (foldEmit (entry (spikeEntry d.alpha d.spikeFactor d.floorBytes)) (d.ewma.lookup s)
        (flowsOf s flows)).2 := by
  rw [d.run_eq]
  exact foldEmit_keyed (concerns_spikeEntry _ _ _ s) d.ewma flows

end Lanscope
