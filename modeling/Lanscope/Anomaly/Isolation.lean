import Lanscope.Anomaly.Entries

/-!
# Hosts do not affect each other's alerts

The default stack run over the traffic of all hosts does about one of them what it does run over
that host's traffic alone.
-/

namespace Lanscope

open Framework

def Engine.run (e : Engine) (flows : List FlowArrival) : Engine × List Alert :=
  foldEmit (fun e f => e.onFlow f.key f.stats f.now) e flows

/-- What a detector has stored about a source. -/
def Detector.stored (s : Ipv4Be) : Detector → Option (ScanState ⊕ ℚ)
  | .newDevice => none
  | .portScan d => (d.seen.lookup s).map .inl
  | .volumeSpike d => (d.ewma.lookup s).map .inr

/-- The maps of the two flow detectors. -/
structure Stores where
  seen : HashMap Ipv4Be ScanState
  ewma : HashMap Ipv4Be ℚ

def Stores.engine (m : Stores) : Engine :=
  ⟨[.newDevice, .portScan { seen := m.seen }, .volumeSpike { ewma := m.ewma }]⟩

/-- Both detectors of the default stack, in their order. -/
def Stores.onFlow (m : Stores) (f : FlowArrival) : Stores × List Alert :=
  let scan := keyed FlowArrival.src (scanEntry 10 20) m.seen f
  let spike := keyed FlowArrival.src (spikeEntry (3 / 10) 5 1000000) m.ewma f
  (⟨scan.1, spike.1⟩, scan.2 ++ spike.2)

theorem Stores.onFlow_engine (m : Stores) (f : FlowArrival) :
    m.engine.onFlow f.key f.stats f.now = (m.onFlow f).map Stores.engine id := by
  have hscan := PortScanDetector.onFlow_eq { seen := m.seen } f
  have hspike := VolumeSpikeDetector.onFlow_eq { ewma := m.ewma } f
  simp only [Engine.onFlow, Stores.engine, List.map_cons, List.map_nil, Detector.onFlow, hscan,
    hspike, List.flatMap_cons, List.flatMap_nil, List.append_nil, List.nil_append]
  rfl

theorem Stores.run_engine (m : Stores) (flows : List FlowArrival) :
    m.engine.run flows = (foldEmit Stores.onFlow m flows).map Stores.engine id := by
  have hrun := foldEmit_simulation (f := fun (e : Engine) f => e.onFlow f.key f.stats f.now)
    (g := Stores.onFlow) (i := id) (o := id) (e := Stores.engine) (l := flows)
    (fun m f _ => by
      rw [List.map_id_fun]
      exact m.onFlow_engine f) m
  rwa [List.map_id, List.map_id_fun] at hrun

/-- Both maps have the same entry for the source. -/
def Stores.AgreeOn (s : Ipv4Be) (m m' : Stores) : Prop :=
  m.seen.lookup s = m'.seen.lookup s ∧ m.ewma.lookup s = m'.ewma.lookup s

private theorem onFlow_own {s : Ipv4Be} {m m' : Stores} (h : m.AgreeOn s m') {f : FlowArrival}
    (hf : f.src = s) : (m.onFlow f).1.AgreeOn s (m'.onFlow f).1 ∧
      (m.onFlow f).2.filter (Alert.concerns s) = (m'.onFlow f).2 := by
  have hscan := filter_keyed_self (concerns_scanEntry 10 20 s) m.seen hf
  have hspike := filter_keyed_self (concerns_spikeEntry (3 / 10) 5 1000000 s) m.ewma hf
  subst s
  obtain ⟨hseen, hscan'⟩ := keyed_congr FlowArrival.src (scanEntry 10 20) h.1
  obtain ⟨hewma, hspike'⟩ :=
    keyed_congr FlowArrival.src (spikeEntry (3 / 10) 5 1000000) h.2
  refine ⟨⟨hseen, hewma⟩, ?_⟩
  simp only [Stores.onFlow, List.filter_append]
  rw [hscan, hspike, hscan', hspike']

private theorem onFlow_other {s : Ipv4Be} {m m' : Stores} (h : m.AgreeOn s m') {f : FlowArrival}
    (hf : f.src ≠ s) : (m.onFlow f).1.AgreeOn s m' ∧
      (m.onFlow f).2.filter (Alert.concerns s) = [] := by
  obtain ⟨hseen, hscan⟩ := keyed_other (concerns_scanEntry 10 20 s) m.seen hf
  obtain ⟨hewma, hspike⟩ := keyed_other (concerns_spikeEntry (3 / 10) 5 1000000 s) m.ewma hf
  refine ⟨⟨hseen.trans h.1, hewma.trans h.2⟩, ?_⟩
  simp only [Stores.onFlow, List.filter_append, hscan, hspike, List.append_nil]

/-- The alerts about a source, and what the detectors store about it, do not depend on the traffic
of other sources. -/
theorem Engine.run_isolated (flows : List FlowArrival) (s : Ipv4Be) :
    (defaultStack.run flows).2.filter (Alert.concerns s) =
      (defaultStack.run (flowsOf s flows)).2 ∧
    (defaultStack.run flows).1.detectors.map (Detector.stored s) =
      (defaultStack.run (flowsOf s flows)).1.detectors.map (Detector.stored s) := by
  obtain ⟨hagree, halerts⟩ := foldEmit_unwinding (f := Stores.onFlow) (g := Stores.onFlow)
    (R := Stores.AgreeOn s) (q := Alert.concerns s)
    (fun m m' f h hf => onFlow_own h (of_decide_eq_true hf))
    (fun m m' f h hf => onFlow_other h fun hs => hf (decide_eq_true hs))
    flows (s := ⟨∅, ∅⟩) (t := ⟨∅, ∅⟩) ⟨rfl, rfl⟩
  have hstack : defaultStack = Stores.engine ⟨∅, ∅⟩ := rfl
  rw [hstack, Stores.run_engine, Stores.run_engine]
  refine ⟨halerts, ?_⟩
  simp only [Prod.map, Stores.engine, List.map_cons, List.map_nil, Detector.stored, hagree.1,
    hagree.2]
  rfl

end Lanscope
