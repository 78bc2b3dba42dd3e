import Lanscope.Common.Flow
import Lanscope.Framework.Text

/-!
# Flow features

The feature vector that the runtime extracts from a flow, and the one that the training pipeline
extracts from a connection record of the same flow. Floating-point numbers are exact rationals here.
-/

namespace Lanscope

open Framework

/-! ## Derived statistics -/

namespace FlowStats

/-- Zero where the clock readings are out of order. -/
def durationSecs (stats : FlowStats) : ℚ :=
  ((stats.lastSeenNs.toNat - stats.firstSeenNs.toNat : Nat) : ℚ) / 1000000000

def bytesPerSec (stats : FlowStats) : ℚ :=
  let d := stats.durationSecs
  if d ≤ 0 then stats.bytes.toNat else stats.bytes.toNat / d

def meanPacketLen (stats : FlowStats) : ℚ :=
  if stats.packets = 0 then 0 else (stats.bytes.toNat : ℚ) / stats.packets.toNat

end FlowStats

/-! ## The runtime -/

def featureNames : List Str := [
  "duration_secs".toList,
  "packets".toList,
  "bytes".toList,
  "bytes_per_sec".toList,
  "mean_packet_len".toList,
  "min_len".toList,
  "max_len".toList,
  "syn".toList,
  "fin".toList,
  "rst".toList,
  "ack".toList,
  "protocol".toList,
  "dst_port".toList]

def extract (key : FlowKey) (stats : FlowStats) : List ℚ := [
  stats.durationSecs,
  stats.packets.toNat,
  stats.bytes.toNat,
  stats.bytesPerSec,
  stats.meanPacketLen,
  stats.minLen.toNat,
  stats.maxLen.toNat,
  stats.syn.toNat,
  stats.fin.toNat,
  stats.rst.toNat,
  stats.ack.toNat,
  key.protocol.toNat,
  key.dstPort.toNat]

/-! ## The training pipeline -/

namespace Ml

/-- The fields of a connection record that the pipeline reads. A missing field is `none`. -/
structure Row where
  duration : Option ℚ
  origPkts : Option ℚ
  respPkts : Option ℚ
  origBytes : Option ℚ
  respBytes : Option ℚ
  history : Option Str
  proto : Option Str
  /-- The field `id.resp_p`. -/
  respPort : Option ℚ

/-- `str.isspace` of Python: Unicode white space and the four information separators. -/
def isSpace (c : Char) : Bool :=
  Str.isWhitespace c || (0x1C ≤ c.toNat && c.toNat ≤ 0x1F)

def proto : List (Str × Nat) := [("icmp".toList, 1), ("tcp".toList, 6), ("udp".toList, 17)]

/-- Only ASCII letters lower to the letters of the three names, so lowering these is enough. -/
def normalised (name : Str) : Str := (name.trimMatches isSpace).toAsciiLowercase

def protoToNum (name : Str) : Nat := (proto.lookup (normalised name)).getD 255

structure FlagCounts where
  syn : Nat
  fin : Nat
  rst : Nat
  ack : Nat

def countFlags (history : Str) : FlagCounts :=
  let low := history.toAsciiLowercase
  ⟨low.count 's', low.count 'f', low.count 'r', low.count 'a'⟩

def extractRow (row : Row) : List ℚ :=
  let duration := row.duration.getD 0
  let packets := row.origPkts.getD 0 + row.respPkts.getD 0
  let totalBytes := row.origBytes.getD 0 + row.respBytes.getD 0
  let bytesPerSec := if duration > 0 then totalBytes / duration else totalBytes
  let meanLen := if packets > 0 then totalBytes / packets else 0
  let flags := countFlags (row.history.getD [])
  [duration,
    packets,
    totalBytes,
    bytesPerSec,
    meanLen,
    meanLen, -- not in the record
    meanLen, -- not in the record
    flags.syn,
    flags.fin,
    flags.rst,
    flags.ack,
    -- a missing protocol reads as the empty name
    protoToNum (row.proto.getD []),
    row.respPort.getD 0]

end Ml

/-! ## The two vectors -/

/-- The names of the three known protocols, and any other name for every other number. -/
def NamesProtocol (protocol : UInt8) (name : Str) : Prop :=
  if protocol = 1 then name = "icmp".toList
  else if protocol = 6 then name = "tcp".toList
  else if protocol = 17 then name = "udp".toList
  else Ml.normalised name ∉ ["icmp".toList, "tcp".toList, "udp".toList]

instance (protocol : UInt8) (name : Str) : Decidable (NamesProtocol protocol name) := by
  delta NamesProtocol
  infer_instance

/-- The connection record of a unidirectional flow. Nothing comes back, and a flag letter counts in
either case. -/
structure IsConnRecord (key : FlowKey) (stats : FlowStats) (row : Ml.Row) : Prop where
  duration : row.duration =
    some (((stats.lastSeenNs.toNat : ℚ) - stats.firstSeenNs.toNat) / 1000000000)
  origPkts : row.origPkts = some (stats.packets.toNat : ℚ)
  respPkts : row.respPkts = some 0
  origBytes : row.origBytes = some (stats.bytes.toNat : ℚ)
  respBytes : row.respBytes = some 0
  history : ∃ h, row.history = some h ∧ h.count 'S' + h.count 's' = stats.syn.toNat ∧
    h.count 'F' + h.count 'f' = stats.fin.toNat ∧ h.count 'R' + h.count 'r' = stats.rst.toNat ∧
    h.count 'A' + h.count 'a' = stats.ack.toNat
  proto : ∃ name, row.proto = some name ∧ NamesProtocol key.protocol name
  respPort : row.respPort = some (key.dstPort.toNat : ℚ)

/-- The features that the training pipeline is documented to approximate. -/
def approximated : List Str := ["min_len".toList, "max_len".toList]

/-- Both vectors have the same value under every name but the approximated ones. -/
def FeaturesAgree (key : FlowKey) (stats : FlowStats) (row : Ml.Row) : Prop :=
  ∀ e ∈ featureNames.zip ((extract key stats).zip (Ml.extractRow row)),
    e.1 ∉ approximated → e.2.1 = e.2.2

theorem length_extract (key : FlowKey) (stats : FlowStats) (row : Ml.Row) :
    (extract key stats).length = featureNames.length ∧
      (Ml.extractRow row).length = featureNames.length := ⟨rfl, rfl⟩

private theorem countFlags_eq (h : Str) : Ml.countFlags h =
    ⟨h.count 'S' + h.count 's', h.count 'F' + h.count 'f', h.count 'R' + h.count 'r',
      h.count 'A' + h.count 'a'⟩ := by
  simp only [Ml.countFlags]
  rw [Str.count_toAsciiLowercase h 'S' (by decide) rfl,
    Str.count_toAsciiLowercase h 'F' (by decide) rfl,
    Str.count_toAsciiLowercase h 'R' (by decide) rfl,
    Str.count_toAsciiLowercase h 'A' (by decide) rfl]

/-- The number that the training pipeline reads off the name of a protocol. -/
private theorem protoToNum_of_names {protocol : UInt8} {name : Str}
    (h : NamesProtocol protocol name) :
    Ml.protoToNum name = if protocol ∈ [1, 6, 17] then protocol.toNat else 255 := by
  unfold NamesProtocol at h
  split_ifs at h with h₁ h₂ h₃
  · subst protocol name
    decide
  · subst protocol name
    decide
  · subst protocol name
    decide
  · have hother : protocol ∉ [1, 6, 17] := by simp [h₁, h₂, h₃]
    have hmiss : Ml.proto.lookup (Ml.normalised name) = none := by
      rw [List.lookup_eq_none_iff]
      intro entry hentry
      have hname : entry.1 ∈ ["icmp".toList, "tcp".toList, "udp".toList] :=
        List.mem_map_of_mem (f := Prod.fst) hentry
      simpa using fun heq : Ml.normalised name = entry.1 => h (heq ▸ hname)
    rw [if_neg hother, Ml.protoToNum, hmiss]
    rfl

/-- The runtime saturates where the clock readings are out of order, the record does not. -/
private theorem durationSecs_eq_iff (stats : FlowStats) :
    stats.durationSecs = ((stats.lastSeenNs.toNat : ℚ) - stats.firstSeenNs.toNat) / 1000000000 ↔
      stats.firstSeenNs ≤ stats.lastSeenNs := by
  rw [UInt64.le_iff_toNat_le, FlowStats.durationSecs, div_left_inj' (by norm_num)]
  constructor
  · intro h
    have hle : (stats.firstSeenNs.toNat : ℚ) ≤ stats.lastSeenNs.toNat := by
      rw [← sub_nonneg, ← h]
      exact Nat.cast_nonneg _
    exact_mod_cast hle
  · intro h
    exact Nat.cast_sub h

private theorem meanPacketLen_eq (stats : FlowStats) : stats.meanPacketLen =
    if (stats.packets.toNat : ℚ) > 0 then (stats.bytes.toNat : ℚ) / stats.packets.toNat else 0 := by
  have hzero : (stats.packets.toNat : ℚ) > 0 ↔ ¬ stats.packets = 0 := by
    rw [gt_iff_lt, Nat.cast_pos, Nat.pos_iff_ne_zero, Ne, ← UInt64.toNat_inj]
    rfl
  rw [FlowStats.meanPacketLen]
  by_cases h : stats.packets = 0
  · rw [if_pos h, if_neg fun hpos => hzero.mp hpos h]
  · rw [if_neg h, if_pos (hzero.mpr h)]

/-- Flags, counters and the mean length agree in any case. -/
private theorem featuresAgree_iff_eqs (key : FlowKey) (stats : FlowStats) (row : Ml.Row)
    (hrow : IsConnRecord key stats row) : FeaturesAgree key stats row ↔
      stats.durationSecs = row.duration.getD 0 ∧
      stats.bytesPerSec = (if row.duration.getD 0 > 0 then
        (stats.bytes.toNat : ℚ) / row.duration.getD 0 else stats.bytes.toNat) ∧
      (key.protocol.toNat : ℚ) = Ml.protoToNum (row.proto.getD []) := by
  obtain ⟨h, hhistory, hsyn, hfin, hrst, hack⟩ := hrow.history
  have hexact : featureNames.map (fun name => decide (name ∉ approximated)) =
      [true, true, true, true, true, false, false, true, true, true, true, true, true] := by decide
  simp only [featureNames, List.map_cons, List.map_nil, List.cons.injEq, decide_eq_true_eq,
    decide_eq_false_iff_not, not_not] at hexact
  simp only [FeaturesAgree, featureNames, extract, Ml.extractRow, hrow.origPkts, hrow.respPkts,
    hrow.origBytes, hrow.respBytes, hrow.respPort, hhistory, Option.getD_some, add_zero,
    countFlags_eq, hsyn, hfin, hrst, hack, List.zip_cons_cons, List.zip_nil_right,
    List.forall_mem_cons, hexact, not_false_eq_true, not_true_eq_false, forall_const,
    IsEmpty.forall_iff, true_and, List.not_mem_nil, and_true]
  rw [meanPacketLen_eq]
  simp only [true_and]

/-- Where the durations are equal, so are the rates. -/
private theorem bytesPerSec_eq (stats : FlowStats) {duration : ℚ}
    (h : stats.durationSecs = duration) :
    stats.bytesPerSec = if duration > 0 then stats.bytes.toNat / duration
      else stats.bytes.toNat := by
  rw [FlowStats.bytesPerSec, h]
  by_cases hpos : duration > 0
  · rw [if_pos hpos, if_neg (not_le.mpr hpos)]
  · rw [if_neg hpos, if_pos (not_lt.mp hpos)]

private theorem protocol_eq_iff (protocol : UInt8) :
    protocol.toNat = (if protocol ∈ [1, 6, 17] then protocol.toNat else 255) ↔
      protocol ∈ [1, 6, 17, 255] := by
  have h255 : protocol.toNat = 255 ↔ protocol = 255 := by
    rw [← UInt8.toNat_inj]
    rfl
  have hsplit : protocol ∈ [1, 6, 17, 255] ↔ protocol ∈ [1, 6, 17] ∨ protocol = 255 := by
    rw [← List.mem_singleton, ← List.mem_append]
    rfl
  rw [hsplit]
  by_cases hknown : protocol ∈ [1, 6, 17]
  · rw [if_pos hknown]
    exact iff_of_true rfl (Or.inl hknown)
  · rw [if_neg hknown, h255]
    exact ⟨Or.inr, fun h => h.resolve_left hknown⟩

/-- The two extractors agree on the record of a flow exactly when the clock readings are in order
and the protocol is one of the three known ones or 255, the number of all others in training. -/
theorem featuresAgree_iff (key : FlowKey) (stats : FlowStats) (row : Ml.Row)
    (hrow : IsConnRecord key stats row) : FeaturesAgree key stats row ↔
      stats.firstSeenNs ≤ stats.lastSeenNs ∧ key.protocol ∈ [1, 6, 17, 255] := by
  rw [featuresAgree_iff_eqs key stats row hrow]
  obtain ⟨name, hname, hnames⟩ := hrow.proto
  rw [hrow.duration, hname, Option.getD_some, Option.getD_some, protoToNum_of_names hnames,
    Nat.cast_inj, protocol_eq_iff, ← durationSecs_eq_iff]
  exact ⟨fun h => ⟨h.1, h.2.2⟩, fun h => ⟨h.1, bytesPerSec_eq stats h.1, h.2⟩⟩

/-- A two-second TCP flow to port 443, and its record. -/
def goldenKey : FlowKey := ⟨0x0a000001, 0x08080808, 5000, 443, 6⟩

def goldenStats : FlowStats where
  packets := 42
  bytes := 5120
  firstSeenNs := 1000000000
  lastSeenNs := 3000000000
  syn := 1
  ack := 40
  minLen := 60
  maxLen := 1500

def goldenRow (proto : Str) : Ml.Row where
  duration := some 2
  origPkts := some 42
  respPkts := some 0
  origBytes := some 5120
  respBytes := some 0
  history := some ('S' :: List.replicate 40 'A')
  proto := some proto
  respPort := some 443

private theorem isConnRecord_golden (protocol : UInt8) (name : Str)
    (h : NamesProtocol protocol name) :
    IsConnRecord { goldenKey with protocol := protocol } goldenStats (goldenRow name) := by
  refine ⟨?_, rfl, rfl, rfl, rfl, ⟨_, rfl, ?_, ?_, ?_, ?_⟩, ⟨name, rfl, h⟩, rfl⟩
  · have hlast : goldenStats.lastSeenNs.toNat = 3000000000 := rfl
    have hfirst : goldenStats.firstSeenNs.toNat = 1000000000 := rfl
    rw [hlast, hfirst, goldenRow]
    norm_num
  · decide
  · decide
  · decide
  · decide

theorem featuresAgree_iff_golden :
    FeaturesAgree goldenKey goldenStats (goldenRow "tcp".toList) ↔
      goldenStats.firstSeenNs ≤ goldenStats.lastSeenNs ∧ goldenKey.protocol ∈ [1, 6, 17, 255] :=
  featuresAgree_iff goldenKey goldenStats (goldenRow "tcp".toList) (isConnRecord_golden 6 _ rfl)

/-- A GRE flow has the protocol feature 47 at run time and 255 in training. -/
theorem features_disagree_gre :
    ¬ ∀ (key : FlowKey) (stats : FlowStats) (row : Ml.Row), IsConnRecord key stats row →
      FeaturesAgree key stats row := by
  intro h
  have hgre := isConnRecord_golden 47 "gre".toList (by decide)
  have hproto := ((featuresAgree_iff_eqs _ _ _ hgre).mp (h _ _ _ hgre)).2.2
  have hnumbers : ((47 : Nat) : ℚ) = (255 : Nat) := hproto
  exact absurd (Nat.cast_injective hnumbers) (by decide)

end Lanscope