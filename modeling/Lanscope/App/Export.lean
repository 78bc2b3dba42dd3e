import Lanscope.App.Persistence
import Lanscope.Decode.DhcpWire
import Lanscope.Framework.Csv

/-!
# Exporting devices

The table of persisted devices as comma-separated values, and what a reader of such tables makes of
it. The other format is a serialisation of the records and is left out.
-/

namespace Lanscope

open Framework

/-- Escape a field minimally: quotes around a comma or a quote. -/
def csv (v : Option Str) : Str :=
  let s := v.getD []
  if ',' ∈ s ∨ '"' ∈ s then '"' :: (s.flatMap fun c => if c = '"' then ['"', '"'] else [c]) ++ ['"']
  else s

def csvHeader : Str := "mac,vendor,hostname,ip,services,packets,bytes,first_seen,last_seen".toList

def csvRow (d : Device) : Str :=
  Str.join [','] [
    d.mac,
    csv d.vendor,
    csv d.hostname,
    d.ips.getLast?.getD [],
    Str.ofNat d.services.length,
    Str.ofNat d.packets.toNat,
    Str.ofNat d.bytes.toNat,
    Str.ofInt d.firstSeen,
    Str.ofInt d.lastSeen]

/-- What `export` prints for a list of devices in the format `csv`. -/
def exportCsv (devices : List Device) : Str :=
  csvHeader ++ ['\n'] ++ devices.flatMap fun d => csvRow d ++ ['\n']

def cmdExportCsv (serde : Serde) (store : SqliteStore) (rows : List Str) : Str :=
  exportCsv (store.loadDevices serde rows)

/-! ## The table that is meant -/

def csvColumns : List Str := [
  "mac".toList,
  "vendor".toList,
  "hostname".toList,
  "ip".toList,
  "services".toList,
  "packets".toList,
  "bytes".toList,
  "first_seen".toList,
  "last_seen".toList]

/-- The values of a device under the columns. A missing text is empty. -/
def csvRecord (d : Device) : List Str := [
  d.mac,
  d.vendor.getD [],
  d.hostname.getD [],
  d.ips.getLast?.getD [],
  Str.ofNat d.services.length,
  Str.ofNat d.packets.toNat,
  Str.ofNat d.bytes.toNat,
  Str.ofInt d.firstSeen,
  Str.ofInt d.lastSeen]

/-- Some history of the program leaves the record in its registry. -/
def CanHold (serde : Serde) (d : Device) : Prop :=
  ∃ history s agent mac, exec (siteStep serde) Site.initial history = some s ∧
    s.agent = some agent ∧ agent.registry.get mac = some d

/-! ## Texts that the program makes itself -/

private theorem plain_ofNat (n : Nat) : Csv.Plain (Str.ofNat n) := by
  intro c hc hspecial
  have hdigit := Str.isDigit_of_mem_ofNat hc
  simp only [List.mem_cons, List.not_mem_nil, or_false] at hspecial
  rcases hspecial with rfl | rfl | rfl | rfl <;> exact absurd hdigit (by decide)

private theorem plain_ofInt (n : Int) : Csv.Plain (Str.ofInt n) := by
  cases n with
  | ofNat n => exact plain_ofNat n
  | negSucc n =>
      exact List.forall_mem_cons.mpr ⟨by decide, plain_ofNat (n + 1)⟩

private theorem plain_ofByteHex (b : UInt8) : Csv.Plain (Str.ofByteHex b) := by
  have hdigits : Csv.Plain Str.hexDigits := by decide
  exact fun c hc => hdigits c (Str.ofByteHex_subset b hc)

private theorem plain_fmtMac (mac : MacAddr) : Csv.Plain (fmtMac mac) := by
  apply Csv.plain_join (by decide)
  intro p hp
  obtain ⟨b, _, rfl⟩ := List.mem_map.mp hp
  exact plain_ofByteHex b

private theorem plain_fmtIpv4 (ip : Ipv4Be) : Csv.Plain (fmtIpv4 ip) := by
  apply Csv.plain_join (by decide)
  intro p hp
  obtain ⟨o, _, rfl⟩ := List.mem_map.mp hp
  exact plain_ofNat o.toNat

private theorem plain_vendor {mac : MacAddr} {vendor : Str} (h : Oui.lookup mac = some vendor) :
    Csv.Plain vendor := by
  have htable : ∀ entry ∈ Oui.table, Csv.Plain entry.2 := by decide
  unfold Oui.lookup at h
  split_ifs at h
  · obtain rfl := Option.some.inj h
    decide
  · obtain ⟨entry, hentry, rfl⟩ := Option.map_eq_some_iff.mp h
    exact htable entry (List.mem_of_find?_eq_some hentry)

/-- The texts that the program makes itself are plain. -/
structure OwnTexts (d : Device) : Prop where
  mac : Csv.Plain d.mac
  vendor : ∀ v, d.vendor = some v → Csv.Plain v
  ips : ∀ ip ∈ d.ips, Csv.Plain ip

private theorem ownTexts_foldObservation {d : Device} (h : OwnTexts d) (obs : Observation)
    (now : Int) : OwnTexts (retype (foldObservation d obs now)) := by
  simp only [retype, foldObservation_eq]
  refine ⟨h.mac, h.vendor, ?_⟩
  cases obs.ip with
  | none => exact h.ips
  | some ip =>
      intro s hs
      rcases List.mem_append.mp hs with hs | hs
      · exact h.ips s (List.mem_of_mem_erase hs)
      · obtain rfl := List.mem_singleton.mp hs
        exact plain_fmtIpv4 ip

theorem ownTexts_recordInvariant : RecordInvariant fun _ => OwnTexts where
  created obs now _ := ownTexts_foldObservation
    ⟨plain_fmtMac obs.mac, fun _ hv => plain_vendor hv, by simp [Device.new]⟩ obs now
  updated obs now _ h := ownTexts_foldObservation h obs now
  credited _ _ _ _ h := ⟨h.mac, h.vendor, h.ips⟩

theorem CanHold.ownTexts {serde : Serde} (hserde : serde.RoundTrip) {d : Device}
    (h : CanHold serde d) : OwnTexts d := by
  obtain ⟨history, s, agent, mac, hrun, hagent, hd⟩ := h
  have hs := exec_invariant (siteHolds_step ownTexts_recordInvariant hserde
    fun _ _ h => ⟨h.mac, h.vendor, h.ips⟩) (siteHolds_initial serde OwnTexts) hrun
  exact hs.records agent hagent mac d hd

/-! ## Reading the table back -/

private theorem csv_plain {s : Str} (h : Csv.Plain s) : csv (some s) = s := by
  have hneither : ¬ (',' ∈ s ∨ '"' ∈ s) := by
    rintro (hcomma | hquote)
    · exact h ',' hcomma (by decide)
    · exact h '"' hquote (by decide)
  exact if_neg hneither

private theorem csv_getD (v : Option Str) : csv v = csv (some (v.getD [])) := rfl

private theorem reads_csv (s : Str) (h : ¬ Csv.LineBroken s) : Csv.Reads (csv (some s)) s := by
  unfold csv
  simp only [Option.getD_some]
  split_ifs with hspecial
  · exact Csv.reads_quote s
  · rw [not_or] at hspecial
    have hline : '\n' ∉ s ∧ '\r' ∉ s := not_or.mp fun hline => h ⟨hspecial, hline⟩
    apply Csv.reads_plain
    intro c hc hmem
    simp only [List.mem_cons, List.not_mem_nil, or_false] at hmem
    rcases hmem with rfl | rfl | rfl | rfl
    · exact hspecial.1 hc
    · exact hspecial.2 hc
    · exact hline.1 hc
    · exact hline.2 hc

private theorem csv_lineBroken (s : Str) (h : Csv.LineBroken s) : csv (some s) = s :=
  if_neg (not_or.mpr h.1)

private theorem OwnTexts.ip {d : Device} (h : OwnTexts d) :
    Csv.Plain (d.ips.getLast?.getD []) := by
  cases hlast : d.ips.getLast? with
  | none => exact fun c hc => absurd hc List.not_mem_nil
  | some ip => exact h.ips ip (List.mem_of_getLast? hlast)

/-- A row is its record with every value escaped, since escaping leaves the other columns alone. -/
private theorem csvRow_eq {d : Device} (h : OwnTexts d) :
    csvRow d ++ ['\n'] = Csv.line (fun v => csv (some v)) (csvRecord d) := by
  simp only [csvRow, Csv.line, csvRecord, List.map_cons, List.map_nil, csv_plain h.mac,
    csv_plain h.ip, csv_plain (plain_ofNat _), csv_plain (plain_ofInt _), csv_getD d.vendor,
    csv_getD d.hostname]

private theorem csvHeader_eq :
    csvHeader ++ ['\n'] = Csv.line (fun v => csv (some v)) csvColumns := by
  decide

private theorem lineBroken_csvRecord_iff {d : Device} (h : OwnTexts d) :
    (∀ v ∈ csvRecord d, ¬ Csv.LineBroken v) ↔
      ∀ hostname, d.hostname = some hostname → ¬ Csv.LineBroken hostname := by
  constructor
  · intro hall hostname hhost
    have hfield := hall (d.hostname.getD []) (by simp [csvRecord])
    rwa [hhost] at hfield
  · intro hhost
    have hempty : Csv.Plain [] := fun c hc => absurd hc List.not_mem_nil
    have hhostname : ¬ Csv.LineBroken (d.hostname.getD []) := by
      cases hd : d.hostname with
      | none => exact hempty.not_lineBroken
      | some hostname => exact hhost hostname hd
    have hvendor : Csv.Plain (d.vendor.getD []) := by
      cases hd : d.vendor with
      | none => exact hempty
      | some vendor => exact h.vendor vendor hd
    simp only [csvRecord, List.forall_mem_cons]
    exact ⟨h.mac.not_lineBroken, hvendor.not_lineBroken, hhostname, h.ip.not_lineBroken,
      (plain_ofNat _).not_lineBroken, (plain_ofNat _).not_lineBroken,
      (plain_ofNat _).not_lineBroken, (plain_ofInt _).not_lineBroken,
      (plain_ofInt _).not_lineBroken, by simp⟩

private theorem read_exportCsv {devices : List Device} (h : ∀ d ∈ devices, OwnTexts d) :
    Csv.read (exportCsv devices) = some (csvColumns :: devices.map csvRecord) ↔
      ∀ d ∈ devices, ∀ hostname, d.hostname = some hostname → ¬ Csv.LineBroken hostname := by
  have htext : exportCsv devices =
      (csvColumns :: devices.map csvRecord).flatMap (Csv.line fun v => csv (some v)) := by
    rw [exportCsv, csvHeader_eq, List.flatMap_cons, List.flatMap_map]
    exact congrArg _ (List.flatMap_congr fun d hd => csvRow_eq (h d hd))
  have hcolumns : ∀ v ∈ csvColumns, ¬ Csv.LineBroken v := by decide
  rw [htext, Csv.read_table_iff reads_csv csv_lineBroken, List.forall_mem_cons,
    and_iff_right hcolumns, List.forall_mem_map]
  · exact forall₂_congr fun d hd => lineBroken_csvRecord_iff (h d hd)
  · simp [csvColumns, csvRecord]

/-- The table exported for any devices that the registry can hold is read back as the header and the
record of each device, in order, exactly when no hostname has a line break but neither a comma nor a
quote. -/
theorem read_exportCsv_iff (serde : Serde) (hserde : serde.RoundTrip) (devices : List Device)
    (hdevices : ∀ d ∈ devices, CanHold serde d) :
    Csv.read (exportCsv devices) = some (csvColumns :: devices.map csvRecord) ↔
      ∀ d ∈ devices, ∀ hostname, d.hostname = some hostname → ¬ Csv.LineBroken hostname :=
  read_exportCsv fun d hd => (hdevices d hd).ownTexts hserde

/-! ## Hostnames that a client sends -/

/-- What the first event of a first run leaves in the registry can be held, whatever is written. -/
private theorem canHold_firstEvent {serde : Serde} {ev : CaptureEvent} {now : Int} {mac : MacAddr}
    {d : Device}
    (h : (handleEvent now [] (started serde SqliteStore.empty []) ev).agent.registry.get mac =
      some d) : CanHold serde d := by
  let handled := handleEvent now [] (started serde SqliteStore.empty []) ev
  let outcomes := handled.writes.map fun _ => true
  let final : Site :=
    ⟨SqliteStore.empty.writeAll serde (handled.writes.zip outcomes), some handled.agent⟩
  have hevent : siteStep serde ⟨SqliteStore.empty, some (started serde SqliteStore.empty [])⟩
      (.event ev now [] outcomes) = some final := by
    have hlen : outcomes.length = handled.writes.length := List.length_map _
    have hfinish : finish serde SqliteStore.empty handled.agent handled.writes outcomes =
        some final := by
      rw [finish, if_pos hlen.le, if_pos hlen]
    exact hfinish
  exact ⟨[.start [], .event ev now [] outcomes], final, handled.agent, mac,
    exec_cons_iff.mpr ⟨_, rfl, exec_cons_iff.mpr ⟨final, hevent, rfl⟩⟩, rfl, h⟩

/-- The device of a DHCP client that sends a hostname can be held. -/
private theorem canHold_hostname (data : List UInt8) {h : Str} (hlen : data.length < 256)
    (htext : Utf8.fromUtf8 data = some h)
    (hbare : (h.trimMatches fun c => c = Char.ofNat 0).trim = h) (hne : h ≠ []) :
    ∃ d, CanHold jsonSerde d ∧ d.hostname = some h := by
  let mac : MacAddr := MacAddr.ofBytes 0x50 0xc7 0xbf 0x01 0x02 0x03
  let area : List UInt8 := Dhcp.optHostname :: UInt8.ofNat data.length :: (data ++ [255])
  let e := Event.holding .dhcp mac 0 (Dhcp.magicCookie ++ area)
  let obs : Observation := ⟨mac, none, .hostname h⟩
  let agent := started jsonSerde SqliteStore.empty []
  have hpayload : e.validPayload = Dhcp.magicCookie ++ area := by
    refine Event.validPayload_holding _ _ _ ?_
    simp only [area, Dhcp.magicCookie, eventPayloadLen, List.length_append, List.length_cons,
      List.length_nil]
    omega
  have hkind : e.eventKind = .dhcp := rfl
  have hsignal : Dhcp.decode (Dhcp.magicCookie ++ area) = [.hostname h] := by
    have hfirst : Dhcp.FirstCookie (Dhcp.magicCookie ++ area) 0 :=
      ⟨rfl, fun q hq => absurd hq (Nat.not_lt_zero q)⟩
    have hdata : data.length = (UInt8.ofNat data.length).toNat :=
      (UInt8.toNat_ofNat_of_lt' hlen).symm
    have hwalk : Dhcp.walk area = Dhcp.optionSignal Dhcp.optHostname data ++ Dhcp.walk [255] :=
      Dhcp.walk_option (by decide) (by decide) hdata [255]
    rw [Dhcp.decode_of_firstCookie hfirst]
    refine hwalk.trans ?_
    rw [show Dhcp.walk [255] = [] from Dhcp.walk_end [], List.append_nil, Dhcp.optionSignal,
      if_pos rfl, htext]
    simp only [hbare, hne, ne_eq, not_false_eq_true, if_true]
  have hdecode : decodeEvent e = [obs] := by
    rw [decodeEvent, eventSignals, hkind]
    simp only [hpayload, hsignal]
    rfl
  have hget : (handleEvent 100 [] agent (.discovery e)).agent.registry.get mac =
      some (observed agent.registry obs 100) := by
    simp only [handleEvent, hdecode, foldEmit_singleton]
    rw [get_handleObservation 100 agent obs (show mac ≠ zeroMac by decide), if_pos rfl]
  exact ⟨_, canHold_firstEvent hget, rfl⟩

theorem read_exportCsv_iff_quotedHostname :
    ∃ d e, CanHold jsonSerde d ∧ CanHold jsonSerde e ∧ e.hostname = some "pc,\"1\"".toList ∧
      Csv.read (exportCsv [d, e]) = some [csvColumns, csvRecord d, csvRecord e] := by
  have hd : CanHold jsonSerde _ := ⟨arpHistory, _, _, arpEvent.srcMac, rfl, rfl, rfl⟩
  obtain ⟨e, he, hhost⟩ := canHold_hostname [112, 99, 44, 34, 49, 34] (by decide)
    (Utf8.fromUtf8_ascii (by simp)) (by decide) (by decide)
  refine ⟨_, e, hd, he, hhost, ?_⟩
  refine (read_exportCsv_iff jsonSerde roundTrip_jsonSerde [_, e] (by simpa using ⟨hd, he⟩)).mpr ?_
  simp only [List.forall_mem_cons]
  refine ⟨fun hostname h => absurd h.symm (Option.some_ne_none hostname), fun hostname h => ?_, by simp⟩
  obtain rfl := Option.some.inj (hhost.symm.trans h)
  decide

/-- The same for the command, run over the store at any point of any history. -/
theorem read_cmdExportCsv_iff (serde : Serde) (hserde : serde.RoundTrip)
    (history : List SiteStep) (s : Site)
    (hrun : exec (siteStep serde) Site.initial history = some s) (rows : List Str) :
    Csv.read (cmdExportCsv serde s.store rows) =
        some (csvColumns :: (s.store.loadDevices serde rows).map csvRecord) ↔
      ∀ d ∈ s.store.loadDevices serde rows, ∀ hostname, d.hostname = some hostname →
        ¬ Csv.LineBroken hostname := by
  have hs := exec_invariant (siteHolds_step ownTexts_recordInvariant hserde
    fun _ _ h => ⟨h.mac, h.vendor, h.ips⟩) (siteHolds_initial serde OwnTexts) hrun
  apply read_exportCsv
  intro d hd
  obtain ⟨key, _, hkey⟩ := List.mem_filterMap.mp hd
  obtain ⟨row, hrow, rfl⟩ := Option.map_eq_some_iff.mp hkey
  exact hs.rows key row hrow

/-! ## A hostname on two lines -/

/-- A device whose hostname has a line break takes two lines, neither of which is its record. -/
theorem export_splits_record :
    ¬ ∀ serde : Serde, serde.RoundTrip → ∀ devices : List Device,
      (∀ d ∈ devices, CanHold serde d) →
        Csv.read (exportCsv devices) = some (csvColumns :: devices.map csvRecord) := by
  intro h
  obtain ⟨d, hheld, hhost⟩ := canHold_hostname [97, 10, 98] (by decide)
    (Utf8.fromUtf8_ascii (by simp)) (by decide) (by decide)
  have hread := h jsonSerde roundTrip_jsonSerde [d] (by simpa using hheld)
  rw [read_exportCsv (by simpa using hheld.ownTexts roundTrip_jsonSerde)] at hread
  exact hread d (List.mem_singleton_self d) _ hhost (by decide)

end Lanscope
