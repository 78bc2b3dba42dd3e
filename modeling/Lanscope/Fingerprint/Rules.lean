import Lanscope.Registry.Device

/-!
# Rule-based fingerprinter

Each rule is a needle looked up in a lowercase text built from a device's signals, and the matching
rule of highest confidence wins. Confidences are kept in hundredths, which order as the source's
floating-point constants do.
-/

namespace Lanscope

open Framework

inductive Category
  | smartSpeaker
  | mediaStreamer
  | smartLight
  | camera
  | thermostat
  | printer
  | phone
  | computer
  | singleBoardComputer
  | router
  | nas
  | ioTSensor
  | unknown
  deriving DecidableEq

structure Classification where
  deviceType : Str
  category : Category
  /-- In hundredths. -/
  confidence : Nat
  rationale : Str
  deriving DecidableEq

structure Rule where
  needle : Str
  deviceType : Str
  category : Category
  confidence : Nat
  deriving DecidableEq

def rules : List Rule := [
  -- strong: advertised services / SSDP banners
  ⟨"amazonecho".toList, "Amazon Echo".toList, .smartSpeaker, 95⟩,
  ⟨"_googlecast".toList, "Google Chromecast".toList, .mediaStreamer, 92⟩,
  ⟨"googlecast".toList, "Google Chromecast".toList, .mediaStreamer, 90⟩,
  ⟨"sonos".toList, "Sonos Speaker".toList, .smartSpeaker, 92⟩,
  ⟨"roku".toList, "Roku Streamer".toList, .mediaStreamer, 90⟩,
  ⟨"_raop".toList, "AirPlay Device".toList, .mediaStreamer, 85⟩,
  ⟨"_airplay".toList, "AirPlay Device".toList, .mediaStreamer, 85⟩,
  ⟨"spotify-connect".toList, "Spotify Speaker".toList, .smartSpeaker, 80⟩,
  ⟨"philips hue".toList, "Philips Hue Bridge".toList, .smartLight, 92⟩,
  ⟨"_hue".toList, "Philips Hue Bridge".toList, .smartLight, 90⟩,
  ⟨"lifx".toList, "LIFX Bulb".toList, .smartLight, 90⟩,
  ⟨"_ipp".toList, "Network Printer".toList, .printer, 90⟩,
  ⟨"_pdl-datastream".toList, "Network Printer".toList, .printer, 90⟩,
  ⟨"_printer".toList, "Network Printer".toList, .printer, 90⟩,
  ⟨"diskstation".toList, "Synology NAS".toList, .nas, 90⟩,
  ⟨"_smb".toList, "File Server / NAS".toList, .nas, 60⟩,
  ⟨"_raspberrypi".toList, "Raspberry Pi".toList, .singleBoardComputer, 85⟩,
  ⟨"_homekit".toList, "HomeKit Accessory".toList, .ioTSensor, 70⟩,
  ⟨"_hap".toList, "HomeKit Accessory".toList, .ioTSensor, 70⟩,
  -- medium: DHCP vendor class
  ⟨"android-dhcp".toList, "Android Phone/Tablet".toList, .phone, 85⟩,
  ⟨"msft 5.0".toList, "Windows PC".toList, .computer, 80⟩,
  -- weak: OUI vendor fallback
  ⟨"raspberry pi".toList, "Raspberry Pi".toList, .singleBoardComputer, 70⟩,
  ⟨"espressif".toList, "ESP32/ESP8266 Module".toList, .ioTSensor, 70⟩,
  ⟨"nest labs".toList, "Nest Device".toList, .ioTSensor, 60⟩,
  ⟨"lifx".toList, "LIFX Bulb".toList, .smartLight, 65⟩,
  ⟨"amazon".toList, "Amazon Device".toList, .smartSpeaker, 55⟩,
  ⟨"philips".toList, "Philips Smart Device".toList, .smartLight, 55⟩,
  ⟨"tp-link".toList, "TP-Link Device".toList, .router, 50⟩,
  ⟨"apple".toList, "Apple Device".toList, .computer, 50⟩,
  ⟨"google".toList, "Google Device".toList, .mediaStreamer, 50⟩]

/-- `Iterator::max_by` on the confidences: the last of the elements that no other exceeds. -/
def maxByConfidence : List Rule → Option Rule
  | [] => none
  | r :: rs => some (rs.foldl (fun best r => if best.confidence ≤ r.confidence then r else best) r)

/-- Every textual signal as one lowercase text, each followed by a line feed. -/
def buildHaystack (d : Device) : Str :=
  let signals := d.vendor.toList ++ d.dhcpVendorClass.toList ++ d.hostname.toList ++ d.services
  signals.flatMap fun s => s.toAsciiLowercase ++ ['\n']

def classify (d : Device) : Option Classification :=
  let haystack := buildHaystack d
  (maxByConfidence (rules.filter fun r => haystack.contains r.needle)).map fun r =>
    ⟨r.deviceType, r.category, r.confidence,
      "matched ".toList ++ [Char.ofNat 0x60] ++ r.needle ++ [Char.ofNat 0x60]⟩

/-- A guess depends on the textual signals alone. -/
theorem classify_congr {d e : Device} (hvendor : d.vendor = e.vendor)
    (hclass : d.dhcpVendorClass = e.dhcpVendorClass) (hhost : d.hostname = e.hostname)
    (hservices : d.services = e.services) : classify d = classify e := by
  simp only [classify, buildHaystack, hvendor, hclass, hhost, hservices]

end Lanscope
