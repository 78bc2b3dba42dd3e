import Lanscope.Common.Event
import Lanscope.Framework.Text

/-!
# Vendor lookup

The first three bytes of a hardware address name its vendor, by a small table.
-/

namespace Lanscope.Oui

open Framework

def table : List ((UInt8 × UInt8 × UInt8) × Str) := [
  ((0xb8, 0x27, 0xeb), "Raspberry Pi Foundation".toList),
  ((0xdc, 0xa6, 0x32), "Raspberry Pi Trading".toList),
  ((0xe4, 0x5f, 0x01), "Raspberry Pi Trading".toList),
  ((0x44, 0x65, 0x0d), "Amazon Technologies".toList),
  ((0xfc, 0x65, 0xde), "Amazon Technologies".toList),
  ((0x68, 0x37, 0xe9), "Amazon Technologies".toList),
  ((0x18, 0xb4, 0x30), "Nest Labs".toList),
  ((0x64, 0x16, 0x66), "Nest Labs".toList),
  ((0x00, 0x17, 0x88), "Philips Hue (Signify)".toList),
  ((0xec, 0xb5, 0xfa), "Philips Lighting".toList),
  ((0xd0, 0x73, 0xd5), "LIFX".toList),
  ((0x50, 0xc7, 0xbf), "TP-Link".toList),
  ((0x54, 0x60, 0x09), "Google".toList),
  ((0xf4, 0xf5, 0xd8), "Google".toList),
  ((0x3c, 0x5a, 0xb4), "Google".toList),
  ((0x24, 0x0a, 0xc4), "Espressif (ESP32/ESP8266)".toList),
  ((0x7c, 0x9e, 0xbd), "Espressif (ESP32/ESP8266)".toList),
  ((0x5c, 0xcf, 0x7f), "Espressif (ESP32/ESP8266)".toList),
  ((0xa4, 0xcf, 0x12), "Espressif (ESP32/ESP8266)".toList),
  ((0x00, 0x1b, 0x63), "Apple".toList),
  ((0xac, 0xbc, 0x32), "Apple".toList),
  ((0xf0, 0x18, 0x98), "Apple".toList),
  ((0x00, 0x0c, 0x29), "VMware".toList)]

/-- The vendor of an address. Locally administered addresses are reported as such, not matched. -/
def lookup (mac : MacAddr) : Option Str :=
  if mac = zeroMac then none
  else if mac[0] &&& 0x02 ≠ 0 then some "(locally administered)".toList
  else
    let prefix3 := (mac[0], mac[1], mac[2])
    (table.find? fun entry => entry.1 = prefix3).map Prod.snd

end Lanscope.Oui
