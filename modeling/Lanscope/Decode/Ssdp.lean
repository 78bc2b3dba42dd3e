import Lanscope.Decode.Signal
import Lanscope.Framework.Utf8

/-!
# SSDP decoder

The payload is line-oriented text. The `SERVER` banner and the advertised `NT` and `ST` types are
read off its header lines.
-/

namespace Lanscope.Ssdp

open Framework

def lineSignal (line : Str) : List Signal :=
  match line.splitOnce ':' with
  | none => []
  | some (key, value) =>
    let value := value.trim
    if value = [] then []
    else
      let key := key.trim.toAsciiUppercase
      if key = "SERVER".toList then [.service ("server=".toList ++ value)]
      else if key = "NT".toList ∨ key = "ST".toList then [.service value]
      else []

def decode (payload : List UInt8) : List Signal :=
  (Utf8.fromUtf8Lossy payload).lines.flatMap lineSignal

/-- A header line with a wanted key and a value that is not blank. -/
def Usable (line : Str) : Prop :=
  ∃ key value, line.splitOnce ':' = some (key, value) ∧ value.trim ≠ [] ∧
    key.trim.toAsciiUppercase ∈ ["SERVER".toList, "NT".toList, "ST".toList]

def CarriesField (payload : List UInt8) : Prop :=
  ∃ line ∈ (Utf8.fromUtf8Lossy payload).lines, Usable line

private theorem lineSignal_ne_nil_iff (line : Str) : lineSignal line ≠ [] ↔ Usable line := by
  unfold lineSignal Usable
  cases hline : line.splitOnce ':' with
  | none => simp
  | some kv =>
      obtain ⟨key, value⟩ := kv
      by_cases hv : value.trim = []
      · simp [hv]
      · by_cases hserver : key.trim.toAsciiUppercase = "SERVER".toList
        · simp [hv, hserver]
        · by_cases ht : key.trim.toAsciiUppercase = "NT".toList ∨
              key.trim.toAsciiUppercase = "ST".toList
          · simp_all
          · simp_all

theorem decode_ne_nil_iff (payload : List UInt8) : decode payload ≠ [] ↔ CarriesField payload := by
  simp only [decode, CarriesField, ne_eq, List.flatMap_eq_nil_iff, not_forall, exists_prop,
    ← lineSignal_ne_nil_iff]

end Lanscope.Ssdp
