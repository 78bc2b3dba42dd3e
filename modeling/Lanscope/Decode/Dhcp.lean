import Lanscope.Decode.Signal
import Lanscope.Framework.Utf8

/-!
# DHCP decoder

The options start right after the first occurrence of the magic cookie and are walked as
code-length-data triples until the End option, the end of the payload, or an option cut short.
-/

namespace Lanscope.Dhcp

open Framework

def magicCookie : List UInt8 := [0x63, 0x82, 0x53, 0x63]
def optPad : UInt8 := 0
def optHostname : UInt8 := 12
def optParamRequestList : UInt8 := 55
def optVendorClass : UInt8 := 60
def optEnd : UInt8 := 255

/-- Offset of the first option byte, just past the first magic cookie. -/
def findOptions : List UInt8 → Option Nat
  | [] => none
  | b :: rest =>
    if (b :: rest).take 4 = magicCookie then some 4 else (findOptions rest).map fun p => p + 1

def fingerprint (data : List UInt8) : Str :=
  Str.join [','] (data.map fun b => Str.ofNat b.toNat)

def optionSignal (code : UInt8) (data : List UInt8) : List Signal :=
  if code = optHostname then
    match Utf8.fromUtf8 data with
    | some h =>
      let h := (h.trimMatches fun c => c = Char.ofNat 0).trim
      if h ≠ [] then [.hostname h] else []
    | none => []
  else if code = optParamRequestList then
    let fp := fingerprint data
    if fp ≠ [] then [.dhcpFingerprint fp] else []
  else if code = optVendorClass then
    match Utf8.fromUtf8 data with
    | some v =>
      let v := v.trim
      if v ≠ [] then [.dhcpVendorClass v] else []
    | none => []
  else []

def walk : List UInt8 → List Signal
  | [] => []
  | code :: rest =>
    if code = optPad then walk rest
    else if code = optEnd then []
    else
      match rest with
      | [] => []
      | len :: body =>
        -- an option whose data runs past the payload ends the walk
        if body.length < len.toNat then []
        else optionSignal code (body.take len.toNat) ++ walk (body.drop len.toNat)
termination_by area => area.length

def decode (payload : List UInt8) : List Signal :=
  match findOptions payload with
  | none => []
  | some start => walk (payload.drop start)

/-- The complete options of an option area, in order. -/
def options : List UInt8 → List (UInt8 × List UInt8)
  | [] => []
  | code :: rest =>
    if code = optPad then options rest
    else if code = optEnd then []
    else
      match rest with
      | [] => []
      | len :: body =>
        if body.length < len.toNat then []
        else (code, body.take len.toNat) :: options (body.drop len.toNat)
termination_by area => area.length

/-- The walk reads the signals off the complete options one by one. -/
theorem walk_eq_flatMap (area : List UInt8) :
    walk area = (options area).flatMap fun o => optionSignal o.1 o.2 := by
  fun_induction walk area with
  | case1 => simp [options]
  | case2 rest ih =>
      rw [options.eq_def]
      simpa using ih
  | case3 rest hne =>
      rw [options.eq_def]
      simp [hne]
  | case4 code hpad hend => simp [options, hpad, hend]
  | case5 code hpad hend len body hcut => simp [options, hpad, hend, hcut]
  | case6 code hpad hend len body hcut ih => simp [options, hpad, hend, hcut, ih]

def Usable (code : UInt8) (data : List UInt8) : Prop :=
  (code = optHostname ∧ ∃ h, Utf8.fromUtf8 data = some h ∧
    (h.trimMatches fun c => c = Char.ofNat 0).trim ≠ []) ∨
  (code = optParamRequestList ∧ data ≠ []) ∨
  (code = optVendorClass ∧ ∃ v, Utf8.fromUtf8 data = some v ∧ v.trim ≠ [])

/-- The payload has a magic cookie and a usable option after it. -/
def CarriesField (payload : List UInt8) : Prop :=
  ∃ start, findOptions payload = some start ∧
    ∃ o ∈ options (payload.drop start), Usable o.1 o.2

theorem fingerprint_eq_nil_iff (data : List UInt8) : fingerprint data = [] ↔ data = [] := by
  constructor
  · intro h
    cases data with
    | nil => rfl
    | cons b data =>
        have hdigits : Str.ofNat b.toNat ≠ [] := Nat.toDigits_ne_nil
        cases data <;> simp [fingerprint, Str.join, hdigits] at h
  · rintro rfl
    rfl

theorem optionSignal_ne_nil_iff (code : UInt8) (data : List UInt8) :
    optionSignal code data ≠ [] ↔ Usable code data := by
  unfold optionSignal Usable
  by_cases h₁ : code = optHostname
  · subst code
    cases Utf8.fromUtf8 data <;>
      simp [optHostname, optParamRequestList, optVendorClass]
  · by_cases h₂ : code = optParamRequestList
    · subst code
      simp [optHostname, optParamRequestList, optVendorClass, fingerprint_eq_nil_iff]
    · by_cases h₃ : code = optVendorClass
      · subst code
        cases Utf8.fromUtf8 data <;>
          simp [optHostname, optParamRequestList, optVendorClass]
      · simp [h₁, h₂, h₃]

theorem decode_ne_nil_iff (payload : List UInt8) : decode payload ≠ [] ↔ CarriesField payload := by
  unfold decode CarriesField
  cases findOptions payload with
  | none => simp
  | some start =>
      simp only [walk_eq_flatMap, ne_eq, List.flatMap_eq_nil_iff, not_forall,
        ← optionSignal_ne_nil_iff, Option.some.injEq, exists_eq_left', exists_prop]

end Lanscope.Dhcp
