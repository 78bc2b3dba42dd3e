import Lanscope.Decode.Dhcp

/-!
# DHCP options on the wire

An option area is a sequence of pads and options, which may end anywhere. The decoder reads back the
options that are complete, wherever the area starts.
-/

namespace Lanscope.Dhcp

open Framework

/-! ## The cookie -/

/-- The magic cookie stands at an offset and nowhere before it. -/
def FirstCookie (payload : List UInt8) (p : Nat) : Prop :=
  (payload.drop p).take 4 = magicCookie ∧ ∀ q < p, (payload.drop q).take 4 ≠ magicCookie

instance (payload : List UInt8) (p : Nat) : Decidable (FirstCookie payload p) :=
  inferInstanceAs (Decidable (_ ∧ _))

theorem findOptions_eq_some_iff (payload : List UInt8) (start : Nat) :
    findOptions payload = some start ↔ ∃ p, start = p + 4 ∧ FirstCookie payload p := by
  induction payload generalizing start with
  | nil =>
      constructor
      · intro h
        simp [findOptions] at h
      · rintro ⟨p, _, hcookie, _⟩
        simp [magicCookie] at hcookie
  | cons b rest ih =>
      unfold findOptions
      by_cases hhead : (b :: rest).take 4 = magicCookie
      · rw [if_pos hhead, Option.some.injEq]
        constructor
        · rintro rfl
          exact ⟨0, rfl, hhead, fun q hq => absurd hq (Nat.not_lt_zero q)⟩
        · rintro ⟨p, rfl, _, hfirst⟩
          cases p with
          | zero => rfl
          | succ p => exact absurd hhead (hfirst 0 (Nat.succ_pos p))
      · rw [if_neg hhead, Option.map_eq_some_iff]
        constructor
        · rintro ⟨start, hstart, rfl⟩
          obtain ⟨p, rfl, hcookie, hfirst⟩ := (ih start).mp hstart
          refine ⟨p + 1, by omega, hcookie, fun q hq => ?_⟩
          cases q with
          | zero => exact hhead
          | succ q => exact hfirst q (Nat.lt_of_succ_lt_succ hq)
        · rintro ⟨p, rfl, hcookie, hfirst⟩
          cases p with
          | zero => exact absurd hcookie hhead
          | succ p =>
              refine ⟨p + 4, (ih _).mpr ⟨p, rfl, hcookie, fun q hq => ?_⟩, by omega⟩
              exact hfirst (q + 1) (Nat.succ_lt_succ hq)

theorem decode_of_firstCookie {payload : List UInt8} {p : Nat} (h : FirstCookie payload p) :
    decode payload = walk (payload.drop (p + 4)) := by
  rw [decode, (findOptions_eq_some_iff _ _).mpr ⟨p, rfl, h⟩]

theorem decode_area {before area : List UInt8}
    (h : FirstCookie (before ++ magicCookie ++ area) before.length) :
    decode (before ++ magicCookie ++ area) = walk area := by
  have hlength : (before ++ magicCookie).length = before.length + 4 := by simp [magicCookie]
  rw [decode_of_firstCookie h, List.drop_left' hlength]

/-! ## One item of the area -/

@[simp] theorem walk_nil : walk [] = [] := by rw [walk.eq_def]

@[simp] theorem walk_pad (rest : List UInt8) : walk (optPad :: rest) = walk rest := by
  rw [walk.eq_def]
  simp

@[simp] theorem walk_end (rest : List UInt8) : walk (optEnd :: rest) = [] := by
  rw [walk.eq_def]
  simp [optEnd, optPad]

section Option

variable {code : UInt8} (hpad : code ≠ optPad) (hend : code ≠ optEnd)
include hpad hend

theorem walk_code : walk [code] = [] := by
  rw [walk.eq_def]
  simp [hpad, hend]

theorem walk_option {len : UInt8} {data : List UInt8} (h : data.length = len.toNat)
    (rest : List UInt8) :
    walk (code :: len :: (data ++ rest)) = optionSignal code data ++ walk rest := by
  rw [walk.eq_def]
  simp [hpad, hend, h]

theorem walk_cut {len : UInt8} {data : List UInt8} (h : data.length < len.toNat) :
    walk (code :: len :: data) = [] := by
  rw [walk.eq_def]
  simp [hpad, hend, h]

end Option

/-! ## The loop over indices -/

/-- `<[u8]>::get` with a range. -/
def slice (bytes : List UInt8) (start stop : Nat) : Option (List UInt8) :=
  if start ≤ stop ∧ stop ≤ bytes.length then some ((bytes.drop start).take (stop - start)) else none

/-- The loop of `decode` with its index. `none` is an index out of bounds, which panics. -/
def walkAt (payload : List UInt8) (i : Nat) : Option (List Signal) :=
  if _h : i < payload.length then
    match payload[i]? with
    | none => none
    | some code =>
      if code = optPad then walkAt payload (i + 1)
      else if code = optEnd then some []
      else
        match payload[i + 1]? with
        | none => some []
        | some len =>
          match slice payload (i + 2) (i + 2 + len.toNat) with
          | none => some []
          | some data =>
            (walkAt payload (i + 2 + len.toNat)).map fun rest => optionSignal code data ++ rest
  else some []
termination_by payload.length - i

def decodeAt (payload : List UInt8) : Option (List Signal) :=
  match findOptions payload with
  | none => some []
  | some start => walkAt payload start

private theorem drop_of_getElem? {l : List UInt8} {i : Nat} {b : UInt8} (h : l[i]? = some b) :
    l.drop i = b :: l.drop (i + 1) := by
  obtain ⟨hi, rfl⟩ := List.getElem?_eq_some_iff.mp h
  exact List.drop_eq_getElem_cons hi

private theorem drop_eq_nil_of_getElem? {l : List UInt8} {i : Nat} (h : l[i]? = none) :
    l.drop i = [] := List.drop_eq_nil_of_le (List.getElem?_eq_none_iff.mp h)

/-- The loop never leaves the payload, and reads what the walk over the remaining bytes reads. -/
theorem walkAt_eq (payload : List UInt8) (i : Nat) :
    walkAt payload i = some (walk (payload.drop i)) := by
  fun_induction walkAt payload i with
  | case1 i hi hget => exact absurd hi (not_lt.mpr (List.getElem?_eq_none_iff.mp hget))
  | case2 i hi hget ih => rw [ih, drop_of_getElem? hget, walk_pad]
  | case3 i hi hget hne => rw [drop_of_getElem? hget, walk_end]
  | case4 i hi code hget hpad hend hnext =>
      rw [drop_of_getElem? hget, drop_eq_nil_of_getElem? hnext, walk_code hpad hend]
  | case5 i hi code hget hpad hend len hnext hslice =>
      have hshort : (payload.drop (i + 2)).length < len.toNat := by
        by_contra hlong
        rw [List.length_drop] at hlong
        have hlen := (List.getElem?_eq_some_iff.mp hnext).1
        simp only [slice, ite_eq_right_iff, reduceCtorEq, imp_false, not_and_or] at hslice
        omega
      rw [drop_of_getElem? hget, drop_of_getElem? hnext, walk_cut hpad hend hshort]
  | case6 i hi code hget hpad hend len hnext data hslice ih =>
      obtain ⟨⟨_, hstop⟩, hdata⟩ := Option.ite_none_right_eq_some.mp hslice
      rw [Option.some.injEq, Nat.add_sub_cancel_left] at hdata
      have hlen : data.length = len.toNat := by
        rw [← hdata, List.length_take, List.length_drop]
        omega
      have hsplit : payload.drop (i + 1 + 1) = data ++ payload.drop (i + 2 + len.toNat) := by
        rw [← hdata, ← List.drop_drop (i := len.toNat)]
        exact (List.take_append_drop _ _).symm
      rw [ih, drop_of_getElem? hget, drop_of_getElem? hnext, hsplit, walk_option hpad hend hlen]
      rfl
  | case7 i hi => rw [List.drop_eq_nil_of_le (not_lt.mp hi), walk_nil]

theorem decodeAt_eq (payload : List UInt8) : decodeAt payload = some (decode payload) := by
  unfold decodeAt decode
  cases findOptions payload with
  | none => rfl
  | some start => exact walkAt_eq payload start

/-! ## Encoding -/

/-- An option as code, length and data. -/
structure Tlv where
  code : UInt8
  data : List UInt8
  code_ne_pad : code ≠ optPad
  code_ne_end : code ≠ optEnd
  length_le : data.length ≤ 255

namespace Tlv

def bytes (o : Tlv) : List UInt8 := [o.code, UInt8.ofNat o.data.length] ++ o.data

/-- A text that is not empty. -/
private def nonEmpty (s : Str) : Option Str := if s = [] then none else some s

/-- What an option says about the device. -/
def signal (o : Tlv) : Option Signal :=
  if o.code = optHostname then do
    let text ← Utf8.fromUtf8 o.data
    let host ← nonEmpty (text.trimMatches fun c => c = Char.ofNat 0).trim
    return .hostname host
  else if o.code = optParamRequestList then do
    let codes ← nonEmpty (Str.join [','] (o.data.map fun b => Str.ofNat b.toNat))
    return .dhcpFingerprint codes
  else if o.code = optVendorClass then do
    let text ← Utf8.fromUtf8 o.data
    let vendor ← nonEmpty text.trim
    return .dhcpVendorClass vendor
  else none

theorem optionSignal_eq (o : Tlv) : optionSignal o.code o.data = o.signal.toList := by
  unfold optionSignal signal nonEmpty fingerprint
  by_cases h₁ : o.code = optHostname
  · rw [if_pos h₁, if_pos h₁]
    cases Utf8.fromUtf8 o.data with
    | none => rfl
    | some text => by_cases h : (text.trimMatches fun c => c = Char.ofNat 0).trim = [] <;> simp [h]
  · rw [if_neg h₁, if_neg h₁]
    by_cases h₂ : o.code = optParamRequestList
    · rw [if_pos h₂, if_pos h₂]
      by_cases h : Str.join [','] (o.data.map fun b => Str.ofNat b.toNat) = [] <;> simp [h]
    · rw [if_neg h₂, if_neg h₂]
      by_cases h₃ : o.code = optVendorClass
      · rw [if_pos h₃, if_pos h₃]
        cases Utf8.fromUtf8 o.data with
        | none => rfl
        | some text => by_cases h : text.trim = [] <;> simp [h]
      · rw [if_neg h₃, if_neg h₃]
        rfl

private theorem toNat_length (o : Tlv) : (UInt8.ofNat o.data.length).toNat = o.data.length :=
  UInt8.toNat_ofNat_of_lt' (Nat.lt_succ_of_le o.length_le)

theorem walk_append (o : Tlv) (rest : List UInt8) :
    walk (o.bytes ++ rest) = o.signal.toList ++ walk rest := by
  rw [← o.optionSignal_eq]
  exact walk_option o.code_ne_pad o.code_ne_end o.toNat_length.symm rest

/-- An option cut short says nothing. -/
theorem walk_take (o : Tlv) {n : Nat} (h : n < o.bytes.length) : walk (o.bytes.take n) = [] := by
  cases n with
  | zero => exact walk_nil
  | succ n =>
      cases n with
      | zero => exact walk_code o.code_ne_pad o.code_ne_end
      | succ n =>
          have hcut : (o.data.take n).length < (UInt8.ofNat o.data.length).toNat := by
            rw [toNat_length, List.length_take]
            simp only [bytes, List.length_append, List.length_cons, List.length_nil] at h
            omega
          exact walk_cut o.code_ne_pad o.code_ne_end hcut

end Tlv

inductive Item
  | pad
  | option (o : Tlv)

def Item.bytes : Item → List UInt8
  | pad => [optPad]
  | option o => o.bytes

def Item.signal : Item → Option Signal
  | pad => none
  | option o => o.signal

/-- How an area ends: with the last complete item, at an End byte that anything may follow, or
within an option. -/
inductive Ending
  | nothing
  | endOption (rest : List UInt8)
  | cut (o : Tlv) (n : Nat) (h : n < o.bytes.length)

def Ending.bytes : Ending → List UInt8
  | nothing => []
  | endOption rest => optEnd :: rest
  | cut o n _ => o.bytes.take n

theorem walk_items (items : List Item) (rest : List UInt8) :
    walk (items.flatMap Item.bytes ++ rest) = items.filterMap Item.signal ++ walk rest := by
  induction items with
  | nil => rfl
  | cons item items ih =>
      rw [List.flatMap_cons, List.append_assoc]
      cases item with
      | pad => exact (walk_pad _).trans ih
      | option o =>
          rw [show (Item.option o).bytes = o.bytes from rfl, o.walk_append, ih,
            List.filterMap_cons, show (Item.option o).signal = o.signal from rfl]
          cases o.signal <;> rfl

theorem walk_ending (ending : Ending) : walk ending.bytes = [] := by
  cases ending with
  | nothing => exact walk_nil
  | endOption rest => exact walk_end rest
  | cut o n h => exact o.walk_take h

/-- The decoder undoes the encoding of an area up to its ending, wherever the area starts, and
reads nothing outside the payload. -/
theorem decode_items (before : List UInt8) (items : List Item) (ending : Ending)
    (hfirst : FirstCookie
      (before ++ magicCookie ++ items.flatMap Item.bytes ++ ending.bytes) before.length) :
    decodeAt (before ++ magicCookie ++ items.flatMap Item.bytes ++ ending.bytes) =
        some (items.filterMap Item.signal) ∧
      decode (before ++ magicCookie ++ items.flatMap Item.bytes ++ ending.bytes) =
        items.filterMap Item.signal := by
  have hdecode : decode (before ++ magicCookie ++ items.flatMap Item.bytes ++ ending.bytes) =
      items.filterMap Item.signal := by
    rw [List.append_assoc] at hfirst ⊢
    rw [decode_area hfirst, walk_items, walk_ending, List.append_nil]
  exact ⟨by rw [decodeAt_eq, hdecode], hdecode⟩

/-- A pad, the host name `pi`, and a vendor class cut in its data. -/
theorem decode_items_hostname :
    decode (List.replicate 8 0 ++ magicCookie ++ [0, 12, 2, 112, 105, 60, 3, 97]) =
      [.hostname "pi".toList] := by
  have hdecode := (decode_items (List.replicate 8 0)
    [.pad, .option ⟨optHostname, [112, 105], by decide, by decide, by decide⟩]
    (.cut ⟨optVendorClass, [97, 98, 99], by decide, by decide, by decide⟩ 3 (by decide))
    (by decide)).2
  have hsignal : Tlv.signal ⟨optHostname, [112, 105], by decide, by decide, by decide⟩ =
      some (.hostname "pi".toList) := by
    have htext : Utf8.fromUtf8 [112, 105] = some "pi".toList :=
      (Utf8.fromUtf8_ascii (by simp)).trans rfl
    simp only [Tlv.signal, if_true, htext]
    decide
  simp only [List.filterMap_cons, List.filterMap_nil, Item.signal, hsignal] at hdecode
  exact hdecode

/-! ## The header before the cookie -/

/-- The fixed part of a message, from the operation code to the boot file name. -/
structure BootpHeader where
  bytes : List UInt8
  length_eq : bytes.length = 236

/-- The cookie stands nowhere in the header, nor across its end. -/
def BootpHeader.CookieFree (h : BootpHeader) : Prop :=
  ∀ p < 236, ((h.bytes ++ magicCookie).drop p).take 4 ≠ magicCookie

instance : DecidablePred BootpHeader.CookieFree :=
  fun h => Nat.decidableBallLT 236 fun p _ => ((h.bytes ++ magicCookie).drop p).take 4 ≠ magicCookie

theorem BootpHeader.cookieFree_of_notMem {h : BootpHeader} (hnone : 0x63 ∉ h.bytes) :
    h.CookieFree := by
  intro p hp hcookie
  have hin : p < h.bytes.length := by
    rw [h.length_eq]
    exact hp
  have hhead := congrArg List.head? hcookie
  rw [List.drop_append_of_le_length hin.le, List.drop_eq_getElem_cons hin, List.cons_append,
    List.take_succ_cons] at hhead
  exact hnone (Option.some.inj hhead ▸ List.getElem_mem hin)

private theorem decode_header (h : BootpHeader) (hfree : h.CookieFree) (area : List UInt8) :
    decode (h.bytes ++ magicCookie ++ area) = walk area := by
  have hfirst : FirstCookie (h.bytes ++ magicCookie ++ area) 236 := by
    constructor
    · rw [List.append_assoc, List.drop_left' h.length_eq]
      rfl
    · intro q hq
      have hlen : 4 ≤ ((h.bytes ++ magicCookie).drop q).length := by
        rw [List.length_drop, List.length_append, h.length_eq]
        simp only [magicCookie, List.length_cons, List.length_nil]
        omega
      have hin : q ≤ (h.bytes ++ magicCookie).length := by
        rw [List.length_append, h.length_eq]
        omega
      rw [List.drop_append_of_le_length hin, List.take_append_of_le_length hlen]
      exact hfree q hq
  rw [← h.length_eq] at hfirst
  exact decode_area hfirst

/-- Headers without a cookie of their own leave the options to speak for themselves. -/
theorem decode_header_irrelevant (h₁ h₂ : BootpHeader) (hfree₁ : h₁.CookieFree)
    (hfree₂ : h₂.CookieFree) (area : List UInt8) :
    decode (h₁.bytes ++ magicCookie ++ area) = decode (h₂.bytes ++ magicCookie ++ area) := by
  rw [decode_header h₁ hfree₁, decode_header h₂ hfree₂]

def blankHeader : BootpHeader := ⟨List.replicate 236 0, List.length_replicate⟩

/-- A header whose boot file name starts with a cookie and a host name option. -/
def forgedHeader : BootpHeader :=
  ⟨List.replicate 108 0 ++ (magicCookie ++ [12, 1, 98, 255]) ++ List.replicate 120 0,
    by decide +kernel⟩

def requestHeader : BootpHeader := ⟨[1, 1, 6] ++ List.replicate 233 0, by decide +kernel⟩

theorem decode_header_irrelevant_request :
    decode (requestHeader.bytes ++ magicCookie ++ [12, 1, 98, 255]) =
      decode (blankHeader.bytes ++ magicCookie ++ [12, 1, 98, 255]) :=
  decode_header_irrelevant requestHeader blankHeader
    (BootpHeader.cookieFree_of_notMem (by decide +kernel))
    (BootpHeader.cookieFree_of_notMem (by decide +kernel)) _

/-- A host name in a header field is reported as the device's. -/
theorem decode_forgedHeader : ¬ ∀ (h₁ h₂ : BootpHeader) (area : List UInt8),
    decode (h₁.bytes ++ magicCookie ++ area) = decode (h₂.bytes ++ magicCookie ++ area) := by
  intro h
  have hforged : FirstCookie (forgedHeader.bytes ++ magicCookie ++ []) 108 := by decide +kernel
  have hblank : blankHeader.CookieFree := BootpHeader.cookieFree_of_notMem (by decide +kernel)
  have hdrop : (forgedHeader.bytes ++ magicCookie ++ []).drop (108 + 4) =
      12 :: 1 :: ([98] ++ optEnd :: (List.replicate 120 0 ++ magicCookie)) := by decide +kernel
  have hsame := h forgedHeader blankHeader []
  rw [decode_of_firstCookie hforged, decode_header blankHeader hblank, walk_nil, hdrop,
    walk_option (by decide) (by decide) (by decide)] at hsame
  have hsignal : optionSignal 12 [98] = [.hostname "b".toList] := by
    have htext : Utf8.fromUtf8 [98] = some "b".toList := (Utf8.fromUtf8_ascii (by simp)).trans rfl
    simp only [optionSignal, htext]
    decide
  rw [hsignal] at hsame
  exact absurd hsame (List.cons_ne_nil _ _)

end Lanscope.Dhcp
