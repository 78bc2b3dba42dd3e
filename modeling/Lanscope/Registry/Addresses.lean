import Lanscope.Ebpf.Frame
import Lanscope.Registry.History

/-!
# Addresses as text and as numbers

A record keeps addresses as text, and flows carry them as numbers. The text is a faithful name of
the number, and of the four bytes on the wire that the kernel side loads it from.
-/

namespace Lanscope

open Framework

/-- A record whose addresses are those of the given `push_ip` calls. -/
def pushAll (dev : Device) (pushed : List Ipv4Be) : Device :=
  pushed.foldl pushIp { dev with ips := [] }

/-- Each pushed address is listed once, in the order of the last pushes. -/
theorem ips_pushAll (dev : Device) (pushed : List Ipv4Be) :
    (pushAll dev pushed).ips = pushed.dedup.map fmtIpv4 := by
  induction pushed using List.reverseRecOn with
  | nil => rfl
  | append_singleton pushed ip ih =>
      have hlast : pushAll dev (pushed ++ [ip]) = pushIp (pushAll dev pushed) ip :=
        List.foldl_concat _ _ _ _
      rw [hlast, pushIp_eq, ← withIp_dedup, ih]

/-- The comparison that attributes a flow. -/
theorem any_pushAll_iff (dev : Device) (pushed : List Ipv4Be) (a : Ipv4Be) :
    ((pushAll dev pushed).ips.any fun ip => ip = fmtIpv4 a) ↔ a ∈ pushed := by
  have hany : ((pushAll dev pushed).ips.any fun ip => ip = fmtIpv4 a) ↔
      fmtIpv4 a ∈ (pushAll dev pushed).ips := by
    simp only [List.any_eq_true, decide_eq_true_eq, exists_eq_right]
  rw [hany, ips_pushAll, List.mem_map_of_injective fmtIpv4_injective, List.mem_dedup]

/-- The addresses of every record were built by pushing the given ones. -/
def BuiltBy (reg : DeviceRegistry) (pushed : MacAddr → List Ipv4Be) : Prop :=
  ∀ mac d, reg.get mac = some d → d.ips = (pushAll d (pushed mac)).ips

/-- A flow goes to the first device in iteration order that was given its source address. -/
theorem flowTarget_eq {reg : DeviceRegistry} {pushed : MacAddr → List Ipv4Be}
    (h : BuiltBy reg pushed) (order : List MacAddr) (key : FlowKey) :
    DeviceRegistry.flowTarget order reg key =
      order.find? fun mac => (reg.get mac).isSome && decide (key.srcIp ∈ pushed mac) := by
  unfold DeviceRegistry.flowTarget
  congr 1
  funext mac
  cases hd : reg.get mac with
  | none =>
      have hlookup : reg.devices.lookup mac = none := hd
      simp only [hlookup]
      rfl
  | some d =>
      have hlookup : reg.devices.lookup mac = some d := hd
      simp only [hlookup]
      rw [Option.isSome_some, Bool.true_and, Bool.eq_iff_iff, decide_eq_true_eq,
        ← any_pushAll_iff d, ← h mac d hd]

/-! ## Bytes on the wire -/

def dottedQuad (a b c d : UInt8) : Str :=
  Str.join ['.'] ([a, b, c, d].map fun o => Str.ofNat o.toNat)

theorem fmtIpv4_word32 (a b c d : UInt8) :
    fmtIpv4 (BigEndian.word32 a b c d) = dottedQuad a b c d := by
  rw [fmtIpv4, BigEndian.bytes32_word32, dottedQuad]

theorem loadU32Be_append (before after : List UInt8) (a b c d : UInt8) :
    loadU32Be (before ++ [a, b, c, d] ++ after) before.length =
      some (BigEndian.word32 a b c d) := by
  have hbyte (i : Nat) (h : i < 4) :
      loadU8 (before ++ [a, b, c, d] ++ after) (before.length + i) = [a, b, c, d][i]? := by
    rw [loadU8_eq, List.append_assoc, List.getElem?_append_right (Nat.le_add_right _ _),
      Nat.add_sub_cancel_left, List.getElem?_append_left (by simpa using h)]
  have hfirst := hbyte 0 (by decide)
  rw [Nat.add_zero] at hfirst
  rw [loadU32Be, hfirst, hbyte 1 (by decide), hbyte 2 (by decide), hbyte 3 (by decide)]
  rfl

/-- An address is found by its text exactly where it was pushed as a number, the list holds each
pushed address once, a flow goes where comparing numbers would send it, and what is stored for a
loaded address is its four bytes on the wire as a dotted quad. -/
theorem address_text_is_number :
    (∀ dev pushed a, ((pushAll dev pushed).ips.any fun ip => ip = fmtIpv4 a) ↔ a ∈ pushed) ∧
    (∀ dev pushed, (pushAll dev pushed).ips = pushed.dedup.map fmtIpv4) ∧
    (∀ reg pushed, BuiltBy reg pushed → ∀ order key,
      DeviceRegistry.flowTarget order reg key =
        order.find? fun mac => (reg.get mac).isSome && decide (key.srcIp ∈ pushed mac)) ∧
    ∀ (before after : List UInt8) (a b c d : UInt8), ∃ ip,
      loadU32Be (before ++ [a, b, c, d] ++ after) before.length = some ip ∧
        ∀ dev, (pushIp dev ip).ips.getLast? = some (dottedQuad a b c d) := by
  refine ⟨any_pushAll_iff, ips_pushAll, fun _ _ h order key => flowTarget_eq h order key, ?_⟩
  intro before after a b c d
  refine ⟨_, loadU32Be_append before after a b c d, fun dev => ?_⟩
  rw [pushIp_eq, ← fmtIpv4_word32]
  exact List.getLast?_concat

end Lanscope
