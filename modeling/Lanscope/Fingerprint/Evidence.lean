import Lanscope.Fingerprint.Matching

/-!
# Ranks of evidence

The table ranks its evidence: advertised services over a vendor class over the vendor of an
address. The search does not know which signal a needle is meant for, so a rule of the strong block
can also win on a vendor or a hostname.
-/

namespace Lanscope

open Framework

/-- The rules about advertised services and SSDP banners. -/
def strongRules : List Rule := rules.take 19

/-- The fallback on the vendor of the address. -/
def weakRules : List Rule := rules.drop 21

def weakMaximum : Nat := (weakRules.map Rule.confidence).foldl max 0

example : weakMaximum = 70 := by decide

/-- The needle occurs in one of the services that the device advertises. -/
def Rule.Advertised (r : Rule) (d : Device) : Prop := ∃ s ∈ d.services, Str.OccursIn r.needle s

/-- Of the signals that the classifier reads, nothing but the vendor is known. -/
def Device.OnlyVendor (d : Device) : Prop :=
  d.dhcpVendorClass = none ∧ d.hostname = none ∧ d.services = []

/-- A strong rule decides on an advertised service alone, and a vendor alone is weak evidence. -/
def EvidenceRanked (d : Device) : Prop :=
  (∀ r ∈ strongRules, classify d = some r.classification → r.Advertised d) ∧
    (d.OnlyVendor → ∀ c, classify d = some c → c.confidence ≤ weakMaximum)

/-- Of higher confidence, or of the same and further down the table. -/
def Rule.Outranks (s r : Rule) : Prop :=
  r.confidence < s.confidence ∨
    (r.confidence = s.confidence ∧ rules.idxOf r < rules.idxOf s)

/-- What a strong rule finds outside the services is outranked by what another rule finds where it
is meant to, and a vendor that is all that is known holds no needle of a stronger block. -/
def EvidenceInOrder (d : Device) : Prop :=
  (∀ r ∈ strongRules, r.Matches d → ¬ r.Advertised d →
    ∃ s ∈ rules, s.Matches d ∧ (s ∈ strongRules → s.Advertised d) ∧ s.Outranks r) ∧
  (d.OnlyVendor → ∀ r ∈ rules, r.Matches d → r.confidence ≤ weakMaximum)

theorem Rule.classification_injective : Function.Injective Rule.classification := by
  intro r s h
  obtain ⟨needle, deviceType, category, confidence⟩ := r
  obtain ⟨needle', deviceType', category', confidence'⟩ := s
  simp only [classification, Classification.mk.injEq, List.append_cancel_left_eq,
    List.append_cancel_right_eq] at h
  obtain ⟨rfl, rfl, rfl, rfl⟩ := h
  rfl

private theorem idxOf_increasing :
    rules.Pairwise fun r s => rules.idxOf r < rules.idxOf s := by
  decide +kernel

/-- The rule that decides matches and outranks all others that do. -/
theorem outranks_of_classify {d : Device} {r : Rule} (h : classify d = some r.classification) :
    r ∈ matching d ∧ ∀ s ∈ matching d, s ≠ r → r.Outranks s ∧ ¬ s.Outranks r := by
  rw [classify_eq, Option.map_eq_some_iff] at h
  obtain ⟨w, hwinner, hw⟩ := h
  obtain rfl := Rule.classification_injective hw
  obtain ⟨before, after, hsplit, hbefore, hafter⟩ := maxByConfidence_split hwinner
  have horder : (before ++ w :: after).Pairwise fun r s => rules.idxOf r < rules.idxOf s := by
    rw [← hsplit]
    exact idxOf_increasing.filter _
  rw [hsplit]
  refine ⟨List.mem_append_right _ List.mem_cons_self, fun s hs hne => ?_⟩
  unfold Rule.Outranks
  cases List.mem_append.mp hs with
  | inl hearly =>
      have hconfidence := hbefore s hearly
      have hindex := (List.pairwise_append.mp horder).2.2 s hearly w List.mem_cons_self
      omega
  | inr hrest =>
      have hlate := (List.mem_cons.mp hrest).resolve_left hne
      have hconfidence := hafter s hlate
      omega

theorem strongRules_subset : strongRules ⊆ rules := List.take_subset _ _

/-- The ranks of the evidence are kept exactly when no misplaced match outranks the others. -/
theorem evidenceRanked_iff (d : Device) : EvidenceRanked d ↔ EvidenceInOrder d := by
  constructor
  · rintro ⟨hstrong, hvendor⟩
    constructor
    · intro r hr hmatch hservice
      have hne : classify d ≠ none :=
        fun h => (classify_eq_none_iff d).mp h r (strongRules_subset hr) hmatch
      obtain ⟨c, hc⟩ := Option.ne_none_iff_exists'.mp hne
      obtain ⟨w, hw, hwmatch, rfl, _⟩ := classify_eq_some hc
      have hadvertised : w ∈ strongRules → w.Advertised d := fun h => hstrong w h hc
      have hrw : r ≠ w := fun h => hservice (h ▸ hadvertised (h ▸ hr))
      have hmem := mem_matching_iff.mpr ⟨strongRules_subset hr, hmatch⟩
      exact ⟨w, hw, hwmatch, hadvertised, ((outranks_of_classify hc).2 r hmem hrw).1⟩
    · intro honly r hr hmatch
      cases hc : classify d with
      | none => exact absurd hmatch ((classify_eq_none_iff d).mp hc r hr)
      | some c =>
          have hle := hvendor honly c hc
          obtain ⟨w, _, _, rfl, hmax⟩ := classify_eq_some hc
          exact (hmax r hr hmatch).trans hle
  · rintro ⟨hstrong, hvendor⟩
    constructor
    · intro r hr hc
      obtain ⟨hmem, hwins⟩ := outranks_of_classify hc
      have hmatch := (mem_matching_iff.mp hmem).2
      by_contra hservice
      obtain ⟨s, hs, hsmatch, hadvertised, houtranks⟩ := hstrong r hr hmatch hservice
      have hsr : s ≠ r := fun h => hservice (h ▸ hadvertised (h ▸ hr))
      exact (hwins s (mem_matching_iff.mpr ⟨hs, hsmatch⟩) hsr).2 houtranks
    · intro honly c hc
      obtain ⟨r, hr, hmatch, rfl, _⟩ := classify_eq_some hc
      exact hvendor honly r hr hmatch

/-- A device of which only the address is known, from the table's range of LIFX. -/
def lifxBulb : Device := Device.new (MacAddr.ofBytes 0xd0 0x73 0xd5 0x01 0x02 0x03) 100

/-- The vendor of its address makes it a LIFX bulb with the confidence of an advertised service. -/
theorem lifxBulb_overrated : ¬ ∀ d, EvidenceRanked d := by
  intro h
  have hclassify : classify lifxBulb =
      some (Rule.classification ⟨"lifx".toList, "LIFX Bulb".toList, .smartLight, 90⟩) := by
    decide +kernel
  obtain ⟨_, hs, _⟩ := (h lifxBulb).1 _ (by decide) hclassify
  exact absurd hs List.not_mem_nil

end Lanscope
