import Lanscope.Fingerprint.Rules

/-!
# Matching signal by signal

The classifier searches one joined text. No needle holds a line feed, so a match lies within one of
the signals, and the guess depends on which rules have one, not on the order of the signals.
-/

namespace Lanscope

open Framework

/-- The textual signals of a device. -/
def Device.signals (d : Device) : List Str :=
  d.vendor.toList ++ d.dhcpVendorClass.toList ++ d.hostname.toList ++ d.services

namespace Rule

/-- The needle occurs within a single signal of the device. -/
def Matches (r : Rule) (d : Device) : Prop := ∃ s ∈ d.signals, Str.OccursIn r.needle s

def classification (r : Rule) : Classification :=
  ⟨r.deviceType, r.category, r.confidence,
    "matched ".toList ++ [Char.ofNat 0x60] ++ r.needle ++ [Char.ofNat 0x60]⟩

/-- What the search relies on in a needle. -/
def WellFormed (r : Rule) : Prop :=
  r.needle ≠ [] ∧ '\n' ∉ r.needle ∧ r.needle.toAsciiLowercase = r.needle

instance : DecidablePred WellFormed := fun _ => inferInstanceAs (Decidable (_ ∧ _ ∧ _))

theorem wellFormed_of_mem : ∀ r ∈ rules, r.WellFormed := by decide +kernel

/-- A match in the joined text is a match in one signal. -/
theorem contains_buildHaystack_iff {r : Rule} (hr : r.WellFormed) (d : Device) :
    (buildHaystack d).contains r.needle ↔ r.Matches d := by
  obtain ⟨hne, hline, hlow⟩ := hr
  have hjoin : buildHaystack d =
      (d.signals.map Str.toAsciiLowercase).flatMap fun t => t ++ ['\n'] := by
    rw [List.flatMap_map]
    rfl
  rw [Str.contains, decide_eq_true_eq, hjoin, infix_flatMap_iff hne hline, Matches]
  simp only [List.mem_map, exists_exists_and_eq_and, Str.infix_toAsciiLowercase_iff hlow]

end Rule

/-! ## The winner -/

private def better (best r : Rule) : Rule := if best.confidence ≤ r.confidence then r else best

private theorem foldl_better (rs : List Rule) (best : Rule) : ∃ before after,
    best :: rs = before ++ rs.foldl better best :: after ∧
      (∀ s ∈ before, s.confidence ≤ (rs.foldl better best).confidence) ∧
      ∀ s ∈ after, s.confidence < (rs.foldl better best).confidence := by
  induction rs generalizing best with
  | nil => exact ⟨[], [], rfl, by simp, by simp⟩
  | cons r rs ih =>
      rw [List.foldl_cons, better]
      by_cases h : best.confidence ≤ r.confidence
      · rw [if_pos h]
        obtain ⟨before, after, hsplit, hbefore, hafter⟩ := ih r
        have hr : r.confidence ≤ (rs.foldl better r).confidence := by
          cases before with
          | nil => rw [← (List.cons.inj hsplit).1]
          | cons s before => exact hbefore r ((List.cons.inj hsplit).1 ▸ List.mem_cons_self)
        refine ⟨best :: before, after, by rw [hsplit]; rfl, ?_, hafter⟩
        intro s hs
        cases List.mem_cons.mp hs with
        | inl heq => exact heq ▸ h.trans hr
        | inr hrest => exact hbefore s hrest
      · rw [if_neg h]
        obtain ⟨before, after, hsplit, hbefore, hafter⟩ := ih best
        have hlt : r.confidence < best.confidence := not_le.mp h
        cases before with
        | nil =>
            obtain ⟨hhead, hrest⟩ := List.cons.inj hsplit
            refine ⟨[], r :: after, by rw [← hhead, ← hrest]; rfl, by simp, ?_⟩
            intro s hs
            cases List.mem_cons.mp hs with
            | inl heq => rw [heq, ← hhead]; exact hlt
            | inr hlater => exact hafter s hlater
        | cons b before =>
            obtain ⟨hhead, hrest⟩ := List.cons.inj hsplit
            have hbest := hbefore best (hhead ▸ List.mem_cons_self)
            refine ⟨best :: r :: before, after, ?_, ?_, hafter⟩
            · exact congrArg (fun l => best :: r :: l) hrest
            · simp only [List.mem_cons, forall_eq_or_imp]
              exact ⟨hbest, hlt.le.trans hbest,
                fun s hs => hbefore s (List.mem_cons_of_mem _ hs)⟩

theorem maxByConfidence_eq_none_iff (rs : List Rule) : maxByConfidence rs = none ↔ rs = [] := by
  cases rs <;> simp [maxByConfidence]

/-- The winner stands after rules of at most its confidence and before rules of less. -/
theorem maxByConfidence_split {rs : List Rule} {r : Rule} (h : maxByConfidence rs = some r) :
    ∃ before after, rs = before ++ r :: after ∧ (∀ s ∈ before, s.confidence ≤ r.confidence) ∧
      ∀ s ∈ after, s.confidence < r.confidence := by
  cases rs with
  | nil => exact absurd h.symm (Option.some_ne_none _)
  | cons best rs =>
      obtain rfl := Option.some.inj h
      exact foldl_better rs best

/-- The winner is one of the rules, and none is more confident. -/
theorem maxByConfidence_spec {rs : List Rule} {r : Rule} (h : maxByConfidence rs = some r) :
    r ∈ rs ∧ ∀ s ∈ rs, s.confidence ≤ r.confidence := by
  obtain ⟨before, after, rfl, hbefore, hafter⟩ := maxByConfidence_split h
  simp only [List.mem_append, List.mem_cons, true_or, or_true, true_and]
  rintro s (hs | rfl | hs)
  · exact hbefore s hs
  · rfl
  · exact (hafter s hs).le

/-! ## The guess -/

def matching (d : Device) : List Rule :=
  rules.filter fun r => (buildHaystack d).contains r.needle

theorem mem_matching_iff {r : Rule} {d : Device} :
    r ∈ matching d ↔ r ∈ rules ∧ r.Matches d := by
  rw [matching, List.mem_filter]
  exact and_congr_right fun hr => Rule.contains_buildHaystack_iff (Rule.wellFormed_of_mem r hr) d

theorem classify_eq (d : Device) :
    classify d = (maxByConfidence (matching d)).map Rule.classification := rfl

theorem classify_eq_none_iff (d : Device) :
    classify d = none ↔ ∀ r ∈ rules, ¬ r.Matches d := by
  rw [classify_eq, Option.map_eq_none_iff, maxByConfidence_eq_none_iff,
    List.eq_nil_iff_forall_not_mem]
  simp only [mem_matching_iff, not_and]

theorem classify_eq_some {d : Device} {c : Classification} (h : classify d = some c) :
    ∃ r ∈ rules, r.Matches d ∧ c = r.classification ∧
      ∀ s ∈ rules, s.Matches d → s.confidence ≤ r.confidence := by
  obtain ⟨r, hwinner, rfl⟩ := Option.map_eq_some_iff.mp (classify_eq d ▸ h)
  obtain ⟨hmem, hmax⟩ := maxByConfidence_spec hwinner
  obtain ⟨hr, hmatch⟩ := mem_matching_iff.mp hmem
  exact ⟨r, hr, hmatch, rfl, fun s hs hsd => hmax s (mem_matching_iff.mpr ⟨hs, hsd⟩)⟩

private theorem Rule.Matches.mono {r : Rule} {d e : Device} (h : r.Matches d)
    (hsignals : d.signals ⊆ e.signals) : r.Matches e := by
  obtain ⟨s, hs, hoccurs⟩ := h
  exact ⟨s, hsignals hs, hoccurs⟩

private theorem signals_mono (d : Device) {services services' : List Str}
    (h : services ⊆ services') :
    { d with services := services }.signals ⊆ { d with services := services' }.signals :=
  List.append_subset.mpr
    ⟨List.subset_append_left _ _, List.Subset.trans h (List.subset_append_right _ _)⟩

private theorem classify_of_same_services {d : Device} {services : List Str}
    (h : ∀ s, s ∈ services ↔ s ∈ d.services) :
    classify { d with services := services } = classify d := by
  have hmatching : matching { d with services := services } = matching d := by
    apply List.filter_congr
    intro r hr
    rw [Bool.eq_iff_iff, Rule.contains_buildHaystack_iff (Rule.wellFormed_of_mem r hr),
      Rule.contains_buildHaystack_iff (Rule.wellFormed_of_mem r hr)]
    constructor
    · exact fun hmatch => hmatch.mono (signals_mono d fun s => (h s).mp)
    · exact fun hmatch => hmatch.mono (signals_mono d fun s => (h s).mpr)
  rw [classify_eq, classify_eq, hmatching]

private theorem classify_of_more_services {d : Device} {services : List Str}
    (h : d.services ⊆ services) {c : Classification} (hc : classify d = some c) :
    ∃ c', classify { d with services := services } = some c' ∧ c.confidence ≤ c'.confidence := by
  obtain ⟨r, hr, hmatch, rfl, _⟩ := classify_eq_some hc
  have hmatch' := hmatch.mono (signals_mono d h)
  cases hc' : classify { d with services := services } with
  | none => exact absurd hmatch' ((classify_eq_none_iff _).mp hc' r hr)
  | some c' =>
      obtain ⟨r', _, _, rfl, hmax⟩ := classify_eq_some hc'
      exact ⟨_, rfl, hmax r hr hmatch'⟩

/-- The search of the joined text is a search of each signal. The guess is a matching rule of the
highest confidence, and depends on the set of services alone, with which it only gets better. -/
theorem classify_spec (d : Device) :
    (∀ r ∈ rules, (buildHaystack d).contains r.needle ↔ r.Matches d) ∧
    (classify d = none ↔ ∀ r ∈ rules, ¬ r.Matches d) ∧
    (∀ c, classify d = some c → ∃ r ∈ rules, r.Matches d ∧ c = r.classification ∧
      ∀ s ∈ rules, s.Matches d → s.confidence ≤ r.confidence) ∧
    (∀ services : List Str, (∀ s, s ∈ services ↔ s ∈ d.services) →
      classify { d with services := services } = classify d) ∧
    (∀ services : List Str, d.services ⊆ services → ∀ c, classify d = some c →
      ∃ c', classify { d with services := services } = some c' ∧ c.confidence ≤ c'.confidence) :=
  ⟨fun r hr => Rule.contains_buildHaystack_iff (Rule.wellFormed_of_mem r hr) d,
    classify_eq_none_iff d, fun _ => classify_eq_some, fun _ => classify_of_same_services,
    fun _ h _ => classify_of_more_services h⟩

end Lanscope
