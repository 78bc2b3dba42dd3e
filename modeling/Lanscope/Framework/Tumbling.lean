import Lanscope.Framework.Distinct
import Lanscope.Framework.Emit

/-!
# Tumbling windows

A detector of many distinct elements in a short time. The first element opens a window, the first
element later than a span after its start opens the next one, and a window is hit by the element
that completes `n` distinct ones in it.
-/

namespace Lanscope.Framework.Tumbling

variable {α : Type} {span : Int} {n : Nat}

structure Window (α : Type) where
  start : Int
  items : Finset α

/-- The completion of a window. -/
structure Hit where
  start : Int
  time : Int
  deriving DecidableEq

/-- The window that an element of this time falls into. -/
def opened (span : Int) (w : Option (Window α)) (time : Int) : Window α :=
  match w with
  | none => ⟨time, ∅⟩
  | some w => if time - w.start > span then ⟨time, ∅⟩ else w

private theorem opened_of_le {w : Window α} {time : Int} (h : time ≤ w.start + span) :
    opened span (some w) time = w :=
  if_neg (by omega)

private theorem le_opened (hspan : 0 ≤ span) (o : Option (Window α)) (time : Int) :
    time ≤ (opened span o time).start + span := by
  cases o with
  | none => exact Int.le_add_of_nonneg_right hspan
  | some w =>
      simp only [opened]
      split_ifs
      · exact Int.le_add_of_nonneg_right hspan
      · omega

/-- Times do not decrease. -/
def Ordered (l : List (Int × α)) : Prop := l.Pairwise fun a b => a.1 ≤ b.1

private theorem le_last {l : List (Int × α)} {last : Int × α} (hordered : Ordered (l ++ [last]))
    {e : Int × α} (he : e ∈ l ++ [last]) : e.1 ≤ last.1 := by
  rcases List.mem_append.mp he with he | he
  · exact (List.pairwise_append.mp hordered).2.2 e he last (List.mem_singleton_self last)
  · rw [List.mem_singleton.mp he]

/-- The same elements at one time. -/
def stamped (time : Int) (xs : List α) : List (Int × α) := xs.map fun x => (time, x)

theorem mem_stamped {time : Int} {xs : List α} {e : Int × α} (he : e ∈ stamped time xs) :
    e.1 = time := by
  obtain ⟨x, _, rfl⟩ := List.mem_map.mp he
  rfl

theorem ordered_stamped_append {time : Int} {xs : List α} {l : List (Int × α)} (hl : Ordered l)
    (htimes : ∀ e ∈ l, time ≤ e.1) : Ordered (stamped time xs ++ l) := by
  refine List.pairwise_append.mpr ⟨?_, hl, ?_⟩
  · exact List.pairwise_map.mpr (List.pairwise_of_forall fun _ _ => le_rfl)
  · intro a ha b hb
    rw [mem_stamped ha]
    exact htimes b hb

variable [DecidableEq α]

def step (span : Int) (n : Nat) (w : Option (Window α)) (e : Int × α) :
    Option (Window α) × List Hit :=
  let w := opened span w e.1
  let items := insert e.2 w.items
  (some ⟨w.start, items⟩,
    if w.items.card < n ∧ n ≤ items.card then [⟨w.start, e.1⟩] else [])

/-- The window open after these elements, and the hits on the way. -/
def run (span : Int) (n : Nat) (l : List (Int × α)) : Option (Window α) × List Hit :=
  foldEmit (step span n) none l

def itemsOf (l : List (Int × α)) : Finset α := (l.map Prod.snd).toFinset

theorem run_concat (l : List (Int × α)) (e : Int × α) : run span n (l ++ [e]) =
    ((step span n (run span n l).1 e).1,
      (run span n l).2 ++ (step span n (run span n l).1 e).2) := by
  rw [run, foldEmit_append, foldEmit_singleton]
  rfl

/-! ## Elements that fall into the open window -/

/-- Elements within the open window join it, and the one that completes it hits it. -/
theorem foldEmit_within {l : List (Int × α)} {w : Window α}
    (hl : ∀ e ∈ l, e.1 ≤ w.start + span) :
    (foldEmit (step span n) (some w) l).1 = some ⟨w.start, w.items ∪ itemsOf l⟩ ∧
    (foldEmit (step span n) (some w) l).2.length =
      (if w.items.card < n ∧ n ≤ (w.items ∪ itemsOf l).card then 1 else 0) ∧
    ∀ h ∈ (foldEmit (step span n) (some w) l).2, h.start = w.start ∧ ∃ e ∈ l, h.time = e.1 := by
  induction l generalizing w with
  | nil =>
      simp only [foldEmit_nil, itemsOf, List.map_nil, List.toFinset_nil, Finset.union_empty,
        List.length_nil, List.not_mem_nil, IsEmpty.forall_iff, implies_true, and_true, true_and]
      rw [if_neg (by omega)]
  | cons e l ih =>
      have hstep : step span n (some w) e = (some ⟨w.start, insert e.2 w.items⟩,
          if w.items.card < n ∧ n ≤ (insert e.2 w.items).card then [⟨w.start, e.1⟩] else []) := by
        simp only [step, opened_of_le (hl e List.mem_cons_self)]
      have hitems : insert e.2 w.items ∪ itemsOf l = w.items ∪ itemsOf (e :: l) := by
        simp only [itemsOf, List.map_cons, List.toFinset_cons, Finset.insert_union,
          Finset.union_insert]
      obtain ⟨hopen, hlength, hhits⟩ := ih (w := ⟨w.start, insert e.2 w.items⟩)
        fun a ha => hl a (List.mem_cons_of_mem _ ha)
      rw [hitems] at hopen hlength
      rw [foldEmit_cons, hstep]
      refine ⟨hopen, ?_, fun h hh => ?_⟩
      · have hfirst : w.items.card ≤ (insert e.2 w.items).card :=
          Finset.card_le_card (Finset.subset_insert _ _)
        have hrest : (insert e.2 w.items).card ≤ (w.items ∪ itemsOf (e :: l)).card :=
          hitems ▸ Finset.card_le_card Finset.subset_union_left
        simp only [List.length_append, hlength]
        split_ifs <;> first | rfl | omega
      · rcases List.mem_append.mp hh with hh | hh
        · split_ifs at hh
          · rw [List.mem_singleton.mp hh]
            exact ⟨rfl, e, List.mem_cons_self, rfl⟩
          · exact absurd hh List.not_mem_nil
        · obtain ⟨hstart, a, ha, htime⟩ := hhits h hh
          exact ⟨hstart, a, List.mem_cons_of_mem _ ha, htime⟩

/-- The first element decides which window the others find open. -/
theorem foldEmit_opened (hspan : 0 ≤ span) (o : Option (Window α)) (e : Int × α)
    (l : List (Int × α)) : foldEmit (step span n) o (e :: l) =
    foldEmit (step span n) (some (opened span o e.1)) (e :: l) := by
  have hstep : step span n (some (opened span o e.1)) e = step span n o e := by
    simp only [step, opened_of_le (le_opened hspan o e.1)]
  rw [foldEmit_cons, foldEmit_cons, hstep]

/-! ## The opening of the open window -/

/-- A history split where its open window was opened. -/
structure Split (span : Int) (n : Nat) (before inside : List (Int × α)) (start : Int) : Prop where
  rolled : ∀ v, (run span n before).1 = some v → v.start + span < start
  opening : ∃ x rest, inside = (start, x) :: rest
  within : ∀ e ∈ inside, e.1 ≤ start + span

namespace Split

variable {before inside : List (Int × α)} {start : Int}

private theorem foldEmit_inside (h : Split span n before inside start) (hspan : 0 ≤ span) :
    foldEmit (step span n) (run span n before).1 inside =
      foldEmit (step span n) (some ⟨start, ∅⟩) inside := by
  obtain ⟨x, rest, rfl⟩ := h.opening
  have hopened : opened span (run span n before).1 start = ⟨start, ∅⟩ := by
    cases hrun : (run span n before).1 with
    | none => rfl
    | some v =>
        have hrolled := h.rolled v hrun
        exact if_pos (by omega)
  rw [foldEmit_opened hspan, hopened]

theorem open_eq (h : Split span n before inside start) (hspan : 0 ≤ span) :
    (run span n (before ++ inside)).1 = some ⟨start, itemsOf inside⟩ := by
  have hwithin := (foldEmit_within (n := n) (w := ⟨start, ∅⟩) h.within).1
  rw [Finset.empty_union] at hwithin
  rw [run, foldEmit_append, ← run, h.foldEmit_inside hspan, hwithin]

/-- The open window is hit once, by an element of its own, when it has taken in `n` distinct
ones. -/
theorem hits_eq (h : Split span n before inside start) (hspan : 0 ≤ span) (hn : 1 ≤ n) :
    ∃ hits, (run span n (before ++ inside)).2 = (run span n before).2 ++ hits ∧
      hits.length = (if n ≤ (itemsOf inside).card then 1 else 0) ∧
      ∀ h ∈ hits, h.start = start ∧ ∃ e ∈ inside, h.time = e.1 := by
  obtain ⟨_, hlength, hhits⟩ := foldEmit_within (n := n) (w := ⟨start, ∅⟩) h.within
  have hpos : 0 < n := hn
  simp only [Finset.card_empty, Finset.empty_union, hpos, true_and] at hlength
  refine ⟨_, ?_, hlength, hhits⟩
  rw [run, foldEmit_append, ← run, h.foldEmit_inside hspan]

end Split

/-- Every history splits at the opening of its open window, which has its last element. -/
theorem exists_split (hspan : 0 ≤ span) (l : List (Int × α)) (e : Int × α) :
    ∃ before inside start, l ++ [e] = before ++ inside ∧ e ∈ inside ∧
      Split span n before inside start := by
  induction l using List.reverseRecOn generalizing e with
  | nil =>
      refine ⟨[], [e], e.1, rfl, List.mem_singleton_self e, by simp [run], ⟨e.2, [], rfl⟩, ?_⟩
      intro a ha
      rw [List.mem_singleton.mp ha]
      exact Int.le_add_of_nonneg_right hspan
  | append_singleton l b ih =>
      obtain ⟨before, inside, start, hl, _, hsplit⟩ := ih b
      rw [hl]
      by_cases he : e.1 ≤ start + span
      · refine ⟨before, inside ++ [e], start, List.append_assoc _ _ _, by simp,
          hsplit.rolled, ?_, ?_⟩
        · obtain ⟨x, rest, hinside⟩ := hsplit.opening
          exact ⟨x, rest ++ [e], by rw [hinside]; rfl⟩
        · intro a ha
          rcases List.mem_append.mp ha with ha | ha
          · exact hsplit.within a ha
          · rw [List.mem_singleton.mp ha]
            exact he
      · refine ⟨before ++ inside, [e], e.1, rfl, List.mem_singleton_self e, ?_,
          ⟨e.2, [], rfl⟩, ?_⟩
        · intro v hv
          obtain rfl := Option.some.inj ((hsplit.open_eq hspan).symm.trans hv)
          exact not_le.mp he
        · intro a ha
          rw [List.mem_singleton.mp ha]
          exact Int.le_add_of_nonneg_right hspan

namespace Split

variable {before inside : List (Int × α)} {start : Int}

theorem start_le (h : Split span n before inside start) (hordered : Ordered (before ++ inside))
    {e : Int × α} (he : e ∈ inside) : start ≤ e.1 := by
  obtain ⟨x, rest, hinside⟩ := h.opening
  have htail := (List.pairwise_append.mp hordered).2.1
  rw [hinside, List.pairwise_cons] at htail
  rw [hinside] at he
  rcases List.mem_cons.mp he with rfl | he
  · exact le_rfl
  · exact htail.1 e he

theorem le_start (h : Split span n before inside start) (hordered : Ordered (before ++ inside))
    {e : Int × α} (he : e ∈ before) : e.1 ≤ start := by
  obtain ⟨x, rest, hinside⟩ := h.opening
  have hmem : (start, x) ∈ inside := hinside ▸ List.mem_cons_self
  exact (List.pairwise_append.mp hordered).2.2 e he _ hmem

/-- A window that has taken in `n` distinct elements was hit. -/
theorem exists_hit (h : Split span n before inside start) (hspan : 0 ≤ span) (hn : 1 ≤ n)
    (hordered : Ordered (before ++ inside)) (hfull : n ≤ (itemsOf inside).card) :
    ∃ hit ∈ (run span n (before ++ inside)).2, start ≤ hit.time ∧
      ∃ e ∈ inside, hit.time = e.1 := by
  obtain ⟨hits, hrun, hlength, hhits⟩ := h.hits_eq hspan hn
  rw [if_pos hfull] at hlength
  obtain ⟨hit, rfl⟩ := List.length_eq_one_iff.mp hlength
  obtain ⟨_, e, he, htime⟩ := hhits hit (List.mem_singleton_self _)
  exact ⟨hit, by simp [hrun], htime ▸ h.start_le hordered he, e, he, htime⟩

end Split

/-! ## What a hit says -/

/-- The hits of a history come from windows further apart than the span, each from an element of
its window. -/
theorem hits_spaced (hspan : 0 ≤ span) (hn : 1 ≤ n) {l : List (Int × α)} (hordered : Ordered l) :
    ((run span n l).2.Pairwise fun a b => a.start + span < b.start) ∧
    ∀ h ∈ (run span n l).2, h.start ≤ h.time ∧ h.time ≤ h.start + span ∧
      ∃ w, (run span n l).1 = some w ∧ h.start ≤ w.start := by
  induction hlength : l.length using Nat.strong_induction_on generalizing l with
  | _ k ih =>
      rcases l.eq_nil_or_concat' with rfl | ⟨l, e, rfl⟩
      · simp [run]
      obtain ⟨before, inside, start, hl, _, hsplit⟩ := exists_split (n := n) hspan l e
      rw [hl] at hordered hlength ⊢
      have hshorter : before.length < k := by
        obtain ⟨x, rest, hinside⟩ := hsplit.opening
        rw [← hlength, hinside, List.length_append, List.length_cons]
        omega
      obtain ⟨hspaced, hhit⟩ :=
        ih before.length hshorter (List.pairwise_append.mp hordered).1 rfl
      obtain ⟨new, hrun, hone, hnew⟩ := hsplit.hits_eq hspan hn
      -- hits of earlier windows start more than the span before the open one
      have hearlier : ∀ a ∈ (run span n before).2, a.start + span < start := by
        intro a ha
        obtain ⟨_, _, v, hv, hle⟩ := hhit a ha
        have hrolled := hsplit.rolled v hv
        omega
      rw [hrun, hsplit.open_eq hspan]
      constructor
      · refine List.pairwise_append.mpr ⟨hspaced, ?_, ?_⟩
        · have hatmost : new.length ≤ 1 := by
            rw [hone]
            split_ifs <;> omega
          rcases new with _ | ⟨a, _ | ⟨b, new⟩⟩
          · exact List.Pairwise.nil
          · exact List.pairwise_singleton _ _
          · simp at hatmost
        · intro a ha b hb
          rw [(hnew b hb).1]
          exact hearlier a ha
      · intro a ha
        rcases List.mem_append.mp ha with ha | ha
        · obtain ⟨hfrom, hto, _⟩ := hhit a ha
          have hgap : a.start ≤ start := by
            have hlt := hearlier a ha
            omega
          exact ⟨hfrom, hto, _, rfl, hgap⟩
        · obtain ⟨hstart, b, hb, htime⟩ := hnew a ha
          rw [hstart, htime]
          exact ⟨hsplit.start_le hordered hb, hsplit.within b hb, _, rfl, le_rfl⟩

theorem start_of_hit {w : Option (Window α)} {e : Int × α} {h : Hit}
    (hh : h ∈ (step span n w e).2) :
    h.time = e.1 ∧ ∃ v, (step span n w e).1 = some v ∧ v.start = h.start := by
  simp only [step] at hh
  split_ifs at hh
  · rw [List.mem_singleton.mp hh]
    exact ⟨rfl, _, rfl, rfl⟩
  · exact absurd hh List.not_mem_nil

theorem spaced_of_hits (hspan : 0 ≤ span) (hn : 1 ≤ n) {l m : List (Int × α)} {a b : Int × α}
    (hordered : Ordered (l ++ [a] ++ m ++ [b])) {h h' : Hit}
    (ha : h ∈ (step span n (run span n l).1 a).2)
    (hb : h' ∈ (step span n (run span n (l ++ [a] ++ m)).1 b).2) : h.start + span < h'.start := by
  have hspaced := (hits_spaced hspan hn hordered).1
  have hearlier : h ∈ (run span n (l ++ [a] ++ m)).2 := by
    rw [run, foldEmit_append, ← run, run_concat]
    exact List.mem_append_left _ (List.mem_append_right _ ha)
  rw [run_concat] at hspaced
  exact (List.pairwise_append.mp hspaced).2.2 h hearlier h' hb

/-- A hit is backed by `n` elements, no two alike, of the last `span` time units. -/
theorem hit_backed (hspan : 0 ≤ span) {l : List (Int × α)} {e : Int × α}
    (hordered : Ordered (l ++ [e])) {h : Hit} (hh : h ∈ (step span n (run span n l).1 e).2) :
    h.time = e.1 ∧ ∃ backing : List (Int × α), backing.Sublist (l ++ [e]) ∧ backing.length = n ∧
      (backing.map Prod.snd).Nodup ∧ ∀ b ∈ backing, e.1 - span ≤ b.1 ∧ b.1 ≤ e.1 := by
  obtain ⟨before, inside, start, hl, hlast, hsplit⟩ := exists_split (n := n) hspan l e
  have hopen : (step span n (run span n l).1 e).1 = some ⟨start, itemsOf inside⟩ := by
    rw [← hsplit.open_eq hspan, ← hl, run_concat]
  simp only [step, Option.some.injEq] at hopen hh
  split_ifs at hh with hcrossed
  · rw [List.mem_singleton.mp hh]
    have hfull : n ≤ (itemsOf inside).card := by
      have hitems : insert e.2 _ = itemsOf inside := congrArg Window.items hopen
      rw [← hitems]
      exact hcrossed.2
    obtain ⟨backing, hsub, hlength, hnodup⟩ := exists_representatives Prod.snd inside hfull
    have hsub' : backing.Sublist (l ++ [e]) :=
      hl ▸ hsub.trans (List.sublist_append_right before inside)
    refine ⟨rfl, backing, hsub', hlength, hnodup, fun b hb => ?_⟩
    have hto := le_last hordered (hsub'.subset hb)
    have hfrom := hsplit.start_le (hl ▸ hordered) (hsub.subset hb)
    have hwithin := hsplit.within e hlast
    omega
  · exact absurd hh List.not_mem_nil

/-- Points of an interval of length `d` that are more than `gap` apart. -/
theorem length_le_of_spaced {gap : Nat} (l : List Int) {x : Int} {d : Nat}
    (hspaced : l.Pairwise fun a b : Int => a + gap < b) (hl : ∀ a ∈ l, x ≤ a ∧ a ≤ x + d) :
    l.length ≤ d / (gap + 1) + 1 := by
  induction l generalizing x d with
  | nil => exact Nat.zero_le _
  | cons a l ih =>
      obtain ⟨hfrom, _⟩ := hl a List.mem_cons_self
      obtain ⟨hgap, hrest⟩ := List.pairwise_cons.mp hspaced
      cases l with
      | nil => exact Nat.le_add_left _ _
      | cons b l =>
          have hb := hgap b List.mem_cons_self
          have hb' := hl b (List.mem_cons_of_mem _ List.mem_cons_self)
          have hroom : gap + 1 ≤ d := by omega
          have hlength := ih (x := x + (gap + 1)) (d := d - (gap + 1)) hrest (by
            intro c hc
            have hac := hgap c hc
            have hcx := hl c (List.mem_cons_of_mem _ hc)
            omega)
          rw [Nat.div_eq_sub_div (Nat.succ_pos gap) hroom]
          exact Nat.succ_le_succ hlength

/-! ## What is certain to be hit -/

theorem itemsOf_mono {l m : List (Int × α)} (h : l ⊆ m) : itemsOf l ⊆ itemsOf m := by
  intro x hx
  obtain ⟨e, he, rfl⟩ := List.mem_map.mp (List.mem_toFinset.mp hx)
  exact List.mem_toFinset.mpr (List.mem_map_of_mem (h he))

/-- Where a part has fewer than `n` of twice `n` less one distinct elements, the rest has `n`. -/
private theorem exists_early (hn : 1 ≤ n) {burst before inside : List (Int × α)}
    (hsub : burst ⊆ before ++ inside) (hmany : 2 * n - 1 ≤ (itemsOf burst).card)
    (hfew : (itemsOf inside).card < n) :
    ∃ early, early ⊆ burst ∧ early ⊆ before ∧ early ≠ [] ∧ n ≤ (itemsOf early).card := by
  have hmem (e : Int × α) : e ∈ burst.filter (fun e => e ∈ before) ↔ e ∈ burst ∧ e ∈ before := by
    rw [List.mem_filter, decide_eq_true_eq]
  have hcover : itemsOf burst ⊆ itemsOf (burst.filter fun e => e ∈ before) ∪ itemsOf inside := by
    intro x hx
    obtain ⟨e, he, rfl⟩ := List.mem_map.mp (List.mem_toFinset.mp hx)
    rw [Finset.mem_union]
    rcases List.mem_append.mp (hsub he) with hbefore | hinside
    · exact Or.inl (List.mem_toFinset.mpr (List.mem_map_of_mem ((hmem e).mpr ⟨he, hbefore⟩)))
    · exact Or.inr (List.mem_toFinset.mpr (List.mem_map_of_mem hinside))
  have hearly : n ≤ (itemsOf (burst.filter fun e => e ∈ before)).card := by
    have hcard := (Finset.card_le_card hcover).trans (Finset.card_union_le _ _)
    omega
  refine ⟨_, fun e he => ((hmem e).mp he).1, fun e he => ((hmem e).mp he).2, ?_, hearly⟩
  intro hnil
  rw [hnil, itemsOf, List.map_nil, List.toFinset_nil, Finset.card_empty] at hearly
  omega

/-- Among elements of one span, twice `n` less one distinct ones are enough for a hit. At most one
window is opened in the meantime, so that `n` of them fall into one window. -/
theorem exists_hit_of_burst (hspan : 0 ≤ span) (hn : 1 ≤ n) {l burst : List (Int × α)}
    {last : Int × α} (hordered : Ordered (l ++ [last])) (hburst : burst ⊆ l) {first : Int}
    (htimes : ∀ e ∈ burst ++ [last], first ≤ e.1 ∧ e.1 ≤ first + span)
    (hmany : 2 * n - 1 ≤ (itemsOf (burst ++ [last])).card) :
    ∃ h ∈ (run span n (l ++ [last])).2, first - span ≤ h.time ∧ h.time ≤ last.1 := by
  obtain ⟨before, inside, start, hl, hlast, hsplit⟩ := exists_split (n := n) hspan l last
  have hsub : burst ++ [last] ⊆ before ++ inside := by
    rw [← hl]
    exact List.append_subset.mpr ⟨fun e he => List.mem_append_left _ (hburst he),
      List.subset_append_right l [last]⟩
  have hupto : ∀ e ∈ before ++ inside, e.1 ≤ last.1 := by
    rw [← hl]
    exact fun e he => le_last hordered he
  rw [hl] at hordered ⊢
  have hlasttime := htimes last (by simp)
  by_cases hfull : n ≤ (itemsOf inside).card
  · obtain ⟨hit, hmem, hfrom, e, he, htime⟩ := hsplit.exists_hit hspan hn hordered hfull
    have hto := hupto e (List.mem_append_right _ he)
    have hwithin := hsplit.within last hlast
    exact ⟨hit, hmem, by omega, by omega⟩
  -- otherwise `n` distinct elements of the burst lie before the open window
  · obtain ⟨early, hofBurst, hofBefore, hnonempty, hearly⟩ :=
      exists_early hn hsub hmany (not_le.mp hfull)
    obtain ⟨f, hf⟩ := List.exists_mem_of_ne_nil early hnonempty
    rcases before.eq_nil_or_concat' with rfl | ⟨l', e', rfl⟩
    · exact absurd (hofBefore hf) List.not_mem_nil
    obtain ⟨before', inside', start', hl', _, hsplit'⟩ := exists_split (n := n) hspan l' e'
    rw [hl'] at hordered hsplit hupto hofBefore ⊢
    have hordered' : Ordered (before' ++ inside') := (List.pairwise_append.mp hordered).1
    have hrolled : start' + span < start := hsplit.rolled _ (hsplit'.open_eq hspan)
    have hopened := hsplit.start_le hordered hlast
    -- the window before the open one started before the burst, so it took these in
    have hinside' : early ⊆ inside' := by
      intro e he
      rcases List.mem_append.mp (hofBefore he) with hold | hnew
      · have hle := hsplit'.le_start hordered' hold
        have htime := htimes e (hofBurst he)
        omega
      · exact hnew
    have hfull' := hearly.trans (Finset.card_le_card (itemsOf_mono hinside'))
    obtain ⟨hit, hmem, hfrom, e, he, htime⟩ := hsplit'.exists_hit hspan hn hordered' hfull'
    have hto := hupto e (List.mem_append_left _ (List.mem_append_right _ he))
    have hwithin := hsplit'.within f (hinside' hf)
    have hftime := htimes f (hofBurst hf)
    obtain ⟨hits, hrun, _⟩ := hsplit.hits_eq hspan hn
    rw [hrun]
    exact ⟨hit, List.mem_append_left _ hmem, by omega, by omega⟩

/-- The same where the elements may stand anywhere in a longer history. -/
theorem exists_hit_of_items (hspan : 0 ≤ span) (hn : 1 ≤ n) {l : List (Int × α)}
    (hordered : Ordered l) {items : Finset α} {first : Int} (hmany : 2 * n - 1 ≤ items.card)
    (htimes : ∀ x ∈ items, ∃ e ∈ l, e.2 = x ∧ first ≤ e.1 ∧ e.1 ≤ first + span) :
    ∃ h ∈ (run span n l).2, first - span ≤ h.time ∧ h.time ≤ first + span := by
  induction l using List.reverseRecOn with
  | nil =>
      obtain ⟨x, hx⟩ : items.Nonempty := Finset.card_pos.mp (by omega)
      obtain ⟨e, he, _⟩ := htimes x hx
      exact absurd he List.not_mem_nil
  | append_singleton l last ih =>
      by_cases hlast : last.2 ∈ items ∧ first ≤ last.1 ∧ last.1 ≤ first + span
      · let burst := l.filter fun e => e.2 ∈ items ∧ first ≤ e.1 ∧ e.1 ≤ first + span
        have hburst : ∀ e ∈ burst ++ [last],
            e.2 ∈ items ∧ first ≤ e.1 ∧ e.1 ≤ first + span := by
          intro e he
          cases List.mem_append.mp he with
          | inl h => exact of_decide_eq_true (List.mem_filter.mp h).2
          | inr h => exact List.mem_singleton.mp h ▸ hlast
        have hitems : items ⊆ itemsOf (burst ++ [last]) := by
          intro x hx
          obtain ⟨e, he, rfl, htime⟩ := htimes x hx
          refine List.mem_toFinset.mpr (List.mem_map_of_mem (List.mem_append.mpr ?_))
          cases List.mem_append.mp he with
          | inl h => exact Or.inl (List.mem_filter.mpr ⟨h, decide_eq_true ⟨hx, htime⟩⟩)
          | inr h => exact Or.inr h
        obtain ⟨hit, hhit, hfrom, hto⟩ := exists_hit_of_burst hspan hn hordered
          List.filter_sublist.subset (fun e he => (hburst e he).2)
          (hmany.trans (Finset.card_le_card hitems))
        exact ⟨hit, hhit, hfrom, hto.trans hlast.2.2⟩
      · obtain ⟨hit, hhit, htime⟩ := ih (List.pairwise_append.mp hordered).1 fun x hx => by
          obtain ⟨e, he, rfl, htime⟩ := htimes x hx
          cases List.mem_append.mp he with
          | inl h => exact ⟨e, h, rfl, htime⟩
          | inr h =>
              obtain rfl := List.mem_singleton.mp h
              exact absurd ⟨hx, htime⟩ hlast
        rw [run_concat]
        exact ⟨hit, List.mem_append_left _ hhit, htime⟩

/-! ## What is not hit -/

private theorem itemsOf_stamped (time : Int) (xs : List α) :
    itemsOf (stamped time xs) = xs.toFinset := by
  simp [itemsOf, stamped]

/-- What arrives at one time is hit once at most, and its order does not matter. -/
theorem foldEmit_stamped (hspan : 0 ≤ span) (o : Option (Window α)) (time : Int) {xs : List α}
    (hxs : xs ≠ []) : foldEmit (step span n) o (stamped time xs) =
    let w := opened span o time
    (some ⟨w.start, w.items ∪ xs.toFinset⟩,
      if w.items.card < n ∧ n ≤ (w.items ∪ xs.toFinset).card then [⟨w.start, time⟩] else []) := by
  have hfirst : foldEmit (step span n) o (stamped time xs) =
      foldEmit (step span n) (some (opened span o time)) (stamped time xs) := by
    obtain ⟨x, rest, rfl⟩ := List.exists_cons_of_ne_nil hxs
    exact foldEmit_opened hspan o (time, x) (stamped time rest)
  have hwithin : ∀ e ∈ stamped time xs, e.1 ≤ (opened span o time).start + span := by
    intro e he
    rw [mem_stamped he]
    exact le_opened hspan o time
  obtain ⟨hopen, hlength, hhits⟩ := foldEmit_within (n := n) hwithin
  rw [itemsOf_stamped] at hopen hlength
  rw [hfirst]
  refine Prod.ext hopen ?_
  dsimp only
  split_ifs at hlength ⊢
  · obtain ⟨h, hone⟩ := List.length_eq_one_iff.mp hlength
    obtain ⟨hstart, e, he, htime⟩ := hhits h (by simp [hone])
    rw [hone, List.singleton_inj, ← hstart, ← mem_stamped he, ← htime]
  · exact List.length_eq_zero_iff.mp hlength

/-- Two bursts of fewer than `n` distinct elements, one at the end of a window and the other right
after it, are not hit. -/
theorem no_hit_across_roll (hspan : 0 ≤ span) {xs ys : List α} (hxs : xs.toFinset.card < n)
    (hys : ys.toFinset.card < n) (hopened : xs ≠ []) :
    (run span n (stamped 0 xs ++ (stamped span xs ++ stamped (span + 1) ys))).2 = [] := by
  have hfirst : foldEmit (step span n) none (stamped 0 xs) = (some ⟨0, xs.toFinset⟩, []) := by
    rw [foldEmit_stamped hspan none 0 hopened]
    simp only [opened, Finset.empty_union]
    rw [if_neg fun h => absurd h.2 (Nat.not_le.mpr hxs)]
  have hsecond : foldEmit (step span n) (some ⟨0, xs.toFinset⟩) (stamped span xs) =
      (some ⟨0, xs.toFinset⟩, []) := by
    have hopen : opened span (some ⟨0, xs.toFinset⟩) span = ⟨0, xs.toFinset⟩ :=
      opened_of_le (Int.le_add_of_nonneg_left le_rfl)
    rw [foldEmit_stamped hspan _ span hopened]
    simp only [hopen, Finset.union_self]
    rw [if_neg fun h => absurd h.2 (Nat.not_le.mpr hxs)]
  have hthird :
      (foldEmit (step span n) (some ⟨0, xs.toFinset⟩) (stamped (span + 1) ys)).2 = [] := by
    by_cases hnil : ys = []
    · subst ys
      rfl
    · have hopen : opened span (some ⟨0, xs.toFinset⟩) (span + 1) = ⟨span + 1, ∅⟩ :=
        if_pos (show span + 1 - 0 > span by omega)
      rw [foldEmit_stamped hspan _ (span + 1) hnil]
      simp only [hopen, Finset.empty_union]
      rw [if_neg fun h => absurd h.2 (Nat.not_le.mpr hys)]
  rw [run, foldEmit_append, hfirst, foldEmit_append, hsecond, hthird]
  rfl

end Lanscope.Framework.Tumbling
