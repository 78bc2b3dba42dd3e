import Mathlib.Tactic

/-!
# Folds that emit

A loop body that updates a state and emits outputs, run over a list. The rules reduce a fact about
the final state and all outputs to a fact about one pass of the body. The last ones are about plain
folds over a list that is taken in a second time.
-/

namespace Lanscope.Framework

variable {σ α ω : Type*} {f : σ → α → σ × List ω}

/-- The final state and the outputs in order. -/
def foldEmit (f : σ → α → σ × List ω) : σ → List α → σ × List ω
  | s, [] => (s, [])
  | s, a :: as => ((foldEmit f (f s a).1 as).1, (f s a).2 ++ (foldEmit f (f s a).1 as).2)

@[simp] theorem foldEmit_nil (s : σ) : foldEmit f s [] = (s, []) := rfl

theorem foldEmit_cons (s : σ) (a : α) (as : List α) : foldEmit f s (a :: as) =
    ((foldEmit f (f s a).1 as).1, (f s a).2 ++ (foldEmit f (f s a).1 as).2) := rfl

/-- An invariant of the body under which every output is good. -/
theorem foldEmit_invariant {I : σ → Prop} {P : ω → Prop} {l : List α}
    (hstep : ∀ s, ∀ a ∈ l, I s → I (f s a).1 ∧ ∀ w ∈ (f s a).2, P w)
    {s : σ} (hs : I s) : I (foldEmit f s l).1 ∧ ∀ w ∈ (foldEmit f s l).2, P w := by
  induction l generalizing s with
  | nil => exact ⟨hs, by simp⟩
  | cons a as ih =>
      obtain ⟨hone, hout⟩ := hstep s a List.mem_cons_self hs
      obtain ⟨hrest, hrest'⟩ := ih (fun s b hb => hstep s b (List.mem_cons_of_mem _ hb)) hone
      refine ⟨hrest, fun w hw => ?_⟩
      rcases List.mem_append.mp hw with hw | hw
      · exact hout w hw
      · exact hrest' w hw

/-- A preorder along which the state grows. What an output owes to the state at its emission, and
growth keeps, it owes to the final state. -/
theorem foldEmit_grows {R : σ → σ → Prop} {P : σ → ω → Prop}
    (hrefl : ∀ s, R s s) (htrans : ∀ s t u, R s t → R t u → R s u)
    (hmono : ∀ s t w, R s t → P s w → P t w)
    (hstep : ∀ s a, R s (f s a).1 ∧ ∀ w ∈ (f s a).2, P (f s a).1 w) (s : σ) (as : List α) :
    R s (foldEmit f s as).1 ∧ ∀ w ∈ (foldEmit f s as).2, P (foldEmit f s as).1 w := by
  induction as generalizing s with
  | nil => exact ⟨hrefl s, by simp⟩
  | cons a as ih =>
      obtain ⟨hone, hout⟩ := hstep s a
      obtain ⟨hrest, hrest'⟩ := ih (f s a).1
      refine ⟨htrans _ _ _ hone hrest, fun w hw => ?_⟩
      rcases List.mem_append.mp hw with hw | hw
      · exact hmono _ _ _ hrest (hout w hw)
      · exact hrest' w hw

theorem foldEmit_append (s : σ) (l m : List α) : foldEmit f s (l ++ m) =
    ((foldEmit f (foldEmit f s l).1 m).1,
      (foldEmit f s l).2 ++ (foldEmit f (foldEmit f s l).1 m).2) := by
  induction l generalizing s with
  | nil => rfl
  | cons a l ih => simp only [List.cons_append, foldEmit_cons, ih, List.append_assoc]

theorem foldEmit_singleton (s : σ) (a : α) : foldEmit f s [a] = f s a := by
  simp only [foldEmit_cons, foldEmit_nil, List.append_nil]

/-- Where the body does to encoded states what another body does to the states themselves, so does
the fold. -/
theorem foldEmit_simulation {τ β υ : Type*} {g : τ → β → τ × List υ} {e : τ → σ} {i : α → β}
    {o : υ → ω} {l : List α}
    (hstep : ∀ t, ∀ a ∈ l, f (e t) a = (g t (i a)).map e (List.map o)) (t : τ) :
    foldEmit f (e t) l = (foldEmit g t (l.map i)).map e (List.map o) := by
  induction l generalizing t with
  | nil => rfl
  | cons a l ih =>
      have hrest := ih (fun t b hb => hstep t b (List.mem_cons_of_mem _ hb)) (g t (i a)).1
      rw [foldEmit_cons, hstep t a List.mem_cons_self, List.map_cons, foldEmit_cons]
      simp only [Prod.map, hrest, List.map_append]

theorem foldEmit_map {β : Type*} (ev : β → α) (s : σ) (l : List β) :
    foldEmit f s (l.map ev) = foldEmit (fun s b => f s (ev b)) s l := by
  induction l generalizing s with
  | nil => rfl
  | cons b l ih => simp only [List.map_cons, foldEmit_cons, ih]

theorem foldEmit_congr_map {β : Type*} {ev : α → β} (hev : ∀ s a b, ev a = ev b → f s a = f s b)
    {l m : List α} (h : l.map ev = m.map ev) (s : σ) : foldEmit f s l = foldEmit f s m := by
  induction l generalizing m s with
  | nil => rw [List.map_eq_nil_iff.mp h.symm]
  | cons a l ih =>
      cases m with
      | nil => exact absurd h (List.cons_ne_nil _ _)
      | cons b m =>
          obtain ⟨hhead, htail⟩ := List.cons_eq_cons.mp h
          rw [foldEmit_cons, foldEmit_cons, hev s a b hhead, ih htail]

/-- Each output comes from a pass of the body, over one of the inputs. -/
theorem mem_foldEmit {s : σ} {l : List α} {w : ω} (hw : w ∈ (foldEmit f s l).2) :
    ∃ before a after, l = before ++ a :: after ∧ w ∈ (f (foldEmit f s before).1 a).2 := by
  induction l generalizing s with
  | nil => exact absurd hw List.not_mem_nil
  | cons a l ih =>
      rcases List.mem_append.mp hw with hw | hw
      · exact ⟨[], a, l, rfl, hw⟩
      · obtain ⟨before, b, after, rfl, hb⟩ := ih hw
        exact ⟨a :: before, b, after, rfl, hb⟩

/-- The unwinding rule. Where the body, at each visible input, does to the part `R` describes and to
the outputs `q` selects what another body does, and at each other input nothing, the fold does to
them what the other body does over the visible inputs alone. -/
theorem foldEmit_unwinding {τ : Type*} {g : τ → α → τ × List ω} {R : σ → τ → Prop}
    {visible : α → Bool} {q : ω → Bool}
    (hvisible : ∀ s t a, R s t → visible a →
      R (f s a).1 (g t a).1 ∧ (f s a).2.filter q = (g t a).2)
    (hhidden : ∀ s t a, R s t → ¬ visible a → R (f s a).1 t ∧ (f s a).2.filter q = [])
    (l : List α) {s : σ} {t : τ} (h : R s t) :
    R (foldEmit f s l).1 (foldEmit g t (l.filter visible)).1 ∧
      (foldEmit f s l).2.filter q = (foldEmit g t (l.filter visible)).2 := by
  induction l generalizing s t with
  | nil => exact ⟨h, rfl⟩
  | cons a l ih =>
      rw [foldEmit_cons, List.filter_append]
      by_cases hview : visible a
      · obtain ⟨hnext, hsame⟩ := hvisible s t a h hview
        obtain ⟨hrest, hout⟩ := ih hnext
        rw [List.filter_cons_of_pos hview, foldEmit_cons, hsame, hout]
        exact ⟨hrest, rfl⟩
      · obtain ⟨hnext, hquiet⟩ := hhidden s t a h hview
        rw [List.filter_cons_of_neg hview, hquiet, List.nil_append]
        exact ih hnext

/-- Where any two passes of the body may trade places, so may all of them. -/
theorem foldEmit_perm {I : σ → Prop} (hI : ∀ s a, I s → I (f s a).1)
    (hswap : ∀ s a b, I s → (foldEmit f s [a, b]).1 = (foldEmit f s [b, a]).1 ∧
      (foldEmit f s [a, b]).2.Perm (foldEmit f s [b, a]).2)
    {l m : List α} (hperm : l.Perm m) {s : σ} (hs : I s) :
    (foldEmit f s l).1 = (foldEmit f s m).1 ∧ (foldEmit f s l).2.Perm (foldEmit f s m).2 := by
  induction hperm generalizing s with
  | nil => exact ⟨rfl, List.Perm.refl _⟩
  | cons a _ ih =>
      obtain ⟨hstate, hout⟩ := ih (hI s a hs)
      exact ⟨hstate, hout.append_left _⟩
  | swap a b l =>
      obtain ⟨hstate, hout⟩ := hswap s b a hs
      have hsplit (c d : α) : c :: d :: l = [c, d] ++ l := rfl
      rw [hsplit, hsplit, foldEmit_append, foldEmit_append, hstate]
      exact ⟨rfl, hout.append_right _⟩
  | trans _ _ ih₁ ih₂ =>
      obtain ⟨hstate₁, hout₁⟩ := ih₁ hs
      obtain ⟨hstate₂, hout₂⟩ := ih₂ hs
      exact ⟨hstate₁.trans hstate₂, hout₁.trans hout₂⟩

/-! ## Taking a list in twice -/

section Twice

variable {g : σ → α → σ} {l : List α}

theorem foldl_settled {s : σ} (h : ∀ a ∈ l, g s a = s) : l.foldl g s = s := by
  induction l with
  | nil => rfl
  | cons a l ih =>
      rw [List.foldl_cons, h a List.mem_cons_self]
      exact ih fun b hb => h b (List.mem_cons_of_mem _ hb)

/-- Where each element settles as it is taken in, and stays settled, a second time changes nothing. -/
theorem foldl_twice (hsettle : ∀ s a, g (g s a) a = g s a)
    (hkeep : ∀ s a b, g s a = s → g (g s b) a = g s b) (l : List α) (s : σ) :
    l.foldl g (l.foldl g s) = l.foldl g s := by
  apply foldl_settled
  induction l using List.reverseRecOn with
  | nil => simp
  | append_singleton l b ih =>
      intro a ha
      rw [List.foldl_concat]
      cases List.mem_append.mp ha with
      | inl hearly => exact hkeep _ a b (ih a hearly)
      | inr hlast =>
          obtain rfl := List.mem_singleton.mp hlast
          exact hsettle _ a

/-- The last value wins, and the start counts only where there is none. -/
theorem foldl_or {β : Type*} (k : α → Option β) (l : List α) (start : Option β) :
    l.foldl (fun acc a => (k a).or acc) start =
      (l.foldl (fun acc a => (k a).or acc) none).or start := by
  induction l using List.reverseRecOn with
  | nil => rfl
  | append_singleton l a ih => rw [List.foldl_concat, List.foldl_concat, ih, Option.or_assoc]

theorem foldl_or_twice {β : Type*} (k : α → Option β) (l : List α) (start : Option β) :
    l.foldl (fun acc a => (k a).or acc) (l.foldl (fun acc a => (k a).or acc) start) =
      l.foldl (fun acc a => (k a).or acc) start := by
  rw [foldl_or k l start, foldl_or k l, ← Option.or_assoc, Option.or_self]

end Twice

end Lanscope.Framework
