import Mathlib.Data.List.Basic
import Mathlib.Data.Option.Basic
import Mathlib.Tactic

/-!
# Runs of labelled step functions

A step function takes a state and a label to the next state, or refuses the label. Labels carry
every choice of the scheduler and of the environment, so a run is fixed by its first state and its
labels. The rules below turn one-step facts into facts about whole runs: invariants, conditions
met at every step, and balances between a quantity gained and a quantity lost.
-/

namespace Lanscope.Framework

section Runs

variable {σ α : Type*} (step : σ → α → Option σ)

/-- The state after a list of labels, `none` as soon as the step function refuses one. -/
def exec : σ → List α → Option σ
  | s, [] => some s
  | s, a :: as => (step s a).bind fun t => exec t as

def StepsSatisfy (P : σ → α → Prop) : σ → List α → Prop
  | _, [] => True
  | s, a :: as => P s a ∧ ∀ t, step s a = some t → StepsSatisfy P t as

/-- The predicate `P` holds of every state the run passes through, first and last included. -/
def StatesSatisfy (P : σ → Prop) : σ → List α → Prop
  | s, [] => P s
  | s, a :: as => P s ∧ ∀ t, step s a = some t → StatesSatisfy P t as

def runSum (g : σ → α → Nat) : σ → List α → Nat
  | _, [] => 0
  | s, a :: as => g s a + (step s a).elim 0 fun t => runSum g t as

variable {step}

instance StepsSatisfy.decidable {P : σ → α → Prop} [∀ s a, Decidable (P s a)] :
    (s : σ) → (as : List α) → Decidable (StepsSatisfy step P s as)
  | _, [] => isTrue trivial
  | s, a :: as =>
    match h : step s a with
    | none => decidable_of_iff (P s a) ⟨fun hp => ⟨hp, by simp [h]⟩, And.left⟩
    | some t =>
      have := StepsSatisfy.decidable (P := P) t as
      decidable_of_iff (P s a ∧ StepsSatisfy step P t as) (by simp [StepsSatisfy, h])

instance StatesSatisfy.decidable {P : σ → Prop} [DecidablePred P] :
    (s : σ) → (as : List α) → Decidable (StatesSatisfy step P s as)
  | s, [] => inferInstanceAs (Decidable (P s))
  | s, a :: as =>
    match h : step s a with
    | none => decidable_of_iff (P s) ⟨fun hp => ⟨hp, by simp [h]⟩, And.left⟩
    | some t =>
      have := StatesSatisfy.decidable (P := P) t as
      decidable_of_iff (P s ∧ StatesSatisfy step P t as) (by simp [StatesSatisfy, h])

@[simp] theorem exec_nil (s : σ) : exec step s [] = some s := rfl

theorem exec_cons_iff {s t : σ} {a : α} {as : List α} :
    exec step s (a :: as) = some t ↔ ∃ m, step s a = some m ∧ exec step m as = some t :=
  Option.bind_eq_some_iff

theorem exec_append (s : σ) (as bs : List α) :
    exec step s (as ++ bs) = (exec step s as).bind fun t => exec step t bs := by
  induction as generalizing s with
  | nil => rfl
  | cons a as ih => simp only [List.cons_append, exec, ih, Option.bind_assoc]

theorem exec_append_iff {s t : σ} {as bs : List α} :
    exec step s (as ++ bs) = some t ↔
      ∃ m, exec step s as = some m ∧ exec step m bs = some t := by
  rw [exec_append, Option.bind_eq_some_iff]

/-- What one step preserves, a run preserves. -/
theorem exec_invariant {I : σ → Prop} (hstep : ∀ s a t, I s → step s a = some t → I t)
    {s t : σ} {as : List α} (hs : I s) (h : exec step s as = some t) : I t := by
  induction as generalizing s with
  | nil =>
      obtain rfl := Option.some.inj h
      exact hs
  | cons a as ih =>
      obtain ⟨m, ha, hm⟩ := exec_cons_iff.mp h
      exact ih (hstep s a m hs ha) hm

/-- The same for what only the labels of the run have to preserve. -/
theorem exec_invariant_of_mem {I : σ → Prop} {s t : σ} {as : List α}
    (hstep : ∀ s, ∀ a ∈ as, ∀ t, I s → step s a = some t → I t) (hs : I s)
    (h : exec step s as = some t) : I t := by
  induction as generalizing s with
  | nil =>
      obtain rfl := Option.some.inj h
      exact hs
  | cons a as ih =>
      obtain ⟨m, ha, hm⟩ := exec_cons_iff.mp h
      exact ih (fun s b hb => hstep s b (List.mem_cons_of_mem _ hb))
        (hstep s a List.mem_cons_self m hs ha) hm

/-- An invariant of a state together with the labels that led to it. -/
theorem exec_history {I : List α → σ → Prop}
    (hstep : ∀ as s a t, I as s → step s a = some t → I (as ++ [a]) t)
    {s t : σ} {as : List α} (hs : I [] s) (h : exec step s as = some t) : I as t := by
  induction as using List.reverseRecOn generalizing t with
  | nil =>
      obtain rfl := Option.some.inj h
      exact hs
  | append_singleton as a ih =>
      obtain ⟨m, hm, ha⟩ := exec_append_iff.mp h
      obtain ⟨n, hn, hnil⟩ := exec_cons_iff.mp ha
      obtain rfl := Option.some.inj hnil
      exact hstep as m a n (ih hm) hn

theorem StatesSatisfy.head {P : σ → Prop} {s : σ} {as : List α}
    (h : StatesSatisfy step P s as) : P s := by
  cases as with
  | nil => exact h
  | cons a as => exact h.1

/-- What the steps that meet `P` preserve holds at the end of a run of such steps. -/
theorem exec_invariant_of_stepsSatisfy {I : σ → Prop} {P : σ → α → Prop}
    (hstep : ∀ s a t, I s → P s a → step s a = some t → I t) {s t : σ} {as : List α} (hs : I s)
    (hsteps : StepsSatisfy step P s as) (h : exec step s as = some t) : I t := by
  induction as generalizing s with
  | nil =>
      obtain rfl := Option.some.inj h
      exact hs
  | cons a as ih =>
      obtain ⟨m, ha, hm⟩ := exec_cons_iff.mp h
      exact ih (hstep s a m hs hsteps.1 ha) (hsteps.2 m ha) hm

/-- What the steps that meet `P` preserve holds of every state of a run of such steps. -/
theorem statesSatisfy_of_stepsSatisfy {I : σ → Prop} {P : σ → α → Prop}
    (hstep : ∀ s a t, I s → P s a → step s a = some t → I t) {s : σ} {as : List α} (hs : I s)
    (h : StepsSatisfy step P s as) : StatesSatisfy step I s as := by
  induction as generalizing s with
  | nil => exact hs
  | cons a as ih => exact ⟨hs, fun t ht => ih (hstep s a t hs h.1 ht) (h.2 t ht)⟩

/-- Where each step out of a good state lands in a good state exactly when it meets `P`,
all states of a run are good exactly when all its steps meet `P`. -/
theorem statesSatisfy_iff_stepsSatisfy {I : σ → Prop} {P : σ → α → Prop}
    (hstep : ∀ s a t, I s → step s a = some t → (I t ↔ P s a))
    {s t : σ} {as : List α} (hs : I s) (h : exec step s as = some t) :
    StatesSatisfy step I s as ↔ StepsSatisfy step P s as := by
  induction as generalizing s with
  | nil => exact ⟨fun _ => trivial, fun _ => hs⟩
  | cons a as ih =>
      obtain ⟨m, ha, hm⟩ := exec_cons_iff.mp h
      have hiff := hstep s a m hs ha
      constructor
      · rintro ⟨_, hrest⟩
        have hm' : I m := (hrest m ha).head
        refine ⟨hiff.mp hm', fun n hn => ?_⟩
        obtain rfl := Option.some.inj (ha.symm.trans hn)
        exact (ih hm' hm).mp (hrest m ha)
      · rintro ⟨hp, hrest⟩
        have hm' : I m := hiff.mpr hp
        refine ⟨hs, fun n hn => ?_⟩
        obtain rfl := Option.some.inj (ha.symm.trans hn)
        exact (ih hm' hm).mpr (hrest m ha)

theorem statesSatisfy_of_invariant {I : σ → Prop}
    (hstep : ∀ s a t, I s → step s a = some t → I t) {s : σ} (as : List α) (hs : I s) :
    StatesSatisfy step I s as := by
  induction as generalizing s with
  | nil => exact hs
  | cons a as ih => exact ⟨hs, fun t ht => ih (hstep s a t hs ht)⟩

theorem runSum_cons {s m : σ} {a : α} (h : step s a = some m) (g : σ → α → Nat) (as : List α) :
    runSum step g s (a :: as) = g s a + runSum step g m as := by
  rw [runSum, h, Option.elim_some]

/-- A potential that rises at each step by what is gained less what is lost does so over a run. -/
theorem exec_balance {φ : σ → Nat} {gain lost : σ → α → Nat} {Q : σ → Prop}
    (hstep : ∀ s a t, Q s → step s a = some t → φ t + lost s a = φ s + gain s a)
    {s t : σ} {as : List α} (hQ : StatesSatisfy step Q s as) (h : exec step s as = some t) :
    φ t + runSum step lost s as = φ s + runSum step gain s as := by
  induction as generalizing s with
  | nil =>
      obtain rfl := Option.some.inj h
      rfl
  | cons a as ih =>
      obtain ⟨m, ha, hm⟩ := exec_cons_iff.mp h
      have hone := hstep s a m hQ.1 ha
      have hrest := ih (hQ.2 m ha) hm
      rw [runSum_cons ha, runSum_cons ha]
      omega

/-- The balance of a run whose steps need an invariant. -/
theorem exec_ledger_of_invariant {I : σ → Prop} {φ : σ → Nat} {gain lost : σ → α → Nat}
    (hI : ∀ s a t, I s → step s a = some t → I t)
    (hstep : ∀ s a t, I s → step s a = some t → φ t + lost s a = φ s + gain s a)
    {s t : σ} {as : List α} (hs : I s) (h : exec step s as = some t) :
    φ t + runSum step lost s as = φ s + runSum step gain s as :=
  exec_balance hstep (statesSatisfy_of_invariant hI as hs) h

/-- The balance of a run whose steps need nothing. -/
theorem exec_ledger {φ : σ → Nat} {gain lost : σ → α → Nat}
    (hstep : ∀ s a t, step s a = some t → φ t + lost s a = φ s + gain s a)
    {s t : σ} {as : List α} (h : exec step s as = some t) :
    φ t + runSum step lost s as = φ s + runSum step gain s as :=
  exec_ledger_of_invariant (I := fun _ => True) (fun _ _ _ _ _ => trivial)
    (fun s a t _ => hstep s a t) trivial h

/-- Where nothing is lost below a bound, a run that stays below it loses nothing. -/
theorem exec_lossless {φ : σ → Nat} {gain lost : σ → α → Nat} {bound : Nat}
    (hstep : ∀ s a t, step s a = some t → φ t ≤ φ s + gain s a)
    (hsafe : ∀ s a t, step s a = some t → φ s + gain s a < bound → lost s a = 0)
    {s t : σ} {as : List α} (h : exec step s as = some t)
    (hbound : φ s + runSum step gain s as < bound) : runSum step lost s as = 0 := by
  induction as generalizing s with
  | nil => rfl
  | cons a as ih =>
      obtain ⟨m, ha, hm⟩ := exec_cons_iff.mp h
      rw [runSum_cons ha] at hbound
      have hone := hsafe s a m ha (by omega)
      have hmove := hstep s a m ha
      rw [runSum_cons ha, hone, Nat.zero_add]
      exact ih hm (by omega)

theorem runSum_add (f g : σ → α → Nat) (s : σ) (as : List α) :
    runSum step (fun s a => f s a + g s a) s as = runSum step f s as + runSum step g s as := by
  induction as generalizing s with
  | nil => rfl
  | cons a as ih =>
      cases h : step s a with
      | none => simp [runSum, h]
      | some t =>
          rw [runSum_cons h, runSum_cons h, runSum_cons h, ih]
          omega

theorem runSum_mul (n : Nat) (f : σ → α → Nat) (s : σ) (as : List α) :
    runSum step (fun s a => n * f s a) s as = n * runSum step f s as := by
  induction as generalizing s with
  | nil => rfl
  | cons a as ih =>
      cases h : step s a with
      | none => simp [runSum, h]
      | some t => rw [runSum_cons h, runSum_cons h, ih, Nat.mul_add]

theorem runSum_of_labels (g : α → Nat) {s t : σ} {as : List α} (h : exec step s as = some t) :
    runSum step (fun _ a => g a) s as = (as.map g).sum := by
  induction as generalizing s with
  | nil => rfl
  | cons a as ih =>
      obtain ⟨m, ha, hm⟩ := exec_cons_iff.mp h
      rw [runSum_cons ha, ih hm, List.map_cons, List.sum_cons]

theorem runSum_eq_zero_iff {g : σ → α → Nat} {s t : σ} {as : List α}
    (h : exec step s as = some t) :
    runSum step g s as = 0 ↔ StepsSatisfy step (fun s a => g s a = 0) s as := by
  induction as generalizing s with
  | nil => simp [runSum, StepsSatisfy]
  | cons a as ih =>
      obtain ⟨m, ha, hm⟩ := exec_cons_iff.mp h
      simp [runSum_cons ha, StepsSatisfy, ha, ih hm]

theorem StepsSatisfy.congr {P Q : σ → α → Prop} (hPQ : ∀ s a, P s a ↔ Q s a)
    {s : σ} {as : List α} : StepsSatisfy step P s as ↔ StepsSatisfy step Q s as := by
  induction as generalizing s with
  | nil => rfl
  | cons a as ih => simp only [StepsSatisfy, hPQ, ih]

theorem stepsSatisfy_forall {ι : Type*} {P : ι → σ → α → Prop} {s : σ} {as : List α} :
    StepsSatisfy step (fun s a => ∀ i, P i s a) s as ↔ ∀ i, StepsSatisfy step (P i) s as := by
  induction as generalizing s with
  | nil => simp [StepsSatisfy]
  | cons a as ih =>
      simp only [StepsSatisfy, ih]
      constructor
      · rintro ⟨hp, h⟩ i
        exact ⟨hp i, fun t ht => h t ht i⟩
      · intro h
        exact ⟨fun i => (h i).1, fun t ht i => (h i).2 t ht⟩

/-- Where each good state that is no goal has a step of the right kind to a good state of lower rank,
such steps lead to a goal, and their number is bounded by the rank. -/
theorem exec_to_goal {I G : σ → Prop} {Q : α → Prop} (rank : σ → Nat)
    (hstep : ∀ s, I s → ¬ G s → ∃ a t, Q a ∧ step s a = some t ∧ I t ∧ rank t < rank s)
    {s : σ} (hs : I s) : ∃ as t, (∀ a ∈ as, Q a) ∧ as.length ≤ rank s ∧
      exec step s as = some t ∧ I t ∧ G t := by
  induction hrank : rank s using Nat.strong_induction_on generalizing s with
  | _ n ih =>
      by_cases hgoal : G s
      · exact ⟨[], s, by simp, Nat.zero_le _, rfl, hs, hgoal⟩
      · obtain ⟨a, m, hQ, ha, hm, hlt⟩ := hstep s hs hgoal
        obtain ⟨as, t, hall, hlen, hrun, ht, hend⟩ := ih (rank m) (hrank ▸ hlt) hm rfl
        refine ⟨a :: as, t, ?_, ?_, exec_cons_iff.mpr ⟨m, ha, hrun⟩, ht, hend⟩
        · simpa [hQ] using hall
        · rw [List.length_cons]
          omega

/-- Where some steps lower the rank and no other one raises it, a run has no more of the former than
the rank. -/
theorem countP_le_rank {I : σ → Prop} {p : α → Bool} {Q : α → Prop} (rank : σ → Nat)
    (hstep : ∀ s a t, I s → Q a → step s a = some t →
      I t ∧ rank t + (if p a then 1 else 0) ≤ rank s)
    {s t : σ} {as : List α} (hs : I s) (hall : ∀ a ∈ as, Q a) (h : exec step s as = some t) :
    as.countP p + rank t ≤ rank s := by
  induction as generalizing s with
  | nil =>
      obtain rfl := Option.some.inj h
      simp
  | cons a as ih =>
      obtain ⟨m, ha, hm⟩ := exec_cons_iff.mp h
      obtain ⟨hI, hle⟩ := hstep s a m hs (hall a List.mem_cons_self) ha
      have hrest := ih hI (fun b hb => hall b (List.mem_cons_of_mem _ hb)) hm
      rw [List.countP_cons]
      omega

end Runs

/-! ## Simulation -/

section Simulation

variable {σ τ α β : Type*} (step : σ → α → Option σ)

/-- What the steps of a run stand for, in the labels of another step function. -/
def trace (labels : σ → α → List β) : σ → List α → List β
  | _, [] => []
  | s, a :: as => labels s a ++ (step s a).elim [] fun t => trace labels t as

variable {step} {step' : τ → β → Option τ} {labels : σ → α → List β}

/-- Where each step is matched, from related states, by a run of the other step function that ends
in related states, so is each run. -/
theorem exec_simulation {R : σ → τ → Prop}
    (hstep : ∀ s t a s', R s t → step s a = some s' →
      ∃ t', exec step' t (labels s a) = some t' ∧ R s' t')
    {s s' : σ} {t : τ} {as : List α} (hR : R s t) (h : exec step s as = some s') :
    ∃ t', exec step' t (trace step labels s as) = some t' ∧ R s' t' := by
  induction as generalizing s t with
  | nil =>
      obtain rfl := Option.some.inj h
      exact ⟨t, rfl, hR⟩
  | cons a as ih =>
      obtain ⟨m, ha, hm⟩ := exec_cons_iff.mp h
      obtain ⟨n, hn, hmn⟩ := hstep s t a m hR ha
      obtain ⟨t', ht', hend⟩ := ih hmn hm
      refine ⟨t', ?_, hend⟩
      rw [trace, ha, Option.elim_some]
      exact exec_append_iff.mpr ⟨n, hn, ht'⟩

/-- Where labels do not depend on the state, the trace is the concatenation of the labels. -/
theorem trace_of_labels (f : α → List β) {s t : σ} {as : List α} (h : exec step s as = some t) :
    trace step (fun _ => f) s as = as.flatMap f := by
  induction as generalizing s with
  | nil => rfl
  | cons a as ih =>
      obtain ⟨m, ha, hm⟩ := exec_cons_iff.mp h
      rw [trace, ha, Option.elim_some, ih hm, List.flatMap_cons]

theorem of_mem_trace {b : β} {s : σ} {as : List α} (h : b ∈ trace step labels s as) :
    ∃ s, ∃ a ∈ as, b ∈ labels s a := by
  induction as generalizing s with
  | nil => exact absurd h List.not_mem_nil
  | cons a as ih =>
      rw [trace, List.mem_append] at h
      cases h with
      | inl hone => exact ⟨s, a, List.mem_cons_self, hone⟩
      | inr hrest =>
          cases hm : step s a with
          | none => simp [hm] at hrest
          | some m =>
              obtain ⟨s', a', ha', hb⟩ := ih (by simpa [hm] using hrest)
              exact ⟨s', a', List.mem_cons_of_mem _ ha', hb⟩

theorem trace_concat {s t : σ} {as : List α} (h : exec step s as = some t) (a : α) :
    trace step labels s (as ++ [a]) = trace step labels s as ++ labels t a := by
  induction as generalizing s with
  | nil =>
      obtain rfl := Option.some.inj h
      cases hs : step s a <;> simp [trace, hs]
  | cons b as ih =>
      obtain ⟨m, hb, hm⟩ := exec_cons_iff.mp h
      rw [List.cons_append, trace, trace, hb, Option.elim_some, Option.elim_some, ih hm,
        List.append_assoc]

end Simulation

end Lanscope.Framework
