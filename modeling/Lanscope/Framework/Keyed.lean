import Lanscope.Framework.Emit
import Lanscope.Framework.HashMap

/-!
# One entry per key

A machine that keeps an entry for each key in a map and handles each input by the entry of its key
alone. It is a family of machines that do not interact.
-/

namespace Lanscope.Framework

variable {K σ α ω : Type} [DecidableEq K]

/-- Handle an input by the entry of its key. -/
def keyed (key : α → K) (f : Option σ → α → σ × List ω) (m : HashMap K σ) (a : α) :
    HashMap K σ × List ω :=
  (m.insert (key a) (f (m.lookup (key a)) a).1, (f (m.lookup (key a)) a).2)

/-- The machine of a single key. -/
def entry (f : Option σ → α → σ × List ω) (o : Option σ) (a : α) : Option σ × List ω :=
  (some (f o a).1, (f o a).2)

variable {key : α → K} {f : Option σ → α → σ × List ω}

theorem lookup_keyed (m : HashMap K σ) (a : α) (k : K) : (keyed key f m a).1.lookup k =
    if k = key a then some (f (m.lookup (key a)) a).1 else m.lookup k :=
  HashMap.lookup_insert_eq _ _ _ _

variable (key f) in
/-- Maps with the same entry for an input's key handle the input alike. -/
theorem keyed_congr {m m' : HashMap K σ} {a : α} (h : m.lookup (key a) = m'.lookup (key a)) :
    (keyed key f m a).1.lookup (key a) = (keyed key f m' a).1.lookup (key a) ∧
      (keyed key f m a).2 = (keyed key f m' a).2 := by
  rw [lookup_keyed, lookup_keyed, if_pos rfl, if_pos rfl]
  simp only [keyed, h, and_self]

section Outputs

/-! `q` selects the outputs about the key `k`. -/

variable {k : K} {q : ω → Bool} (hq : ∀ o a, ∀ w ∈ (f o a).2, q w = decide (key a = k))
include hq

theorem filter_keyed_self (m : HashMap K σ) {a : α} (ha : key a = k) :
    (keyed key f m a).2.filter q = (keyed key f m a).2 := by
  apply List.filter_eq_self.mpr
  intro w hw
  rw [hq _ a w hw]
  exact decide_eq_true ha

theorem keyed_other (m : HashMap K σ) {a : α} (ha : key a ≠ k) :
    (keyed key f m a).1.lookup k = m.lookup k ∧ (keyed key f m a).2.filter q = [] := by
  rw [lookup_keyed, if_neg (Ne.symm ha)]
  refine ⟨rfl, List.filter_eq_nil_iff.mpr fun w hw => ?_⟩
  simp [hq _ a w hw, ha]

/-- The entry of a key and the outputs about it are those of the machine of the key, run over the
inputs of the key alone. -/
theorem foldEmit_keyed (m : HashMap K σ) (l : List α) :
    (foldEmit (keyed key f) m l).1.lookup k =
      (foldEmit (entry f) (m.lookup k) (l.filter fun a => key a = k)).1 ∧
    (foldEmit (keyed key f) m l).2.filter q =
      (foldEmit (entry f) (m.lookup k) (l.filter fun a => key a = k)).2 := by
  refine foldEmit_unwinding (R := fun (m : HashMap K σ) o => m.lookup k = o) ?_ ?_ l rfl
  · rintro m o a rfl ha
    have hk : key a = k := of_decide_eq_true ha
    rw [filter_keyed_self hq m hk]
    subst k
    rw [lookup_keyed, if_pos rfl]
    exact ⟨rfl, rfl⟩
  · rintro m o a rfl ha
    exact keyed_other hq m (of_decide_eq_false (by simpa using ha))

end Outputs

theorem keyed_invariant {P : σ → Prop}
    (hP : ∀ o a, (∀ v, o = some v → P v) → P (f o a).1) {m : HashMap K σ}
    (hm : ∀ k v, m.lookup k = some v → P v) (a : α) :
    ∀ k v, (keyed key f m a).1.lookup k = some v → P v := by
  intro k v hv
  rw [lookup_keyed] at hv
  split_ifs at hv
  · obtain rfl := Option.some.inj hv
    exact hP _ a (hm (key a))
  · exact hm k v hv

/-- Where the machine of a single key takes its inputs in any order, so does the whole. -/
theorem foldEmit_keyed_perm {P : σ → Prop} (hP : ∀ o a, (∀ v, o = some v → P v) → P (f o a).1)
    (hswap : ∀ o a b, (∀ v, o = some v → P v) → key a = key b →
      (foldEmit (entry f) o [a, b]).1 = (foldEmit (entry f) o [b, a]).1 ∧
      (foldEmit (entry f) o [a, b]).2.Perm (foldEmit (entry f) o [b, a]).2)
    {m : HashMap K σ} (hm : ∀ k v, m.lookup k = some v → P v) {l l' : List α} (hl : l.Perm l') :
    (foldEmit (keyed key f) m l).1 = (foldEmit (keyed key f) m l').1 ∧
      (foldEmit (keyed key f) m l).2.Perm (foldEmit (keyed key f) m l').2 := by
  refine foldEmit_perm (I := fun m => ∀ k v, m.lookup k = some v → P v)
    (fun m a hm => keyed_invariant hP hm a) ?_ hl hm
  intro m a b hm
  simp only [foldEmit_cons, foldEmit_nil, List.append_nil]
  by_cases hkey : key a = key b
  · obtain ⟨hstate, hout⟩ := hswap (m.lookup (key a)) a b (hm (key a)) hkey
    simp only [foldEmit_cons, foldEmit_nil, List.append_nil, entry, Option.some.injEq] at hstate hout
    simp only [keyed]
    generalize key b = k at hkey ⊢
    subst k
    simp only [Finmap.lookup_insert, Finmap.insert_insert]
    exact ⟨by rw [hstate], hout⟩
  · simp only [keyed, Finmap.lookup_insert_of_ne _ hkey,
      Finmap.lookup_insert_of_ne _ (Ne.symm hkey)]
    exact ⟨Finmap.insert_insert_of_ne m hkey, List.perm_append_comm⟩

end Lanscope.Framework
