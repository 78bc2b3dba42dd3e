import Mathlib.Data.Finmap
import Mathlib.Tactic

/-!
# Unordered finite maps

A hash map is a finite map without an order. Code that iterates over one sees its entries in some
order, so every iteration takes a list of the keys as a parameter, constrained only to list each
key once.
-/

namespace Lanscope.Framework

/-- A finite map. Two maps with the same entries are equal. -/
abbrev HashMap (K V : Type) := Finmap fun _ : K => V

namespace HashMap

variable {K V : Type} [DecidableEq K]

theorem lookup_insert_eq (m : HashMap K V) (k a : K) (v : V) :
    (m.insert k v).lookup a = if a = k then some v else m.lookup a := by
  by_cases h : a = k
  · subst a
    simp
  · simp [h, Finmap.lookup_insert_of_ne m h]

theorem keys_insert (m : HashMap K V) (k : K) (v : V) : (m.insert k v).keys = insert k m.keys := by
  ext a
  simp only [Finmap.mem_keys, Finset.mem_insert, Finmap.mem_insert]

theorem lookup_erase_eq (m : HashMap K V) (k a : K) :
    (m.erase k).lookup a = if a = k then none else m.lookup a := by
  by_cases h : a = k
  · subst a
    simp
  · simp [h, Finmap.lookup_erase_ne h]

/-- Update the value of a key in place; an absent key stays absent. -/
def modify (m : HashMap K V) (k : K) (f : V → V) : HashMap K V :=
  match m.lookup k with
  | none => m
  | some v => m.insert k (f v)

theorem lookup_modify (m : HashMap K V) (k a : K) (f : V → V) :
    (m.modify k f).lookup a = if a = k then (m.lookup k).map f else m.lookup a := by
  unfold modify
  cases hk : m.lookup k with
  | none =>
      by_cases h : a = k
      · subst a
        simp [hk]
      · simp [h]
  | some v => simp [lookup_insert_eq]

/-- A list of keys in which an iteration may meet the entries: each key of the map, once. -/
def IterOrder (m : HashMap K V) (order : List K) : Prop :=
  order.Nodup ∧ order.toFinset = m.keys

instance (m : HashMap K V) (order : List K) : Decidable (m.IterOrder order) :=
  inferInstanceAs (Decidable (_ ∧ _))

theorem IterOrder.mem_iff {m : HashMap K V} {order : List K} (h : m.IterOrder order) (k : K) :
    k ∈ order ↔ k ∈ m := by
  rw [← List.mem_toFinset, h.2, Finmap.mem_keys]

theorem IterOrder.perm {m : HashMap K V} {order order' : List K} (h : m.IterOrder order)
    (h' : m.IterOrder order') : order.Perm order' :=
  (List.perm_ext_iff_of_nodup h.1 h'.1).mpr fun k => (h.mem_iff k).trans (h'.mem_iff k).symm

theorem exists_iterOrder (m : HashMap K V) : ∃ order, m.IterOrder order :=
  ⟨m.keys.toList, m.keys.nodup_toList, m.keys.toList_toFinset⟩

def values (m : HashMap K V) (order : List K) : List V :=
  order.filterMap fun k => m.lookup k

theorem mem_values {m : HashMap K V} {order : List K} (h : m.IterOrder order) (v : V) :
    v ∈ m.values order ↔ ∃ k, m.lookup k = some v := by
  simp only [values, List.mem_filterMap]
  constructor
  · rintro ⟨k, _, hk⟩
    exact ⟨k, hk⟩
  · rintro ⟨k, hk⟩
    exact ⟨k, (h.mem_iff k).mpr (Finmap.mem_of_lookup_eq_some hk), hk⟩

theorem values_perm {m : HashMap K V} {order order' : List K} (h : m.IterOrder order)
    (h' : m.IterOrder order') : (m.values order).Perm (m.values order') :=
  (h.perm h').filterMap _

/-! ## Adding up entries -/

/-- The sum of a weight over all entries. -/
def total (weight : K → V → Nat) (m : HashMap K V) : Nat :=
  ∑ k ∈ m.keys, (m.lookup k).elim 0 (weight k)

variable (weight : K → V → Nat)

/-- An entry apart from the others. -/
theorem total_erase (m : HashMap K V) (k : K) :
    total weight (m.erase k) + (m.lookup k).elim 0 (weight k) = total weight m := by
  unfold total
  have hrest : ∑ a ∈ (m.erase k).keys, ((m.erase k).lookup a).elim 0 (weight a) =
      ∑ a ∈ m.keys.erase k, (m.lookup a).elim 0 (weight a) := by
    rw [Finmap.keys_erase]
    refine Finset.sum_congr rfl fun a ha => ?_
    rw [lookup_erase_eq, if_neg (Finset.ne_of_mem_erase ha)]
  rw [hrest]
  by_cases hk : k ∈ m.keys
  · exact Finset.sum_erase_add _ _ hk
  · have hnone : m.lookup k = none := Finmap.lookup_eq_none.mpr fun h => hk (Finmap.mem_keys.mpr h)
    rw [Finset.erase_eq_of_notMem hk, hnone, Option.elim_none, Nat.add_zero]

theorem total_insert (m : HashMap K V) (k : K) (v : V) :
    total weight (m.insert k v) + (m.lookup k).elim 0 (weight k) = total weight m + weight k v := by
  have hsame : (m.insert k v).erase k = m.erase k := by
    apply Finmap.ext_lookup
    intro a
    rw [lookup_erase_eq, lookup_erase_eq, lookup_insert_eq]
    split_ifs <;> rfl
  have hnew := total_erase weight (m.insert k v) k
  have hold := total_erase weight m k
  rw [hsame, lookup_insert_eq, if_pos rfl, Option.elim_some] at hnew
  omega

theorem total_congr {weight' : K → V → Nat} {m : HashMap K V}
    (h : ∀ k v, m.lookup k = some v → weight k v = weight' k v) :
    total weight m = total weight' m := by
  refine Finset.sum_congr rfl fun k _ => ?_
  cases hk : m.lookup k with
  | none => rfl
  | some v => exact h k v hk

theorem total_eq_zero {weight : K → V → Nat} {m : HashMap K V}
    (h : ∀ k v, m.lookup k = some v → weight k v = 0) : total weight m = 0 := by
  refine Finset.sum_eq_zero fun k _ => ?_
  cases hk : m.lookup k with
  | none => rfl
  | some v => exact h k v hk

theorem le_total {m : HashMap K V} {k : K} {v : V} (h : m.lookup k = some v) :
    weight k v ≤ total weight m := by
  have hapart := total_erase weight m k
  rw [h, Option.elim_some] at hapart
  omega

theorem total_add (weight' : K → V → Nat) (m : HashMap K V) :
    total (fun k v => weight k v + weight' k v) m = total weight m + total weight' m := by
  unfold total
  rw [← Finset.sum_add_distrib]
  refine Finset.sum_congr rfl fun k _ => ?_
  cases m.lookup k <;> rfl

/-- The total of a map that holds an image of each entry of another one. -/
theorem total_map {W : Type} {weight : K → W → Nat} {m : HashMap K V} {m' : HashMap K W}
    {f : K → V → W} (h : ∀ k, m'.lookup k = (m.lookup k).map (f k)) :
    total weight m' = total (fun k v => weight k (f k v)) m := by
  have hkeys : m'.keys = m.keys := by
    ext k
    rw [Finmap.mem_keys, Finmap.mem_keys, ← Finmap.lookup_isSome, ← Finmap.lookup_isSome, h,
      Option.isSome_map]
  unfold total
  rw [hkeys]
  refine Finset.sum_congr rfl fun k _ => ?_
  rw [h]
  cases m.lookup k <;> rfl

/-- The total entry by entry, in whatever order. -/
theorem total_eq_sum {m : HashMap K V} {order : List K} (h : m.IterOrder order) :
    total weight m = (order.map fun k => (m.lookup k).elim 0 (weight k)).sum := by
  rw [total, ← h.2, List.sum_toFinset _ h.1]

end HashMap

end Lanscope.Framework
