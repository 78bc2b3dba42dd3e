import Lanscope.Framework.Sort
import Lanscope.Storage.Sqlite

/-!
# Recent alerts

The alerts table is read newest first, by time and then by row number. Where the clock never goes
back, this is the order of insertion, reversed.
-/

namespace Lanscope

open Framework

def Severity.fromStr (s : Str) : Except Str Severity :=
  if s = "info".toList then .ok .info
  else if s = "warning".toList then .ok .warning
  else if s = "critical".toList then .ok .critical
  else .error ("unknown severity `".toList ++ s ++ "`".toList)

theorem Severity.fromStr_asStr (severity : Severity) :
    Severity.fromStr severity.asStr = .ok severity := by
  cases severity <;> rfl

def rowOfAlert (a : Alert) : AlertRow := ⟨a.ts, a.mac, a.severity.asStr, a.kind, a.message⟩

/-- The alert that a row stands for. An unknown severity counts as `info`. -/
def alertOfRow (row : AlertRow) : Alert where
  ts := row.ts
  mac := row.mac
  severity := (Severity.fromStr row.severity).toOption.getD .info
  kind := row.kind
  message := row.message

@[simp] theorem alertOfRow_rowOfAlert (a : Alert) : alertOfRow (rowOfAlert a) = a := by
  simp [alertOfRow, rowOfAlert, Severity.fromStr_asStr, Except.toOption]

/-- Whether a numbered row may come before another one in `ORDER BY ts DESC, id DESC`. -/
def Newer (a b : AlertRow × Nat) : Prop := b.1.ts < a.1.ts ∨ a.1.ts = b.1.ts ∧ b.2 ≤ a.2

instance (a b : AlertRow × Nat) : Decidable (Newer a b) := inferInstanceAs (Decidable (_ ∨ _))

instance : Std.Total Newer where
  total a b := by
    unfold Newer
    omega

instance : IsTrans (AlertRow × Nat) Newer where
  trans a b c hab hbc := by
    unfold Newer at *
    omega

/-- `LIMIT` with a signed number, where a negative one sets no limit. -/
def sqlLimit {α : Type} (limit : Int64) (rows : List α) : List α :=
  if limit.toInt < 0 then rows else rows.take limit.toInt.toNat

namespace SqliteStore

/-- All alerts of the store, newest first. -/
def alertsByTime (store : SqliteStore) : List Alert :=
  (store.alerts.zipIdx.insertionSort Newer).map fun row => alertOfRow row.1

/-- Most recent alerts, newest first, capped at a limit. -/
def recentAlerts (store : SqliteStore) (limit : UInt64) : List Alert :=
  sqlLimit limit.toInt64 store.alertsByTime

private theorem newer_antisymm {rows : List AlertRow} {a b : AlertRow × Nat}
    (ha : a ∈ rows.zipIdx) (hb : b ∈ rows.zipIdx) (hab : Newer a b) (hba : Newer b a) : a = b := by
  have hid : a.2 = b.2 := by
    unfold Newer at *
    omega
  rw [List.mem_zipIdx_iff_getElem?] at ha hb
  rw [hid] at ha
  exact Prod.ext (Option.some.inj (ha.symm.trans hb)) hid

private theorem pairwise_zipIdx {rows : List AlertRow} (h : rows.Pairwise fun a b => a.ts ≤ b.ts)
    (k : Nat) : (rows.zipIdx k).Pairwise fun a b => Newer b a := by
  induction rows generalizing k with
  | nil => exact List.Pairwise.nil
  | cons row rows ih =>
      rw [List.pairwise_cons] at h
      refine List.Pairwise.cons (fun later hlater => ?_) (ih h.2 (k + 1))
      have hts := h.1 later.1 (List.fst_mem_of_mem_zipIdx hlater)
      have hid := List.le_snd_of_mem_zipIdx hlater
      unfold Newer
      dsimp only
      omega

/-- Alerts that are inserted in the order of their times, none of them older than the table, come out
first and in reverse. -/
theorem alertsByTime_append {store later : SqliteStore} {new : List Alert}
    (hlater : later.alerts = store.alerts ++ new.map rowOfAlert)
    (hnew : new.Pairwise fun a b => a.ts ≤ b.ts)
    (hold : ∀ row ∈ store.alerts, ∀ a ∈ new, row.ts ≤ a.ts) :
    later.alertsByTime = new.reverse ++ store.alertsByTime := by
  have hsplit : later.alerts.zipIdx =
      store.alerts.zipIdx ++ (new.map rowOfAlert).zipIdx store.alerts.length := by
    rw [hlater, List.zipIdx_append, Nat.zero_add]
  have hperm : later.alerts.zipIdx.Perm
      (((new.map rowOfAlert).zipIdx store.alerts.length).reverse ++ store.alerts.zipIdx) := by
    rw [hsplit]
    exact List.perm_append_comm.trans ((List.reverse_perm _).symm.append_right _)
  have hfront : ((new.map rowOfAlert).zipIdx store.alerts.length).reverse.Pairwise Newer :=
    List.pairwise_reverse.mpr (pairwise_zipIdx (List.pairwise_map.mpr hnew) _)
  have hrest : ∀ a ∈ ((new.map rowOfAlert).zipIdx store.alerts.length).reverse,
      ∀ b ∈ store.alerts.zipIdx, Newer a b := by
    intro a ha b hb
    rw [List.mem_reverse] at ha
    obtain ⟨alert, halert, hrow⟩ := List.mem_map.mp (List.fst_mem_of_mem_zipIdx ha)
    have hts := hold b.1 (List.fst_mem_of_mem_zipIdx hb) alert halert
    have hid := List.le_snd_of_mem_zipIdx ha
    have hid' := List.snd_lt_of_mem_zipIdx hb
    unfold Newer
    rw [← hrow]
    dsimp only [rowOfAlert]
    omega
  have hblock : ((new.map rowOfAlert).zipIdx store.alerts.length).reverse.map
      (fun row => alertOfRow row.1) = new.reverse := by
    rw [List.map_reverse, ← Function.comp_def alertOfRow, ← List.map_map, List.zipIdx_map_fst,
      List.map_map]
    simp [Function.comp_def]
  rw [alertsByTime, insertionSort_eq_append hperm (fun a ha b hb => newer_antisymm ha hb) hfront hrest,
    List.map_append, hblock, alertsByTime]

end SqliteStore

end Lanscope
