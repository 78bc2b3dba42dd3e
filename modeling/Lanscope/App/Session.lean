import Lanscope.App.Records
import Lanscope.Framework.Run

/-!
# Sessions over one store

Runs of the program follow each other over one store. A run seeds its registry from the store and
then takes calls, each of which asks for writes. Every write succeeds or fails on its own, and the
process may die between any two of them, so that a call is fixed by the outcomes of the writes it
got to: fewer outcomes than writes make a call that never returned.
-/

namespace Lanscope

open Framework

structure Site where
  store : SqliteStore
  agent : Option Agent

def Site.initial : Site := ⟨SqliteStore.empty, none⟩

inductive SiteStep
  /-- Start a run. The table yields its rows in the given order. -/
  | start (rows : List Str)
  | event (ev : CaptureEvent) (now : Int) (order : List MacAddr) (outcomes : List Bool)
  | flush (order : List MacAddr) (outcomes : List Bool)
  | stop

def call (agent : Agent) : SiteStep → Option (Agent × List StoreWrite × List Bool)
  | .event ev now order outcomes =>
    if agent.registry.devices.IterOrder order then
      let handled := handleEvent now order agent ev
      some (handled.agent, handled.writes, outcomes)
    else none
  | .flush order outcomes =>
    if agent.registry.devices.IterOrder order then
      some (agent, flushAll order agent.registry, outcomes)
    else none
  | .start _ | .stop => none

section Steps

variable (serde : Serde)

def started (store : SqliteStore) (rows : List Str) : Agent where
  registry := seedRegistry DeviceRegistry.empty (store.loadDevices serde rows)
  anomaly := Engine.defaultStack

/-- Perform the writes of a call that have an outcome. The process survives only a call that got
through all of them. -/
def finish (store : SqliteStore) (agent : Agent) (writes : List StoreWrite) (outcomes : List Bool) :
    Option Site :=
  if outcomes.length ≤ writes.length then
    some ⟨store.writeAll serde (writes.zip outcomes),
      if outcomes.length = writes.length then some agent else none⟩
  else none

def siteStep (s : Site) (step : SiteStep) : Option Site :=
  match s.agent, step with
  | none, .start rows =>
    if s.store.devices.IterOrder rows then some ⟨s.store, some (started serde s.store rows)⟩
    else none
  | none, _ => none
  | some _, .stop => some ⟨s.store, none⟩
  | some agent, step => do
    let (agent', writes, outcomes) ← call agent step
    finish serde s.store agent' writes outcomes

variable {serde}

theorem siteStep_cases {s t : Site} {step : SiteStep} (h : siteStep serde s step = some t) :
    (∃ rows, step = .start rows ∧ s.agent = none ∧ s.store.devices.IterOrder rows ∧
      t = ⟨s.store, some (started serde s.store rows)⟩) ∨
    (∃ agent agent' writes outcomes, s.agent = some agent ∧
      call agent step = some (agent', writes, outcomes) ∧ outcomes.length ≤ writes.length ∧
      t = ⟨s.store.writeAll serde (writes.zip outcomes),
        if outcomes.length = writes.length then some agent' else none⟩) ∨
    step = .stop ∧ t = ⟨s.store, none⟩ := by
  unfold siteStep at h
  split at h
  · next rows hagent =>
    split_ifs at h with horder
    exact Or.inl ⟨rows, rfl, hagent, horder, (Option.some.inj h).symm⟩
  · exact absurd h (by simp)
  · exact Or.inr (Or.inr ⟨rfl, (Option.some.inj h).symm⟩)
  · next agent hagent _ =>
    simp only [Option.bind_eq_bind, Option.bind_eq_some_iff] at h
    obtain ⟨⟨agent', writes, outcomes⟩, hcall, hfinish⟩ := h
    unfold finish at hfinish
    split_ifs at hfinish with hlen heq
    · refine Or.inr (Or.inl ⟨agent, agent', writes, outcomes, hagent, hcall, hlen, ?_⟩)
      rw [if_pos heq]
      exact (Option.some.inj hfinish).symm
    · refine Or.inr (Or.inl ⟨agent, agent', writes, outcomes, hagent, hcall, hlen, ?_⟩)
      rw [if_neg heq]
      exact (Option.some.inj hfinish).symm

theorem call_cases {agent agent' : Agent} {step : SiteStep} {writes : List StoreWrite}
    {outcomes : List Bool} (h : call agent step = some (agent', writes, outcomes)) :
    (∃ ev now order, step = .event ev now order outcomes ∧
      agent.registry.devices.IterOrder order ∧ agent' = (handleEvent now order agent ev).agent ∧
      writes = (handleEvent now order agent ev).writes) ∨
    (∃ order, step = .flush order outcomes ∧ agent.registry.devices.IterOrder order ∧
      agent' = agent ∧ writes = flushAll order agent.registry) := by
  cases step with
  | event ev now order outs =>
      simp only [call] at h
      split_ifs at h with horder
      simp only [Option.some.injEq, Prod.mk.injEq] at h
      obtain ⟨rfl, rfl, rfl⟩ := h
      exact Or.inl ⟨ev, now, order, rfl, horder, rfl, rfl⟩
  | flush order outs =>
      simp only [call] at h
      split_ifs at h with horder
      simp only [Option.some.injEq, Prod.mk.injEq] at h
      obtain ⟨rfl, rfl, rfl⟩ := h
      exact Or.inr ⟨order, rfl, horder, rfl, rfl⟩
  | start rows => exact absurd h (by simp [call])
  | stop => exact absurd h (by simp [call])

/-- What each write keeps when it succeeds, a list of writes keeps whatever their outcomes. -/
theorem writeAll_invariant {I : SqliteStore → Prop} {writes : List StoreWrite}
    (hwrite : ∀ store, ∀ w ∈ writes, I store → I (store.write serde (w, true)))
    (outcomes : List Bool) {store : SqliteStore} (h : I store) :
    I (store.writeAll serde (writes.zip outcomes)) := by
  induction writes generalizing store outcomes with
  | nil => exact h
  | cons w writes ih =>
      cases outcomes with
      | nil => exact h
      | cons ok outcomes =>
          have hone : I (store.write serde (w, ok)) := by
            cases ok with
            | false => exact h
            | true => exact hwrite store w List.mem_cons_self h
          exact ih (fun store w hw => hwrite store w (List.mem_cons_of_mem _ hw)) outcomes hone

/-- The same for facts about rows, which alerts leave alone. -/
theorem writeAll_upserts {I : SqliteStore → Prop} {writes : List StoreWrite} {Q : Device → Prop}
    (hupsert : ∀ store d, I store → Q d → I (store.upsertDevice serde d))
    (halert : ∀ store a, I store → I (store.recordAlert a)) (hQ : ∀ w ∈ writes, w.Upserts Q)
    (outcomes : List Bool) {store : SqliteStore} (h : I store) :
    I (store.writeAll serde (writes.zip outcomes)) := by
  refine writeAll_invariant (fun store w hw hI => ?_) outcomes h
  have hQw := hQ w hw
  cases w with
  | upsertDevice d => exact hupsert store d hI hQw
  | recordAlert a => exact halert store a hI

end Steps

theorem upserts_flushAll {order : List MacAddr} {registry : DeviceRegistry}
    (horder : registry.devices.IterOrder order) :
    ∀ w ∈ flushAll order registry, w.Upserts fun d => ∃ mac, registry.get mac = some d := by
  intro w hw
  obtain ⟨d, hd, rfl⟩ := List.mem_map.mp hw
  exact (HashMap.mem_values horder d).mp hd

/-! ## Seeding -/

def KeysCanonical (store : SqliteStore) : Prop := ∀ key ∈ store.devices, ∃ mac, key = fmtMac mac

private theorem get_seedRegistry_filterMap {record : MacAddr → Option Device}
    (hrecord : ∀ mac d, record mac = some d → d.mac = fmtMac mac) (macs : List MacAddr)
    (reg : DeviceRegistry) (mac : MacAddr) :
    (seedRegistry reg (macs.filterMap record)).get mac =
      if mac ∈ macs then (record mac).or (reg.get mac) else reg.get mac := by
  induction macs generalizing reg with
  | nil => rfl
  | cons m macs ih =>
      cases hm : record m with
      | none =>
          rw [List.filterMap_cons_none hm, ih]
          by_cases hmac : mac = m
          · subst mac
            simp [hm]
          · simp [hmac]
      | some d =>
          have hload : seedRegistry reg (d :: macs.filterMap record) =
              seedRegistry (reg.load m d) (macs.filterMap record) := by
            simp only [seedRegistry, List.foldl_cons, hrecord m d hm, parseMac_fmtMac]
          rw [List.filterMap_cons_some hm, hload, ih, DeviceRegistry.get_load]
          by_cases hmac : mac = m
          · subst mac
            simp [hm]
          · simp [hmac]

/-- A seeded registry holds the record of each row under the address that the row's key spells. -/
theorem get_seedRegistry (serde : Serde) {store : SqliteStore} (hkeys : KeysCanonical store)
    {rows : List Str} (hrows : store.devices.IterOrder rows) (mac : MacAddr) :
    (seedRegistry DeviceRegistry.empty (store.loadDevices serde rows)).get mac =
      (store.devices.lookup (fmtMac mac)).map (SqliteStore.deviceOfRow serde (fmtMac mac)) := by
  have hcanonical : rows ∈ Set.range (List.map fmtMac) := by
    rw [Set.range_list_map]
    intro key hkey
    obtain ⟨m, rfl⟩ := hkeys key ((hrows.mem_iff key).mp hkey)
    exact ⟨m, rfl⟩
  obtain ⟨macs, rfl⟩ := hcanonical
  have hmem : mac ∈ macs ↔ fmtMac mac ∈ store.devices := by
    rw [← hrows.mem_iff, List.mem_map_of_injective fmtMac_injective]
  rw [SqliteStore.loadDevices, List.filterMap_map, get_seedRegistry_filterMap]
  · by_cases h : mac ∈ macs
    · simp [h]
    · have hnone := Finmap.lookup_eq_none.mpr fun hk => h (hmem.mpr hk)
      simp [h, hnone]
  · intro m d hd
    obtain ⟨row, _, rfl⟩ := Option.map_eq_some_iff.mp hd
    rfl

/-- A run starts out knowing the devices that have a row. -/
theorem isSome_started (serde : Serde) {store : SqliteStore} (hkeys : KeysCanonical store)
    {rows : List Str} (hrows : store.devices.IterOrder rows) (mac : MacAddr) :
    ((started serde store rows).registry.get mac).isSome ↔ fmtMac mac ∈ store.devices := by
  change ((seedRegistry _ _).get mac).isSome ↔ _
  rw [get_seedRegistry serde hkeys hrows, Option.isSome_map, Finmap.lookup_isSome]

end Lanscope
