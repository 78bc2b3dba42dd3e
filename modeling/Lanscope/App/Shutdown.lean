import Lanscope.App.Discovery
import Lanscope.App.Persistence
import Lanscope.Capture.Ledger

/-!
# Shutdown

After the signal the loop flushes and returns, and the backend gets to its next `select` in a bounded
number of steps, whatever it was doing and however many frames arrive. Neither waits for the other
for ever, although the channel is bounded.
-/

namespace Lanscope

open Framework

/-! ## The drain in progress -/

/-- The iterator owes only keys that the table still has and that it has not returned yet. -/
structure DrainOk (s : DrainState) : Prop where
  card : s.flows.keys.card ≤ flowsMaxEntries
  reading : ∀ unread out, s.phase = .reading unread out → unread ⊆ s.flows.keys ∧
    (out.map Prod.fst).Nodup ∧ ∀ key ∈ out.map Prod.fst, key ∈ s.flows.keys ∧ key ∉ unread
  removing : ∀ todo out, s.phase = .removing todo out → todo.length ≤ flowsMaxEntries

theorem DrainOk.length_out {s : DrainState} (h : DrainOk s) {unread : Finset FlowKey}
    {out : Snapshot} (hphase : s.phase = .reading unread out) : out.length ≤ flowsMaxEntries := by
  obtain ⟨_, hnodup, hkeys⟩ := h.reading unread out hphase
  have hsub : (out.map Prod.fst).toFinset ⊆ s.flows.keys :=
    fun key hkey => (hkeys key (List.mem_toFinset.mp hkey)).1
  have hcard := (Finset.card_le_card hsub).trans h.card
  rwa [List.toFinset_card_of_nodup hnodup, List.length_map] at hcard

private theorem drainOk_idle {flows : FlowTable} (hcard : flows.keys.card ≤ flowsMaxEntries)
    (sent : List Snapshot) : DrainOk ⟨flows, .idle, sent⟩ where
  card := hcard
  reading _ _ hphase := absurd hphase (by simp)
  removing _ _ hphase := absurd hphase (by simp)

private theorem drainOk_reading {flows : FlowTable} (hcard : flows.keys.card ≤ flowsMaxEntries)
    {unread : Finset FlowKey} {out : Snapshot} (hunread : unread ⊆ flows.keys)
    (hnodup : (out.map Prod.fst).Nodup)
    (hkeys : ∀ key ∈ out.map Prod.fst, key ∈ flows.keys ∧ key ∉ unread) (sent : List Snapshot) :
    DrainOk ⟨flows, .reading unread out, sent⟩ where
  card := hcard
  reading u o hphase := by
    obtain ⟨rfl, rfl⟩ := DrainPhase.reading.inj hphase
    exact ⟨hunread, hnodup, hkeys⟩
  removing _ _ hphase := absurd hphase (by simp)

private theorem drainOk_removing {flows : FlowTable} (hcard : flows.keys.card ≤ flowsMaxEntries)
    {todo : List FlowKey} (htodo : todo.length ≤ flowsMaxEntries) (out : Snapshot)
    (sent : List Snapshot) : DrainOk ⟨flows, .removing todo out, sent⟩ where
  card := hcard
  reading _ _ hphase := absurd hphase (by simp)
  removing u o hphase := by
    obtain ⟨rfl, rfl⟩ := DrainPhase.removing.inj hphase
    exact htodo

private theorem drainOk_access {s t : DrainState} {step : DrainStep} (hs : DrainOk s)
    (h : DrainAccess s step t) : DrainOk t := by
  cases h with
  | begin =>
      exact drainOk_reading hs.card (Finset.Subset.refl _) (by simp) (by simp) _
  | @read flows key stats unread out sent hkey hnew =>
      obtain ⟨hunread, hnodup, hkeys⟩ := hs.reading unread out rfl
      refine drainOk_reading hs.card ((Finset.erase_subset _ _).trans hunread) ?_ ?_ _
      · simpa using hnodup.concat hnew
      · intro k hk
        rw [List.map_append, List.mem_append] at hk
        cases hk with
        | inl hold =>
            refine ⟨(hkeys k hold).1, fun hmem => (hkeys k hold).2 ?_⟩
            exact Finset.mem_of_mem_erase hmem
        | inr hlast =>
            obtain rfl := List.mem_singleton.mp hlast
            exact ⟨Finmap.mem_keys.mpr (Finmap.mem_of_lookup_eq_some hkey), Finset.notMem_erase _ _⟩
  | endEmpty => exact drainOk_idle hs.card _
  | endRead hout => exact drainOk_removing hs.card (by simpa using hs.length_out rfl) _ _
  | @remove flows key todo out sent =>
      have htodo := hs.removing (key :: todo) out rfl
      refine drainOk_removing ?_ ((Nat.le_succ _).trans htodo) _ _
      rw [Finmap.keys_erase]
      exact (Finset.card_le_card (Finset.erase_subset _ _)).trans hs.card
  | send => exact drainOk_idle hs.card _

theorem drainOk_step (s : DrainState) (step : DrainStep) (t : DrainState) (hs : DrainOk s)
    (h : drainStep s step = some t) : DrainOk t := by
  cases step with
  | packet key pktLen tcpFlags now =>
      obtain rfl := Option.some.inj h
      have hgrow := keys_updateFlow s.flows key pktLen tcpFlags now
      refine ⟨card_updateFlow _ _ _ _ _ hs.card, fun unread out hphase => ?_, hs.removing⟩
      obtain ⟨hunread, hnodup, hkeys⟩ := hs.reading unread out hphase
      exact ⟨hunread.trans hgrow, hnodup, fun k hk => ⟨hgrow (hkeys k hk).1, (hkeys k hk).2⟩⟩
  | _ => exact drainOk_access hs (DrainAccess.of_drainStep (by simp) h)

/-! ## A turn of the backend -/

/-- The step begins a turn of the backend, in which it takes one branch of its `select`. -/
def PipelineStep.Selects : PipelineStep → Prop
  | .readable | .flowTick | .stopBackend => True
  | _ => False

/-- The step is one of the backend in the middle of a turn. -/
def PipelineStep.inTurn : PipelineStep → Bool
  | .takeRecord | .ringEmpty | .sendRecord | .readEntry _ | .endRead | .removeEntry | .endRemove
  | .sendFlows => true
  | _ => false

/-- The task is at its `select`, or has returned. -/
def BackendTask.AtRest : BackendTask → Prop
  | .selecting | .stopped => True
  | _ => False

/-- How many more steps the turn can take, once nothing can be sent any more. -/
def BackendTask.rank : BackendTask → Nat
  | .selecting | .stopped => 0
  | .records held => if held.isSome then 1 else 2
  | .reading _ out => flowsMaxEntries - out.length + (flowsMaxEntries + 3)
  | .removing todo _ => todo.length + 2
  | .sending _ => 1

def turnBound : Nat := 2 * flowsMaxEntries + 3

/-- A state of a run in which the loop has returned. -/
structure Returned (s : Pipeline) : Prop extends TransitOk s where
  drain : DrainOk s.drain
  returned : s.loop.finalFlush.isSome

theorem rank_le_turnBound {s : Pipeline} (hs : Returned s) : s.task.rank ≤ turnBound := by
  unfold turnBound
  cases htask : s.task with
  | records held => cases held <;> simp [BackendTask.rank, flowsMaxEntries]
  | removing todo out =>
      have htodo := hs.drain.removing todo out (by simp [Pipeline.drain, htask])
      simp only [BackendTask.rank]
      omega
  | reading unread out =>
      simp only [BackendTask.rank]
      omega
  | selecting | stopped | sending out => simp [BackendTask.rank, flowsMaxEntries]

private theorem returned_step {serde : Serde} {s t : Pipeline} {step : PipelineStep}
    (hs : Returned s) (h : pipelineStep serde s step = some t) : Returned t where
  toTransitOk := transitOk_step s step t hs.toTransitOk h
  drain := exec_invariant drainOk_step hs.drain (drain_step hs.undelivered h)
  returned := by
    have hreturned := hs.returned
    cases pipelineMove_of_pipelineStep h with
    | sendRecord _ running | sendFlows _ running => simp [running] at hreturned
    | loop own move =>
        obtain ⟨_, _, hflush⟩ := loopStep_own own move
        by_contra hnone
        simp [hflush (by simpa using hnone)] at hreturned
    | _ => exact hreturned

/-- A step in a turn brings its end nearer, and nothing else moves it away. -/
private theorem rank_step {serde : Serde} {s t : Pipeline} {step : PipelineStep} (hs : Returned s)
    (hturn : ¬ step.Selects) (h : pipelineStep serde s step = some t) :
    t.task.rank + (if step.inTurn then 1 else 0) ≤ s.task.rank := by
  have ht := returned_step hs h
  have hreturned := hs.returned
  cases pipelineMove_of_pipelineStep h with
  | kernel | loop => simp [PipelineStep.inTurn]
  | readable | flowTick | stopBackend => exact absurd trivial hturn
  | sendRecord _ running | sendFlows _ running => simp [running] at hreturned
  | takeRecord task | ringEmpty task | dropRecord task | dropFlows task | removeEntry task
  | endRemove task =>
      simp [BackendTask.rank, PipelineStep.inTurn, stopTask, task]
  | endEmpty task =>
      simp [BackendTask.rank, PipelineStep.inTurn, task]
      omega
  | endRead task =>
      have hout := hs.drain.length_out (by rw [Pipeline.drain, task]; rfl)
      simp [BackendTask.rank, PipelineStep.inTurn, task]
      omega
  | readEntry task =>
      have hout := ht.drain.length_out rfl
      simp [BackendTask.rank, PipelineStep.inTurn, task] at hout ⊢
      omega

/-- In the middle of a turn the backend can always go on. -/
private theorem turn_enabled (serde : Serde) {s : Pipeline} (hs : Returned s)
    (hrest : ¬ s.task.AtRest) :
    ∃ step, step.inTurn = true ∧ (pipelineStep serde s step).isSome := by
  have hreturned := hs.returned
  cases htask : s.task with
  | selecting | stopped => simp [htask, BackendTask.AtRest] at hrest
  | records held =>
      cases held with
      | some ev => exact ⟨.sendRecord, rfl, by simp [pipelineStep, htask, hreturned]⟩
      | none =>
          cases hring : s.kernel.events[s.consumed]? with
          | some ev => exact ⟨.takeRecord, rfl, by simp [pipelineStep, htask, hring]⟩
          | none => exact ⟨.ringEmpty, rfl, by simp [pipelineStep, htask, hring]⟩
  | reading unread out =>
      obtain ⟨hunread, _, hkeys⟩ := hs.drain.reading unread out (by simp [Pipeline.drain, htask])
      by_cases hempty : unread = ∅
      · refine ⟨.endRead, rfl, ?_⟩
        by_cases hout : out = [] <;> simp [pipelineStep, htask, hempty, hout]
      · -- the table still has every key that the iterator owes
        obtain ⟨key, hkey⟩ := Finset.nonempty_iff_ne_empty.mpr hempty
        obtain ⟨stats, hstats⟩ := Finmap.mem_iff.mp (Finmap.mem_keys.mp (hunread hkey))
        have hnew : key ∉ out.map Prod.fst := fun hmem => (hkeys key hmem).2 hkey
        simp only [Pipeline.drain] at hstats
        exact ⟨.readEntry key, rfl, by simp only [pipelineStep, htask, hstats, hnew]; rfl⟩
  | removing todo out =>
      cases todo with
      | nil => exact ⟨.endRemove, rfl, by simp [pipelineStep, htask]⟩
      | cons key todo => exact ⟨.removeEntry, rfl, by simp [pipelineStep, htask]⟩
  | sending out => exact ⟨.sendFlows, rfl, by simp [pipelineStep, htask, hreturned]⟩

/-- The steps of a turn leave a loop that has returned alone. -/
private theorem loop_of_inTurn {serde : Serde} {s t : Pipeline} {step : PipelineStep}
    (hs : Returned s) (hturn : step.inTurn = true) (h : pipelineStep serde s step = some t) :
    t.loop.agent = s.loop.agent ∧ t.loop.store = s.loop.store ∧
      t.loop.signalled = s.loop.signalled := by
  have hreturned := hs.returned
  cases pipelineMove_of_pipelineStep h with
  | kernel | loop | readable | flowTick | stopBackend =>
      exact absurd hturn (by simp [PipelineStep.inTurn])
  | sendRecord _ running | sendFlows _ running => simp [running] at hreturned
  | _ => exact ⟨rfl, rfl, rfl⟩

theorem returned_of_exec {serde : Serde} {agent : Agent} {store : SqliteStore}
    {steps : List PipelineStep} {s : Pipeline}
    (hrun : exec (pipelineStep serde) (Pipeline.spawned agent store) steps = some s)
    (hreturned : s.loop.finalFlush.isSome) : Returned s where
  toTransitOk := transitOk_of_exec hrun
  drain := exec_invariant drainOk_step (drainOk_idle (Nat.zero_le _) []) (exec_drain hrun)
  returned := hreturned

/-- Once the loop has returned, each turn of the backend comes to its end in a bounded number of its
own steps, however they interleave with frames, and until then it can always take one. -/
theorem backend_turn_bounded (serde : Serde) (agent : Agent) (store : SqliteStore)
    (steps : List PipelineStep) (s : Pipeline)
    (hrun : exec (pipelineStep serde) (Pipeline.spawned agent store) steps = some s)
    (hreturned : s.loop.finalFlush.isSome) :
    (∀ more t, (∀ step ∈ more, ¬ step.Selects) → exec (pipelineStep serde) s more = some t →
      more.countP PipelineStep.inTurn ≤ turnBound) ∧
    (¬ s.task.AtRest → ∃ step, step.inTurn = true ∧ (pipelineStep serde s step).isSome) := by
  have hs := returned_of_exec hrun hreturned
  refine ⟨fun more t hturn hmore => ?_, turn_enabled serde hs⟩
  have hcount := countP_le_rank (I := Returned) (Q := fun step => ¬ step.Selects)
    (p := PipelineStep.inTurn) (fun s : Pipeline => s.task.rank)
    (fun s step t hs hstep h => ⟨returned_step hs h, rank_step hs hstep h⟩) hs hturn hmore
  have hrank := rank_le_turnBound hs
  omega

/-- The loop returns while the backend reads the table. -/
def interruptedRun : List PipelineStep :=
  [.kernel (.frame pingFrame freeSlots), .flowTick, .readEntry pingFlow, .loop .signal,
    .loop (.shutdown [] [])]

theorem backend_turn_bounded_interruptedRun :
    ∃ s, exec (pipelineStep jsonSerde) (Pipeline.spawned Agent.initial SqliteStore.empty)
        interruptedRun = some s ∧
      ∃ step, step.inTurn = true ∧ (pipelineStep jsonSerde s step).isSome :=
  ⟨_, rfl, (backend_turn_bounded jsonSerde Agent.initial SqliteStore.empty interruptedRun _ rfl
    rfl).2 not_false⟩

/-! ## The way out -/

/-- The program's own steps on its way out. No frame arrives and no new turn begins. -/
def PipelineStep.Finishes : PipelineStep → Prop
  | .loop (.shutdown _ _) | .stopBackend => True
  | step => step.inTurn = true

/-- After the signal the loop can return at once, whatever the store answers. -/
private theorem loop_returns (serde : Serde) {s : Pipeline} (hrunning : s.loop.finalFlush = none)
    (hsignalled : s.loop.signalled = true) {order : List MacAddr}
    (horder : s.loop.agent.registry.devices.IterOrder order) {outcomes : List Bool}
    (hlen : outcomes.length = (flushAll order s.loop.agent.registry).length) :
    pipelineStep serde s (.loop (.shutdown order outcomes)) =
      some { s with loop := { s.loop with
        store := s.loop.store.writeAll serde ((flushAll order s.loop.agent.registry).zip outcomes)
        finalFlush := some (flushAll order s.loop.agent.registry) } } := by
  have hflushed : flushed serde s.loop order outcomes = some
      (s.loop.store.writeAll serde ((flushAll order s.loop.agent.registry).zip outcomes)) :=
    if_pos ⟨horder, hlen⟩
  simp [pipelineStep, loopStep, returned, hrunning, hsignalled, hflushed]

/-- A later state of the way out, with the registry and the store that the loop left. -/
private structure Leaving (s m : Pipeline) : Prop extends Returned m where
  agent : m.loop.agent = s.loop.agent
  store : m.loop.store = s.loop.store
  signalled : m.loop.signalled = true

private theorem leaving_step (serde : Serde) {s m : Pipeline} (h : Leaving s m)
    (hrest : ¬ m.task.AtRest) :
    ∃ step n, step.inTurn = true ∧ pipelineStep serde m step = some n ∧ Leaving s n ∧
      n.task.rank < m.task.rank := by
  obtain ⟨step, hturn, hsome⟩ := turn_enabled serde h.toReturned hrest
  obtain ⟨n, hn⟩ := Option.isSome_iff_exists.mp hsome
  obtain ⟨hagent, hstore, hsignalled⟩ := loop_of_inTurn h.toReturned hturn hn
  have hselects : ¬ step.Selects := by
    cases step <;> simp [PipelineStep.inTurn, PipelineStep.Selects] at hturn ⊢
  have hrank := rank_step h.toReturned hselects hn
  rw [if_pos hturn] at hrank
  exact ⟨step, n, hturn, hn, ⟨returned_step h.toReturned hn, hagent.trans h.agent,
    hstore.trans h.store, hsignalled.trans h.signalled⟩, hrank⟩

private theorem finishes_of_inTurn {step : PipelineStep} (h : step.inTurn = true) :
    step.Finishes := by
  cases step <;> simp [PipelineStep.inTurn, PipelineStep.Finishes] at h ⊢

/-- Once the loop has returned, the backend finishes its turn and stops. -/
private theorem backend_stops (serde : Serde) {s : Pipeline} (hs : Returned s)
    (hsignalled : s.loop.signalled = true) :
    ∃ more t, more.length ≤ turnBound + 1 ∧ (∀ step ∈ more, step.Finishes) ∧
      exec (pipelineStep serde) s more = some t ∧ t.task = .stopped ∧ Leaving s t := by
  obtain ⟨more, m, hturn, hlen, hmore, hm, hrest⟩ := exec_to_goal (I := Leaving s)
    (G := fun m => m.task.AtRest) (fun m : Pipeline => m.task.rank)
    (fun _ hm hrest => leaving_step serde hm hrest) ⟨hs, rfl, rfl, hsignalled⟩
  have hbound := rank_le_turnBound hs
  have hfinishes : ∀ step ∈ more, step.Finishes := fun step h => finishes_of_inTurn (hturn step h)
  cases htask : m.task with
  | stopped => exact ⟨more, m, by omega, hfinishes, hmore, htask, hm⟩
  | selecting =>
      have hstop : pipelineStep serde m .stopBackend = some (stopTask m) := by
        simp [pipelineStep, htask, hm.signalled]
      refine ⟨more ++ [.stopBackend], stopTask m, ?_, ?_, ?_, rfl, ?_⟩
      · rw [List.length_append, List.length_singleton]
        omega
      · intro step hstep
        cases List.mem_append.mp hstep with
        | inl h => exact hfinishes step h
        | inr h =>
            obtain rfl := List.mem_singleton.mp h
            trivial
      · exact exec_append_iff.mpr ⟨m, hmore, exec_cons_iff.mpr ⟨_, hstop, rfl⟩⟩
      · exact ⟨returned_step hm.toReturned hstop, hm.agent, hm.store, hm.signalled⟩
  | records held | reading unread out | removing todo out | sending out =>
      simp [htask, BackendTask.AtRest] at hrest

/-- The way out from a state of a run. Where the loop still runs, its last flush is the last thing that
happens to the store. -/
theorem exec_finishes (serde : Serde) {agent : Agent} {store : SqliteStore}
    {steps : List PipelineStep} {s : Pipeline}
    (hrun : exec (pipelineStep serde) (Pipeline.spawned agent store) steps = some s)
    (hsignalled : s.loop.signalled = true) (answers : List StoreWrite → List Bool)
    (hanswers : ∀ writes, (answers writes).length = writes.length) :
    ∃ more t, more.length ≤ turnBound + 2 ∧ (∀ step ∈ more, step.Finishes) ∧
      exec (pipelineStep serde) s more = some t ∧ t.task = .stopped ∧
      t.loop.finalFlush.isSome ∧ t.loop.agent = s.loop.agent ∧ t.loop.signalled = true ∧
      (s.loop.finalFlush = none → ∃ order, s.loop.agent.registry.devices.IterOrder order ∧
        t.loop.store = s.loop.store.writeAll serde ((flushAll order s.loop.agent.registry).zip
          (answers (flushAll order s.loop.agent.registry)))) := by
  cases hflush : s.loop.finalFlush with
  | some writes =>
      have hs := returned_of_exec hrun (by rw [hflush]; rfl)
      obtain ⟨more, t, hlen, hfinishes, hmore, htask, ht⟩ := backend_stops serde hs hsignalled
      exact ⟨more, t, by omega, hfinishes, hmore, htask, ht.returned, ht.agent, ht.signalled,
        fun hnone => absurd hnone (by simp)⟩
  | none =>
      obtain ⟨order, horder⟩ := HashMap.exists_iterOrder s.loop.agent.registry.devices
      have hlen := hanswers (flushAll order s.loop.agent.registry)
      have hreturn := loop_returns serde hflush hsignalled horder hlen
      have hs := returned_of_exec (exec_append_iff.mpr
        ⟨s, hrun, exec_cons_iff.mpr ⟨_, hreturn, exec_nil _⟩⟩) rfl
      obtain ⟨more, t, hlength, hfinishes, hmore, htask, ht⟩ := backend_stops serde hs hsignalled
      refine ⟨_ :: more, t, ?_, ?_, exec_cons_iff.mpr ⟨_, hreturn, hmore⟩, htask, ht.returned,
        ht.agent, ht.signalled, fun _ => ⟨order, horder, ht.store⟩⟩
      · rw [List.length_cons]
        omega
      · intro step hstep
        cases List.mem_cons.mp hstep with
        | inl h => exact h ▸ trivial
        | inr h => exact hfinishes step h

/-- From every reachable state after the shutdown signal, the loop and the backend can both finish,
in a bounded number of their own steps, whatever the store answers to the last flush. If the loop has
not returned yet, so that this flush is among the steps, and the store refuses none of its writes, a
later start finds the registry as the loop left it. -/
theorem shutdown_completes (serde : Serde) (hserde : serde.RoundTrip) (history : List SiteStep)
    (agent : Agent) (store : SqliteStore)
    (hsite : exec (siteStep serde) Site.initial history = some ⟨store, some agent⟩)
    (steps : List PipelineStep) (s : Pipeline)
    (hrun : exec (pipelineStep serde) (Pipeline.spawned agent store) steps = some s)
    (hsignalled : s.loop.signalled = true) (answers : List StoreWrite → List Bool)
    (hanswers : ∀ writes, (answers writes).length = writes.length) :
    ∃ more t, more.length ≤ turnBound + 2 ∧ (∀ step ∈ more, step.Finishes) ∧
      exec (pipelineStep serde) s more = some t ∧ t.task = .stopped ∧
      t.loop.finalFlush.isSome ∧ t.loop.agent = s.loop.agent ∧
      (s.loop.finalFlush = none → (∀ writes, ∀ ok ∈ answers writes, ok = true) →
        ∀ rows, t.loop.store.devices.IterOrder rows →
          seedRegistry DeviceRegistry.empty (t.loop.store.loadDevices serde rows) =
            s.loop.agent.registry) := by
  obtain ⟨more, t, hlen, hfinishes, hmore, htask, hreturned, hagent, _, hstore⟩ :=
    exec_finishes serde hrun hsignalled answers hanswers
  refine ⟨more, t, hlen, hfinishes, hmore, htask, hreturned, hagent, fun hnone hok rows hrows => ?_⟩
  obtain ⟨order, horder, hwritten⟩ := hstore hnone
  obtain ⟨later, hlater, _⟩ := exec_sessions hsite hrun
  have hsiteOk := exec_invariant (siteOk_step serde) siteOk_initial hlater
  obtain ⟨hkeyed, hagrees⟩ := hsiteOk.running _ rfl
  rw [hwritten] at hrows ⊢
  exact seed_flushed hserde hkeyed hagrees horder (hanswers _) (hok _) hrows

theorem shutdown_completes_busyRun :
    ∃ s, exec (pipelineStep jsonSerde) (Pipeline.spawned Agent.initial SqliteStore.empty)
        busyRun = some s ∧
      ∃ more t, exec (pipelineStep jsonSerde) s more = some t ∧ t.task = .stopped ∧
        t.loop.finalFlush.isSome := by
  obtain ⟨s, hrun, hsignalled⟩ : ∃ s, exec (pipelineStep jsonSerde)
      (Pipeline.spawned Agent.initial SqliteStore.empty) busyRun = some s ∧
        s.loop.signalled = true := ⟨_, rfl, rfl⟩
  obtain ⟨more, t, _, _, hmore, htask, hreturned, _⟩ := shutdown_completes jsonSerde
    roundTrip_jsonSerde [.start []] Agent.initial SqliteStore.empty rfl busyRun s hrun hsignalled
    (fun writes => writes.map fun _ => true) (fun _ => List.length_map _)
  exact ⟨s, hrun, more, t, hmore, htask, hreturned⟩

end Lanscope
