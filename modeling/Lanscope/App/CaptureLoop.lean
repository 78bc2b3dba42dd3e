import Lanscope.App.Attribution

/-!
# The capture loop

The backend sends events into a bounded channel, the loop receives and handles them, flushes now and
then, and stops on a shutdown signal or a closed channel. Its `select` takes any branch that is
ready, so a run is any sequence of enabled steps. Sent events carry a mark that tells whether the
signal came first.
-/

namespace Lanscope

open Framework

def channelCapacity : Nat := 1024

structure LoopState where
  /-- Events in the channel, oldest first, each with whether it was sent before the signal. -/
  channel : List (CaptureEvent × Bool)
  senderOpen : Bool
  signalled : Bool
  agent : Agent
  store : SqliteStore
  /-- The writes of the last flush, once the loop has returned. -/
  finalFlush : Option (List StoreWrite)
  /-- The events accepted before the signal, and the events handled so far. -/
  sent : List CaptureEvent
  handled : List Arrival

def LoopState.spawned (agent : Agent) (store : SqliteStore) : LoopState where
  channel := []
  senderOpen := true
  signalled := false
  agent := agent
  store := store
  finalFlush := none
  sent := []
  handled := []

inductive LoopStep
  /-- A send of the backend that completes. -/
  | send (ev : CaptureEvent)
  | closeSender
  | signal
  | recv (now : Int) (order : List MacAddr) (outcomes : List Bool)
  /-- The loop learns that the channel is closed and drained. -/
  | recvClosed (order : List MacAddr) (outcomes : List Bool)
  | tick (order : List MacAddr) (outcomes : List Bool)
  | shutdown (order : List MacAddr) (outcomes : List Bool)

section Steps

variable (serde : Serde)

def flushed (s : LoopState) (order : List MacAddr) (outcomes : List Bool) : Option SqliteStore :=
  let writes := flushAll order s.agent.registry
  if s.agent.registry.devices.IterOrder order ∧ outcomes.length = writes.length then
    some (s.store.writeAll serde (writes.zip outcomes))
  else none

def returned (s : LoopState) (order : List MacAddr) (outcomes : List Bool) : Option LoopState :=
  (flushed serde s order outcomes).map fun store =>
    { s with store := store, finalFlush := some (flushAll order s.agent.registry) }

def loopStep (s : LoopState) (step : LoopStep) : Option LoopState :=
  match step with
  | .send ev =>
    -- a send waits while the channel is full, and fails once the loop has returned
    if s.senderOpen ∧ s.finalFlush.isNone ∧ s.channel.length < channelCapacity then
      some { s with
        channel := s.channel ++ [(ev, !s.signalled)]
        sent := if s.signalled then s.sent else s.sent ++ [ev] }
    else none
  | .closeSender => some { s with senderOpen := false }
  | .signal => some { s with signalled := true }
  | .recv now order outcomes =>
    match s.finalFlush, s.channel with
    | none, (ev, _) :: rest => do
      let agent ← agentStep s.agent ⟨ev, now, order⟩
      let writes := (handleEvent now order s.agent ev).writes
      if outcomes.length = writes.length then
        some { s with
          channel := rest
          agent := agent
          store := s.store.writeAll serde (writes.zip outcomes)
          handled := s.handled ++ [⟨ev, now, order⟩] }
      else none
    | _, _ => none
  | .recvClosed order outcomes =>
    if s.finalFlush.isNone ∧ s.channel.isEmpty ∧ ¬ s.senderOpen then returned serde s order outcomes
    else none
  | .tick order outcomes =>
    if s.finalFlush.isNone then
      (flushed serde s order outcomes).map fun store => { s with store := store }
    else none
  | .shutdown order outcomes =>
    if s.finalFlush.isNone ∧ s.signalled then returned serde s order outcomes else none

end Steps

/-- Every event accepted before the signal was handled, the registry is the fold of all handled
events, and the last flush wrote every device of it. -/
def Reflected (spawned : Agent) (s : LoopState) : Prop :=
  s.sent <+: s.handled.map Arrival.event ∧ exec agentStep spawned s.handled = some s.agent ∧
    ∃ order, s.agent.registry.devices.IterOrder order ∧
      s.finalFlush = some (flushAll order s.agent.registry)

/-- No event sent before the signal waits in the channel. -/
def NothingPending (s : LoopState) : Prop := ∀ entry ∈ s.channel, entry.2 = false

/-- If the step takes the shutdown branch, it leaves no event behind that was sent before the
signal. -/
def NoBacklog (s : LoopState) : LoopStep → Prop
  | .shutdown _ _ => NothingPending s
  | _ => True

instance NoBacklog.decidable (s : LoopState) : (step : LoopStep) → Decidable (NoBacklog s step)
  | .shutdown _ _ => inferInstanceAs (Decidable (∀ entry ∈ s.channel, entry.2 = false))
  | .send _ | .closeSender | .signal | .recv _ _ _ | .recvClosed _ _ | .tick _ _ => isTrue trivial

/-! ## The steps of the loop -/

/-- What a step needs and does, whatever the store answers. -/
inductive LoopMove (s : LoopState) : LoopStep → LoopState → Prop
  | send (ev : CaptureEvent) (running : s.finalFlush = none) :
      LoopMove s (.send ev) { s with
        channel := s.channel ++ [(ev, !s.signalled)]
        sent := if s.signalled then s.sent else s.sent ++ [ev] }
  | closeSender : LoopMove s .closeSender { s with senderOpen := false }
  | signal : LoopMove s .signal { s with signalled := true }
  | recv {now : Int} {order : List MacAddr} {outcomes : List Bool} {ev : CaptureEvent} {mark : Bool}
      {rest : List (CaptureEvent × Bool)} {agent : Agent} {store : SqliteStore}
      (running : s.finalFlush = none) (channel : s.channel = (ev, mark) :: rest)
      (step : agentStep s.agent ⟨ev, now, order⟩ = some agent) :
      LoopMove s (.recv now order outcomes) { s with
        channel := rest, agent := agent, store := store,
        handled := s.handled ++ [⟨ev, now, order⟩] }
  | tick {order : List MacAddr} {outcomes : List Bool} {store : SqliteStore}
      (running : s.finalFlush = none) : LoopMove s (.tick order outcomes) { s with store := store }
  | recvClosed {order : List MacAddr} {outcomes : List Bool} {store : SqliteStore}
      (running : s.finalFlush = none) (drained : s.channel = [])
      (iterates : s.agent.registry.devices.IterOrder order) :
      LoopMove s (.recvClosed order outcomes) { s with
        store := store, finalFlush := some (flushAll order s.agent.registry) }
  | shutdown {order : List MacAddr} {outcomes : List Bool} {store : SqliteStore}
      (running : s.finalFlush = none) (signalled : s.signalled = true)
      (iterates : s.agent.registry.devices.IterOrder order) :
      LoopMove s (.shutdown order outcomes) { s with
        store := store, finalFlush := some (flushAll order s.agent.registry) }

private theorem flushed_order {serde : Serde} {s : LoopState} {order : List MacAddr}
    {outcomes : List Bool} {store : SqliteStore} (h : flushed serde s order outcomes = some store) :
    s.agent.registry.devices.IterOrder order := by
  unfold flushed at h
  by_cases hready : s.agent.registry.devices.IterOrder order ∧
      outcomes.length = (flushAll order s.agent.registry).length
  · exact hready.1
  · exact absurd h (by simp [hready])

theorem loopMove_of_loopStep {serde : Serde} {s t : LoopState} {step : LoopStep}
    (h : loopStep serde s step = some t) : LoopMove s step t := by
  cases step with
  | send ev =>
      simp only [loopStep, Option.ite_none_right_eq_some, Option.some.injEq] at h
      obtain ⟨hready, rfl⟩ := h
      exact .send ev (by simpa using hready.2.1)
  | closeSender =>
      obtain rfl := Option.some.inj h
      exact .closeSender
  | signal =>
      obtain rfl := Option.some.inj h
      exact .signal
  | recv now order outcomes =>
      simp only [loopStep] at h
      split at h
      · next ev mark rest hflush hchannel =>
        obtain ⟨agent, hagent, h⟩ := Option.bind_eq_some_iff.mp h
        obtain ⟨_, hsome⟩ := Option.ite_none_right_eq_some.mp h
        obtain rfl := Option.some.inj hsome
        exact .recv hflush hchannel hagent
      · exact absurd h (by simp)
  | recvClosed order outcomes =>
      simp only [loopStep, Option.ite_none_right_eq_some] at h
      obtain ⟨hready, hreturn⟩ := h
      obtain ⟨store, hstore, rfl⟩ := Option.map_eq_some_iff.mp hreturn
      exact .recvClosed (by simpa using hready.1) (by simpa using hready.2.1) (flushed_order hstore)
  | tick order outcomes =>
      simp only [loopStep, Option.ite_none_right_eq_some] at h
      obtain ⟨hready, hflush⟩ := h
      obtain ⟨store, _, rfl⟩ := Option.map_eq_some_iff.mp hflush
      exact .tick (by simpa using hready)
  | shutdown order outcomes =>
      simp only [loopStep, Option.ite_none_right_eq_some] at h
      obtain ⟨hready, hreturn⟩ := h
      obtain ⟨store, hstore, rfl⟩ := Option.map_eq_some_iff.mp hreturn
      exact .shutdown (by simpa using hready.1) hready.2 (flushed_order hstore)

/-! ## Invariants -/

/-- The channel is first in, first out: events sent before the signal come before the others, and
handled and waiting events together are the accepted ones. -/
structure Fifo (s : LoopState) (before after : List CaptureEvent) (extra : List CaptureEvent) :
    Prop where
  channel : s.channel = before.map (fun ev => (ev, true)) ++ after.map fun ev => (ev, false)
  accepted : s.handled.map Arrival.event ++ before = s.sent ++ extra
  ordered : before ≠ [] → extra = []
  unsignalled : s.signalled = false → after = [] ∧ extra = []

structure LoopOk (spawned : Agent) (s : LoopState) : Prop where
  folded : exec agentStep spawned s.handled = some s.agent
  flush : ∀ writes, s.finalFlush = some writes →
    ∃ order, s.agent.registry.devices.IterOrder order ∧ writes = flushAll order s.agent.registry
  fifo : ∃ before after extra, Fifo s before after extra

theorem loopOk_spawned (agent : Agent) (store : SqliteStore) :
    LoopOk agent (LoopState.spawned agent store) where
  folded := rfl
  flush _ h := absurd h (by simp [LoopState.spawned])
  fifo := ⟨[], [], [], rfl, rfl, fun _ => rfl, fun _ => ⟨rfl, rfl⟩⟩

private theorem fifo_recv {s : LoopState} {before after extra : List CaptureEvent}
    (h : Fifo s before after extra) {ev : CaptureEvent} {mark : Bool}
    {rest : List (CaptureEvent × Bool)} (hchannel : s.channel = (ev, mark) :: rest)
    (now : Int) (order : List MacAddr) (agent : Agent) (store : SqliteStore) :
    ∃ before after extra, Fifo { s with
      channel := rest, agent := agent, store := store,
      handled := s.handled ++ [⟨ev, now, order⟩] } before after extra := by
  have hsplit := hchannel.symm.trans h.channel
  cases before with
  | cons first before =>
      simp only [List.map_cons, List.cons_append, List.cons.injEq, Prod.mk.injEq] at hsplit
      obtain ⟨⟨rfl, _⟩, hrest⟩ := hsplit
      refine ⟨before, after, extra, hrest, ?_, fun _ => h.ordered (by simp), h.unsignalled⟩
      simpa using h.accepted
  | nil =>
      cases after with
      | nil => exact absurd hsplit (by simp)
      | cons first after =>
          simp only [List.map_nil, List.nil_append, List.map_cons, List.cons.injEq,
            Prod.mk.injEq] at hsplit
          obtain ⟨⟨rfl, _⟩, hrest⟩ := hsplit
          have haccepted := h.accepted
          refine ⟨[], after, extra ++ [ev], hrest, ?_, fun hne => absurd rfl hne, fun hsig => ?_⟩
          · simp only [List.append_nil] at haccepted
            simp [haccepted]
          · exact absurd (h.unsignalled hsig).1 (by simp)

private theorem fifo_send {s : LoopState} {before after extra : List CaptureEvent}
    (h : Fifo s before after extra) (ev : CaptureEvent) :
    ∃ before after extra, Fifo { s with
      channel := s.channel ++ [(ev, !s.signalled)]
      sent := if s.signalled then s.sent else s.sent ++ [ev] } before after extra := by
  cases hsig : s.signalled with
  | true =>
      refine ⟨before, after ++ [ev], extra, ?_, h.accepted, h.ordered, fun hno => ?_⟩
      · simp [h.channel]
      · exact absurd hno (by simp)
  | false =>
      obtain ⟨rfl, rfl⟩ := h.unsignalled hsig
      refine ⟨before ++ [ev], [], [], ?_, ?_, fun _ => rfl, fun _ => ⟨rfl, rfl⟩⟩
      · simp [h.channel]
      · have haccepted := h.accepted
        simp only [List.append_nil] at haccepted
        simp [← haccepted]

theorem loopOk_step {serde : Serde} (spawned : Agent) (s : LoopState) (step : LoopStep)
    (t : LoopState) (hs : LoopOk spawned s) (h : loopStep serde s step = some t) :
    LoopOk spawned t := by
  obtain ⟨before, after, extra, hfifo⟩ := hs.fifo
  cases loopMove_of_loopStep h with
  | send ev _ => exact ⟨hs.folded, hs.flush, fifo_send hfifo ev⟩
  | closeSender => exact ⟨hs.folded, hs.flush, before, after, extra, { hfifo with }⟩
  | signal =>
      exact ⟨hs.folded, hs.flush, before, after, extra, hfifo.channel, hfifo.accepted,
        hfifo.ordered, fun hno => absurd hno (by simp)⟩
  | recv running channel hstep =>
      refine ⟨?_, fun writes hw => absurd hw (by simp [running]), fifo_recv hfifo channel _ _ _ _⟩
      exact exec_append_iff.mpr ⟨s.agent, hs.folded, exec_cons_iff.mpr ⟨_, hstep, rfl⟩⟩
  | tick _ => exact ⟨hs.folded, hs.flush, before, after, extra, { hfifo with }⟩
  | recvClosed _ _ iterates | shutdown _ _ iterates =>
      refine ⟨hs.folded, ?_, before, after, extra, { hfifo with }⟩
      rintro _ ⟨⟩
      exact ⟨_, iterates, rfl⟩

/-! ## When nothing accepted is dropped -/

/-- Once the loop has returned, its events are reflected exactly when none of them still waits. -/
private theorem reflected_iff_nothingPending {spawned : Agent} {s : LoopState}
    (hs : LoopOk spawned s) (hreturned : s.finalFlush.isSome) :
    Reflected spawned s ↔ NothingPending s := by
  obtain ⟨before, after, extra, hfifo⟩ := hs.fifo
  obtain ⟨writes, hwrites⟩ := Option.isSome_iff_exists.mp hreturned
  obtain ⟨order, horder, rfl⟩ := hs.flush writes hwrites
  have hpending : NothingPending s ↔ before = [] := by
    rw [NothingPending, hfifo.channel]
    cases before <;> simp
  have haccepted := hfifo.accepted
  rw [hpending]
  constructor
  · rintro ⟨hextends, _⟩
    by_contra hne
    have hlen := congrArg List.length haccepted
    have hshort := hextends.length_le
    have hpos := List.length_pos_of_ne_nil hne
    rw [hfifo.ordered hne] at hlen
    simp only [List.length_append, List.length_nil] at hlen
    omega
  · rintro rfl
    rw [List.append_nil] at haccepted
    exact ⟨⟨extra, haccepted.symm⟩, hs.folded, order, horder, hwrites⟩

/-- Nothing enters or leaves the channel of a loop that has returned, nor does it stop again. -/
private theorem after_return {serde : Serde} {s t : LoopState} {steps : List LoopStep}
    (hreturned : s.finalFlush.isSome) (h : exec (loopStep serde) s steps = some t) :
    t.channel = s.channel ∧ StepsSatisfy (loopStep serde) NoBacklog s steps := by
  induction steps generalizing s with
  | nil =>
      obtain rfl := Option.some.inj h
      exact ⟨rfl, trivial⟩
  | cons step steps ih =>
      obtain ⟨m, hm, hrest⟩ := exec_cons_iff.mp h
      have hnext {u : LoopState} (hu : loopStep serde s step = some u) : m = u :=
        Option.some.inj (hm.symm.trans hu)
      cases loopMove_of_loopStep hm with
      | closeSender | signal =>
          obtain ⟨hchannel, hsteps⟩ := ih (by exact hreturned) hrest
          exact ⟨hchannel, trivial, fun u hu => hnext hu ▸ hsteps⟩
      | send _ running | recv running | tick running | recvClosed running | shutdown running =>
          exact absurd hreturned (by simp [running])

/-- A run to a return leaves nothing pending exactly when its shutdown branch, if taken, did. -/
private theorem nothingPending_iff {serde : Serde} {s t : LoopState} {steps : List LoopStep}
    (hrunning : s.finalFlush = none) (hreturned : t.finalFlush.isSome)
    (h : exec (loopStep serde) s steps = some t) :
    NothingPending t ↔ StepsSatisfy (loopStep serde) NoBacklog s steps := by
  induction steps generalizing s with
  | nil =>
      obtain rfl := Option.some.inj h
      exact absurd hreturned (by simp [hrunning])
  | cons step steps ih =>
      obtain ⟨m, hm, hrest⟩ := exec_cons_iff.mp h
      have hone : StepsSatisfy (loopStep serde) NoBacklog s (step :: steps) ↔
          NoBacklog s step ∧ StepsSatisfy (loopStep serde) NoBacklog m steps := by
        refine and_congr Iff.rfl ⟨fun hs => hs m hm, fun hs u hu => ?_⟩
        obtain rfl := Option.some.inj (hm.symm.trans hu)
        exact hs
      rw [hone]
      cases loopMove_of_loopStep hm with
      | recvClosed _ drained _ =>
          obtain ⟨hchannel, hsteps⟩ := after_return (by rfl) hrest
          refine iff_of_true ?_ ⟨trivial, hsteps⟩
          rw [NothingPending, hchannel]
          simp [drained]
      | shutdown _ _ _ =>
          obtain ⟨hchannel, hsteps⟩ := after_return (by rfl) hrest
          rw [NothingPending, hchannel]
          exact ⟨fun hp => ⟨hp, hsteps⟩, fun hp => hp.1⟩
      | closeSender | signal | tick running | send _ running | recv running =>
          rw [ih (by exact hrunning) hrest]
          exact ⟨fun hs => ⟨trivial, hs⟩, fun hs => hs.2⟩

/-- In every run of the loop to its return, each event accepted before the shutdown signal was
handled and is in the final flush exactly when the shutdown branch was not taken over an event of
that kind still in the channel. -/
theorem reflected_iff_noBacklog (serde : Serde) (agent : Agent) (store : SqliteStore)
    (steps : List LoopStep) (t : LoopState)
    (hrun : exec (loopStep serde) (LoopState.spawned agent store) steps = some t)
    (hreturned : t.finalFlush.isSome) :
    Reflected agent t ↔
      StepsSatisfy (loopStep serde) NoBacklog (LoopState.spawned agent store) steps := by
  have hok := exec_invariant (loopOk_step agent) (loopOk_spawned agent store) hrun
  rw [reflected_iff_nothingPending hok hreturned]
  exact nothingPending_iff rfl hreturned hrun

/-- The loop handles an event between the signal and its return. -/
def drainedSteps : List LoopStep :=
  [.send (.discovery (Event.holding .arp laptop leasedIp [])), .signal, .recv 100 [] [true, true],
    .shutdown [laptop] [true]]

theorem reflected_iff_noBacklog_drainedSteps :
    ∃ t, exec (loopStep jsonSerde) (LoopState.spawned Agent.initial SqliteStore.empty)
        drainedSteps = some t ∧ Reflected Agent.initial t :=
  ⟨_, rfl, (reflected_iff_noBacklog jsonSerde Agent.initial SqliteStore.empty drainedSteps _ rfl
    rfl).mpr (by decide)⟩

/-- The loop may stop on the signal while an event sent before it waits in the channel. -/
theorem accepted_event_dropped :
    ¬ ∀ (serde : Serde) (agent : Agent) (store : SqliteStore) (steps : List LoopStep)
      (t : LoopState), exec (loopStep serde) (LoopState.spawned agent store) steps = some t →
      t.finalFlush.isSome → Reflected agent t := by
  intro h
  have hreflected := h jsonSerde Agent.initial SqliteStore.empty
    [.send (.discovery (Event.holding .arp laptop leasedIp [])), .signal, .shutdown [] []] _ rfl rfl
  exact absurd hreflected.1 (by decide)

end Lanscope
