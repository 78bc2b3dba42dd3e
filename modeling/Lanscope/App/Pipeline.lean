import Lanscope.App.CaptureLoop
import Lanscope.Capture.Drain
import Lanscope.Ebpf.Announce

/-!
# The pipeline

The XDP program, the backend task and the capture loop side by side. The backend carries ring-buffer
records and snapshots of the flow table into the channel, one access at a time, and the loop takes
them out. Frames arrive between any two steps, and each `select` takes any branch that is ready.
-/

namespace Lanscope

open Framework

/-- Where the backend task stands. -/
inductive BackendTask
  /-- Waiting for its next branch. -/
  | selecting
  /-- In `drain_events`, with the record it is sending. -/
  | records (held : Option Event)
  /-- In the first pass of `drain_flows`, which still owes the unread keys. -/
  | reading (unread : Finset FlowKey) (out : Snapshot)
  /-- In its second pass. -/
  | removing (todo : List FlowKey) (out : Snapshot)
  /-- Sending a snapshot. -/
  | sending (out : Snapshot)
  | stopped

structure Pipeline where
  kernel : Kernel
  /-- How many records have been taken out of the ring buffer. -/
  consumed : Nat
  task : BackendTask
  loop : LoopState
  /-- What the backend could not send because the loop had returned. -/
  undelivered : List CaptureEvent

def Pipeline.spawned (agent : Agent) (store : SqliteStore) : Pipeline where
  kernel := Kernel.empty
  consumed := 0
  task := .selecting
  loop := LoopState.spawned agent store
  undelivered := []

inductive PipelineStep
  /-- A frame, or an eviction from `SEEN`. -/
  | kernel (step : KernelStep)
  | readable
  | takeRecord
  | ringEmpty
  | sendRecord
  | flowTick
  | readEntry (key : FlowKey)
  | endRead
  | removeEntry
  | endRemove
  | sendFlows
  | stopBackend
  /-- A step of the capture loop, or the shutdown signal. -/
  | loop (step : LoopStep)

/-- The backend returns and drops its end of the channel. -/
def stopTask (s : Pipeline) : Pipeline :=
  { s with task := .stopped, loop := { s.loop with senderOpen := false } }

def pipelineStep (serde : Serde) (s : Pipeline) : PipelineStep → Option Pipeline
  | .kernel step => (kernelStep s.kernel step).map fun kernel => { s with kernel := kernel }
  | .readable =>
    match s.task with
    | .selecting => some { s with task := .records none }
    | _ => none
  | .takeRecord =>
    match s.task, s.kernel.events[s.consumed]? with
    | .records none, some ev =>
      some { s with consumed := s.consumed + 1, task := .records (some ev) }
    | _, _ => none
  | .ringEmpty =>
    match s.task, s.kernel.events[s.consumed]? with
    | .records none, none => some { s with task := .selecting }
    | _, _ => none
  | .sendRecord =>
    match s.task with
    | .records (some ev) =>
      -- without a receiver the send fails, and `drain_events` returns
      if s.loop.finalFlush.isSome then
        some { s with task := .selecting, undelivered := s.undelivered ++ [.discovery ev] }
      else
        (loopStep serde s.loop (.send (.discovery ev))).map fun loop =>
          { s with loop := loop, task := .records none }
    | _ => none
  | .flowTick =>
    match s.task with
    | .selecting => some { s with task := .reading s.kernel.flows.keys [] }
    | _ => none
  | .readEntry key =>
    match s.task, s.kernel.flows.lookup key with
    | .reading unread out, some stats =>
      if key ∈ out.map Prod.fst then none
      else some { s with task := .reading (unread.erase key) (out ++ [(key, stats)]) }
    | _, _ => none
  | .endRead =>
    match s.task with
    | .reading unread out =>
      if unread ≠ ∅ then none
      else if out = [] then some { s with task := .selecting }
      else some { s with task := .removing (out.map Prod.fst) out }
    | _ => none
  | .removeEntry =>
    match s.task with
    | .removing (key :: todo) out =>
      some { s with
        kernel := { s.kernel with flows := s.kernel.flows.erase key }
        task := .removing todo out }
    | _ => none
  | .endRemove =>
    match s.task with
    | .removing [] out => some { s with task := .sending out }
    | _ => none
  | .sendFlows =>
    match s.task with
    | .sending out =>
      -- without a receiver the send fails, and the task stops
      if s.loop.finalFlush.isSome then
        some (stopTask { s with undelivered := s.undelivered ++ [.flows out] })
      else
        (loopStep serde s.loop (.send (.flows out))).map fun loop =>
          { s with loop := loop, task := .selecting }
    | _ => none
  | .stopBackend =>
    match s.task with
    | .selecting => if s.loop.signalled then some (stopTask s) else none
    | _ => none
  | .loop step =>
    match step with
    -- these two are the backend's
    | .send _ | .closeSender => none
    | .signal | .recv _ _ _ | .recvClosed _ _ | .tick _ _ | .shutdown _ _ =>
      (loopStep serde s.loop step).map fun loop => { s with loop := loop }

/-! ## Moves -/

/-- The steps of the loop itself, without what the backend does to the channel. -/
def LoopStep.Own : LoopStep → Prop
  | .send _ | .closeSender => False
  | .signal | .recv _ _ _ | .recvClosed _ _ | .tick _ _ | .shutdown _ _ => True

/-- What a step needs and does. -/
inductive PipelineMove (serde : Serde) (s : Pipeline) : PipelineStep → Pipeline → Prop
  | kernel {step : KernelStep} {kernel : Kernel} (move : kernelStep s.kernel step = some kernel) :
      PipelineMove serde s (.kernel step) { s with kernel := kernel }
  | readable (task : s.task = .selecting) :
      PipelineMove serde s .readable { s with task := .records none }
  | takeRecord {ev : Event} (task : s.task = .records none)
      (ring : s.kernel.events[s.consumed]? = some ev) :
      PipelineMove serde s .takeRecord
        { s with consumed := s.consumed + 1, task := .records (some ev) }
  | ringEmpty (task : s.task = .records none) (ring : s.kernel.events[s.consumed]? = none) :
      PipelineMove serde s .ringEmpty { s with task := .selecting }
  | sendRecord {ev : Event} {loop : LoopState} (task : s.task = .records (some ev))
      (running : s.loop.finalFlush = none)
      (send : loopStep serde s.loop (.send (.discovery ev)) = some loop) :
      PipelineMove serde s .sendRecord { s with loop := loop, task := .records none }
  | dropRecord {ev : Event} (task : s.task = .records (some ev))
      (returned : s.loop.finalFlush.isSome) :
      PipelineMove serde s .sendRecord
        { s with task := .selecting, undelivered := s.undelivered ++ [.discovery ev] }
  | flowTick (task : s.task = .selecting) :
      PipelineMove serde s .flowTick { s with task := .reading s.kernel.flows.keys [] }
  | readEntry {key : FlowKey} {stats : FlowStats} {unread : Finset FlowKey} {out : Snapshot}
      (task : s.task = .reading unread out) (entry : s.kernel.flows.lookup key = some stats)
      (new : key ∉ out.map Prod.fst) :
      PipelineMove serde s (.readEntry key)
        { s with task := .reading (unread.erase key) (out ++ [(key, stats)]) }
  | endEmpty (task : s.task = .reading ∅ []) :
      PipelineMove serde s .endRead { s with task := .selecting }
  | endRead {out : Snapshot} (task : s.task = .reading ∅ out) (some : out ≠ []) :
      PipelineMove serde s .endRead { s with task := .removing (out.map Prod.fst) out }
  | removeEntry {key : FlowKey} {todo : List FlowKey} {out : Snapshot}
      (task : s.task = .removing (key :: todo) out) :
      PipelineMove serde s .removeEntry { s with
        kernel := { s.kernel with flows := s.kernel.flows.erase key }
        task := .removing todo out }
  | endRemove {out : Snapshot} (task : s.task = .removing [] out) :
      PipelineMove serde s .endRemove { s with task := .sending out }
  | sendFlows {out : Snapshot} {loop : LoopState} (task : s.task = .sending out)
      (running : s.loop.finalFlush = none)
      (send : loopStep serde s.loop (.send (.flows out)) = some loop) :
      PipelineMove serde s .sendFlows { s with loop := loop, task := .selecting }
  | dropFlows {out : Snapshot} (task : s.task = .sending out)
      (returned : s.loop.finalFlush.isSome) :
      PipelineMove serde s .sendFlows
        (stopTask { s with undelivered := s.undelivered ++ [.flows out] })
  | stopBackend (task : s.task = .selecting) (signalled : s.loop.signalled = true) :
      PipelineMove serde s .stopBackend (stopTask s)
  | loop {step : LoopStep} {loop : LoopState} (own : step.Own)
      (move : loopStep serde s.loop step = some loop) :
      PipelineMove serde s (.loop step) { s with loop := loop }

theorem pipelineMove_of_pipelineStep {serde : Serde} {s t : Pipeline} {step : PipelineStep}
    (h : pipelineStep serde s step = some t) : PipelineMove serde s step t := by
  cases step with
  | kernel step =>
      obtain ⟨kernel, hmove, rfl⟩ := Option.map_eq_some_iff.mp h
      exact .kernel hmove
  | readable =>
      simp only [pipelineStep] at h
      split at h
      · next htask =>
        obtain rfl := Option.some.inj h
        exact .readable htask
      · exact absurd h (by simp)
  | takeRecord =>
      simp only [pipelineStep] at h
      split at h
      · next ev htask hring =>
        obtain rfl := Option.some.inj h
        exact .takeRecord htask hring
      · exact absurd h (by simp)
  | ringEmpty =>
      simp only [pipelineStep] at h
      split at h
      · next htask hring =>
        obtain rfl := Option.some.inj h
        exact .ringEmpty htask hring
      · exact absurd h (by simp)
  | sendRecord =>
      simp only [pipelineStep] at h
      split at h
      · next ev htask =>
        split_ifs at h with hreturned
        · obtain rfl := Option.some.inj h
          exact .dropRecord htask hreturned
        · obtain ⟨loop, hsend, rfl⟩ := Option.map_eq_some_iff.mp h
          exact .sendRecord htask (by simpa using hreturned) hsend
      · exact absurd h (by simp)
  | flowTick =>
      simp only [pipelineStep] at h
      split at h
      · next htask =>
        obtain rfl := Option.some.inj h
        exact .flowTick htask
      · exact absurd h (by simp)
  | readEntry key =>
      simp only [pipelineStep] at h
      split at h
      · next unread out stats htask hentry =>
        split_ifs at h with hnew
        obtain rfl := Option.some.inj h
        exact .readEntry htask hentry hnew
      · exact absurd h (by simp)
  | endRead =>
      simp only [pipelineStep] at h
      split at h
      · next unread out htask =>
        split_ifs at h with hunread hout
        · obtain rfl := Option.some.inj h
          obtain rfl := not_not.mp hunread
          subst out
          exact .endEmpty htask
        · obtain rfl := Option.some.inj h
          obtain rfl := not_not.mp hunread
          exact .endRead htask hout
      · exact absurd h (by simp)
  | removeEntry =>
      simp only [pipelineStep] at h
      split at h
      · next key todo out htask =>
        obtain rfl := Option.some.inj h
        exact .removeEntry htask
      · exact absurd h (by simp)
  | endRemove =>
      simp only [pipelineStep] at h
      split at h
      · next out htask =>
        obtain rfl := Option.some.inj h
        exact .endRemove htask
      · exact absurd h (by simp)
  | sendFlows =>
      simp only [pipelineStep] at h
      split at h
      · next out htask =>
        split_ifs at h with hreturned
        · obtain rfl := Option.some.inj h
          exact .dropFlows htask hreturned
        · obtain ⟨loop, hsend, rfl⟩ := Option.map_eq_some_iff.mp h
          exact .sendFlows htask (by simpa using hreturned) hsend
      · exact absurd h (by simp)
  | stopBackend =>
      simp only [pipelineStep] at h
      split at h
      · next htask =>
        split_ifs at h with hsignalled
        obtain rfl := Option.some.inj h
        exact .stopBackend htask hsignalled
      · exact absurd h (by simp)
  | loop step =>
      simp only [pipelineStep] at h
      split at h
      · exact absurd h (by simp)
      · exact absurd h (by simp)
      all_goals
        obtain ⟨loop, hmove, rfl⟩ := Option.map_eq_some_iff.mp h
        exact .loop trivial hmove

end Lanscope
