import Lanscope.App.Shutdown

/-!
# The process

`run` opens the store, seeds the registry, installs the metrics exporter if it is asked to, and
selects a backend. It returns the error of the first of these that fails. Then it starts the backend,
the capture loop and, unless it is headless, the terminal interface, and waits for the three of them
in turn. They learn from one flag that they are to stop; the signal handler sets it, and so does the
terminal interface on its way out. If the latter fails, `run` returns its error at once and the
process exits with the loop still in place.
-/

namespace Lanscope

open Framework

/-- The thread of the terminal interface. -/
inductive TuiThread
  | running
  | ended
  /-- It could not set the terminal up, draw, or put it back. -/
  | failed
  deriving DecidableEq

/-- Where `run` stands. -/
inductive RunTask
  | awaitTui
  | awaitCapture
  | awaitBackend
  | returned
  /-- It returned an error. -/
  | fatal
  deriving DecidableEq

structure Process where
  pipeline : Pipeline
  tui : TuiThread
  run : RunTask

def Process.spawned (agent : Agent) (store : SqliteStore) (headless : Bool) : Process where
  pipeline := Pipeline.spawned agent store
  tui := if headless then .ended else .running
  run := if headless then .awaitCapture else .awaitTui

inductive ProcessStep
  | pipeline (step : PipelineStep)
  /-- The signal handler passes an interrupt on. -/
  | interrupt
  /-- The user leaves the terminal interface. -/
  | quit
  /-- The terminal interface learns that the others are to stop, or have stopped. -/
  | notice
  /-- It fails, with or without setting the flag first. -/
  | fail (sent : Bool)
  /-- `run` has waited for one of the three. -/
  | next

def shutdownSent (s : Process) : Process :=
  { s with pipeline := { s.pipeline with loop := { s.pipeline.loop with signalled := true } } }

def BackendTask.isStopped : BackendTask → Bool
  | .stopped => true
  | .selecting | .records _ | .reading _ _ | .removing _ _ | .sending _ => false

/-- Nobody receives the flag any more. -/
def flagClosed (s : Process) : Bool :=
  s.pipeline.loop.finalFlush.isSome && s.pipeline.task.isStopped

/-- Nothing goes on once `run` has returned. -/
def Process.exited (s : Process) : Prop := s.run = .returned ∨ s.run = .fatal

instance (s : Process) : Decidable s.exited := inferInstanceAs (Decidable (_ ∨ _))

def processStep (serde : Serde) (s : Process) (step : ProcessStep) : Option Process :=
  if s.exited then none
  else match step with
  | .pipeline (.loop .signal) => none
  | .pipeline step => (pipelineStep serde s.pipeline step).map fun pipeline =>
      { s with pipeline := pipeline }
  | .interrupt => some (shutdownSent s)
  | .quit => if s.tui = .running then some { shutdownSent s with tui := .ended } else none
  | .notice =>
    if s.tui = .running ∧ (s.pipeline.loop.signalled ∨ flagClosed s) then
      some { shutdownSent s with tui := .ended }
    else none
  | .fail sent =>
    if s.tui = .running then some { (if sent then shutdownSent s else s) with tui := .failed }
    else none
  | .next =>
    match s.run, s.tui with
    | .awaitTui, .ended => some { shutdownSent s with run := .awaitCapture }
    | .awaitTui, .failed => some { s with run := .fatal }
    | .awaitCapture, _ =>
      if s.pipeline.loop.finalFlush.isSome then some { s with run := .awaitBackend } else none
    | .awaitBackend, _ => if s.pipeline.task.isStopped then some { s with run := .returned } else none
    | _, _ => none

/-- A step of the process, as steps of the pipeline. -/
def pipelineSteps (s : Process) : ProcessStep → List PipelineStep
  | .pipeline step => [step]
  | .interrupt | .quit | .notice => [.loop .signal]
  | .fail sent => if sent then [.loop .signal] else []
  | .next => if s.run = .awaitTui ∧ s.tui = .ended then [.loop .signal] else []

/-- What a step needs and does. -/
inductive ProcessMove (serde : Serde) (s : Process) : ProcessStep → Process → Prop
  | pipeline {step : PipelineStep} {pipeline : Pipeline}
      (move : pipelineStep serde s.pipeline step = some pipeline) :
      ProcessMove serde s (.pipeline step) { s with pipeline := pipeline }
  | interrupt : ProcessMove serde s .interrupt (shutdownSent s)
  | quit (tui : s.tui = .running) : ProcessMove serde s .quit { shutdownSent s with tui := .ended }
  | notice (tui : s.tui = .running) :
      ProcessMove serde s .notice { shutdownSent s with tui := .ended }
  | failSent (tui : s.tui = .running) :
      ProcessMove serde s (.fail true) { shutdownSent s with tui := .failed }
  | fail (tui : s.tui = .running) : ProcessMove serde s (.fail false) { s with tui := .failed }
  | tuiEnded (run : s.run = .awaitTui) (tui : s.tui = .ended) :
      ProcessMove serde s .next { shutdownSent s with run := .awaitCapture }
  | tuiFailed (run : s.run = .awaitTui) (tui : s.tui = .failed) :
      ProcessMove serde s .next { s with run := .fatal }
  | captured (run : s.run = .awaitCapture) (flush : s.pipeline.loop.finalFlush.isSome) :
      ProcessMove serde s .next { s with run := .awaitBackend }
  | stopped (run : s.run = .awaitBackend) (task : s.pipeline.task.isStopped) :
      ProcessMove serde s .next { s with run := .returned }

theorem processMove_of_processStep {serde : Serde} {s t : Process} {step : ProcessStep}
    (h : processStep serde s step = some t) : ¬ s.exited ∧ ProcessMove serde s step t := by
  obtain ⟨hexited, h⟩ := Option.ite_none_left_eq_some.mp h
  refine ⟨hexited, ?_⟩
  split at h
  · exact absurd h (by simp)
  · obtain ⟨pipeline, hmove, rfl⟩ := Option.map_eq_some_iff.mp h
    exact .pipeline hmove
  · obtain rfl := Option.some.inj h
    exact .interrupt
  · obtain ⟨htui, hsome⟩ := Option.ite_none_right_eq_some.mp h
    obtain rfl := Option.some.inj hsome
    exact .quit htui
  · obtain ⟨hready, hsome⟩ := Option.ite_none_right_eq_some.mp h
    obtain rfl := Option.some.inj hsome
    exact .notice hready.1
  · next sent _ =>
    obtain ⟨htui, hsome⟩ := Option.ite_none_right_eq_some.mp h
    obtain rfl := Option.some.inj hsome
    cases sent with
    | true => exact .failSent htui
    | false => exact .fail htui
  · split at h
    · next hrun htui =>
      obtain rfl := Option.some.inj h
      exact .tuiEnded hrun htui
    · next hrun htui =>
      obtain rfl := Option.some.inj h
      exact .tuiFailed hrun htui
    · next hrun =>
      obtain ⟨hflush, hsome⟩ := Option.ite_none_right_eq_some.mp h
      obtain rfl := Option.some.inj hsome
      exact .captured hrun hflush
    · next hrun =>
      obtain ⟨htask, hsome⟩ := Option.ite_none_right_eq_some.mp h
      obtain rfl := Option.some.inj hsome
      exact .stopped hrun htask
    · exact absurd h (by simp)

/-! ## Runs -/

section Runs

variable {serde : Serde} {agent : Agent} {store : SqliteStore} {headless : Bool}
  {steps : List ProcessStep} {s : Process}

/-- The pipeline of a run of the process is a run of the pipeline. -/
theorem exec_pipeline
    (hrun : exec (processStep serde) (Process.spawned agent store headless) steps = some s) :
    ∃ labels, exec (pipelineStep serde) (Pipeline.spawned agent store) labels = some s.pipeline := by
  have hstep (s : Process) (p : Pipeline) (step : ProcessStep) (t : Process) (hs : s.pipeline = p)
      (h : processStep serde s step = some t) :
      ∃ q, exec (pipelineStep serde) p (pipelineSteps s step) = some q ∧ t.pipeline = q := by
    subst p
    refine ⟨t.pipeline, ?_, rfl⟩
    cases (processMove_of_processStep h).2 with
    | pipeline move => exact exec_cons_iff.mpr ⟨_, move, rfl⟩
    | interrupt | quit | notice | failSent => rfl
    | fail => rfl
    | tuiEnded run tui =>
        rw [pipelineSteps, if_pos ⟨run, tui⟩]
        rfl
    | tuiFailed run tui => simp [pipelineSteps, tui]
    | captured run | stopped run => simp [pipelineSteps, run]
  obtain ⟨pipeline, hpipeline, hs⟩ := exec_simulation hstep rfl hrun
  exact ⟨_, hs ▸ hpipeline⟩

/-- What has ended stays ended. -/
theorem ended_pipelineStep {s t : Pipeline} {step : PipelineStep}
    (h : pipelineStep serde s step = some t) :
    (s.loop.finalFlush.isSome → t.loop.finalFlush.isSome) ∧
      (s.task.isStopped → t.task.isStopped) := by
  cases pipelineMove_of_pipelineStep h with
  | kernel move => exact ⟨id, id⟩
  | loop own move =>
      obtain ⟨_, _, hflush⟩ := loopStep_own own move
      refine ⟨fun hsome => ?_, id⟩
      by_contra hnone
      simp [hflush (by simpa using hnone)] at hsome
  | sendRecord task running | sendFlows task running =>
      exact ⟨fun hsome => by simp [running] at hsome, fun hstopped => by
        simp [task, BackendTask.isStopped] at hstopped⟩
  | readable task | takeRecord task | ringEmpty task | dropRecord task | flowTick task
  | readEntry task | endEmpty task | endRead task | removeEntry task | endRemove task =>
      exact ⟨id, fun hstopped => by simp [task, BackendTask.isStopped] at hstopped⟩
  | dropFlows task | stopBackend task => exact ⟨id, fun _ => rfl⟩

/-- Where the components stand, by what `run` waits for. -/
structure ProcessOk (s : Process) : Prop where
  tui : s.run ≠ .awaitTui → s.run ≠ .fatal → s.tui = .ended
  fatal : s.run = .fatal → s.tui = .failed
  flush : s.run = .awaitBackend ∨ s.run = .returned → s.pipeline.loop.finalFlush.isSome
  task : s.run = .returned → s.pipeline.task.isStopped

theorem processOk_spawned (agent : Agent) (store : SqliteStore) (headless : Bool) :
    ProcessOk (Process.spawned agent store headless) := by
  cases headless <;> constructor <;> simp [Process.spawned]

theorem processOk_step (s : Process) (step : ProcessStep) (t : Process) (hs : ProcessOk s)
    (h : processStep serde s step = some t) : ProcessOk t := by
  obtain ⟨hexited, hmove⟩ := processMove_of_processStep h
  have hrunning : s.run ≠ .returned ∧ s.run ≠ .fatal := not_or.mp hexited
  cases hmove with
  | pipeline move =>
      obtain ⟨hflush, htask⟩ := ended_pipelineStep move
      exact ⟨hs.tui, hs.fatal, fun hrun => hflush (hs.flush hrun), fun hrun => htask (hs.task hrun)⟩
  | interrupt => exact ⟨hs.tui, hs.fatal, hs.flush, hs.task⟩
  | quit tui | notice tui =>
      exact ⟨fun _ _ => rfl, fun hfatal => absurd hfatal hrunning.2, hs.flush, hs.task⟩
  | failSent tui | fail tui =>
      refine ⟨fun hrun _ => ?_, fun _ => rfl, hs.flush, hs.task⟩
      have hended := hs.tui hrun hrunning.2
      simp [tui] at hended
  | tuiEnded run tui => constructor <;> simp [shutdownSent, tui]
  | tuiFailed run tui => constructor <;> simp [tui]
  | captured run flush =>
      have hended := hs.tui (by simp [run]) hrunning.2
      constructor <;> simp [flush, hended]
  | stopped run task =>
      have hended := hs.tui (by simp [run]) hrunning.2
      have hflush := hs.flush (Or.inl run)
      constructor <;> simp [task, hended, hflush]

end Runs

/-! ## The way out -/

/-- The process's own steps on its way out. No frame arrives and the user does nothing. -/
def ProcessStep.Finishes : ProcessStep → Prop
  | .pipeline step => step.Finishes
  | .notice | .next => True
  | .interrupt | .quit | .fail _ => False

/-- The process can return in so many steps of its own, with the registry as it is. -/
def WindsUp (serde : Serde) (bound : Nat) (s : Process) : Prop :=
  ∃ more t, more.length ≤ bound ∧ (∀ step ∈ more, ProcessStep.Finishes step) ∧
    exec (processStep serde) s more = some t ∧ t.run = .returned ∧
      t.pipeline.loop.agent = s.pipeline.loop.agent

private theorem windsUp_cons {serde : Serde} {s m : Process} {step : ProcessStep} {bound : Nat}
    (hstep : processStep serde s step = some m) (hfinishes : step.Finishes)
    (hagent : m.pipeline.loop.agent = s.pipeline.loop.agent) (hm : WindsUp serde bound m) :
    WindsUp serde (bound + 1) s := by
  obtain ⟨more, t, hlen, hall, hmore, hrun, ht⟩ := hm
  refine ⟨step :: more, t, ?_, ?_, exec_cons_iff.mpr ⟨m, hstep, hmore⟩, hrun, ht.trans hagent⟩
  · rw [List.length_cons]
    omega
  · intro p hp
    cases List.mem_cons.mp hp with
    | inl h => exact h ▸ hfinishes
    | inr h => exact hall p h

private theorem windsUp_awaitBackend (serde : Serde) {s : Process} (hrun : s.run = .awaitBackend)
    (htask : s.pipeline.task.isStopped) : WindsUp serde 1 s := by
  have hstep : processStep serde s .next = some { s with run := .returned } := by
    simp [processStep, Process.exited, hrun, htask]
  exact windsUp_cons hstep trivial rfl ⟨[], _, Nat.zero_le _, by simp, rfl, rfl, rfl⟩

private theorem windsUp_awaitCapture (serde : Serde) {s : Process} (hrun : s.run = .awaitCapture)
    (hflush : s.pipeline.loop.finalFlush.isSome) (htask : s.pipeline.task.isStopped) :
    WindsUp serde 2 s := by
  have hstep : processStep serde s .next = some { s with run := .awaitBackend } := by
    simp [processStep, Process.exited, hrun, hflush]
  exact windsUp_cons hstep trivial rfl (windsUp_awaitBackend serde rfl htask)

private theorem windsUp_awaitTui (serde : Serde) {s : Process} (hrun : s.run = .awaitTui)
    (htui : s.tui = .ended) (hflush : s.pipeline.loop.finalFlush.isSome)
    (htask : s.pipeline.task.isStopped) : WindsUp serde 3 s := by
  have hstep : processStep serde s .next = some { shutdownSent s with run := .awaitCapture } := by
    simp [processStep, Process.exited, hrun, htui]
  exact windsUp_cons hstep trivial rfl (windsUp_awaitCapture serde rfl hflush htask)

/-- Once the loop and the backend have ended, so can `run`. -/
private theorem windsUp_ended (serde : Serde) {s : Process} (hs : ProcessOk s)
    (hreturned : s.run ≠ .returned) (htui : s.tui ≠ .failed)
    (hflush : s.pipeline.loop.finalFlush.isSome) (htask : s.pipeline.task.isStopped) :
    WindsUp serde 4 s := by
  have hmono {n : Nat} (hn : n ≤ 4) (h : WindsUp serde n s) : WindsUp serde 4 s := by
    obtain ⟨more, t, hlen, hrest⟩ := h
    exact ⟨more, t, hlen.trans hn, hrest⟩
  cases hrun : s.run with
  | returned => exact absurd hrun hreturned
  | fatal => exact absurd (hs.fatal hrun) htui
  | awaitBackend => exact hmono (by omega) (windsUp_awaitBackend serde hrun htask)
  | awaitCapture => exact hmono (by omega) (windsUp_awaitCapture serde hrun hflush htask)
  | awaitTui =>
      cases hthread : s.tui with
      | failed => exact absurd hthread htui
      | ended => exact hmono (by omega) (windsUp_awaitTui serde hrun hthread hflush htask)
      | running =>
          have hstep : processStep serde s .notice = some { shutdownSent s with tui := .ended } := by
            simp [processStep, Process.exited, hrun, hthread, flagClosed, hflush, htask]
          exact windsUp_cons hstep trivial rfl (windsUp_awaitTui serde hrun rfl hflush htask)

private theorem processStep_pipeline (serde : Serde) {s : Process} (hexited : ¬ s.exited)
    {step : PipelineStep} (hfinishes : step.Finishes) :
    processStep serde s (.pipeline step) =
      (pipelineStep serde s.pipeline step).map fun pipeline => { s with pipeline := pipeline } := by
  rw [processStep, if_neg hexited]
  rintro rfl
  exact absurd hfinishes (by simp [PipelineStep.Finishes, PipelineStep.inTurn])

private theorem exec_lift (serde : Serde) {more : List PipelineStep} {s : Process}
    {pipeline : Pipeline} (hexited : ¬ s.exited) (hfinishes : ∀ step ∈ more, step.Finishes)
    (h : exec (pipelineStep serde) s.pipeline more = some pipeline) :
    exec (processStep serde) s (more.map .pipeline) = some { s with pipeline := pipeline } := by
  induction more generalizing s with
  | nil =>
      obtain rfl := Option.some.inj h
      rfl
  | cons step more ih =>
      obtain ⟨m, hm, hrest⟩ := exec_cons_iff.mp h
      have hstep := processStep_pipeline serde hexited (hfinishes step List.mem_cons_self)
      rw [hm, Option.map_some] at hstep
      exact exec_cons_iff.mpr ⟨_, hstep, ih (s := { s with pipeline := m }) hexited
        (fun p hp => hfinishes p (List.mem_cons_of_mem _ hp)) hrest⟩

/-- Once the tasks are spawned, `run` returns without an error only after the loop has flushed
all devices a last time and the backend has stopped, and with one only if the terminal interface has
failed. After a shutdown signal it can otherwise always return, in a bounded number of steps that
need neither a frame nor the user. -/
theorem process_returns (serde : Serde) (agent : Agent) (store : SqliteStore) (headless : Bool)
    (steps : List ProcessStep) (s : Process)
    (hrun : exec (processStep serde) (Process.spawned agent store headless) steps = some s)
    (answers : List StoreWrite → List Bool)
    (hanswers : ∀ writes, (answers writes).length = writes.length) :
    (s.run = .returned → s.tui = .ended ∧ s.pipeline.task.isStopped ∧
      ∃ order, s.pipeline.loop.agent.registry.devices.IterOrder order ∧
        s.pipeline.loop.finalFlush = some (flushAll order s.pipeline.loop.agent.registry)) ∧
    (s.run = .fatal → s.tui = .failed) ∧
    (s.run ≠ .returned → s.tui ≠ .failed → s.pipeline.loop.signalled = true →
      WindsUp serde (turnBound + 6) s) := by
  have hs := exec_invariant processOk_step (processOk_spawned agent store headless) hrun
  obtain ⟨labels, hlabels⟩ := exec_pipeline hrun
  refine ⟨fun hreturned => ?_, hs.fatal, fun hreturned htui hsignalled => ?_⟩
  · have hloop := exec_invariant (loopOk_step agent) (loopOk_spawned agent store) (exec_loop hlabels)
    obtain ⟨writes, hwrites⟩ := Option.isSome_iff_exists.mp (hs.flush (Or.inr hreturned))
    obtain ⟨order, horder, rfl⟩ := hloop.flush writes hwrites
    exact ⟨hs.tui (by simp [hreturned]) (by simp [hreturned]), hs.task hreturned, order, horder,
      hwrites⟩
  · obtain ⟨more, pipeline, hlen, hfinishes, hmore, htask, hflush, hagent, _⟩ :=
      exec_finishes serde hlabels hsignalled answers hanswers
    have hexited : ¬ s.exited := not_or.mpr ⟨hreturned, fun hfatal => htui (hs.fatal hfatal)⟩
    have hlifted := exec_lift serde hexited hfinishes hmore
    have hm := exec_invariant processOk_step hs hlifted
    obtain ⟨rest, t, hrest, hall, hexec, ht, hsame⟩ :=
      windsUp_ended serde hm hreturned htui hflush (by rw [htask]; rfl)
    refine ⟨more.map .pipeline ++ rest, t, ?_, ?_, exec_append_iff.mpr ⟨_, hlifted, hexec⟩, ht,
      hsame.trans hagent⟩
    · rw [List.length_append, List.length_map]
      omega
    · intro step hstep
      cases List.mem_append.mp hstep with
      | inl h =>
          obtain ⟨p, hp, rfl⟩ := List.mem_map.mp h
          exact hfinishes p hp
      | inr h => exact hall step h

/-! ## The whole of `run` -/

/-- What `run` meets before it spawns its tasks. -/
structure StartUp where
  /-- The store, if it can be opened. -/
  store : Option SqliteStore
  /-- The order in which its rows are loaded, if they can be. -/
  rows : Option (List Str)
  rows_order : ∀ s ∈ store, ∀ order ∈ rows, s.devices.IterOrder order
  /-- Whether the exporter can listen, where the metrics are asked for. -/
  metrics : Option Bool
  /-- Whether there is a backend. The portable one always is, but `run` does not know that. -/
  backend : Bool
  headless : Bool

inductive StartError
  | openStore
  | seedRegistry
  | installExporter
  | selectBackend
  deriving DecidableEq

/-- `run` up to where its tasks are spawned. -/
def startUp (serde : Serde) (env : StartUp) : Except StartError Process := do
  let store ← env.store.elim (.error .openStore) .ok
  let rows ← env.rows.elim (.error .seedRegistry) .ok
  if env.metrics = some false then .error .installExporter
  if env.backend = false then .error .selectBackend
  return Process.spawned (started serde store rows) store env.headless

/-- The operation that the error comes from has failed. -/
def StartUp.Fails (env : StartUp) : StartError → Prop
  | .openStore => env.store = none
  | .seedRegistry => env.rows = none
  | .installExporter => env.metrics = some false
  | .selectBackend => env.backend = false

inductive RunError
  | start (e : StartError)
  | terminal
  deriving DecidableEq

/-- What `run` has returned, if it has. -/
def runResult : Except StartError Process → Option (Except RunError Unit)
  | .error e => some (.error (.start e))
  | .ok s =>
    match s.run with
    | .awaitTui | .awaitCapture | .awaitBackend => none
    | .returned => some (.ok ())
    | .fatal => some (.error .terminal)

/-- After an error in the start-up there is nothing to take a step. -/
def runStep (serde : Serde) (r : Except StartError Process) (step : ProcessStep) :
    Option (Except StartError Process) :=
  match r with
  | .error _ => none
  | .ok s => (processStep serde s step).map .ok

theorem startUp_cases (serde : Serde) (env : StartUp) :
    (∃ e, startUp serde env = .error e ∧ env.Fails e) ∨
    ∃ store ∈ env.store, ∃ rows ∈ env.rows, store.devices.IterOrder rows ∧
      startUp serde env =
        .ok (Process.spawned (started serde store rows) store env.headless) := by
  obtain ⟨store, rows, horder, metrics, backend, headless⟩ := env
  cases store with
  | none => exact Or.inl ⟨.openStore, rfl, rfl⟩
  | some store =>
      cases rows with
      | none => exact Or.inl ⟨.seedRegistry, rfl, rfl⟩
      | some rows =>
          by_cases hmetrics : metrics = some false
          · subst metrics
            exact Or.inl ⟨.installExporter, rfl, rfl⟩
          · cases backend with
            | false =>
                refine Or.inl ⟨.selectBackend, ?_, rfl⟩
                simp only [startUp, hmetrics, if_false]
                rfl
            | true =>
                refine Or.inr ⟨store, rfl, rows, rfl, horder store rfl rows rfl, ?_⟩
                simp only [startUp, hmetrics, if_false]
                rfl

section Whole

variable {serde : Serde} {steps : List ProcessStep} {r : Except StartError Process}

private theorem exec_runStep_ok {p : Process}
    (h : exec (runStep serde) (.ok p) steps = some r) :
    ∃ s, r = .ok s ∧ exec (processStep serde) p steps = some s := by
  induction steps generalizing p with
  | nil => exact ⟨p, (Option.some.inj h).symm, rfl⟩
  | cons step steps ih =>
      obtain ⟨m, hm, hrest⟩ := exec_cons_iff.mp h
      obtain ⟨q, hq, rfl⟩ := Option.map_eq_some_iff.mp hm
      obtain ⟨s, hs, hexec⟩ := ih hrest
      exact ⟨s, hs, exec_cons_iff.mpr ⟨q, hq, hexec⟩⟩

private theorem exec_runStep_error {e : StartError}
    (h : exec (runStep serde) (.error e) steps = some r) : r = .error e ∧ steps = [] := by
  cases steps with
  | nil => exact ⟨(Option.some.inj h).symm, rfl⟩
  | cons step steps =>
      obtain ⟨m, hm, _⟩ := exec_cons_iff.mp h
      exact absurd hm.symm (Option.some_ne_none m)

end Whole

/-- Whatever happens in whatever order, `run` returns without an error only after the loop has flushed
all devices a last time and the backend has stopped, and with one only if an operation of the start-up
has failed, before anything was spawned, or the terminal interface has. After a shutdown signal it can
otherwise always return, in a bounded number of steps that need neither a frame nor the user. -/
theorem run_returns (serde : Serde) (env : StartUp) (steps : List ProcessStep)
    (r : Except StartError Process) (hrun : exec (runStep serde) (startUp serde env) steps = some r)
    (answers : List StoreWrite → List Bool)
    (hanswers : ∀ writes, (answers writes).length = writes.length) :
    (runResult r = some (.ok ()) → ∃ s, r = .ok s ∧ s.tui = .ended ∧ s.pipeline.task.isStopped ∧
      ∃ order, s.pipeline.loop.agent.registry.devices.IterOrder order ∧
        s.pipeline.loop.finalFlush = some (flushAll order s.pipeline.loop.agent.registry)) ∧
    (∀ e, runResult r = some (.error e) → (∃ f, e = .start f ∧ env.Fails f ∧ steps = []) ∨
      (e = .terminal ∧ ∃ s, r = .ok s ∧ s.tui = .failed)) ∧
    (∀ s, r = .ok s → s.run ≠ .returned → s.tui ≠ .failed → s.pipeline.loop.signalled = true →
      WindsUp serde (turnBound + 6) s) := by
  rcases startUp_cases serde env with ⟨f, hstart, hfails⟩ | ⟨store, _, rows, _, _, hstart⟩
  · rw [hstart] at hrun
    obtain ⟨rfl, hnone⟩ := exec_runStep_error hrun
    refine ⟨fun h => absurd h (by simp [runResult]), fun e h => ?_, fun s h => absurd h (by simp)⟩
    obtain rfl := Except.error.inj (Option.some.inj h)
    exact Or.inl ⟨f, rfl, hfails, hnone⟩
  · rw [hstart] at hrun
    obtain ⟨s, rfl, hexec⟩ := exec_runStep_ok hrun
    obtain ⟨hreturned, hfatal, hwinds⟩ :=
      process_returns serde _ store env.headless steps s hexec answers hanswers
    refine ⟨fun h => ⟨s, rfl, hreturned ?_⟩, fun e h => ?_, fun s' hs => ?_⟩
    · cases hs : s.run <;> simp [runResult, hs] at h ⊢
    · cases hs : s.run <;> simp [runResult, hs] at h
      exact Or.inr ⟨h.symm, s, rfl, hfatal hs⟩
    · obtain rfl := Except.ok.inj hs
      exact hwinds

/-- The user leaves while the backend reads the table. -/
def leftRun : List ProcessStep :=
  [.pipeline (.kernel (.frame pingFrame freeSlots)), .pipeline .flowTick,
    .pipeline (.readEntry pingFlow), .quit]

/-- An empty store, metrics, and a terminal interface. -/
def firstStart : StartUp where
  store := some SqliteStore.empty
  rows := some []
  rows_order s hs order horder := by
    obtain rfl := Option.some.inj hs
    obtain rfl := Option.some.inj horder
    decide
  metrics := some true
  backend := true
  headless := false

theorem run_returns_leftRun :
    ∃ s, exec (runStep jsonSerde) (startUp jsonSerde firstStart) leftRun = some (.ok s) ∧
      WindsUp jsonSerde (turnBound + 6) s := by
  obtain ⟨s, hrun, hreturned, htui, hsignalled⟩ : ∃ s,
      exec (runStep jsonSerde) (startUp jsonSerde firstStart) leftRun = some (.ok s) ∧
        s.run ≠ .returned ∧ s.tui ≠ .failed ∧ s.pipeline.loop.signalled = true :=
    ⟨_, rfl, by decide, by decide, rfl⟩
  have hreturns := run_returns jsonSerde firstStart leftRun _ hrun
    (fun writes => writes.map fun _ => true) (fun _ => List.length_map _)
  exact ⟨s, hrun, hreturns.2.2 s rfl hreturned htui hsignalled⟩

-- a terminal interface that fails ends the process before the last flush
example : (exec (processStep jsonSerde) (Process.spawned Agent.initial SqliteStore.empty false)
    [.fail true, .next]).map (fun s => (s.run, s.pipeline.loop.finalFlush.isSome)) =
      some (.fatal, false) := rfl

end Lanscope
