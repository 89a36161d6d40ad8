import Udplb.Lifecycle

/-!
# Starting and stopping the controller

`Run` attaches the XDP program, then starts the manager of the data structures
and the health monitor, and stops at the first error; nothing is undone then.
`Close` stops them in reverse.  The program closes the manager as well, which by
then is not running, so that this error is always among those returned.

A call of a method is one event, with the outcomes of what it depends on outside:
attaching to the interface, subscribing to the ring buffer, applying the first
objects, closing the link and the objects, and whether a loop ends within the time
that a close waits for it.  The loops go on between the calls: they end late, and the
loop of the manager closes the manager itself when the ring buffer is closed.
-/

namespace Udplb.Controller.Teardown

open Udplb.Foundation Udplb.Lifecycle

inductive Err where
  | runnable (err : Lifecycle.Err)
  | attach
  | subscribe
  | apply
  | linkClose
  | objsClose
  deriving DecidableEq, Repr

/-- A call that never returns, or a panic. -/
inductive Stop where
  | method (stop : Lifecycle.Stop)
  | closeOfClosedChannel
  | sendOnClosedChannel
  deriving DecidableEq, Repr

/-- `running` is never reset; the link is open as long as the program is attached. -/
structure Program where
  running : Bool
  attached : Bool
  doneCh : Bool
  deriving DecidableEq, Repr

/-- The manager or the monitor, and whether its loop is still there. -/
structure Worker where
  runnable : Runnable
  loop : Bool
  deriving DecidableEq, Repr

inductive Part where
  | manager
  | monitor
  deriving DecidableEq, Repr

/-- What the controller starts and stops. -/
structure Parts where
  program : Program
  manager : Worker
  monitor : Worker
  /-- `healthCancel` closes a channel of the watcher. -/
  healthCancelled : Bool
  deriving DecidableEq, Repr

def Parts.new : Parts := ⟨⟨false, false, false⟩, ⟨.new, false⟩, ⟨.new, false⟩, false⟩

def Parts.worker (parts : Parts) : Part → Worker
  | .manager => parts.manager
  | .monitor => parts.monitor

def Parts.put (parts : Parts) : Part → Worker → Parts
  | .manager, worker => { parts with manager := worker }
  | .monitor, worker => { parts with monitor := worker }

abbrev PartsM := StateT Parts (Except Stop)

def on {α : Type} (part : Part) (method : MethodM α) : PartsM α := fun parts =>
  match method.run (parts.worker part).runnable with
  | .error stop => .error (.method stop)
  | .ok (result, runnable) =>
      .ok (result, parts.put part { parts.worker part with runnable := runnable })

def setLoop (part : Part) (loop : Bool) : PartsM Unit :=
  modify fun parts => parts.put part { parts.worker part with loop := loop }

/-! ## Run -/

structure RunOutcome where
  attaches : Bool
  subscribes : Bool
  applies : Bool
  deriving DecidableEq, Repr

def programRun (attaches : Bool) : PartsM (Option Err) := do
  if (← get).program.running then return none
  if !attaches then return some .attach
  modify fun parts => { parts with program := { parts.program with
    running := true, attached := true } }
  return none

/-- `Run` of the manager, which subscribes between its two locked sections. -/
def managerRun (subscribes : Bool) : MethodM (Option Err) := do
  lock
  if (← get).running then return some (.runnable .alreadyRunning)
  else if (← get).closed then return some (.runnable .cannotRunClosedRunnable)
  unlock
  if !subscribes then return some .subscribe
  lock
  setRunning
  unlock
  return none

/-- The rest of `Run`, from the start of the monitor on. -/
def monitorRun (applies : Bool) : PartsM (Option Err) := do
  if let some err ← on .monitor Component.backendState.run then return some (.runnable err)
  setLoop .monitor true
  if !applies then return some .apply
  return none

def controllerRun (outcome : RunOutcome) : PartsM (Option Err) := do
  if let some err ← programRun outcome.attaches then return some err
  if let some err ← on .manager (managerRun outcome.subscribes) then return some err
  setLoop .manager true
  monitorRun outcome.applies

/-! ## Close -/

structure CloseOutcome where
  /-- The loop of the monitor ends while `Close` waits for it. -/
  monitorEnds : Bool
  managerEnds : Bool
  linkCloses : Bool
  objsClose : Bool
  /-- Another goroutine sends on a channel that has been closed under it: the monitor in a
  dispatch, or a loop of the controller in a call of the manager. -/
  panics : Bool
  deriving DecidableEq, Repr

def CloseOutcome.ends (outcome : CloseOutcome) : Part → Bool
  | .manager => outcome.managerEnds
  | .monitor => outcome.monitorEnds

def healthCancel (panics : Bool) : PartsM Unit := do
  if (← get).healthCancelled then throw .closeOfClosedChannel
  modify ({ · with healthCancelled := true })
  -- the program ends, at which of the channels that are closed does not matter
  if panics then throw .sendOnClosedChannel

/-- After the wait the flags are set whether or not the loop has ended. -/
def closeWorker (part : Part) (close : Method) (ends : Bool) :
    PartsM (Option Lifecycle.Err) := do
  let err ← on part close
  if err = none ∧ ends then setLoop part false
  return err

def programClose (outcome : CloseOutcome) : PartsM (List Err) := do
  if !(← get).program.running then return []
  let propagated ← closeWorker .manager Component.dsManager.close outcome.managerEnds
  if (← get).program.doneCh then throw .closeOfClosedChannel
  modify fun parts => { parts with program := { parts.program with
    attached := parts.program.attached && !outcome.linkCloses, doneCh := true } }
  return (propagated.map Err.runnable).toList ++
    (if outcome.linkCloses then [] else [.linkClose]) ++
    (if outcome.objsClose then [] else [.objsClose])

/-- The errors are joined; none of them means nil. -/
def controllerClose (outcome : CloseOutcome) : PartsM (List Err) := do
  healthCancel outcome.panics
  let monitor ← closeWorker .monitor Component.backendState.close outcome.monitorEnds
  let manager ← closeWorker .manager Component.dsManager.close outcome.managerEnds
  let program ← programClose outcome
  return (monitor.map Err.runnable).toList ++ (manager.map Err.runnable).toList ++ program

/-! ## Calls one after the other, and the loops between them -/

inductive Event where
  | run (outcome : RunOutcome)
  | close (outcome : CloseOutcome)
  /-- A loop ends that a close has not waited for long enough. -/
  | ends (part : Part)
  /-- The ring buffer is closed, and the loop of the manager closes the manager. -/
  | fifoClosed (ends : Bool)
  deriving DecidableEq, Repr

inductive Result where
  | ran (err : Option Err)
  | closed (errs : List Err)
  deriving DecidableEq, Repr

/-- With the mutex held for good the goroutine that closes the manager waits for it; the loop
leaves all the same. -/
def fifoClosed (ends : Bool) : PartsM Unit := do
  let manager := (← get).manager
  if manager.loop then
    if manager.runnable.locked then setLoop .manager (!ends)
    else
      let _ ← closeWorker .manager Component.dsManager.close ends

def loopEnds (part : Part) : PartsM Unit := do
  if ((← get).worker part).runnable.closed then setLoop part false

def step (parts : Parts) : Event → Except Stop (Parts × List Result)
  | .run outcome => do
      let (err, parts) ← (controllerRun outcome).run parts
      .ok (parts, [.ran err])
  | .close outcome => do
      let (errs, parts) ← (controllerClose outcome).run parts
      .ok (parts, [.closed errs])
  | .ends part => do
      let (_, parts) ← (loopEnds part).run parts
      .ok (parts, [])
  | .fifoClosed ends => do
      let (_, parts) ← (fifoClosed ends).run parts
      .ok (parts, [])

def Result.isClosed : Result → Bool
  | .ran _ => false
  | .closed _ => true

/-- `Run` was refused, because the manager was running already or is closed. -/
def Result.isRefused : Result → Bool
  | .ran (some (.runnable _)) => true
  | _ => false

/-! ## The parts in their phases -/

def managerIn (phase : Phase) (locked : Bool) : Runnable :=
  { Component.dsManager.inPhase phase with locked := locked }

def monitorIn (phase : Phase) : Runnable := Component.backendState.inPhase phase

/-- The program is started first, then the manager, then the monitor. -/
structure Sound (manager monitor : Phase) (locked : Bool) (parts : Parts) : Prop where
  manager_eq : parts.manager.runnable = managerIn manager locked
  monitor_eq : parts.monitor.runnable = monitorIn monitor
  idle : manager = .idle → monitor = .idle
  running : monitor = .running → parts.program.running = true
  attached : parts.program.attached = true → parts.program.running = true
  doneCh : parts.program.doneCh = true → parts.healthCancelled = true

theorem sound_new : Sound .idle .idle false .new where
  manager_eq := rfl
  monitor_eq := rfl
  idle _ := rfl
  running h := by cases h
  attached h := by cases h
  doneCh h := by cases h

theorem Sound.putManager {manager monitor : Phase} {locked : Bool} {parts : Parts}
    (h : Sound manager monitor locked parts) (manager' : Phase)
    (hidle : manager' = .idle → manager = .idle) (locked' loop : Bool) :
    Sound manager' monitor locked' (parts.put .manager ⟨managerIn manager' locked', loop⟩) :=
  ⟨rfl, h.monitor_eq, fun hidle' => h.idle (hidle hidle'), h.running, h.attached, h.doneCh⟩

theorem Sound.putMonitor {manager monitor : Phase} {locked : Bool} {parts : Parts}
    (h : Sound manager monitor locked parts) (monitor' : Phase)
    (hidle : manager = .idle → monitor' = .idle)
    (hrunning : monitor' = .running → parts.program.running = true) (loop : Bool) :
    Sound manager monitor' locked (parts.put .monitor ⟨monitorIn monitor', loop⟩) :=
  ⟨h.manager_eq, rfl, hidle, hrunning, h.attached, h.doneCh⟩

section Methods

variable {α : Type} {part : Part} {parts : Parts}

theorem on_of_ok {method : MethodM α} {result : α} {runnable : Runnable}
    (h : method.run (parts.worker part).runnable = .ok (result, runnable)) :
    (on part method).run parts =
      .ok (result, parts.put part { parts.worker part with runnable := runnable }) := by
  rw [StateT.run, on]
  simp only [h]

theorem on_of_error {method : MethodM α} {stop : Lifecycle.Stop}
    (h : method.run (parts.worker part).runnable = .error stop) :
    (on part method).run parts = .error (.method stop) := by
  rw [StateT.run, on]
  simp only [h]

theorem closeWorker_of_ok {close : Method} {err : Option Lifecycle.Err} {runnable : Runnable}
    (h : close.run (parts.worker part).runnable = .ok (err, runnable)) (ends : Bool) :
    (closeWorker part close ends).run parts = .ok (err, parts.put part
      ⟨runnable, if err = none ∧ ends then false else (parts.worker part).loop⟩) := by
  rw [closeWorker, StateT.run_bind, on_of_ok h]
  by_cases hends : err = none ∧ ends = true
  · cases part <;> simp [hends.1, hends.2, setLoop, Parts.put, Parts.worker] <;> rfl
  · cases part <;> simp [hends, Parts.put, Parts.worker] <;> rfl

end Methods

theorem managerRun_locked (subscribes : Bool) (phase : Phase) :
    (managerRun subscribes).run (managerIn phase true) = .error .deadlock := by
  cases phase <;> rfl

theorem programRun_eq (attaches : Bool) (parts : Parts) :
    (programRun attaches).run parts =
      if parts.program.running = true then .ok (none, parts)
      else if attaches = true then
        .ok (none, { parts with program := { parts.program with
          running := true, attached := true } })
      else .ok (some .attach, parts) := by
  obtain ⟨⟨running, attached, doneCh⟩, manager, monitor, cancelled⟩ := parts
  cases running <;> cases attaches <;> rfl

theorem programRun_sound {parts next : Parts} {manager monitor : Phase} {locked : Bool}
    (h : Sound manager monitor locked parts) {attaches : Bool} {err : Option Err}
    (hrun : (programRun attaches).run parts = .ok (err, next)) :
    Sound manager monitor locked next ∧ next.healthCancelled = parts.healthCancelled ∧
      (err = none ∧ next.program.running = true ∨ err = some .attach) := by
  rw [programRun_eq] at hrun
  split at hrun
  · cases hrun
    exact ⟨h, rfl, Or.inl ⟨rfl, ‹_›⟩⟩
  · split at hrun <;> cases hrun
    · exact ⟨⟨h.manager_eq, h.monitor_eq, h.idle, fun _ => rfl, fun _ => rfl, h.doneCh⟩, rfl,
        Or.inl ⟨rfl, rfl⟩⟩
    · exact ⟨h, rfl, Or.inr rfl⟩

/-- The parts after a `Run`: the mutex of the manager is held if it was refused. -/
def AfterRun (parts : Parts) (locked : Bool) (err : Option Err) (next : Parts) : Prop :=
  ∃ manager monitor, Sound manager monitor (locked || (Result.ran err).isRefused) next ∧
    next.healthCancelled = parts.healthCancelled

theorem monitorRun_sound {parts next : Parts} (h : Sound .running .idle false parts)
    (hrunning : parts.program.running = true) {applies : Bool} {err : Option Err}
    (hrun : (monitorRun applies).run parts = .ok (err, next)) :
    AfterRun parts false err next := by
  have hmonitor : Component.backendState.run.run (parts.worker .monitor).runnable =
      .ok (none, monitorIn .running) := by
    rw [Parts.worker, h.monitor_eq]
    rfl
  rw [monitorRun, StateT.run_bind, on_of_ok hmonitor] at hrun
  have hmonitored := h.putMonitor .running (fun h => by cases h) (fun _ => hrunning) true
  cases applies <;> cases hrun <;> exact ⟨.running, .running, hmonitored, rfl⟩

theorem controllerRun_sound {parts next : Parts} {manager monitor : Phase} {locked : Bool}
    (h : Sound manager monitor locked parts) {outcome : RunOutcome} {err : Option Err}
    (hrun : (controllerRun outcome).run parts = .ok (err, next)) :
    AfterRun parts locked err next := by
  unfold controllerRun at hrun
  rw [StateT.run_bind] at hrun
  simp only [bind_eq_ok, Prod.exists] at hrun
  obtain ⟨result, started, hprogram, hrest⟩ := hrun
  obtain ⟨hstarted, hcancelled, ⟨rfl, hrunning⟩ | rfl⟩ := programRun_sound h hprogram
  · have hmethod (subscribes : Bool) :
        (managerRun subscribes).run (started.worker .manager).runnable =
          (managerRun subscribes).run (managerIn manager locked) := by
      rw [Parts.worker, hstarted.manager_eq]
    dsimp only at hrest
    rw [StateT.run_bind] at hrest
    cases locked with
    | true =>
        rw [on_of_error ((hmethod _).trans (managerRun_locked _ manager))] at hrest
        cases hrest
    | false =>
        cases manager with
        | idle =>
            obtain rfl : monitor = .idle := hstarted.idle rfl
            cases hsubscribes : outcome.subscribes with
            | false =>
                rw [hsubscribes, on_of_ok (hmethod false)] at hrest
                cases hrest
                exact ⟨.idle, .idle, hstarted.putManager _ (fun _ => rfl) _ _, hcancelled⟩
            | true =>
                rw [hsubscribes, on_of_ok (hmethod true)] at hrest
                have hmanaged := hstarted.putManager .running (fun h => by cases h) false true
                obtain ⟨manager, monitor, hsound, hsame⟩ :=
                  monitorRun_sound hmanaged hrunning hrest
                exact ⟨manager, monitor, hsound, hsame.trans hcancelled⟩
        | running =>
            rw [on_of_ok (hmethod _)] at hrest
            cases hrest
            exact ⟨.running, monitor, hstarted.putManager _ (fun h => by cases h) _ _, hcancelled⟩
        | closed =>
            rw [on_of_ok (hmethod _)] at hrest
            cases hrest
            exact ⟨.closed, monitor, hstarted.putManager _ (fun h => by cases h) _ _, hcancelled⟩
  · cases hrest
    exact ⟨manager, monitor, by simpa [Result.isRefused] using hstarted, hcancelled⟩

/-! ## Close -/

def closeErr (phase : Phase) : Option Lifecycle.Err :=
  if phase = .running then none else some .runnableMustBeRunningToBeClosed

def Phase.afterClose (phase : Phase) : Phase :=
  if phase = .running then .closed else phase

def loopAfter (phase : Phase) (ends loop : Bool) : Bool :=
  if closeErr phase = none ∧ ends then false else loop

theorem managerClose_eq (phase : Phase) :
    Component.dsManager.close.run (managerIn phase false) =
      .ok (closeErr phase, managerIn (Phase.afterClose phase) false) := by
  cases phase <;> rfl

theorem managerClose_locked (phase : Phase) :
    Component.dsManager.close.run (managerIn phase true) = .error .deadlock := by
  cases phase <;> rfl

theorem monitorClose_eq (phase : Phase) :
    Component.backendState.close.run (monitorIn phase) =
      .ok (closeErr phase, monitorIn (Phase.afterClose phase)) := by
  cases phase <;> rfl

/-- The errors that the program adds; the manager is not running by then. -/
def programErrs (outcome : CloseOutcome) (running : Bool) : List Err :=
  if running then
    .runnable .runnableMustBeRunningToBeClosed ::
      ((if outcome.linkCloses then [] else [.linkClose]) ++
        (if outcome.objsClose then [] else [.objsClose]))
  else []

theorem programClose_eq (outcome : CloseOutcome) (running attached loop : Bool) (phase : Phase)
    (monitor : Worker) (cancelled : Bool) :
    (programClose outcome).run ⟨⟨running, attached, false⟩,
        ⟨managerIn (Phase.afterClose phase) false, loop⟩, monitor, cancelled⟩ =
      .ok (programErrs outcome running,
        ⟨⟨running, if running then attached && !outcome.linkCloses else attached, running⟩,
          ⟨managerIn (Phase.afterClose phase) false, loop⟩, monitor, cancelled⟩) := by
  cases running with
  | false => rfl
  | true => cases phase <;> rfl

theorem controllerClose_eq (outcome : CloseOutcome) (hpanics : outcome.panics = false)
    (running attached loop loop' : Bool) (manager monitor : Phase) :
    (controllerClose outcome).run ⟨⟨running, attached, false⟩,
        ⟨managerIn manager false, loop⟩, ⟨monitorIn monitor, loop'⟩, false⟩ =
      .ok (((closeErr monitor).map Err.runnable).toList ++
          ((closeErr manager).map Err.runnable).toList ++ programErrs outcome running,
        ⟨⟨running, if running then attached && !outcome.linkCloses else attached, running⟩,
          ⟨managerIn (Phase.afterClose manager) false,
            loopAfter manager outcome.managerEnds loop⟩,
          ⟨monitorIn (Phase.afterClose monitor), loopAfter monitor outcome.monitorEnds loop'⟩,
          true⟩) := by
  have hcancel : (healthCancel outcome.panics).run ⟨⟨running, attached, false⟩,
      ⟨managerIn manager false, loop⟩, ⟨monitorIn monitor, loop'⟩, false⟩ =
      .ok ((), ⟨⟨running, attached, false⟩, ⟨managerIn manager false, loop⟩,
        ⟨monitorIn monitor, loop'⟩, true⟩) := by
    rw [hpanics]
    rfl
  have hmonitor : (closeWorker .monitor Component.backendState.close outcome.monitorEnds).run
      ⟨⟨running, attached, false⟩, ⟨managerIn manager false, loop⟩,
        ⟨monitorIn monitor, loop'⟩, true⟩ =
      .ok (closeErr monitor, ⟨⟨running, attached, false⟩, ⟨managerIn manager false, loop⟩,
        ⟨monitorIn (Phase.afterClose monitor), loopAfter monitor outcome.monitorEnds loop'⟩,
        true⟩) :=
    closeWorker_of_ok (monitorClose_eq monitor) _
  have hmanager : (closeWorker .manager Component.dsManager.close outcome.managerEnds).run
      ⟨⟨running, attached, false⟩, ⟨managerIn manager false, loop⟩,
        ⟨monitorIn (Phase.afterClose monitor), loopAfter monitor outcome.monitorEnds loop'⟩,
        true⟩ =
      .ok (closeErr manager, ⟨⟨running, attached, false⟩,
        ⟨managerIn (Phase.afterClose manager) false,
          loopAfter manager outcome.managerEnds loop⟩,
        ⟨monitorIn (Phase.afterClose monitor), loopAfter monitor outcome.monitorEnds loop'⟩,
        true⟩) :=
    closeWorker_of_ok (managerClose_eq manager) _
  rw [controllerClose, run_bind_of_ok hcancel, run_bind_of_ok hmonitor, run_bind_of_ok hmanager,
    run_bind_of_ok (programClose_eq outcome running attached _ manager _ true)]
  rfl

theorem controllerClose_cancelled (outcome : CloseOutcome) {parts : Parts}
    (h : parts.healthCancelled = true) :
    (controllerClose outcome).run parts = .error .closeOfClosedChannel := by
  obtain ⟨program, manager, monitor, cancelled⟩ := parts
  cases h
  rfl

theorem controllerClose_locked {outcome : CloseOutcome} (hpanics : outcome.panics = false)
    {manager monitor : Phase} {parts : Parts} (h : Sound manager monitor true parts)
    (hfirst : parts.healthCancelled = false) :
    (controllerClose outcome).run parts = .error (.method .deadlock) := by
  obtain ⟨program, ⟨_, loop⟩, ⟨_, loop'⟩, cancelled⟩ := parts
  obtain rfl := h.manager_eq
  obtain rfl := h.monitor_eq
  cases hfirst
  have hcancel : (healthCancel outcome.panics).run
      ⟨program, ⟨managerIn manager true, loop⟩, ⟨monitorIn monitor, loop'⟩, false⟩ =
      .ok ((), ⟨program, ⟨managerIn manager true, loop⟩, ⟨monitorIn monitor, loop'⟩, true⟩) := by
    rw [hpanics]
    rfl
  have hmonitor : (closeWorker .monitor Component.backendState.close outcome.monitorEnds).run
      ⟨program, ⟨managerIn manager true, loop⟩, ⟨monitorIn monitor, loop'⟩, true⟩ = _ :=
    closeWorker_of_ok (monitorClose_eq monitor) _
  rw [controllerClose, run_bind_of_ok hcancel, run_bind_of_ok hmonitor, StateT.run_bind,
    closeWorker, StateT.run_bind, on_of_error (managerClose_locked manager)]
  rfl

/-- What a first `Close` leaves, and that it does not return nil. -/
structure Closed (outcome : CloseOutcome) (parts next : Parts) (errs : List Err) : Prop where
  sound : ∃ manager monitor, Sound manager monitor false next
  healthCancelled : next.healthCancelled = true
  stopped : ∀ part, (next.worker part).runnable.running = false
  ended : ∀ part, (parts.worker part).runnable.running = true → outcome.ends part = true →
    (next.worker part).loop = false
  detached : outcome.linkCloses = true → next.program.attached = false
  ne_nil : errs ≠ []

theorem running_managerIn_afterClose (phase : Phase) (locked : Bool) :
    (managerIn (Phase.afterClose phase) locked).running = false := by
  cases phase <;> rfl

theorem running_monitorIn_afterClose (phase : Phase) :
    (monitorIn (Phase.afterClose phase)).running = false := by
  cases phase <;> rfl

theorem closeErr_of_running {phase : Phase} {locked : Bool}
    (h : (managerIn phase locked).running = true) : closeErr phase = none := by
  cases phase <;> first | rfl | cases h

theorem closeErr_of_running' {phase : Phase} (h : (monitorIn phase).running = true) :
    closeErr phase = none := by
  cases phase <;> first | rfl | cases h

theorem afterClose_eq_idle {phase : Phase} (h : Phase.afterClose phase = .idle) :
    phase = .idle := by
  cases phase <;> first | rfl | cases h

theorem controllerClose_closed {outcome : CloseOutcome} (hpanics : outcome.panics = false)
    {manager monitor : Phase} {parts : Parts} (h : Sound manager monitor false parts)
    (hfirst : parts.healthCancelled = false) :
    Returns ((controllerClose outcome).run parts) fun result =>
      Closed outcome parts result.2 result.1 := by
  obtain ⟨⟨running, attached, doneCh⟩, ⟨_, loop⟩, ⟨_, loop'⟩, cancelled⟩ := parts
  obtain ⟨rfl, rfl, hidle, hrunning, hattached, hdoneCh⟩ := h
  cases hfirst
  have hdoneCh : doneCh = false := by simpa using hdoneCh
  subst hdoneCh
  rw [controllerClose_eq outcome hpanics]
  refine .ok ⟨⟨Phase.afterClose manager, Phase.afterClose monitor, rfl, rfl, ?_, ?_, ?_,
    fun _ => rfl⟩, rfl, ?_, ?_, ?_, ?_⟩
  · intro h
    rw [hidle (afterClose_eq_idle h)]
    rfl
  · intro h
    cases monitor <;> cases h
  · cases running with
    | false => exact hattached
    | true => exact fun _ => rfl
  · rintro (_ | _)
    · exact running_managerIn_afterClose manager false
    · exact running_monitorIn_afterClose monitor
  · rintro (_ | _) hworker hends
    · exact if_pos ⟨closeErr_of_running hworker, hends⟩
    · exact if_pos ⟨closeErr_of_running' hworker, hends⟩
  · intro hlink
    cases running with
    | false => simpa using hattached
    | true => simp [hlink]
  · -- the monitor is not running, or the program reports the manager
    cases monitor with
    | idle | closed => simp [closeErr]
    | running =>
        have hprogram : running = true := hrunning rfl
        simp [hprogram, programErrs]

/-! ## The loops -/

theorem Sound.putLoop {manager monitor : Phase} {locked : Bool} {parts : Parts}
    (h : Sound manager monitor locked parts) (part : Part) (loop : Bool) :
    Sound manager monitor locked (parts.put part { parts.worker part with loop := loop }) := by
  cases part <;>
    exact ⟨h.manager_eq, h.monitor_eq, h.idle, h.running, h.attached, h.doneCh⟩

theorem loopEnds_sound {manager monitor : Phase} {locked : Bool} {parts next : Parts}
    (h : Sound manager monitor locked parts) {part : Part} {value : Unit}
    (hrun : (loopEnds part).run parts = .ok (value, next)) :
    Sound manager monitor locked next ∧ next.healthCancelled = parts.healthCancelled := by
  by_cases hclosed : (parts.worker part).runnable.closed = true
  · have heval : (loopEnds part).run parts = (setLoop part false).run parts := by
      simp [loopEnds, hclosed]
    rw [heval] at hrun
    cases hrun
    exact ⟨h.putLoop part false, by cases part <;> rfl⟩
  · have heval : (loopEnds part).run parts = .ok ((), parts) := by
      simp [loopEnds, hclosed]
      rfl
    rw [heval] at hrun
    cases hrun
    exact ⟨h, rfl⟩

theorem fifoClosed_sound {manager monitor : Phase} {locked : Bool} {parts next : Parts}
    (h : Sound manager monitor locked parts) {ends : Bool} {value : Unit}
    (hrun : (fifoClosed ends).run parts = .ok (value, next)) :
    ∃ manager', Sound manager' monitor locked next ∧
      next.healthCancelled = parts.healthCancelled := by
  simp only [fifoClosed, StateT.run_bind, StateT.run_get, pure_bind] at hrun
  split at hrun
  · split at hrun
    · cases hrun
      exact ⟨manager, h.putLoop .manager _, rfl⟩
    · rename_i hfree
      obtain rfl : locked = false := by
        rw [h.manager_eq] at hfree
        simpa [managerIn] using hfree
      have hclose : (closeWorker .manager Component.dsManager.close ends).run parts = _ :=
        closeWorker_of_ok (by rw [Parts.worker, h.manager_eq]; exact managerClose_eq manager) _
      rw [run_bind_of_ok hclose] at hrun
      cases hrun
      exact ⟨_, h.putManager _ afterClose_eq_idle _ _, rfl⟩
  · cases hrun
    exact ⟨manager, h, rfl⟩

/-! ## Any sequence of events -/

structure Inv (parts : Parts) (out : List Result) : Prop where
  sound : ∃ manager monitor, Sound manager monitor (out.any Result.isRefused) parts
  healthCancelled : parts.healthCancelled = out.any Result.isClosed
  ne_nil : ∀ errs, Result.closed errs ∈ out → errs ≠ []

theorem inv_new : Inv .new [] := ⟨⟨.idle, .idle, sound_new⟩, rfl, by simp⟩

theorem controllerClose_panics {outcome : CloseOutcome} (hpanics : outcome.panics = true)
    {parts : Parts} (hfirst : parts.healthCancelled = false) :
    (controllerClose outcome).run parts = .error .sendOnClosedChannel := by
  obtain ⟨program, manager, monitor, cancelled⟩ := parts
  cases hfirst
  rw [controllerClose, StateT.run_bind, hpanics]
  rfl

theorem inv_step {parts next : Parts} {out now : List Result} {event : Event}
    (h : Inv parts out) (hstep : step parts event = .ok (next, now)) :
    Inv next (out ++ now) := by
  obtain ⟨⟨manager, monitor, hsound⟩, hcancelled, hne⟩ := h
  cases event with
  | run outcome =>
      simp only [step, bind_eq_ok, Prod.exists] at hstep
      obtain ⟨err, parts', hrun, heq⟩ := hstep
      cases heq
      obtain ⟨manager', monitor', hsound', hsame⟩ := controllerRun_sound hsound hrun
      refine ⟨⟨manager', monitor', by simpa using hsound'⟩, ?_, by simpa using hne⟩
      simp [hsame, hcancelled, Result.isClosed]
  | close outcome =>
      simp only [step, bind_eq_ok, Prod.exists] at hstep
      obtain ⟨errs, parts', hclose, heq⟩ := hstep
      cases heq
      -- only the first `Close` returns, and only if it is neither blocked nor interrupted
      have hfirst : parts.healthCancelled = false := by
        by_contra hsecond
        rw [controllerClose_cancelled outcome (by simpa using hsecond)] at hclose
        cases hclose
      have hpanics : outcome.panics = false := by
        by_contra hpanics
        rw [controllerClose_panics (by simpa using hpanics) hfirst] at hclose
        cases hclose
      cases hrefused : out.any Result.isRefused with
      | true =>
          rw [hrefused] at hsound
          rw [controllerClose_locked hpanics hsound hfirst] at hclose
          cases hclose
      | false =>
          rw [hrefused] at hsound
          have hclosed : Closed outcome parts next errs :=
            (controllerClose_closed hpanics hsound hfirst).of_eq_ok hclose
          refine ⟨?_, by simp [hclosed.healthCancelled, Result.isClosed], ?_⟩
          · simpa [hrefused, Result.isRefused] using hclosed.sound
          · intro errs' hmem
            rcases List.mem_append.mp hmem with hmem | hmem
            · exact hne errs' hmem
            · cases List.mem_singleton.mp hmem
              exact hclosed.ne_nil
  | ends part =>
      simp only [step, bind_eq_ok, Prod.exists] at hstep
      obtain ⟨_, parts', hends, heq⟩ := hstep
      cases heq
      obtain ⟨hsound', hsame⟩ := loopEnds_sound hsound hends
      rw [List.append_nil]
      exact ⟨⟨manager, monitor, hsound'⟩, hsame.trans hcancelled, hne⟩
  | fifoClosed ends =>
      simp only [step, bind_eq_ok, Prod.exists] at hstep
      obtain ⟨_, parts', hends, heq⟩ := hstep
      cases heq
      obtain ⟨manager', hsound', hsame⟩ := fifoClosed_sound hsound hends
      rw [List.append_nil]
      exact ⟨⟨manager', monitor, hsound'⟩, hsame.trans hcancelled, hne⟩

theorem inv_run {events : List Event} {parts : Parts} {out : List Result}
    (hrun : run step .new events = .ok (parts, out)) : Inv parts out := by
  refine run_keeps Inv inv_new ?_ hrun
  intro s now event next now' h hstep
  exact inv_step h hstep

end Udplb.Controller.Teardown
