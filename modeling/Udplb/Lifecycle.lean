import Udplb.Foundation.Trace

/-!
# Running and closing

Seven components implement `Runnable`, each with a mutex, the flags `running`
and `closed` and a channel `terminateCh` of its own.  Their methods are written
out with every lock, unlock and close of a channel, in the order of the source:
taking a mutex that is held never returns, and closing a channel twice panics.
What the calls under a method do (`Subscribe`, `Listen`, `Send`) succeeds, and
waiting for the loops ends.
-/

namespace Udplb.Lifecycle

open Udplb.Foundation

inductive Err where
  | alreadyRunning
  | cannotRunClosedRunnable
  | alreadyClosed
  | runnableMustBeRunningToBeClosed
  deriving DecidableEq, Repr

/-- The channels that a method closes; `rawRecvDone` is closed by `rawRecvCancel`. -/
inductive Chan where
  | terminateCh
  | eventCh
  | rawRecvDone
  deriving DecidableEq, Repr

structure Runnable where
  running : Bool
  closed : Bool
  locked : Bool
  closedChans : List Chan
  deriving DecidableEq, Repr

def Runnable.new : Runnable := ⟨false, false, false, []⟩

inductive Stop where
  | deadlock
  | unlockOfUnlockedMutex
  | closeOfClosedChannel
  deriving DecidableEq, Repr

abbrev MethodM := StateT Runnable (Except Stop)

/-- A method returns nil or an error. -/
abbrev Method := MethodM (Option Err)

def lock : MethodM Unit := do
  if (← get).locked then throw .deadlock
  modify ({ · with locked := true })

def unlock : MethodM Unit := do
  if !(← get).locked then throw .unlockOfUnlockedMutex
  modify ({ · with locked := false })

/-- `lock` with a deferred `unlock`. -/
def withLock (body : Method) : Method := do
  lock
  let result ← body
  unlock
  return result

def closeChan (chan : Chan) : MethodM Unit := do
  if chan ∈ (← get).closedChans then throw .closeOfClosedChannel
  modify fun s => { s with closedChans := chan :: s.closedChans }

def setRunning : MethodM Unit := modify ({ · with running := true })

def setClosed : MethodM Unit := modify ({ · with running := false, closed := true })

/-! ## Run -/

/-- The guards release the mutex on every path. -/
def runUnlocking : Method := do
  lock
  if (← get).running then
    unlock
    return some .alreadyRunning
  else if (← get).closed then
    unlock
    return some .cannotRunClosedRunnable
  setRunning
  unlock
  return none

def runDeferred : Method := withLock do
  if (← get).running then return some .alreadyRunning
  if (← get).closed then return some .cannotRunClosedRunnable
  setRunning
  return none

/-- The guards of the manager return without releasing the mutex. -/
def dsManagerRun : Method := do
  lock
  if (← get).running then return some .alreadyRunning
  else if (← get).closed then return some .cannotRunClosedRunnable
  unlock
  lock
  setRunning
  unlock
  return none

/-! ## Close -/

/-- The mutex is held throughout, and a closed component is not running. -/
def closeDeferred (more : List Chan) : Method := withLock do
  if !(← get).running then return some .runnableMustBeRunningToBeClosed
  if (← get).closed then return some .alreadyClosed
  closeChan .terminateCh
  more.forM closeChan
  setClosed
  return none

/-- The first locked section of the cluster adapters' `Close`. -/
def beginClose : Method := do
  lock
  if (← get).closed then
    unlock
    return some .alreadyClosed
  else if !(← get).running then
    unlock
    return some .runnableMustBeRunningToBeClosed
  closeChan .terminateCh
  unlock
  return none

/-- The second one, after the wait for the loops. -/
def finishClose : MethodM Unit := do
  lock
  setClosed
  unlock

def closeReleasing (more : List Chan) : Method := do
  match ← beginClose with
  | some err => return some err
  | none =>
      more.forM closeChan
      finishClose
      return none

/-! ## The components -/

inductive Component where
  | dsManager
  | wal
  | dvds
  | backendState
  | remoteAssignment
  | clusterMux
  | typedCluster
  deriving DecidableEq, Repr

def Component.run : Component → Method
  | .dsManager => dsManagerRun
  | .wal | .dvds => runUnlocking
  | .backendState | .remoteAssignment | .clusterMux | .typedCluster => runDeferred

def Component.close : Component → Method
  | .dsManager => closeDeferred [.eventCh]
  | .wal | .dvds | .backendState | .remoteAssignment => closeDeferred []
  | .clusterMux => closeReleasing []
  | .typedCluster => closeReleasing [.rawRecvDone]

inductive Call where
  | run
  | close
  deriving DecidableEq, Repr

def Component.method (component : Component) : Call → Method
  | .run => component.run
  | .close => component.close

def step (component : Component) (s : Runnable) (call : Call) :
    Except Stop (Runnable × List (Option Err)) := do
  let (result, s) ← (component.method call).run s
  .ok (s, [result])

/-! ## The contract -/

inductive Phase where
  | idle
  | running
  | closed
  deriving DecidableEq, Repr

/-- What a call leads to and returns in each phase. -/
def Phase.next : Phase → Call → Phase × Option Err
  | .idle, .run => (.running, none)
  | .idle, .close => (.idle, some .runnableMustBeRunningToBeClosed)
  | .running, .run => (.running, some .alreadyRunning)
  | .running, .close => (.closed, none)
  | .closed, .run => (.closed, some .cannotRunClosedRunnable)
  | .closed, .close => (.closed, some .alreadyClosed)

def Phase.results : Phase → List Call → List (Option Err)
  | _, [] => []
  | phase, call :: calls => (phase.next call).2 :: (phase.next call).1.results calls

def Component.closedBy : Component → List Chan
  | .dsManager => [.eventCh, .terminateCh]
  | .wal | .dvds | .backendState | .remoteAssignment | .clusterMux => [.terminateCh]
  | .typedCluster => [.rawRecvDone, .terminateCh]

/-- A component in a phase. -/
def Component.inPhase (component : Component) : Phase → Runnable
  | .idle => .new
  | .running => ⟨true, false, false, []⟩
  | .closed => ⟨false, true, false, component.closedBy⟩

/-- Every call returns what it must, with the mutex released. -/
def MeetsContract (component : Component) (calls : List Call) : Prop :=
  ∀ first, first <+: calls →
    ∃ last, run (step component) .new first = .ok (last, Phase.results .idle first) ∧
      last.locked = false ∧ last.closedChans.count .terminateCh ≤ 1

/-- The same from any phase. -/
def MeetsFrom (component : Component) (phase : Phase) (calls : List Call) : Prop :=
  ∀ first, first <+: calls →
    ∃ last, run (step component) (component.inPhase phase) first =
        .ok (last, phase.results first) ∧
      last.locked = false ∧ last.closedChans.count .terminateCh ≤ 1

/-- The calls on which a component keeps the contract. -/
def Component.Handles : Component → Phase → Call → Prop
  | .clusterMux, _, _ | .typedCluster, _, _ => True
  | .wal, phase, call | .dvds, phase, call | .backendState, phase, call
  | .remoteAssignment, phase, call => call = .close → phase ≠ .closed
  | .dsManager, phase, .run => phase = .idle
  | .dsManager, phase, .close => phase ≠ .closed

def Component.HandlesAll (component : Component) : Phase → List Call → Prop
  | _, [] => True
  | phase, call :: calls =>
      component.Handles phase call ∧ component.HandlesAll (phase.next call).1 calls

/-! ## One call -/

theorem step_of_handles {component : Component} {phase : Phase} {call : Call}
    (h : component.Handles phase call) :
    step component (component.inPhase phase) call =
      .ok (component.inPhase (phase.next call).1, [(phase.next call).2]) := by
  cases component <;> cases phase <;> cases call <;> first | rfl | simp [Component.Handles] at h

/-- Elsewhere a call keeps the mutex or returns something else. -/
theorem step_of_not_handles {component : Component} {phase : Phase} {call : Call}
    (h : ¬component.Handles phase call) {last : Runnable}
    (hstep : step component (component.inPhase phase) call =
      .ok (last, [(phase.next call).2])) : last.locked = true := by
  cases component <;> cases phase <;> cases call <;>
    first | (cases hstep <;> rfl) | simp [Component.Handles] at h

theorem inPhase_released (component : Component) (phase : Phase) :
    (component.inPhase phase).locked = false ∧
      (component.inPhase phase).closedChans.count .terminateCh ≤ 1 := by
  cases component <;> cases phase <;> decide

/-! ## Sequences of calls -/

theorem meetsFrom_iff (component : Component) (phase : Phase) (calls : List Call) :
    MeetsFrom component phase calls ↔ component.HandlesAll phase calls := by
  induction calls generalizing phase with
  | nil =>
      refine ⟨fun _ => trivial, fun _ first hfirst => ?_⟩
      rw [List.prefix_nil.mp hfirst]
      exact ⟨_, rfl, inPhase_released component phase⟩
  | cons call calls ih =>
      constructor
      · intro hmeets
        have hhandles : component.Handles phase call := by
          by_contra hnot
          obtain ⟨last, hrun, hreleased, -⟩ := hmeets [call] ⟨calls, rfl⟩
          obtain ⟨next, now, later, hstep, hnil, hout⟩ := run_cons_eq_ok.mp hrun
          cases hnil
          rw [List.append_nil] at hout
          subst hout
          simp [step_of_not_handles hnot hstep] at hreleased
        refine ⟨hhandles, (ih _).mp fun first hfirst => ?_⟩
        obtain ⟨last, hrun, hlast⟩ := hmeets (call :: first)
          (List.cons_prefix_cons.mpr ⟨rfl, hfirst⟩)
        obtain ⟨next, now, later, hstep, hlater, hout⟩ := run_cons_eq_ok.mp hrun
        rw [step_of_handles hhandles] at hstep
        cases hstep
        cases hout
        exact ⟨last, hlater, hlast⟩
      · rintro ⟨hhandles, hrest⟩ first hfirst
        cases first with
        | nil => exact ⟨_, rfl, inPhase_released component phase⟩
        | cons call' first =>
            obtain ⟨rfl, hprefix⟩ := List.cons_prefix_cons.mp hfirst
            obtain ⟨last, hlater, hlast⟩ := (ih _).mpr hrest first hprefix
            exact ⟨last, run_cons_eq_ok.mpr
              ⟨_, _, _, step_of_handles hhandles, hlater, rfl⟩, hlast⟩

/--
A component meets the contract on a sequence of calls exactly when it handles
each of them: the cluster adapters always, the others unless `Close` is called
on a closed component, and the manager unless `Run` is called a second time.
-/
theorem meetsContract_iff (component : Component) (calls : List Call) :
    MeetsContract component calls ↔ component.HandlesAll .idle calls :=
  meetsFrom_iff component .idle calls

/--
After a second `Close` the error is not the documented one; a second `Run` of the
manager keeps the mutex, and no later call returns.
-/
theorem contract_broken :
    (∀ component ∈ [Component.dsManager, .wal, .dvds, .backendState, .remoteAssignment],
      (run (step component) .new [.run, .close, .close]).map (·.2) =
        .ok [none, none, some .runnableMustBeRunningToBeClosed]) ∧
    (run (step .dsManager) .new [.run, .run]).map (fun r => (r.1.locked, r.2)) =
      .ok (true, [none, some .alreadyRunning]) ∧
    run (step .dsManager) .new [.run, .run, .close] = .error .deadlock := by
  decide

end Udplb.Lifecycle
