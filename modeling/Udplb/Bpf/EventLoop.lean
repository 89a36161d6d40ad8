import Udplb.Bpf.Manager
import Udplb.Controller.Loops
import Udplb.Foundation.Trace
import Udplb.Util.WorkerPool

/-!
# The manager's event loop

Callers of `SetObjects`, `BatchUpdateSession` and `BatchDeleteSession` send an
event on the unbuffered `eventCh` and await the event's own channel or `doneCh`.
The loop receives the events and the assignment records and queues each for a
worker pool: one worker executes the events, three dispatch the records to the
controller's watcher.  `Close` closes `terminateCh`, waits for `doneCh` or for a
timeout, and closes `eventCh`.  A step is one of these goroutines moving on, so
a run is a schedule.
-/

namespace Udplb.Bpf

open Udplb.Foundation Udplb.Util

/-- What an event asks for; its kind is the constructor. -/
inductive Mutation where
  | set (objs : EventObjects)
  | sessionBatchUpdate (batch : SessionMap)
  | sessionBatchDelete (batch : List UUID)

/-- The write operations of the eBPF objects; a batch says whether it succeeded. -/
structure Objects extends EbpfStruct where
  batchUpdate : SessionMap → Kernel → Bool × Kernel
  batchDelete : List UUID → Kernel → Bool × Kernel

/-- The switch of `handleEvent`: whether it leaves `err` nil, and the new maps. -/
def Mutation.execute (objs : Objects) (kernel : Kernel) : Mutation → Bool × Kernel
  | .set o =>
      let (err, kernel) := setObjects objs.toEbpfStruct o kernel
      (err.isNone, kernel)
  | .sessionBatchUpdate batch => objs.batchUpdate batch kernel
  | .sessionBatchDelete batch => objs.batchDelete batch kernel

/-- In-memory maps, in which every write succeeds or every write fails. -/
def Objects.inMemory (succeeds : Bool) : Objects where
  toEbpfStruct := .inMemory succeeds succeeds succeeds
  batchUpdate batch kernel :=
    (succeeds, batch.entries.foldl (fun kernel entry =>
      kernel.updateSession entry.1 entry.2) kernel)
  batchDelete batch kernel :=
    (succeeds, { kernel with
      sessionMap := kernel.sessionMap.setActive kernel.activePointer
        (batch.foldl (fun sessions session => sessions.erase session)
          kernel.activeSessions) })

inductive Outcome where
  | nil
  | failed
  | aborted
  deriving DecidableEq, Repr

inductive CallStatus where
  | sending
  | awaiting
  | returned (outcome : Outcome)
  deriving DecidableEq, Repr

/-- How far `handleEvent` is with an event; at `closed` its `errCh` is closed. -/
inductive Handling where
  | pending
  | mutating
  | reporting
  | closing
  | closed
  deriving DecidableEq, Repr

structure Call where
  mutation : Mutation
  status : CallStatus
  progress : Handling

/-- Where the event loop is. -/
inductive Loop where
  | top
  | selecting
  | queueing (i : Nat)
  | queueingRecord (a : Assignment)
  | awaitingEvents
  | awaitingWatch
  | closingMux
  | closingDone
  | returning
  | returned
  deriving DecidableEq, Repr

namespace Loop

/-- The event that the loop has received and not yet queued. -/
def received? : Loop → Option Nat
  | .queueing i => some i
  | .top | .selecting | .queueingRecord _ | .awaitingEvents | .awaitingWatch
  | .closingMux | .closingDone | .returning | .returned => none

/-- The record that the loop has read and not yet queued. -/
def record? : Loop → Option Assignment
  | .queueingRecord a => some a
  | .top | .selecting | .queueing _ | .awaitingEvents | .awaitingWatch
  | .closingMux | .closingDone | .returning | .returned => none

/-- The event worker pool is done, and the loop knows it. -/
def pastEvents : Loop → Bool
  | .awaitingWatch | .closingMux | .closingDone | .returning | .returned => true
  | .top | .selecting | .queueing _ | .queueingRecord _ | .awaitingEvents => false

end Loop

/-- A record handed to a watch worker, and whether its dispatch is over. -/
structure Dispatch where
  record : Assignment
  dispatched : Bool
  deriving DecidableEq, Repr

/-- The records on their way to the controller, which watches once `ch` exists. -/
structure Watch where
  pool : WorkerPool Dispatch
  ch : Option (List Assignment)
  controller : Controller

/-- A channel that is only ever closed is the flag that says so. -/
structure DSManager where
  calls : List Call
  kernel : Kernel
  eventChClosed : Bool
  terminateCh : Bool
  doneCh : Bool
  loop : Loop
  events : WorkerPool Nat
  watch : Watch

def qSize : Nat := 10

def watchWorkerPoolSize : Nat := 3

def channelBufferSize : Nat := 100

namespace DSManager

/-- The manager after `Run`. -/
def start (kernel : Kernel) (controller : Controller) : DSManager where
  calls := []
  kernel := kernel
  eventChClosed := false
  terminateCh := false
  doneCh := false
  loop := .top
  events := .new 1 qSize
  watch := ⟨.new watchWorkerPoolSize qSize, none, controller⟩

inductive Stop where
  | blocked
  | sendOnClosedEventCh
  | sendOnClosedQueue
  deriving DecidableEq, Repr

def Stop.ofPool : WorkerPool.Stop → Stop
  | .blocked => .blocked
  | .sendOnClosedChannel => .sendOnClosedQueue

inductive CallEvent where
  | issue (m : Mutation)
  | returnNil (i : Nat)
  | returnAborted (i : Nat)

inductive CloseEvent where
  | terminate
  | closeEventCh

inductive LoopEvent where
  | check
  | receive (i : Nat)
  | read (a : Assignment)
  | eventChClosed
  | assignmentChClosed
  | terminated
  | queue
  | eventsDone
  | watchDone
  | closeMux
  | closeDone
  | return

inductive HandlerEvent where
  | worker (event : WorkerPool.Event)
  | mutate
  | report
  | closeErrCh
  | return

inductive WatchEvent where
  | worker (event : WorkerPool.Event)
  | watch
  | deliver (i : Nat)
  | drop (i : Nat)
  | return (i : Nat)
  | consume

inductive Event where
  | call (event : CallEvent)
  | close (event : CloseEvent)
  | loop (event : LoopEvent)
  | handler (event : HandlerEvent)
  | watch (event : WatchEvent)

inductive Output where
  | issued (i : Nat)
  | received (i : Nat)
  | began (i : Nat)
  | ended (i : Nat) (ok : Bool)
  | returned (i : Nat) (outcome : Outcome)
  | read (a : Assignment)
  deriving DecidableEq, Repr

def setCall (mgr : DSManager) (i : Nat) (call : Call) : DSManager :=
  { mgr with calls := mgr.calls.set i call }

@[simp] theorem calls_setCall (mgr : DSManager) (i : Nat) (call : Call) :
    (mgr.setCall i call).calls = mgr.calls.set i call := rfl

@[simp] theorem doneCh_setCall (mgr : DSManager) (i : Nat) (call : Call) :
    (mgr.setCall i call).doneCh = mgr.doneCh := rfl

@[simp] theorem loop_setCall (mgr : DSManager) (i : Nat) (call : Call) :
    (mgr.setCall i call).loop = mgr.loop := rfl

@[simp] theorem events_setCall (mgr : DSManager) (i : Nat) (call : Call) :
    (mgr.setCall i call).events = mgr.events := rfl

/-- A caller: the send on `eventCh`, and the two cases of `await` that end it. -/
def callStep (mgr : DSManager) : CallEvent → Except Stop (DSManager × List Output)
  | .issue m =>
      if mgr.eventChClosed then .error .sendOnClosedEventCh
      else .ok ({ mgr with calls := mgr.calls ++ [⟨m, .sending, .pending⟩] },
        [.issued mgr.calls.length])
  | .returnNil i =>
      match mgr.calls[i]? with
      | some ⟨m, .awaiting, .closed⟩ =>
          .ok (mgr.setCall i ⟨m, .returned .nil, .closed⟩, [.returned i .nil])
      | _ => .error .blocked
  | .returnAborted i =>
      match mgr.calls[i]?, mgr.doneCh with
      | some ⟨m, .awaiting, progress⟩, true =>
          .ok (mgr.setCall i ⟨m, .returned .aborted, progress⟩,
            [.returned i .aborted])
      | _, _ => .error .blocked

/-- `Close`, whoever calls it; its timeout can end the wait for `doneCh` any time. -/
def closeStep (mgr : DSManager) : CloseEvent → Except Stop (DSManager × List Output)
  | .terminate =>
      if mgr.terminateCh then .error .blocked
      else .ok ({ mgr with terminateCh := true }, [])
  | .closeEventCh =>
      if mgr.terminateCh = false ∨ mgr.eventChClosed = true then .error .blocked
      -- closing the channel wakes up a blocked sender, which then panics
      else if mgr.calls.any (·.status = .sending) then .error .sendOnClosedEventCh
      else .ok ({ mgr with eventChClosed := true }, [])

def loopStep (mgr : DSManager) : LoopEvent → Except Stop (DSManager × List Output)
  | .check =>
      match mgr.loop with
      | .top =>
          .ok ({ mgr with
            loop := if mgr.terminateCh then .awaitingEvents else .selecting }, [])
      | _ => .error .blocked
  | .receive i =>
      match mgr.loop, mgr.calls[i]? with
      | .selecting, some ⟨m, .sending, progress⟩ =>
          .ok ({ mgr with loop := .queueing i }.setCall i ⟨m, .awaiting, progress⟩,
            [.received i])
      | _, _ => .error .blocked
  | .read a =>
      match mgr.loop with
      | .selecting => .ok ({ mgr with loop := .queueingRecord a }, [.read a])
      | _ => .error .blocked
  | .eventChClosed =>
      match mgr.loop, mgr.eventChClosed with
      | .selecting, true => .ok ({ mgr with loop := .awaitingEvents }, [])
      | _, _ => .error .blocked
  | .assignmentChClosed =>
      match mgr.loop with
      | .selecting => .ok ({ mgr with loop := .awaitingEvents }, [])
      | _ => .error .blocked
  | .terminated =>
      match mgr.loop, mgr.terminateCh with
      | .selecting, true => .ok ({ mgr with loop := .awaitingEvents }, [])
      | _, _ => .error .blocked
  | .queue =>
      match mgr.loop with
      | .queueing i => do
          let events ← (mgr.events.submit i).mapError .ofPool
          .ok ({ mgr with loop := .top, events := events }, [])
      | .queueingRecord a => do
          let pool ← (mgr.watch.pool.submit ⟨a, false⟩).mapError .ofPool
          .ok ({ mgr with loop := .top, watch := { mgr.watch with pool := pool } }, [])
      | _ => .error .blocked
  | .eventsDone =>
      match mgr.loop, mgr.events.doneCh with
      | .awaitingEvents, true => .ok ({ mgr with loop := .awaitingWatch }, [])
      | _, _ => .error .blocked
  | .watchDone =>
      match mgr.loop, mgr.watch.pool.doneCh with
      | .awaitingWatch, true => .ok ({ mgr with loop := .closingMux }, [])
      | _, _ => .error .blocked
  | .closeMux =>
      match mgr.loop with
      | .closingMux => .ok ({ mgr with loop := .closingDone }, [])
      | _ => .error .blocked
  | .closeDone =>
      match mgr.loop with
      | .closingDone => .ok ({ mgr with loop := .returning, doneCh := true }, [])
      | _ => .error .blocked
  | .return =>
      match mgr.loop with
      | .returning =>
          .ok ({ mgr with
            loop := .returned
            events := { mgr.events with qClosed := true }
            watch := { mgr.watch with
              pool := { mgr.watch.pool with qClosed := true } } }, [])
      | _ => .error .blocked

/-- The event that the event worker is handling. -/
def handled (mgr : DSManager) : Option (Nat × Call) :=
  match mgr.events.running with
  | i :: _ => (mgr.calls[i]?).map (i, ·)
  | [] => none

/-- The event worker; `objs i` is what the eBPF library does for event `i`. -/
def handlerStep (objs : Nat → Objects) (mgr : DSManager) :
    HandlerEvent → Except Stop (DSManager × List Output)
  | .worker event => do
      let events ← (mgr.events.step mgr.terminateCh event).mapError .ofPool
      match event, mgr.events.q with
      | .receive _, i :: _ =>
          match mgr.calls[i]? with
          | some call =>
              .ok ({ mgr with events := events }.setCall i
                { call with progress := .mutating }, [.began i])
          | none => .error .blocked
      | _, _ => .ok ({ mgr with events := events }, [])
  | .mutate =>
      match mgr.handled with
      | some (i, ⟨m, status, .mutating⟩) =>
          let (ok, kernel) := m.execute (objs i) mgr.kernel
          .ok ({ mgr with kernel := kernel }.setCall i
            ⟨m, status, if ok then .closing else .reporting⟩, [.ended i ok])
      | _ => .error .blocked
  | .report =>
      match mgr.handled with
      | some (i, ⟨m, .awaiting, .reporting⟩) =>
          .ok (mgr.setCall i ⟨m, .returned .failed, .closing⟩, [.returned i .failed])
      | _ => .error .blocked
  | .closeErrCh =>
      match mgr.handled with
      | some (i, ⟨m, status, .closing⟩) => .ok (mgr.setCall i ⟨m, status, .closed⟩, [])
      | _ => .error .blocked
  | .return =>
      match mgr.handled with
      | some (_, ⟨_, _, .closed⟩) => do
          let events ← (mgr.events.finish 0).mapError .ofPool
          .ok ({ mgr with events := events }, [])
      | _ => .error .blocked

/-- The watch workers, the controller's watcher and its assignment loop. -/
def watchStep (terminateCh : Bool) (w : Watch) : WatchEvent → Except Stop Watch
  | .worker event => do
      let pool ← (w.pool.step terminateCh event).mapError .ofPool
      .ok { w with pool := pool }
  | .watch =>
      match w.ch with
      | none => .ok { w with ch := some [] }
      | some _ => .error .blocked
  | .deliver i =>
      match w.pool.workers[i]?, w.ch with
      | some (.running ⟨a, false⟩ draining), some ch =>
          if ch.length < channelBufferSize then
            .ok { w with
              pool := w.pool.setWorker i (.running ⟨a, true⟩ draining)
              ch := some (ch ++ [a]) }
          else .error .blocked
      | _, _ => .error .blocked
  -- the dispatch timed out, the watcher is done, or nobody watches yet
  | .drop i =>
      match w.pool.workers[i]? with
      | some (.running ⟨a, false⟩ draining) =>
          .ok { w with pool := w.pool.setWorker i (.running ⟨a, true⟩ draining) }
      | _ => .error .blocked
  | .return i =>
      match w.pool.workers[i]? with
      | some (.running ⟨_, true⟩ _) => do
          let pool ← (w.pool.finish i).mapError .ofPool
          .ok { w with pool := pool }
      | _ => .error .blocked
  | .consume =>
      match w.ch with
      | some (a :: ch) =>
          .ok { w with ch := some ch, controller := w.controller.handleAssignment a }
      | _ => .error .blocked

def step (objs : Nat → Objects) (mgr : DSManager) :
    Event → Except Stop (DSManager × List Output)
  | .call event => mgr.callStep event
  | .close event => mgr.closeStep event
  | .loop event => mgr.loopStep event
  | .handler event => mgr.handlerStep objs event
  | .watch event => do
      let watch ← watchStep mgr.terminateCh mgr.watch event
      .ok ({ mgr with watch := watch }, [])

abbrev run (objs : Nat → Objects) (mgr : DSManager) (events : List Event) :
    Except Stop (DSManager × List Output) :=
  Foundation.run (step objs) mgr events

/-! ## What a step does to the calls -/

/--
The steps as the calls see them.  The loop's other moves hold no event, before
or after, and do not get past the wait for the event worker.
-/
inductive Steps (objs : Nat → Objects) (mgr : DSManager) :
    Event → DSManager → List Output → Prop
  | issued (m : Mutation) (hopen : mgr.eventChClosed = false) :
      Steps objs mgr (.call (.issue m))
        { mgr with calls := mgr.calls ++ [⟨m, .sending, .pending⟩] }
        [.issued mgr.calls.length]
  | returnedNil (i : Nat) (m : Mutation)
      (hcall : mgr.calls[i]? = some ⟨m, .awaiting, .closed⟩) :
      Steps objs mgr (.call (.returnNil i))
        (mgr.setCall i ⟨m, .returned .nil, .closed⟩) [.returned i .nil]
  | returnedAborted (i : Nat) (m : Mutation) (progress : Handling)
      (hcall : mgr.calls[i]? = some ⟨m, .awaiting, progress⟩)
      (hdone : mgr.doneCh = true) :
      Steps objs mgr (.call (.returnAborted i))
        (mgr.setCall i ⟨m, .returned .aborted, progress⟩) [.returned i .aborted]
  | terminated :
      Steps objs mgr (.close .terminate) { mgr with terminateCh := true } []
  | eventChClosed (hterminate : mgr.terminateCh = true)
      (hnone : ∀ call ∈ mgr.calls, call.status ≠ .sending) :
      Steps objs mgr (.close .closeEventCh) { mgr with eventChClosed := true } []
  | received (i : Nat) (m : Mutation) (progress : Handling)
      (hloop : mgr.loop = .selecting)
      (hcall : mgr.calls[i]? = some ⟨m, .sending, progress⟩) :
      Steps objs mgr (.loop (.receive i))
        ({ mgr with loop := .queueing i }.setCall i ⟨m, .awaiting, progress⟩)
        [.received i]
  | queued (i : Nat) (hloop : mgr.loop = .queueing i) :
      Steps objs mgr (.loop .queue)
        { mgr with
          loop := .top
          events := { mgr.events with q := mgr.events.q ++ [i] } } []
  | moved (event : LoopEvent) (loop : Loop) (watch : Watch) (out : List Output)
      (hloop : mgr.loop.received? = none) (hloop' : loop.received? = none)
      (hevents : loop.pastEvents = mgr.loop.pastEvents)
      (hout : ∀ o ∈ out, ∃ a, o = .read a) (hone : out.length ≤ 1) :
      Steps objs mgr (.loop event) { mgr with loop := loop, watch := watch } out
  | eventsDone (hloop : mgr.loop = .awaitingEvents)
      (hdone : mgr.events.doneCh = true) :
      Steps objs mgr (.loop .eventsDone) { mgr with loop := .awaitingWatch } []
  | doneClosed (hloop : mgr.loop = .closingDone) :
      Steps objs mgr (.loop .closeDone)
        { mgr with loop := .returning, doneCh := true } []
  | loopReturned (watch : Watch) (hloop : mgr.loop = .returning) :
      Steps objs mgr (.loop .return)
        { mgr with
          loop := .returned
          events := { mgr.events with qClosed := true }
          watch := watch } []
  | took (j : Nat) (draining : Bool) (i : Nat) (rest : List Nat) (call : Call)
      (hworker : mgr.events.workers[j]? = some (.waiting draining))
      (hq : mgr.events.q = i :: rest) (hcall : mgr.calls[i]? = some call) :
      Steps objs mgr (.handler (.worker (.receive j)))
        ({ mgr with
            events := { mgr.events with q := rest }.setWorker j
              (.running i draining) }.setCall i { call with progress := .mutating })
        [.began i]
  | worked (event : WorkerPool.Event) (events : WorkerPool Nat)
      (hsteps : WorkerPool.Steps mgr.events event events)
      (hevent : ∀ j, event ≠ .receive j) :
      Steps objs mgr (.handler (.worker event)) { mgr with events := events } []
  | mutated (i : Nat) (m : Mutation) (status : CallStatus)
      (hhandled : mgr.handled = some (i, ⟨m, status, .mutating⟩)) :
      Steps objs mgr (.handler .mutate)
        ({ mgr with kernel := (m.execute (objs i) mgr.kernel).2 }.setCall i
          ⟨m, status,
            if (m.execute (objs i) mgr.kernel).1 then .closing else .reporting⟩)
        [.ended i (m.execute (objs i) mgr.kernel).1]
  | reported (i : Nat) (m : Mutation)
      (hhandled : mgr.handled = some (i, ⟨m, .awaiting, .reporting⟩)) :
      Steps objs mgr (.handler .report)
        (mgr.setCall i ⟨m, .returned .failed, .closing⟩) [.returned i .failed]
  | errChClosed (i : Nat) (m : Mutation) (status : CallStatus)
      (hhandled : mgr.handled = some (i, ⟨m, status, .closing⟩)) :
      Steps objs mgr (.handler .closeErrCh)
        (mgr.setCall i ⟨m, status, .closed⟩) []
  | handlerReturned (i : Nat) (m : Mutation) (status : CallStatus)
      (events : WorkerPool Nat)
      (hhandled : mgr.handled = some (i, ⟨m, status, .closed⟩))
      (hfinish : mgr.events.finish 0 = .ok events) :
      Steps objs mgr (.handler .return) { mgr with events := events } []
  | watched (event : WatchEvent) (watch : Watch) :
      Steps objs mgr (.watch event) { mgr with watch := watch } []

variable {objs : Nat → Objects} {mgr next : DSManager} {out : List Output}

theorem steps_of_callStep {event : CallEvent}
    (h : mgr.callStep event = .ok (next, out)) :
    Steps objs mgr (.call event) next out := by
  cases event with
  | issue m =>
      simp only [callStep] at h
      split at h <;> cases h
      exact .issued m (by simpa using ‹¬mgr.eventChClosed = true›)
  | returnNil i =>
      simp only [callStep] at h
      split at h <;> cases h
      exact .returnedNil i _ ‹_›
  | returnAborted i =>
      simp only [callStep] at h
      split at h <;> cases h
      exact .returnedAborted i _ _ ‹_› ‹_›

theorem steps_of_closeStep {event : CloseEvent}
    (h : mgr.closeStep event = .ok (next, out)) :
    Steps objs mgr (.close event) next out := by
  cases event with
  | terminate =>
      simp only [closeStep] at h
      split at h <;> cases h
      exact .terminated
  | closeEventCh =>
      simp only [closeStep] at h
      split at h
      · cases h
      · rename_i hopen
        split at h <;> cases h
        rename_i hnone
        exact .eventChClosed (by simp_all) (by simpa using hnone)

theorem steps_of_loopStep {event : LoopEvent}
    (h : mgr.loopStep event = .ok (next, out)) :
    Steps objs mgr (.loop event) next out := by
  have hmoved : ∀ from' loop watch now, mgr.loop = from' →
      from'.received? = none → loop.received? = none →
      loop.pastEvents = from'.pastEvents →
      (∀ o ∈ now, ∃ a, o = .read a) → now.length ≤ 1 →
      Steps objs mgr (.loop event) { mgr with loop := loop, watch := watch } now := by
    rintro _ loop watch now rfl
    exact .moved event loop watch now
  cases event with
  | receive i =>
      simp only [loopStep] at h
      split at h <;> cases h
      exact .received i _ _ ‹_› ‹_›
  | queue =>
      simp only [loopStep] at h
      split at h
      · simp only [bind_eq_ok, mapError_eq_ok] at h
        obtain ⟨events, hsubmit, h⟩ := h
        cases h
        rw [WorkerPool.submit_eq_ok hsubmit]
        exact .queued _ ‹_›
      · rename_i hloop
        simp only [bind_eq_ok] at h
        obtain ⟨pool, -, h⟩ := h
        cases h
        exact hmoved _ .top _ [] hloop rfl rfl rfl (by simp) (by simp)
      · cases h
  | eventsDone =>
      simp only [loopStep] at h
      split at h <;> cases h
      exact .eventsDone ‹_› ‹_›
  | closeDone =>
      simp only [loopStep] at h
      split at h <;> cases h
      exact .doneClosed ‹_›
  | «return» =>
      simp only [loopStep] at h
      split at h <;> cases h
      exact .loopReturned _ ‹_›
  | check =>
      simp only [loopStep] at h
      split at h <;> cases h
      rename_i hloop
      refine hmoved _ _ mgr.watch [] hloop rfl ?_ ?_ (by simp) (by simp) <;>
        split <;> rfl
  | read | eventChClosed | assignmentChClosed | terminated | watchDone | closeMux =>
      simp only [loopStep] at h
      split at h <;> cases h
      have hloop := ‹mgr.loop = _›
      refine hmoved _ _ mgr.watch _ hloop rfl ?_ ?_ (by simp) (by simp) <;> rfl

theorem steps_of_handlerStep {event : HandlerEvent}
    (h : mgr.handlerStep objs event = .ok (next, out)) :
    Steps objs mgr (.handler event) next out := by
  cases event with
  | worker event =>
      simp only [handlerStep, bind_eq_ok, mapError_eq_ok] at h
      obtain ⟨events, hevents, h⟩ := h
      cases WorkerPool.steps_of_step_eq_ok hevents with
      | received j draining i rest hw hq =>
          simp only [hq] at h
          split at h <;> cases h
          exact .took j draining i rest _ hw hq ‹_›
      | terminating | returned | done =>
          cases h
          exact .worked _ _ (WorkerPool.steps_of_step_eq_ok hevents) (by simp)
  | mutate =>
      simp only [handlerStep] at h
      split at h <;> cases h
      exact .mutated _ _ _ ‹_›
  | report =>
      simp only [handlerStep] at h
      split at h <;> cases h
      exact .reported _ _ ‹_›
  | closeErrCh =>
      simp only [handlerStep] at h
      split at h <;> cases h
      exact .errChClosed _ _ _ ‹_›
  | «return» =>
      simp only [handlerStep] at h
      split at h
      · simp only [bind_eq_ok, mapError_eq_ok] at h
        obtain ⟨events, hfinish, h⟩ := h
        cases h
        exact .handlerReturned _ _ _ events ‹_› hfinish
      · cases h

theorem steps_of_step_eq_ok {event : Event}
    (h : step objs mgr event = .ok (next, out)) : Steps objs mgr event next out := by
  cases event with
  | call event => exact steps_of_callStep h
  | close event => exact steps_of_closeStep h
  | loop event => exact steps_of_loopStep h
  | handler event => exact steps_of_handlerStep h
  | watch event =>
      simp only [step, bind_eq_ok] at h
      obtain ⟨watch, -, h⟩ := h
      cases h
      exact .watched event watch

theorem Steps.length_le_one {event : Event} (h : Steps objs mgr event next out) :
    out.length ≤ 1 := by
  cases h <;> first | assumption | simp

end DSManager

end Udplb.Bpf
