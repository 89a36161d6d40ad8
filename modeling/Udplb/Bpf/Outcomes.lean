import Udplb.Bpf.Linearised

/-!
# What a call reports

A call that returns nil has been executed.  A call that returns as aborted has
not, as long as no answer is waiting to be taken when the loop closes `doneCh`:
a caller that has not yet seen its event's channel closed then finds both of the
channels it awaits ready, and may choose the wrong one.
-/

namespace Udplb.Bpf

open Udplb.Foundation Udplb.Util

/-- The worker is inside `handleEvent` for this event. -/
def Handling.active : Handling → Bool
  | .mutating | .reporting | .closing => true
  | .pending | .closed => false

namespace DSManager

variable {objs : Nat → Objects} {kernel : Kernel} {mgr next : DSManager}
  {event : Event} {out now : List Output}

structure Truthful (out : List Output) : Prop where
  nil : ∀ before i after, out = before ++ .returned i .nil :: after →
    .ended i true ∈ before ∧ (beganIds out).count i = 1 ∧ (endedIds out).count i = 1
  aborted : ∀ i, .returned i .aborted ∈ out → .began i ∉ out

/-- When the loop closes `doneCh`, every answer that is there has been taken. -/
def AnswersTaken (mgr : DSManager) (_ : List Output) : Event → Prop
  | .loop .closeDone => mgr.loop = .closingDone →
      ∀ call ∈ mgr.calls, call.status = .awaiting → call.progress ≠ .closed
  | _ => True

/-! ## The end of the event worker -/

structure Stages (mgr : DSManager) : Prop where
  settled : mgr.events.Settled
  events_done : mgr.loop.pastEvents = true → mgr.events.doneCh = true
  past_events : mgr.doneCh = true → mgr.loop.pastEvents = true

theorem Stages.idle (h : Stages mgr) (hpast : mgr.loop.pastEvents = true) :
    mgr.events.running = [] :=
  h.settled.running_eq_nil (h.events_done hpast)

theorem Stages.not_done_of_loop (h : Stages mgr) (hloop : mgr.loop.pastEvents = false) :
    mgr.doneCh = false := by
  apply Bool.eq_false_of_not_eq_true
  intro hdone
  exact absurd (h.past_events hdone) (by simp [hloop])

theorem Stages.not_done_of_handled (h : Stages mgr) {i : Nat} {call : Call}
    (hhandled : mgr.handled = some (i, call)) : mgr.doneCh = false := by
  apply Bool.eq_false_of_not_eq_true
  intro hdone
  have hhead := (handled_eq_some hhandled).1
  rw [h.idle (h.past_events hdone)] at hhead
  cases hhead

theorem Stages.not_done_of_waiting (h : Stages mgr) {j : Nat} {draining : Bool}
    (hworker : mgr.events.workers[j]? = some (.waiting draining)) :
    mgr.doneCh = false := by
  apply Bool.eq_false_of_not_eq_true
  intro hdone
  have hreturned := h.settled (h.events_done (h.past_events hdone)) _
    (List.mem_of_getElem? hworker)
  exact absurd hreturned (WorkerPool.waiting_ne_returned draining)

theorem Stages.steps (h : Stages mgr) (hsteps : Steps objs mgr event next now) :
    Stages next := by
  cases hsteps with
  | received i m progress hloop hcall =>
      have hdone := h.not_done_of_loop (by rw [hloop]; rfl)
      exact ⟨h.settled, by simp [Loop.pastEvents], by simp [setCall, hdone]⟩
  | queued i hloop =>
      have hdone := h.not_done_of_loop (by rw [hloop]; rfl)
      exact ⟨h.settled, by simp [Loop.pastEvents], by simp [hdone]⟩
  | moved event loop watch out hloop hloop' hevents hout hone =>
      refine ⟨h.settled, ?_, ?_⟩
      · rw [hevents]
        exact h.events_done
      · rw [hevents]
        exact h.past_events
  | eventsDone hloop hdone => exact ⟨h.settled, fun _ => hdone, fun _ => rfl⟩
  | doneClosed hloop =>
      exact ⟨h.settled, fun _ => h.events_done (by rw [hloop]; rfl), fun _ => rfl⟩
  | loopReturned watch hloop =>
      exact ⟨h.settled, fun _ => h.events_done (by rw [hloop]; rfl), fun _ => rfl⟩
  | took j draining i rest call hworker hq hcall =>
      have hsettled := (WorkerPool.Steps.received j draining i rest hworker hq).settled
        h.settled
      exact ⟨hsettled, h.events_done, h.past_events⟩
  | worked event events hpool hevent =>
      exact ⟨hpool.settled h.settled, fun hpast => hpool.doneCh_eq (h.events_done hpast),
        h.past_events⟩
  | handlerReturned i m status events hhandled hfinish =>
      obtain ⟨hsettled, hdone⟩ := h.settled.finish hfinish
      refine ⟨hsettled, ?_, h.past_events⟩
      rw [hdone]
      exact h.events_done
  | issued | returnedNil | returnedAborted | terminated | eventChClosed | mutated
  | reported | errChClosed | watched =>
      exact ⟨h.settled, h.events_done, h.past_events⟩

/-- An event that the worker is inside of is the one it runs. -/
def ActiveRuns (mgr : DSManager) : Prop :=
  ∀ (i : Nat) (call : Call), mgr.calls[i]? = some call →
    call.progress.active = true → i ∈ mgr.events.running

theorem ActiveRuns.set (h : ActiveRuns mgr) {i : Nat} {call : Call}
    (hcalls : next.calls = mgr.calls.set i call)
    (hrunning : next.events.running = mgr.events.running)
    (hi : call.progress.active = true → i ∈ mgr.events.running) : ActiveRuns next := by
  intro j call' hcall hactive
  rw [hrunning]
  rw [hcalls] at hcall
  by_cases hij : i = j
  · subst hij
    have := List.getElem?_eq_some_iff.mp hcall
    grind
  · rw [List.getElem?_set_ne hij] at hcall
    exact h j call' hcall hactive

theorem ActiveRuns.steps (h : ActiveRuns mgr) (hpipeline : Pipeline mgr out)
    (hsteps : Steps objs mgr event next now) : ActiveRuns next := by
  cases hsteps with
  | issued m hopen =>
      intro i call hcall hactive
      have := h i call
      grind [Handling.active]
  | returnedNil i m hcall | returnedAborted i m progress hcall
  | received i m progress hloop hcall =>
      have hactive := h i _ hcall
      exact h.set rfl rfl hactive
  | mutated i m status hhandled | reported i m hhandled
  | errChClosed i m status hhandled =>
      exact h.set rfl rfl fun _ => List.mem_of_head? (handled_eq_some hhandled).1
  | took j draining i rest call hworker hq hcall =>
      obtain ⟨hbefore, hafter⟩ :=
        WorkerPool.running_took hpipeline.single hworker rest i
      intro k call' hk hactive
      by_cases hik : i = k
      · subst hik
        exact hafter ▸ List.mem_singleton_self i
      · -- nothing was active before
        rw [calls_setCall, List.getElem?_set_ne hik] at hk
        have hrunning := h k call' hk hactive
        rw [hbefore] at hrunning
        cases hrunning
  | worked event events hpool hevent =>
      intro i call hcall hactive
      rw [(hpool.running_eq hevent).1]
      exact h i call hcall hactive
  | handlerReturned i m status events hhandled hfinish =>
      -- the event that the worker leaves was the only one it could be inside of
      obtain ⟨hhead, hclosed⟩ := handled_eq_some hhandled
      intro j call hcall hactive
      have hrunning := h j call hcall hactive
      rw [WorkerPool.running_eq_singleton hpipeline.single hhead,
        List.mem_singleton] at hrunning
      subst hrunning
      rw [hclosed] at hcall
      cases hcall
      cases hactive
  | terminated | eventChClosed | queued | moved | eventsDone | doneClosed
  | loopReturned | watched => exact h

/-! ## The callers at the end -/

/-- Once `doneCh` is closed, whoever awaits or has given up was never executed. -/
structure Answered (mgr : DSManager) : Prop where
  awaiting : mgr.doneCh = true → ∀ (i : Nat) (call : Call),
    mgr.calls[i]? = some call → call.status = .awaiting → call.progress = .pending
  aborted : ∀ (i : Nat) (call : Call), mgr.calls[i]? = some call →
    call.status = .returned .aborted → mgr.doneCh = true ∧ call.progress = .pending

/-- As long as `doneCh` is open nobody gives up, whatever happens to a call. -/
theorem Answered.set (h : Answered mgr) (hdone : mgr.doneCh = false) {i : Nat}
    {call call' : Call} (hcall : mgr.calls[i]? = some call)
    (hcalls : next.calls = mgr.calls.set i call') (hnext : next.doneCh = false)
    (hstatus : call'.status = .returned .aborted → call.status = .returned .aborted) :
    Answered next := by
  have hnone : ∀ (j : Nat) (c : Call), mgr.calls[j]? = some c →
      c.status ≠ .returned .aborted := by
    intro j c hc haborted
    have hopen := (h.aborted j c hc haborted).1
    rw [hdone] at hopen
    cases hopen
  constructor
  · intro hopen
    rw [hnext] at hopen
    cases hopen
  · intro j c hc haborted
    rw [hcalls] at hc
    grind

theorem Answered.steps (h : Answered mgr) (hstages : Stages mgr)
    (hactive : ActiveRuns mgr) (hcond : AnswersTaken mgr out event)
    (hsteps : Steps objs mgr event next now) : Answered next := by
  cases hsteps with
  | issued m hopen =>
      obtain ⟨hawaiting, haborted⟩ := h
      constructor <;> grind
  | returnedNil i m hcall | returnedAborted i m progress hcall hdone =>
      obtain ⟨hawaiting, haborted⟩ := h
      constructor <;> grind [calls_setCall, doneCh_setCall]
  | received i m progress hloop hcall =>
      have hdone := hstages.not_done_of_loop (by rw [hloop]; rfl)
      exact h.set hdone hcall rfl hdone (by simp)
  | took j draining i rest call hworker hq hcall =>
      have hdone := hstages.not_done_of_waiting hworker
      exact h.set hdone hcall rfl hdone id
  | mutated i m status hhandled | reported i m hhandled
  | errChClosed i m status hhandled =>
      have hdone := hstages.not_done_of_handled hhandled
      exact h.set hdone (handled_eq_some hhandled).2 rfl hdone (by simp)
  | doneClosed hloop =>
      refine ⟨fun _ i call hcall hstatus => ?_, fun i call hcall hstatus =>
        ⟨rfl, (h.aborted i call hcall hstatus).2⟩⟩
      -- the worker has returned, so the event is at one of the two ends
      have hidle : i ∉ mgr.events.running := by
        rw [hstages.idle (by rw [hloop]; rfl)]
        exact List.not_mem_nil
      have hnot_active := fun h => hidle (hactive i call hcall h)
      have hnot_closed := hcond hloop call (List.mem_of_getElem? hcall) hstatus
      cases hprogress : call.progress with
      | pending => rfl
      | mutating | reporting | closing =>
          exact absurd (by rw [hprogress]; rfl) hnot_active
      | closed => exact absurd hprogress hnot_closed
  | terminated | eventChClosed | queued | moved | eventsDone | loopReturned | worked
  | handlerReturned | watched => exact ⟨h.awaiting, h.aborted⟩

/-! ## Whole runs -/

/-- What every run keeps. -/
structure Shutdown (objs : Nat → Objects) (kernel : Kernel) (mgr : DSManager)
    (out : List Output) : Prop where
  consistent : Consistent objs kernel mgr out
  stages : Stages mgr
  active : ActiveRuns mgr

theorem Shutdown.steps (h : Shutdown objs kernel mgr out)
    (hsteps : Steps objs mgr event next now) : Shutdown objs kernel next (out ++ now) :=
  ⟨h.consistent.steps hsteps, h.stages.steps hsteps,
    h.active.steps h.consistent.pipeline hsteps⟩

theorem shutdown_start (kernel : Kernel) (controller : Controller) :
    Shutdown objs kernel (start kernel controller) [] := by
  refine ⟨consistent_start kernel controller, ⟨?_, ?_, ?_⟩, ?_⟩
  · exact WorkerPool.settled_new 1 qSize
  · simp [start, Loop.pastEvents]
  · simp [start]
  · simp [ActiveRuns, start]

/-- In every run, a call that returned nil was executed once, without error. -/
theorem returned_nil_executed {controller : Controller} {events : List Event}
    {last : DSManager} {before after : List Output} {i : Nat}
    (hrun : run objs (start kernel controller) events = .ok (last, out))
    (hout : out = before ++ .returned i .nil :: after) :
    .ended i true ∈ before ∧ (beganIds out).count i = 1 ∧
      (endedIds out).count i = 1 := by
  have hlast := (run_consistent hrun).pipeline
  have hended : .ended i true ∈ before := by
    rw [hout] at hrun
    obtain ⟨mgr, event, next, hmgr, hsteps⟩ := run_emitted hrun
    cases hsteps with
    | returnedNil i m hcall =>
        have hlogged := hmgr.recorded.calls i _ hcall
        exact (hlogged.executed (.inr rfl)).resolve_right (by simp)
    | moved event loop watch out hloop hloop' hevents hout hone =>
        obtain ⟨a, ha⟩ := hout _ (List.mem_singleton_self _)
        cases ha
  have hmem : i ∈ endedIds out := by
    rw [hout, endedIds_append, List.mem_append]
    exact .inl (List.mem_filterMap.mpr ⟨_, hended, rfl⟩)
  have hbegan_nodup := hlast.nodup.sublist hlast.began_prefix.sublist
  have hended_nodup := hbegan_nodup.sublist hlast.ended_prefix.sublist
  exact ⟨hended,
    List.count_eq_one_of_mem hbegan_nodup (hlast.ended_prefix.subset hmem),
    List.count_eq_one_of_mem hended_nodup hmem⟩

theorem not_answersTaken (h : ¬AnswersTaken mgr out event) :
    event = .loop .closeDone ∧ mgr.loop = .closingDone ∧
      ∃ (i : Nat) (m : Mutation), mgr.calls[i]? = some ⟨m, .awaiting, .closed⟩ := by
  unfold AnswersTaken at h
  split at h
  · push Not at h
    obtain ⟨hloop, ⟨m, status, progress⟩, hmem, rfl, rfl⟩ := h
    obtain ⟨i, hcall⟩ := List.mem_iff_getElem?.mp hmem
    exact ⟨rfl, hloop, i, m, hcall⟩
  · exact absurd trivial h

/-- An answer that is left there when `doneCh` is closed can be missed. -/
theorem aborts_of_not_answersTaken (objs : Nat → Objects)
    (hcond : ¬AnswersTaken mgr out event) :
    ∃ i call last, mgr.calls[i]? = some call ∧ call.progress = .closed ∧
      run objs mgr [event, .call (.returnAborted i)] =
        .ok (last, [.returned i .aborted]) := by
  obtain ⟨rfl, hloop, i, m, hcall⟩ := not_answersTaken hcond
  have hdone : step objs mgr (.loop .closeDone) =
      .ok ({ mgr with loop := .returning, doneCh := true }, []) := by
    simp [step, loopStep, hloop]
  have habort : step objs { mgr with loop := .returning, doneCh := true }
      (.call (.returnAborted i)) =
      .ok ({ mgr with loop := .returning, doneCh := true }.setCall i
        ⟨m, .returned .aborted, .closed⟩, [.returned i .aborted]) := by
    simp [step, callStep, hcall]
  exact ⟨i, _, _, hcall, rfl, run_cons_eq_ok.mpr ⟨_, _, _, hdone,
    run_cons_eq_ok.mpr ⟨_, _, _, habort, rfl, rfl⟩, rfl⟩⟩

theorem run_answered {controller : Controller} {events : List Event} {last : DSManager}
    (halong : Along (step objs) AnswersTaken (start kernel controller) [] events)
    (hrun : run objs (start kernel controller) events = .ok (last, out)) :
    Shutdown objs kernel last out ∧ Answered last := by
  refine run_induction (fun mgr out => Shutdown objs kernel mgr out ∧ Answered mgr)
    ⟨shutdown_start kernel controller, by simp [start], by simp [start]⟩ ?_ halong hrun
  rintro mgr now event next now' ⟨hshutdown, hanswered⟩ hcond hstep
  have hsteps := steps_of_step_eq_ok hstep
  exact ⟨hshutdown.steps hsteps,
    hanswered.steps hshutdown.stages hshutdown.active hcond hsteps⟩

/--
In every schedule a call that returns nil was executed once and without error.
That no call that returns as aborted is ever executed holds after all steps of a
run, and whatever callers then find `doneCh` closed, exactly when no caller has
an answer to take whenever the loop closes `doneCh`.
-/
theorem outcomes_truthful_iff (objs : Nat → Objects) (kernel : Kernel)
    (controller : Controller) (events : List Event) :
    (∀ first later last out, first <+: events →
      (∀ e ∈ later, ∃ i, e = .call (.returnAborted i)) →
      run objs (start kernel controller) (first ++ later) = .ok (last, out) →
        Truthful out) ↔
      Along (step objs) AnswersTaken (start kernel controller) [] events := by
  rw [← safe_iff_along (fun result => ∀ last out, result = .ok (last, out) → Truthful out)
    (fun e : Event => ∃ i, e = .call (.returnAborted i))]
  · constructor
    · intro h first later hfirst hlater last out
      exact h first later last out hfirst hlater
    · intro h first later last out hfirst hlater
      exact h first later hfirst hlater last out
  · rintro mgr now event ⟨i, rfl⟩
    trivial
  · intro events halong last out hrun
    obtain ⟨hshutdown, hanswered⟩ := run_answered halong hrun
    refine ⟨fun before i after hout => returned_nil_executed hrun hout, ?_⟩
    intro i haborted
    have hrecorded := hshutdown.consistent.recorded
    have hi := hrecorded.bounded _ haborted i rfl
    have hcall := List.getElem?_eq_getElem hi
    have hlogged := hrecorded.calls i _ hcall
    rw [hlogged.began_iff, not_not]
    exact (hanswered.aborted i _ hcall (hlogged.returned _ haborted)).2
  · intro first event rest mgr now hevents hrun hfirst hfail
    obtain ⟨i, call, last, hcall, hclosed, hlast⟩ :=
      aborts_of_not_answersTaken objs hfail
    refine ⟨[event], [.call (.returnAborted i)], List.prefix_rfl, by simp, ?_⟩
    intro hsafe
    have htruthful := hsafe _ _ (run_append_eq_ok.mpr ⟨mgr, now, _, hrun, hlast, rfl⟩)
    have hbegan : .began i ∈ now :=
      ((run_consistent hrun).recorded.calls i _ hcall).began_iff.mpr (by simp [hclosed])
    exact htruthful.aborted i (by simp) (by simp [hbegan])

/-- A call that is executed while `Close` waits; its caller is slow to notice. -/
def executedAndAborted : List Event :=
  [.loop .check, .call (.issue (.sessionBatchDelete [])), .loop (.receive 0),
   .close .terminate, .loop .queue, .handler (.worker (.receive 0)),
   .handler .mutate, .handler .closeErrCh, .handler .return, .loop .check] ++
  doneAfterWorkers ++ [.call (.returnAborted 0)]

theorem executed_call_returns_aborted :
    (run (fun _ => .inMemory true) exampleStart executedAndAborted).toOption.map (·.2) =
      some [.issued 0, .received 0, .began 0, .ended 0 true,
        .returned 0 .aborted] := by
  decide +kernel

end DSManager

end Udplb.Bpf
