import Udplb.Bpf.Linearised

/-!
# Requests around `Close`

The last statement of `Close` closes `eventCh`, while callers may be blocked in
their send or may still come: a send on a closed channel panics.  Nobody but the
callers themselves can rule that out.
-/

namespace Udplb.Bpf.DSManager

open Udplb.Foundation Udplb.Util

variable {objs : Nat → Objects} {mgr next : DSManager} {event : Event}
  {out now : List Output}

def sending (mgr : DSManager) : Bool := mgr.calls.any (·.status = .sending)

/-- Nobody is in its send when `Close` begins, and nobody calls after that. -/
def SendsBeforeClose (mgr : DSManager) (_ : List Output) : Event → Prop
  | .call (.issue _) => mgr.terminateCh = false
  | .close .terminate => mgr.sending = false
  | _ => True

/-- In every run: `eventCh` is closed by `Close` only, and under no sender. -/
structure Closing (mgr : DSManager) : Prop where
  terminated : mgr.eventChClosed = true → mgr.terminateCh = true
  not_sending : mgr.eventChClosed = true → mgr.sending = false

theorem bind_pool_ne {α β : Type} {x : Except WorkerPool.Stop α}
    {f : α → Except Stop β} (hf : ∀ value, f value ≠ .error .sendOnClosedEventCh) :
    (x.mapError .ofPool >>= f) ≠ .error .sendOnClosedEventCh := by
  intro h
  rcases bind_eq_error.mp h with hx | ⟨value, -, hvalue⟩
  · match x with
    | .error .blocked => cases hx
    | .error .sendOnClosedChannel => cases hx
    | .ok value => cases hx
  · exact hf value hvalue

theorem loopStep_ne (mgr : DSManager) (event : LoopEvent) :
    mgr.loopStep event ≠ .error .sendOnClosedEventCh := by
  intro h
  cases event with
  | queue =>
      simp only [loopStep] at h
      split at h
      · exact bind_pool_ne (by simp) h
      · exact bind_pool_ne (by simp) h
      · cases h
  | check | receive | read | eventChClosed | assignmentChClosed | terminated
  | eventsDone | watchDone | closeMux | closeDone | «return» =>
      simp only [loopStep] at h
      split at h <;> cases h

theorem handlerStep_ne (objs : Nat → Objects) (mgr : DSManager) (event : HandlerEvent) :
    mgr.handlerStep objs event ≠ .error .sendOnClosedEventCh := by
  intro h
  cases event with
  | worker event =>
      refine bind_pool_ne ?_ h
      intro events
      split
      · split <;> simp
      · simp
  | «return» =>
      simp only [handlerStep] at h
      split at h
      · exact bind_pool_ne (by simp) h
      · cases h
  | mutate | report | closeErrCh =>
      simp only [handlerStep] at h
      split at h <;> cases h

theorem watchStep_ne (terminateCh : Bool) (w : Watch) (event : WatchEvent) :
    watchStep terminateCh w event ≠ .error .sendOnClosedEventCh := by
  intro h
  cases event with
  | worker event => exact bind_pool_ne (by simp) h
  | «return» i =>
      simp only [watchStep] at h
      split at h
      · exact bind_pool_ne (by simp) h
      · cases h
  | deliver i =>
      simp only [watchStep] at h
      split at h
      · split at h <;> cases h
      · cases h
  | watch | drop | consume =>
      simp only [watchStep] at h
      split at h <;> cases h

/-- A step that panics in a caller. -/
theorem step_eq_sendOnClosedEventCh
    (h : step objs mgr event = .error .sendOnClosedEventCh) :
    (∃ m, event = .call (.issue m) ∧ mgr.eventChClosed = true) ∨
      (event = .close .closeEventCh ∧ mgr.terminateCh = true ∧ mgr.sending = true) := by
  cases event with
  | call event =>
      cases event with
      | issue m =>
          simp only [step, callStep] at h
          split at h
          · exact .inl ⟨m, rfl, ‹_›⟩
          · cases h
      | returnNil i | returnAborted i =>
          simp only [step, callStep] at h
          split at h <;> cases h
  | close event =>
      cases event with
      | terminate =>
          simp only [step, closeStep] at h
          split at h <;> cases h
      | closeEventCh =>
          simp only [step, closeStep] at h
          split at h
          · cases h
          · rename_i hopen
            split at h
            · exact .inr ⟨rfl, by simp_all, ‹_›⟩
            · cases h
  | loop event => exact absurd h (loopStep_ne mgr event)
  | handler event => exact absurd h (handlerStep_ne objs mgr event)
  | watch event =>
      rcases bind_eq_error.mp h with hwatch | ⟨watch, -, hwatch⟩
      · exact absurd hwatch (watchStep_ne _ _ event)
      · cases hwatch

theorem sending_eq_false :
    mgr.sending = false ↔
      ∀ (i : Nat) (call : Call), mgr.calls[i]? = some call →
        call.status ≠ .sending := by
  simp only [sending, List.any_eq_false, decide_eq_true_eq, List.mem_iff_getElem?]
  constructor
  · intro h i call hcall
    exact h call ⟨i, hcall⟩
  · rintro h call ⟨i, hcall⟩
    exact h i call hcall

/-- Only a new call can make the manager have a sender. -/
theorem Steps.sending_eq (hsteps : Steps objs mgr event next now)
    (hevent : ∀ m, event ≠ .call (.issue m)) (h : mgr.sending = false) :
    next.sending = false := by
  rw [sending_eq_false] at h ⊢
  cases hsteps with
  | issued m => exact absurd rfl (hevent m)
  | returnedNil i m hcall | returnedAborted i m progress hcall
  | received i m progress hloop hcall | took j draining i rest call hworker hq hcall =>
      grind [calls_setCall]
  | mutated i m status hhandled | reported i m hhandled
  | errChClosed i m status hhandled =>
      have hcall := (handled_eq_some hhandled).2
      grind [calls_setCall]
  | terminated | eventChClosed | moved | queued | eventsDone | doneClosed
  | loopReturned | worked | handlerReturned | watched => exact h

theorem Steps.closing (hsteps : Steps objs mgr event next now) (h : Closing mgr) :
    Closing next := by
  have hkept : next.eventChClosed = mgr.eventChClosed →
      (mgr.terminateCh = true → next.terminateCh = true) →
      (∀ m, event ≠ .call (.issue m)) → Closing next := by
    intro hclosed hterminated hevent
    constructor
    · intro hnext
      exact hterminated (h.terminated (hclosed ▸ hnext))
    · intro hnext
      exact hsteps.sending_eq hevent (h.not_sending (hclosed ▸ hnext))
  cases hsteps with
  | issued m hopen => exact ⟨fun hclosed => absurd hclosed (by simp [hopen]),
      fun hclosed => absurd hclosed (by simp [hopen])⟩
  | eventChClosed hterminate hnone =>
      refine ⟨fun _ => hterminate, fun _ => ?_⟩
      simpa [sending] using hnone
  | returnedNil | returnedAborted | received | took | mutated | reported | errChClosed
  | moved | queued | eventsDone | doneClosed | loopReturned | worked
  | handlerReturned | watched => exact hkept rfl id (by simp)
  | terminated => exact hkept rfl (fun _ => rfl) (by simp)

theorem closing_start (kernel : Kernel) (controller : Controller) :
    Closing (start kernel controller) :=
  ⟨by simp [start], by simp [start]⟩

/-- Under the condition nobody sends once `Close` has begun. -/
structure Quiet (mgr : DSManager) : Prop where
  closing : Closing mgr
  not_sending : mgr.terminateCh = true → mgr.sending = false

theorem Quiet.steps (h : Quiet mgr) (hcond : SendsBeforeClose mgr out event)
    (hsteps : Steps objs mgr event next now) : Quiet next := by
  refine ⟨hsteps.closing h.closing, ?_⟩
  have hkept : next.terminateCh = mgr.terminateCh →
      (∀ m, event ≠ .call (.issue m)) → next.terminateCh = true →
      next.sending = false := by
    intro hterminateCh hevent hterminate
    exact hsteps.sending_eq hevent (h.not_sending (hterminateCh ▸ hterminate))
  cases hsteps with
  | issued m hopen =>
      intro hterminate
      exact absurd hterminate (by simp [show mgr.terminateCh = false from hcond])
  | terminated => exact fun _ => hcond
  | returnedNil | returnedAborted | eventChClosed | received | queued | moved
  | eventsDone | doneClosed | loopReturned | took | worked | mutated | reported
  | errChClosed | handlerReturned | watched => exact hkept rfl (by simp)

theorem Quiet.step_ne (h : Quiet mgr) (hcond : SendsBeforeClose mgr out event) :
    step objs mgr event ≠ .error .sendOnClosedEventCh := by
  intro hstep
  rcases step_eq_sendOnClosedEventCh hstep with ⟨m, rfl, hclosed⟩ | ⟨rfl, hterminate, hsending⟩
  · exact absurd (h.closing.terminated hclosed)
      (by simp [show mgr.terminateCh = false from hcond])
  · exact absurd hsending (by simp [h.not_sending hterminate])

/-- `Close` may time out at once, and then its last statement panics a sender. -/
theorem closeEventCh_panics (hclosing : Closing mgr) (hterminate : mgr.terminateCh = true)
    (hsending : mgr.sending = true) :
    step objs mgr (.close .closeEventCh) = .error .sendOnClosedEventCh := by
  have hopen : mgr.eventChClosed = false := by
    cases hclosed : mgr.eventChClosed with
    | false => rfl
    | true => exact absurd (hclosing.not_sending hclosed) (by simp [hsending])
  have hany : mgr.calls.any (·.status = .sending) = true := hsending
  simp [step, closeStep, hterminate, hopen, hany]

theorem not_sendsBeforeClose (h : ¬SendsBeforeClose mgr out event) :
    (∃ m, event = .call (.issue m) ∧ mgr.terminateCh = true) ∨
      (event = .close .terminate ∧ mgr.sending = true) := by
  unfold SendsBeforeClose at h
  split at h
  · exact .inl ⟨_, rfl, by simpa using h⟩
  · exact .inr ⟨rfl, by simpa using h⟩
  · exact absurd trivial h

/-- Where the condition is broken, a timeout of `Close` makes a caller panic. -/
theorem panics_of_not_sendsBeforeClose (hclosing : Closing mgr)
    (hcond : ¬SendsBeforeClose mgr out event) :
    ∃ more later, more <+: [event] ∧ (∀ e ∈ later, e = .close .closeEventCh) ∧
      run objs mgr (more ++ later) = .error .sendOnClosedEventCh := by
  -- a step to a state with a sender, in which `terminateCh` is closed
  have hpanics : ∀ next now, step objs mgr event = .ok (next, now) →
      next.terminateCh = true → next.sending = true →
      run objs mgr [event, .close .closeEventCh] = .error .sendOnClosedEventCh := by
    intro next now hstep hterminate hsending
    have hnext := (steps_of_step_eq_ok hstep).closing hclosing
    refine run_cons_eq_error.mpr (.inr ⟨next, now, hstep, ?_⟩)
    exact run_cons_eq_error.mpr (.inl (closeEventCh_panics hnext hterminate hsending))
  rcases not_sendsBeforeClose hcond with ⟨m, rfl, hterminate⟩ | ⟨rfl, hsending⟩
  · cases hclosed : mgr.eventChClosed with
    | true =>
        refine ⟨[.call (.issue m)], [], List.prefix_rfl, by simp, ?_⟩
        exact run_cons_eq_error.mpr (.inl (by simp [step, callStep, hclosed]))
    | false =>
        refine ⟨[.call (.issue m)], [.close .closeEventCh], List.prefix_rfl, by simp, ?_⟩
        apply hpanics { mgr with calls := mgr.calls ++ [⟨m, .sending, .pending⟩] }
          [.issued mgr.calls.length] (by simp [step, callStep, hclosed]) hterminate
        simp [sending]
  · cases hterminate : mgr.terminateCh with
    | true =>
        refine ⟨[], [.close .closeEventCh], List.nil_prefix, by simp, ?_⟩
        exact run_cons_eq_error.mpr
          (.inl (closeEventCh_panics hclosing hterminate hsending))
    | false =>
        refine ⟨[.close .terminate], [.close .closeEventCh], List.prefix_rfl, by simp, ?_⟩
        exact hpanics { mgr with terminateCh := true } []
          (by simp [step, closeStep, hterminate]) rfl hsending

theorem quiet_start (kernel : Kernel) (controller : Controller) :
    Quiet (start kernel controller) :=
  ⟨closing_start kernel controller, by simp [start]⟩

/--
No schedule of a run, nor `Close` timing out after some of its steps, makes a
caller send on the closed `eventCh`, exactly when no call is in its send when
`Close` closes `terminateCh` and no call is issued after that.
-/
theorem never_sends_on_closed_eventCh_iff (objs : Nat → Objects) (kernel : Kernel)
    (controller : Controller) (events : List Event) :
    (∀ first later, first <+: events → (∀ e ∈ later, e = .close .closeEventCh) →
      run objs (start kernel controller) (first ++ later) ≠
        .error .sendOnClosedEventCh) ↔
      Along (step objs) SendsBeforeClose (start kernel controller) [] events := by
  refine safe_iff_along (· ≠ .error Stop.sendOnClosedEventCh)
    (fun e : Event => e = .close .closeEventCh) ?_ ?_ ?_
  · rintro mgr now event rfl
    trivial
  · intro events halong hpanic
    refine run_errors (fun mgr _ => Quiet mgr) (· ≠ .sendOnClosedEventCh)
      (quiet_start kernel controller) ?_ halong hpanic rfl
    intro mgr now event h hcond
    refine ⟨?_, fun next now' hstep => h.steps hcond (steps_of_step_eq_ok hstep)⟩
    rintro err hstep rfl
    exact h.step_ne hcond hstep
  · intro first event rest mgr now hevents hrun hfirst hfail
    have hquiet : Quiet mgr := by
      refine run_induction (fun mgr _ => Quiet mgr) (quiet_start kernel controller) ?_
        hfirst hrun
      intro mgr now event next now' h hcond hstep
      exact h.steps hcond (steps_of_step_eq_ok hstep)
    obtain ⟨more, later, hmore, hlater, hpanic⟩ :=
      panics_of_not_sendsBeforeClose hquiet.closing hfail
    exact ⟨more, later, hmore, hlater, not_not.mpr (run_append_eq_error hrun hpanic)⟩

/-- `Close` without a timeout, seen from the loop, the workers and itself. -/
def gracefulClose : List Event :=
  [.close .terminate, .loop .terminated] ++ doneAfterWorkers ++ [.close .closeEventCh]

def blockedSender : List Event :=
  .loop .check :: .call (.issue (.sessionBatchDelete [])) :: gracefulClose

def lateCaller : List Event :=
  .loop .check :: (gracefulClose ++ [.call (.issue (.sessionBatchDelete []))])

/-- A call blocked in its send when `Close` is called, and one that comes later. -/
theorem send_on_closed_eventCh :
    (run (fun _ => .inMemory true) exampleStart blockedSender).map (fun _ => ()) =
      .error .sendOnClosedEventCh ∧
    (run (fun _ => .inMemory true) exampleStart lateCaller).map (fun _ => ()) =
      .error .sendOnClosedEventCh := by
  decide +kernel

end Udplb.Bpf.DSManager
