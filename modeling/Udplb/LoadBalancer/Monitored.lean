import Udplb.Controller.Health
import Udplb.LoadBalancer.Parallel

/-!
# The monitored load balancer

The whole program as `New` wires it: the load balancer with its packets in parallel, the
monitor that probes its backends, and the health loop between them.  Seen from the
controller and the monitor a run is a run of the health pipeline, in which packets, reads of
the ring buffer and the statements of `setObjects` do not show.

Once a complete round of probes has been handled and its objects are switched in, what
is forwarded goes to backends that answered their last probe.
-/

namespace Udplb.LoadBalancer

open Udplb.Foundation Udplb.Bpf Udplb.Monitor
open Udplb.Controller (filterAvailable settle lastState)
open Udplb.Controller.Health (Pipeline HealthLoop healthCh healthMux backendSpecs)

structure Monitored extends Parallel where
  monitor : BackendState
  ctxDone : Bool
  healthLoop : HealthLoop
  /-- The pending `SetObjects` call, if there is one, is the health loop's. -/
  healthCalls : Bool

namespace Monitored

def new (controller : Controller) : Monitored where
  toParallel := .new controller
  monitor := .new (backendSpecs controller.backends) healthMux
  ctxDone := false
  healthLoop := .selecting
  healthCalls := false

inductive Stop where
  | blocked
  | balancer (stop : LoadBalancer.Stop)
  | pipeline (stop : Controller.Health.Stop)

inductive Event where
  | arrive (packet : Packet)
  | proceed (i : Nat)
  | read
  | deliver (j : Nat)
  | drop (j : Nat)
  | start (order : Rlt.IterOrder)
  | manager (E : EbpfStruct)
  | handle (order : Rlt.IterOrder)
  | monitor (event : BackendState.Event)
  | cancelCtx
  | ctxDone
  | healthClosed

/-- What the controller and the monitor see. -/
def pipeline (s : Monitored) : Pipeline := ⟨s.lb.controller, s.monitor, s.ctxDone, s.healthLoop⟩

def parallelStep (H : Helpers) (config : KernelConfig) (s : Monitored)
    (event : Parallel.Event) : Except Stop (Monitored × List BackendState.Output) := do
  let (next, _) ← (s.toParallel.step H config event).mapError .balancer
  .ok ({ s with toParallel := next }, [])

/-- The health loop does not move while it waits for `SetObjects`. -/
def pipelineStep (s : Monitored) (event : Controller.Health.Event) :
    Except Stop (Monitored × List BackendState.Output) := do
  let (next, now) ← (Controller.Health.step s.pipeline event).mapError .pipeline
  if s.healthCalls && s.lb.pending.isSome && next.healthLoop != s.healthLoop then
    .error .blocked
  else
    .ok ({ s with
      monitor := next.monitor
      ctxDone := next.ctxDone
      healthLoop := next.healthLoop }, Controller.Health.monitorOut now)

def step (H : Helpers) (config : KernelConfig) (s : Monitored) :
    Event → Except Stop (Monitored × List BackendState.Output)
  | .arrive packet => s.parallelStep H config (.arrive packet)
  | .proceed i => s.parallelStep H config (.proceed i)
  | .read => s.parallelStep H config (.balancer .read)
  | .deliver j => s.parallelStep H config (.balancer (.deliver j))
  | .drop j => s.parallelStep H config (.balancer (.drop j))
  | .manager E => s.parallelStep H config (.balancer (.manager E))
  | .start order =>
      { s with healthCalls := false }.parallelStep H config (.balancer (.start order))
  | .handle order =>
      match s.healthLoop with
      | .received entry =>
          { s with healthLoop := .selecting, healthCalls := true }.parallelStep H config
            (.balancer (.health entry order))
      | _ => .error .blocked
  | .monitor event => s.pipelineStep (.monitor event)
  | .cancelCtx => s.pipelineStep .cancelCtx
  | .ctxDone => s.pipelineStep .ctxDone
  | .healthClosed => s.pipelineStep .healthClosed

abbrev run (H : Helpers) (config : KernelConfig) (s : Monitored) (events : List Event) :
    Except Stop (Monitored × List BackendState.Output) :=
  Foundation.run (step H config) s events

/-- The step does not lose a probe on its way to the health loop. -/
def NothingLost (s : Monitored) (_ : List BackendState.Output) : Event → Prop
  | .monitor event => ¬BackendState.Loses healthCh s.monitor event
  | .arrive _ | .proceed _ | .read | .deliver _ | .drop _ | .start _ | .manager _ | .handle _
  | .cancelCtx | .ctxDone | .healthClosed => True

instance (s : Monitored) (out : List BackendState.Output) :
    (event : Event) → Decidable (NothingLost s out event)
  | .monitor event => inferInstanceAs (Decidable (¬BackendState.Loses healthCh s.monitor event))
  | .arrive _ | .proceed _ | .read | .deliver _ | .drop _ | .start _ | .manager _ | .handle _
  | .cancelCtx | .ctxDone | .healthClosed => inferInstanceAs (Decidable True)

/-- No switchover comes while a task holds a pointer that it has read. -/
def NotOvertaken (s : Monitored) (_ : List BackendState.Output) : Event → Prop
  | .manager E => s.toParallel.NotOvertaken [] (.balancer (.manager E))
  | .arrive _ | .proceed _ | .read | .deliver _ | .drop _ | .start _ | .handle _ | .monitor _
  | .cancelCtx | .ctxDone | .healthClosed => True

instance (s : Monitored) (out : List BackendState.Output) :
    (event : Event) → Decidable (NotOvertaken s out event)
  | .manager E =>
      inferInstanceAs (Decidable (s.toParallel.NotOvertaken [] (.balancer (.manager E))))
  | .arrive _ | .proceed _ | .read | .deliver _ | .drop _ | .start _ | .handle _ | .monitor _
  | .cancelCtx | .ctxDone | .healthClosed => inferInstanceAs (Decidable True)

/-! ## One step -/

section Step

variable {H : Helpers} {config : KernelConfig} {s next : Monitored} {now : List BackendState.Output}

theorem controller_of_controllerStep {lb next : LoadBalancer} {e : Controller.Event}
    {results : List XdpResult} (h : controllerStep lb e = .ok (next, results)) :
    ∃ recomputations, lb.controller.step e = .ok (next.controller, recomputations) := by
  unfold controllerStep at h
  split at h
  · cases h
  · simp only [bind_eq_ok, mapError_eq_ok, Prod.exists] at h
    obtain ⟨c, recomputations, hstep, h⟩ := h
    refine ⟨recomputations, ?_⟩
    split at h
    · cases h
      exact hstep
    · simp only [bind_eq_ok, mapError_eq_ok] at h
      obtain ⟨objs, -, h⟩ := h
      cases h
      exact hstep

theorem parallelStep_eq_ok {event : Parallel.Event}
    (h : s.parallelStep H config event = .ok (next, now)) :
    ∃ s' records, s.toParallel.step H config event = .ok (s', records) ∧
      next = { s with toParallel := s' } ∧ now = [] := by
  simp only [parallelStep, bind_eq_ok, mapError_eq_ok, Prod.exists] at h
  obtain ⟨s', records, hstep, h⟩ := h
  cases h
  exact ⟨s', records, hstep, rfl, rfl⟩

theorem parallelStep_balancer_eq_ok {event : LoadBalancer.Event}
    (h : s.parallelStep H config (.balancer event) = .ok (next, now)) :
    ∃ lb results, s.lb.step H config event = .ok (lb, results) ∧
      next = { s with lb := lb } ∧ now = [] := by
  obtain ⟨s', records, hstep, rfl, rfl⟩ := parallelStep_eq_ok h
  obtain ⟨-, lb, results, hlb, rfl⟩ := Parallel.step_balancer_eq_ok hstep
  exact ⟨lb, results, hlb, rfl, rfl⟩

theorem controller_of_takes {lb lb' : LoadBalancer} {event : LoadBalancer.Event}
    (hnone : event.controller? = none) (hdeliver : ∀ j, event ≠ .deliver j)
    (h : Takes H config lb event lb') : lb'.controller = lb.controller := by
  cases h with
  | packet | read | drop | manager => rfl
  | deliver j => exact absurd rfl (hdeliver j)
  | quiet e hevent | passes e _ _ _ hevent =>
      rw [hnone] at hevent
      cases hevent

theorem step_iterate {p : Pipeline} {e : Controller.Event} {c : Controller}
    {recomputations : List Controller.Recomputation} (healthLoop : HealthLoop)
    (h : p.controller.step e = .ok (c, recomputations)) :
    p.iterate e healthLoop =
      .ok ({ p with controller := c, healthLoop := healthLoop },
        [.controller e recomputations]) := by
  rw [Pipeline.iterate, h]
  rfl

/-- The step of the pipeline that an event is, if it shows there. -/
def Event.inPipeline (s : Monitored) : Event → Option Controller.Health.Event
  | .deliver j => s.lb.queue[j]?.map .assignment
  | .start order => some (.start order true)
  | .handle order => some (.handle order true)
  | .monitor event => some (.monitor event)
  | .cancelCtx => some .cancelCtx
  | .ctxDone => some .ctxDone
  | .healthClosed => some .healthClosed
  | .arrive _ | .proceed _ | .read | .drop _ | .manager _ => none

/-- What an event does, as the pipeline sees it. -/
abbrev Seen (s next : Monitored) (now : List BackendState.Output)
    (event : Option Controller.Health.Event) : Prop :=
  Shows Controller.Health.step Controller.Health.monitorOut s.pipeline next.pipeline now event

theorem seen_of_iterate {e : Controller.Event} {event : Controller.Health.Event}
    {lb lb' : LoadBalancer} {results : List XdpResult} (healthLoop : HealthLoop) (calls : Bool)
    (hevent : Controller.Health.step s.pipeline event = s.pipeline.iterate e healthLoop)
    (hlb : lb'.controller = s.lb.controller) (h : controllerStep lb' e = .ok (lb, results)) :
    Seen s { s with lb := lb, healthLoop := healthLoop, healthCalls := calls } []
      (some event) := by
  obtain ⟨recomputations, hstep⟩ := controller_of_controllerStep h
  rw [hlb] at hstep
  refine .shown event [.controller e recomputations] ?_ rfl
  rw [hevent]
  exact step_iterate healthLoop hstep

theorem seen_of_pipelineStep {event : Controller.Health.Event}
    (hcontroller : ∀ p p' out, Controller.Health.step p event = .ok (p', out) →
      p'.controller = p.controller)
    (h : s.pipelineStep event = .ok (next, now)) : Seen s next now (some event) := by
  simp only [pipelineStep, bind_eq_ok, mapError_eq_ok, Prod.exists] at h
  obtain ⟨p, out, hstep, h⟩ := h
  split at h <;> cases h
  refine .shown event out ?_ rfl
  have hp := hcontroller _ _ _ hstep
  rw [hstep]
  simp only [pipeline] at hp ⊢
  rw [← hp]

theorem controller_of_leave {p p' : Pipeline} {ready : Bool}
    {out : List Controller.Health.Output} (h : p.leave ready = .ok (p', out)) :
    p'.controller = p.controller := by
  unfold Pipeline.leave at h
  split at h <;> cases h
  rfl

/-- The tasks do not show in the pipeline. -/
theorem seen_of_processorStep {event : Processors.Event} {s' : Parallel}
    {records : List (Nat × Assignment)}
    (h : s.toParallel.processorStep H config event = .ok (s', records)) :
    Seen s { s with toParallel := s' } [] none := by
  obtain ⟨m, -, rfl⟩ := Parallel.processorStep_eq_ok h
  exact .hidden rfl rfl

theorem seen_of_step_eq_ok {event : Event} (h : step H config s event = .ok (next, now)) :
    Seen s next now (event.inPipeline s) := by
  cases event with
  | arrive | proceed =>
      obtain ⟨s', records, hstep, rfl, rfl⟩ := parallelStep_eq_ok h
      exact seen_of_processorStep hstep
  | read | drop j | manager E =>
      obtain ⟨lb, results, hstep, rfl, rfl⟩ := parallelStep_balancer_eq_ok h
      have hcontroller := controller_of_takes rfl (by simp) (takes_of_step_eq_ok hstep)
      exact .hidden (by simp only [pipeline, hcontroller]) rfl
  | deliver j =>
      obtain ⟨lb, results, hstep, rfl, rfl⟩ := parallelStep_balancer_eq_ok h
      simp only [LoadBalancer.step] at hstep
      split at hstep
      · cases hstep
      · rename_i a hqueue
        simp only [Event.inPipeline, hqueue, Option.map_some]
        refine seen_of_iterate s.healthLoop s.healthCalls rfl ?_ hstep
        rfl
  | start order =>
      obtain ⟨lb, results, hstep, rfl, rfl⟩ := parallelStep_balancer_eq_ok h
      exact seen_of_iterate s.healthLoop false rfl rfl hstep
  | handle order =>
      simp only [step] at h
      split at h
      · rename_i entry hloop
        obtain ⟨lb, results, hstep, rfl, rfl⟩ := parallelStep_balancer_eq_ok h
        refine seen_of_iterate (e := .health entry order true) .selecting true ?_ rfl hstep
        simp only [Controller.Health.step, pipeline, hloop]
      · cases h
  | monitor event =>
      refine seen_of_pipelineStep ?_ h
      intro p p' out hstep
      simp only [Controller.Health.step, bind_eq_ok, Prod.exists] at hstep
      obtain ⟨monitor, outputs, -, healthLoop, -, hnext⟩ := hstep
      cases hnext
      rfl
  | cancelCtx =>
      refine seen_of_pipelineStep ?_ h
      intro p p' out hstep
      cases hstep
      rfl
  | ctxDone | healthClosed =>
      exact seen_of_pipelineStep (fun p p' out hstep => controller_of_leave hstep) h

theorem nothingLost_inPipeline {event : Event} {before : List BackendState.Output}
    {before' : List Controller.Health.Output} {e : Controller.Health.Event}
    (he : event.inPipeline s = some e) (h : NothingLost s before event) :
    Controller.Health.NothingLost s.pipeline before' e := by
  cases event with
  | arrive | proceed | read | drop | manager => cases he
  | deliver j =>
      obtain ⟨a, -, rfl⟩ := Option.map_eq_some_iff.mp he
      trivial
  | start | handle | cancelCtx | ctxDone | healthClosed =>
      cases he
      trivial
  | monitor event =>
      cases he
      exact h

/-- A run of the whole program is a run of the pipeline. -/
theorem run_pipeline {events : List Event} {out : List BackendState.Output}
    (h : s.run H config events = .ok (next, out)) :
    ∃ events' out', Foundation.run Controller.Health.step s.pipeline events' =
        .ok (next.pipeline, out') ∧ out = Controller.Health.monitorOut out' ∧
      ∀ before before', Along (step H config) NothingLost s before events →
        Along Controller.Health.step Controller.Health.NothingLost s.pipeline before' events' := by
  refine run_refines pipeline id Controller.Health.monitorOut (fun _ _ => rfl)
    Controller.Health.monitorOut_append (fun s event => event.inPipeline s) ?_ ?_ h
  · intro s event next now hstep
    exact seen_of_step_eq_ok hstep
  · intro s before before' event e he hkept
    exact nothingLost_inPipeline he hkept

/-! ## Whole runs -/

/-- While some backend is available, the list passed last is that of the available ones. -/
def UpToDate (lb : LoadBalancer) : Prop :=
  lb.passed ≠ [] → filterAvailable lb.controller.backends ≠ [] →
    lb.passed = (filterAvailable lb.controller.backends).map (·.id)

theorem upToDate_controllerStep {lb next : LoadBalancer} {e : Controller.Event}
    {results : List XdpResult} (h : UpToDate lb)
    (hstep : controllerStep lb e = .ok (next, results)) : UpToDate next := by
  obtain ⟨-, c, outs, hsteps, hnext⟩ := controllerStep_eq_ok hstep
  cases hsteps with
  | assigned a =>
      rcases hnext with ⟨-, rfl⟩ | ⟨args, objs, hcall, -⟩
      · simpa [UpToDate] using h
      · cases hcall
  | unchanged =>
      rcases hnext with ⟨-, rfl⟩ | ⟨args, objs, hcall, -⟩
      · exact h
      · cases hcall
  | recomputed hrecomputes hr =>
      cases hr with
      | skipped order applied hnone =>
          rcases hnext with ⟨-, rfl⟩ | ⟨args, objs, hcall, -⟩
          · exact fun _ hsome => absurd hnone hsome
          · cases hcall
      | called order applied table hsome htable =>
          rcases hnext with ⟨hcall, -⟩ | ⟨args, objs, hcall, -, rfl⟩
          · cases hcall
          · cases hcall
            exact fun _ _ => rfl

theorem upToDate_step {lb next : LoadBalancer} {event : LoadBalancer.Event}
    {results : List XdpResult} (h : UpToDate lb)
    (hstep : lb.step H config event = .ok (next, results)) : UpToDate next := by
  cases event with
  | packet p =>
      cases hstep
      exact h
  | read | drop | manager =>
      simp only [LoadBalancer.step] at hstep
      split at hstep <;> cases hstep
      exact h
  | deliver j =>
      simp only [LoadBalancer.step] at hstep
      split at hstep
      · cases hstep
      · refine upToDate_controllerStep ?_ hstep
        exact h
  | health | start => exact upToDate_controllerStep h hstep

theorem upToDate_parallel {p p' : Parallel} {event : Parallel.Event}
    {records : List (Nat × Assignment)} (h : UpToDate p.lb)
    (hstep : p.step H config event = .ok (p', records)) : UpToDate p'.lb := by
  cases event with
  | arrive | proceed =>
      obtain ⟨m, -, rfl⟩ := Parallel.processorStep_eq_ok hstep
      exact h
  | balancer event =>
      obtain ⟨-, lb, results, hlb, rfl⟩ := Parallel.step_balancer_eq_ok hstep
      exact upToDate_step h hlb

/-- A step of the whole program is one of the load balancer, or does not touch it. -/
theorem parallel_of_step_eq_ok {event : Event} (h : step H config s event = .ok (next, now)) :
    next.toParallel = s.toParallel ∨
      ∃ e records, s.toParallel.step H config e = .ok (next.toParallel, records) ∧
        ∀ out, NotOvertaken s out event → s.toParallel.NotOvertaken [] e := by
  cases event with
  | arrive | proceed | read | deliver | drop | manager | start =>
      obtain ⟨s', records, hstep, rfl, -⟩ := parallelStep_eq_ok h
      exact Or.inr ⟨_, records, hstep, fun _ hcond => hcond⟩
  | handle order =>
      simp only [step] at h
      split at h
      · obtain ⟨s', records, hstep, rfl, -⟩ := parallelStep_eq_ok h
        exact Or.inr ⟨_, records, hstep, fun _ hcond => hcond⟩
      · cases h
  | monitor | cancelCtx | ctxDone | healthClosed =>
      simp only [step, pipelineStep, bind_eq_ok, Prod.exists] at h
      obtain ⟨p, out, -, h⟩ := h
      split at h <;> cases h
      exact Or.inl rfl

/-- What every step that overtakes no packet keeps, every such run keeps. -/
theorem run_parallel (Inv : Parallel → Prop)
    (hstep : ∀ p e p' records, Inv p → p.NotOvertaken [] e →
      p.step H config e = .ok (p', records) → Inv p')
    {events : List Event} {out : List BackendState.Output} (hstart : Inv s.toParallel)
    (hcond : Along (step H config) NotOvertaken s [] events)
    (hrun : s.run H config events = .ok (next, out)) : Inv next.toParallel := by
  refine run_induction (fun s _ => Inv s.toParallel) hstart ?_ hcond hrun
  intro s now event next now' hs hevent h
  rcases parallel_of_step_eq_ok h with hsame | ⟨e, records, he, hnotOvertaken⟩
  · rw [hsame]
    exact hs
  · exact hstep _ _ _ _ hs (hnotOvertaken now hevent) he

end Step

/-- Nothing is lost in the round that a tick starts, as the pipeline sees it. -/
theorem round_pipeline {H : Helpers} {config : KernelConfig} {backends : List Backend}
    {first rest : List Event} {order : List UUID} {middle last : Monitored}
    {now later : List BackendState.Output}
    (hfirst : (new (.init backends)).run H config first = .ok (middle, now))
    (hround : middle.run H config (.monitor (.tick order) :: rest) = .ok (last, later))
    (hkept : Along (step H config) NothingLost middle now (.monitor (.tick order) :: rest)) :
    ∃ flying before out, Controller.Health.Round backends flying before last.pipeline out ∧
      now ++ later = Controller.Health.monitorOut out := by
  obtain ⟨events, before, hbefore, rfl, -⟩ := run_pipeline hfirst
  obtain ⟨next, tick, later, htick, hrest, rfl⟩ := run_cons_eq_ok.mp hround
  rw [Along, htick] at hkept
  obtain ⟨events', after, hafter, rfl, halong⟩ := run_pipeline hrest
  cases seen_of_step_eq_ok htick with
  | shown _ tick' hstep hseen =>
      have hsound : Controller.Health.Sound backends middle.pipeline before :=
        Controller.Health.sound_run hbefore
      have hrun := run_cons_eq_ok.mpr ⟨_, _, _, hstep, hafter, rfl⟩
      refine ⟨_, _, _, Controller.Health.round_run hsound hrun ?_, ?_⟩
      · rw [Along, hstep]
        exact ⟨hkept.1, halong _ _ hkept.2⟩
      · simp only [Controller.Health.monitorOut_append, hseen]

/--
No switchover overtakes a packet in flight, and from a tick on no probe gets lost.  When the
round is over, everything probed has been handled, some backend answered its last probe, and
the list passed last to `SetObjects` is the one switched in last, then a packet that leaves
with `XDP_TX` goes to a backend that answered its last probe.
-/
theorem forwarded_to_answering {host : Controller.Host} {config : Config} {c : Controller}
    {kernelConfig : KernelConfig} (hnew : Controller.new host config = .ok (c, kernelConfig))
    (hdistinct : (c.backends.map (·.id)).Nodup) (H : Helpers) (first rest : List Event)
    (order : List UUID) (middle last next : Monitored)
    (now later : List BackendState.Output)
    (hfirst : (new c).run H kernelConfig first = .ok (middle, now))
    (hround : middle.run H kernelConfig (.monitor (.tick order) :: rest) = .ok (last, later))
    (hcond : Along (step H kernelConfig) NotOvertaken (new c) []
      (first ++ .monitor (.tick order) :: rest))
    (hkept : Along (step H kernelConfig) NothingLost middle now
      (.monitor (.tick order) :: rest))
    (hdone : last.monitor.loop = .selecting)
    (hdrained : Controller.Health.inFlight last.pipeline = [])
    (hanswers : ∃ b ∈ c.backends,
      lastState (BackendState.probed (now ++ later)) b.id = some .available)
    (list : List BackendSpecT) (hswitched : last.lb.switched = some list)
    (hlatest : list.map (·.id) = last.lb.passed) (i : Nat)
    (hleaves : step H kernelConfig last (.proceed i) = .ok (next, [])) (packet : Packet)
    (frame : Frame) (htx : next.tasks[i]? = some ⟨packet, .exited .tx frame⟩) :
    ∃ backend ∈ list, RewrittenTo backend frame ∧
      lastState (BackendState.probed (now ++ later)) backend.id = some .available := by
  obtain ⟨hpos, hinit⟩ := Parallel.sound_of_new hnew H
  obtain ⟨backends, hbuild, rfl, -⟩ := Controller.new_spec hnew
  have hrun := run_append_eq_ok.mpr ⟨middle, now, later, hfirst, hround, rfl⟩
  have hsound := run_parallel (Parallel.Sound H kernelConfig)
    (fun p e p' records h he hstep => Parallel.sound_step hpos h he hstep) hinit hcond hrun
  have hupToDate := run_parallel (fun p => UpToDate p.lb)
    (fun p e p' records h _ hstep => upToDate_parallel h hstep) (fun hne => absurd rfl hne)
    hcond hrun
  obtain ⟨flying, before, out, hlast, hout⟩ := round_pipeline hfirst hround hkept
  have hprobed : BackendState.probed (now ++ later) = Controller.Health.probed out :=
    congrArg BackendState.probed hout
  obtain ⟨s', records, hstep, rfl, -⟩ := parallelStep_eq_ok hleaves
  obtain ⟨backend, hmem, hrewritten⟩ :=
    Parallel.forwarded_of_sound hpos hsound hstep htx hswitched
  refine ⟨backend, hmem, hrewritten, ?_⟩
  have hid : backend.id ∈ last.lb.passed := by
    rw [← hlatest]
    exact List.mem_map_of_mem hmem
  have hsome : filterAvailable last.lb.controller.backends ≠ [] := by
    obtain ⟨b, hb, havailable⟩ := hanswers
    have hcomplete := Controller.Health.failoverComplete_of_nodup hbuild hdistinct
      (lastState (Controller.Health.probed out))
    rw [← hlast.backends_eq hdone hdrained] at hcomplete
    refine List.ne_nil_of_mem (hcomplete.mem_of_healthy b hb ?_)
    intro state hstate
    rw [← hprobed, havailable] at hstate
    exact (Option.some.inj hstate).symm
  rw [hupToDate (List.ne_nil_of_mem hid) hsome] at hid
  obtain ⟨b, hb, hbid⟩ := List.mem_map.mp hid
  rw [hprobed, ← hbid]
  exact hlast.answered hbuild hdistinct hdone hdrained hb

/-- A probe, and what becomes of it at the turn of the health loop. -/
def probeEvents (result : ProbeResult) (choice : Util.WatcherMux.Choice) : List Event :=
  [.monitor (.probe result), .monitor (.mux (.snapshot [healthCh])),
    .monitor (.mux (.select choice)), .monitor (.mux .dispatched)]

def takeEvent : Event := .monitor (.mux (.receive healthCh))

/-- The probe that finds the first backend dead gets lost. -/
def lossyEvents : List Event :=
  applies .manager (.start .ascending) ++ [.monitor (.tick Controller.Health.exampleIds)] ++
    probeEvents Controller.Health.timesOut .timeout ++
    probeEvents Controller.Health.answers .send ++
    [.monitor .roundDone, takeEvent, .handle .ascending]

/-- The next round, in the other order, and a packet before its last statement. -/
def roundEvents : List Event :=
  probeEvents Controller.Health.answers .send ++ probeEvents Controller.Health.timesOut .send ++
    [.monitor .roundDone, takeEvent, .handle .ascending, takeEvent] ++
    applies .manager (.handle .ascending) ++
    .arrive examplePacket :: List.replicate 9 (.proceed 0)

def exampleTick : Event := .monitor (.tick Controller.Health.exampleIds.reverse)

theorem forwarded_to_answering_after_loss :
    ∃ middle last next now later list frame,
      (new Controller.exampleController).run .onesComplement testConfig lossyEvents =
        .ok (middle, now) ∧
      middle.run .onesComplement testConfig (exampleTick :: roundEvents) = .ok (last, later) ∧
      middle.lb.passed = Controller.Health.exampleIds ∧
      last.lb.passed = [Controller.exampleId "10.0.0.11"] ∧
      last.lb.switched = some list ∧
      step .onesComplement testConfig last (.proceed 0) = .ok (next, []) ∧
      next.tasks[0]? = some ⟨examplePacket, .exited .tx frame⟩ ∧
      ∃ backend ∈ list, RewrittenTo backend frame ∧
        lastState (BackendState.probed (now ++ later)) backend.id = some .available := by
  have hlossy : ((new Controller.exampleController).run .onesComplement testConfig
      lossyEvents).toOption.map (fun result => (result.1.lb.passed,
        decide (Along (step .onesComplement testConfig) NothingLost result.1 result.2
          (exampleTick :: roundEvents)))) = some (Controller.Health.exampleIds, true) := by
    decide +kernel
  obtain ⟨⟨middle, now⟩, hmiddle, hresult⟩ := returns_of_toOption hlossy
  obtain ⟨hpassed, hkept⟩ := Prod.mk.inj hresult
  have hboth : ((new Controller.exampleController).run .onesComplement testConfig
      (lossyEvents ++ exampleTick :: roundEvents)).toOption.map (fun result => decide
        (result.1.lb.passed = [Controller.exampleId "10.0.0.11"] ∧
          result.1.lb.switched.map (fun list => list.map (·.id)) =
            some [Controller.exampleId "10.0.0.11"] ∧
          result.1.monitor.loop = .selecting ∧
          Controller.Health.inFlight result.1.pipeline = [] ∧
          lastState (BackendState.probed result.2) (Controller.exampleId "10.0.0.11") =
            some .available)) = some true := by
    decide +kernel
  have hleaving : ((new Controller.exampleController).run .onesComplement testConfig
      (lossyEvents ++ exampleTick :: roundEvents ++ [.proceed 0])).toOption.map (fun result =>
        result.1.tasks[0]?.map Processors.Task.leftWith) =
      some (some (examplePacket, some .tx)) := by
    decide +kernel
  obtain ⟨⟨last, out⟩, hrun, hresult'⟩ := returns_of_toOption hboth
  obtain ⟨hpassed', hswitched, hdone, hdrained, hanswers⟩ := of_decide_eq_true hresult'
  obtain ⟨list, hlist, hids⟩ := Option.map_eq_some_iff.mp hswitched
  obtain ⟨middle', now', later, hmiddle', hround, rfl⟩ := run_append_eq_ok.mp hrun
  cases hmiddle.symm.trans hmiddle'
  obtain ⟨⟨next, all⟩, hall, hexited⟩ := returns_of_toOption hleaving
  obtain ⟨last', out', now', hrun', hlast, -⟩ := run_append_eq_ok.mp hall
  cases hrun.symm.trans hrun'
  obtain ⟨next', now'', later', hleaves, hrest, -⟩ := run_cons_eq_ok.mp hlast
  cases hrest
  obtain ⟨s', records, -, -, rfl⟩ := parallelStep_eq_ok hleaves
  obtain ⟨frame, htask⟩ := Processors.exited_of_leftWith hexited
  refine ⟨middle, last, next, now, later, list, frame, hmiddle, hround, hpassed, hpassed',
    hlist, hleaves, htask, ?_⟩
  exact forwarded_to_answering new_exampleController (by decide +kernel) .onesComplement
    lossyEvents roundEvents _ middle last next now later hmiddle hround (by decide +kernel)
    (of_decide_eq_true hkept) hdone hdrained
    ⟨_, List.getElem_mem (n := 1) (by decide +kernel), hanswers⟩ list hlist
    (hids.trans hpassed'.symm) 0 hleaves examplePacket frame htask

end Monitored

end Udplb.LoadBalancer
