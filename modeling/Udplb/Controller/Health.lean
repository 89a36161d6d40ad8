import Udplb.Controller.Failover
import Udplb.Monitor.BackendState

/-!
# From the probes to the lookup table

The monitor's probes reach the health loop of the controller through a watcher whose
channel holds a hundred of them; a dispatch that finds it full gives up after a
second, and its probe is lost.  The loop takes what gets through and recomputes the
objects of the kernel when the state of a backend has changed.

Whatever was lost, one complete round of probes of which nothing is lost brings the
controller up to date.
-/

namespace Udplb.Controller.Health

open Udplb.Foundation Udplb.Monitor Udplb.Util

inductive HealthLoop where
  | selecting
  | received (entry : BackendStatusEntry)
  | returned
  deriving DecidableEq, Repr

structure Pipeline where
  controller : Controller
  monitor : BackendState
  ctxDone : Bool
  healthLoop : HealthLoop

/-- The position of the watcher that `New` registers for the loop. -/
def healthCh : Nat := 0

def backendSpecs (backends : List Backend) : AssocMap UUID BackendSpec :=
  backends.foldl (fun specs b => specs.insert b.id b.spec) ∅

def healthMux : Producer BackendStatusEntry :=
  ⟨{ WatcherMux.new 100 .withTimeout with watchers := [⟨[], false, false, none, true⟩] },
    .outside⟩

/-- The controller after `New`; its loops are started by `Run`. -/
def new (backends : List Backend) : Pipeline where
  controller := init backends
  monitor := .new (backendSpecs backends) healthMux
  ctxDone := false
  healthLoop := .selecting

inductive Stop where
  | blocked
  | mux (stop : WatcherMux.Stop)
  | panicked (err : RuntimeError)

inductive Event where
  | monitor (event : BackendState.Event)
  | assignment (a : Assignment)
  | start (order : Rlt.IterOrder) (applied : Bool)
  | handle (order : Rlt.IterOrder) (applied : Bool)
  | cancelCtx
  | ctxDone
  | healthClosed

inductive Output where
  | monitor (output : BackendState.Output)
  | controller (event : Controller.Event) (out : List Recomputation)

/-- The health loop alone takes from its channel, and only in its select. -/
def HealthLoop.take (loop : HealthLoop) : List BackendStatusEntry → Except Stop HealthLoop
  | [] => .ok loop
  | [entry] =>
      match loop with
      | .selecting => .ok (.received entry)
      | _ => .error .blocked
  | _ => .error .blocked

/-- An iteration under the lock. -/
def Pipeline.iterate (s : Pipeline) (event : Controller.Event) (healthLoop : HealthLoop) :
    Except Stop (Pipeline × List Output) := do
  let (controller, out) ← (s.controller.step event).mapError .panicked
  .ok ({ s with controller := controller, healthLoop := healthLoop }, [.controller event out])

def Pipeline.leave (s : Pipeline) (ready : Bool) : Except Stop (Pipeline × List Output) :=
  match s.healthLoop, ready with
  | .selecting, true => .ok ({ s with healthLoop := .returned }, [])
  | _, _ => .error .blocked

def step (s : Pipeline) : Event → Except Stop (Pipeline × List Output)
  | .monitor event => do
      let (monitor, now) ← (s.monitor.step event).mapError .mux
      let healthLoop ← s.healthLoop.take
        (WatcherMux.receivedBy healthCh (BackendState.muxOut now))
      .ok ({ s with monitor := monitor, healthLoop := healthLoop }, now.map .monitor)
  | .assignment a => s.iterate (.assignment a) s.healthLoop
  | .start order applied => s.iterate (.start order applied) s.healthLoop
  | .handle order applied =>
      match s.healthLoop with
      | .received entry => s.iterate (.health entry order applied) .selecting
      | _ => .error .blocked
  | .cancelCtx => .ok ({ s with ctxDone := true }, [])
  | .ctxDone => s.leave s.ctxDone
  | .healthClosed =>
      s.leave (s.monitor.watcherMux.mux.watchers[healthCh]?.any fun w =>
        w.chClosed && w.ch.isEmpty)

/-! ## What a run has shown -/

def monitorOut (out : List Output) : List BackendState.Output :=
  out.filterMap fun
    | .monitor output => some output
    | .controller _ _ => none

/-- The iterations of the controller. -/
def controlled (out : List Output) : List Controller.Event :=
  out.filterMap fun
    | .controller event _ => some event
    | .monitor _ => none

def recomputed (out : List Output) : List Recomputation :=
  out.flatMap fun
    | .controller _ recomputations => recomputations
    | .monitor _ => []

def probed (out : List Output) : List BackendStatusEntry := BackendState.probed (monitorOut out)

/-- What the health loop has handled. -/
def handled (out : List Output) : List BackendStatusEntry := healthEntries (controlled out)

def HealthLoop.inHand : HealthLoop → List BackendStatusEntry
  | .received entry => [entry]
  | .selecting | .returned => []

structure Sound (backends : List Backend) (s : Pipeline) (out : List Output) : Prop where
  monitor : s.monitor.Sound (monitorOut out)
  specs : s.monitor.backends = backendSpecs backends
  taken : WatcherMux.receivedBy healthCh (BackendState.muxOut (monitorOut out)) =
    handled out ++ s.healthLoop.inHand
  controlled : (init backends).run (controlled out) = .ok (s.controller, recomputed out)

theorem sound_new (backends : List Backend) : Sound backends (new backends) [] where
  monitor := by
    have hmux : Producer.step (Producer.new 100 .withTimeout : Producer BackendStatusEntry)
        (.watch none) = .ok (healthMux, []) := rfl
    exact ⟨Producer.sound_step (Producer.sound_new 100 .withTimeout) hmux, rfl⟩
  specs := rfl
  taken := rfl
  controlled := rfl

/-! ## One step -/

section Views

variable (out : List Output)

theorem views_monitor (now : List BackendState.Output) :
    monitorOut (out ++ now.map .monitor) = monitorOut out ++ now ∧
      Health.controlled (out ++ now.map .monitor) = Health.controlled out ∧
      recomputed (out ++ now.map .monitor) = recomputed out := by
  simp [monitorOut, Health.controlled, recomputed, List.filterMap_map, List.flatMap_map]

theorem views_controller (event : Controller.Event) (recomputations : List Recomputation) :
    monitorOut (out ++ [.controller event recomputations]) = monitorOut out ∧
      Health.controlled (out ++ [.controller event recomputations]) =
        Health.controlled out ++ [event] ∧
      recomputed (out ++ [.controller event recomputations]) =
        recomputed out ++ recomputations := by
  simp [monitorOut, Health.controlled, recomputed]

end Views

/-- What a step can do. -/
inductive Steps (s : Pipeline) : Event → Pipeline → List Output → Prop
  | monitored (event : BackendState.Event) (monitor : BackendState)
      (now : List BackendState.Output) (healthLoop : HealthLoop)
      (hmonitor : BackendState.Steps s.monitor event monitor now)
      (htaken : healthLoop.inHand = s.healthLoop.inHand ++
        WatcherMux.receivedBy healthCh (BackendState.muxOut now)) :
      Steps s (.monitor event) { s with monitor := monitor, healthLoop := healthLoop }
        (now.map .monitor)
  | controlled (event : Event) (iteration : Controller.Event) (controller : Controller)
      (recomputations : List Recomputation) (healthLoop : HealthLoop)
      (hstep : s.controller.step iteration = .ok (controller, recomputations))
      (hinHand : s.healthLoop.inHand = iteration.entry?.toList ++ healthLoop.inHand) :
      Steps s event { s with controller := controller, healthLoop := healthLoop }
        [.controller iteration recomputations]
  | left (event : Event) (ctxDone : Bool) (healthLoop : HealthLoop)
      (hinHand : healthLoop.inHand = s.healthLoop.inHand) :
      Steps s event { s with ctxDone := ctxDone, healthLoop := healthLoop } []

theorem inHand_of_take {loop next : HealthLoop} {entries : List BackendStatusEntry}
    (h : loop.take entries = .ok next) : next.inHand = loop.inHand ++ entries := by
  unfold HealthLoop.take at h
  split at h
  · cases h
    exact (List.append_nil _).symm
  · split at h <;> cases h
    rfl
  · cases h

theorem steps_of_iterate {s next : Pipeline} {event : Event} {iteration : Controller.Event}
    {healthLoop : HealthLoop} {now : List Output}
    (hinHand : s.healthLoop.inHand = iteration.entry?.toList ++ healthLoop.inHand)
    (h : s.iterate iteration healthLoop = .ok (next, now)) : Steps s event next now := by
  simp only [Pipeline.iterate, bind_eq_ok, mapError_eq_ok, Prod.exists] at h
  obtain ⟨controller, recomputations, hstep, hnext⟩ := h
  cases hnext
  exact .controlled event iteration controller recomputations healthLoop hstep hinHand

theorem steps_of_leave {s next : Pipeline} {event : Event} {ready : Bool} {now : List Output}
    (h : s.leave ready = .ok (next, now)) : Steps s event next now := by
  unfold Pipeline.leave at h
  split at h <;> cases h
  rename_i hloop
  exact .left event s.ctxDone .returned (by rw [hloop]; rfl)

theorem steps_of_step_eq_ok {s next : Pipeline} {event : Event} {now : List Output}
    (h : step s event = .ok (next, now)) : Steps s event next now := by
  cases event with
  | monitor event =>
      simp only [step, bind_eq_ok, mapError_eq_ok, Prod.exists] at h
      obtain ⟨monitor, outputs, hmonitor, healthLoop, htake, hnext⟩ := h
      cases hnext
      exact .monitored event monitor outputs healthLoop
        (BackendState.steps_of_step_eq_ok hmonitor) (inHand_of_take htake)
  | assignment a => exact steps_of_iterate rfl h
  | start order applied => exact steps_of_iterate rfl h
  | handle order applied =>
      simp only [step] at h
      split at h
      · rename_i entry hloop
        refine steps_of_iterate ?_ h
        rw [hloop]
        rfl
      · cases h
  | cancelCtx =>
      cases h
      exact .left .cancelCtx true s.healthLoop rfl
  | ctxDone | healthClosed => exact steps_of_leave h

theorem steps_sound {backends : List Backend} {s next : Pipeline} {event : Event}
    {out now : List Output} (h : Sound backends s out) (hsteps : Steps s event next now) :
    Sound backends next (out ++ now) := by
  cases hsteps with
  | monitored event monitor now healthLoop hmonitor htaken =>
      obtain ⟨hout, hcontrolled, hrecomputed⟩ := views_monitor out now
      refine ⟨?_, ?_, ?_, ?_⟩
      · rw [hout]
        exact BackendState.steps_sound h.monitor hmonitor
      · rw [← h.specs]
        cases hmonitor <;> rfl
      · have hhandled : handled (out ++ now.map .monitor) = handled out :=
          congrArg healthEntries hcontrolled
        rw [hout, BackendState.muxOut_append, WatcherMux.receivedBy_append, h.taken, hhandled,
          List.append_assoc, ← htaken]
      · rw [hcontrolled, hrecomputed]
        exact h.controlled
  | controlled event iteration controller recomputations healthLoop hstep hinHand =>
      obtain ⟨hout, hcontrolled, hrecomputed⟩ := views_controller out iteration recomputations
      refine ⟨?_, h.specs, ?_, ?_⟩
      · rw [hout]
        exact h.monitor
      · have hhandled : handled (out ++ [.controller iteration recomputations]) =
            handled out ++ iteration.entry?.toList := by
          rw [handled, hcontrolled, healthEntries_append_singleton]
          rfl
        rw [hout, h.taken, hhandled, hinHand, List.append_assoc]
      · rw [hcontrolled, hrecomputed]
        exact run_append_eq_ok.mpr ⟨_, _, _, h.controlled,
          run_cons_eq_ok.mpr ⟨_, _, _, hstep, rfl, (List.append_nil _).symm⟩, rfl⟩
  | left event ctxDone healthLoop hinHand =>
      rw [List.append_nil]
      refine ⟨h.monitor, h.specs, ?_, h.controlled⟩
      rw [hinHand]
      exact h.taken

theorem sound_run {backends : List Backend} {events : List Event} {last : Pipeline}
    {out : List Output} (hrun : Foundation.run step (new backends) events = .ok (last, out)) :
    Sound backends last out := by
  refine run_keeps (Sound backends) (sound_new backends) ?_ hrun
  intro s now event next now' h hstep
  exact steps_sound h (steps_of_step_eq_ok hstep)

theorem Sound.handled_sublist {backends : List Backend} {s : Pipeline} {out : List Output}
    (h : Sound backends s out) : (handled out).Sublist (probed out) := by
  have htaken := h.monitor.receivedBy_sublist healthCh
  rw [h.taken] at htaken
  exact (List.sublist_append_left _ _).trans htaken

theorem Sound.backends_eq {backends : List Backend} {s : Pipeline} {out : List Output}
    (h : Sound backends s out) :
    s.controller.backends = settle (lastState (handled out)) backends :=
  run_backends h.controlled

/-! ## A round of which nothing is lost -/

/-- What was probed and is not handled yet. -/
def inFlight (s : Pipeline) : List BackendStatusEntry :=
  s.healthLoop.inHand ++ s.monitor.watcherMux.inFlight healthCh

/-- The step does not lose a probe on its way to the health loop. -/
def NothingLost (s : Pipeline) (_ : List Output) : Event → Prop
  | .monitor event => ¬BackendState.Loses healthCh s.monitor event
  | .assignment _ | .start _ _ | .handle _ _ | .cancelCtx | .ctxDone | .healthClosed => True

instance (s : Pipeline) (out : List Output) : (event : Event) → Decidable (NothingLost s out event)
  | .monitor event => inferInstanceAs (Decidable (¬BackendState.Loses healthCh s.monitor event))
  | .assignment _ | .start _ _ | .handle _ _ | .cancelCtx | .ctxDone | .healthClosed =>
      inferInstanceAs (Decidable True)

theorem steps_inFlight {backends : List Backend} {s next : Pipeline} {event : Event}
    {out now : List Output} (h : Sound backends s out) (hkept : NothingLost s out event)
    (hsteps : Steps s event next now) :
    handled now ++ inFlight next = inFlight s ++ probed now := by
  cases hsteps with
  | monitored event monitor now healthLoop hmonitor htaken =>
      obtain ⟨hout, hcontrolled, -⟩ := views_monitor [] now
      have hhandled : handled (now.map .monitor) = [] := congrArg healthEntries hcontrolled
      have hprobed : probed (now.map .monitor) = BackendState.probed now :=
        congrArg BackendState.probed hout
      have hmoved := BackendState.steps_inFlight h.monitor hkept hmonitor
      rw [hhandled, hprobed, List.nil_append, inFlight, htaken, List.append_assoc, hmoved,
        inFlight, List.append_assoc]
  | controlled event iteration controller recomputations healthLoop hstep hinHand =>
      have hhandled : handled [.controller iteration recomputations] =
          iteration.entry?.toList := by
        cases iteration <;> rfl
      have hprobed : probed [.controller iteration recomputations] = [] := rfl
      rw [hhandled, hprobed, List.append_nil, inFlight, inFlight, hinHand, List.append_assoc]
  | left event ctxDone healthLoop hinHand =>
      rw [inFlight, inFlight, hinHand]
      exact (List.append_nil _).symm

theorem steps_round {s next : Pipeline} {event : Event} {out now : List Output}
    (hsteps : Steps s event next now)
    (hround : ∀ id ∈ s.monitor.backends.keys,
      id ∈ s.monitor.loop.remaining ∨ id ∈ (probed out).map (·.backendId)) :
    ∀ id ∈ next.monitor.backends.keys,
      id ∈ next.monitor.loop.remaining ∨ id ∈ (probed (out ++ now)).map (·.backendId) := by
  cases hsteps with
  | monitored event monitor now healthLoop hmonitor htaken =>
      rw [probed, (views_monitor out now).1]
      exact BackendState.steps_round hmonitor hround
  | controlled event iteration controller recomputations =>
      rw [probed, (views_controller out iteration recomputations).1]
      exact hround
  | left =>
      rw [List.append_nil]
      exact hround

/-- Since the tick: what was in flight then and what was probed was handled in turn. -/
structure Round (backends : List Backend) (flying : List BackendStatusEntry)
    (now : List Output) (s : Pipeline) (out : List Output) : Prop where
  sound : Sound backends s out
  since : ∃ later, out = now ++ later ∧
    handled later ++ inFlight s = flying ++ probed later ∧
    ∀ id ∈ s.monitor.backends.keys,
      id ∈ s.monitor.loop.remaining ∨ id ∈ (probed later).map (·.backendId)

@[simp] theorem monitorOut_append (first second : List Output) :
    monitorOut (first ++ second) = monitorOut first ++ monitorOut second := by
  simp [monitorOut]

@[simp] theorem probed_append (first second : List Output) :
    probed (first ++ second) = probed first ++ probed second := by
  simp [probed]

@[simp] theorem handled_append (first second : List Output) :
    handled (first ++ second) = handled first ++ handled second := by
  simp [handled, Health.controlled, healthEntries]

theorem Round.step {backends : List Backend} {flying : List BackendStatusEntry}
    {now : List Output} {s next : Pipeline} {out now' : List Output} {event : Event}
    (h : Round backends flying now s out) (hkept : NothingLost s out event)
    (hstep : Health.step s event = .ok (next, now')) :
    Round backends flying now next (out ++ now') := by
  have hsteps := steps_of_step_eq_ok hstep
  obtain ⟨later, rfl, hflying, hround⟩ := h.since
  refine ⟨steps_sound h.sound hsteps, later ++ now', List.append_assoc _ _ _, ?_,
    steps_round hsteps hround⟩
  rw [handled_append, probed_append, List.append_assoc,
    steps_inFlight h.sound hkept hsteps, ← List.append_assoc, hflying, List.append_assoc]

theorem find?_reverse_isSome {entries : List BackendStatusEntry} {id : UUID}
    (h : id ∈ entries.map (·.backendId)) :
    (entries.reverse.find? fun entry => entry.backendId = id).isSome := by
  obtain ⟨entry, hentry, rfl⟩ := List.mem_map.mp h
  rw [List.find?_isSome]
  exact ⟨entry, List.mem_reverse.mpr hentry, by simp⟩

theorem lastState_ne_none {entries : List BackendStatusEntry} {id : UUID}
    (h : id ∈ entries.map (·.backendId)) : lastState entries id ≠ none := by
  obtain ⟨found, hfound⟩ := Option.isSome_iff_exists.mp (find?_reverse_isSome h)
  simp [lastState, hfound]

theorem lastState_append_of_mem {earlier later : List BackendStatusEntry} {id : UUID}
    (h : id ∈ later.map (·.backendId)) :
    lastState (earlier ++ later) id = lastState later id := by
  obtain ⟨found, hfound⟩ := Option.isSome_iff_exists.mp (find?_reverse_isSome h)
  simp [lastState, hfound]

/-- Every backend is probed. -/
theorem mem_keys_backendSpecs {backends : List Backend} {b : Backend} (hb : b ∈ backends) :
    b.id ∈ (backendSpecs backends).keys := by
  rw [← AList.mem_keys, backendSpecs]
  induction backends using List.reverseRecOn with
  | nil => cases hb
  | append_singleton backends last ih =>
      rw [List.foldl_append, List.foldl_cons, List.foldl_nil, AList.mem_insert]
      rcases List.mem_append.mp hb with hb | hb
      · exact Or.inr (ih hb)
      · rw [List.mem_singleton.mp hb]
        exact Or.inl rfl

theorem start_mem_controlled {events : List Event} {s last : Pipeline} {out : List Output}
    (hstart : ∃ order applied, Event.start order applied ∈ events)
    (hrun : Foundation.run step s events = .ok (last, out)) :
    ∃ order applied, Controller.Event.start order applied ∈ Health.controlled out := by
  obtain ⟨order, applied, hmem⟩ := hstart
  obtain ⟨before, after, rfl⟩ := List.append_of_mem hmem
  obtain ⟨middle, now, later, -, hlater, rfl⟩ := run_append_eq_ok.mp hrun
  obtain ⟨next, now', rest, hstep, -, rfl⟩ := run_cons_eq_ok.mp hlater
  simp only [step, Pipeline.iterate, bind_eq_ok, mapError_eq_ok, Prod.exists] at hstep
  obtain ⟨controller, recomputations, -, hnext⟩ := hstep
  cases hnext
  exact ⟨order, applied, List.mem_filterMap.mpr
    ⟨.controller (.start order applied) recomputations, by simp, rfl⟩⟩

theorem round_run {backends : List Backend} {rest : List Event} {order : List UUID}
    {middle last : Pipeline} {now later : List Output} (hmiddle : Sound backends middle now)
    (hround : Foundation.run step middle (.monitor (.tick order) :: rest) = .ok (last, later))
    (hkept : Along step NothingLost middle now (.monitor (.tick order) :: rest)) :
    Round backends (inFlight middle) now last (now ++ later) := by
  obtain ⟨next, now', later, htick, hrest, rfl⟩ := run_cons_eq_ok.mp hround
  have hsteps := steps_of_step_eq_ok htick
  rw [Along, htick] at hkept
  have hnext : Round backends (inFlight middle) now next (now ++ now') := by
    refine ⟨steps_sound hmiddle hsteps, now', rfl, steps_inFlight hmiddle hkept.1 hsteps, ?_⟩
    simp only [step, bind_eq_ok, mapError_eq_ok, Prod.exists] at htick
    obtain ⟨monitor, outputs, hmonitor, healthLoop, -, hnext⟩ := htick
    cases hnext
    cases BackendState.steps_of_step_eq_ok hmonitor with
    | ticked _ _ hperm => exact fun id hid => Or.inl (hperm.mem_iff.mpr hid)
  rw [← List.append_assoc]
  refine run_induction (Round backends (inFlight middle) now) hnext ?_ hkept.2 hrest
  intro s out event next' now'' h hcond hstep
  exact h.step hcond hstep

theorem failoverComplete_of_nodup {newSHA1 : UUID → Bytes → UUID} {config : Config}
    {backends : List Backend} (hbuild : buildBackends newSHA1 config = .ok backends)
    (hdistinct : (backends.map (·.id)).Nodup) (last : UUID → Option State) :
    FailoverComplete backends last (filterAvailable (settle last backends)) := by
  refine (failoverComplete_settle_iff (buildBackends_spec hbuild).2).mpr ?_
  intro id hcount
  have := List.nodup_iff_count_le_one.mp hdistinct id
  omega

section Done

variable {backends : List Backend} {flying : List BackendStatusEntry} {now : List Output}
  {s : Pipeline} {out : List Output}

/-- The round is over and drained: the last probe of a backend is the last one handled. -/
theorem Round.lastState_handled (h : Round backends flying now s out)
    (hdone : s.monitor.loop = .selecting) (hdrained : inFlight s = []) {b : Backend}
    (hb : b ∈ backends) :
    lastState (handled out) b.id = lastState (probed out) b.id ∧
      lastState (probed out) b.id ≠ none := by
  obtain ⟨later, rfl, hflying, hprobed⟩ := h.since
  rw [hdrained, List.append_nil] at hflying
  have hmem : b.id ∈ (probed later).map (·.backendId) := by
    have hkey : b.id ∈ s.monitor.backends.keys := by
      rw [h.sound.specs]
      exact mem_keys_backendSpecs hb
    rcases hprobed b.id hkey with hremaining | hmem
    · rw [hdone] at hremaining
      cases hremaining
    · exact hmem
  rw [handled_append, hflying, ← List.append_assoc, probed_append,
    lastState_append_of_mem hmem, lastState_append_of_mem hmem]
  exact ⟨rfl, lastState_ne_none hmem⟩

theorem Round.backends_eq (h : Round backends flying now s out)
    (hdone : s.monitor.loop = .selecting) (hdrained : inFlight s = []) :
    s.controller.backends = settle (lastState (probed out)) backends := by
  rw [h.sound.backends_eq]
  exact settle_congr fun b hb => (h.lastState_handled hdone hdrained hb).1

/-- Every backend that is still available answered its last probe. -/
theorem Round.answered {newSHA1 : UUID → Bytes → UUID} {config : Config}
    (hbuild : buildBackends newSHA1 config = .ok backends)
    (hdistinct : (backends.map (·.id)).Nodup) (h : Round backends flying now s out)
    (hdone : s.monitor.loop = .selecting) (hdrained : inFlight s = []) {b : Backend}
    (hb : b ∈ filterAvailable s.controller.backends) :
    lastState (probed out) b.id = some .available := by
  rw [h.backends_eq hdone hdrained] at hb
  obtain ⟨b', hb', hid⟩ :=
    List.mem_map.mp (id_mem_of_mem_settle (mem_filterAvailable.mp hb).1)
  have hprobe := (h.lastState_handled hdone hdrained hb').2
  rw [hid] at hprobe
  obtain ⟨state, hstate⟩ := Option.ne_none_iff_exists'.mp hprobe
  have hhealthy := (failoverComplete_of_nodup hbuild hdistinct _).healthy_of_mem b hb
  rw [hstate, hhealthy state hstate]

end Done

def answers : ProbeResult := ⟨true, true, true, true⟩

/-- The backend is dialled and written to, but does not answer in time. -/
def timesOut : ProbeResult := ⟨true, true, true, false⟩

/-- A probe, and what becomes of it at the turn of the health loop. -/
def probeEvents (result : ProbeResult) (choice : WatcherMux.Choice) : List Event :=
  [.monitor (.probe result), .monitor (.mux (.snapshot [healthCh])),
    .monitor (.mux (.select choice)), .monitor (.mux .dispatched)]

def handleEvents : List Event := [.monitor (.mux (.receive healthCh)), .handle .ascending true]

def exampleIds : List UUID := [exampleId "10.0.0.10", exampleId "10.0.0.11"]

/-- The probe that finds the first backend dead gets lost. -/
def lossyEvents : List Event :=
  [.start .ascending true, .monitor (.tick exampleIds)] ++ probeEvents timesOut .timeout ++
    probeEvents answers .send ++ [.monitor .roundDone] ++ handleEvents

/-- The next round, in the other order. -/
def roundEvents : List Event :=
  probeEvents answers .send ++ probeEvents timesOut .send ++ [.monitor .roundDone] ++
    handleEvents ++ handleEvents

def statesOf (s : Pipeline) : List State := s.controller.backends.map (·.status.state)

/--
Whatever gets lost, the controller handles probes in the order in which they were
made, and none twice; a backend has the state of the last of its probes that was
handled, or the state it was built with.
-/
theorem view_follows_probes (backends : List Backend) (events : List Event) (last : Pipeline)
    (out : List Output) (hrun : Foundation.run step (new backends) events = .ok (last, out)) :
    (handled out).Sublist (probed out) ∧
      last.controller.backends = settle (lastState (handled out)) backends := by
  have h := sound_run hrun
  exact ⟨h.handled_sublist, h.backends_eq⟩

theorem view_follows_probes_after_loss :
    ∃ last out,
      Foundation.run step (new (exampleBackends ["10.0.0.10", "10.0.0.11"])) lossyEvents =
        .ok (last, out) ∧
      probed out = [⟨exampleId "10.0.0.10", .unavailable⟩, ⟨exampleId "10.0.0.11", .available⟩] ∧
      handled out = [⟨exampleId "10.0.0.11", .available⟩] ∧
      (handled out).Sublist (probed out) ∧
      last.controller.backends = settle (lastState (handled out))
        (exampleBackends ["10.0.0.10", "10.0.0.11"]) := by
  have heval : (Foundation.run step (new (exampleBackends ["10.0.0.10", "10.0.0.11"]))
      lossyEvents).toOption.map (fun result => (probed result.2, handled result.2)) =
        some ([⟨exampleId "10.0.0.10", .unavailable⟩, ⟨exampleId "10.0.0.11", .available⟩],
          [⟨exampleId "10.0.0.11", .available⟩]) := by
    decide +kernel
  obtain ⟨⟨last, out⟩, hrun, hresult⟩ := returns_of_toOption heval
  obtain ⟨hprobed, hhandled⟩ := Prod.mk.inj hresult
  exact ⟨last, out, hrun, hprobed, hhandled, view_follows_probes _ _ last out hrun⟩

/--
From a tick on nothing gets lost.  When the round is over and everything probed has
been handled, the controller has the last probe of every backend, however many got
lost before; and once `Run` has made its own recomputation, the list passed last to
`SetObjects` has exactly the backends that answered theirs, if there are any.
-/
theorem round_brings_up_to_date {newSHA1 : UUID → Bytes → UUID} {config : Config}
    {backends : List Backend} (hbuild : buildBackends newSHA1 config = .ok backends)
    (hdistinct : (backends.map (·.id)).Nodup) (first rest : List Event) (order : List UUID)
    (middle last : Pipeline) (now later : List Output)
    (hfirst : Foundation.run step (new backends) first = .ok (middle, now))
    (hround : Foundation.run step middle (.monitor (.tick order) :: rest) = .ok (last, later))
    (hkept : Along step NothingLost middle now (.monitor (.tick order) :: rest))
    (hdone : last.monitor.loop = .selecting) (hdrained : inFlight last = []) :
    (∀ b ∈ backends, lastState (probed (now ++ later)) b.id ≠ none) ∧
    last.controller.backends = settle (lastState (probed (now ++ later))) backends ∧
    ((∃ order' applied, Event.start order' applied ∈ first ++ .monitor (.tick order) :: rest) →
      filterAvailable last.controller.backends ≠ [] →
      ∃ r call, lastCalled (recomputed (now ++ later)) = some r ∧ r.call = some call ∧
        FailoverComplete backends (lastState (probed (now ++ later))) call.backendList) := by
  have hlast := round_run (sound_run hfirst) hround hkept
  have hbackends := hlast.backends_eq hdone hdrained
  refine ⟨fun b hb => (hlast.lastState_handled hdone hdrained hb).2, hbackends, ?_⟩
  intro hstart hsome
  have hrun := run_append_eq_ok.mpr ⟨middle, now, later, hfirst, hround, rfl⟩
  have hstarted := start_mem_controlled hstart hrun
  obtain ⟨r, call, hcalled, hcall⟩ := run_passed hstarted hlast.sound.controlled hsome
  refine ⟨r, call, hcalled, hcall.call_eq, ?_⟩
  rw [hcall.backendList_eq, hbackends]
  exact failoverComplete_of_nodup hbuild hdistinct _

theorem round_brings_up_to_date_after_loss :
    ∃ backends middle last now later,
      buildBackends exampleSHA1 (exampleConfig ["10.0.0.10", "10.0.0.11"]) = .ok backends ∧
      Foundation.run step (new backends) lossyEvents = .ok (middle, now) ∧
      Foundation.run step middle (.monitor (.tick exampleIds.reverse) :: roundEvents) =
        .ok (last, later) ∧
      statesOf middle = [.available, .available] ∧
      statesOf last = [.unavailable, .available] ∧
      last.controller.backends = settle (lastState (probed (now ++ later))) backends ∧
      ∃ r call, lastCalled (recomputed (now ++ later)) = some r ∧ r.call = some call ∧
        FailoverComplete backends (lastState (probed (now ++ later))) call.backendList := by
  have hbuilt : (buildBackends exampleSHA1 (exampleConfig ["10.0.0.10", "10.0.0.11"])).toOption.map
      id = some (exampleBackends ["10.0.0.10", "10.0.0.11"]) := by
    decide +kernel
  obtain ⟨backends, hbuild, rfl⟩ := returns_of_toOption hbuilt
  have hlossy : (Foundation.run step (new (exampleBackends ["10.0.0.10", "10.0.0.11"]))
      lossyEvents).toOption.map (fun result => (statesOf result.1,
        decide (Along step NothingLost result.1 result.2
          (.monitor (.tick exampleIds.reverse) :: roundEvents)))) =
        some ([.available, .available], true) := by
    decide +kernel
  obtain ⟨⟨middle, now⟩, hmiddle, hresult⟩ := returns_of_toOption hlossy
  obtain ⟨hstates, hkept⟩ := Prod.mk.inj hresult
  have hboth : (Foundation.run step (new (exampleBackends ["10.0.0.10", "10.0.0.11"]))
      (lossyEvents ++ .monitor (.tick exampleIds.reverse) :: roundEvents)).toOption.map
        (fun result => (statesOf result.1, result.1.monitor.loop, inFlight result.1,
          (filterAvailable result.1.controller.backends).isEmpty)) =
        some ([.unavailable, .available], .selecting, [], false) := by
    decide +kernel
  obtain ⟨⟨last, out⟩, hrun, hresult'⟩ := returns_of_toOption hboth
  obtain ⟨hstates', hresult'⟩ := Prod.mk.inj hresult'
  obtain ⟨hdone, hresult'⟩ := Prod.mk.inj hresult'
  obtain ⟨hdrained, hsome⟩ := Prod.mk.inj hresult'
  obtain ⟨middle', now', later, hmiddle', hround, rfl⟩ := run_append_eq_ok.mp hrun
  rw [hmiddle] at hmiddle'
  cases hmiddle'
  obtain ⟨-, hview, hpassed⟩ := round_brings_up_to_date hbuild (by decide +kernel) lossyEvents
    roundEvents exampleIds.reverse middle last now later hmiddle hround
    (of_decide_eq_true hkept) hdone hdrained
  exact ⟨_, middle, last, now, later, hbuild, hmiddle, hround, hstates, hstates', hview,
    hpassed ⟨.ascending, true, by simp [lossyEvents]⟩ (by simpa using hsome)⟩

end Udplb.Controller.Health
