import Udplb.Foundation.AssocMap
import Udplb.Types
import Udplb.Util.Delivery

/-!
# The health monitor

At every tick the monitor probes its backends one after the other, in the iteration
order of a map, and dispatches what it found.  A tick that fires during a round is
taken after it.
-/

namespace Udplb.Monitor

open Udplb.Foundation Udplb.Util

/-- Which of the calls of a probe return no error. -/
structure ProbeResult where
  dialTimeout : Bool
  setDeadline : Bool
  write : Bool
  read : Bool
  deriving DecidableEq, Repr

def probe (result : ProbeResult) : State :=
  if result.dialTimeout = false then .unavailable
  else if result.setDeadline = false then .unavailable
  else if result.write = false then .unavailable
  else if result.read = false then .unavailable
  else .available

/-- Where the health check loop is, apart from its calls of `Dispatch` and `Close`. -/
inductive CheckLoop where
  | selecting
  | probing (remaining : List UUID)
  | terminated
  deriving DecidableEq, Repr

def CheckLoop.remaining : CheckLoop → List UUID
  | .probing remaining => remaining
  | .selecting | .terminated => []

structure BackendState where
  backends : AssocMap UUID BackendSpec
  watcherMux : Producer BackendStatusEntry
  terminateCh : Bool
  loop : CheckLoop

namespace BackendState

def new (backends : AssocMap UUID BackendSpec) (watcherMux : Producer BackendStatusEntry) :
    BackendState :=
  ⟨backends, watcherMux, false, .selecting⟩

inductive Event where
  | tick (order : List UUID)
  | probe (result : ProbeResult)
  | roundDone
  | terminate
  | leave
  | mux (event : Producer.Event BackendStatusEntry)

inductive Output where
  | probed (entry : BackendStatusEntry)
  | mux (output : WatcherMux.Output BackendStatusEntry)

def step (b : BackendState) :
    Event → Except WatcherMux.Stop (BackendState × List Output)
  | .tick order =>
      match b.loop, b.watcherMux.producing with
      | .selecting, .outside =>
          if order.Perm b.backends.keys then .ok ({ b with loop := .probing order }, [])
          else .error .blocked
      | _, _ => .error .blocked
  | .probe result =>
      match b.loop, b.watcherMux.producing with
      | .probing (id :: remaining), .outside =>
          let entry : BackendStatusEntry := ⟨id, Monitor.probe result⟩
          .ok ({ b with
            loop := .probing remaining
            watcherMux := { b.watcherMux with producing := .calling entry } },
            [.probed entry])
      | _, _ => .error .blocked
  | .roundDone =>
      match b.loop, b.watcherMux.producing with
      | .probing [], .outside => .ok ({ b with loop := .selecting }, [])
      | _, _ => .error .blocked
  | .terminate =>
      if b.terminateCh then .error .closeOfClosedChannel
      else .ok ({ b with terminateCh := true }, [])
  | .leave =>
      match b.loop, b.watcherMux.producing, b.terminateCh with
      | .selecting, .outside, true =>
          .ok ({ b with
            loop := .terminated
            watcherMux := { b.watcherMux with producing := .closing } }, [])
      | _, _, _ => .error .blocked
  | .mux event => do
      let (watcherMux, now) ← b.watcherMux.step event
      .ok ({ b with watcherMux := watcherMux }, now.map .mux)

def probed (out : List Output) : List BackendStatusEntry :=
  out.filterMap fun
    | .probed entry => some entry
    | .mux _ => none

def muxOut (out : List Output) : List (WatcherMux.Output BackendStatusEntry) :=
  out.filterMap fun
    | .mux output => some output
    | .probed _ => none

/-- The monitor has dispatched what it has probed, and nothing else. -/
structure Sound (b : BackendState) (out : List Output) : Prop where
  mux : b.watcherMux.Sound (muxOut out)
  dispatched : WatcherMux.dispatched (muxOut out) ++ b.watcherMux.producing.pending = probed out

/-! ## One step -/

/-- What a step can do. -/
inductive Steps (b : BackendState) : Event → BackendState → List Output → Prop
  | ticked (order : List UUID) (hloop : b.loop = .selecting)
      (hperm : order.Perm b.backends.keys) :
      Steps b (.tick order) { b with loop := .probing order } []
  | probed (result : ProbeResult) (id : UUID) (remaining : List UUID)
      (hloop : b.loop = .probing (id :: remaining))
      (houtside : b.watcherMux.producing = .outside) :
      Steps b (.probe result)
        { b with
          loop := .probing remaining
          watcherMux := { b.watcherMux with producing := .calling ⟨id, Monitor.probe result⟩ } }
        [.probed ⟨id, Monitor.probe result⟩]
  | roundDone (hloop : b.loop = .probing []) :
      Steps b .roundDone { b with loop := .selecting } []
  | terminate : Steps b .terminate { b with terminateCh := true } []
  | left (hloop : b.loop = .selecting) (houtside : b.watcherMux.producing = .outside) :
      Steps b .leave
        { b with
          loop := .terminated
          watcherMux := { b.watcherMux with producing := .closing } } []
  | mux (event : Producer.Event BackendStatusEntry) (watcherMux : Producer BackendStatusEntry)
      (now : List (WatcherMux.Output BackendStatusEntry))
      (hmux : b.watcherMux.step event = .ok (watcherMux, now)) :
      Steps b (.mux event) { b with watcherMux := watcherMux } (now.map .mux)

theorem steps_of_step_eq_ok {b next : BackendState} {event : Event} {now : List Output}
    (h : step b event = .ok (next, now)) : Steps b event next now := by
  cases event with
  | tick order =>
      simp only [step] at h
      split at h
      · split at h <;> cases h
        exact .ticked order (by assumption) (by assumption)
      · cases h
  | probe result =>
      simp only [step] at h
      split at h <;> cases h
      exact .probed result _ _ (by assumption) (by assumption)
  | roundDone =>
      simp only [step] at h
      split at h <;> cases h
      exact .roundDone (by assumption)
  | terminate =>
      simp only [step] at h
      split at h <;> cases h
      exact .terminate
  | leave =>
      simp only [step] at h
      split at h <;> cases h
      exact .left (by assumption) (by assumption)
  | mux event =>
      simp only [step, bind_eq_ok, Prod.exists] at h
      obtain ⟨watcherMux, outputs, hmux, hnext⟩ := h
      cases hnext
      exact .mux event watcherMux outputs hmux

@[simp] theorem probed_append (first second : List Output) :
    probed (first ++ second) = probed first ++ probed second :=
  List.filterMap_append

@[simp] theorem muxOut_append (first second : List Output) :
    muxOut (first ++ second) = muxOut first ++ muxOut second :=
  List.filterMap_append

@[simp] theorem probed_map_mux (now : List (WatcherMux.Output BackendStatusEntry)) :
    probed (now.map .mux) = [] := by
  simp [probed]

@[simp] theorem muxOut_map_mux (now : List (WatcherMux.Output BackendStatusEntry)) :
    muxOut (now.map .mux) = now := by
  simp [muxOut, List.filterMap_map]

theorem steps_sound {b next : BackendState} {event : Event} {out now : List Output}
    (h : Sound b out) (hsteps : Steps b event next now) : Sound next (out ++ now) := by
  cases hsteps with
  | ticked | roundDone | terminate =>
      rw [List.append_nil]
      exact ⟨h.mux, h.dispatched⟩
  | probed result id remaining hloop houtside =>
      have hdispatched := h.dispatched
      rw [houtside] at hdispatched
      have hmux : muxOut (out ++ [.probed ⟨id, Monitor.probe result⟩]) = muxOut out := by
        simp [muxOut]
      refine ⟨?_, ?_⟩
      · rw [hmux]
        exact h.mux.setProducing houtside _
      · rw [hmux, probed_append, ← hdispatched]
        exact congrArg (· ++ _) (List.append_nil _).symm
  | left hloop houtside =>
      have hdispatched := h.dispatched
      rw [houtside] at hdispatched
      rw [List.append_nil]
      exact ⟨h.mux.setProducing houtside _, hdispatched⟩
  | mux event watcherMux now hmux =>
      refine ⟨?_, ?_⟩
      · rw [muxOut_append, muxOut_map_mux]
        exact Producer.sound_step h.mux hmux
      · rw [muxOut_append, muxOut_map_mux, probed_append, probed_map_mux, List.append_nil,
          WatcherMux.dispatched_append, List.append_assoc,
          Producer.dispatched_append_pending hmux]
        exact h.dispatched

/-- A watcher receives a part of the probes, in their order. -/
theorem Sound.receivedBy_sublist {b : BackendState} {out : List Output} (h : Sound b out)
    (id : Nat) : (WatcherMux.receivedBy id (muxOut out)).Sublist (probed out) := by
  rw [← h.dispatched]
  exact (h.mux.receivedBy_sublist id).trans (List.sublist_append_left _ _)

/-! ## What is not lost -/

/-- The step loses a probe on its way to the watcher. -/
def Loses (id : Nat) (b : BackendState) : Event → Prop
  | .mux event => Producer.Loses id b.watcherMux event
  | .tick _ | .probe _ | .roundDone | .terminate | .leave => False

instance (id : Nat) (b : BackendState) : (event : Event) → Decidable (Loses id b event)
  | .mux event => inferInstanceAs (Decidable (Producer.Loses id b.watcherMux event))
  | .tick _ | .probe _ | .roundDone | .terminate | .leave => inferInstanceAs (Decidable False)

theorem steps_inFlight {b next : BackendState} {event : Event} {out now : List Output}
    {id : Nat} (h : Sound b out) (hkept : ¬Loses id b event)
    (hsteps : Steps b event next now) :
    WatcherMux.receivedBy id (muxOut now) ++ next.watcherMux.inFlight id =
      b.watcherMux.inFlight id ++ probed now := by
  cases hsteps with
  | ticked | roundDone | terminate => exact (List.append_nil _).symm
  | probed result probedId remaining hloop houtside =>
      rw [Producer.inFlight, Producer.inFlight, houtside]
      simp [muxOut, probed, Producing.pending, WatcherMux.receivedBy]
  | left hloop houtside =>
      rw [Producer.inFlight, Producer.inFlight, houtside]
      simp [muxOut, probed, Producing.pending, WatcherMux.receivedBy]
  | mux event watcherMux now hmux =>
      rw [muxOut_map_mux, probed_map_mux, List.append_nil]
      exact Producer.inFlight_step h.mux hkept hmux

/-- In a round every backend is still to be probed or has been. -/
theorem steps_round {b next : BackendState} {event : Event} {out now : List Output}
    (hsteps : Steps b event next now)
    (hround : ∀ id ∈ b.backends.keys,
      id ∈ b.loop.remaining ∨ id ∈ (probed out).map (·.backendId)) :
    ∀ id ∈ next.backends.keys,
      id ∈ next.loop.remaining ∨ id ∈ (probed (out ++ now)).map (·.backendId) := by
  intro id hid
  rw [probed_append, List.map_append, List.mem_append]
  cases hsteps with
  | ticked order hloop hperm => exact Or.inl (hperm.mem_iff.mpr hid)
  | probed result head remaining hloop houtside =>
      rcases hround id hid with hremaining | hprobed
      · rw [hloop] at hremaining
        rcases List.mem_cons.mp hremaining with rfl | hremaining
        · exact Or.inr (Or.inr (List.mem_singleton.mpr rfl))
        · exact Or.inl hremaining
      · exact Or.inr (Or.inl hprobed)
  | roundDone hloop | left hloop =>
      have hbefore := hround id hid
      rw [hloop] at hbefore
      exact hbefore.imp_right Or.inl
  | terminate | mux => exact (hround id hid).imp_right Or.inl

end BackendState

end Udplb.Monitor
