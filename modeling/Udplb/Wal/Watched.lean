import Udplb.Util.Producer
import Udplb.Wal.Log

/-!
# A log and its watchers

The event loop of the log dispatches the data of what it has appended, and closes
the multiplexer when it leaves.  It does not go on before a call has returned.
-/

namespace Udplb.Wal

open Udplb.Foundation Udplb.Util

variable {T : Type}

structure Watched (T : Type) where
  wal : Wal T
  mux : Producer (List T)

namespace Watched

/-- What the log and its multiplexer are made with. -/
structure Options where
  name : String
  capacity : Nat
  channelBufferSize : Nat
  dispatchFunc : DispatchFunc

def new (options : Options) : Watched T :=
  ⟨.new options.name options.capacity, .new options.channelBufferSize options.dispatchFunc⟩

inductive Stop where
  | loopIsCalling
  | wal (stop : Wal.Stop)
  | mux (stop : WatcherMux.Stop)
  deriving DecidableEq, Repr

inductive Event (T : Type) where
  | wal (event : Wal.Event T)
  | mux (event : Producer.Event (List T))

inductive Output (T : Type) where
  | wal (output : Wal.Output T)
  | mux (output : WatcherMux.Output (List T))

/-- The steps that the event loop takes part in. -/
def ofLoop : Wal.Event T → Bool
  | .handOff | .append | .dispatch | .terminate => true
  | .propose _ | .takeToken | .lockedRead | .close | .readerReturn => false

/-- The calls in which a step of the log ends. -/
def nextProducing (producing : Producing (List T)) :
    Wal.Event T → List (Wal.Output T) → Producing (List T)
  | .dispatch, [.dispatched values] => .calling values
  | .terminate, _ => .closing
  | _, _ => producing

def isOutside : Producing (List T) → Bool
  | .outside => true
  | .calling _ | .dispatching | .closing | .closed => false

def step (log : Watched T) : Event T → Except Stop (Watched T × List (Output T))
  | .wal event =>
      if ofLoop event && !isOutside log.mux.producing then .error .loopIsCalling
      else do
        let (wal, now) ← (log.wal.step event).mapError .wal
        let producing := nextProducing log.mux.producing event now
        .ok (⟨wal, { log.mux with producing := producing }⟩, now.map .wal)
  | .mux event => do
      let (mux, now) ← (log.mux.step event).mapError .mux
      .ok ({ log with mux := mux }, now.map .mux)

def walOut (out : List (Output T)) : List (Wal.Output T) :=
  out.filterMap fun
    | .wal output => some output
    | .mux _ => none

def muxOut (out : List (Output T)) : List (WatcherMux.Output (List T)) :=
  out.filterMap fun
    | .mux output => some output
    | .wal _ => none

/-- What was proposed, in the order in which it was written. -/
def proposed (out : List (Output T)) : List T :=
  (writtenEntries (walOut out)).map (·.data)

@[simp] theorem walOut_append (first second : List (Output T)) :
    walOut (first ++ second) = walOut first ++ walOut second :=
  List.filterMap_append

@[simp] theorem muxOut_append (first second : List (Output T)) :
    muxOut (first ++ second) = muxOut first ++ muxOut second :=
  List.filterMap_append

theorem proposed_append (first second : List (Output T)) :
    proposed (first ++ second) = proposed first ++ proposed second := by
  simp [proposed, writtenEntries]

@[simp] theorem walOut_map_wal (now : List (Wal.Output T)) :
    walOut (now.map .wal) = now := by
  simp [walOut, List.filterMap_map]

@[simp] theorem walOut_map_mux (now : List (WatcherMux.Output (List T))) :
    walOut (now.map .mux) = [] := by
  simp [walOut]

@[simp] theorem muxOut_map_wal (now : List (Wal.Output T)) :
    muxOut (now.map .wal) = [] := by
  simp [muxOut]

@[simp] theorem muxOut_map_mux (now : List (WatcherMux.Output (List T))) :
    muxOut (now.map .mux) = now := by
  simp [muxOut, List.filterMap_map]

theorem isOutside_iff {producing : Producing (List T)} :
    isOutside producing = true ↔ producing = .outside := by
  cases producing <;> simp [isOutside]

structure Sound (log : Watched T) (out : List (Output T)) : Prop where
  inOrder : ∃ q, InOrder log.wal (walOut out) q
  mux : log.mux.Sound (muxOut out)
  handed : WatcherMux.dispatched (muxOut out) ++ log.mux.producing.pending =
    dispatchedValues (walOut out)

theorem sound_new (options : Options) : Sound (new options : Watched T) [] where
  inOrder := ⟨[], inOrder_new options.name options.capacity⟩
  mux := Producer.sound_new options.channelBufferSize options.dispatchFunc
  handed := rfl

/-- A step of the log dispatches only from its loop, and then it makes the call. -/
theorem pending_nextProducing {w next : Wal T} {event : Wal.Event T}
    {now : List (Wal.Output T)} {producing : Producing (List T)}
    (hsteps : Steps w event next now)
    (houtside : ofLoop event = true → producing = .outside) :
    (nextProducing producing event now).pending =
      producing.pending ++ dispatchedValues now := by
  cases hsteps with
  | proposed | took | read | closed | readerReturned =>
      exact (List.append_nil _).symm
  | handedOff | appended | dispatched | terminated =>
      rw [houtside rfl]
      rfl

theorem sound_nextProducing {mux : Producer (List T)} {out : List (WatcherMux.Output (List T))}
    (h : mux.Sound out) {event : Wal.Event T} (now : List (Wal.Output T))
    (houtside : ofLoop event = true → mux.producing = .outside) :
    Producer.Sound { mux with producing := nextProducing mux.producing event now } out := by
  by_cases hloop : ofLoop event = true
  · exact h.setProducing (houtside hloop) _
  · have hsame : nextProducing mux.producing event now = mux.producing := by
      cases event <;> simp_all [ofLoop, nextProducing]
    rw [hsame]
    exact h

theorem sound_step {log next : Watched T} {out now : List (Output T)} {event : Event T}
    (h : Sound log out) (hstep : log.step event = .ok (next, now)) :
    Sound next (out ++ now) := by
  cases event with
  | wal event =>
      simp only [step] at hstep
      split at hstep
      · cases hstep
      · rename_i hfree
        have houtside : ofLoop event = true → log.mux.producing = .outside := by
          intro hloop
          rw [← isOutside_iff]
          simpa [hloop] using hfree
        simp only [bind_eq_ok, mapError_eq_ok, Prod.exists] at hstep
        obtain ⟨wal, outputs, hwal, hnext⟩ := hstep
        cases hnext
        have hsteps := steps_of_step_eq_ok hwal
        obtain ⟨q, hq⟩ := h.inOrder
        refine ⟨?_, ?_, ?_⟩
        · rw [walOut_append, walOut_map_wal]
          exact steps_inOrder hq hsteps
        · rw [muxOut_append, muxOut_map_wal, List.append_nil]
          exact sound_nextProducing h.mux outputs houtside
        · rw [muxOut_append, muxOut_map_wal, List.append_nil, walOut_append, walOut_map_wal,
            pending_nextProducing hsteps houtside, ← List.append_assoc, h.handed]
          exact List.filterMap_append.symm
  | mux event =>
      simp only [step, bind_eq_ok, mapError_eq_ok, Prod.exists] at hstep
      obtain ⟨mux, outputs, hmux, hnext⟩ := hstep
      cases hnext
      refine ⟨?_, ?_, ?_⟩
      · rw [walOut_append, walOut_map_mux, List.append_nil]
        exact h.inOrder
      · rw [muxOut_append, muxOut_map_mux]
        exact Producer.sound_step h.mux hmux
      · rw [muxOut_append, muxOut_map_mux, walOut_append, walOut_map_mux, List.append_nil,
          WatcherMux.dispatched_append, List.append_assoc,
          Producer.dispatched_append_pending hmux]
        exact h.handed

/-- A watcher receives a part of what was proposed, in order, one datum at a time. -/
theorem Sound.receivedBy_sublist {log : Watched T} {out : List (Output T)}
    (h : Sound log out) (id : Nat) :
    (WatcherMux.receivedBy id (muxOut out)).Sublist ((proposed out).map ([·])) := by
  obtain ⟨q, hq⟩ := h.inOrder
  have hdispatched : (dispatchedValues (walOut out)).Sublist
      ((appendedEntries (walOut out)).map fun entry => [entry.data]) := by
    rw [← hq.dispatched]
    exact List.sublist_append_left _ _
  have happended : (appendedEntries (walOut out)).Sublist (writtenEntries (walOut out)) :=
    (List.sublist_append_left _ _).trans hq.pipeline
  calc (WatcherMux.receivedBy id (muxOut out)).Sublist (WatcherMux.dispatched (muxOut out)) :=
        h.mux.receivedBy_sublist id
    List.Sublist _ (WatcherMux.dispatched (muxOut out) ++ log.mux.producing.pending) :=
        List.sublist_append_left _ _
    _ = dispatchedValues (walOut out) := h.handed
    List.Sublist _ ((appendedEntries (walOut out)).map fun entry => [entry.data]) := hdispatched
    List.Sublist _ ((writtenEntries (walOut out)).map fun entry => [entry.data]) :=
        happended.map _
    _ = (proposed out).map ([·]) := by
        rw [proposed, List.map_map]
        rfl

def Event.proposal? : Event T → Option T
  | .wal event => event.proposal?.map (·.data)
  | .mux _ => none

theorem proposed_of_step {log next : Watched T} {event : Event T} {now : List (Output T)}
    (hstep : log.step event = .ok (next, now)) : proposed now = event.proposal?.toList := by
  cases event with
  | wal event =>
      simp only [step] at hstep
      split at hstep
      · cases hstep
      · simp only [bind_eq_ok, mapError_eq_ok, Prod.exists] at hstep
        obtain ⟨wal, outputs, hwal, hnext⟩ := hstep
        cases hnext
        rw [proposed, walOut_map_wal, writtenEntries, steps_written (steps_of_step_eq_ok hwal)]
        cases hproposal : event.proposal? <;> simp [Event.proposal?, hproposal, setName]
  | mux event =>
      simp only [step, bind_eq_ok, mapError_eq_ok, Prod.exists] at hstep
      obtain ⟨mux, outputs, -, hnext⟩ := hstep
      cases hnext
      rw [proposed, walOut_map_mux]
      rfl

/-! ## A reader of the log -/

/-- What the holder of a channel of `Watch` has taken from it. -/
def takenFrom (ch : Option Nat) (out : List (Output T)) : List (List T) :=
  ch.elim [] (WatcherMux.receivedBy · (muxOut out))

theorem takenFrom_append (ch : Option Nat) (first second : List (Output T)) :
    takenFrom ch (first ++ second) = takenFrom ch first ++ takenFrom ch second := by
  cases ch <;> simp [takenFrom]

theorem Sound.takenFrom_sublist {log : Watched T} {out : List (Output T)}
    (h : Sound log out) (ch : Option Nat) :
    (takenFrom ch out).Sublist ((proposed out).map ([·])) := by
  cases ch with
  | none => exact List.nil_sublist _
  | some id => exact h.receivedBy_sublist id

/-- A channel that `Watch` has just made. -/
theorem Sound.takenFrom_watch {log next : Watched T} {out now : List (Output T)}
    (h : Sound log out) (hstep : log.step (.mux (.watch none)) = .ok (next, now)) :
    now = [] ∧ takenFrom (some log.mux.mux.watchers.length) out = [] := by
  cases hstep
  exact ⟨rfl, h.mux.receivedBy_eq_nil (Nat.le_refl _)⟩

end Watched

end Udplb.Wal
