import Udplb.Dvds.Snapshot
import Udplb.Wal.Watched

/-!
# A replica and its logs

A replica watches two logs, one of commands and one of snapshots.  Its event loop
takes what they bring in whatever order its select finds it, executes or decodes it
and dispatches the state to watchers of its own.  The logs belong to somebody else:
anybody may propose to them, watch them and close them.

The state is at any moment the one that the loop's events lead to when they are
replayed, and those events are proposals in the order in which they were written.
-/

namespace Udplb.Dvds.Replica

open Udplb.Foundation Udplb.StateMachine Udplb.Util Udplb.Wal

variable {σ T U : Type}

/-- Where `Run` and then the event loop are, apart from calls of `Dispatch` and `Close`. -/
inductive Loop (T U : Type) where
  | notRunning
  | watchingCmd
  | selecting
  | received (event : Dvds.Event T U)
  | cmdCancel
  | snapCancel
  | left

structure State (σ T U : Type) where
  stateMachine : σ
  cmdWAL : Watched T
  snapshotWAL : Watched U
  watcherMux : Producer U
  terminateCh : Bool
  cmdCh : Option Nat
  snapCh : Option Nat
  loop : Loop T U

def new (stateMachine : σ) (cmdWAL : Watched T) (snapshotWAL : Watched U)
    (watcherMux : Producer U) : State σ T U where
  stateMachine := stateMachine
  cmdWAL := cmdWAL
  snapshotWAL := snapshotWAL
  watcherMux := watcherMux
  terminateCh := false
  cmdCh := none
  snapCh := none
  loop := .notRunning

inductive Stop where
  | blocked
  | wal (stop : Watched.Stop)
  | mux (stop : WatcherMux.Stop)
  | panicked (panic : Panic)
  deriving DecidableEq, Repr

inductive Event (T U : Type) where
  | propose (proposal : T) (now : Int)
  | cmdWAL (event : Watched.Event T)
  | snapshotWAL (event : Watched.Event U)
  | watchCmd
  | watchSnap
  | handle
  | terminate
  | terminated
  | cmdClosed
  | snapClosed
  | cmdCancel
  | snapCancel
  | watcherMux (event : Producer.Event U)

inductive Output (T U : Type) where
  | cmd (output : Watched.Output T)
  | snap (output : Watched.Output U)
  | applied (event : Dvds.Event T U)
  | mux (output : WatcherMux.Output U)

/-- The entry that `Propose` submits; the log fills in its name. -/
def proposalEntry (proposal : T) (now : Int) : WALEntry T where
  key := ""
  data := proposal
  verb := .put
  timestamp := now
  walName := ""
  proposalHash := .replicate 32 0
  previousHash := .replicate 32 0
  hash := .replicate 32 0

/-- Only the loop takes from its channels, and only in its select. -/
def Loop.take (loop : Loop T U) (watcherMux : Producer U) :
    List (Dvds.Event T U) → Except Stop (Loop T U)
  | [] => .ok loop
  | [event] =>
      match loop, watcherMux.producing with
      | .selecting, .outside => .ok (.received event)
      | _, _ => .error .blocked
  | _ => .error .blocked

def State.cmdStep (s : State σ T U) (event : Watched.Event T) :
    Except Stop (State σ T U × List (Output T U)) := do
  let (cmdWAL, now) ← (s.cmdWAL.step event).mapError .wal
  let loop ← s.loop.take s.watcherMux ((Watched.takenFrom s.cmdCh now).map .commands)
  .ok ({ s with cmdWAL := cmdWAL, loop := loop }, now.map .cmd)

def State.snapStep (s : State σ T U) (event : Watched.Event U) :
    Except Stop (State σ T U × List (Output T U)) := do
  let (snapshotWAL, now) ← (s.snapshotWAL.step event).mapError .wal
  let loop ← s.loop.take s.watcherMux ((Watched.takenFrom s.snapCh now).map .snapshots)
  .ok ({ s with snapshotWAL := snapshotWAL, loop := loop }, now.map .snap)

/-- The channel is closed and drained. -/
def exhausted {α : Type} (log : Watched α) (ch : Option Nat) : Bool :=
  (ch.bind (log.mux.mux.watchers[·]?)).any fun w => w.chClosed && w.ch.isEmpty

/-- A case of the select that goes to `terminate`. -/
def State.leave (s : State σ T U) (ready : Bool) :
    Except Stop (State σ T U × List (Output T U)) :=
  match s.loop, s.watcherMux.producing, ready with
  | .selecting, .outside, true => .ok ({ s with loop := .cmdCancel }, [])
  | _, _, _ => .error .blocked

/-- The call of `Dispatch` that an iteration ends in, if it comes to one. -/
def dispatching : List U → Producing U
  | [] => .outside
  | state :: _ => .calling state

def step (stm : Interface σ T U) (codec : Codec U) (s : State σ T U) :
    Event T U → Except Stop (State σ T U × List (Output T U))
  | .propose proposal now => s.cmdStep (.wal (.propose (proposalEntry proposal now)))
  | .cmdWAL event => s.cmdStep event
  | .snapshotWAL event => s.snapStep event
  | .watchCmd =>
      match s.loop with
      | .notRunning => do
          let (next, now) ← s.cmdStep (.mux (.watch none))
          .ok ({ next with
            cmdCh := some s.cmdWAL.mux.mux.watchers.length
            loop := .watchingCmd }, now)
      | _ => .error .blocked
  | .watchSnap =>
      match s.loop with
      | .watchingCmd => do
          let (next, now) ← s.snapStep (.mux (.watch none))
          .ok ({ next with
            snapCh := some s.snapshotWAL.mux.mux.watchers.length
            loop := .selecting }, now)
      | _ => .error .blocked
  | .handle =>
      match s.loop with
      | .received event => do
          let (stateMachine, shown) ←
            (Dvds.step stm codec s.stateMachine event).mapError .panicked
          .ok ({ s with
            stateMachine := stateMachine
            watcherMux := { s.watcherMux with producing := dispatching shown }
            loop := .selecting }, [.applied event])
      | _ => .error .blocked
  | .terminate =>
      match s.loop, s.terminateCh with
      | .notRunning, _ | .watchingCmd, _ | _, true => .error .blocked
      | _, false => .ok ({ s with terminateCh := true }, [])
  | .terminated => s.leave s.terminateCh
  | .cmdClosed => s.leave (exhausted s.cmdWAL s.cmdCh)
  | .snapClosed => s.leave (exhausted s.snapshotWAL s.snapCh)
  | .cmdCancel =>
      match s.loop, s.cmdCh with
      | .cmdCancel, some id => do
          let (next, now) ← s.cmdStep (.mux (.cancel id))
          .ok ({ next with loop := .snapCancel }, now)
      | _, _ => .error .blocked
  | .snapCancel =>
      match s.loop, s.snapCh with
      | .snapCancel, some id => do
          let (next, now) ← s.snapStep (.mux (.cancel id))
          .ok ({ next with
            loop := .left
            watcherMux := { s.watcherMux with producing := .closing } }, now)
      | _, _ => .error .blocked
  | .watcherMux event => do
      let (watcherMux, now) ← (s.watcherMux.step event).mapError .mux
      .ok ({ s with watcherMux := watcherMux }, now.map .mux)

/-! ## What a run has shown -/

def cmdOut (out : List (Output T U)) : List (Watched.Output T) :=
  out.filterMap fun
    | .cmd output => some output
    | .snap _ | .applied _ | .mux _ => none

def snapOut (out : List (Output T U)) : List (Watched.Output U) :=
  out.filterMap fun
    | .snap output => some output
    | .cmd _ | .applied _ | .mux _ => none

def applied (out : List (Output T U)) : List (Dvds.Event T U) :=
  out.filterMap fun
    | .applied event => some event
    | .cmd _ | .snap _ | .mux _ => none

def muxOut (out : List (Output T U)) : List (WatcherMux.Output U) :=
  out.filterMap fun
    | .mux output => some output
    | .cmd _ | .snap _ | .applied _ => none

/-- The lists of commands among the events of the loop. -/
def commandsOf (events : List (Dvds.Event T U)) : List (List T) :=
  events.filterMap fun
    | .commands entries => some entries
    | .snapshots _ => none

def snapshotsOf (events : List (Dvds.Event T U)) : List (List U) :=
  events.filterMap fun
    | .snapshots snapshots => some snapshots
    | .commands _ => none

def Loop.inHand : Loop T U → List (Dvds.Event T U)
  | .received event => [event]
  | .notRunning | .watchingCmd | .selecting | .cmdCancel | .snapCancel | .left => []

/-- The loop is between its select and its next call of `Dispatch` or `Close`. -/
def Loop.pastSelect : Loop T U → Bool
  | .received _ | .cmdCancel | .snapCancel => true
  | .notRunning | .watchingCmd | .selecting | .left => false

/-- The states that the loop has dispatched or is about to. -/
def shown (s : State σ T U) (out : List (Output T U)) : List U :=
  WatcherMux.dispatched (muxOut out) ++ s.watcherMux.producing.pending

structure Sound (stm : Interface σ T U) (codec : Codec U) (initial : σ)
    (s : State σ T U) (out : List (Output T U)) : Prop where
  cmdWAL : s.cmdWAL.Sound (cmdOut out)
  snapshotWAL : s.snapshotWAL.Sound (snapOut out)
  watcherMux : s.watcherMux.Sound (muxOut out)
  outside : s.loop.pastSelect = true → s.watcherMux.producing = .outside
  cmdCh : s.loop = .notRunning → s.cmdCh = none
  snapCh : s.loop = .notRunning ∨ s.loop = .watchingCmd → s.snapCh = none
  commands : Watched.takenFrom s.cmdCh (cmdOut out) =
    commandsOf (applied out ++ s.loop.inHand)
  snapshots : Watched.takenFrom s.snapCh (snapOut out) =
    snapshotsOf (applied out ++ s.loop.inHand)
  replayed : Dvds.run stm codec initial (applied out) = .ok (s.stateMachine, shown s out)

/-! ## One step -/

section Views

variable (out : List (Output T U))

theorem views_cmd (now : List (Watched.Output T)) :
    cmdOut (out ++ now.map .cmd) = cmdOut out ++ now ∧
      snapOut (out ++ now.map .cmd) = snapOut out ∧
      applied (out ++ now.map .cmd) = applied out ∧
      muxOut (out ++ now.map .cmd) = muxOut out := by
  simp [cmdOut, snapOut, applied, muxOut, List.filterMap_map]

theorem views_snap (now : List (Watched.Output U)) :
    cmdOut (out ++ now.map .snap) = cmdOut out ∧
      snapOut (out ++ now.map .snap) = snapOut out ++ now ∧
      applied (out ++ now.map .snap) = applied out ∧
      muxOut (out ++ now.map .snap) = muxOut out := by
  simp [cmdOut, snapOut, applied, muxOut, List.filterMap_map]

theorem views_applied (event : Dvds.Event T U) :
    cmdOut (out ++ [.applied event]) = cmdOut out ∧
      snapOut (out ++ [.applied event]) = snapOut out ∧
      applied (out ++ [.applied event]) = applied out ++ [event] ∧
      muxOut (out ++ [.applied event]) = muxOut out := by
  simp [cmdOut, snapOut, applied, muxOut]

theorem views_mux (now : List (WatcherMux.Output U)) :
    cmdOut (out ++ now.map .mux) = cmdOut out ∧
      snapOut (out ++ now.map .mux) = snapOut out ∧
      applied (out ++ now.map .mux) = applied out ∧
      muxOut (out ++ now.map .mux) = muxOut out ++ now := by
  simp [cmdOut, snapOut, applied, muxOut, List.filterMap_map]

end Views

/-- The loop stays where it is, or had nothing in hand and is given one event. -/
theorem Loop.take_eq_ok {loop next : Loop T U} {watcherMux : Producer U}
    {taken : List (Dvds.Event T U)} (h : loop.take watcherMux taken = .ok next) :
    next = loop ∧ taken = [] ∨
      ∃ event, taken = [event] ∧ loop = .selecting ∧ next = .received event ∧
        watcherMux.producing = .outside := by
  unfold Loop.take at h
  split at h
  · cases h
    exact Or.inl ⟨rfl, rfl⟩
  · rename_i event
    split at h <;> cases h
    rename_i houtside
    exact Or.inr ⟨event, rfl, rfl, rfl, houtside⟩
  · cases h

@[simp] theorem commandsOf_append (first second : List (Dvds.Event T U)) :
    commandsOf (first ++ second) = commandsOf first ++ commandsOf second :=
  List.filterMap_append

@[simp] theorem snapshotsOf_append (first second : List (Dvds.Event T U)) :
    snapshotsOf (first ++ second) = snapshotsOf first ++ snapshotsOf second :=
  List.filterMap_append

@[simp] theorem commandsOf_map_commands (entries : List (List T)) :
    commandsOf (entries.map .commands : List (Dvds.Event T U)) = entries := by
  simp [commandsOf, List.filterMap_map]

@[simp] theorem commandsOf_map_snapshots (snapshots : List (List U)) :
    commandsOf (snapshots.map .snapshots : List (Dvds.Event T U)) = [] := by
  simp [commandsOf]

@[simp] theorem snapshotsOf_map_commands (entries : List (List T)) :
    snapshotsOf (entries.map .commands : List (Dvds.Event T U)) = [] := by
  simp [snapshotsOf]

@[simp] theorem snapshotsOf_map_snapshots (snapshots : List (List U)) :
    snapshotsOf (snapshots.map .snapshots : List (Dvds.Event T U)) = snapshots := by
  simp [snapshotsOf, List.filterMap_map]

section Step

variable {stm : Interface σ T U} {codec : Codec U} {initial : σ} {s : State σ T U}
  {out : List (Output T U)}

/-- What the loop has in hand grows by what it takes. -/
theorem Sound.loop_take (h : Sound stm codec initial s out) {loop : Loop T U}
    {taken : List (Dvds.Event T U)} (htake : s.loop.take s.watcherMux taken = .ok loop) :
    loop.inHand = s.loop.inHand ++ taken ∧
      (loop.pastSelect = true → s.watcherMux.producing = .outside) ∧
      (loop = .notRunning → s.loop = .notRunning) ∧
      (loop = .watchingCmd → s.loop = .watchingCmd) := by
  rcases Loop.take_eq_ok htake with ⟨rfl, rfl⟩ | ⟨event, rfl, hselecting, rfl, houtside⟩
  · exact ⟨(List.append_nil _).symm, h.outside, id, id⟩
  · rw [hselecting]
    exact ⟨rfl, fun _ => houtside, (fun hloop => by cases hloop), fun hloop => by cases hloop⟩

theorem Sound.cmdStep (h : Sound stm codec initial s out) {event : Watched.Event T}
    {next : State σ T U} {now : List (Output T U)}
    (hstep : s.cmdStep event = .ok (next, now)) :
    Sound stm codec initial next (out ++ now) := by
  simp only [State.cmdStep, bind_eq_ok, mapError_eq_ok, Prod.exists] at hstep
  obtain ⟨cmdWAL, outputs, hwal, loop, htake, hnext⟩ := hstep
  cases hnext
  obtain ⟨hinHand, houtside, hnotRunning, hwatching⟩ := h.loop_take htake
  obtain ⟨hcmd, hsnap, happlied, hmux⟩ := views_cmd out outputs
  refine ⟨?_, ?_, ?_, houtside, fun hloop => h.cmdCh (hnotRunning hloop),
    fun hloop => h.snapCh (hloop.imp hnotRunning hwatching), ?_, ?_, ?_⟩
  · rw [hcmd]
    exact Watched.sound_step h.cmdWAL hwal
  · rw [hsnap]
    exact h.snapshotWAL
  · rw [hmux]
    exact h.watcherMux
  · rw [hcmd, Watched.takenFrom_append, happlied, hinHand, ← List.append_assoc,
      commandsOf_append, commandsOf_map_commands, h.commands]
  · rw [hsnap, happlied, hinHand, ← List.append_assoc, snapshotsOf_append,
      snapshotsOf_map_commands, List.append_nil]
    exact h.snapshots
  · rw [happlied, shown, hmux]
    exact h.replayed

theorem Sound.snapStep (h : Sound stm codec initial s out) {event : Watched.Event U}
    {next : State σ T U} {now : List (Output T U)}
    (hstep : s.snapStep event = .ok (next, now)) :
    Sound stm codec initial next (out ++ now) := by
  simp only [State.snapStep, bind_eq_ok, mapError_eq_ok, Prod.exists] at hstep
  obtain ⟨snapshotWAL, outputs, hwal, loop, htake, hnext⟩ := hstep
  cases hnext
  obtain ⟨hinHand, houtside, hnotRunning, hwatching⟩ := h.loop_take htake
  obtain ⟨hcmd, hsnap, happlied, hmux⟩ := views_snap out outputs
  refine ⟨?_, ?_, ?_, houtside, fun hloop => h.cmdCh (hnotRunning hloop),
    fun hloop => h.snapCh (hloop.imp hnotRunning hwatching), ?_, ?_, ?_⟩
  · rw [hcmd]
    exact h.cmdWAL
  · rw [hsnap]
    exact Watched.sound_step h.snapshotWAL hwal
  · rw [hmux]
    exact h.watcherMux
  · rw [hcmd, happlied, hinHand, ← List.append_assoc, commandsOf_append,
      commandsOf_map_snapshots, List.append_nil]
    exact h.commands
  · rw [hsnap, Watched.takenFrom_append, happlied, hinHand, ← List.append_assoc,
      snapshotsOf_append, snapshotsOf_map_snapshots, h.snapshots]
  · rw [happlied, shown, hmux]
    exact h.replayed

/-- `Run` or the loop goes on, with the same events behind it and in hand. -/
theorem Sound.setLoop (h : Sound stm codec initial s out) (terminateCh : Bool)
    {loop : Loop T U} (hinHand : loop.inHand = s.loop.inHand)
    (houtside : loop.pastSelect = true → s.watcherMux.producing = .outside)
    (hcmdCh : loop = .notRunning → s.cmdCh = none)
    (hsnapCh : loop = .notRunning ∨ loop = .watchingCmd → s.snapCh = none) :
    Sound stm codec initial { s with terminateCh := terminateCh, loop := loop } out := by
  refine ⟨h.cmdWAL, h.snapshotWAL, h.watcherMux, houtside, hcmdCh, hsnapCh, ?_, ?_,
    h.replayed⟩
  · rw [hinHand]
    exact h.commands
  · rw [hinHand]
    exact h.snapshots

theorem Sound.watchCmd (h : Sound stm codec initial s out) (hloop : s.loop = .notRunning)
    {next : State σ T U} {now : List (Output T U)}
    (hstep : s.cmdStep (.mux (.watch none)) = .ok (next, now)) :
    Sound stm codec initial { next with
      cmdCh := some s.cmdWAL.mux.mux.watchers.length
      loop := .watchingCmd } (out ++ now) := by
  have hnext := h.cmdStep hstep
  simp only [State.cmdStep, bind_eq_ok, mapError_eq_ok, Prod.exists] at hstep
  obtain ⟨cmdWAL, outputs, hwal, loop, htake, hstate⟩ := hstep
  cases hstate
  obtain ⟨rfl, hnone⟩ := h.cmdWAL.takenFrom_watch hwal
  have hsame : loop = .notRunning := by
    rw [hloop, h.cmdCh hloop] at htake
    cases htake
    rfl
  subst hsame
  have hcommands := hnext.commands
  rw [show s.cmdCh = none from h.cmdCh hloop] at hcommands
  refine ⟨hnext.cmdWAL, hnext.snapshotWAL, hnext.watcherMux, (fun hpast => by cases hpast),
    (fun hloop => by cases hloop), fun _ => hnext.snapCh (Or.inl rfl), ?_, hnext.snapshots,
    hnext.replayed⟩
  refine Eq.trans ?_ hcommands
  rw [List.map_nil, List.append_nil]
  exact hnone

theorem Sound.watchSnap (h : Sound stm codec initial s out) (hloop : s.loop = .watchingCmd)
    {next : State σ T U} {now : List (Output T U)}
    (hstep : s.snapStep (.mux (.watch none)) = .ok (next, now)) :
    Sound stm codec initial { next with
      snapCh := some s.snapshotWAL.mux.mux.watchers.length
      loop := .selecting } (out ++ now) := by
  have hnext := h.snapStep hstep
  have hquiet := h.snapCh (Or.inr hloop)
  simp only [State.snapStep, bind_eq_ok, mapError_eq_ok, Prod.exists] at hstep
  obtain ⟨snapshotWAL, outputs, hwal, loop, htake, hstate⟩ := hstep
  cases hstate
  obtain ⟨rfl, hnone⟩ := h.snapshotWAL.takenFrom_watch hwal
  have hsame : loop = .watchingCmd := by
    rw [hloop, hquiet] at htake
    cases htake
    rfl
  subst hsame
  have hsnapshots := hnext.snapshots
  rw [show s.snapCh = none from hquiet] at hsnapshots
  refine ⟨hnext.cmdWAL, hnext.snapshotWAL, hnext.watcherMux, (fun hpast => by cases hpast),
    (fun hloop => by cases hloop),
    (fun hloop => by rcases hloop with hloop | hloop <;> cases hloop),
    hnext.commands, ?_, hnext.replayed⟩
  refine Eq.trans ?_ hsnapshots
  rw [List.map_nil, List.append_nil]
  exact hnone

/-- An iteration dispatches once, or not at all. -/
theorem pending_dispatching {m next : σ} {event : Dvds.Event T U} {now : List U}
    (hstep : Dvds.step stm codec m event = .ok (next, now)) :
    (dispatching now).pending = now := by
  cases event with
  | commands entries =>
      simp only [Dvds.step, bind_eq_ok] at hstep
      obtain ⟨m', -, hnext⟩ := hstep
      cases hnext
      rfl
  | snapshots snapshots =>
      simp only [Dvds.step, applySnapshot] at hstep
      split at hstep
      · cases hstep
        rfl
      · split at hstep <;> cases hstep <;> rfl

theorem Sound.handle (h : Sound stm codec initial s out) {event : Dvds.Event T U}
    (hloop : s.loop = .received event) {stateMachine : σ} {now : List U}
    (hstep : Dvds.step stm codec s.stateMachine event = .ok (stateMachine, now)) :
    Sound stm codec initial { s with
      stateMachine := stateMachine
      watcherMux := { s.watcherMux with producing := dispatching now }
      loop := .selecting } (out ++ [.applied event]) := by
  have houtside := h.outside (by rw [hloop]; rfl)
  obtain ⟨hcmd, hsnap, happlied, hmux⟩ := views_applied out event
  have hinHand : s.loop.inHand = [event] := by
    rw [hloop]
    rfl
  refine ⟨?_, ?_, ?_, (fun hpast => by cases hpast), (fun hloop => by cases hloop), ?_, ?_, ?_, ?_⟩
  · rw [hcmd]
    exact h.cmdWAL
  · rw [hsnap]
    exact h.snapshotWAL
  · rw [hmux]
    exact h.watcherMux.setProducing houtside _
  · rintro (hselecting | hselecting) <;> cases hselecting
  · rw [hcmd, happlied, Loop.inHand, List.append_nil, ← hinHand]
    exact h.commands
  · rw [hsnap, happlied, Loop.inHand, List.append_nil, ← hinHand]
    exact h.snapshots
  · have hbefore : shown s out = WatcherMux.dispatched (muxOut out) := by
      rw [shown, houtside]
      exact List.append_nil _
    have hone : Dvds.run stm codec s.stateMachine [event] = .ok (stateMachine, now) := by
      rw [run_cons_eq_ok]
      exact ⟨stateMachine, now, [], hstep, rfl, (List.append_nil _).symm⟩
    rw [happlied, shown, hmux, pending_dispatching hstep, ← hbefore]
    exact run_append_eq_ok.mpr ⟨_, _, _, h.replayed, hone, rfl⟩

/-- The loop closes its multiplexer. -/
theorem Sound.close (h : Sound stm codec initial s out) (hloop : s.loop = .snapCancel) :
    Sound stm codec initial { s with
      loop := .left
      watcherMux := { s.watcherMux with producing := .closing } } out := by
  have houtside := h.outside (by rw [hloop]; rfl)
  have hcommands := h.commands
  have hsnapshots := h.snapshots
  have hreplayed := h.replayed
  rw [hloop] at hcommands hsnapshots
  rw [shown, houtside] at hreplayed
  refine ⟨h.cmdWAL, h.snapshotWAL, h.watcherMux.setProducing houtside _,
    (fun hpast => by cases hpast), (fun hloop => by cases hloop), ?_, hcommands, hsnapshots,
    hreplayed⟩
  rintro (hleft | hleft) <;> cases hleft

theorem Sound.watcherMuxStep (h : Sound stm codec initial s out) {event : Producer.Event U}
    {watcherMux : Producer U} {now : List (WatcherMux.Output U)}
    (hstep : s.watcherMux.step event = .ok (watcherMux, now)) :
    Sound stm codec initial { s with watcherMux := watcherMux } (out ++ now.map .mux) := by
  obtain ⟨hcmd, hsnap, happlied, hmux⟩ := views_mux out now
  refine ⟨?_, ?_, ?_, ?_, h.cmdCh, h.snapCh, ?_, ?_, ?_⟩
  · rw [hcmd]
    exact h.cmdWAL
  · rw [hsnap]
    exact h.snapshotWAL
  · rw [hmux]
    exact Producer.sound_step h.watcherMux hstep
  · exact fun hpast => Producer.producing_outside (h.outside hpast) hstep
  · rw [hcmd, happlied]
    exact h.commands
  · rw [hsnap, happlied]
    exact h.snapshots
  · rw [happlied, shown, hmux, WatcherMux.dispatched_append, List.append_assoc,
      Producer.dispatched_append_pending hstep]
    exact h.replayed

theorem Sound.leave (h : Sound stm codec initial s out) {ready : Bool} {next : State σ T U}
    {now : List (Output T U)} (hstep : s.leave ready = .ok (next, now)) :
    Sound stm codec initial next (out ++ now) := by
  unfold State.leave at hstep
  split at hstep <;> cases hstep
  rename_i hloop houtside
  rw [List.append_nil]
  refine h.setLoop s.terminateCh (by rw [hloop]; rfl) (fun _ => houtside) ?_ ?_
  · exact fun hcancel => by cases hcancel
  · rintro (hcancel | hcancel) <;> cases hcancel

/-- A cancel brings the loop nothing. -/
theorem cmdStep_cancel {next : State σ T U} {now : List (Output T U)} {id : Nat}
    (hloop : s.loop = .cmdCancel) (hstep : s.cmdStep (.mux (.cancel id)) = .ok (next, now)) :
    next.loop = .cmdCancel := by
  simp only [State.cmdStep, bind_eq_ok, mapError_eq_ok, Prod.exists] at hstep
  obtain ⟨cmdWAL, outputs, -, loop, htake, hstate⟩ := hstep
  cases hstate
  rcases Loop.take_eq_ok htake with ⟨hsame, -⟩ | ⟨event, -, hselecting, -, -⟩
  · exact hsame.trans hloop
  · rw [hloop] at hselecting
    cases hselecting

theorem snapStep_cancel {next : State σ T U} {now : List (Output T U)} {id : Nat}
    (hloop : s.loop = .snapCancel) (hstep : s.snapStep (.mux (.cancel id)) = .ok (next, now)) :
    next.loop = .snapCancel ∧ next.watcherMux = s.watcherMux := by
  simp only [State.snapStep, bind_eq_ok, mapError_eq_ok, Prod.exists] at hstep
  obtain ⟨snapshotWAL, outputs, -, loop, htake, hstate⟩ := hstep
  cases hstate
  rcases Loop.take_eq_ok htake with ⟨hsame, -⟩ | ⟨event, -, hselecting, -, -⟩
  · exact ⟨hsame.trans hloop, rfl⟩
  · rw [hloop] at hselecting
    cases hselecting

theorem sound_step (h : Sound stm codec initial s out) {event : Event T U}
    {next : State σ T U} {now : List (Output T U)}
    (hstep : step stm codec s event = .ok (next, now)) :
    Sound stm codec initial next (out ++ now) := by
  cases event with
  | propose proposal time => exact h.cmdStep hstep
  | cmdWAL event => exact h.cmdStep hstep
  | snapshotWAL event => exact h.snapStep hstep
  | terminated | cmdClosed | snapClosed => exact h.leave hstep
  | watchCmd =>
      simp only [step] at hstep
      split at hstep
      · rename_i hloop
        simp only [bind_eq_ok, Prod.exists] at hstep
        obtain ⟨middle, outputs, hwatch, hnext⟩ := hstep
        cases hnext
        exact h.watchCmd hloop hwatch
      · cases hstep
  | watchSnap =>
      simp only [step] at hstep
      split at hstep
      · rename_i hloop
        simp only [bind_eq_ok, Prod.exists] at hstep
        obtain ⟨middle, outputs, hwatch, hnext⟩ := hstep
        cases hnext
        exact h.watchSnap hloop hwatch
      · cases hstep
  | handle =>
      simp only [step] at hstep
      split at hstep
      · rename_i event hloop
        simp only [bind_eq_ok, mapError_eq_ok, Prod.exists] at hstep
        obtain ⟨stateMachine, outputs, hhandle, hnext⟩ := hstep
        cases hnext
        exact h.handle hloop hhandle
      · cases hstep
  | terminate =>
      simp only [step] at hstep
      split at hstep <;> cases hstep
      rw [List.append_nil]
      exact h.setLoop true rfl h.outside h.cmdCh h.snapCh
  | cmdCancel =>
      simp only [step] at hstep
      split at hstep
      · rename_i id hloop hch
        simp only [bind_eq_ok, Prod.exists] at hstep
        obtain ⟨middle, outputs, hcancel, hnext⟩ := hstep
        cases hnext
        have hmiddle := h.cmdStep hcancel
        have hsame := cmdStep_cancel hloop hcancel
        refine hmiddle.setLoop middle.terminateCh (by rw [hsame]; rfl) ?_ ?_ ?_
        · exact fun _ => hmiddle.outside (by rw [hsame]; rfl)
        · exact fun hcancel => by cases hcancel
        · rintro (hcancel | hcancel) <;> cases hcancel
      · cases hstep
  | snapCancel =>
      simp only [step] at hstep
      split at hstep
      · rename_i id hloop hch
        simp only [bind_eq_ok, Prod.exists] at hstep
        obtain ⟨middle, outputs, hcancel, hnext⟩ := hstep
        cases hnext
        obtain ⟨hsame, hmux⟩ := snapStep_cancel hloop hcancel
        rw [← hmux]
        exact (h.snapStep hcancel).close hsame
      · cases hstep
  | watcherMux event =>
      simp only [step, bind_eq_ok, mapError_eq_ok, Prod.exists] at hstep
      obtain ⟨watcherMux, outputs, hmux, hnext⟩ := hstep
      cases hnext
      exact h.watcherMuxStep hmux

end Step

/-! ## Runs -/

section Proposals

def Event.proposal? : Event T U → Option T
  | .propose proposal _ => some proposal
  | .cmdWAL event => event.proposal?
  | _ => none

def Event.snapshot? : Event T U → Option U
  | .snapshotWAL event => event.proposal?
  | _ => none

variable {stm : Interface σ T U} {codec : Codec U} {s next : State σ T U}
  {now : List (Output T U)}

theorem cmdOut_append (first second : List (Output T U)) :
    cmdOut (first ++ second) = cmdOut first ++ cmdOut second :=
  List.filterMap_append

theorem snapOut_append (first second : List (Output T U)) :
    snapOut (first ++ second) = snapOut first ++ snapOut second :=
  List.filterMap_append

theorem proposed_of_cmdStep {event : Watched.Event T}
    (hstep : s.cmdStep event = .ok (next, now)) :
    Watched.proposed (cmdOut now) = event.proposal?.toList ∧ snapOut now = [] := by
  simp only [State.cmdStep, bind_eq_ok, mapError_eq_ok, Prod.exists] at hstep
  obtain ⟨cmdWAL, outputs, hwal, loop, -, hnext⟩ := hstep
  cases hnext
  obtain ⟨hcmd, hsnap, -, -⟩ := views_cmd ([] : List (Output T U)) outputs
  refine ⟨?_, hsnap⟩
  rw [show cmdOut (outputs.map .cmd : List (Output T U)) = outputs from hcmd]
  exact Watched.proposed_of_step hwal

theorem proposed_of_snapStep {event : Watched.Event U}
    (hstep : s.snapStep event = .ok (next, now)) :
    cmdOut now = [] ∧ Watched.proposed (snapOut now) = event.proposal?.toList := by
  simp only [State.snapStep, bind_eq_ok, mapError_eq_ok, Prod.exists] at hstep
  obtain ⟨snapshotWAL, outputs, hwal, loop, -, hnext⟩ := hstep
  cases hnext
  obtain ⟨hcmd, hsnap, -, -⟩ := views_snap ([] : List (Output T U)) outputs
  refine ⟨hcmd, ?_⟩
  rw [show snapOut (outputs.map .snap : List (Output T U)) = outputs from hsnap]
  exact Watched.proposed_of_step hwal

/-- What a step writes to the logs. -/
theorem proposed_of_step {event : Event T U}
    (hstep : step stm codec s event = .ok (next, now)) :
    Watched.proposed (cmdOut now) = event.proposal?.toList ∧
      Watched.proposed (snapOut now) = event.snapshot?.toList := by
  cases event with
  | propose proposal time =>
      obtain ⟨hcmd, hsnap⟩ := proposed_of_cmdStep hstep
      rw [hsnap]
      exact ⟨hcmd, rfl⟩
  | cmdWAL event =>
      obtain ⟨hcmd, hsnap⟩ := proposed_of_cmdStep hstep
      rw [hsnap]
      exact ⟨hcmd, rfl⟩
  | snapshotWAL event =>
      obtain ⟨hcmd, hsnap⟩ := proposed_of_snapStep hstep
      rw [hcmd]
      exact ⟨rfl, hsnap⟩
  | watchCmd | cmdCancel =>
      simp only [step] at hstep
      split at hstep
      · simp only [bind_eq_ok, Prod.exists] at hstep
        obtain ⟨middle, outputs, hmiddle, hnext⟩ := hstep
        cases hnext
        obtain ⟨hcmd, hsnap⟩ := proposed_of_cmdStep hmiddle
        rw [hsnap]
        exact ⟨hcmd, rfl⟩
      · cases hstep
  | watchSnap | snapCancel =>
      simp only [step] at hstep
      split at hstep
      · simp only [bind_eq_ok, Prod.exists] at hstep
        obtain ⟨middle, outputs, hmiddle, hnext⟩ := hstep
        cases hnext
        obtain ⟨hcmd, hsnap⟩ := proposed_of_snapStep hmiddle
        rw [hcmd]
        exact ⟨rfl, hsnap⟩
      · cases hstep
  | handle =>
      simp only [step] at hstep
      split at hstep
      · simp only [bind_eq_ok, mapError_eq_ok, Prod.exists] at hstep
        obtain ⟨stateMachine, outputs, -, hnext⟩ := hstep
        cases hnext
        exact ⟨rfl, rfl⟩
      · cases hstep
  | terminate =>
      simp only [step] at hstep
      split at hstep <;> cases hstep
      exact ⟨rfl, rfl⟩
  | terminated | cmdClosed | snapClosed =>
      simp only [step, State.leave] at hstep
      split at hstep <;> cases hstep
      exact ⟨rfl, rfl⟩
  | watcherMux event =>
      simp only [step, bind_eq_ok, mapError_eq_ok, Prod.exists] at hstep
      obtain ⟨watcherMux, outputs, -, hnext⟩ := hstep
      cases hnext
      obtain ⟨hcmd, hsnap, -, -⟩ := views_mux ([] : List (Output T U)) outputs
      rw [show cmdOut (outputs.map .mux : List (Output T U)) = [] from hcmd,
        show snapOut (outputs.map .mux : List (Output T U)) = [] from hsnap]
      exact ⟨rfl, rfl⟩

end Proposals

section Runs

variable (stm : Interface σ T U) (codec : Codec U) (initial : σ)
  (cmdOptions snapshotOptions : Watched.Options) (channelBufferSize : Nat)
  (dispatchFunc : DispatchFunc)

/-- A replica that nobody has run yet, with logs to which nobody has proposed. -/
def start : State σ T U :=
  new initial (.new cmdOptions) (.new snapshotOptions) (.new channelBufferSize dispatchFunc)

theorem sound_start :
    Sound stm codec initial
      (start initial cmdOptions snapshotOptions channelBufferSize dispatchFunc) [] where
  cmdWAL := Watched.sound_new cmdOptions
  snapshotWAL := Watched.sound_new snapshotOptions
  watcherMux := Producer.sound_new channelBufferSize dispatchFunc
  outside := fun hpast => by cases hpast
  cmdCh := fun _ => rfl
  snapCh := fun _ => rfl
  commands := rfl
  snapshots := rfl
  replayed := rfl

variable {stm codec initial cmdOptions snapshotOptions channelBufferSize dispatchFunc}
  {events : List (Event T U)} {last : State σ T U} {out : List (Output T U)}

theorem sound_run
    (hrun : Foundation.run (step stm codec)
      (start initial cmdOptions snapshotOptions channelBufferSize dispatchFunc) events =
        .ok (last, out)) : Sound stm codec initial last out := by
  refine run_keeps (Sound stm codec initial) (sound_start _ _ _ _ _ _ _) ?_ hrun
  intro s now event next now' h hstep
  exact sound_step h hstep

theorem Sound.commands_sublist (h : Sound stm codec initial last out) :
    (commandsOf (applied out)).Sublist ((Watched.proposed (cmdOut out)).map ([·])) := by
  refine List.Sublist.trans ?_ (h.cmdWAL.takenFrom_sublist last.cmdCh)
  rw [h.commands, commandsOf_append]
  exact List.sublist_append_left _ _

/-- Also the snapshots in hand are proposals. -/
theorem Sound.snapshots_sublist (h : Sound stm codec initial last out) :
    (snapshotsOf (applied out ++ last.loop.inHand)).Sublist
      ((Watched.proposed (snapOut out)).map ([·])) := by
  rw [← h.snapshots]
  exact h.snapshotWAL.takenFrom_sublist last.snapCh

theorem Sound.receivedBy_sublist (h : Sound stm codec initial last out) (id : Nat) :
    (WatcherMux.receivedBy id (muxOut out)).Sublist (shown last out) :=
  (h.watcherMux.receivedBy_sublist id).trans (List.sublist_append_left _ _)

theorem proposed_cmdOut {s : State σ T U}
    (hrun : Foundation.run (step stm codec) s events = .ok (last, out)) :
    Watched.proposed (cmdOut out) = events.filterMap Event.proposal? := by
  refine run_view (fun out => Watched.proposed (cmdOut out)) ?_ Event.proposal? ?_ hrun
  · intro first second
    rw [cmdOut_append, Watched.proposed_append]
  · intro s event next now hstep
    exact (proposed_of_step hstep).1

theorem proposed_snapOut {s : State σ T U}
    (hrun : Foundation.run (step stm codec) s events = .ok (last, out)) :
    Watched.proposed (snapOut out) = events.filterMap Event.snapshot? := by
  refine run_view (fun out => Watched.proposed (snapOut out)) ?_ Event.snapshot? ?_ hrun
  · intro first second
    rw [snapOut_append, Watched.proposed_append]
  · intro s event next now hstep
    exact (proposed_of_step hstep).2

end Runs

/--
At any moment of any run: the state machine is where the events that the loop has
handled lead it from its initial state; its commands are proposals, one at a time,
in the order in which they were proposed and none twice, and so are its snapshots.
A watcher has received states that the replay shows, in their order.
-/
theorem state_is_replayed (stm : Interface σ T U) (codec : Codec U) (initial : σ)
    (cmdOptions snapshotOptions : Watched.Options) (channelBufferSize : Nat)
    (dispatchFunc : DispatchFunc) (events : List (Event T U)) (last : State σ T U)
    (out : List (Output T U))
    (hrun : Foundation.run (step stm codec)
      (start initial cmdOptions snapshotOptions channelBufferSize dispatchFunc) events =
        .ok (last, out)) :
    (commandsOf (applied out)).Sublist ((events.filterMap Event.proposal?).map ([·])) ∧
    (snapshotsOf (applied out)).Sublist ((events.filterMap Event.snapshot?).map ([·])) ∧
    ∃ states, Dvds.run stm codec initial (applied out) = .ok (last.stateMachine, states) ∧
      ∀ id, (WatcherMux.receivedBy id (muxOut out)).Sublist states := by
  have h := sound_run hrun
  refine ⟨?_, ?_, shown last out, h.replayed, h.receivedBy_sublist⟩
  · rw [← proposed_cmdOut hrun]
    exact h.commands_sublist
  · rw [← proposed_snapOut hrun]
    refine List.Sublist.trans ?_ h.snapshots_sublist
    rw [snapshotsOf_append]
    exact List.sublist_append_left _ _

/-- A put overwrites the elements that differ from it. -/
def exampleArray : StateMachine.Array Bool := ⟨some [false, false], some fun obj o => obj != o⟩

/-- A proposal gets through the log to the only watcher. -/
def deliverEvents {α : Type} (proposal : WALEntry α) : List (Watched.Event α) :=
  [.wal (.propose proposal), .wal .takeToken, .wal .lockedRead, .wal .handOff, .wal .append,
    .wal .dispatch, .mux (.snapshot [0]), .mux (.select .send), .mux .dispatched,
    .mux (.receive 0)]

def showEvents : List (Event Bool (Option (List Bool))) :=
  [.handle, .watcherMux (.snapshot [0]), .watcherMux (.select .send), .watcherMux .dispatched,
    .watcherMux (.receive 0)]

def exampleEvents : List (Event Bool (Option (List Bool))) :=
  [.watcherMux (.watch none), .watchCmd, .watchSnap] ++
    (deliverEvents (proposalEntry true 0)).map .cmdWAL ++ showEvents ++
    (deliverEvents (proposalEntry (some [false]) 1)).map .snapshotWAL ++ showEvents ++
    [.propose true 2, .terminate, .terminated, .cmdCancel, .snapCancel, .watcherMux (.close [0])]

theorem state_is_replayed_two_logs :
    ∃ last out,
      Foundation.run (step (Array.interface boolsCodec) boolsCodec)
        (start exampleArray ⟨"cmd", 4, 1, .nonBlocking⟩ ⟨"snapshots", 4, 1, .nonBlocking⟩ 1
          .nonBlocking) exampleEvents = .ok (last, out) ∧
      last.stateMachine.state = some [false] ∧
      WatcherMux.receivedBy 0 (muxOut out) = [some [true, true], some [false]] ∧
      ∃ states, Dvds.run (Array.interface boolsCodec) boolsCodec exampleArray (applied out) =
          .ok (last.stateMachine, states) ∧
        (WatcherMux.receivedBy 0 (muxOut out)).Sublist states := by
  have heval : (Foundation.run (step (Array.interface boolsCodec) boolsCodec)
      (start exampleArray ⟨"cmd", 4, 1, .nonBlocking⟩ ⟨"snapshots", 4, 1, .nonBlocking⟩ 1
        .nonBlocking) exampleEvents).toOption.map (fun result =>
          (result.1.stateMachine.state, WatcherMux.receivedBy 0 (muxOut result.2))) =
        some (some [false], [some [true, true], some [false]]) := by
    decide +kernel
  obtain ⟨⟨last, out⟩, hrun, hresult⟩ := returns_of_toOption heval
  obtain ⟨hstate, hreceived⟩ := Prod.mk.inj hresult
  obtain ⟨-, -, states, hstates, hsublist⟩ := state_is_replayed (Array.interface boolsCodec)
    boolsCodec exampleArray _ _ _ _ exampleEvents last out hrun
  exact ⟨last, out, hrun, hstate, hreceived, states, hstates, hsublist 0⟩

end Udplb.Dvds.Replica
