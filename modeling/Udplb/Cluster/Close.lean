import Udplb.Lifecycle

/-!
# Closing a cluster adapter from several goroutines

`Close` of the cluster adapters gives up the mutex between the section that
closes `terminateCh` and the section that records the close.  A second call that
enters in between passes the guard and closes the channel again.  The wait for
the loops can end at any time, with the loops or by its timeout.
-/

namespace Udplb.Cluster

open Udplb.Foundation Udplb.Lifecycle

inductive Adapter where
  | clusterMux
  | typedCluster
  deriving DecidableEq, Repr

def Adapter.component : Adapter → Component
  | .clusterMux => .clusterMux
  | .typedCluster => .typedCluster

/-- What `Close` closes between its two sections. -/
def Adapter.cancels : Adapter → List Chan
  | .clusterMux => []
  | .typedCluster => [.rawRecvDone]

/-- Where a goroutine is in its call of `Close`. -/
inductive Closer where
  | ready
  | cancelling
  | waiting
  | returned (result : Option Err)
  deriving DecidableEq, Repr

structure Closing where
  state : Runnable
  closers : List Closer
  deriving DecidableEq, Repr

inductive Stop where
  | blocked
  | panicked (stop : Lifecycle.Stop)
  deriving DecidableEq, Repr

inductive Event where
  | enter (i : Nat)
  | cancel (i : Nat)
  | leave (i : Nat)
  deriving DecidableEq, Repr

/-- A running adapter that `n` goroutines are about to close. -/
def start (adapter : Adapter) (n : Nat) : Closing :=
  ⟨adapter.component.inPhase .running, List.replicate n .ready⟩

def step (adapter : Adapter) (c : Closing) :
    Event → Except Stop (Closing × List (Option Err))
  | .enter i =>
      match c.closers[i]? with
      | some .ready => do
          let (result, state) ← (beginClose.run c.state).mapError .panicked
          match result with
          | some err =>
              .ok (⟨state, c.closers.set i (.returned (some err))⟩, [some err])
          | none => .ok (⟨state, c.closers.set i .cancelling⟩, [])
      | _ => .error .blocked
  | .cancel i =>
      match c.closers[i]? with
      | some .cancelling => do
          let (_, state) ←
            ((adapter.cancels.forM closeChan).run c.state).mapError .panicked
          .ok (⟨state, c.closers.set i .waiting⟩, [])
      | _ => .error .blocked
  | .leave i =>
      match c.closers[i]? with
      | some .waiting => do
          let (_, state) ← (finishClose.run c.state).mapError .panicked
          .ok (⟨state, c.closers.set i (.returned none)⟩, [none])
      | _ => .error .blocked

/-- A call enters only while no other one is between its two sections. -/
def EntersAlone (c : Closing) (_ : List (Option Err)) : Event → Prop
  | .enter i => c.closers[i]? = some .ready →
      .cancelling ∉ c.closers ∧ .waiting ∉ c.closers
  | .cancel _ | .leave _ => True

/-! ## The stages of a close -/

def OthersReady (closers : List Closer) (i : Nat) : Prop :=
  ∀ j closer, j ≠ i → closers[j]? = some closer → closer = .ready

def OthersTold (closers : List Closer) (i : Nat) : Prop :=
  ∀ j closer, j ≠ i → closers[j]? = some closer →
    closer = .ready ∨ closer = .returned (some .alreadyClosed)

inductive Stage (adapter : Adapter) : Closing → Prop
  | running (closers : List Closer) (hready : ∀ closer ∈ closers, closer = .ready) :
      Stage adapter ⟨⟨true, false, false, []⟩, closers⟩
  | cancelling (closers : List Closer) (i : Nat)
      (hi : closers[i]? = some .cancelling) (hothers : OthersReady closers i) :
      Stage adapter ⟨⟨true, false, false, [.terminateCh]⟩, closers⟩
  | waiting (closers : List Closer) (i : Nat)
      (hi : closers[i]? = some .waiting) (hothers : OthersReady closers i) :
      Stage adapter ⟨⟨true, false, false, adapter.cancels ++ [.terminateCh]⟩, closers⟩
  | closed (closers : List Closer) (i : Nat)
      (hi : closers[i]? = some (.returned none)) (hothers : OthersTold closers i) :
      Stage adapter ⟨⟨false, true, false, adapter.cancels ++ [.terminateCh]⟩, closers⟩

theorem stage_start (adapter : Adapter) (n : Nat) : Stage adapter (start adapter n) := by
  have hstate : adapter.component.inPhase .running = ⟨true, false, false, []⟩ := by
    cases adapter <;> rfl
  rw [start, hstate]
  exact .running _ fun closer hcloser => List.eq_of_mem_replicate hcloser

theorem OthersReady.set {closers : List Closer} {i : Nat} (h : OthersReady closers i)
    (closer : Closer) : OthersReady (closers.set i closer) i := by
  intro j closer' hj hget
  rw [List.getElem?_set_ne (Ne.symm hj)] at hget
  exact h j closer' hj hget

theorem OthersReady.told {closers : List Closer} {i : Nat} (h : OthersReady closers i) :
    OthersTold closers i :=
  fun j closer hj hget => Or.inl (h j closer hj hget)

theorem OthersReady.eq_of_ne_ready {closers : List Closer} {i j : Nat} {closer : Closer}
    (h : OthersReady closers i) (hj : closers[j]? = some closer) (hne : closer ≠ .ready) :
    j = i := by
  by_contra hji
  exact hne (h j closer hji hj)

/-! ## One step -/

theorem beginClose_running :
    beginClose.run ⟨true, false, false, []⟩ =
      .ok (none, ⟨true, false, false, [.terminateCh]⟩) := rfl

theorem beginClose_closing {chans : List Chan} (h : .terminateCh ∈ chans) :
    beginClose.run ⟨true, false, false, chans⟩ = .error .closeOfClosedChannel := by
  simp [beginClose, lock, unlock, closeChan, h]
  rfl

theorem beginClose_closed (chans : List Chan) :
    beginClose.run ⟨false, true, false, chans⟩ =
      .ok (some .alreadyClosed, ⟨false, true, false, chans⟩) := rfl

theorem cancels_run (adapter : Adapter) :
    (adapter.cancels.forM closeChan).run ⟨true, false, false, [.terminateCh]⟩ =
      .ok ((), ⟨true, false, false, adapter.cancels ++ [.terminateCh]⟩) := by
  cases adapter <;> rfl

theorem finishClose_run (chans : List Chan) :
    finishClose.run ⟨true, false, false, chans⟩ =
      .ok ((), ⟨false, true, false, chans⟩) := rfl

variable {adapter : Adapter} {c : Closing} {i : Nat}

theorem step_enter_closing {chans : List Chan} {closers : List Closer}
    (hready : closers[i]? = some .ready) (hchans : .terminateCh ∈ chans) :
    step adapter ⟨⟨true, false, false, chans⟩, closers⟩ (.enter i) =
      .error (.panicked .closeOfClosedChannel) := by
  simp only [step, hready, beginClose_closing hchans]
  rfl

/-- A call that enters: unless it does so alone it panics. -/
theorem stage_enter (h : Stage adapter c) (hready : c.closers[i]? = some .ready) :
    (.cancelling ∉ c.closers ∧ .waiting ∉ c.closers ∧
      ∃ next out, step adapter c (.enter i) = .ok (next, out) ∧ Stage adapter next) ∨
    ((.cancelling ∈ c.closers ∨ .waiting ∈ c.closers) ∧
      step adapter c (.enter i) = .error (.panicked .closeOfClosedChannel)) := by
  cases h with
  | running closers hall =>
      have hstep : step adapter ⟨⟨true, false, false, []⟩, closers⟩ (.enter i) =
          .ok (⟨⟨true, false, false, [.terminateCh]⟩, closers.set i .cancelling⟩, []) := by
        simp only [step, hready, beginClose_running]
        rfl
      refine Or.inl ⟨fun hmem => ?_, fun hmem => ?_, _, _, hstep, ?_⟩
      · cases hall _ hmem
      · cases hall _ hmem
      · refine .cancelling _ i (getElem?_set_of_some hready _) (OthersReady.set ?_ _)
        exact fun j closer _ hget => hall closer (List.mem_of_getElem? hget)
  | cancelling closers k hk hothers =>
      exact Or.inr ⟨Or.inl (List.mem_of_getElem? hk),
        step_enter_closing hready (by simp)⟩
  | waiting closers k hk hothers =>
      exact Or.inr ⟨Or.inr (List.mem_of_getElem? hk),
        step_enter_closing hready (by simp)⟩
  | closed closers k hk hothers =>
      have hstep : step adapter
          ⟨⟨false, true, false, adapter.cancels ++ [.terminateCh]⟩, closers⟩ (.enter i) =
          .ok (⟨⟨false, true, false, adapter.cancels ++ [.terminateCh]⟩,
            closers.set i (.returned (some .alreadyClosed))⟩, [some .alreadyClosed]) := by
        simp only [step, hready, beginClose_closed]
        rfl
      have hdone : ∀ closer ∈ closers, closer ≠ .cancelling ∧ closer ≠ .waiting := by
        intro closer hmem
        obtain ⟨j, hj⟩ := List.mem_iff_getElem?.mp hmem
        by_cases hjk : j = k
        · subst hjk
          cases hk.symm.trans hj
          exact ⟨nofun, nofun⟩
        · rcases hothers j closer hjk hj with rfl | rfl <;> exact ⟨nofun, nofun⟩
      have hik : i ≠ k := by
        rintro rfl
        cases hready.symm.trans hk
      refine Or.inl ⟨fun hmem => (hdone _ hmem).1 rfl, fun hmem => (hdone _ hmem).2 rfl,
        _, _, hstep, .closed _ k ?_ ?_⟩
      · rw [List.getElem?_set_ne hik]
        exact hk
      · intro j closer hj hget
        rcases getElem?_set_cases hget with ⟨-, rfl⟩ | ⟨-, hget⟩
        · exact Or.inr rfl
        · exact hothers j closer hj hget

theorem Stage.cancelling_eq (h : Stage adapter c) (hi : c.closers[i]? = some .cancelling) :
    c.state = ⟨true, false, false, [.terminateCh]⟩ ∧ OthersReady c.closers i := by
  cases h with
  | running closers hall => cases hall _ (List.mem_of_getElem? hi)
  | cancelling closers k hk hothers =>
      cases hothers.eq_of_ne_ready hi nofun
      exact ⟨rfl, hothers⟩
  | waiting closers k hk hothers =>
      cases hothers.eq_of_ne_ready hi nofun
      cases hi.symm.trans hk
  | closed closers k hk hothers =>
      by_cases hik : i = k
      · subst hik
        cases hi.symm.trans hk
      · rcases hothers i _ hik hi with h | h <;> cases h

theorem Stage.waiting_eq (h : Stage adapter c) (hi : c.closers[i]? = some .waiting) :
    c.state = ⟨true, false, false, adapter.cancels ++ [.terminateCh]⟩ ∧
      OthersReady c.closers i := by
  cases h with
  | running closers hall => cases hall _ (List.mem_of_getElem? hi)
  | cancelling closers k hk hothers =>
      cases hothers.eq_of_ne_ready hi nofun
      cases hi.symm.trans hk
  | waiting closers k hk hothers =>
      cases hothers.eq_of_ne_ready hi nofun
      exact ⟨rfl, hothers⟩
  | closed closers k hk hothers =>
      by_cases hik : i = k
      · subst hik
        cases hi.symm.trans hk
      · rcases hothers i _ hik hi with h | h <;> cases h

theorem stage_cancel (h : Stage adapter c) (hi : c.closers[i]? = some .cancelling) :
    ∃ next out, step adapter c (.cancel i) = .ok (next, out) ∧ Stage adapter next := by
  obtain ⟨hstate, hothers⟩ := h.cancelling_eq hi
  refine ⟨⟨_, c.closers.set i .waiting⟩, [], ?_,
    .waiting _ i (getElem?_set_of_some hi _) (hothers.set _)⟩
  simp only [step, hi, hstate, cancels_run]
  rfl

theorem stage_leave (h : Stage adapter c) (hi : c.closers[i]? = some .waiting) :
    ∃ next out, step adapter c (.leave i) = .ok (next, out) ∧ Stage adapter next := by
  obtain ⟨hstate, hothers⟩ := h.waiting_eq hi
  refine ⟨⟨_, c.closers.set i (.returned none)⟩, [none], ?_,
    .closed _ i (getElem?_set_of_some hi _) (hothers.set _).told⟩
  simp only [step, hi, hstate, finishClose_run]
  rfl

theorem step_blocked {event : Event}
    (h : (∃ i, event = .enter i ∧ c.closers[i]? ≠ some .ready) ∨
      (∃ i, event = .cancel i ∧ c.closers[i]? ≠ some .cancelling) ∨
      ∃ i, event = .leave i ∧ c.closers[i]? ≠ some .waiting) :
    step adapter c event = .error .blocked := by
  rcases h with ⟨i, rfl, h⟩ | ⟨i, rfl, h⟩ | ⟨i, rfl, h⟩ <;> simp only [step]

/-- A step is taken to the next stage, is not enabled, or overlaps and panics. -/
theorem stage_step (h : Stage adapter c) (out : List (Option Err)) (event : Event) :
    (EntersAlone c out event ∧
      (step adapter c event = .error .blocked ∨
        ∃ next now, step adapter c event = .ok (next, now) ∧ Stage adapter next)) ∨
    (¬EntersAlone c out event ∧
      step adapter c event = .error (.panicked .closeOfClosedChannel)) := by
  cases event with
  | enter i =>
      by_cases hready : c.closers[i]? = some .ready
      · rcases stage_enter h hready with ⟨hcancelling, hwaiting, htaken⟩ | ⟨hbusy, hstep⟩
        · exact Or.inl ⟨fun _ => ⟨hcancelling, hwaiting⟩, Or.inr htaken⟩
        · refine Or.inr ⟨fun halone => ?_, hstep⟩
          obtain ⟨hcancelling, hwaiting⟩ := halone hready
          exact hbusy.elim hcancelling hwaiting
      · exact Or.inl ⟨fun h => absurd h hready,
          Or.inl (step_blocked (Or.inl ⟨i, rfl, hready⟩))⟩
  | cancel i =>
      refine Or.inl ⟨trivial, ?_⟩
      by_cases hi : c.closers[i]? = some .cancelling
      · exact Or.inr (stage_cancel h hi)
      · exact Or.inl (step_blocked (Or.inr (Or.inl ⟨i, rfl, hi⟩)))
  | leave i =>
      refine Or.inl ⟨trivial, ?_⟩
      by_cases hi : c.closers[i]? = some .waiting
      · exact Or.inr (stage_leave h hi)
      · exact Or.inl (step_blocked (Or.inr (Or.inr ⟨i, rfl, hi⟩)))

/-! ## Runs -/

theorem stage_run {n : Nat} {events : List Event} {last : Closing}
    {out : List (Option Err)}
    (hrun : run (step adapter) (start adapter n) events = .ok (last, out)) :
    Stage adapter last := by
  refine run_invariant (Stage adapter) ?_ (stage_start adapter n) hrun
  intro s event next now _ hstage hstep
  rcases stage_step hstage [] event with ⟨-, hblocked | ⟨next', now', htaken, hnext⟩⟩ |
      ⟨-, hpanic⟩
  · cases hblocked.symm.trans hstep
  · cases htaken.symm.trans hstep
    exact hnext
  · cases hpanic.symm.trans hstep

theorem length_closers_run {n : Nat} {events : List Event} {last : Closing}
    {out : List (Option Err)}
    (hrun : run (step adapter) (start adapter n) events = .ok (last, out)) :
    last.closers.length = n := by
  refine run_invariant (fun c => c.closers.length = n) ?_ (by simp [start]) hrun
  intro s event next now _ hlength hstep
  cases event with
  | enter i =>
      simp only [step] at hstep
      split at hstep
      · simp only [bind_eq_ok] at hstep
        obtain ⟨⟨result, state⟩, -, hstep⟩ := hstep
        cases result <;> cases hstep <;> simpa using hlength
      · cases hstep
  | cancel i | leave i =>
      simp only [step] at hstep
      split at hstep
      · simp only [bind_eq_ok] at hstep
        obtain ⟨result, -, hstep⟩ := hstep
        cases hstep
        simpa using hlength
      · cases hstep

theorem run_panics_iff (n : Nat) (events : List Event) :
    (∀ stop, run (step adapter) (start adapter n) events ≠ .error (.panicked stop)) ↔
      Along (step adapter) EntersAlone (start adapter n) [] events := by
  constructor
  · intro hsafe
    by_contra hnot
    obtain ⟨first, event, rest, middle, now, rfl, hfirst, -, hoverlap⟩ :=
      Along.exists_failure hnot
    rcases stage_step (stage_run hfirst) ([] ++ now) event with ⟨halone, -⟩ | ⟨-, hpanic⟩
    · exact hoverlap halone
    · exact hsafe .closeOfClosedChannel (run_append_eq_error hfirst
        (run_cons_eq_error.mpr (Or.inl hpanic)))
  · intro halong stop hrun
    have hallowed : Stop.panicked stop = .blocked := by
      refine run_errors (fun c _ => Stage adapter c) (· = .blocked)
        (stage_start adapter n) ?_ halong hrun
      intro s now event hstage halone
      rcases stage_step hstage now event with
        ⟨-, hblocked | ⟨next, now', htaken, hnext⟩⟩ | ⟨hoverlap, -⟩
      · rw [hblocked]
        exact ⟨by rintro err ⟨⟩; rfl, nofun⟩
      · rw [htaken]
        exact ⟨nofun, by rintro next' now'' ⟨⟩; exact hnext⟩
      · exact absurd halone hoverlap
    cases hallowed

/--
Closing from several goroutines panics in no schedule of which no call enters
between the two sections of another one, and in every other one.  In a run that
does not panic `terminateCh` is closed once at most; once all calls have
returned it is closed, and exactly one of them has returned nil.
-/
theorem concurrent_close_iff (adapter : Adapter) (n : Nat) (events : List Event) :
    ((∀ stop, run (step adapter) (start adapter n) events ≠ .error (.panicked stop)) ↔
      Along (step adapter) EntersAlone (start adapter n) [] events) ∧
    ∀ last out, run (step adapter) (start adapter n) events = .ok (last, out) →
      last.state.closedChans.count .terminateCh ≤ 1 ∧
      (0 < n → (∀ closer ∈ last.closers, ∃ result, closer = .returned result) →
        last.state.closedChans.count .terminateCh = 1 ∧
        ∃! i : Nat, last.closers[i]? = some (Closer.returned none)) := by
  refine ⟨run_panics_iff n events, fun last out hrun => ?_⟩
  have hlength := length_closers_run hrun
  have hcount : (adapter.cancels ++ [Chan.terminateCh]).count Chan.terminateCh = 1 := by
    cases adapter <;> rfl
  cases stage_run hrun with
  | running closers hready =>
      refine ⟨by simp, fun hn hreturned => ?_⟩
      obtain ⟨closer, hcloser⟩ := List.exists_mem_of_length_pos (hlength ▸ hn)
      obtain ⟨result, rfl⟩ := hreturned closer hcloser
      cases hready _ hcloser
  | cancelling closers i hi hothers =>
      refine ⟨by simp, fun hn hreturned => ?_⟩
      obtain ⟨result, hresult⟩ := hreturned _ (List.mem_of_getElem? hi)
      cases hresult
  | waiting closers i hi hothers =>
      refine ⟨Nat.le_of_eq hcount, fun hn hreturned => ?_⟩
      obtain ⟨result, hresult⟩ := hreturned _ (List.mem_of_getElem? hi)
      cases hresult
  | closed closers i hi hothers =>
      refine ⟨Nat.le_of_eq hcount, fun hn hreturned => ⟨hcount, i, hi, fun j hj => ?_⟩⟩
      by_contra hji
      rcases hothers j _ hji hj with h | h <;> cases h

/-- Two calls one after the other both return, and only the first one with nil. -/
theorem concurrent_close_iff_two_calls :
    ∃ last out, run (step .typedCluster) (start .typedCluster 2)
        [.enter 0, .cancel 0, .leave 0, .enter 1] = .ok (last, out) ∧
      (∀ closer ∈ last.closers, ∃ result, closer = .returned result) ∧
      last.state.closedChans.count .terminateCh = 1 ∧
      ∃! i : Nat, last.closers[i]? = some (Closer.returned none) := by
  have hreturned : ∀ closer ∈ [Closer.returned none, .returned (some .alreadyClosed)],
      ∃ result, closer = .returned result := by simp
  obtain ⟨-, hreturns⟩ := concurrent_close_iff .typedCluster 2
    [.enter 0, .cancel 0, .leave 0, .enter 1]
  exact ⟨_, _, rfl, hreturned, (hreturns _ _ rfl).2 (by decide) hreturned⟩

theorem concurrent_close_panics :
    run (step .clusterMux) (start .clusterMux 2) [.enter 0, .enter 1] =
        .error (.panicked .closeOfClosedChannel) ∧
      run (step .typedCluster) (start .typedCluster 2) [.enter 0, .enter 1] =
        .error (.panicked .closeOfClosedChannel) := by
  decide

end Udplb.Cluster
