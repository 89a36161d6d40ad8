import Udplb.Foundation.Trace
import Udplb.Util.WorkerPool

/-!
# Draining the worker pool

The pool with its surroundings: users submit functions to the queue, and close
the queue or the termination channel.  On a queue without buffer, or when the
buffer is empty, a submission is handed to a waiting worker.  Every function that
a worker receives is accounted for, and a worker leaves only when it has seen the
queue empty.
-/

namespace Udplb.Util.WorkerPool

open Udplb.Foundation

universe u

variable {J : Type u}

structure Shared (J : Type u) where
  pool : WorkerPool J
  terminateCh : Bool
  deriving DecidableEq, Repr

inductive Fault where
  | pool (stop : Stop)
  | closeOfClosedChannel
  deriving DecidableEq, Repr

inductive Action (J : Type u) where
  | submit (job : J)
  | handOff (i : Nat) (job : J)
  | closeQ
  | closeTerminateCh
  | work (event : Event)
  | finish (i : Nat)
  deriving DecidableEq, Repr

inductive Output (J : Type u) where
  | submitted (job : J)
  | received (job : J)
  | executed (job : J)
  deriving DecidableEq, Repr

def Output.submitted? : Output J → Option J
  | .submitted job => some job
  | .received _ | .executed _ => none

def Output.received? : Output J → Option J
  | .received job => some job
  | .submitted _ | .executed _ => none

def Output.executed? : Output J → Option J
  | .executed job => some job
  | .submitted _ | .received _ => none

def start (n qCapacity : Nat) : Shared J := ⟨new n qCapacity, false⟩

/-- What a step of a worker takes from the queue. -/
def taken (p : WorkerPool J) : Event → List (Output J)
  | .receive _ => (p.q.head?.map Output.received).toList
  | .terminate _ | .return _ | .done => []

def act (s : Shared J) : Action J → Except Fault (Shared J × List (Output J))
  | .submit job => do
      let pool ← (s.pool.submit job).mapError .pool
      .ok ({ s with pool := pool }, [.submitted job])
  | .handOff i job =>
      if s.pool.qClosed then .error (.pool .sendOnClosedChannel)
      else
        match s.pool.workers[i]?, s.pool.q with
        | some .selecting, [] =>
            .ok ({ s with pool := s.pool.setWorker i (.running job false) },
              [.submitted job, .received job])
        | some .draining, [] =>
            .ok ({ s with pool := s.pool.setWorker i (.running job true) },
              [.submitted job, .received job])
        | _, _ => .error (.pool .blocked)
  | .closeQ =>
      if s.pool.qClosed then .error .closeOfClosedChannel
      else .ok ({ s with pool := { s.pool with qClosed := true } }, [])
  | .closeTerminateCh =>
      if s.terminateCh then .error .closeOfClosedChannel
      else .ok ({ s with terminateCh := true }, [])
  | .work event => do
      let pool ← (step s.terminateCh s.pool event).mapError .pool
      .ok ({ s with pool := pool }, taken s.pool event)
  | .finish i =>
      match s.pool.workers[i]? with
      | some (.running job draining) =>
          .ok ({ s with pool := s.pool.setWorker i (.waiting draining) },
            [.executed job])
      | _ => .error (.pool .blocked)

/-! ## What a step does -/

inductive Moves (s : Shared J) : Action J → Shared J → List (Output J) → Prop
  | submitted (job : J) (hopen : s.pool.qClosed = false) :
      Moves s (.submit job) { s with pool := { s.pool with q := s.pool.q ++ [job] } }
        [.submitted job]
  | handedOff (i : Nat) (job : J) (draining : Bool) (hopen : s.pool.qClosed = false)
      (hw : s.pool.workers[i]? = some (.waiting draining)) (hq : s.pool.q = []) :
      Moves s (.handOff i job)
        { s with pool := s.pool.setWorker i (.running job draining) }
        [.submitted job, .received job]
  | closedQ :
      Moves s .closeQ { s with pool := { s.pool with qClosed := true } } []
  | terminated : Moves s .closeTerminateCh { s with terminateCh := true } []
  | worked (event : Event) (pool : WorkerPool J) (hsteps : Steps s.pool event pool)
      (hterminate : ∀ i, event = .terminate i → s.terminateCh = true) :
      Moves s (.work event) { s with pool := pool } (taken s.pool event)
  | finished (i : Nat) (job : J) (draining : Bool)
      (hw : s.pool.workers[i]? = some (.running job draining)) :
      Moves s (.finish i) { s with pool := s.pool.setWorker i (.waiting draining) }
        [.executed job]

theorem moves_of_act_eq_ok {s s' : Shared J} {action : Action J} {now : List (Output J)}
    (h : act s action = .ok (s', now)) : Moves s action s' now := by
  cases action with
  | submit job =>
      simp only [act, bind_eq_ok, mapError_eq_ok] at h
      obtain ⟨pool, hsubmit, h⟩ := h
      cases h
      have hopen : s.pool.qClosed = false := by
        cases hclosed : s.pool.qClosed with
        | false => rfl
        | true => simp [submit, hclosed] at hsubmit
      rw [submit_eq_ok hsubmit]
      exact .submitted job hopen
  | handOff i job =>
      simp only [act] at h
      split at h
      · cases h
      · rename_i hopen
        split at h
        · rename_i hw hq
          cases h
          exact .handedOff i job false (by simpa using hopen) hw hq
        · rename_i hw hq
          cases h
          exact .handedOff i job true (by simpa using hopen) hw hq
        · cases h
  | closeQ =>
      simp only [act] at h
      split at h <;> cases h
      exact .closedQ
  | closeTerminateCh =>
      simp only [act] at h
      split at h <;> cases h
      exact .terminated
  | work event =>
      simp only [act, bind_eq_ok, mapError_eq_ok] at h
      obtain ⟨pool, hpool, h⟩ := h
      cases h
      refine .worked event pool (steps_of_step_eq_ok hpool) ?_
      rintro i rfl
      exact terminateCh_of_step hpool
  | finish i =>
      simp only [act] at h
      split at h <;> cases h
      exact .finished i _ _ (by assumption)

/-! ## Every function is accounted for -/

def submittedJobs (out : List (Output J)) : List J := out.filterMap Output.submitted?

def receivedJobs (out : List (Output J)) : List J := out.filterMap Output.received?

def executedJobs (out : List (Output J)) : List J := out.filterMap Output.executed?

@[simp] theorem submittedJobs_append (out now : List (Output J)) :
    submittedJobs (out ++ now) = submittedJobs out ++ submittedJobs now :=
  List.filterMap_append

@[simp] theorem receivedJobs_append (out now : List (Output J)) :
    receivedJobs (out ++ now) = receivedJobs out ++ receivedJobs now :=
  List.filterMap_append

@[simp] theorem executedJobs_append (out now : List (Output J)) :
    executedJobs (out ++ now) = executedJobs out ++ executedJobs now :=
  List.filterMap_append

structure Accounted (s : Shared J) (out : List (Output J)) : Prop where
  queued : submittedJobs out = receivedJobs out ++ s.pool.q
  once : (receivedJobs out).Perm (executedJobs out ++ s.pool.running)

/-- A worker that waits takes up one more function. -/
theorem running_receive {p : WorkerPool J} {i : Nat} {draining : Bool}
    (hw : p.workers[i]? = some (.waiting draining)) (job : J) :
    (p.setWorker i (.running job draining)).running.Perm (job :: p.running) := by
  obtain ⟨before, after, hworkers, hset⟩ := exists_filterMap_set Worker.job? hw
  rw [running, running, workers_setWorker, hset, hworkers, job?_waiting]
  simp [Worker.job?]

theorem running_finished {p : WorkerPool J} {i : Nat} {job : J} {draining : Bool}
    (hw : p.workers[i]? = some (.running job draining)) :
    p.running.Perm (job :: (p.setWorker i (.waiting draining)).running) := by
  obtain ⟨before, after, hworkers, hset⟩ := exists_filterMap_set Worker.job? hw
  rw [running, running, workers_setWorker, hset, hworkers, job?_waiting]
  simp [Worker.job?]

/-- A step that moves functions from the queue to the workers and from there on. -/
theorem Accounted.step {s s' : Shared J} {out now : List (Output J)} (h : Accounted s out)
    (hqueue : s.pool.q ++ submittedJobs now = receivedJobs now ++ s'.pool.q)
    (hrunning : (receivedJobs now ++ s.pool.running).Perm
      (executedJobs now ++ s'.pool.running)) : Accounted s' (out ++ now) := by
  constructor
  · rw [submittedJobs_append, receivedJobs_append, h.queued, List.append_assoc, hqueue,
      List.append_assoc]
  · rw [receivedJobs_append, executedJobs_append, List.append_assoc]
    calc (receivedJobs out ++ receivedJobs now).Perm
          (executedJobs out ++ s.pool.running ++ receivedJobs now) := h.once.append_right _
      _ = executedJobs out ++ (s.pool.running ++ receivedJobs now) := List.append_assoc _ _ _
      List.Perm _ (executedJobs out ++ (receivedJobs now ++ s.pool.running)) :=
        List.perm_append_comm.append_left _
      List.Perm _ (executedJobs out ++ (executedJobs now ++ s'.pool.running)) :=
        hrunning.append_left _

theorem Moves.accounted {s s' : Shared J} {action : Action J} {out now : List (Output J)}
    (hmoves : Moves s action s' now) (h : Accounted s out) : Accounted s' (out ++ now) := by
  cases hmoves with
  | submitted job => exact h.step rfl (.refl _)
  | handedOff i job draining hopen hw hq =>
      refine h.step ?_ (running_receive hw job).symm
      change s.pool.q ++ [job] = [job] ++ s.pool.q
      rw [hq]
      rfl
  | closedQ | terminated => exact h.step (List.append_nil _) (.refl _)
  | worked event pool hsteps =>
      cases hsteps with
      | received i draining job rest hw hq =>
          have htaken : taken s.pool (.receive i) = [.received job] := by simp [taken, hq]
          rw [htaken]
          refine h.step ?_ (running_receive (p := { s.pool with q := rest }) hw job).symm
          rw [hq]
          exact List.append_nil _
      | terminating i hw =>
          refine h.step (List.append_nil _) (.of_eq (running_setWorker hw ?_).symm)
          rfl
      | returned i draining hw =>
          refine h.step (List.append_nil _) (.of_eq (running_setWorker hw ?_).symm)
          exact (job?_waiting draining).symm
      | done => exact h.step (List.append_nil _) (.refl _)
  | finished i job draining hw =>
      exact h.step (List.append_nil _) (running_finished hw)

theorem accounted_start (n qCapacity : Nat) :
    Accounted (start n qCapacity : Shared J) [] := by
  refine ⟨rfl, ?_⟩
  have hidle : (start n qCapacity : Shared J).pool.running = [] := by
    simp [start, new, running, Worker.job?]
  rw [hidle]
  exact .refl _

/-! ## When a worker leaves -/

/-- A worker that has seen the termination signal and not returned yet. -/
def Worker.Leaving : Worker J → Prop
  | .draining => True
  | .running _ draining => draining = true
  | .selecting | .returned => False

/-- Before the pool is told to terminate, workers leave for a closed, empty queue. -/
structure Open (s : Shared J) : Prop where
  staying : s.terminateCh = false → ∀ w ∈ s.pool.workers, ¬Worker.Leaving w
  emptied : s.terminateCh = false → .returned ∈ s.pool.workers →
    s.pool.qClosed = true ∧ s.pool.q = []

theorem staying_set {workers : List (Worker J)} {i : Nat} {w w' : Worker J}
    (h : ∀ x ∈ workers, ¬Worker.Leaving x) (hw : workers[i]? = some w)
    (hleaving : Worker.Leaving w' → Worker.Leaving w) :
    ∀ x ∈ workers.set i w', ¬Worker.Leaving x := by
  intro x hx
  rcases List.mem_or_eq_of_mem_set hx with hx | rfl
  · exact h x hx
  · intro hleave
    exact h w (List.mem_of_getElem? hw) (hleaving hleave)

theorem leaving_waiting {draining : Bool} :
    Worker.Leaving (.waiting draining : Worker J) ↔ draining = true := by
  cases draining <;> simp [Worker.waiting, Worker.Leaving]

theorem returned_mem_of_set {workers : List (Worker J)} {i : Nat} {w : Worker J}
    (h : .returned ∈ workers.set i w) (hne : w ≠ .returned) : .returned ∈ workers := by
  rcases List.mem_or_eq_of_mem_set h with h | h
  · exact h
  · exact absurd h.symm hne

/-- A worker returns only when it finds the queue empty. -/
theorem Moves.returned_mem {s s' : Shared J} {action : Action J} {now : List (Output J)}
    (hmoves : Moves s action s' now) (h : .returned ∈ s'.pool.workers) :
    .returned ∈ s.pool.workers ∨ s.pool.q = [] := by
  cases hmoves with
  | submitted | closedQ | terminated => exact Or.inl h
  | handedOff => exact Or.inl (returned_mem_of_set h (by simp))
  | worked event pool hsteps =>
      cases hsteps with
      | received | terminating => exact Or.inl (returned_mem_of_set h (by simp))
      | returned i draining hw hq => exact Or.inr hq
      | done => exact Or.inl h
  | finished i job draining hw => exact Or.inl (returned_mem_of_set h (by simp))

theorem Moves.staying {s s' : Shared J} {action : Action J} {now : List (Output J)}
    (hmoves : Moves s action s' now) (h : Open s) (hterminate : s'.terminateCh = false) :
    ∀ w ∈ s'.pool.workers, ¬Worker.Leaving w := by
  cases hmoves with
  | submitted | closedQ => exact h.staying hterminate
  | terminated => cases hterminate
  | handedOff i job draining hopen hw hq =>
      exact staying_set (h.staying hterminate) hw leaving_waiting.mpr
  | worked event pool hsteps htrue =>
      cases hsteps with
      | received i draining job rest hw hq =>
          exact staying_set (h.staying hterminate) hw leaving_waiting.mpr
      | terminating i => exact absurd ((htrue i rfl).symm.trans hterminate) (by simp)
      | returned i draining hw => exact staying_set (h.staying hterminate) hw False.elim
      | done => exact h.staying hterminate
  | finished i job draining hw =>
      exact staying_set (h.staying hterminate) hw leaving_waiting.mp

theorem Moves.emptied {s s' : Shared J} {action : Action J} {now : List (Output J)}
    (hmoves : Moves s action s' now) (h : Open s) (hterminate : s'.terminateCh = false)
    (hreturned : .returned ∈ s'.pool.workers) :
    s'.pool.qClosed = true ∧ s'.pool.q = [] := by
  cases hmoves with
  | submitted job hopen =>
      have hclosed := (h.emptied hterminate hreturned).1
      exact absurd (hclosed.symm.trans hopen) (by simp)
  | handedOff i job draining hopen hw hq =>
      exact h.emptied hterminate (returned_mem_of_set hreturned (by simp))
  | closedQ => exact ⟨rfl, (h.emptied hterminate hreturned).2⟩
  | terminated => cases hterminate
  | worked event pool hsteps htrue =>
      cases hsteps with
      | received i draining job rest hw hq =>
          have hempty := (h.emptied hterminate (returned_mem_of_set hreturned (by simp))).2
          rw [hq] at hempty
          cases hempty
      | terminating i => exact absurd ((htrue i rfl).symm.trans hterminate) (by simp)
      | returned i draining hw hq hwhy =>
          refine ⟨hwhy ?_, hq⟩
          have hstaying := h.staying hterminate _ (List.mem_of_getElem? hw)
          rw [leaving_waiting] at hstaying
          exact Bool.not_eq_true _ ▸ hstaying
      | done => exact h.emptied hterminate hreturned
  | finished i job draining hw =>
      exact h.emptied hterminate (returned_mem_of_set hreturned (by simp))

/-! ## Runs -/

theorem Moves.settled {s s' : Shared J} {action : Action J} {now : List (Output J)}
    (hmoves : Moves s action s' now) (h : Settled s.pool) : Settled s'.pool := by
  cases hmoves with
  | submitted | closedQ | terminated => exact h
  | handedOff i job draining hopen hw hq => exact h.set hw (by simp)
  | worked event pool hsteps => exact hsteps.settled h
  | finished i job draining hw => exact h.set hw (by simp)

theorem Moves.length_workers {s s' : Shared J} {action : Action J}
    {now : List (Output J)} (hmoves : Moves s action s' now) :
    s'.pool.workers.length = s.pool.workers.length := by
  cases hmoves with
  | worked event pool hsteps => exact hsteps.length_workers
  | _ => simp [setWorker]

structure Consistent (n : Nat) (s : Shared J) (out : List (Output J)) : Prop where
  accounted : Accounted s out
  gate : Open s
  settled : Settled s.pool
  length_workers : s.pool.workers.length = n

theorem consistent_start (n qCapacity : Nat) :
    Consistent n (start n qCapacity : Shared J) [] := by
  refine ⟨accounted_start n qCapacity, ⟨?_, ?_⟩, settled_new n qCapacity, by simp [start, new]⟩
  · intro _ w hw
    rw [List.eq_of_mem_replicate hw]
    exact id
  · intro _ hw
    cases List.eq_of_mem_replicate hw

theorem Moves.consistent {n : Nat} {s s' : Shared J} {action : Action J}
    {out now : List (Output J)} (hmoves : Moves s action s' now)
    (h : Consistent n s out) : Consistent n s' (out ++ now) :=
  ⟨hmoves.accounted h.accounted, ⟨hmoves.staying h.gate, hmoves.emptied h.gate⟩,
    hmoves.settled h.settled, hmoves.length_workers.trans h.length_workers⟩

theorem run_consistent {n qCapacity : Nat} {actions : List (Action J)} {s : Shared J}
    {out : List (Output J)} (hrun : run act (start n qCapacity) actions = .ok (s, out)) :
    Consistent n s out := by
  refine run_keeps (Consistent n) (consistent_start n qCapacity) ?_ hrun
  intro s now action s' now' hinv hstep
  exact (moves_of_act_eq_ok hstep).consistent hinv

/-- The functions `jobs` were received before the first worker returned. -/
structure Seen (n : Nat) (jobs : List J) (s : Shared J) (out : List (Output J)) : Prop where
  consistent : Consistent n s out
  submitted : jobs <+: submittedJobs out
  received : .returned ∈ s.pool.workers → jobs <+: receivedJobs out

theorem Moves.seen {n : Nat} {jobs : List J} {s s' : Shared J} {action : Action J}
    {out now : List (Output J)} (hmoves : Moves s action s' now)
    (h : Seen n jobs s out) : Seen n jobs s' (out ++ now) := by
  refine ⟨hmoves.consistent h.consistent, ?_, ?_⟩
  · rw [submittedJobs_append]
    exact h.submitted.trans (List.prefix_append _ _)
  · intro hreturned
    rw [receivedJobs_append]
    refine List.IsPrefix.trans ?_ (List.prefix_append _ _)
    rcases hmoves.returned_mem hreturned with hmem | hempty
    · exact h.received hmem
    · have hqueued := h.consistent.accounted.queued
      rw [hempty, List.append_nil] at hqueued
      rw [← hqueued]
      exact h.submitted

/-- What was submitted before the pool was told to terminate has been executed. -/
theorem executed_of_done {n qCapacity : Nat} (hn : 1 ≤ n)
    {before after : List (Action J)} {s₁ s : Shared J} {out₁ out : List (Output J)}
    (hbefore : run act (start n qCapacity) before = .ok (s₁, out₁))
    (hrun : run act (start n qCapacity) (before ++ after) = .ok (s, out))
    (hopen : s₁.terminateCh = false) (hdone : s.pool.doneCh = true) :
    (submittedJobs out₁).Subperm (executedJobs out) := by
  have hconsistent := run_consistent hbefore
  obtain ⟨middle, now, later, hfirst, hsecond, rfl⟩ := run_append_eq_ok.mp hrun
  rw [hbefore] at hfirst
  cases hfirst
  have hseen : Seen n (submittedJobs out₁) s₁ out₁ := by
    refine ⟨hconsistent, List.prefix_rfl, ?_⟩
    intro hreturned
    have hqueued := hconsistent.accounted.queued
    rw [(hconsistent.gate.emptied hopen hreturned).2, List.append_nil] at hqueued
    exact hqueued ▸ List.prefix_rfl
  have hend : Seen n (submittedJobs out₁) s (out₁ ++ later) := by
    refine run_keeps (Seen n (submittedJobs out₁)) hseen ?_ hsecond
    intro s now action s' now' hinv hstep
    exact (moves_of_act_eq_ok hstep).seen hinv
  have hall := hend.consistent.settled hdone
  have hreturned : .returned ∈ s.pool.workers := by
    obtain ⟨w, hw⟩ := List.exists_mem_of_length_pos
      (show 0 < s.pool.workers.length by rw [hend.consistent.length_workers]; exact hn)
    exact hall w hw ▸ hw
  have honce := hend.consistent.accounted.once
  rw [hend.consistent.settled.running_eq_nil hdone, List.append_nil] at honce
  exact (hend.received hreturned).sublist.subperm.trans honce.subperm

/--
Each function that was received is executed once or being executed.  When the
pool is done, everything that was in the queue or received when the pool was told
to terminate has been executed; and if the queue was closed instead, everything
that was submitted before.
-/
theorem pool_drains (n qCapacity : Nat) (hn : 1 ≤ n) (actions : List (Action J))
    (s : Shared J) (out : List (Output J))
    (hrun : run act (start n qCapacity) actions = .ok (s, out)) :
    (receivedJobs out).Perm (executedJobs out ++ s.pool.running) ∧
    (∀ before after s₁ out₁, actions = before ++ .closeTerminateCh :: after →
      run act (start n qCapacity) before = .ok (s₁, out₁) → s.pool.doneCh = true →
      (receivedJobs out₁ ++ s₁.pool.q).Subperm (executedJobs out)) ∧
    (∀ before after s₁ out₁, actions = before ++ .closeQ :: after →
      run act (start n qCapacity) before = .ok (s₁, out₁) → s₁.terminateCh = false →
      s.pool.doneCh = true → (submittedJobs out₁).Subperm (executedJobs out)) := by
  refine ⟨(run_consistent hrun).accounted.once, ?_, ?_⟩
  · rintro before after s₁ out₁ rfl hbefore hdone
    rw [← (run_consistent hbefore).accounted.queued]
    refine executed_of_done hn hbefore hrun ?_ hdone
    -- closing it a second time would have stopped the run
    obtain ⟨middle, now, later, hfirst, hsecond, -⟩ := run_append_eq_ok.mp hrun
    rw [hbefore] at hfirst
    cases hfirst
    obtain ⟨next, here, rest, hclose, -⟩ := run_cons_eq_ok.mp hsecond
    cases hterminate : s₁.terminateCh with
    | false => rfl
    | true => simp [act, hterminate] at hclose
  · rintro before after s₁ out₁ rfl hbefore hopen hdone
    exact executed_of_done hn hbefore hrun hopen hdone

/-- Two workers; one drains the second function while the first one is run. -/
def exampleDraining : List (Action Nat) :=
  [.submit 7, .submit 8, .work (.receive 0), .closeTerminateCh, .work (.terminate 1),
    .work (.receive 1), .finish 1, .work (.return 1), .finish 0, .work (.terminate 0),
    .work (.return 0), .work .done]

theorem pool_drains_two_workers :
    ∃ s out, run act (start 2 2) exampleDraining = .ok (s, out) ∧
      s.pool.doneCh = true ∧
      (receivedJobs out).Perm (executedJobs out ++ s.pool.running) ∧
      [7, 8].Subperm (executedJobs out) := by
  refine ⟨_, _, rfl, rfl, ?_, ?_⟩
  · exact (pool_drains 2 2 (by decide) exampleDraining _ _ rfl).1
  · exact (pool_drains 2 2 (by decide) exampleDraining _ _ rfl).2.1
      [.submit 7, .submit 8, .work (.receive 0)] _ _ _ rfl rfl rfl

end Udplb.Util.WorkerPool
