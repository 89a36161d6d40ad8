import Mathlib.Data.List.Perm.Basic
import Udplb.Foundation.Result

/-!
# The worker pool

Workers take functions from a queue.  A worker that sees the termination signal
drains the queue and returns when it finds it empty; the pool is done when all
of them have returned.  What a function does is up to the pool's user: here a
worker runs a job until it is told that the job has returned.
-/

namespace Udplb.Util

open Udplb.Foundation

universe u v

/-- Where a worker is; the flag says that it runs the job while draining. -/
inductive Worker (J : Type u) where
  | selecting
  | draining
  | running (job : J) (draining : Bool)
  | returned
  deriving DecidableEq, Repr

structure WorkerPool (J : Type u) where
  q : List J
  qCapacity : Nat
  qClosed : Bool
  workers : List (Worker J)
  doneCh : Bool
  deriving DecidableEq, Repr

variable {J : Type u}

/-- The select in which a worker waits for its next function. -/
def Worker.waiting (draining : Bool) : Worker J :=
  if draining then .draining else .selecting

def Worker.job? : Worker J → Option J
  | .running job _ => some job
  | .selecting | .draining | .returned => none

namespace WorkerPool

def new (n qCapacity : Nat) : WorkerPool J :=
  ⟨[], qCapacity, false, List.replicate n .selecting, false⟩

inductive Stop where
  | blocked
  | sendOnClosedChannel
  deriving DecidableEq, Repr

inductive Event where
  | receive (i : Nat)
  | terminate (i : Nat)
  | return (i : Nat)
  | done
  deriving DecidableEq, Repr

def setWorker (p : WorkerPool J) (i : Nat) (w : Worker J) : WorkerPool J :=
  { p with workers := p.workers.set i w }

@[simp] theorem workers_setWorker (p : WorkerPool J) (i : Nat) (w : Worker J) :
    (p.setWorker i w).workers = p.workers.set i w := rfl

/-- A send of the pool's user on the queue. -/
def submit (p : WorkerPool J) (job : J) : Except Stop (WorkerPool J) :=
  if p.qClosed then .error .sendOnClosedChannel
  else if p.q.length < p.qCapacity then .ok { p with q := p.q ++ [job] }
  else .error .blocked

/-- A step of worker `i`, or of the goroutine that waits for all of them. -/
def step (terminateCh : Bool) (p : WorkerPool J) : Event → Except Stop (WorkerPool J)
  | .receive i =>
      match p.workers[i]?, p.q with
      | some .selecting, job :: rest =>
          .ok ({ p with q := rest }.setWorker i (.running job false))
      | some .draining, job :: rest =>
          .ok ({ p with q := rest }.setWorker i (.running job true))
      | _, _ => .error .blocked
  | .terminate i =>
      match p.workers[i]?, terminateCh with
      | some .selecting, true => .ok (p.setWorker i .draining)
      | _, _ => .error .blocked
  | .return i =>
      match p.workers[i]?, p.q, p.qClosed with
      | some .selecting, [], true => .ok (p.setWorker i .returned)
      | some .draining, [], _ => .ok (p.setWorker i .returned)
      | _, _, _ => .error .blocked
  | .done =>
      if p.doneCh = false ∧ p.workers.all (· matches .returned) then
        .ok { p with doneCh := true }
      else .error .blocked

/-- The function that worker `i` runs has returned. -/
def finish (p : WorkerPool J) (i : Nat) : Except Stop (WorkerPool J) :=
  match p.workers[i]? with
  | some (.running _ draining) => .ok (p.setWorker i (.waiting draining))
  | _ => .error .blocked

/-- The jobs that are being run. -/
def running (p : WorkerPool J) : List J := p.workers.filterMap Worker.job?

/-! ## What a step does -/

inductive Steps (p : WorkerPool J) : Event → WorkerPool J → Prop
  | received (i : Nat) (draining : Bool) (job : J) (rest : List J)
      (hw : p.workers[i]? = some (.waiting draining)) (hq : p.q = job :: rest) :
      Steps p (.receive i) ({ p with q := rest }.setWorker i (.running job draining))
  | terminating (i : Nat) (hw : p.workers[i]? = some .selecting) :
      Steps p (.terminate i) (p.setWorker i .draining)
  | returned (i : Nat) (draining : Bool)
      (hw : p.workers[i]? = some (.waiting draining)) (hq : p.q = [])
      (hwhy : draining = false → p.qClosed = true) :
      Steps p (.return i) (p.setWorker i .returned)
  | done (h : ∀ w ∈ p.workers, w = .returned) : Steps p .done { p with doneCh := true }

theorem steps_of_step_eq_ok {terminateCh : Bool} {p next : WorkerPool J} {event : Event}
    (h : step terminateCh p event = .ok next) : Steps p event next := by
  cases event with
  | receive i =>
      simp only [step] at h
      split at h
      · rename_i hw hq
        cases h
        exact .received i false _ _ hw hq
      · rename_i hw hq
        cases h
        exact .received i true _ _ hw hq
      · cases h
  | terminate i =>
      simp only [step] at h
      split at h <;> cases h
      exact .terminating i (by assumption)
  | «return» i =>
      simp only [step] at h
      split at h
      · rename_i hw hq hclosed
        cases h
        exact .returned i false hw hq fun _ => hclosed
      · rename_i hw hq
        cases h
        exact .returned i true hw hq nofun
      · cases h
  | done =>
      simp only [step] at h
      split at h
      · rename_i hall
        cases h
        refine .done ?_
        intro w hw
        have hreturned := List.all_eq_true.mp hall.2 w hw
        cases w <;> first | rfl | cases hreturned
      · cases h

theorem terminateCh_of_step {terminateCh : Bool} {p next : WorkerPool J} {i : Nat}
    (h : step terminateCh p (.terminate i) = .ok next) : terminateCh = true := by
  simp only [step] at h
  split at h
  · rfl
  · cases h

theorem finish_eq_ok {p next : WorkerPool J} {i : Nat} (h : p.finish i = .ok next) :
    ∃ job draining, p.workers[i]? = some (.running job draining) ∧
      next = p.setWorker i (.waiting draining) := by
  unfold finish at h
  split at h <;> cases h
  exact ⟨_, _, by assumption, rfl⟩

theorem submit_eq_ok {p next : WorkerPool J} {job : J} (h : p.submit job = .ok next) :
    next = { p with q := p.q ++ [job] } := by
  unfold submit at h
  split at h
  · cases h
  · split at h <;> cases h
    rfl

/-! ## The jobs of a pool -/

/-- What `f` finds in a list changes at one place when one element does. -/
theorem exists_filterMap_set {α : Type u} {β : Type v} (f : α → Option β) {xs : List α}
    {i : Nat} {x : α} (h : xs[i]? = some x) :
    ∃ before after, xs.filterMap f = before ++ (f x).toList ++ after ∧
      ∀ y, (xs.set i y).filterMap f = before ++ (f y).toList ++ after := by
  have hcons : ∀ y ys, (y :: ys).filterMap f = (f y).toList ++ ys.filterMap f := by
    intro y ys
    cases hf : f y <;> simp [hf]
  induction xs generalizing i with
  | nil => simp at h
  | cons head tail ih =>
      cases i with
      | zero =>
          cases h
          exact ⟨[], tail.filterMap f, hcons x tail, fun y => hcons y tail⟩
      | succ i =>
          obtain ⟨before, after, htail, hset⟩ := ih h
          refine ⟨(f head).toList ++ before, after, ?_, fun y => ?_⟩
          · rw [hcons, htail]
            simp
          · rw [List.set_cons_succ, hcons, hset]
            simp

@[simp] theorem job?_waiting (draining : Bool) :
    (Worker.waiting draining : Worker J).job? = none := by
  cases draining <;> rfl

theorem running_setWorker {p : WorkerPool J} {i : Nat} {w : Worker J}
    (hw : p.workers[i]? = some w) {w' : Worker J} (hjob : w'.job? = w.job?) :
    (p.setWorker i w').running = p.running := by
  obtain ⟨before, after, hworkers, hset⟩ := exists_filterMap_set Worker.job? hw
  rw [running, running, setWorker, hset, hworkers, hjob]

/-- Only a worker that takes a job changes what is queued and what is run. -/
theorem Steps.running_eq {p next : WorkerPool J} {event : Event}
    (hsteps : Steps p event next) (hevent : ∀ i, event ≠ .receive i) :
    next.running = p.running ∧ next.q = p.q := by
  cases hsteps with
  | received i => exact absurd rfl (hevent i)
  | terminating i hw => exact ⟨running_setWorker hw rfl, rfl⟩
  | returned i draining hw => exact ⟨running_setWorker hw (job?_waiting draining).symm, rfl⟩
  | done => exact ⟨rfl, rfl⟩

theorem Steps.length_workers {p next : WorkerPool J} {event : Event}
    (hsteps : Steps p event next) : next.workers.length = p.workers.length := by
  cases hsteps <;> simp [setWorker]

/-- The only worker of a pool. -/
theorem workers_eq_singleton {p : WorkerPool J} {i : Nat} {w : Worker J}
    (hlength : p.workers.length = 1) (hw : p.workers[i]? = some w) :
    i = 0 ∧ p.workers = [w] := by
  obtain ⟨w', hworkers⟩ := List.length_eq_one_iff.mp hlength
  rw [hworkers] at hw ⊢
  cases i with
  | zero => simpa using hw
  | succ i => simp at hw

/-- The only worker runs the job it takes, and no other. -/
theorem running_took {p : WorkerPool J} {i : Nat} {draining : Bool}
    (hlength : p.workers.length = 1) (hw : p.workers[i]? = some (.waiting draining))
    (q : List J) (job : J) :
    p.running = [] ∧
      ({ p with q := q }.setWorker i (.running job draining)).running = [job] := by
  obtain ⟨rfl, hworkers⟩ := workers_eq_singleton hlength hw
  simp only [running, workers_setWorker, hworkers]
  exact ⟨List.filterMap_cons_none (job?_waiting draining), rfl⟩

theorem running_eq_singleton {p : WorkerPool J} {job : J}
    (hlength : p.workers.length = 1) (hhead : p.running.head? = some job) :
    p.running = [job] := by
  obtain ⟨w, hworkers⟩ := List.length_eq_one_iff.mp hlength
  rw [running, hworkers] at hhead ⊢
  cases hjob : w.job? with
  | none => simp [hjob] at hhead
  | some job => simpa [hjob] using hhead

theorem running_finish {p next : WorkerPool J} {i : Nat}
    (hlength : p.workers.length = 1) (hfinish : p.finish i = .ok next) :
    next.running = [] ∧ next.q = p.q ∧ next.workers.length = 1 := by
  obtain ⟨job, draining, hw, rfl⟩ := finish_eq_ok hfinish
  obtain ⟨rfl, hworkers⟩ := workers_eq_singleton hlength hw
  refine ⟨?_, rfl, by simpa using hlength⟩
  rw [running, workers_setWorker, hworkers]
  exact List.filterMap_cons_none (job?_waiting draining)

/-! ## A pool that is done -/

/-- When the pool is done, every worker has returned. -/
def Settled (p : WorkerPool J) : Prop :=
  p.doneCh = true → ∀ w ∈ p.workers, w = .returned

theorem settled_new (n qCapacity : Nat) : Settled (new n qCapacity : WorkerPool J) := by
  intro h
  cases h

/-- A worker that has not returned: the pool is not done. -/
theorem Settled.set {p : WorkerPool J} {i : Nat} {w w' : Worker J} (h : Settled p)
    (hw : p.workers[i]? = some w) (hne : w ≠ .returned) :
    Settled (p.setWorker i w') := by
  intro hdone
  exact absurd (h hdone w (List.mem_of_getElem? hw)) hne

@[simp] theorem waiting_ne_returned (draining : Bool) :
    (Worker.waiting draining : Worker J) ≠ .returned := by
  cases draining <;> simp [Worker.waiting]

theorem Settled.running_eq_nil {p : WorkerPool J} (h : Settled p)
    (hdone : p.doneCh = true) : p.running = [] := by
  rw [running, List.filterMap_eq_nil_iff]
  intro w hw
  rw [h hdone w hw]
  rfl

theorem Steps.settled {p next : WorkerPool J} {event : Event}
    (hsteps : Steps p event next) (h : Settled p) : Settled next := by
  cases hsteps with
  | received i draining job rest hw hq =>
      exact Settled.set (p := { p with q := rest }) h hw (by simp)
  | terminating i hw => exact h.set hw (by simp)
  | returned i draining hw hq => exact h.set hw (by simp)
  | done hall => exact fun _ => hall

theorem Steps.doneCh_eq {p next : WorkerPool J} {event : Event}
    (hsteps : Steps p event next) (hdone : p.doneCh = true) : next.doneCh = true := by
  cases hsteps with
  | received | terminating | returned => exact hdone
  | done => rfl

theorem Settled.finish {p next : WorkerPool J} {i : Nat} (h : Settled p)
    (hfinish : p.finish i = .ok next) : Settled next ∧ next.doneCh = p.doneCh := by
  obtain ⟨job, draining, hw, rfl⟩ := finish_eq_ok hfinish
  exact ⟨h.set hw (by simp), rfl⟩

end WorkerPool

end Udplb.Util
