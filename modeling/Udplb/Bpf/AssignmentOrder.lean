import Udplb.Bpf.EventLoop
import Udplb.Controller.Affinity

/-!
# Assignments on their way to the controller

The records are queued in the order in which the loop read them, but three
workers dispatch them, and a worker that took a later record can be faster.  The
order of two records matters when they name different backends for one session,
so the controller ends with the last record of each session as long as no worker
takes a record while another one still holds a different record of its session.
-/

namespace Udplb

open Udplb.Foundation Udplb.Util

/-- The records of one session, in order. -/
def recordsOf (session : UUID) (records : List Assignment) : List Assignment :=
  records.filter fun a => a.sessionId = session

@[simp] theorem recordsOf_append (session : UUID) (first second : List Assignment) :
    recordsOf session (first ++ second) =
      recordsOf session first ++ recordsOf session second :=
  List.filter_append _ _

/-- A record can move past records that are equal to it or of another session. -/
theorem recordsOf_move {a : Assignment} {records : List Assignment}
    (h : ∀ b ∈ records, b.sessionId = a.sessionId → b = a) (session : UUID)
    (before after : List Assignment) :
    recordsOf session (before ++ [a] ++ records ++ after) =
      recordsOf session (before ++ records ++ [a] ++ after) := by
  have hcomm : recordsOf session [a] ++ recordsOf session records =
      recordsOf session records ++ recordsOf session [a] := by
    by_cases ha : a.sessionId = session
    · have hall : ∀ b ∈ recordsOf session records, b = a := by
        intro b hb
        obtain ⟨hmem, hsession⟩ := List.mem_filter.mp hb
        exact h b hmem ((of_decide_eq_true hsession).trans ha.symm)
      have hone : recordsOf session [a] = [a] := by simp [recordsOf, ha]
      rw [List.eq_replicate_of_mem hall, hone, List.singleton_append,
        ← List.replicate_succ, List.replicate_succ']
    · have hnone : recordsOf session [a] = [] := by simp [recordsOf, ha]
      rw [hnone, List.nil_append, List.append_nil]
  simp only [recordsOf_append]
  rw [List.append_assoc (recordsOf session before), hcomm, ← List.append_assoc]

namespace Controller

/-- The assignment loop: the last record of a session decides. -/
theorem lookup_foldl_handleAssignment {c : Controller} {records : List Assignment}
    {session : UUID} {a : Assignment}
    (hlast : (recordsOf session records).getLast? = some a)
    (hid : a.backendId ∈ c.backends.map (·.id)) :
    (records.foldl handleAssignment c).sessionMap.lookup session =
      some (position a.backendId c.backends) := by
  have hbackends : ∀ records : List Assignment,
      (records.foldl handleAssignment c).backends = c.backends := by
    intro records
    induction records using List.reverseRecOn with
    | nil => rfl
    | append_singleton records r ih => simp [ih]
  induction records using List.reverseRecOn with
  | nil => simp [recordsOf] at hlast
  | append_singleton records r ih =>
      rw [List.foldl_append, List.foldl_cons, List.foldl_nil]
      by_cases hr : r.sessionId = session
      · have hra : r = a := by simpa [recordsOf, hr] using hlast
        subst hra
        rw [handleAssignment, hbackends, findIdx?_position hid, ← hr]
        exact AList.lookup_insert _
      · rw [lookup_handleAssignment_ne hr]
        apply ih
        simpa [recordsOf, hr] using hlast

end Controller

namespace Bpf.DSManager

variable {objs : Nat → Objects} {mgr next : DSManager} {event : Event}
  {out now : List Output}

def Output.read? : Output → Option Assignment
  | .read a => some a
  | .issued _ | .received _ | .began _ | .ended _ _ | .returned _ _ => none

/-- The records in the order in which the loop read them. -/
def readRecords (out : List Output) : List Assignment := out.filterMap Output.read?

@[simp] theorem readRecords_append :
    readRecords (out ++ now) = readRecords out ++ readRecords now :=
  List.filterMap_append

/-- The record that a worker still has to dispatch. -/
def undelivered? : Worker Dispatch → Option Assignment
  | .running ⟨a, false⟩ _ => some a
  | .running ⟨_, true⟩ _ | .selecting | .draining | .returned => none

def inFlight (mgr : DSManager) : List Assignment :=
  mgr.watch.pool.workers.filterMap undelivered?

/-- The records that no worker has taken. -/
def queuedRecords (mgr : DSManager) : List Assignment :=
  mgr.watch.pool.q.map (·.record) ++ mgr.loop.record?.toList

def channel (mgr : DSManager) : List Assignment := mgr.watch.ch.getD []

/-- Every record that was read has been handled by the controller. -/
def Delivered (mgr : DSManager) : Prop :=
  mgr.queuedRecords = [] ∧ mgr.inFlight = [] ∧ mgr.channel = []

/-- A record is taken while no other worker has a different one of its session. -/
def TakenInOrder (mgr : DSManager) (_ : List Output) : Event → Prop
  | .watch (.worker (.receive _)) =>
      ∀ d ∈ mgr.watch.pool.q.head?, ∀ a ∈ mgr.inFlight,
        a.sessionId = d.record.sessionId → a = d.record
  | _ => True

instance (mgr : DSManager) (out : List Output) :
    (event : Event) → Decidable (TakenInOrder mgr out event)
  | .watch (.worker (.receive _)) =>
      inferInstanceAs (Decidable (∀ d ∈ mgr.watch.pool.q.head?, ∀ a ∈ mgr.inFlight,
        a.sessionId = d.record.sessionId → a = d.record))
  | .watch (.worker (.terminate _)) | .watch (.worker (.return _))
  | .watch (.worker .done) | .watch .watch | .watch (.deliver _) | .watch (.drop _)
  | .watch (.return _) | .watch .consume | .call _ | .close _ | .loop _
  | .handler _ => .isTrue trivial

/-! ## The steps as the records see them -/

structure Kept (mgr next : DSManager) (now : List Output) : Prop where
  workers : next.watch.pool.workers = mgr.watch.pool.workers
  q : next.watch.pool.q = mgr.watch.pool.q
  ch : next.watch.ch = mgr.watch.ch
  controller : next.watch.controller = mgr.watch.controller
  record : next.loop.record? = mgr.loop.record?
  silent : readRecords now = []

inductive Moves (mgr : DSManager) : Event → DSManager → List Output → Prop
  | read (a : Assignment) (hloop : mgr.loop = .selecting) :
      Moves mgr (.loop (.read a)) { mgr with loop := .queueingRecord a } [.read a]
  | queued (a : Assignment) (hloop : mgr.loop = .queueingRecord a) :
      Moves mgr (.loop .queue)
        { mgr with
          loop := .top
          watch := { mgr.watch with
            pool := { mgr.watch.pool with
              q := mgr.watch.pool.q ++ [⟨a, false⟩] } } } []
  | took (i : Nat) (draining : Bool) (d : Dispatch) (rest : List Dispatch)
      (hworker : mgr.watch.pool.workers[i]? = some (.waiting draining))
      (hq : mgr.watch.pool.q = d :: rest) :
      Moves mgr (.watch (.worker (.receive i)))
        { mgr with watch := { mgr.watch with
            pool := { mgr.watch.pool with q := rest }.setWorker i
              (.running d draining) } } []
  | worked (event : WorkerPool.Event) (pool : WorkerPool Dispatch)
      (hsteps : WorkerPool.Steps mgr.watch.pool event pool)
      (hevent : ∀ i, event ≠ .receive i) :
      Moves mgr (.watch (.worker event))
        { mgr with watch := { mgr.watch with pool := pool } } []
  | watching (hch : mgr.watch.ch = none) :
      Moves mgr (.watch .watch) { mgr with watch := { mgr.watch with ch := some [] } } []
  | delivered (i : Nat) (a : Assignment) (draining : Bool) (ch : List Assignment)
      (hworker : mgr.watch.pool.workers[i]? = some (.running ⟨a, false⟩ draining))
      (hch : mgr.watch.ch = some ch) :
      Moves mgr (.watch (.deliver i))
        { mgr with watch := { mgr.watch with
            pool := mgr.watch.pool.setWorker i (.running ⟨a, true⟩ draining)
            ch := some (ch ++ [a]) } } []
  | dropped (i : Nat) (a : Assignment) (draining : Bool)
      (hworker : mgr.watch.pool.workers[i]? = some (.running ⟨a, false⟩ draining)) :
      Moves mgr (.watch (.drop i))
        { mgr with watch := { mgr.watch with
            pool := mgr.watch.pool.setWorker i (.running ⟨a, true⟩ draining) } } []
  | returned (i : Nat) (a : Assignment) (draining : Bool)
      (hworker : mgr.watch.pool.workers[i]? = some (.running ⟨a, true⟩ draining)) :
      Moves mgr (.watch (.return i))
        { mgr with watch := { mgr.watch with
            pool := mgr.watch.pool.setWorker i (.waiting draining) } } []
  | consumed (a : Assignment) (ch : List Assignment)
      (hch : mgr.watch.ch = some (a :: ch)) :
      Moves mgr (.watch .consume)
        { mgr with watch := { mgr.watch with
            ch := some ch
            controller := mgr.watch.controller.handleAssignment a } } []
  | kept (event : Event) (next : DSManager) (now : List Output)
      (hkept : Kept mgr next now) : Moves mgr event next now

theorem moves_of_watchStep {event : WatchEvent} {watch : Watch}
    (h : watchStep mgr.terminateCh mgr.watch event = .ok watch) :
    Moves mgr (.watch event) { mgr with watch := watch } [] := by
  cases event with
  | worker event =>
      simp only [watchStep, bind_eq_ok, mapError_eq_ok] at h
      obtain ⟨pool, hpool, h⟩ := h
      cases h
      cases WorkerPool.steps_of_step_eq_ok hpool with
      | received i draining d rest hw hq => exact .took i draining d rest hw hq
      | terminating | returned | done =>
          exact .worked _ _ (WorkerPool.steps_of_step_eq_ok hpool) (by simp)
  | watch =>
      simp only [watchStep] at h
      split at h <;> cases h
      exact .watching ‹_›
  | deliver i =>
      simp only [watchStep] at h
      split at h
      · split at h <;> cases h
        exact .delivered i _ _ _ ‹_› ‹_›
      · cases h
  | drop i =>
      simp only [watchStep] at h
      split at h <;> cases h
      exact .dropped i _ _ ‹_›
  | «return» i =>
      simp only [watchStep] at h
      split at h
      · rename_i hworker
        simp only [bind_eq_ok, mapError_eq_ok] at h
        obtain ⟨pool, hpool, h⟩ := h
        cases h
        obtain ⟨job, draining, hw, rfl⟩ := WorkerPool.finish_eq_ok hpool
        rw [hworker] at hw
        cases hw
        exact .returned i _ _ hworker
      · cases h
  | consume =>
      simp only [watchStep] at h
      split at h <;> cases h
      exact .consumed _ _ ‹_›

theorem moves_of_loopStep {event : LoopEvent}
    (h : mgr.loopStep event = .ok (next, now)) : Moves mgr (.loop event) next now := by
  cases event with
  | read a =>
      simp only [loopStep] at h
      split at h <;> cases h
      exact .read a ‹_›
  | queue =>
      simp only [loopStep] at h
      split at h
      · rename_i hloop
        simp only [bind_eq_ok] at h
        obtain ⟨events, -, h⟩ := h
        cases h
        exact .kept _ _ _ ⟨rfl, rfl, rfl, rfl, by rw [hloop]; rfl, rfl⟩
      · simp only [bind_eq_ok, mapError_eq_ok] at h
        obtain ⟨pool, hsubmit, h⟩ := h
        cases h
        rw [WorkerPool.submit_eq_ok hsubmit]
        exact .queued _ ‹_›
      · cases h
  | check =>
      simp only [loopStep] at h
      split at h <;> cases h
      have hloop := ‹mgr.loop = _›
      refine .kept _ _ _ ⟨rfl, rfl, rfl, rfl, ?_, rfl⟩
      rw [hloop]
      split <;> rfl
  | receive | eventChClosed | assignmentChClosed | terminated | eventsDone | watchDone
  | closeMux | closeDone | «return» =>
      simp only [loopStep] at h
      split at h <;> cases h
      have hloop := ‹mgr.loop = _›
      exact .kept _ _ _ ⟨rfl, rfl, rfl, rfl, by rw [hloop]; rfl, rfl⟩

theorem moves_of_step_eq_ok (h : step objs mgr event = .ok (next, now)) :
    Moves mgr event next now := by
  cases event with
  | loop event => exact moves_of_loopStep h
  | watch event =>
      simp only [step, bind_eq_ok] at h
      obtain ⟨watch, hwatch, h⟩ := h
      cases h
      exact moves_of_watchStep hwatch
  | call event | close event | handler event =>
      cases steps_of_step_eq_ok h <;> exact .kept _ _ _ ⟨rfl, rfl, rfl, rfl, rfl, rfl⟩

/-! ## Nothing is lost, and each session keeps its order -/

/-- The records read are those consumed so far and those at each stage. -/
structure Flow (c : Controller) (mgr : DSManager) (out : List Output)
    (consumed : List Assignment) : Prop where
  controller_eq : mgr.watch.controller = consumed.foldl Controller.handleAssignment c
  fresh : ∀ d ∈ mgr.watch.pool.q, d.dispatched = false
  alike : ∀ a ∈ mgr.inFlight, ∀ b ∈ mgr.inFlight, a.sessionId = b.sessionId → a = b
  records : ∀ session, recordsOf session (readRecords out) =
    recordsOf session (consumed ++ mgr.channel ++ mgr.inFlight ++ mgr.queuedRecords)

variable {c : Controller} {consumed : List Assignment}

/-- What enters and is there is what is there then and what has been consumed. -/
theorem Flow.advance (h : Flow c mgr out consumed) (more : List Assignment)
    (hcontroller : next.watch.controller =
      more.foldl Controller.handleAssignment mgr.watch.controller)
    (hfresh : ∀ d ∈ next.watch.pool.q, d.dispatched = false)
    (halike : ∀ a ∈ next.inFlight, ∀ b ∈ next.inFlight,
      a.sessionId = b.sessionId → a = b)
    (hrecords : ∀ session,
      recordsOf session
          (mgr.channel ++ mgr.inFlight ++ mgr.queuedRecords ++ readRecords now) =
        recordsOf session
          (more ++ next.channel ++ next.inFlight ++ next.queuedRecords)) :
    ∃ consumed', Flow c next (out ++ now) consumed' := by
  refine ⟨consumed ++ more, ?_, hfresh, halike, fun session => ?_⟩
  · rw [hcontroller, h.controller_eq, List.foldl_append]
  · calc
      recordsOf session (readRecords (out ++ now)) = recordsOf session consumed ++
          recordsOf session
            (mgr.channel ++ mgr.inFlight ++ mgr.queuedRecords ++ readRecords now) := by
        rw [readRecords_append, recordsOf_append, h.records session]
        simp only [recordsOf_append, List.append_assoc]
      _ = recordsOf session
          (consumed ++ more ++ next.channel ++ next.inFlight ++ next.queuedRecords) := by
        rw [hrecords session]
        simp only [recordsOf_append, List.append_assoc]

/-- A step that leaves what the workers hold as it is. -/
theorem Flow.congr (h : Flow c mgr out consumed) (more : List Assignment)
    (hcontroller : next.watch.controller =
      more.foldl Controller.handleAssignment mgr.watch.controller)
    (hfresh : ∀ d ∈ next.watch.pool.q, d.dispatched = false)
    (hinFlight : next.inFlight = mgr.inFlight)
    (hchannel : mgr.channel = more ++ next.channel)
    (hqueued : mgr.queuedRecords ++ readRecords now = next.queuedRecords) :
    ∃ consumed', Flow c next (out ++ now) consumed' := by
  refine h.advance more hcontroller hfresh ?_ fun session => ?_
  · rw [hinFlight]
    exact h.alike
  · rw [List.append_assoc, hqueued, hchannel, hinFlight]

@[simp] theorem undelivered?_waiting (draining : Bool) :
    undelivered? (.waiting draining) = none := by
  cases draining <;> rfl

theorem inFlight_set {i : Nat} {w w' : Worker Dispatch}
    (hworker : mgr.watch.pool.workers[i]? = some w)
    (hworkers : next.watch.pool.workers = mgr.watch.pool.workers.set i w') :
    ∃ before after, mgr.inFlight = before ++ (undelivered? w).toList ++ after ∧
      next.inFlight = before ++ (undelivered? w').toList ++ after := by
  obtain ⟨before, after, hbefore, hafter⟩ :=
    WorkerPool.exists_filterMap_set undelivered? hworker
  exact ⟨before, after, hbefore, by rw [inFlight, hworkers, hafter]⟩

theorem inFlight_same {i : Nat} {w w' : Worker Dispatch}
    (hworker : mgr.watch.pool.workers[i]? = some w)
    (hworkers : next.watch.pool.workers = mgr.watch.pool.workers.set i w')
    (hsame : undelivered? w' = undelivered? w) : next.inFlight = mgr.inFlight := by
  obtain ⟨before, after, hbefore, hafter⟩ := inFlight_set hworker hworkers
  rw [hafter, hbefore, hsame]

theorem inFlight_worked {event : WorkerPool.Event}
    (hsteps : WorkerPool.Steps mgr.watch.pool event next.watch.pool)
    (hevent : ∀ i, event ≠ .receive i) : next.inFlight = mgr.inFlight := by
  generalize hpool : next.watch.pool = pool at hsteps
  have hworkers := congrArg WorkerPool.workers hpool
  cases hsteps with
  | received i => exact absurd rfl (hevent i)
  | terminating i hw => exact inFlight_same hw hworkers rfl
  | returned i draining hw =>
      exact inFlight_same hw hworkers (undelivered?_waiting draining).symm
  | done => rw [inFlight, hworkers, inFlight]

/-- The record that is taken moves past those that other workers hold. -/
theorem Flow.took {i : Nat} {draining : Bool} {d : Dispatch} {rest : List Dispatch}
    (h : Flow c mgr out consumed)
    (hworker : mgr.watch.pool.workers[i]? = some (.waiting draining))
    (hq : mgr.watch.pool.q = d :: rest)
    (hcond : ∀ a ∈ mgr.inFlight, a.sessionId = d.record.sessionId → a = d.record)
    (hworkers : next.watch.pool.workers =
      mgr.watch.pool.workers.set i (.running d draining))
    (hnext : next.watch = { mgr.watch with pool := next.watch.pool })
    (hrest : next.watch.pool.q = rest) (hloop : next.loop = mgr.loop) :
    ∃ consumed', Flow c next (out ++ []) consumed' := by
  obtain ⟨before, after, hbefore, hafter⟩ := inFlight_set hworker hworkers
  have hd : undelivered? (.running d draining) = some d.record := by
    have hfresh := h.fresh d (by simp [hq])
    obtain ⟨a, dispatched⟩ := d
    cases hfresh
    rfl
  simp only [undelivered?_waiting, hd, Option.toList_none, Option.toList_some,
    List.append_nil] at hbefore hafter
  refine h.advance [] (by rw [hnext]; rfl) ?_ ?_ fun session => ?_
  · intro d' hd'
    apply h.fresh
    rw [hq]
    exact List.mem_cons_of_mem d (hrest ▸ hd')
  · have hmem : ∀ a ∈ next.inFlight, a ∈ mgr.inFlight ∨ a = d.record := by
      intro a ha
      rw [hafter] at ha
      rw [hbefore]
      grind
    intro a ha b hb hsession
    have halike := h.alike a
    grind
  · have hchannel : next.channel = mgr.channel := by rw [channel, hnext, channel]
    have hothers : ∀ b ∈ after, b.sessionId = d.record.sessionId → b = d.record := by
      intro b hb
      exact hcond b (by simp [hbefore, hb])
    have hmove := recordsOf_move hothers session (mgr.channel ++ before)
      (rest.map (·.record) ++ mgr.loop.record?.toList)
    simpa [queuedRecords, hq, hrest, hloop, hchannel, hbefore, hafter, readRecords]
      using hmove.symm

/-- The record that is delivered moves past those that other workers hold. -/
theorem Flow.delivered {i : Nat} {draining : Bool} {a : Assignment}
    {ch : List Assignment} (h : Flow c mgr out consumed)
    (hworker : mgr.watch.pool.workers[i]? = some (.running ⟨a, false⟩ draining))
    (hch : mgr.watch.ch = some ch)
    (hworkers : next.watch.pool.workers =
      mgr.watch.pool.workers.set i (.running ⟨a, true⟩ draining))
    (hq : next.watch.pool.q = mgr.watch.pool.q)
    (hnext : next.watch = { mgr.watch with
      pool := next.watch.pool, ch := some (ch ++ [a]) })
    (hloop : next.loop = mgr.loop) :
    ∃ consumed', Flow c next (out ++ []) consumed' := by
  obtain ⟨before, after, hbefore, hafter⟩ := inFlight_set hworker hworkers
  have hbefore : mgr.inFlight = before ++ [a] ++ after := hbefore
  have hafter : next.inFlight = before ++ after := by
    rw [hafter]
    exact congrArg (· ++ after) (List.append_nil before)
  refine h.advance [] (by rw [hnext]; rfl) (by rw [hq]; exact h.fresh) ?_
    fun session => ?_
  · have hsub : ∀ b ∈ next.inFlight, b ∈ mgr.inFlight := by
      intro b hb
      rw [hbefore]
      rw [hafter] at hb
      grind
    intro b hb b' hb'
    exact h.alike b (hsub b hb) b' (hsub b' hb')
  · have hchannel : next.channel = mgr.channel ++ [a] := by
      rw [channel, hnext, channel, hch]
      rfl
    have hothers : ∀ b ∈ before, b.sessionId = a.sessionId → b = a := by
      intro b hb
      exact h.alike b (by simp [hbefore, hb]) a (by simp [hbefore])
    have hmove := recordsOf_move hothers session mgr.channel
      (after ++ mgr.queuedRecords)
    simpa [queuedRecords, hq, hloop, hchannel, hbefore, hafter, readRecords]
      using hmove.symm

theorem Flow.moves (h : Flow c mgr out consumed) (hcond : TakenInOrder mgr out event)
    (hdrop : ∀ i, event ≠ .watch (.drop i)) (hmoves : Moves mgr event next now) :
    ∃ consumed', Flow c next (out ++ now) consumed' := by
  cases hmoves with
  | read a hloop =>
      refine h.congr [] rfl h.fresh rfl rfl ?_
      simp [queuedRecords, hloop, Loop.record?, readRecords, Output.read?]
  | queued a hloop =>
      refine h.congr [] rfl ?_ rfl rfl ?_
      · simpa [or_imp, forall_and] using h.fresh
      · simp [queuedRecords, hloop, Loop.record?, readRecords]
  | took i draining d rest hworker hq =>
      have hcond := hcond d (by rw [hq]; rfl)
      exact h.took hworker hq hcond rfl rfl rfl rfl
  | worked event pool hsteps hevent =>
      obtain ⟨-, hq⟩ := hsteps.running_eq hevent
      refine h.congr [] rfl ?_ (inFlight_worked hsteps hevent) rfl ?_
      · rw [hq]
        exact h.fresh
      · simp [queuedRecords, hq, readRecords]
  | watching hch =>
      refine h.congr [] rfl h.fresh rfl ?_ (List.append_nil _)
      simp [channel, hch]
  | delivered i a draining ch hworker hch =>
      exact h.delivered hworker hch rfl rfl rfl rfl
  | dropped i a draining hworker => exact absurd rfl (hdrop i)
  | returned i a draining hworker =>
      exact h.congr [] rfl h.fresh
        (inFlight_same hworker rfl (undelivered?_waiting draining)) rfl (List.append_nil _)
  | consumed a ch hch =>
      refine h.congr [a] rfl h.fresh rfl ?_ (List.append_nil _)
      simp [channel, hch]
  | kept event next now hkept =>
      refine h.congr [] hkept.controller ?_ ?_ ?_ ?_
      · rw [hkept.q]
        exact h.fresh
      · rw [inFlight, hkept.workers, inFlight]
      · rw [channel, channel, hkept.ch, List.nil_append]
      · rw [queuedRecords, queuedRecords, hkept.q, hkept.record, hkept.silent,
          List.append_nil]

theorem flow_start (kernel : Kernel) (c : Controller) :
    Flow c (start kernel c) [] [] := by
  refine ⟨rfl, by simp [start, WorkerPool.new], ?_, fun session => rfl⟩
  simp [inFlight, start, WorkerPool.new, watchWorkerPoolSize, undelivered?]

/--
If no dispatch drops its record and every record is taken in order, then once
all records have been delivered the controller maps each session to the backend
that the last record of the session names.
-/
theorem assignments_in_order (objs : Nat → Objects) (kernel : Kernel) (c : Controller)
    (events : List Event) (last : DSManager) (out : List Output)
    (hrun : run objs (start kernel c) events = .ok (last, out))
    (hdrop : ∀ i, .watch (.drop i) ∉ events)
    (horder : Along (step objs) TakenInOrder (start kernel c) [] events)
    (hdelivered : Delivered last) (session : UUID) (a : Assignment)
    (hlast : (recordsOf session (readRecords out)).getLast? = some a)
    (hid : a.backendId ∈ c.backends.map (·.id)) :
    ∃ i b, last.watch.controller.sessionMap.lookup session = some i ∧
      c.backends[i]? = some b ∧ b.id = a.backendId := by
  have hkept : Along (step objs) (fun _ _ event => ∀ i, event ≠ .watch (.drop i))
      (start kernel c) [] events := by
    apply Along.of_forall
    rintro _ _ event hmem i rfl
    exact hdrop i hmem
  obtain ⟨consumed, hflow⟩ : ∃ consumed, Flow c last out consumed := by
    refine run_induction (fun mgr out => ∃ consumed, Flow c mgr out consumed)
      ⟨[], flow_start kernel c⟩ ?_
      (horder.and hkept) hrun
    rintro mgr now event next now' ⟨consumed, hflow⟩ ⟨horder, hdrop⟩ hstep
    exact hflow.moves horder hdrop (moves_of_step_eq_ok hstep)
  obtain ⟨hqueued, hinFlight, hchannel⟩ := hdelivered
  have hrecords := hflow.records session
  rw [hqueued, hinFlight, hchannel, List.append_nil, List.append_nil,
    List.append_nil] at hrecords
  rw [hrecords] at hlast
  obtain ⟨b, hb, hbid⟩ := Controller.getElem?_position hid
  refine ⟨_, b, ?_, hb, hbid⟩
  rw [hflow.controller_eq]
  exact Controller.lookup_foldl_handleAssignment hlast hid

/-- A record of the example's one session. -/
def exampleRecord (ip : String) : Assignment :=
  ⟨Controller.exampleId ip, Vector.replicate 16 1⟩

/-- Two records of one session that name different backends, and what follows. -/
def twoRecords (dispatches : List WatchEvent) : List Event :=
  [.watch .watch,
   .loop .check, .loop (.read (exampleRecord "10.0.0.10")), .loop .queue,
   .watch (.worker (.receive 0)),
   .loop .check, .loop (.read (exampleRecord "10.0.0.11")), .loop .queue] ++
  dispatches.map .watch

def inOrder : List WatchEvent :=
  [.deliver 0, .worker (.receive 1), .deliver 1, .consume, .consume]

def overtaken : List WatchEvent :=
  [.worker (.receive 1), .deliver 1, .deliver 0, .consume, .consume]

def exampleRun (dispatches : List WatchEvent) : Except Stop (DSManager × List Output) :=
  run (fun _ => .inMemory true) (start .zeroFilled Controller.exampleController)
    (twoRecords dispatches)

theorem assignments_in_order_two_records :
    ∃ last out i b, exampleRun inOrder = .ok (last, out) ∧
      last.watch.controller.sessionMap.lookup (Vector.replicate 16 1) = some i ∧
      Controller.exampleController.backends[i]? = some b ∧
      b.id = Controller.exampleId "10.0.0.11" := by
  have hrun : (exampleRun inOrder).toOption.map (fun r =>
      ((r.1.queuedRecords, r.1.inFlight, r.1.channel),
        (recordsOf (Vector.replicate 16 1) (readRecords r.2)).getLast?)) =
      some (([], [], []), some (exampleRecord "10.0.0.11")) := by
    decide +kernel
  obtain ⟨⟨last, out⟩, hrun, hfinal⟩ := returns_of_toOption hrun
  simp only [Prod.mk.injEq] at hfinal
  obtain ⟨i, b, hi⟩ := assignments_in_order _ _ _ _ last out hrun
    (by simp [twoRecords, inOrder]) (by decide +kernel) hfinal.1 _ _ hfinal.2
    (by decide +kernel)
  exact ⟨last, out, i, b, hrun, hi⟩

/-- The second record overtakes the first, and the controller keeps the first. -/
theorem overtaken_record_wins :
    (exampleRun overtaken).toOption.map (fun r =>
      ((r.1.queuedRecords, r.1.inFlight, r.1.channel), readRecords r.2,
        (r.1.watch.controller.sessionMap.lookup (Vector.replicate 16 1)).bind fun i =>
          (r.1.watch.controller.backends[i]?).map (·.id))) =
      some (([], [], []), [exampleRecord "10.0.0.10", exampleRecord "10.0.0.11"],
        some (Controller.exampleId "10.0.0.10")) := by
  decide +kernel

end Bpf.DSManager

end Udplb
