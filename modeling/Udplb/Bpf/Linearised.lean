import Mathlib.Data.List.Nodup
import Udplb.Bpf.EventLoop

/-!
# Writes are linearised

An event goes from its caller to the loop, to the queue and to the one worker,
and each of them holds the events in the order in which the loop received them.
So the mutations are executed one at a time and in that order, also while the
pool drains, and the eBPF maps are those of a sequential execution.
-/

namespace Udplb.Bpf.DSManager

open Udplb.Foundation Udplb.Util

namespace Output

/-- The call that an output is about. -/
def call? : Output → Option Nat
  | .issued i | .received i | .began i | .ended i _ | .returned i _ => some i
  | .read _ => none

def received? : Output → Option Nat
  | .received i => some i
  | .issued _ | .began _ | .ended _ _ | .returned _ _ | .read _ => none

def began? : Output → Option Nat
  | .began i => some i
  | .issued _ | .received _ | .ended _ _ | .returned _ _ | .read _ => none

def ended? : Output → Option Nat
  | .ended i _ => some i
  | .issued _ | .received _ | .began _ | .returned _ _ | .read _ => none

end Output

/-- The events in the order in which the loop received them. -/
def receivedIds (out : List Output) : List Nat := out.filterMap Output.received?

def beganIds (out : List Output) : List Nat := out.filterMap Output.began?

def endedIds (out : List Output) : List Nat := out.filterMap Output.ended?

def isMutating (mgr : DSManager) (i : Nat) : Bool :=
  (mgr.calls[i]?).any (·.progress = .mutating)

/-- The events whose mutation is being executed. -/
def mutating (mgr : DSManager) : List Nat :=
  mgr.events.running.filter mgr.isMutating

/-- The maps after the mutations of the calls `ids`, one after another. -/
def sequentially (objs : Nat → Objects) (calls : List Call) (kernel : Kernel)
    (ids : List Nat) : Kernel :=
  ids.foldl (fun kernel i =>
    ((calls[i]?).map Call.mutation).elim kernel fun m =>
      (m.execute (objs i) kernel).2) kernel

structure Linearised (out : List Output) : Prop where
  /-- When a mutation begins, the mutations begun before have ended. -/
  one_at_a_time : ∀ before i after, out = before ++ .began i :: after →
    beganIds before = endedIds before
  at_most_once : (beganIds out).Nodup
  in_order : beganIds out <+: receivedIds out
  real_time : ∀ before i j after, out = before ++ .issued j :: after →
    .returned i .nil ∈ before → .ended i true ∈ before ∧ .began j ∉ before

/-! ## What the output says about a call -/

structure Logged (out : List Output) (i : Nat) (call : Call) : Prop where
  received_iff : .received i ∈ out ↔ call.status ≠ .sending
  began_iff : .began i ∈ out ↔ call.progress ≠ .pending
  executed : call.progress = .closing ∨ call.progress = .closed →
    .ended i true ∈ out ∨ call.status = .returned .failed
  returned : ∀ outcome, .returned i outcome ∈ out → call.status = .returned outcome
  returned_nil : call.status = .returned .nil → .ended i true ∈ out

structure Recorded (mgr : DSManager) (out : List Output) : Prop where
  bounded : ∀ o ∈ out, ∀ i, o.call? = some i → i < mgr.calls.length
  calls : ∀ i call, mgr.calls[i]? = some call → Logged out i call

variable {objs : Nat → Objects} {mgr next : DSManager} {event : Event}
  {out now : List Output}

/-- What is said about other calls does not matter to this one. -/
theorem Logged.append {i : Nat} {call : Call} (h : Logged out i call)
    (hnow : ∀ o ∈ now, o.call? ≠ some i) : Logged (out ++ now) i call := by
  have hmem : ∀ o : Output, o.call? = some i → (o ∈ out ++ now ↔ o ∈ out) := by
    intro o ho
    rw [List.mem_append, or_iff_left fun hmem => hnow o hmem ho]
  constructor
  · rw [hmem _ rfl, h.received_iff]
  · rw [hmem _ rfl, h.began_iff]
  · rw [hmem _ rfl]
    exact h.executed
  · intro outcome
    rw [hmem _ rfl]
    exact h.returned outcome
  · rw [hmem _ rfl]
    exact h.returned_nil

theorem Recorded.same (h : Recorded mgr out) (hcalls : next.calls = mgr.calls)
    (hnow : ∀ o ∈ now, o.call? = none) : Recorded next (out ++ now) := by
  constructor
  · intro o ho i hi
    rcases List.mem_append.mp ho with ho | ho
    · rw [hcalls]
      exact h.bounded o ho i hi
    · rw [hnow o ho] at hi
      cases hi
  · intro i call hcall
    rw [hcalls] at hcall
    apply (h.calls i call hcall).append
    intro o ho
    simp [hnow o ho]

theorem Recorded.set (h : Recorded mgr out) {i : Nat} {call call' : Call}
    (hcall : mgr.calls[i]? = some call) (hcalls : next.calls = mgr.calls.set i call')
    (hnow : ∀ o ∈ now, o.call? = some i) (hlogged : Logged (out ++ now) i call') :
    Recorded next (out ++ now) := by
  have hlt : i < mgr.calls.length := (List.getElem?_eq_some_iff.mp hcall).1
  constructor
  · intro o ho j hj
    rw [hcalls, List.length_set]
    rcases List.mem_append.mp ho with ho | ho
    · exact h.bounded o ho j hj
    · rw [hnow o ho] at hj
      cases hj
      exact hlt
  · intro j c hc
    rcases getElem?_set_cases (hcalls ▸ hc) with ⟨rfl, rfl⟩ | ⟨hji, hc⟩
    · exact hlogged
    · apply (h.calls j c hc).append
      intro o ho
      simpa [hnow o ho] using Ne.symm hji

theorem handled_eq_some {i : Nat} {call : Call} (h : mgr.handled = some (i, call)) :
    mgr.events.running.head? = some i ∧ mgr.calls[i]? = some call := by
  unfold handled at h
  split at h
  · rename_i hrunning
    simp only [Option.map_eq_some_iff, Prod.mk.injEq] at h
    obtain ⟨c, hc, rfl, rfl⟩ := h
    exact ⟨by rw [hrunning]; rfl, hc⟩
  · cases h

theorem Recorded.issue (h : Recorded mgr out) (m : Mutation)
    (hcalls : next.calls = mgr.calls ++ [⟨m, .sending, .pending⟩]) :
    Recorded next (out ++ [.issued mgr.calls.length]) := by
  -- nothing has been said yet about a call that did not exist
  have hfresh : ∀ o : Output, o.call? = some mgr.calls.length → o ∉ out := by
    intro o ho hmem
    exact lt_irrefl _ (h.bounded o hmem _ ho)
  constructor
  · intro o ho i hi
    rw [hcalls, List.length_append, List.length_singleton]
    rcases List.mem_append.mp ho with ho | ho
    · exact Nat.lt_succ_of_lt (h.bounded o ho i hi)
    · cases List.mem_singleton.mp ho
      cases hi
      exact Nat.lt_succ_self _
  · intro i call hcall
    rw [hcalls] at hcall
    rcases Nat.lt_or_ge i mgr.calls.length with hi | hi
    · rw [List.getElem?_append_left hi] at hcall
      apply (h.calls i call hcall).append
      simp [Output.call?]
      omega
    · obtain ⟨rfl, rfl⟩ : i = mgr.calls.length ∧ call = ⟨m, .sending, .pending⟩ := by
        rw [List.getElem?_append_right hi] at hcall
        have hindex := (List.getElem?_eq_some_iff.mp hcall).1
        simp at hindex
        have : i = mgr.calls.length := by omega
        subst this
        simpa using hcall.symm
      constructor <;> grind [Output.call?]

theorem Steps.recorded (hsteps : Steps objs mgr event next now)
    (h : Recorded mgr out) : Recorded next (out ++ now) := by
  have hset : ∀ i call call', mgr.calls[i]? = some call →
      next.calls = mgr.calls.set i call' → (∀ o ∈ now, o.call? = some i) →
      (Logged out i call → Logged (out ++ now) i call') → Recorded next (out ++ now) :=
    fun i call call' hcall hcalls hnow hlogged =>
      h.set hcall hcalls hnow (hlogged (h.calls i call hcall))
  cases hsteps with
  | issued m hopen => exact h.issue m rfl
  | returnedNil i m hcall | returnedAborted i m progress hcall
  | received i m progress hloop hcall | took j draining i rest call hworker hq hcall =>
      refine hset i _ _ hcall rfl (by simp [Output.call?]) ?_
      rintro ⟨hreceived, hbegan, hexecuted, hreturned, hnil⟩
      constructor <;> grind
  | mutated i m status hhandled | reported i m hhandled
  | errChClosed i m status hhandled =>
      refine hset i _ _ (handled_eq_some hhandled).2 rfl (by simp [Output.call?]) ?_
      rintro ⟨hreceived, hbegan, hexecuted, hreturned, hnil⟩
      constructor <;> grind
  | moved event loop watch out hloop hloop' hevents hout hone =>
      refine h.same rfl ?_
      intro o ho
      obtain ⟨a, rfl⟩ := hout o ho
      rfl
  | terminated | eventChClosed | queued | eventsDone | doneClosed | loopReturned
  | worked | handlerReturned | watched => exact h.same rfl (by simp)

/-! ## The way of an event -/

structure Pipeline (mgr : DSManager) (out : List Output) : Prop where
  single : mgr.events.workers.length = 1
  received_eq : receivedIds out =
    beganIds out ++ mgr.events.q ++ mgr.loop.received?.toList
  began_eq : beganIds out = endedIds out ++ mgr.mutating
  nodup : (receivedIds out).Nodup

@[simp] theorem receivedIds_append :
    receivedIds (out ++ now) = receivedIds out ++ receivedIds now :=
  List.filterMap_append

@[simp] theorem beganIds_append :
    beganIds (out ++ now) = beganIds out ++ beganIds now :=
  List.filterMap_append

@[simp] theorem endedIds_append :
    endedIds (out ++ now) = endedIds out ++ endedIds now :=
  List.filterMap_append

theorem mem_receivedIds {i : Nat} : i ∈ receivedIds out ↔ .received i ∈ out := by
  rw [receivedIds, List.mem_filterMap]
  constructor
  · rintro ⟨o, ho, hi⟩
    cases o <;> cases hi
    exact ho
  · intro h
    exact ⟨_, h, rfl⟩

/-- An output that is about none of the stages of an event. -/
def Silent (now : List Output) : Prop :=
  receivedIds now = [] ∧ beganIds now = [] ∧ endedIds now = []

theorem mutating_congr (hrunning : next.events.running = mgr.events.running)
    (hmutating : ∀ i, next.isMutating i = mgr.isMutating i) :
    next.mutating = mgr.mutating := by
  rw [mutating, mutating, hrunning, funext hmutating]

theorem Pipeline.began_prefix (h : Pipeline mgr out) :
    beganIds out <+: receivedIds out := by
  rw [h.received_eq, List.append_assoc]
  exact List.prefix_append _ _

theorem Pipeline.ended_prefix (h : Pipeline mgr out) :
    endedIds out <+: beganIds out := by
  rw [h.began_eq]
  exact List.prefix_append _ _

/-- What enters a stage and what it holds is what it holds then and what leaves. -/
theorem Pipeline.advance (h : Pipeline mgr out)
    (hsingle : next.events.workers.length = mgr.events.workers.length)
    (hq : mgr.events.q ++ mgr.loop.received?.toList ++ receivedIds now =
      beganIds now ++ next.events.q ++ next.loop.received?.toList)
    (hmutating : mgr.mutating ++ beganIds now = endedIds now ++ next.mutating)
    (hnew : receivedIds now = [] ∨
      ∃ i, receivedIds now = [i] ∧ i ∉ receivedIds out) :
    Pipeline next (out ++ now) := by
  constructor
  · rw [hsingle, h.single]
  · calc
      receivedIds (out ++ now) = beganIds out ++
          (mgr.events.q ++ mgr.loop.received?.toList ++ receivedIds now) := by
        rw [receivedIds_append, h.received_eq]
        simp only [List.append_assoc]
      _ = beganIds (out ++ now) ++ next.events.q ++ next.loop.received?.toList := by
        rw [hq, beganIds_append]
        simp only [List.append_assoc]
  · calc
      beganIds (out ++ now) = endedIds out ++ (mgr.mutating ++ beganIds now) := by
        rw [beganIds_append, h.began_eq, List.append_assoc]
      _ = endedIds (out ++ now) ++ next.mutating := by
        rw [hmutating, endedIds_append, List.append_assoc]
  · rw [receivedIds_append]
    rcases hnew with hnew | ⟨i, hnew, hi⟩
    · rw [hnew, List.append_nil]
      exact h.nodup
    · rw [hnew]
      exact List.nodup_append'.mpr ⟨h.nodup, List.nodup_singleton i, by simpa using hi⟩

theorem Pipeline.congr (h : Pipeline mgr out)
    (hsingle : next.events.workers.length = mgr.events.workers.length)
    (hq : mgr.events.q ++ mgr.loop.received?.toList =
      next.events.q ++ next.loop.received?.toList)
    (hmutating : next.mutating = mgr.mutating) (hnow : Silent now) :
    Pipeline next (out ++ now) := by
  obtain ⟨hreceived, hbegan, hended⟩ := hnow
  apply h.advance hsingle
  · rw [hreceived, hbegan, List.append_nil, List.nil_append, hq]
  · rw [hbegan, hended, List.append_nil, List.nil_append, hmutating]
  · exact .inl hreceived

theorem isMutating_setCall {i : Nat} {call call' : Call}
    (hcall : mgr.calls[i]? = some call) (hcalls : next.calls = mgr.calls.set i call')
    (hprogress : call'.progress = .mutating ↔ call.progress = .mutating) (j : Nat) :
    next.isMutating j = mgr.isMutating j := by
  rw [isMutating, isMutating, hcalls]
  grind

theorem mutating_of_running {i : Nat} {call : Call}
    (hrunning : mgr.events.running = [i]) (hcall : mgr.calls[i]? = some call) :
    mgr.mutating = if call.progress = .mutating then [i] else [] := by
  simp [mutating, hrunning, isMutating, hcall, List.filter_singleton]

theorem mutating_of_idle (hrunning : mgr.events.running = []) : mgr.mutating = [] := by
  rw [mutating, hrunning]
  rfl

theorem silent_of_read (h : ∀ o ∈ now, ∃ a, o = .read a) : Silent now := by
  refine ⟨?_, ?_, ?_⟩ <;>
    · apply List.filterMap_eq_nil_iff.mpr
      intro o ho
      obtain ⟨a, rfl⟩ := h o ho
      rfl

theorem Steps.pipeline (hsteps : Steps objs mgr event next now)
    (hrecorded : Recorded mgr out) (h : Pipeline mgr out) :
    Pipeline next (out ++ now) := by
  cases hsteps with
  | issued m hopen =>
      refine h.congr rfl rfl (mutating_congr rfl ?_) ⟨rfl, rfl, rfl⟩
      grind [isMutating]
  | returnedNil i m hcall | returnedAborted i m progress hcall =>
      exact h.congr rfl rfl
        (mutating_congr rfl (isMutating_setCall hcall rfl (by simp))) ⟨rfl, rfl, rfl⟩
  | received i m progress hloop hcall =>
      have hnot : i ∉ receivedIds out := by
        rw [mem_receivedIds, (hrecorded.calls i _ hcall).received_iff]
        simp
      refine h.advance (by rfl) ?_ ?_ (.inr ⟨i, rfl, hnot⟩)
      · rw [hloop]
        exact List.append_assoc _ _ _
      · refine (List.append_nil _).trans (Eq.symm ?_)
        exact mutating_congr rfl (isMutating_setCall hcall rfl Iff.rfl)
  | took j draining i rest call hworker hq hcall =>
      have hlt : i < mgr.calls.length := (List.getElem?_eq_some_iff.mp hcall).1
      obtain ⟨hbefore, hafter⟩ := WorkerPool.running_took h.single hworker rest i
      refine h.advance (by simp) ?_ ?_ (.inl rfl)
      · rw [hq]
        exact List.append_nil _
      · rw [mutating_of_idle hbefore,
          mutating_of_running hafter (List.getElem?_set_self hlt), if_pos rfl]
        rfl
  | mutated i m status hhandled =>
      obtain ⟨hhead, hcall⟩ := handled_eq_some hhandled
      have hlt : i < mgr.calls.length := (List.getElem?_eq_some_iff.mp hcall).1
      have hrunning := WorkerPool.running_eq_singleton h.single hhead
      refine h.advance (by rfl) (List.append_nil _) ?_ (.inl rfl)
      rw [mutating_of_running hrunning hcall, if_pos rfl]
      refine congrArg ([i] ++ ·) (Eq.symm ?_)
      refine Eq.trans (mutating_of_running hrunning (List.getElem?_set_self hlt)) ?_
      rw [if_neg (by grind)]
      rfl
  | reported i m hhandled | errChClosed i m status hhandled =>
      exact h.congr rfl rfl
        (mutating_congr rfl
          (isMutating_setCall (handled_eq_some hhandled).2 rfl (by simp))) ⟨rfl, rfl, rfl⟩
  | moved event loop watch out hloop hloop' hevents hout hone =>
      refine h.congr rfl ?_ (mutating_congr rfl fun _ => rfl) (silent_of_read hout)
      simp [hloop, hloop']
  | queued i hloop =>
      refine h.congr rfl ?_ (mutating_congr rfl fun _ => rfl) ⟨rfl, rfl, rfl⟩
      simp [hloop, Loop.received?]
  | worked event events hpool hevent =>
      obtain ⟨hrunning, hq⟩ := hpool.running_eq hevent
      refine h.congr hpool.length_workers ?_
        (mutating_congr hrunning fun _ => rfl) ⟨rfl, rfl, rfl⟩
      simp [hq]
  | handlerReturned i m status events hhandled hfinish =>
      obtain ⟨hhead, hcall⟩ := handled_eq_some hhandled
      obtain ⟨hidle, hq, hsingle⟩ := WorkerPool.running_finish h.single hfinish
      refine h.congr (hsingle.trans h.single.symm) (by rw [hq]) ?_ ⟨rfl, rfl, rfl⟩
      rw [mutating_of_idle hidle, mutating_of_running
        (WorkerPool.running_eq_singleton h.single hhead) hcall, if_neg (by simp)]
  | eventsDone hloop | doneClosed hloop | loopReturned watch hloop =>
      refine h.congr rfl ?_ (mutating_congr rfl fun _ => rfl) ⟨rfl, rfl, rfl⟩
      simp [hloop, Loop.received?]
  | terminated | eventChClosed | watched =>
      exact h.congr rfl rfl (mutating_congr rfl fun _ => rfl) ⟨rfl, rfl, rfl⟩

/-! ## Whole runs -/

/-- A call keeps its mutation. -/
theorem Steps.mutation_eq (hsteps : Steps objs mgr event next now) {i : Nat}
    (hi : i < mgr.calls.length) :
    (next.calls[i]?).map Call.mutation = (mgr.calls[i]?).map Call.mutation := by
  cases hsteps with
  | issued m hopen => simp [List.getElem?_append_left hi]
  | returnedNil j m hcall | returnedAborted j m progress hcall
  | received j m progress hloop hcall | took k draining j rest call hworker hq hcall =>
      grind [calls_setCall]
  | mutated j m status hhandled | reported j m hhandled
  | errChClosed j m status hhandled =>
      have hcall := (handled_eq_some hhandled).2
      grind [calls_setCall]
  | terminated | eventChClosed | moved | queued | eventsDone | doneClosed
  | loopReturned | worked | handlerReturned | watched => rfl

theorem sequentially_congr {calls calls' : List Call} {kernel : Kernel} {ids : List Nat}
    (h : ∀ i ∈ ids, (calls'[i]?).map Call.mutation = (calls[i]?).map Call.mutation) :
    sequentially objs calls' kernel ids = sequentially objs calls kernel ids := by
  apply List.foldl_ext
  intro kernel i hi
  rw [h i hi]

theorem Steps.kernel_eq (hsteps : Steps objs mgr event next now) :
    next.kernel = sequentially objs next.calls mgr.kernel (endedIds now) := by
  cases hsteps with
  | mutated i m status hhandled =>
      obtain ⟨-, hcall⟩ := handled_eq_some hhandled
      have hlt : i < mgr.calls.length := (List.getElem?_eq_some_iff.mp hcall).1
      simp [sequentially, endedIds, Output.ended?, setCall, hlt]
  | moved event loop watch out hloop hloop' hevents hout hone =>
      rw [(silent_of_read hout).2.2]
      rfl
  | issued | returnedNil | returnedAborted | terminated | eventChClosed | received
  | queued | eventsDone | doneClosed | loopReturned | took | worked | reported
  | errChClosed | handlerReturned | watched => rfl

/-- The state and the output of a run fit together. -/
structure Consistent (objs : Nat → Objects) (kernel : Kernel) (mgr : DSManager)
    (out : List Output) : Prop where
  recorded : Recorded mgr out
  pipeline : Pipeline mgr out
  kernel_eq : mgr.kernel = sequentially objs mgr.calls kernel (endedIds out)

theorem Consistent.steps {kernel : Kernel} (h : Consistent objs kernel mgr out)
    (hsteps : Steps objs mgr event next now) :
    Consistent objs kernel next (out ++ now) := by
  refine ⟨hsteps.recorded h.recorded, hsteps.pipeline h.recorded h.pipeline, ?_⟩
  have hmutations : ∀ i ∈ endedIds out,
      (next.calls[i]?).map Call.mutation = (mgr.calls[i]?).map Call.mutation := by
    intro i hi
    obtain ⟨o, ho, hended⟩ := List.mem_filterMap.mp hi
    apply hsteps.mutation_eq
    apply h.recorded.bounded o ho
    cases o <;> cases hended
    rfl
  rw [hsteps.kernel_eq, h.kernel_eq, ← sequentially_congr hmutations, endedIds_append]
  exact List.foldl_append.symm

theorem consistent_start (kernel : Kernel) (controller : Controller) :
    Consistent objs kernel (start kernel controller) [] := by
  refine ⟨⟨by simp, by simp [start]⟩, ⟨rfl, rfl, rfl, List.nodup_nil⟩, rfl⟩

theorem run_consistent {kernel : Kernel} {controller : Controller}
    {events : List Event} {last : DSManager}
    (hrun : run objs (start kernel controller) events = .ok (last, out)) :
    Consistent objs kernel last out := by
  refine run_keeps (Consistent objs kernel) (consistent_start kernel controller) ?_ hrun
  intro mgr out event next now h hstep
  exact h.steps (steps_of_step_eq_ok hstep)

/-- The state before the step that a given output comes from. -/
theorem run_emitted {kernel : Kernel} {controller : Controller} {events : List Event}
    {last : DSManager} {before after : List Output} {o : Output}
    (hrun : run objs (start kernel controller) events =
      .ok (last, before ++ o :: after)) :
    ∃ mgr event next, Consistent objs kernel mgr before ∧
      Steps objs mgr event next [o] := by
  obtain ⟨first, event, rest, mgr, next, -, hfirst, hstep⟩ := run_emits
    (fun _ _ _ _ hstep => (steps_of_step_eq_ok hstep).length_le_one) hrun
  exact ⟨mgr, event, next, run_consistent hfirst, steps_of_step_eq_ok hstep⟩

theorem Consistent.beganIds_eq {kernel : Kernel} {i : Nat}
    (h : Consistent objs kernel mgr out) (hsteps : Steps objs mgr event next [.began i]) :
    beganIds out = endedIds out := by
  have hmutating : mgr.mutating = [] := by
    cases hsteps with
    | took j draining i rest call hworker hq hcall =>
        exact mutating_of_idle (WorkerPool.running_took h.pipeline.single hworker rest i).1
    | moved event loop watch out hloop hloop' hevents hout hone =>
        obtain ⟨a, ha⟩ := hout _ (List.mem_singleton_self _)
        cases ha
  rw [h.pipeline.began_eq, hmutating, List.append_nil]

theorem Consistent.returned_nil {kernel : Kernel} {i j : Nat}
    (h : Consistent objs kernel mgr out) (hsteps : Steps objs mgr event next [.issued j])
    (hreturned : .returned i .nil ∈ out) : .ended i true ∈ out ∧ .began j ∉ out := by
  have hj : j = mgr.calls.length := by
    cases hsteps with
    | issued m hopen => rfl
    | moved event loop watch out hloop hloop' hevents hout hone =>
        obtain ⟨a, ha⟩ := hout _ (List.mem_singleton_self _)
        cases ha
  constructor
  · have hi := h.recorded.bounded _ hreturned i rfl
    have hlogged := h.recorded.calls i _ (List.getElem?_eq_getElem hi)
    exact hlogged.returned_nil (hlogged.returned _ hreturned)
  · intro hbegan
    exact (h.recorded.bounded _ hbegan j rfl).ne hj

/--
In every run the mutations are executed one at a time, each once and in the order
in which the loop received them, a call issued after another one returned nil
comes after it, and the maps are those of the sequential execution.
-/
theorem writes_linearised (objs : Nat → Objects) (kernel : Kernel)
    (controller : Controller) (events : List Event) (last : DSManager)
    (out : List Output)
    (hrun : run objs (start kernel controller) events = .ok (last, out)) :
    Linearised out ∧
      last.kernel = sequentially objs last.calls kernel (endedIds out) := by
  have h := run_consistent hrun
  have hin_order := h.pipeline.began_prefix
  refine ⟨⟨?_, h.pipeline.nodup.sublist hin_order.sublist, hin_order, ?_⟩, h.kernel_eq⟩
  · intro before i after hout
    rw [hout] at hrun
    obtain ⟨mgr, event, next, hmgr, hsteps⟩ := run_emitted hrun
    exact hmgr.beganIds_eq hsteps
  · intro before i j after hout hreturned
    rw [hout] at hrun
    obtain ⟨mgr, event, next, hmgr, hsteps⟩ := run_emitted hrun
    exact hmgr.returned_nil hsteps hreturned

/-- A call that returns, and another one that is issued then. -/
def twoCalls : List Event :=
  [.call (.issue (.sessionBatchDelete [])), .loop .check, .loop (.receive 0),
   .loop .queue, .handler (.worker (.receive 0)), .handler .mutate,
   .handler .closeErrCh, .call (.returnNil 0),
   .call (.issue (.set ⟨[], [], ∅⟩)), .loop .check, .loop (.receive 1),
   .loop .queue, .handler .return, .handler (.worker (.receive 0)), .handler .mutate]

/-- The workers find nothing to drain, and the loop closes `doneCh`. -/
def doneAfterWorkers : List Event :=
  [.handler (.worker (.terminate 0)), .handler (.worker (.return 0)),
   .handler (.worker .done),
   .watch (.worker (.terminate 0)), .watch (.worker (.return 0)),
   .watch (.worker (.terminate 1)), .watch (.worker (.return 1)),
   .watch (.worker (.terminate 2)), .watch (.worker (.return 2)),
   .watch (.worker .done),
   .loop .eventsDone, .loop .watchDone, .loop .closeMux, .loop .closeDone]

def exampleStart : DSManager := start .zeroFilled (Controller.init [])

def twoCallsOutput : List Output :=
  [.issued 0, .received 0, .began 0, .ended 0 true, .returned 0 .nil,
   .issued 1, .received 1, .began 1, .ended 1 true]

theorem writes_linearised_two_calls :
    ∃ last, run (fun _ => .inMemory true) exampleStart twoCalls =
        .ok (last, twoCallsOutput) ∧
      Linearised twoCallsOutput ∧
      last.kernel = sequentially (fun _ => .inMemory true) last.calls .zeroFilled
        (endedIds twoCallsOutput) := by
  have hout : (run (fun _ => .inMemory true) exampleStart twoCalls).toOption.map (·.2) =
      some twoCallsOutput := by
    decide +kernel
  obtain ⟨⟨last, out⟩, hrun, rfl⟩ := returns_of_toOption hout
  exact ⟨last, hrun, writes_linearised _ _ _ _ _ _ hrun⟩

end Udplb.Bpf.DSManager
