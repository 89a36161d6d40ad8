import Udplb.Util.WatcherMux

/-!
# What a watcher receives

One goroutine dispatches, one value after the other, while watchers come, go and
receive.  An observer of one watcher records for every value that is dispatched
after the registration, and that the filter accepts, what became of it.  The
watcher receives the delivered ones in the order of their dispatches.
-/

namespace Udplb.Util.WatcherMux

open Udplb.Foundation

variable {α : Type}

/-- A snapshot is taken only when the dispatch before is over. -/
def OneDispatcher (wm : WatcherMux α) (_ : List (Output α)) : Event α → Prop
  | .snapshot _ _ => ∀ call ∈ wm.calls, call.remaining = []
  | .watch _ | .cancel _ | .select _ _ | .receive _ | .close _ | .closeNext
  | .closeDone => True

instance (wm : WatcherMux α) (out : List (Output α)) :
    (event : Event α) → Decidable (OneDispatcher wm out event)
  | .snapshot _ _ =>
      inferInstanceAs (Decidable (∀ call ∈ wm.calls, call.remaining = []))
  | .watch _ | .cancel _ | .select _ _ | .receive _ | .close _ | .closeNext
  | .closeDone => inferInstanceAs (Decidable True)

def dispatched (out : List (Output α)) : List α :=
  out.filterMap fun
    | .dispatched v _ => some v
    | .selected _ _ _ | .received _ _ => none

def receivedBy (id : Nat) (out : List (Output α)) : List α :=
  out.filterMap fun
    | .received id' v => if id' = id then some v else none
    | .dispatched _ _ | .selected _ _ _ => none

@[simp] theorem dispatched_append (first second : List (Output α)) :
    dispatched (first ++ second) = dispatched first ++ dispatched second :=
  List.filterMap_append

@[simp] theorem receivedBy_append (id : Nat) (first second : List (Output α)) :
    receivedBy id (first ++ second) = receivedBy id first ++ receivedBy id second :=
  List.filterMap_append

theorem dispatched_selected (id : Nat) (v : α) (choice : Choice) :
    dispatched (selected id v choice) = [] := by
  unfold selected
  split <;> rfl

/-! ## The observer of a watcher -/

/-- A value is lost in a turn; the buffer and `doneCh` are those of that moment. -/
inductive Fate where
  | waiting
  | delivered
  | lost (full cancelled : Bool)
  deriving DecidableEq, Repr

def lostFate (capacity : Nat) (w : Watcher α) : Fate :=
  .lost (decide (capacity ≤ w.ch.length)) w.doneCh

def turnFate (capacity : Nat) (w : Watcher α) : Choice → Fate
  | .send | .handOver => .delivered
  | .skip | .done | .default | .timeout => lostFate capacity w

/-- The turn of the watcher decides on the value dispatched last. -/
def observe (id : Nat) (wm : WatcherMux α) (seen : List (α × Fate)) :
    Event α → List (α × Fate)
  | .snapshot v order =>
      match wm.watchers[id]? with
      | some w =>
          if w.accepts v then
            seen ++ [(v, if id ∈ order then .waiting
              else lostFate wm.watcherChCapacity w)]
          else seen
      | none => seen
  | .select call choice =>
      match wm.calls[call]?, wm.watchers[id]? with
      | some ⟨v, head :: _⟩, some w =>
          if head = id ∧ w.accepts v = true then
            seen.dropLast ++ [(v, turnFate wm.watcherChCapacity w choice)]
          else seen
      | _, _ => seen
  | .watch _ | .cancel _ | .receive _ | .close _ | .closeNext | .closeDone => seen

def history (id : Nat) (wm : WatcherMux α) (events : List (Event α)) :
    List (α × Fate) :=
  observed step (observe id) wm [] events

def delivered (seen : List (α × Fate)) : List α :=
  (seen.filter (·.2 = .delivered)).map Prod.fst

@[simp] theorem delivered_append (first second : List (α × Fate)) :
    delivered (first ++ second) = delivered first ++ delivered second := by
  simp [delivered]

theorem delivered_sublist (seen : List (α × Fate)) :
    (delivered seen).Sublist (seen.map Prod.fst) :=
  List.filter_sublist.map _

/-! ## One select -/

/-- What a select that is taken does. -/
inductive Selected (dispatchFunc : DispatchFunc) (capacity : Nat) (w : Watcher α)
    (v : α) : Choice → Watcher α → Prop
  | skipped (hrejects : w.accepts v = false) : Selected dispatchFunc capacity w v .skip w
  | sent (haccepts : w.accepts v = true) :
      Selected dispatchFunc capacity w v .send { w with ch := w.ch ++ [v] }
  | handed (haccepts : w.accepts v = true) (hempty : w.ch = []) :
      Selected dispatchFunc capacity w v .handOver w
  | lost (choice : Choice) (haccepts : w.accepts v = true)
      (hfate : turnFate capacity w choice = lostFate capacity w)
      (hkept : choice ≠ .handOver)
      (hlost : dispatchFunc = .nonBlocking → capacity ≤ w.ch.length ∨ w.doneCh = true) :
      Selected dispatchFunc capacity w v choice w

theorem selected_of_selectOne {dispatchFunc : DispatchFunc} {capacity : Nat}
    {w w' : Watcher α} {v : α} {choice : Choice}
    (h : selectOne dispatchFunc capacity w v choice = .ok w') :
    Selected dispatchFunc capacity w v choice w' := by
  unfold selectOne at h
  split at h
  · rename_i hrejects
    split at h <;> cases h
    rename_i hchoice
    subst hchoice
    exact .skipped hrejects
  · rename_i haccepts
    have haccepts : w.accepts v = true := by simpa using haccepts
    cases choice with
    | skip => cases h
    | done =>
        dsimp only at h
        split at h <;> cases h
        rename_i hdone
        exact .lost .done haccepts rfl (by decide) fun _ => Or.inr hdone
    | send =>
        dsimp only at h
        split at h
        · cases h
        · split at h <;> cases h
          exact .sent haccepts
    | handOver =>
        dsimp only at h
        split at h
        · cases h
        · split at h <;> cases h
          rename_i hempty
          exact .handed haccepts (by simpa using hempty)
    | default =>
        dsimp only at h
        split at h <;> cases h
        rename_i hfull
        exact .lost .default haccepts rfl (by decide) fun _ => Or.inl hfull.2.2.2
    | timeout =>
        dsimp only at h
        split at h <;> cases h
        rename_i hfunc
        refine .lost .timeout haccepts rfl (by decide) fun hnonBlocking => ?_
        rw [hfunc] at hnonBlocking
        cases hnonBlocking

/-! ## Dispatches one after the other -/

structure Sequential (wm : WatcherMux α) (out : List (Output α)) : Prop where
  /-- Only the last call can have watchers left. -/
  last_only : ∀ (k : Nat) (call : DispatchCall α), wm.calls[k]? = some call →
    call.remaining ≠ [] → k + 1 = wm.calls.length
  nodup : ∀ call ∈ wm.calls, call.remaining.Nodup
  known : ∀ call ∈ wm.calls, ∀ id ∈ call.remaining, id < wm.watchers.length
  received : ∀ id v, .received id v ∈ out → id < wm.watchers.length
  unregistered : ∀ (id : Nat) (w : Watcher α), wm.watchers[id]? = some w →
    w.registered = false → w.doneCh = true

theorem sequential_new (channelBufferSize : Nat) (dispatchFunc : DispatchFunc) :
    Sequential (new channelBufferSize dispatchFunc : WatcherMux α) [] :=
  ⟨by simp [new], by simp [new], by simp [new], by simp, by simp [new]⟩

/-- A step that changes one watcher and starts no call. -/
theorem Sequential.set {wm next : WatcherMux α} {out now : List (Output α)}
    (h : Sequential wm out) {id : Nat} {w w' : Watcher α}
    (hw : wm.watchers[id]? = some w) (hnext : next.watchers = wm.watchers.set id w')
    (hcalls : next.calls = wm.calls) (hnow : ∀ j v, .received j v ∈ now → j = id)
    (hregistered : (w.registered = false → w.doneCh = true) →
      w'.registered = false → w'.doneCh = true) :
    Sequential next (out ++ now) := by
  have hlt : id < wm.watchers.length := (List.getElem?_eq_some_iff.mp hw).1
  have hlength : next.watchers.length = wm.watchers.length := by simp [hnext]
  refine ⟨hcalls ▸ h.last_only, hcalls ▸ h.nodup, ?_, ?_, ?_⟩
  · rw [hcalls, hlength]
    exact h.known
  · intro j v hmem
    rw [hlength]
    rcases List.mem_append.mp hmem with hmem | hmem
    · exact h.received j v hmem
    · rw [hnow j v hmem]
      exact hlt
  · intro j w'' hw'' hunregistered
    rcases getElem?_set_cases (hnext ▸ hw'') with ⟨rfl, rfl⟩ | ⟨-, hw''⟩
    · exact hregistered (h.unregistered j w hw) hunregistered
    · exact h.unregistered j w'' hw'' hunregistered

/-- The call under way gets on to its next watcher. -/
theorem Sequential.advance {wm next : WatcherMux α} {out : List (Output α)}
    {call id : Nat} {v : α} {rest : List Nat} (h : Sequential wm out)
    (hcall : wm.calls[call]? = some ⟨v, id :: rest⟩)
    (hwatchers : next.watchers = wm.watchers)
    (hcalls : next.calls = wm.calls.set call ⟨v, rest⟩) : Sequential next out := by
  have hlt : call < wm.calls.length := (List.getElem?_eq_some_iff.mp hcall).1
  have hmem := List.mem_of_getElem? hcall
  refine ⟨?_, ?_, ?_, hwatchers ▸ h.received, hwatchers ▸ h.unregistered⟩
  · intro k call' hcall' hremaining
    rw [hcalls] at hcall' ⊢
    rw [List.length_set]
    rcases getElem?_set_cases hcall' with ⟨rfl, -⟩ | ⟨-, hcall'⟩
    · exact h.last_only k _ hcall (by simp)
    · exact h.last_only k call' hcall' hremaining
  · intro call' hcall'
    rw [hcalls] at hcall'
    rcases List.mem_or_eq_of_mem_set hcall' with hold | rfl
    · exact h.nodup call' hold
    · exact (List.nodup_cons.mp (h.nodup _ hmem)).2
  · intro call' hcall' j hj
    rw [hcalls] at hcall'
    rw [hwatchers]
    rcases List.mem_or_eq_of_mem_set hcall' with hold | rfl
    · exact h.known call' hold j hj
    · exact h.known _ hmem j (List.mem_cons_of_mem _ hj)

theorem getWatcherList_nodup (wm : WatcherMux α) : wm.getWatcherList.Nodup :=
  List.nodup_range.filter _

theorem sequential_step {wm next : WatcherMux α} {event : Event α}
    {out now : List (Output α)} (h : Sequential wm out)
    (hone : OneDispatcher wm out event) (hsteps : Steps wm event next now) :
    Sequential next (out ++ now) := by
  cases hsteps with
  | watched filter =>
      rw [List.append_nil]
      refine ⟨h.last_only, h.nodup, ?_, ?_, ?_⟩
      · intro call hcall id hid
        have := h.known call hcall id hid
        simp only [List.length_append, List.length_singleton]
        omega
      · intro id v hmem
        have := h.received id v hmem
        simp only [List.length_append, List.length_singleton]
        omega
      · intro id w hw hunregistered
        rw [List.getElem?_append] at hw
        split at hw
        · exact h.unregistered id w hw hunregistered
        · have hmem := List.mem_of_getElem? hw
          rw [List.mem_singleton.mp hmem] at hunregistered
          cases hunregistered
  | cancelled id w hw => exact h.set hw rfl rfl (by simp) fun _ _ => rfl
  | snapshot v order hperm =>
      have hmem : ∀ call ∈ wm.calls ++ [⟨v, order⟩],
          call ∈ wm.calls ∨ call = ⟨v, order⟩ := by
        simp
      refine ⟨?_, ?_, ?_, by simpa using h.received, h.unregistered⟩
      · intro k call hcall hremaining
        rw [List.getElem?_append] at hcall
        split at hcall
        · exact absurd (hone call (List.mem_of_getElem? hcall)) hremaining
        · have hk := (List.getElem?_eq_some_iff.mp hcall).1
          simp only [List.length_append, List.length_singleton] at hk ⊢
          omega
      · intro call hcall
        rcases hmem call hcall with hcall | rfl
        · exact h.nodup call hcall
        · exact hperm.nodup_iff.mpr wm.getWatcherList_nodup
      · intro call hcall
        rcases hmem call hcall with hcall | rfl
        · exact h.known call hcall
        · exact getWatcherList_lt hperm
  | selected call id v rest w w' choice hcall hw hselect =>
      have hadvanced : Sequential { wm with calls := wm.calls.set call ⟨v, rest⟩ } out :=
        h.advance hcall rfl rfl
      have hnow : ∀ j u, .received j u ∈ selected id v choice → j = id := by
        intro j u hmem
        unfold selected at hmem
        split at hmem <;> simp at hmem
        exact hmem.1
      refine hadvanced.set hw rfl rfl hnow ?_
      cases selected_of_selectOne hselect <;> exact fun hw' => hw'
  | received id v w ch hw hch =>
      exact h.set hw rfl rfl (by simp) fun hw' => hw'
  | closing order =>
      rw [List.append_nil]
      exact ⟨h.last_only, h.nodup, h.known, h.received, h.unregistered⟩
  | closedNext id rest w hclosing hw =>
      exact h.set hw rfl rfl (by simp) fun hw' => hw'
  | closed =>
      rw [List.append_nil]
      exact ⟨h.last_only, h.nodup, h.known, h.received, h.unregistered⟩

/-! ## The stream of one watcher -/

/-- `earlier` is what was emitted before the watcher was registered. -/
structure Stream (id : Nat) (filter : Option (α → Bool)) (earlier : List (Output α))
    (wm : WatcherMux α) (w : Watcher α) (out : List (Output α))
    (seen : List (α × Fate)) : Prop where
  watcher : wm.watchers[id]? = some w
  filter_eq : w.filter = filter
  values : ∃ later, out = earlier ++ later ∧
    seen.map Prod.fst = (dispatched later).filter w.accepts
  delivered : receivedBy id out ++ w.ch = delivered seen
  /-- A value whose turn is still to come is the last one. -/
  waiting : ∀ call ∈ wm.calls, id ∈ call.remaining → w.accepts call.value = true →
    ∃ done, seen = done ++ [(call.value, .waiting)]
  /-- No turn is left out: what waits belongs to a call that still has the watcher. -/
  settled : ∀ (i : Nat) (v : α), seen[i]? = some (v, .waiting) → i + 1 = seen.length ∧
    ∃ call ∈ wm.calls, call.value = v ∧ id ∈ call.remaining
  lost : wm.dispatchFunc = .nonBlocking → ∀ v full cancelled,
    (v, .lost full cancelled) ∈ seen → full = true ∨ cancelled = true

theorem accepts_congr {w w' : Watcher α} (hfilter : w'.filter = w.filter) :
    w'.accepts = w.accepts := by
  funext v
  rw [Watcher.accepts, Watcher.accepts, hfilter]

theorem Stream.accepts_of_seen {id : Nat} {filter : Option (α → Bool)}
    {earlier out : List (Output α)} {wm : WatcherMux α} {w : Watcher α}
    {seen : List (α × Fate)} (h : Stream id filter earlier wm w out seen) {v : α} {fate : Fate}
    (hv : (v, fate) ∈ seen) : w.accepts v = true := by
  obtain ⟨later, -, hvalues⟩ := h.values
  have hmem : v ∈ seen.map Prod.fst := List.mem_map_of_mem hv
  rw [hvalues] at hmem
  exact (List.mem_filter.mp hmem).2

/-- A step in which nothing is dispatched and the watcher has no turn. -/
theorem Stream.keep {id : Nat} {filter : Option (α → Bool)}
    {earlier out now : List (Output α)} {wm next : WatcherMux α} {w w' : Watcher α}
    {seen : List (α × Fate)} (h : Stream id filter earlier wm w out seen)
    (hw' : next.watchers[id]? = some w') (hfilter : w'.filter = w.filter)
    (hch : receivedBy id now ++ w'.ch = w.ch) (hnow : dispatched now = [])
    (hcalls : ∀ call ∈ next.calls, id ∈ call.remaining →
      ∃ call' ∈ wm.calls, id ∈ call'.remaining ∧ call'.value = call.value)
    (hback : ∀ call ∈ wm.calls, id ∈ call.remaining → w.accepts call.value = true →
      ∃ call' ∈ next.calls, call'.value = call.value ∧ id ∈ call'.remaining)
    (hfunc : next.dispatchFunc = wm.dispatchFunc) :
    Stream id filter earlier next w' (out ++ now) seen := by
  have haccepts := accepts_congr hfilter
  obtain ⟨later, hlater, hvalues⟩ := h.values
  refine ⟨hw', hfilter.trans h.filter_eq, ⟨later ++ now, ?_, ?_⟩, ?_, ?_, ?_, ?_⟩
  · rw [hlater, List.append_assoc]
  · rw [dispatched_append, hnow, List.append_nil, haccepts]
    exact hvalues
  · rw [receivedBy_append, List.append_assoc, hch]
    exact h.delivered
  · intro call hcall hid hvalue
    obtain ⟨call', hcall', hid', hsame⟩ := hcalls call hcall hid
    rw [haccepts, ← hsame] at hvalue
    rw [← hsame]
    exact h.waiting call' hcall' hid' hvalue
  · intro i v hi
    obtain ⟨hlast, call, hcall, rfl, hid⟩ := h.settled i v hi
    exact ⟨hlast, hback call hcall hid (h.accepts_of_seen (List.mem_of_getElem? hi))⟩
  · rw [hfunc]
    exact h.lost

/-- A watcher that no snapshot takes is cancelled. -/
theorem doneCh_of_not_mem {wm : WatcherMux α} {out : List (Output α)}
    (h : Sequential wm out) {order : List Nat} (hperm : order.Perm wm.getWatcherList)
    {id : Nat} {w : Watcher α} (hw : wm.watchers[id]? = some w) (hid : id ∉ order) :
    w.doneCh = true := by
  apply h.unregistered id w hw
  by_contra hregistered
  apply hid
  rw [hperm.mem_iff, getWatcherList, List.mem_filter]
  refine ⟨List.mem_range.mpr (List.getElem?_eq_some_iff.mp hw).1, ?_⟩
  simpa [hw] using hregistered

theorem stream_snapshot {id : Nat} {filter : Option (α → Bool)}
    {earlier out : List (Output α)} {wm : WatcherMux α} {w : Watcher α}
    {seen : List (α × Fate)} {v : α} {order : List Nat} (hseq : Sequential wm out)
    (h : Stream id filter earlier wm w out seen)
    (hone : OneDispatcher wm out (.snapshot v order))
    (hperm : order.Perm wm.getWatcherList) :
    Stream id filter earlier { wm with calls := wm.calls ++ [⟨v, order⟩] } w
      (out ++ [.dispatched v order]) (observe id wm seen (.snapshot v order)) := by
  obtain ⟨later, hlater, hvalues⟩ := h.values
  have hnew : ∀ call ∈ wm.calls ++ [⟨v, order⟩], id ∈ call.remaining →
      call = ⟨v, order⟩ := by
    intro call hcall hid
    rcases List.mem_append.mp hcall with hcall | hcall
    · rw [hone call hcall] at hid
      cases hid
    · exact List.mem_singleton.mp hcall
  -- the dispatch before is over, so nothing seen so far waits
  have hover : ∀ (i : Nat) (u : α), seen[i]? ≠ some (u, .waiting) := by
    intro i u hi
    obtain ⟨-, call, hcall, -, hid⟩ := h.settled i u hi
    rw [hone call hcall] at hid
    cases hid
  simp only [observe, h.watcher]
  by_cases haccepts : w.accepts v = true
  · rw [if_pos haccepts]
    refine ⟨h.watcher, h.filter_eq, ⟨later ++ [.dispatched v order], ?_, ?_⟩, ?_, ?_, ?_,
      ?_⟩
    · rw [hlater, List.append_assoc]
    · simp [hvalues, dispatched, haccepts]
    · have hfate : delivered [(v, if id ∈ order then Fate.waiting
          else lostFate wm.watcherChCapacity w)] = [] := by
        split <;> simp [delivered, lostFate]
      rw [delivered_append, hfate, List.append_nil, ← h.delivered]
      simp [receivedBy]
    · intro call hcall hid _
      cases hnew call hcall hid
      exact ⟨seen, by rw [if_pos hid]⟩
    · intro i u hi
      rcases getElem?_concat_cases hi with hi | ⟨rfl, hlast⟩
      · exact absurd hi (hover i u)
      · refine ⟨by simp, ⟨v, order⟩, by simp, ?_⟩
        by_cases hid : id ∈ order
        · exact ⟨(congrArg Prod.fst hlast).symm, hid⟩
        · simp [hid, lostFate] at hlast
    · intro hfunc u full cancelled hmem
      rcases List.mem_append.mp hmem with hmem | hmem
      · exact h.lost hfunc u full cancelled hmem
      · by_cases hid : id ∈ order
        · simp [hid] at hmem
        · simp only [hid, if_false, lostFate, List.mem_singleton, Prod.mk.injEq,
            Fate.lost.injEq] at hmem
          rw [hmem.2.2]
          exact Or.inr (doneCh_of_not_mem hseq hperm h.watcher hid)
  · rw [if_neg haccepts]
    refine ⟨h.watcher, h.filter_eq, ⟨later ++ [.dispatched v order], ?_, ?_⟩, ?_, ?_,
      fun i u hi => absurd hi (hover i u), h.lost⟩
    · rw [hlater, List.append_assoc]
    · simp [hvalues, dispatched, haccepts]
    · rw [← h.delivered]
      simp [receivedBy]
    · intro call hcall hid hvalue
      cases hnew call hcall hid
      exact absurd hvalue haccepts

/-- The turn of the watcher: the value that waits is delivered or lost. -/
theorem stream_turn {id call : Nat} {filter : Option (α → Bool)}
    {earlier out : List (Output α)} {wm : WatcherMux α} {w w' : Watcher α}
    {seen : List (α × Fate)} {v : α} {rest : List Nat} {choice : Choice}
    (hseq : Sequential wm out) (h : Stream id filter earlier wm w out seen)
    (hcall : wm.calls[call]? = some ⟨v, id :: rest⟩) (haccepts : w.accepts v = true)
    (hselected : Selected wm.dispatchFunc wm.watcherChCapacity w v choice w') :
    Stream id filter earlier
      { wm with
        watchers := wm.watchers.set id w'
        calls := wm.calls.set call ⟨v, rest⟩ } w' (out ++ selected id v choice)
      (observe id wm seen (.select call choice)) := by
  have hlt : id < wm.watchers.length := (List.getElem?_eq_some_iff.mp h.watcher).1
  have hmem := List.mem_of_getElem? hcall
  obtain ⟨done, rfl⟩ := h.waiting _ hmem (by simp) haccepts
  obtain ⟨later, hlater, hvalues⟩ := h.values
  have hbefore := h.delivered
  have hfilter : w'.filter = w.filter := by cases hselected <;> rfl
  have haccepts' := accepts_congr hfilter
  simp only [observe, hcall, h.watcher, haccepts, and_self, if_true,
    List.dropLast_concat]
  refine ⟨List.getElem?_set_self hlt, hfilter.trans h.filter_eq,
    ⟨later ++ selected id v choice, ?_, ?_⟩, ?_, ?_, ?_, ?_⟩
  · rw [hlater, List.append_assoc]
  · rw [dispatched_append, dispatched_selected, List.append_nil, haccepts', ← hvalues]
    simp
  · have hdone : delivered (done ++ [(v, Fate.waiting)]) = delivered done := by
      simp [delivered]
    rw [hdone] at hbefore
    cases hselected with
    | skipped hrejects =>
        rw [haccepts] at hrejects
        cases hrejects
    | sent =>
        rw [delivered_append, ← hbefore]
        simp [receivedBy, selected, delivered, turnFate]
    | handed _ hempty =>
        rw [delivered_append, ← hbefore]
        simp [receivedBy, selected, delivered, turnFate, hempty]
    | lost _ _ hfate hkept _ =>
        rw [hfate, delivered_append, ← hbefore]
        simp [receivedBy, selected, delivered, lostFate, hkept]
  · -- nobody waits for the watcher after its turn
    intro call' hcall' hid _
    exfalso
    obtain ⟨k, hk⟩ := List.mem_iff_getElem?.mp hcall'
    rcases getElem?_set_cases hk with ⟨-, rfl⟩ | ⟨hother, hk⟩
    · exact (List.nodup_cons.mp (hseq.nodup _ hmem)).1 hid
    · have hlast := hseq.last_only k call' hk (List.ne_nil_of_mem hid)
      have hlast' := hseq.last_only call _ hcall (by simp)
      omega
  · intro i u hi
    rcases getElem?_concat_cases hi with hi | ⟨-, hlast⟩
    · -- an earlier value cannot wait beside the last one
      have hlt' := (List.getElem?_eq_some_iff.mp hi).1
      have hlast := (h.settled i u (by rwa [List.getElem?_append_left hlt'])).1
      simp at hlast
      omega
    · cases choice <;> simp [turnFate, lostFate] at hlast
  · intro hfunc u full cancelled hlost
    rcases List.mem_append.mp hlost with hlost | hlost
    · exact h.lost hfunc u full cancelled (List.mem_append_left _ hlost)
    · rw [List.mem_singleton, Prod.mk.injEq] at hlost
      cases hselected with
      | skipped hrejects =>
          rw [haccepts] at hrejects
          cases hrejects
      | sent | handed => cases hlost.2
      | lost _ _ hfate _ hreason =>
          rw [hfate, lostFate, Fate.lost.injEq] at hlost
          rcases hreason hfunc with hfull | hdone
          · exact Or.inl (by simp [hlost.2.1, hfull])
          · exact Or.inr (hlost.2.2.trans hdone)

section Advance

variable {calls : List (DispatchCall α)} {call id j : Nat} {v : α} {rest : List Nat}
  {call' : DispatchCall α}

/-- A call that has a watcher left when one of the calls has moved on had it before. -/
theorem exists_call_of_advanced (hcall : calls[call]? = some ⟨v, j :: rest⟩)
    (hmem : call' ∈ calls.set call ⟨v, rest⟩) (hid : id ∈ call'.remaining) :
    ∃ call'' ∈ calls, id ∈ call''.remaining ∧ call''.value = call'.value := by
  rcases List.mem_or_eq_of_mem_set hmem with hold | rfl
  · exact ⟨call', hold, hid, rfl⟩
  · exact ⟨_, List.mem_of_getElem? hcall, List.mem_cons_of_mem _ hid, rfl⟩

theorem exists_advanced (hcall : calls[call]? = some ⟨v, j :: rest⟩) (hmem : call' ∈ calls)
    (hid : id ∈ call'.remaining) (hother : j = id → call'.value ≠ v) :
    ∃ call'' ∈ calls.set call ⟨v, rest⟩, call''.value = call'.value ∧ id ∈ call''.remaining := by
  obtain ⟨k, hk⟩ := List.mem_iff_getElem?.mp hmem
  by_cases hkc : k = call
  · subst hkc
    cases hcall.symm.trans hk
    rcases List.mem_cons.mp hid with rfl | hid
    · exact absurd rfl (hother rfl)
    · exact ⟨⟨v, rest⟩, List.mem_of_getElem? (getElem?_set_of_some hcall _), rfl, hid⟩
  · refine ⟨call', List.mem_of_getElem? (i := k) ?_, rfl, hid⟩
    rw [List.getElem?_set_ne (Ne.symm hkc)]
    exact hk

end Advance

theorem stream_step {id : Nat} {filter : Option (α → Bool)}
    {earlier out now : List (Output α)} {wm next : WatcherMux α} {w : Watcher α}
    {seen : List (α × Fate)} {event : Event α} (hseq : Sequential wm out)
    (h : Stream id filter earlier wm w out seen) (hone : OneDispatcher wm out event)
    (hsteps : Steps wm event next now) :
    ∃ w', Stream id filter earlier next w' (out ++ now) (observe id wm seen event) := by
  have hlt : id < wm.watchers.length := (List.getElem?_eq_some_iff.mp h.watcher).1
  have hset : ∀ {j : Nat} {u : Watcher α}, wm.watchers[j]? = some u → ∀ u' : Watcher α,
      j = id ∧ u = w ∧ (wm.watchers.set j u')[id]? = some u' ∨
        j ≠ id ∧ (wm.watchers.set j u')[id]? = some w := by
    intro j u hu u'
    by_cases hj : j = id
    · subst hj
      rw [h.watcher, Option.some.injEq] at hu
      exact Or.inl ⟨rfl, hu.symm, List.getElem?_set_self hlt⟩
    · exact Or.inr ⟨hj, by rw [List.getElem?_set_ne hj]; exact h.watcher⟩
  have hcalls : ∀ call ∈ wm.calls, id ∈ call.remaining →
      ∃ call' ∈ wm.calls, id ∈ call'.remaining ∧ call'.value = call.value :=
    fun call hcall hid => ⟨call, hcall, hid, rfl⟩
  have hback : ∀ call ∈ wm.calls, id ∈ call.remaining → w.accepts call.value = true →
      ∃ call' ∈ wm.calls, call'.value = call.value ∧ id ∈ call'.remaining :=
    fun call hcall hid _ => ⟨call, hcall, rfl, hid⟩
  cases hsteps with
  | watched filter' =>
      refine ⟨w, h.keep ?_ rfl rfl rfl hcalls hback rfl⟩
      rw [List.getElem?_append_left hlt]
      exact h.watcher
  | cancelled j u hu =>
      rcases hset hu { u with doneCh := true, chClosed := true, registered := false } with
        ⟨rfl, rfl, hget⟩ | ⟨-, hget⟩
      · exact ⟨_, h.keep hget rfl rfl rfl hcalls hback rfl⟩
      · exact ⟨w, h.keep hget rfl rfl rfl hcalls hback rfl⟩
  | snapshot v order hperm => exact ⟨w, stream_snapshot hseq h hone hperm⟩
  | selected call j v rest u u' choice hcall hu hselect =>
      have hselected := selected_of_selectOne hselect
      have hadvanced : ∀ call' ∈ wm.calls.set call ⟨v, rest⟩, id ∈ call'.remaining →
          ∃ call'' ∈ wm.calls, id ∈ call''.remaining ∧ call''.value = call'.value :=
        fun _ => exists_call_of_advanced hcall
      have hbackAdvanced : (j = id → w.accepts v = false) →
          ∀ call' ∈ wm.calls, id ∈ call'.remaining → w.accepts call'.value = true →
            ∃ call'' ∈ wm.calls.set call ⟨v, rest⟩,
              call''.value = call'.value ∧ id ∈ call''.remaining := by
        intro hother call' hcall' hid haccepts
        refine exists_advanced hcall hcall' hid fun hj hvalue => ?_
        rw [hvalue, hother hj] at haccepts
        cases haccepts
      have hnone := dispatched_selected j v choice
      rcases hset hu u' with ⟨rfl, rfl, hget⟩ | ⟨hj, hget⟩
      · by_cases haccepts : u.accepts v = true
        · exact ⟨u', stream_turn hseq h hcall haccepts hselected⟩
        · have hkept : observe j wm seen (.select call choice) = seen := by
            simp [observe, hcall, hu, haccepts]
          rw [hkept]
          cases hselected with
          | skipped hrejects =>
              exact ⟨u, h.keep hget rfl rfl hnone hadvanced
                (hbackAdvanced fun _ => hrejects) rfl⟩
          | sent haccepts' | handed haccepts' | lost _ haccepts' =>
              exact absurd haccepts' haccepts
      · have hkept : observe id wm seen (.select call choice) = seen := by
          simp [observe, hcall, h.watcher, hj]
        rw [hkept]
        refine ⟨w, h.keep hget rfl ?_ hnone hadvanced
          (hbackAdvanced fun hid => absurd hid hj) rfl⟩
        unfold selected
        split <;> simp [receivedBy, hj]
  | received j v u ch hu hch =>
      rcases hset hu { u with ch := ch } with ⟨rfl, rfl, hget⟩ | ⟨hj, hget⟩
      · refine ⟨_, h.keep hget rfl ?_ rfl hcalls hback rfl⟩
        simp [receivedBy, hch]
      · refine ⟨w, h.keep hget rfl ?_ rfl hcalls hback rfl⟩
        simp [receivedBy, hj]
  | closing order => exact ⟨w, h.keep h.watcher rfl rfl rfl hcalls hback rfl⟩
  | closedNext j rest u hclosing hu =>
      rcases hset hu { u with chClosed := true } with ⟨rfl, rfl, hget⟩ | ⟨-, hget⟩
      · exact ⟨_, h.keep hget rfl rfl rfl hcalls hback rfl⟩
      · exact ⟨w, h.keep hget rfl rfl rfl hcalls hback rfl⟩
  | closed => exact ⟨w, h.keep h.watcher rfl rfl rfl hcalls hback rfl⟩

/-! ## Runs -/

/-- Nobody has heard of the watcher when it is registered. -/
theorem stream_watch {wm : WatcherMux α} {out : List (Output α)}
    (h : Sequential wm out) (filter : Option (α → Bool)) :
    Stream wm.watchers.length filter out
      { wm with watchers := wm.watchers ++ [⟨[], false, false, filter, true⟩] }
      ⟨[], false, false, filter, true⟩ out [] := by
  refine ⟨by simp, rfl, ⟨[], by simp, by simp [dispatched]⟩, ?_, ?_, by simp, by simp⟩
  · have hnone : receivedBy wm.watchers.length out = [] := by
      rw [receivedBy, List.filterMap_eq_nil_iff]
      intro o ho
      cases o with
      | received id v =>
          have := h.received id v ho
          simp
          omega
      | dispatched | selected => rfl
    rw [hnone]
    rfl
  · intro call hcall hid
    exact absurd (h.known call hcall _ hid) (Nat.lt_irrefl _)

theorem dispatchFunc_run {wm last : WatcherMux α} {events : List (Event α)}
    {out : List (Output α)} (hrun : run step wm events = .ok (last, out)) :
    last.dispatchFunc = wm.dispatchFunc := by
  refine run_invariant (fun s => s.dispatchFunc = wm.dispatchFunc) ?_ rfl hrun
  intro s event next now _ hs hstep
  cases steps_of_step_eq_ok hstep <;> exact hs

theorem sequential_run {channelBufferSize : Nat} {dispatchFunc : DispatchFunc}
    {last : WatcherMux α} {events : List (Event α)} {out : List (Output α)}
    (hone : Along step OneDispatcher (new channelBufferSize dispatchFunc) [] events)
    (hrun : run step (new channelBufferSize dispatchFunc) events = .ok (last, out)) :
    Sequential last out := by
  have hstep : ∀ (s : WatcherMux α) now event next now', Sequential s now →
      OneDispatcher s now event → step s event = .ok (next, now') →
      Sequential next (now ++ now') := fun _ _ _ _ _ hs hcond hstep =>
    sequential_step hs hcond (steps_of_step_eq_ok hstep)
  simpa using run_induction Sequential (sequential_new channelBufferSize dispatchFunc)
    hstep hone hrun

/-- The record of the observer is sound from the registration on. -/
theorem stream_run {wm last : WatcherMux α} {filter : Option (α → Bool)}
    {events : List (Event α)} {out later : List (Output α)} (h : Sequential wm out)
    (hone : Along step OneDispatcher wm out (.watch filter :: events))
    (hrun : run step wm (.watch filter :: events) = .ok (last, later)) :
    ∃ w, Stream wm.watchers.length filter out last w (out ++ later)
      (history wm.watchers.length wm (.watch filter :: events)) := by
  obtain ⟨next, now, rest, hwatch, hrest, rfl⟩ := run_cons_eq_ok.mp hrun
  cases hwatch
  have hregistered : Sequential
      { wm with watchers := wm.watchers ++ [⟨[], false, false, filter, true⟩] } out := by
    simpa using sequential_step h hone.1 (.watched filter)
  have hone' : Along step OneDispatcher
      { wm with watchers := wm.watchers ++ [⟨[], false, false, filter, true⟩] } out
      events := by
    simpa [step] using hone.2
  refine (observed_induction
    (fun s now seen => Sequential s now ∧
      ∃ w, Stream wm.watchers.length filter out s w now seen)
    ⟨hregistered, _, stream_watch h filter⟩ ?_ hone' hrest).2
  rintro s now seen event next now' ⟨hseq, w, hstream⟩ hcond hstep
  have hsteps := steps_of_step_eq_ok hstep
  exact ⟨sequential_step hseq hcond hsteps, stream_step hseq hstream hcond hsteps⟩

/--
While one goroutine dispatches, a watcher receives values in the order of their
dispatches and each dispatch at most once, among those after its registration
that its filter accepts.  What was delivered is received or still in its buffer.
A dispatch that does not block loses a value only if, in the turn of the watcher,
the buffer is full or the watcher is cancelled.  Only the value of the last call can
have neither been delivered nor lost, and only while that call has the watcher left.
-/
theorem received_in_dispatch_order (channelBufferSize : Nat)
    (dispatchFunc : DispatchFunc) (filter : Option (α → Bool))
    (before after : List (Event α)) (registering last : WatcherMux α)
    (earlier out : List (Output α))
    (hbefore : run step (new channelBufferSize dispatchFunc) before =
      .ok (registering, earlier))
    (hrun : run step (new channelBufferSize dispatchFunc)
      (before ++ .watch filter :: after) = .ok (last, out))
    (hone : Along step OneDispatcher (new channelBufferSize dispatchFunc) []
      (before ++ .watch filter :: after)) :
    ∃ w later, last.watchers[registering.watchers.length]? = some w ∧
      w.filter = filter ∧ out = earlier ++ later ∧
      (receivedBy registering.watchers.length out).Sublist
        ((dispatched later).filter w.accepts) ∧
      (history registering.watchers.length registering
        (.watch filter :: after)).map Prod.fst = (dispatched later).filter w.accepts ∧
      receivedBy registering.watchers.length out ++ w.ch =
        delivered (history registering.watchers.length registering
          (.watch filter :: after)) ∧
      (dispatchFunc = .nonBlocking → ∀ v full cancelled,
        (v, .lost full cancelled) ∈ history registering.watchers.length registering
          (.watch filter :: after) → full = true ∨ cancelled = true) ∧
      ∀ i v, (history registering.watchers.length registering
          (.watch filter :: after))[i]? = some (v, .waiting) →
        i + 1 = (history registering.watchers.length registering
          (.watch filter :: after)).length ∧
        ∃ call, last.calls.getLast? = some call ∧ call.value = v ∧
          registering.watchers.length ∈ call.remaining := by
  obtain ⟨_, _, later, hbefore', hafter, rfl⟩ := run_append_eq_ok.mp hrun
  cases hbefore.symm.trans hbefore'
  have hone' : Along step OneDispatcher registering earlier (.watch filter :: after) := by
    simpa using hone.rest hbefore
  have hsequential := sequential_run hone hrun
  obtain ⟨w, hstream⟩ :=
    stream_run (sequential_run hone.of_append hbefore) hone' hafter
  obtain ⟨later', hlater, hvalues⟩ := hstream.values
  rw [List.append_cancel_left_eq] at hlater
  subst hlater
  refine ⟨w, later, hstream.watcher, hstream.filter_eq, rfl, ?_, hvalues,
    hstream.delivered, ?_, ?_⟩
  · rw [← hvalues]
    refine (List.sublist_append_left _ w.ch).trans ?_
    rw [hstream.delivered]
    exact delivered_sublist _
  · intro hfunc
    apply hstream.lost
    rw [dispatchFunc_run hrun]
    exact hfunc
  · intro i v hi
    obtain ⟨hlast, call, hcall, hvalue, hid⟩ := hstream.settled i v hi
    refine ⟨hlast, call, ?_, hvalue, hid⟩
    obtain ⟨k, hk⟩ := List.mem_iff_getElem?.mp hcall
    have hlength := hsequential.last_only k call hk (List.ne_nil_of_mem hid)
    rw [List.getLast?_eq_getElem?, ← hlength]
    exact hk

/-- The buffers hold one value; the first watcher never receives. -/
def exampleBefore : List (Event Nat) := [.watch none, .snapshot 7 [0], .select 0 .send]

def exampleAfter : List (Event Nat) :=
  [.snapshot 1 [1, 0], .select 1 .send, .select 1 .default,
    .snapshot 2 [0, 1], .select 2 .default, .select 2 .default, .receive 1,
    .snapshot 3 [1, 0], .select 3 .skip, .select 3 .default,
    .snapshot 4 [1, 0], .cancel 1, .select 4 .done, .select 4 .default]

theorem received_in_dispatch_order_two_watchers :
    ∃ registering last earlier out,
      run step (new 1 .nonBlocking) exampleBefore = .ok (registering, earlier) ∧
      run step (new 1 .nonBlocking)
        (exampleBefore ++ .watch (some (· ≠ 3)) :: exampleAfter) = .ok (last, out) ∧
      Along step OneDispatcher (new 1 .nonBlocking) []
        (exampleBefore ++ .watch (some (· ≠ 3)) :: exampleAfter) ∧
      receivedBy 1 out = [1] ∧
      history registering.watchers.length registering
        (.watch (some (· ≠ 3)) :: exampleAfter) =
          [(1, .delivered), (2, .lost true false), (4, .lost false true)] ∧
      ∃ (w : Watcher Nat) (later : List (Output Nat)), out = earlier ++ later ∧
        (receivedBy registering.watchers.length out).Sublist
          ((dispatched later).filter w.accepts) := by
  obtain ⟨⟨registering, earlier⟩, hbefore, hhistory⟩ :
      Returns (run step (new 1 .nonBlocking) exampleBefore) fun result =>
        history result.1.watchers.length result.1
          (.watch (some (· ≠ 3)) :: exampleAfter) =
            [(1, .delivered), (2, .lost true false), (4, .lost false true)] :=
    ⟨_, rfl, by decide⟩
  obtain ⟨⟨last, out⟩, hrun, hreceived⟩ :
      Returns (run step (new 1 .nonBlocking)
        (exampleBefore ++ .watch (some (· ≠ 3)) :: exampleAfter)) fun result =>
          receivedBy 1 result.2 = [1] :=
    ⟨_, rfl, by decide⟩
  have hone : Along step OneDispatcher (new 1 .nonBlocking) []
      (exampleBefore ++ .watch (some (· ≠ 3)) :: exampleAfter) := by
    decide
  obtain ⟨w, later, -, -, hout, hsublist, -⟩ :=
    received_in_dispatch_order 1 .nonBlocking _ _ _ _ _ _ _ hbefore hrun hone
  exact ⟨registering, last, earlier, out, hbefore, hrun, hone, hreceived, hhistory,
    w, later, hout, hsublist⟩

end Udplb.Util.WatcherMux
