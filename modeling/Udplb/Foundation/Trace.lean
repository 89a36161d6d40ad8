import Udplb.Foundation.Result

/-!
# Finite runs of a fallible system with outputs

`step` consumes one event, and either stops the system or returns the next
state together with what the system emitted on the way.  `run` feeds a finite
list of events and concatenates the outputs.  A property of every run is
obtained from one statement about a single step.
-/

namespace Udplb.Foundation

universe u v

variable {ε : Type u} {σ α ω : Type v}

def run (step : σ → α → Except ε (σ × List ω)) :
    σ → List α → Except ε (σ × List ω)
  | state, [] => .ok (state, [])
  | state, event :: events => do
      let (next, now) ← step state event
      let (last, later) ← run step next events
      .ok (last, now ++ later)

variable {step : σ → α → Except ε (σ × List ω)} {state last : σ}

@[simp] theorem run_nil : run step state [] = .ok (state, []) := rfl

theorem run_cons_eq_ok {event : α} {events : List α} {out : List ω} :
    run step state (event :: events) = .ok (last, out) ↔
      ∃ next now later, step state event = .ok (next, now) ∧
        run step next events = .ok (last, later) ∧ out = now ++ later := by
  simp only [run, bind_eq_ok, Prod.exists]
  constructor
  · rintro ⟨next, now, hstep, last', later, hrun, heq⟩
    cases heq
    exact ⟨next, now, later, hstep, hrun, rfl⟩
  · rintro ⟨next, now, later, hstep, hrun, rfl⟩
    exact ⟨next, now, hstep, last, later, hrun, rfl⟩

theorem run_cons_eq_error {event : α} {events : List α} {err : ε} :
    run step state (event :: events) = .error err ↔
      step state event = .error err ∨
        ∃ next now, step state event = .ok (next, now) ∧
          run step next events = .error err := by
  simp only [run, bind_eq_error, Prod.exists]
  constructor
  · rintro (h | ⟨next, now, hstep, h | ⟨last, later, -, h⟩⟩)
    · exact Or.inl h
    · exact Or.inr ⟨next, now, hstep, h⟩
    · cases h
  · rintro (h | ⟨next, now, hstep, h⟩)
    · exact Or.inl h
    · exact Or.inr ⟨next, now, hstep, Or.inl h⟩

theorem run_append_eq_ok {first second : List α} {out : List ω} :
    run step state (first ++ second) = .ok (last, out) ↔
      ∃ middle now later, run step state first = .ok (middle, now) ∧
        run step middle second = .ok (last, later) ∧ out = now ++ later := by
  induction first generalizing state out with
  | nil => simp
  | cons event events ih =>
      simp only [List.cons_append, run_cons_eq_ok, ih]
      constructor
      · rintro ⟨next, now, _, hstep, ⟨middle, mid, later, hfirst, hsecond, rfl⟩, rfl⟩
        exact ⟨middle, now ++ mid, later, ⟨next, now, mid, hstep, hfirst, rfl⟩,
          hsecond, by rw [List.append_assoc]⟩
      · rintro ⟨middle, _, later, ⟨next, now, mid, hstep, hfirst, rfl⟩, hsecond, rfl⟩
        exact ⟨next, now, mid ++ later, hstep,
          ⟨middle, mid, later, hfirst, hsecond, rfl⟩, by rw [List.append_assoc]⟩

theorem run_append_eq_error {first second : List α} {now : List ω} {middle : σ} {err : ε}
    (hfirst : run step state first = .ok (middle, now))
    (hsecond : run step middle second = .error err) :
    run step state (first ++ second) = .error err := by
  induction first generalizing state now with
  | nil =>
      cases hfirst
      exact hsecond
  | cons event events ih =>
      obtain ⟨next, here, later, hstep, hrest, rfl⟩ := run_cons_eq_ok.mp hfirst
      exact run_cons_eq_error.mpr (Or.inr ⟨next, here, hstep, ih hrest⟩)

/-- An invariant kept by each step that returns is kept by each run that returns. -/
theorem run_invariant (Inv : σ → Prop) {events : List α} {out : List ω}
    (hstep : ∀ s event next now, event ∈ events → Inv s →
      step s event = .ok (next, now) → Inv next)
    (hstart : Inv state) (hrun : run step state events = .ok (last, out)) :
    Inv last := by
  induction events generalizing state out with
  | nil =>
      cases hrun
      exact hstart
  | cons event events ih =>
      obtain ⟨next, now, later, hnow, hlater, rfl⟩ := run_cons_eq_ok.mp hrun
      refine ih (fun s e s' o he => hstep s e s' o (by simp [he])) ?_ hlater
      exact hstep state event next now (by simp) hstart hnow

/-- Every run returns, keeps the invariant and emits only what is allowed. -/
theorem run_returns (Inv : σ → Prop) (Allowed : ω → Prop)
    (hstep : ∀ s event, Inv s →
      Returns (step s event) fun r => Inv r.1 ∧ ∀ o ∈ r.2, Allowed o)
    (hstart : Inv state) (events : List α) :
    Returns (run step state events) fun r => Inv r.1 ∧ ∀ o ∈ r.2, Allowed o := by
  induction events generalizing state with
  | nil => exact .ok ⟨hstart, by simp⟩
  | cons event events ih =>
      obtain ⟨⟨next, now⟩, hnow, hnext, hallowed⟩ := hstep state event hstart
      obtain ⟨⟨last, later⟩, hlater, hlast, hrest⟩ := ih hnext
      refine ⟨(last, now ++ later),
        run_cons_eq_ok.mpr ⟨next, now, later, hnow, hlater, rfl⟩, hlast, ?_⟩
      intro o ho
      rcases List.mem_append.mp ho with ho | ho
      · exact hallowed o ho
      · exact hrest o ho

/-- The step that emitted a given output, when steps emit one output at most. -/
theorem run_emits {events : List α} {earlier later : List ω} {o : ω}
    (hstep : ∀ s event next now, step s event = .ok (next, now) → now.length ≤ 1)
    (hrun : run step state events = .ok (last, earlier ++ o :: later)) :
    ∃ before event after middle next, events = before ++ event :: after ∧
      run step state before = .ok (middle, earlier) ∧
      step middle event = .ok (next, [o]) := by
  induction events generalizing state earlier with
  | nil => simp [run] at hrun
  | cons event events ih =>
      obtain ⟨next, now, rest, hnow, hrest, hout⟩ := run_cons_eq_ok.mp hrun
      match now, hstep _ _ _ _ hnow with
      | [], _ =>
          rw [List.nil_append] at hout
          subst hout
          obtain ⟨before, event', after, middle, next', rfl, hbefore, hemit⟩ := ih hrest
          exact ⟨event :: before, event', after, middle, next', rfl,
            run_cons_eq_ok.mpr ⟨next, [], _, hnow, hbefore, rfl⟩, hemit⟩
      | [first], _ =>
          cases earlier with
          | nil =>
              cases hout
              exact ⟨[], event, events, state, next, rfl, rfl, hnow⟩
          | cons e earlier =>
              cases hout
              obtain ⟨before, event', after, middle, next', rfl, hbefore, hemit⟩ :=
                ih hrest
              exact ⟨event :: before, event', after, middle, next', rfl,
                run_cons_eq_ok.mpr ⟨next, [first], _, hnow, hbefore, rfl⟩, hemit⟩

/-! ## Runs whose steps meet a condition -/

/-- `Cond` holds of every event, in the state and after the output it meets. -/
def Along (step : σ → α → Except ε (σ × List ω))
    (Cond : σ → List ω → α → Prop) : σ → List ω → List α → Prop
  | _, _, [] => True
  | state, out, event :: events =>
      Cond state out event ∧
        match step state event with
        | .ok (next, now) => Along step Cond next (out ++ now) events
        | .error _ => True

instance Along.decidable (Cond : σ → List ω → α → Prop)
    [∀ state out event, Decidable (Cond state out event)] :
    ∀ state out events, Decidable (Along step Cond state out events)
  | _, _, [] => inferInstanceAs (Decidable True)
  | state, out, event :: events =>
      match hstep : step state event with
      | .ok (next, now) =>
          have := Along.decidable Cond next (out ++ now) events
          decidable_of_iff (Cond state out event ∧
            Along step Cond next (out ++ now) events) (by rw [Along, hstep])
      | .error _ =>
          decidable_of_iff (Cond state out event) (by simp [Along, hstep])

variable {Cond : σ → List ω → α → Prop} {out : List ω}

theorem Along.of_forall {events : List α}
    (h : ∀ s now event, event ∈ events → Cond s now event) :
    Along step Cond state out events := by
  induction events generalizing state out with
  | nil => trivial
  | cons event events ih =>
      refine ⟨h _ _ event (by simp), ?_⟩
      split
      · exact ih fun s now event' hmem => h s now event' (by simp [hmem])
      · trivial

theorem Along.and {Cond' : σ → List ω → α → Prop} {events : List α}
    (h : Along step Cond state out events) (h' : Along step Cond' state out events) :
    Along step (fun s now event => Cond s now event ∧ Cond' s now event) state out
      events := by
  induction events generalizing state out with
  | nil => trivial
  | cons event events ih =>
      obtain ⟨hcond, hrest⟩ := h
      obtain ⟨hcond', hrest'⟩ := h'
      refine ⟨⟨hcond, hcond'⟩, ?_⟩
      cases hstep : step state event with
      | error err => trivial
      | ok result =>
          rw [hstep] at hrest hrest'
          exact ih hrest hrest'

theorem Along.of_run {first rest : List α} {event : α} {now : List ω}
    (h : Along step Cond state out (first ++ event :: rest))
    (hrun : run step state first = .ok (last, now)) :
    Along step Cond state out first ∧ Cond last (out ++ now) event := by
  induction first generalizing state out now with
  | nil =>
      cases hrun
      rw [List.append_nil]
      exact ⟨trivial, h.1⟩
  | cons head tail ih =>
      obtain ⟨next, here, later, hhead, htail, rfl⟩ := run_cons_eq_ok.mp hrun
      obtain ⟨hcond, hrest⟩ := h
      rw [hhead] at hrest
      obtain ⟨hfirst, hlast⟩ := ih hrest htail
      rw [← List.append_assoc]
      exact ⟨⟨hcond, by rw [hhead]; exact hfirst⟩, hlast⟩

/-- The condition holds along the rest from where the first part leads to. -/
theorem Along.append {first rest : List α}
    (hfirst : Along step Cond state out first)
    (hrest : ∀ middle now, run step state first = .ok (middle, now) →
      Along step Cond middle (out ++ now) rest) :
    Along step Cond state out (first ++ rest) := by
  induction first generalizing state out with
  | nil => simpa using hrest state []
  | cons event events ih =>
      obtain ⟨hcond, halong⟩ := hfirst
      refine ⟨hcond, ?_⟩
      cases hstep : step state event with
      | error err => trivial
      | ok result =>
          obtain ⟨next, now⟩ := result
          rw [hstep] at halong
          apply ih halong
          intro middle later hrun
          rw [List.append_assoc]
          exact hrest middle (now ++ later)
            (run_cons_eq_ok.mpr ⟨next, now, later, hstep, hrun, rfl⟩)

theorem Along.of_append {first rest : List α}
    (h : Along step Cond state out (first ++ rest)) :
    Along step Cond state out first := by
  induction first generalizing state out with
  | nil => trivial
  | cons event events ih =>
      obtain ⟨hcond, halong⟩ := h
      refine ⟨hcond, ?_⟩
      cases hstep : step state event with
      | error err => trivial
      | ok result =>
          rw [hstep] at halong
          exact ih halong

theorem Along.rest {first rest : List α} {now : List ω}
    (h : Along step Cond state out (first ++ rest))
    (hrun : run step state first = .ok (last, now)) :
    Along step Cond last (out ++ now) rest := by
  induction first generalizing state out now with
  | nil =>
      cases hrun
      rw [List.append_nil]
      exact h
  | cons head tail ih =>
      obtain ⟨next, here, later, hhead, htail, rfl⟩ := run_cons_eq_ok.mp hrun
      obtain ⟨-, hrest⟩ := h
      rw [hhead] at hrest
      rw [← List.append_assoc]
      exact ih hrest htail

/-- Where the condition does not hold along a run, it fails at some first event. -/
theorem Along.exists_failure {events : List α}
    (h : ¬Along step Cond state out events) :
    ∃ first event rest middle now, events = first ++ event :: rest ∧
      run step state first = .ok (middle, now) ∧
      Along step Cond state out first ∧ ¬Cond middle (out ++ now) event := by
  induction events generalizing state out with
  | nil => exact absurd trivial h
  | cons event events ih =>
      by_cases hcond : Cond state out event
      · cases hstep : step state event with
        | error err => exact absurd ⟨hcond, by rw [hstep]; trivial⟩ h
        | ok result =>
            obtain ⟨next, now⟩ := result
            have hrest : ¬Along step Cond next (out ++ now) events := by
              intro halong
              exact h ⟨hcond, by rw [hstep]; exact halong⟩
            obtain ⟨first, event', rest, middle, later, rfl, hrun, hfirst, hfail⟩ :=
              ih hrest
            refine ⟨event :: first, event', rest, middle, now ++ later, rfl,
              run_cons_eq_ok.mpr ⟨next, now, later, hstep, hrun, rfl⟩,
              ⟨hcond, by rw [hstep]; exact hfirst⟩, ?_⟩
            rw [← List.append_assoc]
            exact hfail
      · refine ⟨[], event, events, state, [], rfl, rfl, trivial, ?_⟩
        rw [List.append_nil]
        exact hcond

/-- A run stops only with the errors that steps meeting `Cond` stop with. -/
theorem run_errors (Inv : σ → List ω → Prop) (Allowed : ε → Prop) {events : List α}
    {err : ε} (hstart : Inv state out)
    (hstep : ∀ s now event, Inv s now → Cond s now event →
      (∀ err, step s event = .error err → Allowed err) ∧
        ∀ next now', step s event = .ok (next, now') → Inv next (now ++ now'))
    (halong : Along step Cond state out events)
    (hrun : run step state events = .error err) : Allowed err := by
  induction events generalizing state out with
  | nil => cases hrun
  | cons event events ih =>
      obtain ⟨hcond, halong⟩ := halong
      obtain ⟨hallowed, hkeep⟩ := hstep state out event hstart hcond
      rcases run_cons_eq_error.mp hrun with herr | ⟨next, now, hevent, hrest⟩
      · exact hallowed err herr
      · rw [hevent] at halong
        exact ih (hkeep next now hevent) halong hrest

/-- The outputs of one kind follow the events of one kind. -/
theorem run_filterMap {β : Type v} (Inv : σ → Prop) (f : ω → Option β)
    (g : α → Option β) {events : List α} {out : List ω} (hstart : Inv state)
    (hstep : ∀ s event next now, Inv s → step s event = .ok (next, now) →
      Inv next ∧ now.filterMap f = (g event).toList)
    (hrun : run step state events = .ok (last, out)) :
    out.filterMap f = events.filterMap g := by
  induction events generalizing state out with
  | nil =>
      cases hrun
      rfl
  | cons event events ih =>
      obtain ⟨next, now, later, hevent, hrest, rfl⟩ := run_cons_eq_ok.mp hrun
      obtain ⟨hnext, hnow⟩ := hstep _ _ _ _ hstart hevent
      rw [List.filterMap_append, hnow, ih hnext hrest]
      cases hg : g event <;> simp [hg]

/--
A view of the outputs that grows with them: what the events say is seen in their
order, except for what the state still holds back.
-/
theorem run_fifo {β : Type v} (view : List ω → List β)
    (happend : ∀ first second, view (first ++ second) = view first ++ view second)
    (held : σ → List β) (g : α → Option β) {events : List α} {out : List ω}
    (hstep : ∀ s event next now, step s event = .ok (next, now) →
      view now ++ held next = held s ++ (g event).toList)
    (hrun : run step state events = .ok (last, out)) :
    view out ++ held last = held state ++ events.filterMap g := by
  induction events generalizing state out with
  | nil =>
      cases hrun
      have hnil : view [] = [] := by simpa using happend [] []
      simp [hnil]
  | cons event events ih =>
      obtain ⟨next, now, later, hfirst, hrest, rfl⟩ := run_cons_eq_ok.mp hrun
      rw [happend, List.append_assoc, ih hrest, ← List.append_assoc, hstep _ _ _ _ hfirst,
        List.append_assoc]
      cases hg : g event <;> simp [hg]

theorem run_view {β : Type v} (view : List ω → List β)
    (happend : ∀ first second, view (first ++ second) = view first ++ view second)
    (g : α → Option β) {events : List α} {out : List ω}
    (hstep : ∀ s event next now, step s event = .ok (next, now) →
      view now = (g event).toList)
    (hrun : run step state events = .ok (last, out)) :
    view out = events.filterMap g := by
  have h := run_fifo view happend (fun _ => []) g
    (fun s event next now hevent => by simpa using hstep s event next now hevent) hrun
  simpa using h

/-- An invariant of state and output, kept by each step that meets `Cond`. -/
theorem run_induction (Inv : σ → List ω → Prop) {events : List α} {later : List ω}
    (hstart : Inv state out)
    (hstep : ∀ s now event next now', Inv s now → Cond s now event →
      step s event = .ok (next, now') → Inv next (now ++ now'))
    (halong : Along step Cond state out events)
    (hrun : run step state events = .ok (last, later)) :
    Inv last (out ++ later) := by
  induction events generalizing state out later with
  | nil =>
      cases hrun
      rw [List.append_nil]
      exact hstart
  | cons event events ih =>
      obtain ⟨next, now, rest, hevent, hrest, rfl⟩ := run_cons_eq_ok.mp hrun
      obtain ⟨hcond, halong⟩ := halong
      rw [hevent] at halong
      rw [← List.append_assoc]
      exact ih (hstep _ _ event _ _ hstart hcond hevent) halong hrest

/-- An invariant of state and output that every step keeps. -/
theorem run_keeps (Inv : σ → List ω → Prop) {events : List α} {later : List ω}
    (hstart : Inv state out)
    (hstep : ∀ s now event next now', Inv s now → step s event = .ok (next, now') →
      Inv next (now ++ now'))
    (hrun : run step state events = .ok (last, later)) : Inv last (out ++ later) := by
  have halong : Along step (fun _ _ _ => True) state out events :=
    Along.of_forall fun _ _ _ _ => trivial
  refine run_induction Inv hstart ?_ halong hrun
  intro s now event next now' hinv _ hnow
  exact hstep s now event next now' hinv hnow

/-! ## Simulation -/

/-- A system that follows every step of another one follows every run of it. -/
theorem run_simulates {δ : Type u} {τ : Type v} {spec : τ → α → Except δ (τ × List ω)}
    (R : σ → τ → Prop)
    (hstep : ∀ s t event t' now, R s t → spec t event = .ok (t', now) →
      Returns (step s event) fun result => R result.1 t' ∧ result.2 = now)
    {events : List α} {t t' : τ} {out : List ω} (hstart : R state t)
    (hrun : run spec t events = .ok (t', out)) :
    Returns (run step state events) fun result => R result.1 t' ∧ result.2 = out := by
  induction events generalizing state t out with
  | nil =>
      cases hrun
      exact .ok ⟨hstart, rfl⟩
  | cons event events ih =>
      obtain ⟨mid, now, later, hnow, hlater, rfl⟩ := run_cons_eq_ok.mp hrun
      obtain ⟨⟨next, _⟩, hnext, hrelated, rfl⟩ := hstep _ _ _ _ _ hstart hnow
      obtain ⟨⟨last, _⟩, hlast, hend, rfl⟩ := ih hrelated hlater
      exact ⟨_, run_cons_eq_ok.mpr ⟨next, _, _, hnext, hlast, rfl⟩, hend, rfl⟩

section Refinement

variable {δ : Type u} {τ β ψ κ : Type v} {spec : τ → β → Except δ (τ × List ψ)}

/-- A step that leaves `t'` of `t` and lets `seen` be seen: no step of `spec`, or one. -/
inductive Shows (spec : τ → β → Except δ (τ × List ψ)) (obs : List ψ → List κ) (t t' : τ)
    (seen : List κ) : Option β → Prop
  | hidden (hview : t' = t) (hseen : seen = []) : Shows spec obs t t' seen none
  | shown (event : β) (out : List ψ) (hstep : spec t event = .ok (t', out))
      (hseen : seen = obs out) : Shows spec obs t t' seen (some event)

/-- What is seen of a run is seen of a run of `spec` that meets the same conditions. -/
theorem run_refines (view : σ → τ) (obs : List ω → List κ) (obs' : List ψ → List κ)
    (happend : ∀ first second, obs (first ++ second) = obs first ++ obs second)
    (happend' : ∀ first second, obs' (first ++ second) = obs' first ++ obs' second)
    {Cond : σ → List ω → α → Prop} {Cond' : τ → List ψ → β → Prop} (g : σ → α → Option β)
    (hstep : ∀ s event next now, step s event = .ok (next, now) →
      Shows spec obs' (view s) (view next) (obs now) (g s event))
    (hcond : ∀ s before before' event e, g s event = some e → Cond s before event →
      Cond' (view s) before' e)
    {events : List α} {out : List ω} (hrun : run step state events = .ok (last, out)) :
    ∃ events' out', run spec (view state) events' = .ok (view last, out') ∧
      obs out = obs' out' ∧ ∀ before before', Along step Cond state before events →
        Along spec Cond' (view state) before' events' := by
  induction events generalizing state out with
  | nil =>
      cases hrun
      refine ⟨[], [], rfl, ?_, fun _ _ _ => trivial⟩
      rw [List.self_eq_append_right.mp (happend [] []),
        List.self_eq_append_right.mp (happend' [] [])]
  | cons event events ih =>
      obtain ⟨next, now, later, hevent, hrest, rfl⟩ := run_cons_eq_ok.mp hrun
      obtain ⟨rest, later', hlater, hobs, halong⟩ := ih hrest
      have hshows := hstep _ _ _ _ hevent
      generalize hg : g state event = shown at hshows
      cases hshows with
      | hidden hview hseen =>
          rw [hview] at hlater halong
          refine ⟨rest, later', hlater, ?_, ?_⟩
          · rw [happend, hseen, hobs]
            rfl
          · intro before before' h
            rw [Along, hevent] at h
            exact halong _ before' h.2
      | shown e now' hspec hseen =>
          refine ⟨e :: rest, now' ++ later', ?_, ?_, ?_⟩
          · exact run_cons_eq_ok.mpr ⟨_, _, _, hspec, hlater, rfl⟩
          · rw [happend, happend', hseen, hobs]
          · intro before before' h
            rw [Along, hevent] at h
            rw [Along, hspec]
            exact ⟨hcond _ _ _ _ _ hg h.1, halong _ _ h.2⟩

end Refinement

/-- A view that follows every step follows every run. -/
theorem run_map_view {τ : Type v} {spec : τ → α → Except ε (τ × List ω)}
    (Inv : σ → Prop) (view : σ → τ)
    (hstep : ∀ s event, Inv s →
      (step s event).map (fun result => (view result.1, result.2)) = spec (view s) event)
    (hkeep : ∀ s event next now, Inv s → step s event = .ok (next, now) → Inv next)
    (hstart : Inv state) (events : List α) :
    (run step state events).map (fun result => (view result.1, result.2)) =
      run spec (view state) events := by
  induction events generalizing state with
  | nil => rfl
  | cons event events ih =>
      have hview := hstep state event hstart
      simp only [run]
      rw [← hview]
      cases hnow : step state event with
      | error err => rfl
      | ok result =>
          obtain ⟨next, now⟩ := result
          have hrest := ih (hkeep _ _ _ _ hstart hnow)
          change (run step next events >>= _).map _ = (run spec (view next) events >>= _)
          rw [← hrest]
          cases run step next events <;> rfl

/-- The two states answer every sequence of events alike. -/
def Indistinguishable (step : σ → α → Except ε (σ × List ω)) (s t : σ) : Prop :=
  ∀ events, (run step s events).map Prod.snd = (run step t events).map Prod.snd

theorem Indistinguishable.refl (s : σ) : Indistinguishable step s s := fun _ => rfl

theorem Indistinguishable.stops {s t : σ} (h : Indistinguishable step s t) (event : α)
    {err : ε} (hstop : step s event = .error err) : step t event = .error err := by
  have hrun := h [event]
  simp only [run, hstop] at hrun
  cases hstep : step t event with
  | error err' =>
      rw [hstep] at hrun
      cases hrun
      rfl
  | ok result =>
      rw [hstep] at hrun
      cases hrun

theorem Indistinguishable.of_view (Inv : σ → Prop) {view : σ → σ}
    (hstep : ∀ s event, Inv s →
      (step s event).map (fun result => (view result.1, result.2)) = step (view s) event)
    (hkeep : ∀ s event next now, Inv s → step s event = .ok (next, now) → Inv next)
    (hstart : Inv state) : Indistinguishable step state (view state) := by
  intro events
  rw [← run_map_view Inv view hstep hkeep hstart]
  cases run step state events <;> rfl

/-! ## States with an entry for each party -/

/-- After a step of party `i`, an entry is the new one or that of another party. -/
theorem getElem?_set_cases {entries : List σ} {i j : Nat} {entry found : σ}
    (h : (entries.set i entry)[j]? = some found) :
    j = i ∧ found = entry ∨ j ≠ i ∧ entries[j]? = some found := by
  rw [List.getElem?_set] at h
  split at h
  · rename_i hij
    split at h
    · cases h
      exact Or.inl ⟨hij.symm, rfl⟩
    · cases h
  · rename_i hij
    exact Or.inr ⟨Ne.symm hij, h⟩

theorem getElem?_concat_cases {entries : List σ} {i : Nat} {entry found : σ}
    (h : (entries ++ [entry])[i]? = some found) :
    entries[i]? = some found ∨ i = entries.length ∧ found = entry := by
  rw [List.getElem?_append] at h
  split at h
  · exact Or.inl h
  · obtain ⟨hlt, hfound⟩ := List.getElem?_eq_some_iff.mp h
    simp only [List.length_singleton] at hlt
    refine Or.inr ⟨by omega, ?_⟩
    simpa using hfound.symm

theorem getElem?_set_of_some {entries : List σ} {i : Nat} {entry : σ}
    (h : entries[i]? = some entry) (entry' : σ) :
    (entries.set i entry')[i]? = some entry' :=
  List.getElem?_set_self (List.getElem?_eq_some_iff.mp h).1

/-! ## Observed runs -/

/-- The record of an observer that reads each event in the state it meets. -/
def observed {κ : Type v} (step : σ → α → Except ε (σ × List ω))
    (observe : σ → κ → α → κ) : σ → κ → List α → κ
  | _, record, [] => record
  | state, record, event :: events =>
      match step state event with
      | .ok (next, _) => observed step observe next (observe state record event) events
      | .error _ => record

/-- An invariant of state, output and record, kept by each step that meets `Cond`. -/
theorem observed_induction {κ : Type v} {observe : σ → κ → α → κ}
    (Inv : σ → List ω → κ → Prop) {events : List α} {later : List ω} {record : κ}
    (hstart : Inv state out record)
    (hstep : ∀ s now seen event next now', Inv s now seen → Cond s now event →
      step s event = .ok (next, now') → Inv next (now ++ now') (observe s seen event))
    (halong : Along step Cond state out events)
    (hrun : run step state events = .ok (last, later)) :
    Inv last (out ++ later) (observed step observe state record events) := by
  induction events generalizing state out later record with
  | nil =>
      cases hrun
      rw [List.append_nil]
      exact hstart
  | cons event events ih =>
      obtain ⟨next, now, rest, hevent, hrest, rfl⟩ := run_cons_eq_ok.mp hrun
      obtain ⟨hcond, halong⟩ := halong
      rw [hevent] at halong
      rw [← List.append_assoc, observed, hevent]
      exact ih (hstep _ _ _ event _ _ hstart hcond hevent) halong hrest

/-- The record of a run in two parts is continued from that of the first. -/
theorem observed_append {κ : Type v} {observe : σ → κ → α → κ} {first rest : List α}
    {now : List ω} {record : κ} (hrun : run step state first = .ok (last, now)) :
    observed step observe state record (first ++ rest) =
      observed step observe last (observed step observe state record first) rest := by
  induction first generalizing state record now with
  | nil =>
      cases hrun
      rfl
  | cons event events ih =>
      obtain ⟨next, here, later, hevent, hrest, rfl⟩ := run_cons_eq_ok.mp hrun
      rw [List.cons_append, observed, observed, hevent]
      exact ih hrest

/-- A record that is only ever appended to. -/
theorem isPrefix_observed {τ : Type v} {observe : σ → List τ → α → List τ}
    (hgrows : ∀ s record event, record <+: observe s record event) (record : List τ)
    (events : List α) : record <+: observed step observe state record events := by
  induction events generalizing state record with
  | nil => exact List.prefix_rfl
  | cons event events ih =>
      rw [observed]
      split
      · exact (hgrows _ record event).trans (ih _)
      · exact List.prefix_rfl

/--
What holds of every run whose steps meet `Cond` holds of a run, of its parts and
of their continuations by `Later` steps, if and only if the run's steps meet
`Cond`: provided that `Later` steps meet it, and that a part that leads to a
violation can be continued to a run of which it does not hold.
-/
theorem safe_iff_along (Safe : Except ε (σ × List ω) → Prop) (Later : α → Prop)
    {events : List α} (hlater : ∀ s now event, Later event → Cond s now event)
    (hsound : ∀ events, Along step Cond state [] events → Safe (run step state events))
    (hviolated : ∀ first event rest middle now, events = first ++ event :: rest →
      run step state first = .ok (middle, now) → Along step Cond state [] first →
      ¬Cond middle now event →
        ∃ more later, more <+: [event] ∧ (∀ e ∈ later, Later e) ∧
          ¬Safe (run step state (first ++ (more ++ later)))) :
    (∀ first later, first <+: events → (∀ e ∈ later, Later e) →
      Safe (run step state (first ++ later))) ↔ Along step Cond state [] events := by
  constructor
  · intro hsafe
    by_contra hnot
    obtain ⟨first, event, rest, middle, now, hevents, hrun, hfirst, hfail⟩ :=
      Along.exists_failure hnot
    obtain ⟨more, later, hmore, hlater', hunsafe⟩ :=
      hviolated first event rest middle now hevents hrun hfirst hfail
    rw [← List.append_assoc] at hunsafe
    apply hunsafe
    apply hsafe (first ++ more) later _ hlater'
    rw [hevents]
    exact (List.prefix_append_right_inj first).mpr
      (hmore.trans (List.prefix_append [event] rest))
  · rintro halong first later ⟨rest, rfl⟩ hmore
    apply hsound
    apply halong.of_append.append
    intro middle now _
    apply Along.of_forall
    intro s now' event hevent
    exact hlater s now' event (hmore event hevent)

end Udplb.Foundation
