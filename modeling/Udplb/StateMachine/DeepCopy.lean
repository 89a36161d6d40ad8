import Udplb.StateMachine.Counting
import Udplb.StateMachine.Memory

/-!
# Deep copies

The copy of a machine holds memory of its own, so that neither of the two is
changed by what the other one is told.  Whether they answer alike depends on what
they stand for: the copy of a nil map is an empty one, which can be written to,
and the copy of a counter is not allowed to overflow.
-/

namespace Udplb.StateMachine

open Udplb.Foundation

/-- A machine in memory, with the contents of what `State` returns. -/
structure Machine (C O T U : Type) where
  execute : List C × O → Command → T → Except Panic ((List C × O) × Option Error)
  state : List C × O → U
  deepCopy : List C × O → List C × O

namespace Machine

variable {C O S T U : Type} (machine : Machine C O T U)

def answer : List C × O → Command × T → Except Panic ((List C × O) × List (Answer U)) :=
  StateMachine.answer machine.execute machine.state

/-- The copy answers every sequence of commands as the original would. -/
def Faithful (x : List C × O) : Prop :=
  Indistinguishable machine.answer ((machine.deepCopy x).1, x.2) (machine.deepCopy x)

/-- No command to the original changes the state of the copy, or the other way round. -/
def Unshared (x : List C × O) : Prop :=
  Independent machine.answer machine.state (machine.deepCopy x).1 x.2 (machine.deepCopy x).2

structure Models (objects : Objects C O S)
    (execute : S → Command → T → Except Panic (S × Option Error)) (state : S → U)
    (deepCopy : S → S) : Prop where
  execute : ∀ x verb obj, objects.Valid x →
    objects.Follows x (machine.execute x verb obj) (execute (objects.value x) verb obj)
  state : ∀ x, machine.state x = state (objects.value x)
  deepCopy : objects.Copies machine.deepCopy deepCopy

variable {machine} {objects : Objects C O S}
  {execute : S → Command → T → Except Panic (S × Option Error)} {state : S → U}
  {deepCopy : S → S}

theorem Models.implements (h : machine.Models objects execute state deepCopy) :
    objects.Implements machine.answer (StateMachine.answer execute state) := by
  rw [Machine.answer, funext h.state]
  exact answer_implements state h.execute

theorem Models.unshared (h : machine.Models objects execute state deepCopy)
    {x : List C × O} (hx : objects.Valid x) : machine.Unshared x := by
  rw [Unshared, funext h.state]
  exact h.implements.independent state (h.deepCopy.apart hx).1

theorem Models.faithful_iff (h : machine.Models objects execute state deepCopy)
    {x : List C × O} (hx : objects.Valid x) :
    machine.Faithful x ↔ Indistinguishable (StateMachine.answer execute state)
      (objects.value x) (deepCopy (objects.value x)) := by
  obtain ⟨hapart, hvalue⟩ := h.deepCopy.apart hx
  rw [← h.deepCopy.value_eq x hx, ← hvalue]
  exact h.implements.indistinguishable_iff hapart.first_valid hapart.second_valid

end Machine

/-- A view that commands and `State` do not tell apart. -/
theorem answer_view {σ T U : Type} {execute : σ → Command → T → Except Panic (σ × Option Error)}
    {state : σ → U} (view : σ → σ) (hstate : ∀ stm, state (view stm) = state stm) {stm : σ}
    {command : Command × T}
    (hexecute : execute (view stm) command.1 command.2 =
      (execute stm command.1 command.2).map fun result => (view result.1, result.2)) :
    (answer execute state stm command).map (fun result => (view result.1, result.2)) =
      answer execute state (view stm) command := by
  unfold answer
  rw [hexecute]
  cases execute stm command.1 command.2 with
  | error panic => rfl
  | ok result =>
      change _ = Except.ok (view result.1, [Answer.mk result.2 (state (view result.1))])
      rw [hstate]
      rfl

/-! ## Array -/

def ArrayObject.machine {T : Type} (runtime : Runtime T) :
    Machine (List T) (ArrayObject T) T (Option (List T)) where
  execute := execute runtime
  state x := Slice.objects.value (stateCopy x)
  deepCopy := deepCopy

theorem ArrayObject.models {T : Type} (runtime : Runtime T) :
    (machine runtime).Models objects Array.execute Array.stateCopy Array.deepCopy where
  execute _ verb obj hx := execute_follows runtime hx verb obj
  state := value_stateCopy
  deepCopy := copies_array

theorem Array.execute_deepCopy {T : Type} (stm : Array T) (verb : Command) (obj : T) :
    stm.deepCopy.execute verb obj =
      (stm.execute verb obj).map fun result => (result.1.deepCopy, result.2) := by
  obtain ⟨state, filter⟩ := stm
  cases verb with
  | append => rfl
  | put =>
      cases filter with
      | none => rfl
      | some filter => cases state <;> rfl
  | delete =>
      cases filter with
      | none => rfl
      | some filter =>
          simp only [execute, executeDelete, deepCopy, stateCopy, Option.getD_some]
          cases (state.getD []).findIdx? (filter obj) <;> rfl
  | add | subtract | other => rfl

theorem Array.deepCopy_indistinguishable {T : Type} (stm : Array T) :
    Indistinguishable (answer execute stateCopy) stm stm.deepCopy := by
  apply Indistinguishable.of_view (fun _ => True) _ (fun _ _ _ _ _ _ => trivial) trivial
  intro stm command _
  exact answer_view deepCopy (fun _ => rfl) (execute_deepCopy stm command.1 command.2)

/-! ## Maps and sets -/

section Maps

variable {E K V : Type}

theorem copyMap_of_isSome {state : NilableMap K V} (h : state.isSome) : copyMap state = state := by
  obtain ⟨entries, rfl⟩ := Option.isSome_iff_exists.mp h
  rfl

variable [DecidableEq K]

def HashmapObject.machine : Machine (Entries K V) (HashmapObject E K V) E (NilableMap K V) where
  execute := execute
  state x := MapRef.objects.value (stateCopy x)
  deepCopy := deepCopy

theorem HashmapObject.models :
    (machine (E := E) (K := K) (V := V)).Models objects Hashmap.execute
      (fun stm => copyMap stm.state) Hashmap.deepCopy where
  execute _ verb obj hx := execute_follows hx verb obj
  state x := MapRef.value_copyMap (mapRef x)
  deepCopy := copies_hashmap

theorem Hashmap.execute_put {stm : Hashmap E K V} {obj : E} {k : K} {v : V}
    (h : stm.transformFunc obj = .ok (k, v)) :
    stm.execute .put obj =
      (writeEntry stm.state k v).bind fun state => .ok (stm.setState state, none) := by
  rw [execute, h]
  rfl

theorem Hashmap.execute_of_error {stm : Hashmap E K V} {obj : E} {message : String}
    (h : stm.transformFunc obj = .error message) (verb : Command) :
    stm.execute verb obj = .ok (stm, some (.transform message)) := by
  rw [execute, h]

/-- Where nothing can be transformed, the map is never written to. -/
theorem Hashmap.indistinguishable_of_errors {stm : Hashmap E K V}
    (h : ∀ obj, ∃ message, stm.transformFunc obj = .error message) :
    Indistinguishable (answer execute fun stm => copyMap stm.state) stm stm.deepCopy := by
  apply Indistinguishable.of_view
    (fun stm => ∀ obj, ∃ message, stm.transformFunc obj = .error message) _ _ h
  · intro stm command hstm
    obtain ⟨message, hmessage⟩ := hstm command.2
    have hmessage' : stm.deepCopy.transformFunc command.2 = .error message := hmessage
    apply answer_view deepCopy (fun _ => rfl)
    rw [execute_of_error hmessage, execute_of_error hmessage']
    rfl
  · intro stm command next now hstm hnext
    obtain ⟨message, hmessage⟩ := hstm command.2
    rw [answer_of_execute (execute_of_error hmessage _)] at hnext
    cases hnext
    exact hstm

theorem Hashmap.indistinguishable_deepCopy_iff (stm : Hashmap E K V) :
    Indistinguishable (answer execute fun stm => copyMap stm.state) stm stm.deepCopy ↔
      stm.state.isSome ∨ ∀ obj, ∃ message, stm.transformFunc obj = .error message := by
  constructor
  · intro h
    cases hstate : stm.state with
    | some entries => exact Or.inl rfl
    | none =>
        refine Or.inr fun obj => ?_
        cases hobj : stm.transformFunc obj with
        | error message => exact ⟨message, rfl⟩
        | ok entry =>
            -- the original panics on this entry, its copy does not
            have hstop : stm.execute .put obj = .error .assignmentToEntryInNilMap := by
              rw [execute_put hobj, hstate]
              rfl
            have hcopy := answer_eq_error_iff.mp
              (h.stops (.put, obj) (answer_eq_error_iff.mpr hstop))
            have hobj' : stm.deepCopy.transformFunc obj = .ok entry := hobj
            rw [execute_put hobj'] at hcopy
            cases hcopy
  · rintro (hsome | herrors)
    · rw [deepCopy, copyMap_of_isSome hsome]
      exact .refl stm
    · exact indistinguishable_of_errors herrors

def SetObject.machine : Machine (Entries K Unit) (SetObject K) K (NilableMap K Unit) where
  execute := execute
  state x := MapRef.objects.value (stateCopy x)
  deepCopy := deepCopy

theorem SetObject.models :
    (machine (K := K)).Models objects Set.execute (fun stm => copyMap stm.state)
      Set.deepCopy where
  execute _ verb obj hx := execute_follows hx verb obj
  state x := MapRef.value_copyMap (mapRef x)
  deepCopy := copies_set

theorem Set.indistinguishable_deepCopy_iff (stm : Set K) :
    Indistinguishable (answer execute fun stm => copyMap stm.state) stm stm.deepCopy ↔
      stm.state.isSome ∨ IsEmpty K := by
  constructor
  · intro h
    cases hstate : stm.state with
    | some entries => exact Or.inl rfl
    | none =>
        refine Or.inr ⟨fun obj => ?_⟩
        have hstop : stm.execute .put obj = .error .assignmentToEntryInNilMap := by
          rw [execute, hstate]
          rfl
        have hcopy := answer_eq_error_iff.mp
          (h.stops (.put, obj) (answer_eq_error_iff.mpr hstop))
        cases hcopy
  · rintro (hsome | hempty)
    · rw [deepCopy, copyMap_of_isSome hsome]
      exact .refl stm
    · intro commands
      cases commands with
      | nil => rfl
      | cons command commands => exact (hempty.false command.2).elim

end Maps

/-! ## Counter -/

def CounterObject.machine : Machine Unit Counter Int64 Int64 where
  execute := execute
  state x := x.2.state
  deepCopy := deepCopy

theorem CounterObject.models :
    machine.Models objects Counter.execute (·.state) Counter.deepCopy where
  execute _ verb obj _ := execute_follows verb obj
  state _ := rfl
  deepCopy := copies_counter

namespace Counter

theorem add_deepCopy {stm : Counter} (h : stm.maxVal.isSome) (i : Int64) :
    stm.deepCopy.add i = ((stm.add i).1.deepCopy, (stm.add i).2) := by
  obtain ⟨allowOverflow, maxVal, minVal, state⟩ := stm
  obtain ⟨maxVal, rfl⟩ := Option.isSome_iff_exists.mp h
  dsimp only [add, deepCopy]
  split_ifs <;> rfl

theorem subtract_deepCopy {stm : Counter} (h : stm.minVal.isSome) (i : Int64) :
    stm.deepCopy.subtract i = ((stm.subtract i).1.deepCopy, (stm.subtract i).2) := by
  obtain ⟨allowOverflow, maxVal, minVal, state⟩ := stm
  obtain ⟨minVal, rfl⟩ := Option.isSome_iff_exists.mp h
  dsimp only [subtract, deepCopy]
  split_ifs <;> rfl

theorem execute_deepCopy {stm : Counter} (h : stm.maxVal.isSome ∧ stm.minVal.isSome)
    (verb : Command) (obj : Int64) :
    stm.deepCopy.execute verb obj =
      (stm.execute verb obj).map fun result => (result.1.deepCopy, result.2) := by
  cases verb with
  | add => exact congrArg Except.ok (add_deepCopy h.1 obj)
  | subtract => exact congrArg Except.ok (subtract_deepCopy h.2 obj)
  | append | delete | put | other => rfl

/-- With both bounds the leave to overflow is never asked for. -/
theorem indistinguishable_of_bounds {stm : Counter}
    (h : stm.maxVal.isSome ∧ stm.minVal.isSome) :
    Indistinguishable (answer execute (·.state)) stm stm.deepCopy := by
  apply Indistinguishable.of_view (fun stm => stm.maxVal.isSome ∧ stm.minVal.isSome) _ _ h
  · intro stm command hstm
    exact answer_view deepCopy (fun _ => rfl) (execute_deepCopy hstm command.1 command.2)
  · intro stm command next now hstm hnext
    obtain ⟨⟨next', err⟩, hexecute, hanswer⟩ := bind_eq_ok.mp hnext
    cases hanswer
    rw [execute_setState hexecute]
    exact hstm

/-- Three times the largest operand leads out of the range from everywhere. -/
def thrice (verb : Command) : List (Command × Int64) := List.replicate 3 (verb, Int64.maxValue)

theorem counts_thrice {verb : Command} (hverb : verb = .add ∨ verb = .subtract) :
    ∀ command ∈ thrice verb, Counts command := by
  intro command hmem
  rw [List.eq_of_mem_replicate hmem]
  exact ⟨hverb, show (0 : Int64) ≤ Int64.maxValue by decide⟩

theorem thrice_not_accepted {stm last : Counter} {answers : List (Answer Int64)}
    (hallow : stm.allowOverflow = false) {verb : Command}
    (hverb : verb = .add ∨ verb = .subtract) (hbound : stm.bound verb = none)
    (hrun : run stm (thrice verb) = .ok (last, answers))
    (hlength : answers.length = (thrice verb).length) :
    ¬∀ a ∈ answers, a.error = none := by
  intro haccepted
  have hbounds : ∀ command ∈ thrice verb, stm.bound command.1 = none := by
    intro command hmem
    rw [List.eq_of_mem_replicate hmem]
    exact hbound
  have hsum := ((run_counted hallow hbounds).of_eq_ok hrun).2
  dsimp only at hsum
  rw [acceptedSum_of_accepted hlength haccepted] at hsum
  have hge := stm.state.le_toInt
  have hlt := stm.state.toInt_lt
  have hge' := last.state.le_toInt
  have hlt' := last.state.toInt_lt
  have hmax : Int64.maxValue.toInt = 2 ^ 63 - 1 := by decide
  rcases hverb with rfl | rfl <;>
    simp only [thrice, List.replicate, List.map_cons, List.map_nil, List.sum_cons,
      List.sum_nil, signed, hmax] at hsum <;> omega

/-- The copy would have to count out of range to accept what the original does. -/
theorem distinguishable_of_allowOverflow {stm : Counter} (hallow : stm.allowOverflow = true)
    {verb : Command} (hverb : verb = .add ∨ verb = .subtract)
    (hbound : stm.bound verb = none) :
    ¬Indistinguishable (answer execute (·.state)) stm stm.deepCopy := by
  intro h
  have hbound' : stm.deepCopy.bound verb = none := by
    rw [← hbound]
    cases verb <;> rfl
  have hallowed : ∀ command ∈ thrice verb,
      stm.allowOverflow = true ∨ (stm.bound command.1).isSome :=
    fun _ _ => Or.inl hallow
  obtain ⟨⟨last, answers⟩, hrun, hlength, haccepted⟩ :=
    run_accepted hallowed (counts_thrice hverb)
  have hanswers : (run stm (thrice verb)).map Prod.snd =
      (run stm.deepCopy (thrice verb)).map Prod.snd := h (thrice verb)
  rw [hrun] at hanswers
  cases hcopy : run stm.deepCopy (thrice verb) with
  | error panic =>
      rw [hcopy] at hanswers
      cases hanswers
  | ok result =>
      obtain ⟨last', answers'⟩ := result
      rw [hcopy] at hanswers
      cases hanswers
      exact thrice_not_accepted rfl hverb hbound' hcopy hlength haccepted

theorem indistinguishable_deepCopy_iff (stm : Counter) :
    Indistinguishable (answer execute (·.state)) stm stm.deepCopy ↔
      stm.allowOverflow = false ∨ stm.maxVal.isSome ∧ stm.minVal.isSome := by
  constructor
  · intro h
    by_contra hnot
    simp only [not_or, not_and_or, Bool.not_eq_false, Option.not_isSome_iff_eq_none] at hnot
    obtain ⟨hallow, hmax | hmin⟩ := hnot
    · exact distinguishable_of_allowOverflow hallow (Or.inl rfl) hmax h
    · exact distinguishable_of_allowOverflow hallow (Or.inr rfl) hmin h
  · rintro (hallow | hbounds)
    · have hsame : stm.deepCopy = stm := by rw [deepCopy, ← hallow]
      rw [hsame]
      exact .refl stm
    · exact indistinguishable_of_bounds hbounds

end Counter

/-! ## Forks -/

/--
No command to a machine changes the state of its copy, or the other way round.
The copy answers every sequence of commands as the original would: always for an
array, for a map or a set unless it is nil and something can be put into it, and
for a counter unless it may overflow and lacks a bound.  Any valid memory is
reached, as the initial state is an option of all four.
-/
theorem deepCopy_forks_iff {A E K V T : Type} [DecidableEq K] [DecidableEq T]
    (runtime : Runtime A) (array : {x // ArrayObject.objects (T := A).Valid x})
    (hashmap : {x // HashmapObject.objects (E := E) (K := K) (V := V).Valid x})
    (set : {x // SetObject.objects (T := T).Valid x})
    (counter : {x // CounterObject.objects.Valid x}) :
    ((ArrayObject.machine runtime).Unshared array.1 ∧
      (ArrayObject.machine runtime).Faithful array.1) ∧
    (HashmapObject.machine.Unshared hashmap.1 ∧
      (HashmapObject.machine.Faithful hashmap.1 ↔ hashmap.1.2.state.isSome ∨
        ∀ obj, ∃ message, hashmap.1.2.transformFunc obj = .error message)) ∧
    (SetObject.machine.Unshared set.1 ∧
      (SetObject.machine.Faithful set.1 ↔ set.1.2.state.isSome ∨ IsEmpty T)) ∧
    (CounterObject.machine.Unshared counter.1 ∧
      (CounterObject.machine.Faithful counter.1 ↔ counter.1.2.allowOverflow = false ∨
        counter.1.2.maxVal.isSome ∧ counter.1.2.minVal.isSome)) := by
  refine ⟨⟨?_, ?_⟩, ⟨?_, ?_⟩, ⟨?_, ?_⟩, ⟨?_, ?_⟩⟩
  · exact (ArrayObject.models runtime).unshared array.2
  · rw [(ArrayObject.models runtime).faithful_iff array.2]
    exact Array.deepCopy_indistinguishable _
  · exact HashmapObject.models.unshared hashmap.2
  · rw [HashmapObject.models.faithful_iff hashmap.2, Hashmap.indistinguishable_deepCopy_iff,
      HashmapObject.isSome_state hashmap.2]
    exact Iff.rfl
  · exact SetObject.models.unshared set.2
  · rw [SetObject.models.faithful_iff set.2, Set.indistinguishable_deepCopy_iff,
      SetObject.isSome_state set.2]
  · exact CounterObject.models.unshared counter.2
  · rw [CounterObject.models.faithful_iff counter.2]
    exact Counter.indistinguishable_deepCopy_iff counter.1.2

/-- The copy refuses the overflow that the original was given leave for. -/
theorem copied_counter_refuses :
    Returns (Counter.new [Counter.counterWithAllowOverflow,
        Counter.withInitialState Int64.maxValue]) fun stm =>
      Returns (run CounterObject.machine.answer ([], stm) [(.add, 1)]) (fun result =>
        result.2 = [⟨none, Int64.minValue⟩]) ∧
      Returns (run CounterObject.machine.answer (CounterObject.machine.deepCopy ([], stm))
        [(.add, 1)]) fun result => result.2 = [⟨some .noOverflow, Int64.maxValue⟩] :=
  .ok ⟨.ok rfl, .ok rfl⟩

end Udplb.StateMachine
