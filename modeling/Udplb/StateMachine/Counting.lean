import Mathlib.Algebra.Ring.Int.Defs
import Udplb.Foundation.Trace
import Udplb.StateMachine.Machines

/-!
# Counters

The counter detects an overflow by comparing the wrapped sum with the state.
The bounds are enforced on an overflow, or when the state is already outside; a
sum that fits into 64 bits is stored even if it is outside.
-/

namespace Udplb.StateMachine.Counter

open Udplb.Foundation

/-- The integers that a state can hold. -/
def InInt64 (n : Int) : Prop := -2 ^ 63 ≤ n ∧ n < 2 ^ 63

instance (n : Int) : Decidable (InInt64 n) := inferInstanceAs (Decidable (_ ∧ _))

/-- What a command means for an unbounded counter. -/
def exact : Command → Int → Int → Option Int
  | .add, state, obj => some (state + obj)
  | .subtract, state, obj => some (state - obj)
  | _, _, _ => none

abbrev run (stm : Counter) (commands : List (Command × Int64)) :
    Except Panic (Counter × List (Answer Int64)) :=
  Foundation.run (answer execute (·.state)) stm commands

/-! ## Overflow -/

theorem overflown_iff {state i : Int64} (hi : 0 < i.toInt) :
    state + i < state ↔ 2 ^ 63 ≤ state.toInt + i.toInt := by
  have hle := state.le_toInt
  have hlt := state.toInt_lt
  have hle' := i.toInt_lt
  rw [Int64.lt_iff_toInt_lt, Int64.toInt_add, Int.bmod_def]
  split <;> omega

theorem toInt_add_of_fits {state i : Int64} (h : InInt64 (state.toInt + i.toInt)) :
    (state + i).toInt = state.toInt + i.toInt := by
  obtain ⟨hle, hlt⟩ := h
  rw [Int64.toInt_add, Int.bmod_def]
  split <;> omega

theorem underflown_iff {state i : Int64} (hi : 0 < i.toInt) :
    state < state - i ↔ state.toInt - i.toInt < -2 ^ 63 := by
  have hle := state.le_toInt
  have hlt := state.toInt_lt
  have hle' := i.toInt_lt
  rw [Int64.lt_iff_toInt_lt, Int64.toInt_sub, Int.bmod_def]
  split <;> omega

theorem toInt_sub_of_fits {state i : Int64} (h : InInt64 (state.toInt - i.toInt)) :
    (state - i).toInt = state.toInt - i.toInt := by
  obtain ⟨hle, hlt⟩ := h
  rw [Int64.toInt_sub, Int.bmod_def]
  split <;> omega

theorem toInt_eq_zero_iff {i : Int64} : i.toInt = 0 ↔ i = 0 := by
  rw [← Int64.toInt_inj]
  rfl

theorem not_neg_of_nonneg {i : Int64} (h : 0 ≤ i.toInt) : ¬i < 0 := by
  rw [Int64.lt_iff_toInt_lt]
  exact Int.not_lt.mpr h

/-! ## One command -/

section Steps

variable {stm : Counter} {i : Int64}

theorem add_setState (stm : Counter) (i : Int64) :
    (stm.add i).1 = stm.setState (stm.add i).1.state := by
  unfold add
  split_ifs
  · rfl
  · rfl
  · cases stm.maxVal <;> dsimp only <;> split_ifs <;> rfl

theorem subtract_setState (stm : Counter) (i : Int64) :
    (stm.subtract i).1 = stm.setState (stm.subtract i).1.state := by
  unfold subtract
  split_ifs
  · rfl
  · rfl
  · cases stm.minVal <;> dsimp only <;> split_ifs <;> rfl

/-- No command changes anything but the state. -/
theorem execute_setState {verb : Command} {next : Counter} {err : Option Error}
    (h : stm.execute verb i = .ok (next, err)) : next = stm.setState next.state := by
  cases verb with
  | add =>
      have hsame := add_setState stm i
      rw [Except.ok.inj h] at hsame
      exact hsame
  | subtract =>
      have hsame := subtract_setState stm i
      rw [Except.ok.inj h] at hsame
      exact hsame
  | append | delete | put | other =>
      cases h
      rfl

theorem add_of_neg (h : i.toInt < 0) : stm.add i = (stm, some .inputMustBeAPositiveInteger) := by
  rw [add, if_pos (Int64.lt_iff_toInt_lt.mpr h)]

theorem add_of_fits (hi : 0 ≤ i.toInt) (hfits : InInt64 (stm.state.toInt + i.toInt))
    (hmax : ∀ maxVal, stm.maxVal = some maxVal → stm.state ≤ maxVal) :
    stm.add i = (stm.setState (stm.state + i), none) := by
  rw [add, if_neg (not_neg_of_nonneg hi)]
  by_cases hzero : i = 0
  · rw [if_pos hzero, hzero, Int64.add_zero]
    rfl
  · have hpos : i.toInt ≠ 0 := fun h => hzero (toInt_eq_zero_iff.mp h)
    have hnot : ¬stm.state + i < stm.state := by
      rw [overflown_iff (by omega)]
      exact Int.not_le.mpr hfits.2
    rw [if_neg hzero]
    cases hbound : stm.maxVal with
    | none => simp [hnot]
    | some maxVal =>
        have hle := hmax maxVal hbound
        simp [hnot, Int64.not_lt.mpr hle]

theorem add_of_overflow (hi : 0 ≤ i.toInt) (hover : 2 ^ 63 ≤ stm.state.toInt + i.toInt) :
    stm.add i = match stm.maxVal with
      | some maxVal => (stm.setState maxVal, none)
      | none =>
          if stm.allowOverflow = false then (stm, some .noOverflow)
          else (stm.setState (stm.state + i), none) := by
  have hlt := stm.state.toInt_lt
  have hpos : 0 < i.toInt := by omega
  have hzero : i ≠ 0 := fun h => by rw [toInt_eq_zero_iff.mpr h] at hpos; omega
  have hoverflown := (overflown_iff hpos).mpr hover
  rw [add, if_neg (not_neg_of_nonneg hi), if_neg hzero]
  cases stm.maxVal <;> simp [hoverflown]

theorem subtract_of_neg (h : i.toInt < 0) :
    stm.subtract i = (stm, some .inputMustBeAPositiveInteger) := by
  rw [subtract, if_pos (Int64.lt_iff_toInt_lt.mpr h)]

theorem subtract_of_fits (hi : 0 ≤ i.toInt) (hfits : InInt64 (stm.state.toInt - i.toInt))
    (hmin : ∀ minVal, stm.minVal = some minVal → minVal ≤ stm.state) :
    stm.subtract i = (stm.setState (stm.state - i), none) := by
  rw [subtract, if_neg (not_neg_of_nonneg hi)]
  by_cases hzero : i = 0
  · rw [if_pos hzero, hzero, Int64.sub_zero]
    rfl
  · have hpos : i.toInt ≠ 0 := fun h => hzero (toInt_eq_zero_iff.mp h)
    have hnot : ¬stm.state < stm.state - i := by
      rw [underflown_iff (by omega)]
      exact Int.not_lt.mpr hfits.1
    rw [if_neg hzero]
    cases hbound : stm.minVal with
    | none => simp [hnot]
    | some minVal =>
        have hle := hmin minVal hbound
        simp [hnot, Int64.not_lt.mpr hle]

theorem subtract_of_underflow (hi : 0 ≤ i.toInt)
    (hunder : stm.state.toInt - i.toInt < -2 ^ 63) :
    stm.subtract i = match stm.minVal with
      | some minVal => (stm.setState minVal, none)
      | none =>
          if stm.allowOverflow = false then (stm, some .noUnderflow)
          else (stm.setState (stm.state - i), none) := by
  have hge := stm.state.le_toInt
  have hpos : 0 < i.toInt := by omega
  have hzero : i ≠ 0 := fun h => by rw [toInt_eq_zero_iff.mpr h] at hpos; omega
  have hunderflown := (underflown_iff hpos).mpr hunder
  rw [subtract, if_neg (not_neg_of_nonneg hi), if_neg hzero]
  cases stm.minVal <;> simp [hunderflown]

end Steps

/-! ## Counters without bounds -/

/-- The bound that a command is held to. -/
def bound (stm : Counter) : Command → Option Int64
  | .add => stm.maxVal
  | .subtract => stm.minVal
  | _ => none

@[simp] theorem bound_setState (stm : Counter) (state : Int64) (verb : Command) :
    (stm.setState state).bound verb = stm.bound verb := by
  cases verb <;> rfl

/-- What a counter refuses that has no bound for the command. -/
def Rejected (state : Int) (verb : Command) (obj : Int) : Prop :=
  match exact verb state obj with
  | none => True
  | some result => obj < 0 ∨ ¬InInt64 result

/-- The four outcomes of a command. -/
structure Counted (stm : Counter) (verb : Command) (obj : Int64)
    (answer : Counter × Option Error) : Prop where
  error_iff : answer.2.isSome = true ↔ Rejected stm.state.toInt verb obj.toInt
  unchanged : answer.2.isSome = true → answer.1 = stm
  counted : answer.2 = none → exact verb stm.state.toInt obj.toInt =
    some answer.1.state.toInt

section Counted

variable {stm : Counter} {verb : Command} {obj : Int64}

theorem Counted.rejects (hrejected : Rejected stm.state.toInt verb obj.toInt) (err : Error) :
    Counted stm verb obj (stm, some err) :=
  ⟨⟨fun _ => hrejected, fun _ => rfl⟩, fun _ => rfl, fun h => (by cases h)⟩

theorem Counted.accepts (hrejected : ¬Rejected stm.state.toInt verb obj.toInt) {state : Int64}
    (hexact : exact verb stm.state.toInt obj.toInt = some state.toInt) :
    Counted stm verb obj (stm.setState state, none) :=
  ⟨⟨fun hsome => (by cases hsome), fun hr => absurd hr hrejected⟩,
    fun hsome => (by cases hsome), fun _ => hexact⟩

theorem add_counted (hallow : stm.allowOverflow = false) (hbound : stm.maxVal = none)
    (i : Int64) : Counted stm .add i (stm.add i) := by
  have hmax : ∀ maxVal, stm.maxVal = some maxVal → stm.state ≤ maxVal := by
    simp [hbound]
  by_cases hneg : i.toInt < 0
  · rw [add_of_neg hneg]
    apply Counted.rejects
    exact Or.inl hneg
  · by_cases hfits : InInt64 (stm.state.toInt + i.toInt)
    · rw [add_of_fits (by omega) hfits hmax]
      apply Counted.accepts
      · rintro (hlt | hout)
        · exact hneg hlt
        · exact hout hfits
      · rw [toInt_add_of_fits hfits]
        rfl
    · have hge := stm.state.le_toInt
      have hover : 2 ^ 63 ≤ stm.state.toInt + i.toInt := by
        unfold InInt64 at hfits
        omega
      rw [add_of_overflow (by omega) hover, hbound]
      simp only [hallow, if_true]
      apply Counted.rejects
      exact Or.inr hfits

theorem subtract_counted (hallow : stm.allowOverflow = false) (hbound : stm.minVal = none)
    (i : Int64) : Counted stm .subtract i (stm.subtract i) := by
  have hmin : ∀ minVal, stm.minVal = some minVal → minVal ≤ stm.state := by
    simp [hbound]
  by_cases hneg : i.toInt < 0
  · rw [subtract_of_neg hneg]
    apply Counted.rejects
    exact Or.inl hneg
  · by_cases hfits : InInt64 (stm.state.toInt - i.toInt)
    · rw [subtract_of_fits (by omega) hfits hmin]
      apply Counted.accepts
      · rintro (hlt | hout)
        · exact hneg hlt
        · exact hout hfits
      · rw [toInt_sub_of_fits hfits]
        rfl
    · have hlt := stm.state.toInt_lt
      have hunder : stm.state.toInt - i.toInt < -2 ^ 63 := by
        unfold InInt64 at hfits
        omega
      rw [subtract_of_underflow (by omega) hunder, hbound]
      simp only [hallow, if_true]
      apply Counted.rejects
      exact Or.inr hfits

theorem execute_counted (hallow : stm.allowOverflow = false) (hbound : stm.bound verb = none)
    (obj : Int64) : Returns (stm.execute verb obj) (Counted stm verb obj) := by
  cases verb with
  | add => exact .ok (add_counted hallow hbound obj)
  | subtract => exact .ok (subtract_counted hallow hbound obj)
  | append | delete | put | other =>
      refine .ok (Counted.rejects ?_ _)
      trivial

end Counted

def signed : Command × Int64 → Int
  | (.add, obj) => obj.toInt
  | (.subtract, obj) => -obj.toInt
  | _ => 0

/-- The operands of the commands that were answered without an error. -/
def acceptedSum (commands : List (Command × Int64)) (answers : List (Answer Int64)) : Int :=
  ((commands.zip answers).map fun entry =>
    if entry.2.error.isNone then signed entry.1 else 0).sum

theorem acceptedSum_of_accepted {commands : List (Command × Int64)}
    {answers : List (Answer Int64)} (hlength : answers.length = commands.length)
    (haccepted : ∀ a ∈ answers, a.error = none) :
    acceptedSum commands answers = (commands.map signed).sum := by
  have hentries : (commands.zip answers).map
      (fun entry => if entry.2.error.isNone then signed entry.1 else 0) =
      (commands.zip answers).map fun entry => signed entry.1 := by
    apply List.map_congr_left
    intro entry hentry
    rw [haccepted entry.2 (List.of_mem_zip hentry).2]
    rfl
  rw [acceptedSum, hentries]
  conv_rhs => rw [← List.map_fst_zip (Nat.le_of_eq hlength.symm), List.map_map]
  rfl

theorem exact_eq_signed {verb : Command} {obj : Int64} {state result : Int}
    (h : exact verb state obj.toInt = some result) : result = state + signed (verb, obj) := by
  cases verb <;> simp only [exact, signed, Option.some.injEq, reduceCtorEq] at h ⊢ <;> omega

theorem Counted.state_eq {stm : Counter} {verb : Command} {obj : Int64}
    {answer : Counter × Option Error} (h : Counted stm verb obj answer) :
    answer.1.state.toInt =
      stm.state.toInt + if answer.2.isNone then signed (verb, obj) else 0 := by
  cases herr : answer.2 with
  | none => simpa using exact_eq_signed (h.counted herr)
  | some err => simp [h.unchanged (by rw [herr]; rfl)]

theorem run_counted {stm : Counter} (hallow : stm.allowOverflow = false)
    {commands : List (Command × Int64)}
    (hbound : ∀ command ∈ commands, stm.bound command.1 = none) :
    Returns (run stm commands) fun result =>
      result.1 = stm.setState result.1.state ∧
      result.1.state.toInt = stm.state.toInt + acceptedSum commands result.2 := by
  induction commands generalizing stm with
  | nil => exact .ok ⟨rfl, by simp [acceptedSum]⟩
  | cons command commands ih =>
      obtain ⟨verb, obj⟩ := command
      obtain ⟨⟨next, err⟩, hexecute, hcounted⟩ :=
        execute_counted hallow (hbound (verb, obj) (by simp)) obj
      have hnext := execute_setState hexecute
      have hallow' : next.allowOverflow = false := by rw [hnext]; exact hallow
      have hbound' : ∀ other ∈ commands, next.bound other.1 = none := by
        intro other hmem
        rw [hnext, bound_setState]
        exact hbound other (by simp [hmem])
      obtain ⟨⟨last, answers⟩, hrun, hlast, hsum⟩ := ih hallow' hbound'
      refine ⟨_, run_cons_eq_ok.mpr ⟨next, _, answers, answer_of_execute hexecute, hrun, rfl⟩,
        ?_, ?_⟩
      · rw [hlast, hnext]
        rfl
      · rw [hsum, hcounted.state_eq]
        simp only [acceptedSum, List.singleton_append, List.zip_cons_cons, List.map_cons,
          List.sum_cons]
        exact Int.add_assoc _ _ _

theorem new_initialStates (inits : List Int64) :
    new (inits.map withInitialState) = .ok ⟨false, none, none, inits.getLastD 0⟩ := by
  induction inits using List.reverseRecOn with
  | nil => rfl
  | append_singleton inits init ih =>
      simp only [new, execOptions] at ih ⊢
      rw [List.map_append, List.foldlM_append, ih]
      simp [withInitialState, setState]

/--
A counter that is created with nothing but initial states counts exactly.  It
refuses a command if and only if it is none of its own, its operand is negative
or the result does not fit, and is then unchanged.
-/
theorem unbounded_counter_exact (inits : List Int64) (commands : List (Command × Int64)) :
    Returns (new (inits.map withInitialState)) fun stm =>
      stm.state = inits.getLastD 0 ∧
      Returns (run stm commands) fun result =>
        result.1.state.toInt = stm.state.toInt + acceptedSum commands result.2 ∧
        ∀ verb obj, Returns (execute result.1 verb obj) fun answer =>
          (answer.2.isSome = true ↔ Rejected result.1.state.toInt verb obj.toInt) ∧
          (answer.2.isSome = true → answer.1.state = result.1.state) := by
  rw [new_initialStates]
  refine .ok ⟨rfl, ?_⟩
  have hbound : ∀ verb, bound ⟨false, none, none, inits.getLastD 0⟩ verb = none := by
    rintro (_ | _) <;> rfl
  apply (run_counted rfl fun command _ => hbound command.1).mono
  rintro ⟨last, answers⟩ ⟨hlast, hsum⟩
  refine ⟨hsum, ?_⟩
  dsimp only at hlast
  intro verb obj
  have hallow : last.allowOverflow = false := by rw [hlast]; rfl
  have hbound' : last.bound verb = none := by rw [hlast, bound_setState]; exact hbound verb
  apply (execute_counted hallow hbound' obj).mono
  intro answer hanswer
  exact ⟨hanswer.error_iff, fun hsome => by rw [hanswer.unchanged hsome]⟩

/-! ## Counters with both bounds -/

structure Bounded (lo hi : Int64) (stm : Counter) : Prop where
  minVal_eq : stm.minVal = some lo
  maxVal_eq : stm.maxVal = some hi

/-- An addition or a subtraction with an operand that is not negative. -/
def Counts (command : Command × Int64) : Prop :=
  (command.1 = .add ∨ command.1 = .subtract) ∧ 0 ≤ command.2

instance (command : Command × Int64) : Decidable (Counts command) :=
  inferInstanceAs (Decidable (_ ∧ _))

theorem add_accepted {stm : Counter} (h : stm.allowOverflow = true ∨ stm.maxVal.isSome)
    {i : Int64} (hi : 0 ≤ i.toInt) : ∃ state, stm.add i = (stm.setState state, none) := by
  rw [add, if_neg (not_neg_of_nonneg hi)]
  by_cases hzero : i = 0
  · exact ⟨stm.state, by rw [if_pos hzero]; rfl⟩
  · rw [if_neg hzero]
    cases hbound : stm.maxVal with
    | none =>
        have hallow : stm.allowOverflow = true := by simpa [hbound] using h
        exact ⟨stm.state + i, by simp [hallow]⟩
    | some maxVal =>
        dsimp only
        split
        · exact ⟨_, rfl⟩
        · exact ⟨_, rfl⟩

theorem subtract_accepted {stm : Counter} (h : stm.allowOverflow = true ∨ stm.minVal.isSome)
    {i : Int64} (hi : 0 ≤ i.toInt) : ∃ state, stm.subtract i = (stm.setState state, none) := by
  rw [subtract, if_neg (not_neg_of_nonneg hi)]
  by_cases hzero : i = 0
  · exact ⟨stm.state, by rw [if_pos hzero]; rfl⟩
  · rw [if_neg hzero]
    cases hbound : stm.minVal with
    | none =>
        have hallow : stm.allowOverflow = true := by simpa [hbound] using h
        exact ⟨stm.state - i, by simp [hallow]⟩
    | some minVal =>
        dsimp only
        split
        · exact ⟨_, rfl⟩
        · exact ⟨_, rfl⟩

theorem execute_accepted {stm : Counter} {command : Command × Int64}
    (h : stm.allowOverflow = true ∨ (stm.bound command.1).isSome) (hcommand : Counts command) :
    ∃ state, stm.execute command.1 command.2 = .ok (stm.setState state, none) := by
  obtain ⟨verb, obj⟩ := command
  obtain ⟨rfl | rfl, hobj⟩ := hcommand
  · obtain ⟨state, hstate⟩ := add_accepted h (Int64.le_iff_toInt_le.mp hobj)
    exact ⟨state, congrArg _ hstate⟩
  · obtain ⟨state, hstate⟩ := subtract_accepted h (Int64.le_iff_toInt_le.mp hobj)
    exact ⟨state, congrArg _ hstate⟩

theorem run_accepted {stm : Counter} {commands : List (Command × Int64)}
    (h : ∀ command ∈ commands, stm.allowOverflow = true ∨ (stm.bound command.1).isSome)
    (hcommands : ∀ command ∈ commands, Counts command) :
    Returns (run stm commands) fun result =>
      result.2.length = commands.length ∧ ∀ a ∈ result.2, a.error = none := by
  induction commands generalizing stm with
  | nil => exact .ok (by simp)
  | cons command commands ih =>
      obtain ⟨state, hexecute⟩ :=
        execute_accepted (h command (by simp)) (hcommands command (by simp))
      have hnext : ∀ other ∈ commands, (stm.setState state).allowOverflow = true ∨
          ((stm.setState state).bound other.1).isSome := by
        intro other hmem
        rw [bound_setState]
        exact h other (by simp [hmem])
      obtain ⟨⟨last, answers⟩, hrun, hlength, hanswers⟩ :=
        ih hnext fun other hmem => hcommands other (by simp [hmem])
      refine ⟨_, run_cons_eq_ok.mpr ⟨_, _, answers, answer_of_execute hexecute, hrun, rfl⟩,
        congrArg Nat.succ hlength, ?_⟩
      intro a ha
      rcases List.mem_cons.mp ha with rfl | ha
      · rfl
      · exact hanswers a ha

theorem Bounded.bound_isSome {lo hi : Int64} {stm : Counter} (h : Bounded lo hi stm)
    {command : Command × Int64} (hcommand : Counts command) :
    (stm.bound command.1).isSome = true := by
  obtain ⟨verb, obj⟩ := command
  obtain ⟨rfl | rfl, -⟩ := hcommand
  · simp [bound, h.maxVal_eq]
  · simp [bound, h.minVal_eq]

/-- Where a command leads from a state within the bounds. -/
def landing (lo hi result : Int) : Int :=
  if InInt64 result then result else if result < 0 then lo else hi

theorem Bounded.execute_landing {lo hi : Int64} {stm : Counter} (h : Bounded lo hi stm)
    (hlo : lo ≤ stm.state) (hhi : stm.state ≤ hi) {command : Command × Int64}
    (hcommand : Counts command) :
    ∃ result state, exact command.1 stm.state.toInt command.2.toInt = some result ∧
      stm.execute command.1 command.2 = .ok (stm.setState state, none) ∧
      state.toInt = landing lo.toInt hi.toInt result := by
  have hge := stm.state.le_toInt
  have hlt := stm.state.toInt_lt
  obtain ⟨verb, obj⟩ := command
  obtain ⟨rfl | rfl, hobj⟩ := hcommand
  · have hobj' : 0 ≤ obj.toInt := Int64.le_iff_toInt_le.mp hobj
    by_cases hfits : InInt64 (stm.state.toInt + obj.toInt)
    · have hadd := add_of_fits hobj' hfits (by simp [h.maxVal_eq, hhi])
      refine ⟨_, _, rfl, congrArg _ hadd, ?_⟩
      rw [toInt_add_of_fits hfits, landing, if_pos hfits]
    · have hover : 2 ^ 63 ≤ stm.state.toInt + obj.toInt := by
        unfold InInt64 at hfits
        omega
      have hadd := add_of_overflow hobj' hover
      rw [h.maxVal_eq] at hadd
      refine ⟨_, _, rfl, congrArg _ hadd, ?_⟩
      rw [landing, if_neg hfits, if_neg (show ¬stm.state.toInt + obj.toInt < 0 by omega)]
  · have hobj' : 0 ≤ obj.toInt := Int64.le_iff_toInt_le.mp hobj
    by_cases hfits : InInt64 (stm.state.toInt - obj.toInt)
    · have hsubtract := subtract_of_fits hobj' hfits (by simp [h.minVal_eq, hlo])
      refine ⟨_, _, rfl, congrArg _ hsubtract, ?_⟩
      rw [toInt_sub_of_fits hfits, landing, if_pos hfits]
    · have hunder : stm.state.toInt - obj.toInt < -2 ^ 63 := by
        unfold InInt64 at hfits
        omega
      have hsubtract := subtract_of_underflow hobj' hunder
      rw [h.minVal_eq] at hsubtract
      refine ⟨_, _, rfl, congrArg _ hsubtract, ?_⟩
      rw [landing, if_neg hfits, if_pos (show stm.state.toInt - obj.toInt < 0 by omega)]

/-- Every result that fits into 64 bits is within the bounds. -/
def LandsWithin (lo hi : Int) : Int → List (Command × Int64) → Prop
  | _, [] => True
  | state, (verb, obj) :: commands =>
      match exact verb state obj.toInt with
      | none => LandsWithin lo hi state commands
      | some result =>
          (lo ≤ landing lo hi result ∧ landing lo hi result ≤ hi) ∧
            LandsWithin lo hi (landing lo hi result) commands

instance LandsWithin.decidable (lo hi : Int) :
    ∀ state commands, Decidable (LandsWithin lo hi state commands)
  | _, [] => inferInstanceAs (Decidable True)
  | state, (verb, obj) :: commands =>
      match hexact : exact verb state obj.toInt with
      | none =>
          have := LandsWithin.decidable lo hi state commands
          decidable_of_iff (LandsWithin lo hi state commands)
            (by simp only [LandsWithin, hexact])
      | some result =>
          have := LandsWithin.decidable lo hi (landing lo hi result) commands
          decidable_of_iff ((lo ≤ landing lo hi result ∧ landing lo hi result ≤ hi) ∧
              LandsWithin lo hi (landing lo hi result) commands)
            (by simp only [LandsWithin, hexact])

theorem Bounded.run_within_iff {lo hi : Int64} {stm : Counter} (h : Bounded lo hi stm)
    (hlo : lo ≤ stm.state) (hhi : stm.state ≤ hi) {commands : List (Command × Int64)}
    (hcommands : ∀ command ∈ commands, Counts command) {last : Counter}
    {answers : List (Answer Int64)} (hrun : run stm commands = .ok (last, answers)) :
    (∀ a ∈ answers, lo ≤ a.state ∧ a.state ≤ hi) ↔
      LandsWithin lo.toInt hi.toInt stm.state.toInt commands := by
  induction commands generalizing stm answers with
  | nil =>
      cases hrun
      simp [LandsWithin]
  | cons command commands ih =>
      obtain ⟨result, state, hexact, hexecute, hstate⟩ :=
        h.execute_landing hlo hhi (hcommands command (by simp))
      obtain ⟨next, now, later, hnow, hlater, rfl⟩ := run_cons_eq_ok.mp hrun
      rw [answer_of_execute hexecute] at hnow
      cases hnow
      obtain ⟨verb, obj⟩ := command
      have hnext : Bounded lo hi (stm.setState state) := ⟨h.minVal_eq, h.maxVal_eq⟩
      have hbounds : lo ≤ state ∧ state ≤ hi ↔
          lo.toInt ≤ landing lo.toInt hi.toInt result ∧
            landing lo.toInt hi.toInt result ≤ hi.toInt := by
        rw [Int64.le_iff_toInt_le, Int64.le_iff_toInt_le, hstate]
      simp only [LandsWithin, hexact, List.singleton_append, List.forall_mem_cons]
      rw [← hbounds, ← hstate]
      apply and_congr_right
      rintro ⟨hlo', hhi'⟩
      exact ih hnext hlo' hhi' (fun other hmem => hcommands other (by simp [hmem])) hlater

/-! ## The options of a bounded counter -/

/-- Two options that do not depend on each other's order. -/
def Commute (first second : Counter → Except Error Counter) : Prop :=
  ∀ stm, (first stm >>= second) = (second stm >>= first)

theorem execOptions_perm {options options' : List (Counter → Except Error Counter)}
    (h : options.Perm options')
    (hcommute : ∀ first ∈ options, ∀ second ∈ options, Commute first second)
    (stm : Counter) : execOptions options stm = execOptions options' stm := by
  have hfold : ∀ options : List (Counter → Except Error Counter), execOptions options stm =
      options.foldl (fun result option => result >>= option) (.ok stm) := by
    intro options
    exact List.foldlM_eq_foldl (fun stm option => option stm) stm options
  rw [hfold, hfold]
  apply h.foldl_eq'
  intro first hfirst second hsecond result
  cases result with
  | error err => rfl
  | ok stm => exact hcommute first hfirst second hsecond stm

/-- The bounds and the initial state in any order, with or without leave to overflow. -/
def BoundedOptions (lo init hi : Int64)
    (options : List (Counter → Except Error Counter)) : Prop :=
  ∃ n, options.Perm (List.replicate n counterWithAllowOverflow ++
    [counterWithMinimumValue lo, counterWithMaximumValue hi, withInitialState init])

theorem BoundedOptions.commute {lo init hi : Int64}
    {options : List (Counter → Except Error Counter)} (h : BoundedOptions lo init hi options) :
    ∀ first ∈ options, ∀ second ∈ options, Commute first second := by
  obtain ⟨n, hperm⟩ := h
  have hmem : ∀ option ∈ options, option = counterWithAllowOverflow ∨
      option = counterWithMinimumValue lo ∨ option = counterWithMaximumValue hi ∨
      option = withInitialState init := by
    intro option hoption
    rcases List.mem_append.mp (hperm.mem_iff.mp hoption) with hflag | hrest
    · exact Or.inl (List.eq_of_mem_replicate hflag)
    · exact Or.inr (by simpa using hrest)
  intro first hfirst second hsecond stm
  rcases hmem first hfirst with rfl | rfl | rfl | rfl <;>
    rcases hmem second hsecond with rfl | rfl | rfl | rfl <;> rfl

theorem execOptions_allowOverflow (n : Nat) (stm : Counter) :
    ∃ flag, execOptions (List.replicate n counterWithAllowOverflow) stm =
      .ok { stm with allowOverflow := flag } := by
  induction n generalizing stm with
  | zero => exact ⟨stm.allowOverflow, rfl⟩
  | succ n ih =>
      obtain ⟨flag, hflag⟩ := ih { stm with allowOverflow := true }
      exact ⟨flag, hflag⟩

theorem BoundedOptions.new {lo init hi : Int64}
    {options : List (Counter → Except Error Counter)} (h : BoundedOptions lo init hi options) :
    Returns (new options) fun stm => Bounded lo hi stm ∧ stm.state = init := by
  obtain ⟨n, hperm⟩ := h
  obtain ⟨flag, hflag⟩ := execOptions_allowOverflow n ⟨false, none, none, 0⟩
  rw [execOptions] at hflag
  rw [Counter.new, execOptions_perm hperm (BoundedOptions.commute ⟨n, hperm⟩), execOptions,
    List.foldlM_append, hflag]
  exact .ok ⟨⟨rfl, rfl⟩, rfl⟩

/--
A counter with both bounds answers no command with an error.  It stays within the
bounds exactly when every result that fits into 64 bits is within them.
-/
theorem bounded_counter_iff (lo init hi : Int64) (hlo : lo ≤ init) (hhi : init ≤ hi)
    (options : List (Counter → Except Error Counter))
    (hoptions : BoundedOptions lo init hi options)
    (commands : List (Command × Int64)) (hcommands : ∀ command ∈ commands, Counts command) :
    Returns (new options) fun stm => Returns (run stm commands) fun result =>
      (∀ a ∈ result.2, a.error = none) ∧
      ((∀ a ∈ result.2, lo ≤ a.state ∧ a.state ≤ hi) ↔
        LandsWithin lo.toInt hi.toInt init.toInt commands) := by
  apply hoptions.new.mono
  rintro stm ⟨hbounded, rfl⟩
  obtain ⟨⟨last, answers⟩, hrun, -, haccepted⟩ := run_accepted
    (fun command hmem => Or.inr (hbounded.bound_isSome (hcommands command hmem))) hcommands
  exact ⟨_, hrun, haccepted, hbounded.run_within_iff hlo hhi hcommands hrun⟩

def exampleOptions : List (Counter → Except Error Counter) :=
  [counterWithMinimumValue 0, counterWithMaximumValue 10, withInitialState 5]

theorem bounded_counter_overflowing :
    Returns (new exampleOptions) fun stm =>
      Returns (run stm [(.add, 5), (.subtract, 3), (.add, Int64.maxValue)])
        fun result => (∀ a ∈ result.2, a.error = none) ∧
          ∀ a ∈ result.2, 0 ≤ a.state ∧ a.state ≤ 10 := by
  have h := bounded_counter_iff 0 5 10 (by decide) (by decide) exampleOptions ⟨0, .refl _⟩
    [(.add, 5), (.subtract, 3), (.add, Int64.maxValue)] (by decide)
  refine h.mono fun stm hstm => hstm.mono fun result hresult => ?_
  exact ⟨hresult.1, hresult.2.mpr (by decide)⟩

/-- The sum fits into 64 bits and passes the maximum. -/
theorem bounded_counter_exceeds :
    Returns (new exampleOptions) fun stm => Returns (run stm [(.add, 7)]) fun result =>
      result.2.map (·.state) = [12] :=
  .ok (.ok rfl)

end Udplb.StateMachine.Counter
