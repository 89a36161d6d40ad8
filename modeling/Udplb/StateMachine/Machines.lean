import Udplb.Foundation.Codec

/-!
# The state machines

An array, a map, a set and a counter behind one interface.  Each is built with
options, the one they share being the initial state, so that every state is the
state of some machine.  A nil slice or map differs from an empty one in what it
is encoded to; `State` does not tell them apart.
-/

namespace Udplb.StateMachine

open Udplb.Foundation

inductive Command where
  | add
  | append
  | delete
  | put
  | subtract
  | other (name : String)
  deriving DecidableEq, Repr

inductive Error where
  | unsupportedStateMachineCommand
  | operationRequiresAFilterFunc
  | notFound
  | transform (message : String)
  | noOverflow
  | noUnderflow
  | inputMustBeAPositiveInteger
  | transformFuncMustNotBeNil
  deriving DecidableEq, Repr

/-- What stops the program instead of being returned. -/
inductive Panic where
  | assignmentToEntryInNilMap
  deriving DecidableEq, Repr

/-- The interface: `σ` is what a machine holds, `U` the state it shows. -/
structure Interface (σ T U : Type) where
  decode : σ → Bytes → σ × Option CodecError
  encode : σ → Except CodecError Bytes
  execute : σ → Command → T → Except Panic (σ × Option Error)
  state : σ → U

/-- `encodeDefault` and `decodeDefault`, on the state a machine holds. -/
def Interface.ofCodec {σ T U : Type} (codec : Codec U)
    (get : σ → U) (setState : U → σ → σ)
    (execute : σ → Command → T → Except Panic (σ × Option Error)) (state : σ → U) :
    Interface σ T U where
  decode stm buf :=
    let (state, err) := codec.unmarshal buf (get stm)
    (setState state stm, err)
  encode stm := codec.marshal (get stm)
  execute := execute
  state := state

def execOptions {σ : Type} (options : List (σ → Except Error σ)) (stm : σ) :
    Except Error σ :=
  options.foldlM (fun stm option => option stm) stm

/-- What a machine answers to a command: its error and the state it then shows. -/
structure Answer (U : Type) where
  error : Option Error
  state : U

def answer {σ T U : Type} (execute : σ → Command → T → Except Panic (σ × Option Error))
    (state : σ → U) (stm : σ) (command : Command × T) :
    Except Panic (σ × List (Answer U)) := do
  let (next, err) ← execute stm command.1 command.2
  .ok (next, [⟨err, state next⟩])

section Answers

variable {σ T U : Type} {execute : σ → Command → T → Except Panic (σ × Option Error)}
  {state : σ → U} {stm next : σ} {command : Command × T}

theorem answer_of_execute {err : Option Error}
    (h : execute stm command.1 command.2 = .ok (next, err)) :
    answer execute state stm command = .ok (next, [⟨err, state next⟩]) := by
  rw [answer, h]
  rfl

theorem answer_eq_error_iff {panic : Panic} :
    answer execute state stm command = .error panic ↔
      execute stm command.1 command.2 = .error panic := by
  unfold answer
  cases execute stm command.1 command.2 with
  | error panic' => exact ⟨fun h => by cases h; rfl, fun h => by cases h; rfl⟩
  | ok result => exact iff_of_false (fun h => by cases h) (fun h => by cases h)

end Answers

/-! ## Array -/

structure Array (T : Type) where
  state : Option (List T)
  filter : Option (T → T → Bool)

namespace Array

variable {T : Type}

def setState (state : Option (List T)) (stm : Array T) : Array T :=
  { stm with state := state }

def withInitialState (state : Option (List T)) (stm : Array T) :
    Except Error (Array T) :=
  .ok (stm.setState state)

def new (filter : Option (T → T → Bool))
    (options : List (Array T → Except Error (Array T))) : Except Error (Array T) :=
  execOptions options ⟨some [], filter⟩

def executeAppend (stm : Array T) (obj : T) : Array T :=
  stm.setState (some (stm.state.getD [] ++ [obj]))

def executePut (stm : Array T) (obj : T) : Array T × Option Error :=
  match stm.filter with
  | none => (stm, some .operationRequiresAFilterFunc)
  | some filter =>
      (stm.setState (stm.state.map (·.map fun o => if filter obj o then obj else o)),
        none)

def executeDelete (stm : Array T) (obj : T) : Array T × Option Error :=
  match stm.filter with
  | none => (stm, some .operationRequiresAFilterFunc)
  | some filter =>
      match (stm.state.getD []).findIdx? (filter obj) with
      | some i => (stm.setState (some ((stm.state.getD []).eraseIdx i)), none)
      | none => (stm, some .notFound)

def execute (stm : Array T) : Command → T → Except Panic (Array T × Option Error)
  | .append, obj => .ok (stm.executeAppend obj, none)
  | .put, obj => .ok (stm.executePut obj)
  | .delete, obj => .ok (stm.executeDelete obj)
  | _, _ => .ok (stm, some .unsupportedStateMachineCommand)

/-- A copy, which is not nil. -/
def stateCopy (stm : Array T) : Option (List T) := some (stm.state.getD [])

def deepCopy (stm : Array T) : Array T := ⟨stm.stateCopy, stm.filter⟩

def interface (codec : Codec (Option (List T))) :
    Interface (Array T) T (Option (List T)) :=
  .ofCodec codec (·.state) setState execute stateCopy

end Array

/-! ## Maps and sets -/

/-- A write to an entry of a map: the nil map has none. -/
def writeEntry {K V : Type} [DecidableEq K] (state : NilableMap K V) (k : K) (v : V) :
    Except Panic (NilableMap K V) :=
  match state with
  | some entries => .ok (some (entries.insert k v))
  | none => .error .assignmentToEntryInNilMap

def deleteEntry {K V : Type} [DecidableEq K] (state : NilableMap K V) (k : K) :
    NilableMap K V :=
  state.map (·.erase k)

def copyMap {K V : Type} (state : NilableMap K V) : NilableMap K V :=
  some state.entries

structure Hashmap (E K V : Type) where
  state : NilableMap K V
  transformFunc : E → Except String (K × V)

namespace Hashmap

variable {E K V : Type} [DecidableEq K]

def setState (state : NilableMap K V) (stm : Hashmap E K V) : Hashmap E K V :=
  { stm with state := state }

def withInitialState (state : NilableMap K V) (stm : Hashmap E K V) :
    Except Error (Hashmap E K V) :=
  .ok (stm.setState state)

def new (transformFunc : Option (E → Except String (K × V)))
    (options : List (Hashmap E K V → Except Error (Hashmap E K V))) :
    Except Error (Hashmap E K V) :=
  match transformFunc with
  | none => .error .transformFuncMustNotBeNil
  | some transformFunc => execOptions options ⟨some ∅, transformFunc⟩

def execute (stm : Hashmap E K V) (verb : Command) (obj : E) :
    Except Panic (Hashmap E K V × Option Error) :=
  match stm.transformFunc obj with
  | .error message => .ok (stm, some (.transform message))
  | .ok (k, v) =>
      match verb with
      | .put => do
          let state ← writeEntry stm.state k v
          .ok (stm.setState state, none)
      | .delete => .ok (stm.setState (deleteEntry stm.state k), none)
      | _ => .ok (stm, some .unsupportedStateMachineCommand)

def deepCopy (stm : Hashmap E K V) : Hashmap E K V :=
  ⟨copyMap stm.state, stm.transformFunc⟩

def interface (codec : Codec (NilableMap K V)) :
    Interface (Hashmap E K V) E (NilableMap K V) :=
  .ofCodec codec (·.state) setState execute fun stm => copyMap stm.state

end Hashmap

structure Set (T : Type) where
  state : NilableMap T Unit

namespace Set

variable {T : Type} [DecidableEq T]

def setState (state : NilableMap T Unit) (_ : Set T) : Set T := ⟨state⟩

def withInitialState (state : NilableMap T Unit) (stm : Set T) : Except Error (Set T) :=
  .ok (stm.setState state)

def new (options : List (Set T → Except Error (Set T))) : Except Error (Set T) :=
  execOptions options ⟨some ∅⟩

def execute (stm : Set T) : Command → T → Except Panic (Set T × Option Error)
  | .put, obj => do
      let state ← writeEntry stm.state obj ()
      .ok (stm.setState state, none)
  | .delete, obj => .ok (stm.setState (deleteEntry stm.state obj), none)
  | _, _ => .ok (stm, some .unsupportedStateMachineCommand)

def deepCopy (stm : Set T) : Set T := ⟨copyMap stm.state⟩

def interface (codec : Codec (NilableMap T Unit)) :
    Interface (Set T) T (NilableMap T Unit) :=
  .ofCodec codec (·.state) setState execute fun stm => copyMap stm.state

end Set

/-! ## Counter -/

structure Counter where
  allowOverflow : Bool
  maxVal : Option Int64
  minVal : Option Int64
  state : Int64

namespace Counter

def setState (state : Int64) (stm : Counter) : Counter :=
  { stm with state := state }

def withInitialState (state : Int64) (stm : Counter) : Except Error Counter :=
  .ok (stm.setState state)

def counterWithAllowOverflow (stm : Counter) : Except Error Counter :=
  .ok { stm with allowOverflow := true }

def counterWithMaximumValue (maxVal : Int64) (stm : Counter) : Except Error Counter :=
  .ok { stm with maxVal := some maxVal }

def counterWithMinimumValue (minVal : Int64) (stm : Counter) : Except Error Counter :=
  .ok { stm with minVal := some minVal }

def new (options : List (Counter → Except Error Counter)) : Except Error Counter :=
  execOptions options ⟨false, none, none, 0⟩

def add (stm : Counter) (i : Int64) : Counter × Option Error :=
  if i < 0 then (stm, some .inputMustBeAPositiveInteger)
  else if i = 0 then (stm, none)
  else
    let newState := stm.state + i
    let hasOverflown : Bool := newState < stm.state
    match stm.maxVal with
    | some maxVal =>
        if hasOverflown ∨ maxVal < stm.state then (stm.setState maxVal, none)
        else (stm.setState newState, none)
    | none =>
        if hasOverflown ∧ stm.allowOverflow = false then (stm, some .noOverflow)
        else (stm.setState newState, none)

def subtract (stm : Counter) (i : Int64) : Counter × Option Error :=
  if i < 0 then (stm, some .inputMustBeAPositiveInteger)
  else if i = 0 then (stm, none)
  else
    let newState := stm.state - i
    let hasUnderFlown : Bool := stm.state < newState
    match stm.minVal with
    | some minVal =>
        if hasUnderFlown ∨ stm.state < minVal then (stm.setState minVal, none)
        else (stm.setState newState, none)
    | none =>
        if hasUnderFlown ∧ stm.allowOverflow = false then (stm, some .noUnderflow)
        else (stm.setState newState, none)

def execute (stm : Counter) : Command → Int64 → Except Panic (Counter × Option Error)
  | .add, obj => .ok (stm.add obj)
  | .subtract, obj => .ok (stm.subtract obj)
  | _, _ => .ok (stm, some .unsupportedStateMachineCommand)

def deepCopy (stm : Counter) : Counter := ⟨false, stm.maxVal, stm.minVal, stm.state⟩

def interface (codec : Codec Int64) : Interface Counter Int64 Int64 :=
  .ofCodec codec (·.state) setState execute (·.state)

end Counter

end Udplb.StateMachine
