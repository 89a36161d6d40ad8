import Udplb.Foundation.Heap
import Udplb.StateMachine.Machines

/-!
# The state machines in memory

A slice is some length of a backing array that may have spare room, a map is a
reference.  Appending writes into the spare room if there is enough of it, and
otherwise moves to a new array that has as much as the runtime likes.  Each
machine holds its state in this way, and does what the value it stands for does.
-/

namespace Udplb.StateMachine

open Udplb.Foundation

theorem answer_implements {C O S T U : Type} {objects : Objects C O S}
    {execute : List C × O → Command → T → Except Panic ((List C × O) × Option Error)}
    {spec : S → Command → T → Except Panic (S × Option Error)} (state : S → U)
    (h : ∀ x verb obj, objects.Valid x →
      objects.Follows x (execute x verb obj) (spec (objects.value x) verb obj)) :
    objects.Implements (answer execute fun x => state (objects.value x))
      (answer spec state) := by
  intro x command hvalid
  have hfollows := h x command.1 command.2 hvalid
  unfold answer
  generalize execute x command.1 command.2 = actual at hfollows
  generalize spec (objects.value x) command.1 command.2 = expected at hfollows
  cases hfollows with
  | ok hkeeps hvalue =>
      subst hvalue
      exact .ok hkeeps rfl
  | error err => exact .error err

/-! ## Slices -/

/-- A slice that is not nil, from the start of its backing array. -/
structure Slice where
  array : Nat
  len : Nat

/-- The spare room of a new array, by the old and the needed room, and what fills it. -/
structure Runtime (T : Type) where
  spare : Nat → Nat → Nat
  zero : T

namespace Slice

variable {T : Type}

def objects : Objects (List T) (Option Slice) (Option (List T)) where
  ref slice := slice.map (·.array)
  Fits slice cell := ∀ s, slice = some s → s.len ≤ (cell.getD []).length
  view slice cell := slice.map fun s => (cell.getD []).take s.len

def elements (x : List (List T) × Option Slice) : List T := (objects.value x).getD []

def make (heap : List (List T)) (values : List T) : List (List T) × Option Slice :=
  (heap ++ [values], some ⟨heap.length, values.length⟩)

/-- `slice[0:i]` -/
def truncate (x : List (List T) × Option Slice) (i : Nat) : List (List T) × Option Slice :=
  (x.1, x.2.map fun s => { s with len := i })

/-- Write the first elements of the backing array. -/
def write (x : List (List T) × Option Slice) (values : List T) :
    List (List T) × Option Slice :=
  match x with
  | (heap, none) => (heap, none)
  | (heap, some s) =>
      (heap.modify s.array fun room => values ++ room.drop values.length,
        some { s with len := values.length })

def append (runtime : Runtime T) (x : List (List T) × Option Slice) (values : List T) :
    List (List T) × Option Slice :=
  let room := ((objects.cell x).getD []).length
  let all := elements x ++ values
  -- whatever else is seen through the same array sees the new elements too
  if all.length ≤ room then write x all
  else
    (x.1 ++ [all ++ List.replicate (runtime.spare room all.length) runtime.zero],
      some ⟨x.1.length, all.length⟩)

/-- The slice `y` holds `values`, and was obtained from `x`. -/
structure Stored (x : List (List T) × Option Slice) (values : Option (List T))
    (y : List (List T) × Option Slice) : Prop where
  keeps : objects.Keeps x y
  value_eq : objects.value y = values

variable {heap : List (List T)} {x y z : List (List T) × Option Slice} {s : Slice}

theorem Stored.trans {values values' : Option (List T)} (h : Stored x values y)
    (h' : Stored y values' z) : Stored x values' z :=
  ⟨h.keeps.trans h'.keeps, h'.value_eq⟩

theorem valid_some_iff : objects.Valid (heap, some s) ↔
    ∃ room, heap[s.array]? = some room ∧ s.len ≤ room.length := by
  constructor
  · rintro ⟨hheld, hfits⟩
    have hlt := hheld s.array rfl
    refine ⟨heap.get ⟨s.array, hlt⟩, List.getElem?_eq_getElem hlt, ?_⟩
    simpa [Objects.cell, objects, hlt] using hfits s rfl
  · rintro ⟨room, hroom, hlen⟩
    refine ⟨?_, ?_⟩
    · rintro r ⟨⟩
      exact (List.getElem?_eq_some_iff.mp hroom).1
    · rintro s' ⟨⟩
      simpa [Objects.cell, objects, hroom] using hlen

theorem value_some {room : List T} (hroom : heap[s.array]? = some room) :
    objects.value (heap, some s) = some (room.take s.len) := by
  simp [Objects.value, Objects.cell, objects, hroom]

theorem alloc_stored (x : List (List T) × Option Slice) (values spare : List T) :
    Stored x (some values) (x.1 ++ [values ++ spare], some ⟨x.1.length, values.length⟩) := by
  have hroom : (x.1 ++ [values ++ spare])[x.1.length]? = some (values ++ spare) := by simp
  refine ⟨⟨valid_some_iff.mpr ⟨_, hroom, by simp⟩, .alloc _, Or.inr .alloc⟩, ?_⟩
  rw [value_some hroom, List.take_left]

theorem make_stored (x : List (List T) × Option Slice) (values : List T) :
    Stored x (some values) (make x.1 values) := by
  have h := alloc_stored x values []
  rw [List.append_nil] at h
  exact h

theorem truncate_stored (hx : objects.Valid (heap, some s)) {i : Nat} (hi : i ≤ s.len) :
    Stored (heap, some s) (some ((elements (heap, some s)).take i))
      (truncate (heap, some s) i) := by
  obtain ⟨room, hroom, hlen⟩ := valid_some_iff.mp hx
  refine ⟨⟨valid_some_iff.mpr ⟨room, hroom, Nat.le_trans hi hlen⟩, .refl, Or.inl rfl⟩, ?_⟩
  rw [elements, value_some hroom, Option.getD_some, List.take_take, Nat.min_eq_left hi]
  exact value_some (s := ⟨s.array, i⟩) hroom

theorem write_stored {room values : List T} (hroom : heap[s.array]? = some room) :
    Stored (heap, some s) (some values) (write (heap, some s) values) := by
  have hroom' : (heap.modify s.array fun room => values ++ room.drop values.length)[s.array]? =
      some (values ++ room.drop values.length) := by
    simp [hroom]
  refine ⟨⟨valid_some_iff.mpr ⟨_, hroom', by simp⟩, .modify _ _, Or.inl rfl⟩, ?_⟩
  refine (value_some (s := ⟨s.array, values.length⟩) hroom').trans ?_
  rw [List.take_left]

theorem append_stored (runtime : Runtime T) (hx : objects.Valid x) {values : List T}
    (hvalues : values ≠ []) :
    Stored x (some (elements x ++ values)) (append runtime x values) := by
  unfold append
  dsimp only
  split
  · rename_i hfits
    obtain ⟨heap, slice⟩ := x
    cases slice with
    | none =>
        have hnil : values = [] := by
          simpa [Objects.cell, Objects.value, objects, elements] using hfits
        exact absurd hnil hvalues
    | some s =>
        obtain ⟨room, hroom, -⟩ := valid_some_iff.mp hx
        exact write_stored hroom
  · exact alloc_stored x _ _

theorem write_map_stored (hx : objects.Valid x) (f : T → T) :
    Stored x ((objects.value x).map (·.map f)) (write x ((elements x).map f)) := by
  obtain ⟨heap, slice⟩ := x
  cases slice with
  | none => exact ⟨.refl hx, rfl⟩
  | some s =>
      obtain ⟨room, hroom, -⟩ := valid_some_iff.mp hx
      rw [elements, value_some hroom]
      exact write_stored hroom

/-- The elements before `i` stay where they are, unless there are none. -/
def cut (x : List (List T) × Option Slice) (i : Nat) : List (List T) × Option Slice :=
  if 0 < i then truncate x i else make x.1 []

theorem cut_stored (hx : objects.Valid x) {i : Nat} (hi : i < (elements x).length) :
    Stored x (some ((elements x).take i)) (cut x i) := by
  rw [cut]
  split
  · obtain ⟨heap, slice⟩ := x
    cases slice with
    | none => simp [elements, Objects.value, objects] at hi
    | some s =>
        obtain ⟨room, hroom, hlen⟩ := valid_some_iff.mp hx
        have hle : i ≤ s.len := by
          simp only [elements, value_some hroom, Option.getD_some, List.length_take] at hi
          omega
        exact truncate_stored hx hle
  · have hzero : i = 0 := by omega
    rw [hzero, List.take_zero]
    exact make_stored x []

end Slice

/-! ## Array -/

structure ArrayObject (T : Type) where
  state : Option Slice
  filter : Option (T → T → Bool)

namespace ArrayObject

variable {T : Type}

def objects : Objects (List T) (ArrayObject T) (Array T) :=
  Slice.objects.comap (·.state) fun stm state => ⟨state, stm.filter⟩

def slice (x : List (List T) × ArrayObject T) : List (List T) × Option Slice :=
  (x.1, x.2.state)

def setState (state : List (List T) × Option Slice) (stm : ArrayObject T) :
    List (List T) × ArrayObject T :=
  (state.1, { stm with state := state.2 })

def executeAppend (runtime : Runtime T) (x : List (List T) × ArrayObject T) (obj : T) :
    List (List T) × ArrayObject T :=
  setState (Slice.append runtime (slice x) [obj]) x.2

def executePut (x : List (List T) × ArrayObject T) (obj : T) :
    (List (List T) × ArrayObject T) × Option Error :=
  match x.2.filter with
  | none => (x, some .operationRequiresAFilterFunc)
  | some filter =>
      let state := (Slice.elements (slice x)).map fun o => if filter obj o then obj else o
      (setState (Slice.write (slice x) state) x.2, none)

def executeDelete (runtime : Runtime T) (x : List (List T) × ArrayObject T) (obj : T) :
    (List (List T) × ArrayObject T) × Option Error :=
  match x.2.filter with
  | none => (x, some .operationRequiresAFilterFunc)
  | some filter =>
      let state := Slice.elements (slice x)
      match state.findIdx? (filter obj) with
      | none => (x, some .notFound)
      | some i =>
          let out := Slice.cut (slice x) i
          -- `state[i+1:]` is read before `append` shifts it over the same array
          let out :=
            if i < state.length - 1 then Slice.append runtime out (state.drop (i + 1))
            else out
          (setState out x.2, none)

def execute (runtime : Runtime T) (x : List (List T) × ArrayObject T) :
    Command → T → Except Panic ((List (List T) × ArrayObject T) × Option Error)
  | .append, obj => .ok (executeAppend runtime x obj, none)
  | .put, obj => .ok (executePut x obj)
  | .delete, obj => .ok (executeDelete runtime x obj)
  | _, _ => .ok (x, some .unsupportedStateMachineCommand)

def stateCopy (x : List (List T) × ArrayObject T) : List (List T) × Option Slice :=
  Slice.make x.1 (Slice.elements (slice x))

def deepCopy (x : List (List T) × ArrayObject T) : List (List T) × ArrayObject T :=
  setState (stateCopy x) x.2

variable {x : List (List T) × ArrayObject T}

theorem value_filter : (objects.value x).filter = x.2.filter := rfl

theorem value_state : (objects.value x).state.getD [] = Slice.elements (slice x) := rfl

theorem follows_of_stored {ε β : Type} {state : Option (List T)}
    {y : List (List T) × Option Slice} (h : Slice.Stored (slice x) state y) (out : β) :
    objects.Follows (ε := ε) x (.ok (setState y x.2, out))
      (.ok ((objects.value x).setState state, out)) := by
  refine .ok (Objects.Keeps.comap h.keeps) ?_
  exact congrArg (Array.mk · x.2.filter) h.value_eq

theorem executeDelete_stored (runtime : Runtime T) (hx : Slice.objects.Valid (slice x))
    {i : Nat} (hi : i < (Slice.elements (slice x)).length) :
    Slice.Stored (slice x) (some ((Slice.elements (slice x)).eraseIdx i))
      (if i < (Slice.elements (slice x)).length - 1 then
        Slice.append runtime (Slice.cut (slice x) i)
          ((Slice.elements (slice x)).drop (i + 1))
      else Slice.cut (slice x) i) := by
  have hcut := Slice.cut_stored hx hi
  rw [List.eraseIdx_eq_take_drop_succ]
  split
  · rename_i hlt
    have hne : (Slice.elements (slice x)).drop (i + 1) ≠ [] := by
      rw [Ne, List.drop_eq_nil_iff]
      omega
    have happend := Slice.append_stored runtime hcut.keeps.valid hne
    rw [show Slice.elements (Slice.cut (slice x) i) = (Slice.elements (slice x)).take i by
      rw [Slice.elements, hcut.value_eq]; rfl] at happend
    exact hcut.trans happend
  · rename_i hlast
    rw [List.drop_eq_nil_of_le (by omega), List.append_nil]
    exact hcut

theorem executePut_follows (hx : objects.Valid x) (obj : T) :
    objects.Follows (ε := Panic) x (.ok (executePut x obj))
      (.ok ((objects.value x).executePut obj)) := by
  rw [executePut, Array.executePut, value_filter]
  cases x.2.filter with
  | none => exact .ok (.refl hx) rfl
  | some filter =>
      exact follows_of_stored (Slice.write_map_stored (Objects.valid_comap.mp hx) _) none

theorem executeDelete_follows (runtime : Runtime T) (hx : objects.Valid x) (obj : T) :
    objects.Follows (ε := Panic) x (.ok (executeDelete runtime x obj))
      (.ok ((objects.value x).executeDelete obj)) := by
  rw [executeDelete, Array.executeDelete, value_filter, value_state]
  cases x.2.filter with
  | none => exact .ok (.refl hx) rfl
  | some filter =>
      dsimp only
      cases hfind : (Slice.elements (slice x)).findIdx? (filter obj) with
      | none => exact .ok (.refl hx) rfl
      | some i =>
          have hlt := (List.findIdx?_eq_some_iff_getElem.mp hfind).1
          exact follows_of_stored
            (executeDelete_stored runtime (Objects.valid_comap.mp hx) hlt) none

theorem execute_follows (runtime : Runtime T) (hx : objects.Valid x) (verb : Command)
    (obj : T) :
    objects.Follows x (execute runtime x verb obj) ((objects.value x).execute verb obj) := by
  cases verb with
  | append =>
      exact follows_of_stored
        (Slice.append_stored runtime (Objects.valid_comap.mp hx) (by simp)) none
  | put => exact executePut_follows hx obj
  | delete => exact executeDelete_follows runtime hx obj
  | add | subtract | other => exact .ok (.refl hx) rfl

theorem copies_array : objects.Copies (deepCopy (T := T)) Array.deepCopy where
  valid x _ := Objects.valid_comap.mpr (Slice.make_stored (slice x) _).keeps.valid
  frame _ := .alloc _
  fresh _ := .alloc
  value_eq x _ := congrArg (Array.mk · x.2.filter) (Slice.make_stored (slice x) _).value_eq

theorem value_stateCopy (x : List (List T) × ArrayObject T) :
    Slice.objects.value (stateCopy x) = (objects.value x).stateCopy :=
  (Slice.make_stored (slice x) _).value_eq

end ArrayObject

/-! ## Maps and sets -/

abbrev Entries (K V : Type) := Finmap fun _ : K => V

namespace MapRef

variable {K V : Type}

def objects : Objects (Entries K V) (Option Nat) (NilableMap K V) where
  ref state := state
  Fits _ _ := True
  view _ cell := cell

def update (x : List (Entries K V) × Option Nat)
    (f : Entries K V → Entries K V) :
    List (Entries K V) × Option Nat :=
  match x with
  | (heap, none) => (heap, none)
  | (heap, some r) => (heap.modify r f, some r)

def copyMap (x : List (Entries K V) × Option Nat) :
    List (Entries K V) × Option Nat :=
  (x.1 ++ [(objects.value x).entries], some x.1.length)

variable {heap : List (Entries K V)} {r : Nat}
  {x : List (Entries K V) × Option Nat}

theorem valid_some_iff : objects.Valid (heap, some r) ↔ ∃ entries, heap[r]? = some entries := by
  constructor
  · rintro ⟨hheld, -⟩
    exact ⟨_, List.getElem?_eq_getElem (hheld r rfl)⟩
  · rintro ⟨entries, hentries⟩
    refine ⟨?_, trivial⟩
    rintro r' ⟨⟩
    exact (List.getElem?_eq_some_iff.mp hentries).1

theorem value_some : objects.value (heap, some r) = heap[r]? := rfl

theorem update_keeps (hx : objects.Valid x)
    (f : Entries K V → Entries K V) :
    objects.Keeps x (update x f) ∧
      objects.value (update x f) = (objects.value x).map f := by
  obtain ⟨heap, state⟩ := x
  cases state with
  | none => exact ⟨.refl hx, rfl⟩
  | some r =>
      obtain ⟨entries, hentries⟩ := valid_some_iff.mp hx
      have hupdated : (heap.modify r f)[r]? = some (f entries) := by simp [hentries]
      refine ⟨⟨valid_some_iff.mpr ⟨_, hupdated⟩, .modify r f, Or.inl rfl⟩, ?_⟩
      rw [value_some, hentries]
      exact hupdated

theorem copyMap_valid (x : List (Entries K V) × Option Nat) :
    objects.Valid (copyMap x) :=
  valid_some_iff.mpr ⟨(objects.value x).entries, by simp⟩

theorem isSome_value (hx : objects.Valid x) : (objects.value x).isSome = x.2.isSome := by
  obtain ⟨heap, state⟩ := x
  cases state with
  | none => rfl
  | some r =>
      obtain ⟨entries, hentries⟩ := valid_some_iff.mp hx
      simp [value_some, hentries]

theorem value_copyMap (x : List (Entries K V) × Option Nat) :
    objects.value (copyMap x) = StateMachine.copyMap (objects.value x) := by
  refine value_some.trans ?_
  simp [StateMachine.copyMap]

variable [DecidableEq K]

def writeEntry (x : List (Entries K V) × Option Nat) (k : K) (v : V) :
    Except Panic (List (Entries K V) × Option Nat) :=
  match x.2 with
  | some _ => .ok (update x (·.insert k v))
  | none => .error .assignmentToEntryInNilMap

def deleteEntry (x : List (Entries K V) × Option Nat) (k : K) :
    List (Entries K V) × Option Nat :=
  update x (·.erase k)

theorem writeEntry_cases (hx : objects.Valid x) (k : K) (v : V) :
    (∃ err, writeEntry x k v = .error err ∧
      StateMachine.writeEntry (objects.value x) k v = .error err) ∨
    ∃ y, writeEntry x k v = .ok y ∧
      StateMachine.writeEntry (objects.value x) k v = .ok (objects.value y) ∧
      objects.Keeps x y := by
  obtain ⟨heap, state⟩ := x
  cases state with
  | none => exact Or.inl ⟨_, rfl, rfl⟩
  | some r =>
      obtain ⟨hkeeps, hvalue⟩ := update_keeps hx (·.insert k v)
      obtain ⟨entries, hentries⟩ := valid_some_iff.mp hx
      refine Or.inr ⟨_, rfl, ?_, hkeeps⟩
      rw [hvalue, value_some, hentries]
      rfl

end MapRef

structure HashmapObject (E K V : Type) where
  state : Option Nat
  transformFunc : E → Except String (K × V)

namespace HashmapObject

variable {E K V : Type}

def objects : Objects (Entries K V) (HashmapObject E K V) (Hashmap E K V) :=
  MapRef.objects.comap (·.state) fun stm state => ⟨state, stm.transformFunc⟩

def mapRef (x : List (Entries K V) × HashmapObject E K V) : List (Entries K V) × Option Nat :=
  (x.1, x.2.state)

def setState (state : List (Entries K V) × Option Nat) (stm : HashmapObject E K V) :
    List (Entries K V) × HashmapObject E K V :=
  (state.1, { stm with state := state.2 })

def stateCopy (x : List (Entries K V) × HashmapObject E K V) :
    List (Entries K V) × Option Nat :=
  MapRef.copyMap (mapRef x)

def deepCopy (x : List (Entries K V) × HashmapObject E K V) :
    List (Entries K V) × HashmapObject E K V :=
  setState (stateCopy x) x.2

theorem copies_hashmap :
    objects.Copies (deepCopy (E := E) (K := K) (V := V)) Hashmap.deepCopy where
  valid x _ := Objects.valid_comap.mpr (MapRef.copyMap_valid (mapRef x))
  frame _ := .alloc _
  fresh _ := .alloc
  value_eq x _ := congrArg (Hashmap.mk · _) (MapRef.value_copyMap (mapRef x))

variable {x : List (Entries K V) × HashmapObject E K V}

theorem value_transformFunc : (objects.value x).transformFunc = x.2.transformFunc := rfl

theorem value_state : (objects.value x).state = MapRef.objects.value (mapRef x) := rfl

theorem isSome_state (hx : objects.Valid x) :
    (objects.value x).state.isSome = x.2.state.isSome :=
  MapRef.isSome_value (Objects.valid_comap.mp hx)

variable [DecidableEq K]

def execute (x : List (Entries K V) × HashmapObject E K V) (verb : Command) (obj : E) :
    Except Panic ((List (Entries K V) × HashmapObject E K V) × Option Error) :=
  match x.2.transformFunc obj with
  | .error message => .ok (x, some (.transform message))
  | .ok (k, v) =>
      match verb with
      | .put => do
          let state ← MapRef.writeEntry (mapRef x) k v
          .ok (setState state x.2, none)
      | .delete => .ok (setState (MapRef.deleteEntry (mapRef x) k) x.2, none)
      | _ => .ok (x, some .unsupportedStateMachineCommand)

theorem execute_follows (hx : objects.Valid x) (verb : Command) (obj : E) :
    objects.Follows x (execute x verb obj) ((objects.value x).execute verb obj) := by
  have hvalid : MapRef.objects.Valid (mapRef x) := Objects.valid_comap.mp hx
  rw [execute, Hashmap.execute, value_transformFunc]
  cases x.2.transformFunc obj with
  | error message => exact .ok (.refl hx) rfl
  | ok entry =>
      obtain ⟨k, v⟩ := entry
      cases verb with
      | put =>
          dsimp only
          rw [value_state]
          rcases MapRef.writeEntry_cases hvalid k v with
            ⟨err, hwrite, hspec⟩ | ⟨y, hwrite, hspec, hkeeps⟩
          · rw [hwrite, hspec]
            exact .error err
          · rw [hwrite, hspec]
            exact .ok (Objects.Keeps.comap hkeeps) rfl
      | delete =>
          obtain ⟨hkeeps, hvalue⟩ := MapRef.update_keeps hvalid (·.erase k)
          exact .ok (Objects.Keeps.comap hkeeps) (congrArg (Hashmap.mk · _) hvalue)
      | add | append | subtract | other => exact .ok (.refl hx) rfl

end HashmapObject

structure SetObject (T : Type) where
  state : Option Nat

namespace SetObject

variable {T : Type}

def objects : Objects (Entries T Unit) (SetObject T) (Set T) :=
  MapRef.objects.comap (·.state) fun _ state => ⟨state⟩

def mapRef (x : List (Entries T Unit) × SetObject T) : List (Entries T Unit) × Option Nat :=
  (x.1, x.2.state)

def setState (state : List (Entries T Unit) × Option Nat) (_ : SetObject T) :
    List (Entries T Unit) × SetObject T :=
  (state.1, ⟨state.2⟩)

def stateCopy (x : List (Entries T Unit) × SetObject T) : List (Entries T Unit) × Option Nat :=
  MapRef.copyMap (mapRef x)

def deepCopy (x : List (Entries T Unit) × SetObject T) :
    List (Entries T Unit) × SetObject T :=
  setState (stateCopy x) x.2

theorem copies_set : objects.Copies (deepCopy (T := T)) Set.deepCopy where
  valid x _ := Objects.valid_comap.mpr (MapRef.copyMap_valid (mapRef x))
  frame _ := .alloc _
  fresh _ := .alloc
  value_eq x _ := congrArg Set.mk (MapRef.value_copyMap (mapRef x))

variable {x : List (Entries T Unit) × SetObject T}

theorem value_state : (objects.value x).state = MapRef.objects.value (mapRef x) := rfl

theorem isSome_state (hx : objects.Valid x) :
    (objects.value x).state.isSome = x.2.state.isSome :=
  MapRef.isSome_value (Objects.valid_comap.mp hx)

variable [DecidableEq T]

def execute (x : List (Entries T Unit) × SetObject T) :
    Command → T → Except Panic ((List (Entries T Unit) × SetObject T) × Option Error)
  | .put, obj => do
      let state ← MapRef.writeEntry (mapRef x) obj ()
      .ok (setState state x.2, none)
  | .delete, obj => .ok (setState (MapRef.deleteEntry (mapRef x) obj) x.2, none)
  | _, _ => .ok (x, some .unsupportedStateMachineCommand)

theorem execute_follows (hx : objects.Valid x) (verb : Command) (obj : T) :
    objects.Follows x (execute x verb obj) ((objects.value x).execute verb obj) := by
  have hvalid : MapRef.objects.Valid (mapRef x) := Objects.valid_comap.mp hx
  cases verb with
  | put =>
      rw [execute, Set.execute, value_state]
      rcases MapRef.writeEntry_cases hvalid obj () with
        ⟨err, hwrite, hspec⟩ | ⟨y, hwrite, hspec, hkeeps⟩
      · rw [hwrite, hspec]
        exact .error err
      · rw [hwrite, hspec]
        exact .ok (Objects.Keeps.comap hkeeps) rfl
  | delete =>
      obtain ⟨hkeeps, hvalue⟩ := MapRef.update_keeps hvalid (·.erase obj)
      exact .ok (Objects.Keeps.comap hkeeps) (congrArg Set.mk hvalue)
  | add | append | subtract | other => exact .ok (.refl hx) rfl

end SetObject

/-! ## Counter -/

namespace CounterObject

/-- A counter has its state by value; nothing writes through its bounds. -/
def objects : Objects Unit Counter Counter where
  ref _ := none
  Fits _ _ := True
  view stm _ := stm

def execute (x : List Unit × Counter) (verb : Command) (obj : Int64) :
    Except Panic ((List Unit × Counter) × Option Error) := do
  let (next, err) ← x.2.execute verb obj
  .ok ((x.1, next), err)

def deepCopy (x : List Unit × Counter) : List Unit × Counter := (x.1, x.2.deepCopy)

theorem valid (x : List Unit × Counter) : objects.Valid x := ⟨by simp [objects], trivial⟩

theorem execute_follows {x : List Unit × Counter} (verb : Command) (obj : Int64) :
    objects.Follows x (execute x verb obj) ((objects.value x).execute verb obj) := by
  unfold execute
  change objects.Follows x (x.2.execute verb obj >>= _) (x.2.execute verb obj)
  cases x.2.execute verb obj with
  | error err => exact .error err
  | ok result => exact .ok ⟨valid _, .refl, Or.inl rfl⟩ rfl

theorem copies_counter : objects.Copies deepCopy Counter.deepCopy where
  valid x _ := valid _
  frame _ := .refl
  fresh x := by simp [Fresh, objects]
  value_eq x _ := rfl

end CounterObject

end Udplb.StateMachine
