import Udplb.Bpf.Kernel
import Udplb.Net

/-!
# Replacing the kernel's objects

`setObjects` writes the passive variants of the backend list, of the lookup
table and of the session map, then runs three switchovers that all store the
same pointer.  It is given as one function and as the sequence of its six
statements, since packets are processed between any two of them.  What the XDP
program selects changes at one statement only, the first switchover.
-/

namespace Udplb.Bpf

open Udplb.Foundation

structure EventObjects where
  backendList : List BackendSpecT
  lookupTable : List Nat
  sessionMap : SessionMap

def transformBackend (b : Backend) : Except RuntimeError BackendSpecT := do
  let ip ← Net.netIPv4ToUint32 b.spec.ip
  -- converting a slice to an array panics when the slice is too short
  if h : 6 ≤ b.spec.macAddr.length then
    .ok { id := b.id
          ip := ip
          port := UInt16.ofInt b.spec.port
          mac := ⟨(b.spec.macAddr.take 6).toArray, by simp [h]⟩ }
  else .error .indexOutOfRange

def transformBackendList (backends : List Backend) :
    Except RuntimeError (List BackendSpecT) :=
  backends.mapM transformBackend

theorem transformBackendList_ids {backends : List Backend}
    {list : List BackendSpecT} (h : transformBackendList backends = .ok list) :
    list.map (·.id) = backends.map (·.id) := by
  induction backends generalizing list with
  | nil =>
      cases h
      rfl
  | cons b backends ih =>
      simp only [transformBackendList, List.mapM_cons, bind_eq_ok] at h
      obtain ⟨spec, hspec, rest, hrest, h⟩ := h
      cases h
      have hid : spec.id = b.id := by
        simp only [transformBackend, bind_eq_ok] at hspec
        obtain ⟨ip, -, hspec⟩ := hspec
        split at hspec
        · cases hspec
          rfl
        · cases hspec
      rw [List.map_cons, List.map_cons, hid, ih hrest]

theorem length_transformBackendList {backends : List Backend}
    {list : List BackendSpecT} (h : transformBackendList backends = .ok list) :
    list.length = backends.length := by
  simpa using congrArg List.length (transformBackendList_ids h)

/-! ## The buffers -/

def ArrayHolds {α : Type} (list : List α) (array : Nat → α) : Prop :=
  ∀ i value, list[i]? = some value → array i = value

def MapHolds (content stored : SessionMap) : Prop :=
  ∀ session, stored.lookup session = content.lookup session

/-- `SetAndDeferSwitchover` of the three data structures. -/
structure EbpfStruct where
  backendList : DeferredSetter (List BackendSpecT) (Nat → BackendSpecT) ArrayHolds
  lookupTable : DeferredSetter (List Nat) (Nat → Nat) ArrayHolds
  sessionMap : DeferredSetter SessionMap SessionMap MapHolds

/-- The variants designated by the active pointer. -/
structure Selection where
  backendList : Nat → BackendSpecT
  lookupTable : Nat → Nat
  sessions : SessionMap

def Kernel.selected (kernel : Kernel) : Selection :=
  ⟨kernel.activeBackendList, kernel.activeLookupTable, kernel.activeSessions⟩

theorem backendIdx_congr {config : KernelConfig} {first second : Kernel}
    (h : first.selected = second.selected) (session : UUID) :
    backendIdx config first session = backendIdx config second session := by
  have hsessions : first.activeSessions = second.activeSessions :=
    congrArg Selection.sessions h
  have htable : first.activeLookupTable = second.activeLookupTable :=
    congrArg Selection.lookupTable h
  rw [backendIdx, backendIdx, hsessions, htable]

structure Selection.Holds (selection : Selection) (objs : EventObjects) : Prop where
  backendList : ArrayHolds objs.backendList selection.backendList
  lookupTable : ArrayHolds objs.lookupTable selection.lookupTable
  sessions : MapHolds objs.sessionMap selection.sessions

/-! ## `setObjects` -/

inductive SetError where
  | backendList
  | lookupTable
  | sessionMap
  deriving DecidableEq, Repr

def setObjects (E : EbpfStruct) (objs : EventObjects) (kernel : Kernel) :
    Option SetError × Kernel :=
  let b := E.backendList.set kernel.activePointer kernel.backendList
    objs.backendList
  let kernel := { kernel with backendList := b.buffer }
  match b.switchover with
  | none => (some .backendList, kernel)
  | some bSwitchover =>
      let lup := E.lookupTable.set kernel.activePointer kernel.lookupTable
        objs.lookupTable
      let kernel := { kernel with lookupTable := lup.buffer }
      match lup.switchover with
      | none => (some .lookupTable, kernel)
      | some lupSwitchover =>
          let s := E.sessionMap.set kernel.activePointer kernel.sessionMap
            objs.sessionMap
          let kernel := { kernel with sessionMap := s.buffer }
          match s.switchover with
          | none => (some .sessionMap, kernel)
          | some sSwitchover =>
              let kernel := { kernel with activePointer := bSwitchover }
              let kernel := { kernel with activePointer := lupSwitchover }
              let kernel := { kernel with activePointer := sSwitchover }
              (none, kernel)

/-- The next statement, with the pointers that the switchovers will store. -/
inductive SetPc where
  | setBackendList
  | setLookupTable (b : Nat)
  | setSessionMap (b lup : Nat)
  | bSwitchover (b lup s : Nat)
  | lupSwitchover (lup s : Nat)
  | sSwitchover (s : Nat)
  | returned (err : Option SetError)
  deriving DecidableEq, Repr

def setObjectsStep (E : EbpfStruct) (objs : EventObjects) :
    SetPc → Kernel → SetPc × Kernel
  | .setBackendList, kernel =>
      let outcome := E.backendList.set kernel.activePointer kernel.backendList
        objs.backendList
      (match outcome.switchover with
        | none => .returned (some .backendList)
        | some b => .setLookupTable b,
       { kernel with backendList := outcome.buffer })
  | .setLookupTable b, kernel =>
      let outcome := E.lookupTable.set kernel.activePointer kernel.lookupTable
        objs.lookupTable
      (match outcome.switchover with
        | none => .returned (some .lookupTable)
        | some lup => .setSessionMap b lup,
       { kernel with lookupTable := outcome.buffer })
  | .setSessionMap b lup, kernel =>
      let outcome := E.sessionMap.set kernel.activePointer kernel.sessionMap
        objs.sessionMap
      (match outcome.switchover with
        | none => .returned (some .sessionMap)
        | some s => .bSwitchover b lup s,
       { kernel with sessionMap := outcome.buffer })
  | .bSwitchover b lup s, kernel =>
      (.lupSwitchover lup s, { kernel with activePointer := b })
  | .lupSwitchover lup s, kernel =>
      (.sSwitchover s, { kernel with activePointer := lup })
  | .sSwitchover s, kernel => (.returned none, { kernel with activePointer := s })
  | .returned err, kernel => (.returned err, kernel)

/-- `setObjects` after its first `n` statements. -/
def setObjectsAfter (E : EbpfStruct) (objs : EventObjects) (kernel : Kernel) :
    Nat → SetPc × Kernel
  | 0 => (.setBackendList, kernel)
  | n + 1 =>
      let (pc, middle) := setObjectsAfter E objs kernel n
      setObjectsStep E objs pc middle

theorem setObjectsAfter_six (E : EbpfStruct) (objs : EventObjects)
    (kernel : Kernel) :
    setObjectsAfter E objs kernel 6 =
      (.returned (setObjects E objs kernel).1, (setObjects E objs kernel).2) := by
  simp only [setObjectsAfter, setObjects, setObjectsStep]
  cases (E.backendList.set kernel.activePointer kernel.backendList
      objs.backendList).switchover with
  | none => rfl
  | some b =>
      simp only
      cases (E.lookupTable.set kernel.activePointer kernel.lookupTable
          objs.lookupTable).switchover with
      | none => rfl
      | some lup =>
          simp only
          cases (E.sessionMap.set kernel.activePointer kernel.sessionMap
              objs.sessionMap).switchover <;> rfl

/-! ## One statement -/

/-- Is the next statement the first switchover? -/
def SetPc.switches : SetPc → Bool
  | .bSwitchover _ _ _ => true
  | _ => false

def SetPc.failed : SetPc → Bool
  | .returned (some _) => true
  | _ => false

def SetPc.afterSwitchover : SetPc → Bool
  | .lupSwitchover _ _ | .sSwitchover _ | .returned none => true
  | _ => false

theorem SetPc.afterSwitchover_of_switches {pc : SetPc} (h : pc.switches = true) :
    pc.afterSwitchover = false := by
  cases pc with
  | bSwitchover => rfl
  | setBackendList | setLookupTable | setSessionMap | lupSwitchover | sSwitchover
  | returned => cases h

/-- What has been prepared when a statement is reached. -/
def Ready (objs : EventObjects) (pc : SetPc) (kernel : Kernel) : Prop :=
  let other := otherPointer kernel.activePointer
  let backendListReady := ArrayHolds objs.backendList
    (kernel.backendList.passive kernel.activePointer)
  let lookupTableReady := ArrayHolds objs.lookupTable
    (kernel.lookupTable.passive kernel.activePointer)
  let sessionMapReady := MapHolds objs.sessionMap
    (kernel.sessionMap.passive kernel.activePointer)
  match pc with
  | .setBackendList => True
  | .setLookupTable b => b = other ∧ backendListReady
  | .setSessionMap b lup =>
      b = other ∧ lup = other ∧ backendListReady ∧ lookupTableReady
  | .bSwitchover b lup s =>
      b = other ∧ lup = other ∧ s = other ∧
        backendListReady ∧ lookupTableReady ∧ sessionMapReady
  -- the pointer has moved: the switchovers left store it again
  | .lupSwitchover lup s => lup = kernel.activePointer ∧ s = kernel.activePointer
  | .sSwitchover s => s = kernel.activePointer
  | .returned _ => True

theorem ready_updateSession {objs : EventObjects} {pc : SetPc} {kernel : Kernel}
    (h : Ready objs pc kernel) (session : UUID) (idx : Nat) :
    Ready objs pc (kernel.updateSession session idx) := by
  cases pc with
  | setBackendList | returned => trivial
  | setLookupTable | setSessionMap | bSwitchover | lupSwitchover | sSwitchover =>
      simpa [Ready] using h

theorem setObjectsStep_ready (E : EbpfStruct) {objs : EventObjects} {pc : SetPc}
    {kernel : Kernel} (hready : Ready objs pc kernel) :
    Ready objs (setObjectsStep E objs pc kernel).1
      (setObjectsStep E objs pc kernel).2 := by
  cases pc with
  | setBackendList =>
      cases hset : (E.backendList.set kernel.activePointer kernel.backendList
          objs.backendList).switchover with
      | none => simp [setObjectsStep, hset, Ready]
      | some b =>
          have hb := E.backendList.switchover_set _ _ _ _ hset
          simpa [setObjectsStep, hset, Ready] using hb
  | setLookupTable b =>
      cases hset : (E.lookupTable.set kernel.activePointer kernel.lookupTable
          objs.lookupTable).switchover with
      | none => simp [setObjectsStep, hset, Ready]
      | some lup =>
          have hlup := E.lookupTable.switchover_set _ _ _ _ hset
          simpa [setObjectsStep, hset, Ready] using
            ⟨hready.1, hlup.1, hready.2, hlup.2⟩
  | setSessionMap b lup =>
      cases hset : (E.sessionMap.set kernel.activePointer kernel.sessionMap
          objs.sessionMap).switchover with
      | none => simp [setObjectsStep, hset, Ready]
      | some s =>
          have hs := E.sessionMap.switchover_set _ _ _ _ hset
          obtain ⟨hb, hlup, hlist, htable⟩ := hready
          simpa [setObjectsStep, hset, Ready] using
            ⟨hb, hlup, hs.1, hlist, htable, hs.2⟩
  | bSwitchover b lup s =>
      obtain ⟨hb, hlup, hs, -⟩ := hready
      simp [setObjectsStep, Ready, hb, hlup, hs]
  | lupSwitchover lup s =>
      obtain ⟨hlup, hs⟩ := hready
      simp [setObjectsStep, Ready, hlup, hs]
  | sSwitchover s => trivial
  | returned err => trivial

theorem afterSwitchover_setObjectsStep (E : EbpfStruct) (objs : EventObjects)
    (pc : SetPc) (kernel : Kernel) :
    (setObjectsStep E objs pc kernel).1.afterSwitchover =
      (pc.switches || pc.afterSwitchover) := by
  cases pc with
  | setBackendList | setLookupTable | setSessionMap =>
      simp only [setObjectsStep]
      split <;> rfl
  | bSwitchover | lupSwitchover | sSwitchover | returned => rfl

theorem selected_setObjectsStep (E : EbpfStruct) {objs : EventObjects}
    {pc : SetPc} {kernel : Kernel} (hready : Ready objs pc kernel)
    (hpc : pc.switches = false) :
    (setObjectsStep E objs pc kernel).2.selected = kernel.selected := by
  cases pc with
  | setBackendList =>
      simp [setObjectsStep, Kernel.selected, Kernel.activeBackendList,
        Kernel.activeLookupTable, Kernel.activeSessions, E.backendList.active_set]
  | setLookupTable b =>
      simp [setObjectsStep, Kernel.selected, Kernel.activeBackendList,
        Kernel.activeLookupTable, Kernel.activeSessions, E.lookupTable.active_set]
  | setSessionMap b lup =>
      simp [setObjectsStep, Kernel.selected, Kernel.activeBackendList,
        Kernel.activeLookupTable, Kernel.activeSessions, E.sessionMap.active_set]
  | bSwitchover b lup s => cases hpc
  | lupSwitchover lup s =>
      obtain ⟨rfl, -⟩ := hready
      rfl
  | sSwitchover s =>
      obtain rfl := hready
      rfl
  | returned err => rfl

theorem holds_setObjectsStep (E : EbpfStruct) {objs : EventObjects}
    {pc : SetPc} {kernel : Kernel} (hready : Ready objs pc kernel)
    (hpc : pc.switches = true) :
    (setObjectsStep E objs pc kernel).2.selected.Holds objs := by
  cases pc with
  | bSwitchover b lup s =>
      obtain ⟨rfl, -, -, hlist, htable, hsessions⟩ := hready
      refine ⟨?_, ?_, ?_⟩
      · simpa [setObjectsStep, Kernel.selected, Kernel.activeBackendList] using hlist
      · simpa [setObjectsStep, Kernel.selected, Kernel.activeLookupTable] using htable
      · simpa [setObjectsStep, Kernel.selected, Kernel.activeSessions] using hsessions
  | setBackendList | setLookupTable | setSessionMap | lupSwitchover | sSwitchover
  | returned => cases hpc

/-! ## A whole call -/

/-- Up to the first switchover the old triple is selected, then the new one. -/
structure Progress (objs : EventObjects) (before : Selection) (pc : SetPc)
    (kernel : Kernel) : Prop where
  ready : Ready objs pc kernel
  old : pc.afterSwitchover = false → kernel.selected = before
  new : pc.afterSwitchover = true → kernel.selected.Holds objs

theorem setObjectsStep_progress (E : EbpfStruct) {objs : EventObjects}
    {before : Selection} {pc : SetPc} {kernel : Kernel}
    (h : Progress objs before pc kernel) :
    Progress objs before (setObjectsStep E objs pc kernel).1
      (setObjectsStep E objs pc kernel).2 := by
  have hafter := afterSwitchover_setObjectsStep E objs pc kernel
  cases hpc : pc.switches with
  | false =>
      rw [hpc, Bool.false_or] at hafter
      have hsame := selected_setObjectsStep E h.ready hpc
      refine ⟨setObjectsStep_ready E h.ready, ?_, ?_⟩ <;> rw [hafter, hsame]
      · exact h.old
      · exact h.new
  | true =>
      rw [hpc, Bool.true_or] at hafter
      refine ⟨setObjectsStep_ready E h.ready, ?_, ?_⟩ <;> rw [hafter]
      · exact fun h => absurd h (by simp)
      · exact fun _ => holds_setObjectsStep E h.ready hpc

theorem setObjectsAfter_progress (E : EbpfStruct) (objs : EventObjects)
    (kernel : Kernel) (n : Nat) :
    Progress objs kernel.selected (setObjectsAfter E objs kernel n).1
      (setObjectsAfter E objs kernel n).2 := by
  induction n with
  | zero => exact ⟨trivial, fun _ => rfl, fun h => by cases h⟩
  | succ n ih => exact setObjectsStep_progress E ih

/-- The atomic set that `setObjects` stands for, on what the program selects. -/
inductive Commits (objs : EventObjects) :
    Option SetError → Selection → Selection → Prop
  | failed (err : SetError) (selection : Selection) :
      Commits objs (some err) selection selection
  | done (before after : Selection) (h : after.Holds objs) :
      Commits objs none before after

theorem setObjects_commits (E : EbpfStruct) (objs : EventObjects)
    (kernel : Kernel) :
    Commits objs (setObjects E objs kernel).1 kernel.selected
      (setObjects E objs kernel).2.selected := by
  have h := setObjectsAfter_progress E objs kernel 6
  rw [setObjectsAfter_six] at h
  cases herr : (setObjects E objs kernel).1 with
  | none => exact .done _ _ (h.new (by simp [herr, SetPc.afterSwitchover]))
  | some err =>
      rw [h.old (by simp [herr, SetPc.afterSwitchover])]
      exact .failed err _

/-- A call of `setObjects`, with the data structures' behaviour during it. -/
structure SetCall where
  E : EbpfStruct
  objs : EventObjects

def SetCall.run (kernel : Kernel) (call : SetCall) : Kernel :=
  (setObjects call.E call.objs kernel).2

/--
Whatever calls were made before, and whichever set calls fail, the XDP program
finds the old triple or the new triple after each statement of `setObjects`, the
old one at an error return and the new one at a normal return.
-/
theorem setObjects_all_or_nothing (kernel : Kernel) (earlier : List SetCall)
    (E : EbpfStruct) (objs : EventObjects) :
    let before := earlier.foldl SetCall.run kernel
    (∀ n,
      (setObjectsAfter E objs before n).2.selected = before.selected ∨
        (setObjectsAfter E objs before n).2.selected.Holds objs) ∧
    ∃ err after,
      setObjects E objs before = (err, after) ∧
      setObjectsAfter E objs before 6 = (.returned err, after) ∧
      Commits objs err before.selected after.selected := by
  intro before
  constructor
  · intro n
    have h := setObjectsAfter_progress E objs before n
    cases hpc : (setObjectsAfter E objs before n).1.afterSwitchover with
    | false => exact Or.inl (h.old hpc)
    | true => exact Or.inr (h.new hpc)
  · exact ⟨_, _, rfl, setObjectsAfter_six E objs before,
      setObjects_commits E objs before⟩

/-! ## An implementation of the data structures -/

def writeArray {α : Type} (rest : α) (list : List α) (i : Nat) : α :=
  list[i]?.getD rest

theorem arrayHolds_writeArray {α : Type} (rest : α) (list : List α) :
    ArrayHolds list (writeArray rest list) := by
  intro i value hvalue
  simp [writeArray, hvalue]

/-- In-memory buffers in which the set calls fail at will. -/
def EbpfStruct.inMemory (bSucceeds lupSucceeds sSucceeds : Bool) : EbpfStruct where
  backendList := .ofWrite (writeArray .zero) (arrayHolds_writeArray _) bSucceeds
  lookupTable := .ofWrite (writeArray 0) (arrayHolds_writeArray _) lupSucceeds
  sessionMap := .ofWrite id (fun _ _ => rfl) sSucceeds

end Udplb.Bpf
