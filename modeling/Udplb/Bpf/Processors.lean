import Udplb.Bpf.Exits
import Udplb.Bpf.Manager
import Udplb.Foundation.Interleaving
import Udplb.Foundation.Trace

/-!
# The XDP program on several processors

Packets are processed in parallel, and userland replaces the maps meanwhile.  A
task is a packet on some processor together with the statement it is at; tasks
and userland take turns in any order.  The program reads `active_pointer` once
for each of the three maps.  A pointer into an array shows what the array holds
when it is used; the index found in the session map is the one that was there.

A task that no switchover overtakes does at each statement what its packet would
do if it were processed at once.
-/

namespace Udplb.Bpf.Processors

open Udplb.Foundation

/-- The pointers that a task has read, one for each map. -/
structure Variants where
  backends : Nat
  table : Nat
  sessions : Nat
  deriving DecidableEq, Repr

/-- What `backend_idx` points to. -/
inductive IdxRef where
  | entry (idx : Nat)
  | slot (variant key : Nat)
  deriving DecidableEq, Repr

def IdxRef.read (kernel : Kernel) : IdxRef → Nat
  | .entry idx => idx
  | .slot variant key => kernel.lookupTable.active variant key

/-- The next statement of a task. -/
inductive Pc where
  | guards
  | getBackendList
  | getLookupTable (backends : Nat)
  | getSessions (backends table : Nat)
  | findSession (v : Variants)
  | findSlot (v : Variants)
  | findBackend (v : Variants) (ref : IdxRef)
  | reserve (v : Variants) (ref : IdxRef) (idx : Nat)
  | update (v : Variants) (ref : IdxRef) (idx : Nat)
  | rewrite (backends idx : Nat)
  | exited (action : XdpAction) (frame : Frame)
  deriving DecidableEq, Repr

structure Task where
  packet : Packet
  pc : Pc
  deriving DecidableEq, Repr

/-- The action of the guards, unless they admit the packet. -/
def refusal (config : KernelConfig) (frame : Frame) : Option XdpAction :=
  if mustLoadbalance frame config.ip config.port = false then some .pass
  else if slice frame 6 6 = config.mac.toList then some .drop
  else if ttl frame ≤ 1 then some .drop
  else none

/-- `bpf_map_update_elem` with `BPF_ANY`; storing what is there changes nothing. -/
def storeSession (kernel : Kernel) (variant : Nat) (session : UUID) (idx : Nat) :
    Kernel :=
  if (kernel.sessionMap.active variant).lookup session = some idx then kernel
  else
    { kernel with
      sessionMap := kernel.sessionMap.setActive variant
        ((kernel.sessionMap.active variant).insert session idx) }

/-- One statement: where it leads to, the maps after it and the record submitted. -/
def statement (H : Helpers) (config : KernelConfig) (packet : Packet) (kernel : Kernel) :
    Pc → Pc × Kernel × Option Assignment
  | .guards =>
      match refusal config packet.frame with
      | some action => (.exited action packet.frame, kernel, none)
      | none => (.getBackendList, kernel, none)
  | .getBackendList => (.getLookupTable kernel.activePointer, kernel, none)
  | .getLookupTable backends => (.getSessions backends kernel.activePointer, kernel, none)
  | .getSessions backends table =>
      (.findSession ⟨backends, table, kernel.activePointer⟩, kernel, none)
  | .findSession v =>
      match (kernel.sessionMap.active v.sessions).lookup (sessionId packet.frame) with
      | some idx => (.findBackend v (.entry idx), kernel, none)
      | none => (.findSlot v, kernel, none)
  | .findSlot v =>
      let key := (hashModulo (sessionId packet.frame) config.lookupTableSize).toNat
      if key < lookupTableMaxLength then (.findBackend v (.slot v.table key), kernel, none)
      else (.exited .pass (decrementTtl packet.frame), kernel, none)
  | .findBackend v ref =>
      if ref.read kernel < backendListMaxEntries then
        match ref with
        | .entry idx => (.rewrite v.backends idx, kernel, none)
        | .slot _ _ => (.reserve v ref (ref.read kernel), kernel, none)
      else (.exited .pass (decrementTtl packet.frame), kernel, none)
  | .reserve v ref idx =>
      (.update v ref idx, kernel,
        if packet.reserved then
          some ⟨(kernel.backendList.active v.backends idx).id, sessionId packet.frame⟩
        else none)
  | .update v ref idx =>
      (.rewrite v.backends idx,
        if packet.updated then
          storeSession kernel v.sessions (sessionId packet.frame) (ref.read kernel)
        else kernel, none)
  | .rewrite backends idx =>
      (.exited .tx (Bpf.rewrite H config (kernel.backendList.active backends idx)
        (decrementTtl packet.frame)), kernel, none)
  | .exited action frame => (.exited action frame, kernel, none)

/-! ## Userland -/

/-- The maps and the call of `setObjects` that is being executed. -/
structure Shared where
  kernel : Kernel
  pending : Option (EventObjects × SetPc)

inductive Userland where
  | call (objs : EventObjects)
  | statement (E : EbpfStruct)

inductive Stop where
  | disabled
  deriving DecidableEq, Repr

def Shared.userland (s : Shared) : Userland → Except Stop Shared
  | .call objs =>
      if s.pending.isSome then .error .disabled
      else .ok { s with pending := some (objs, .setBackendList) }
  | .statement E =>
      match s.pending with
      | none => .error .disabled
      | some (objs, pc) =>
          let (next, kernel) := setObjectsStep E objs pc s.kernel
          .ok ⟨kernel, match next with
            | .returned _ => none
            | _ => some (objs, next)⟩

/-- The next statement of userland moves the pointer. -/
def Shared.switches (s : Shared) : Bool := s.pending.any (·.2.switches)

/-! ## The two machines -/

structure Machine where
  shared : Shared
  tasks : List Task

def Machine.start (kernel : Kernel) : Machine := ⟨⟨kernel, none⟩, []⟩

inductive Event where
  | arrive (packet : Packet)
  | proceed (i : Nat)
  | userland (u : Userland)

def Pc.hasExited : Pc → Bool
  | .exited _ _ => true
  | _ => false

def Pc.exit? : Pc → Option (XdpAction × Frame)
  | .exited action frame => some (action, frame)
  | _ => none

/-- How a task has left, if it has: with its packet and the action. -/
def Task.leftWith (task : Task) : Packet × Option XdpAction :=
  (task.packet, task.pc.exit?.map Prod.fst)

theorem exited_of_leftWith {task? : Option Task} {packet : Packet} {action : XdpAction}
    (h : task?.map Task.leftWith = some (packet, some action)) :
    ∃ frame, task? = some ⟨packet, .exited action frame⟩ := by
  obtain ⟨⟨packet', pc⟩, rfl, hleft⟩ := Option.map_eq_some_iff.mp h
  obtain ⟨hpacket, haction⟩ := Prod.mk.inj hleft
  obtain ⟨⟨action', frame⟩, hexit, rfl⟩ := Option.map_eq_some_iff.mp haction
  obtain rfl : packet' = packet := hpacket
  cases pc with
  | exited =>
      cases hexit
      exact ⟨frame, rfl⟩
  | guards | getBackendList | getLookupTable | getSessions | findSession | findSlot
  | findBackend | reserve | update | rewrite => cases hexit

/-- A record comes with the number of the task that submitted it. -/
def step (H : Helpers) (config : KernelConfig) (m : Machine) :
    Event → Except Stop (Machine × List (Nat × Assignment))
  | .arrive packet => .ok ({ m with tasks := m.tasks ++ [⟨packet, .guards⟩] }, [])
  | .proceed i =>
      match m.tasks[i]? with
      | none => .error .disabled
      | some task =>
          if task.pc.hasExited then .error .disabled
          else
            let (pc, kernel, record) :=
              statement H config task.packet m.shared.kernel task.pc
            .ok (⟨{ m.shared with kernel := kernel }, m.tasks.set i ⟨task.packet, pc⟩⟩,
              record.toList.map (Prod.mk i))
  | .userland u => do
      let shared ← m.shared.userland u
      .ok ({ m with shared := shared }, [])

/-- Packets are processed one after the other, each of them at once. -/
inductive AtomicEvent where
  | packet (i : Nat) (packet : Packet)
  | userland (u : Userland)

def atomicStep (H : Helpers) (config : KernelConfig) (s : Shared) :
    AtomicEvent → Except Stop (Shared × List (Nat × XdpResult))
  | .packet i packet =>
      let result := udplb H config s.kernel packet
      .ok ({ s with kernel := result.kernel }, [(i, result)])
  | .userland u => do
      let shared ← s.userland u
      .ok (shared, [])

/-- The rest of the task depends on the backend list alone. -/
def Pc.committed : Pc → Bool
  | .findBackend _ (.entry _) | .rewrite _ _ | .exited _ _ => true
  | _ => false

/-- The moment of a packet is the step in which it commits. -/
def effect (H : Helpers) (config : KernelConfig) (m : Machine)
    (before : List AtomicEvent) : Event → List AtomicEvent
  | .arrive _ => before
  | .proceed i =>
      match m.tasks[i]? with
      | none => before
      | some task =>
          let next := (statement H config task.packet m.shared.kernel task.pc).1
          if task.pc.committed = false ∧ next.committed = true then
            before ++ [.packet i task.packet]
          else before
  | .userland u => before ++ [.userland u]

def effects (H : Helpers) (config : KernelConfig) (m : Machine) (events : List Event) :
    List AtomicEvent :=
  observed (step H config) (effect H config) m [] events

/-! ## Packets that no switchover overtakes -/

/-- The task has read a pointer and is not done with it. -/
def Pc.holdsPointer : Pc → Bool
  | .guards | .getBackendList | .exited _ _ => false
  | _ => true

def NotOvertaken (m : Machine) (_ : List (Nat × Assignment)) : Event → Prop
  | .userland (.statement _) =>
      m.shared.switches = true → ∀ task ∈ m.tasks, task.pc.holdsPointer = false
  | _ => True

instance (m : Machine) (out : List (Nat × Assignment)) :
    (event : Event) → Decidable (NotOvertaken m out event)
  | .userland (.statement _) => inferInstanceAs (Decidable (_ → ∀ task ∈ m.tasks, _))
  | .userland (.call _) | .arrive _ | .proceed _ => inferInstanceAs (Decidable True)

/-! ## A packet by itself -/

theorem refusal_eq_none {config : KernelConfig} {frame : Frame} :
    refusal config frame = none ↔ Admitted config frame := by
  unfold refusal
  constructor
  · intro h
    split at h
    · cases h
    · split at h
      · cases h
      · split at h
        · cases h
        · rename_i hmust hsource httl
          exact ⟨by simpa using hmust, hsource, httl⟩
  · intro h
    rw [if_neg (by simp [h.accepted]), if_neg h.foreign, if_neg h.alive]

theorem udplb_of_refusal (H : Helpers) {config : KernelConfig} (kernel : Kernel)
    {packet : Packet} {action : XdpAction}
    (h : refusal config packet.frame = some action) :
    udplb H config kernel packet = ⟨action, packet.frame, kernel, none⟩ := by
  unfold refusal at h
  unfold udplb
  split at h
  · cases h
    rw [if_pos ‹_›]
  · rw [if_neg ‹_›]
    split at h
    · cases h
      rw [if_pos ‹_›]
    · rw [if_neg ‹_›]
      split at h
      · cases h
        rw [if_pos ‹_›]
      · cases h

theorem udplb_of_admitted (H : Helpers) {config : KernelConfig} (kernel : Kernel)
    {packet : Packet} (h : Admitted config packet.frame) :
    udplb H config kernel packet =
      loadbalance H config kernel packet (decrementTtl packet.frame) := by
  unfold udplb
  rw [if_neg (by simp [h.accepted]), if_neg h.foreign, if_neg h.alive]

/-- How a packet leaves that uses the index `idx`. -/
def outcome (H : Helpers) (config : KernelConfig) (kernel : Kernel) (packet : Packet)
    (idx : Nat) : XdpAction × Frame :=
  if idx < backendListMaxEntries then
    (.tx, Bpf.rewrite H config (kernel.activeBackendList idx) (decrementTtl packet.frame))
  else (.pass, decrementTtl packet.frame)

/-- What the table gives the session. -/
def tableIdx (config : KernelConfig) (kernel : Kernel) (session : UUID) : Option Nat :=
  arrayLookup lookupTableMaxLength kernel.activeLookupTable
    (hashModulo session config.lookupTableSize).toNat

section Alone

variable (H : Helpers) {config : KernelConfig} (kernel : Kernel) {packet : Packet}
  (h : Admitted config packet.frame)
include h

theorem udplb_without_idx
    (hidx : backendIdx config kernel (sessionId packet.frame) = none) :
    udplb H config kernel packet = ⟨.pass, decrementTtl packet.frame, kernel, none⟩ := by
  rw [udplb_of_admitted H kernel h, loadbalance, sessionId_decrementTtl, hidx]

theorem udplb_with_idx {idx : Nat}
    (hidx : backendIdx config kernel (sessionId packet.frame) = some idx) :
    ((udplb H config kernel packet).action, (udplb H config kernel packet).frame) =
      outcome H config kernel packet idx := by
  rw [udplb_of_admitted H kernel h, loadbalance, sessionId_decrementTtl, hidx, outcome]
  by_cases hlt : idx < backendListMaxEntries <;> simp [arrayLookup, hlt]

/-- A mapped session leaves the maps and the ring buffer alone. -/
theorem udplb_of_mapped {idx : Nat}
    (hsession : kernel.activeSessions.lookup (sessionId packet.frame) = some idx) :
    (udplb H config kernel packet).kernel = kernel ∧
      (udplb H config kernel packet).submitted = none := by
  rw [udplb_of_admitted H kernel h, loadbalance, sessionId_decrementTtl,
    backendIdx_of_lookup hsession]
  by_cases hlt : idx < backendListMaxEntries <;> simp [arrayLookup, hlt, hsession]

/-- An index behind the end of the backend list leaves them alone as well. -/
theorem udplb_of_stray {idx : Nat}
    (hidx : backendIdx config kernel (sessionId packet.frame) = some idx)
    (hstray : ¬idx < backendListMaxEntries) :
    udplb H config kernel packet = ⟨.pass, decrementTtl packet.frame, kernel, none⟩ := by
  rw [udplb_of_admitted H kernel h, loadbalance, sessionId_decrementTtl, hidx]
  simp [arrayLookup, hstray]

/-- Storing the index of the table does what a packet does that finds it alone. -/
theorem udplb_of_stored {idx : Nat}
    (hidx : backendIdx config kernel (sessionId packet.frame) = some idx)
    (hlt : idx < backendListMaxEntries) :
    (udplb H config kernel packet).kernel =
        (if packet.updated then
          storeSession kernel kernel.activePointer (sessionId packet.frame) idx
        else kernel) ∧
      ((udplb H config kernel packet).submitted = none ∨
        (udplb H config kernel packet).submitted =
          if packet.reserved then
            some ⟨(kernel.activeBackendList idx).id, sessionId packet.frame⟩
          else none) := by
  rw [udplb_of_admitted H kernel h, loadbalance, sessionId_decrementTtl, hidx]
  cases hsession : kernel.activeSessions.lookup (sessionId packet.frame) with
  | some idx' =>
      rw [backendIdx_of_lookup hsession, Option.some.injEq] at hidx
      subst hidx
      have hstored : storeSession kernel kernel.activePointer (sessionId packet.frame) idx' =
          kernel := if_pos hsession
      simp [arrayLookup, hlt, hstored]
  | none =>
      have hstored : storeSession kernel kernel.activePointer (sessionId packet.frame) idx =
          kernel.updateSession (sessionId packet.frame) idx := by
        refine if_neg ?_
        rw [show (kernel.sessionMap.active kernel.activePointer).lookup
          (sessionId packet.frame) = none from hsession]
        simp
      simp [arrayLookup, hlt, hstored]

end Alone

/-! ## What packets and userland leave as it is -/

/-- Everything that a task in flight relies on. -/
structure Undisturbed (config : KernelConfig) (before after : Kernel) : Prop where
  activePointer : after.activePointer = before.activePointer
  backendList : after.activeBackendList = before.activeBackendList
  lookupTable : after.activeLookupTable = before.activeLookupTable
  backendIdx : ∀ session,
    backendIdx config after session = backendIdx config before session

theorem Undisturbed.refl (config : KernelConfig) (kernel : Kernel) :
    Undisturbed config kernel kernel :=
  ⟨rfl, rfl, rfl, fun _ => rfl⟩

theorem Undisturbed.trans {config : KernelConfig} {before middle after : Kernel}
    (h : Undisturbed config before middle) (h' : Undisturbed config middle after) :
    Undisturbed config before after :=
  ⟨h'.activePointer.trans h.activePointer, h'.backendList.trans h.backendList,
    h'.lookupTable.trans h.lookupTable,
    fun session => (h'.backendIdx session).trans (h.backendIdx session)⟩

theorem udplb_undisturbed (H : Helpers) (config : KernelConfig) (kernel : Kernel)
    (packet : Packet) : Undisturbed config kernel (udplb H config kernel packet).kernel := by
  rcases udplb_kernel H config kernel packet with hkernel | ⟨session, idx, hidx, hkernel⟩
  · rw [hkernel]
    exact .refl config kernel
  · rw [hkernel]
    exact ⟨rfl, rfl, rfl, backendIdx_updateSession hidx⟩

theorem activePointer_setObjectsStep (E : EbpfStruct) {objs : EventObjects} {pc : SetPc}
    {kernel : Kernel} (hready : Ready objs pc kernel) (hpc : pc.switches = false) :
    (setObjectsStep E objs pc kernel).2.activePointer = kernel.activePointer := by
  cases pc with
  | setBackendList | setLookupTable | setSessionMap | returned => rfl
  | bSwitchover => cases hpc
  | lupSwitchover lup s => exact hready.1
  | sSwitchover s => exact hready

theorem setObjectsStep_undisturbed (config : KernelConfig) (E : EbpfStruct)
    {objs : EventObjects} {pc : SetPc} {kernel : Kernel} (hready : Ready objs pc kernel)
    (hpc : pc.switches = false) :
    Undisturbed config kernel (setObjectsStep E objs pc kernel).2 := by
  have hselected := selected_setObjectsStep E hready hpc
  exact ⟨activePointer_setObjectsStep E hready hpc,
    congrArg Selection.backendList hselected, congrArg Selection.lookupTable hselected,
    backendIdx_congr hselected⟩

/-! ## A task in flight -/

/--
What a packet submitted: what it submits by itself, or a record of the backend it
is forwarded to when another packet has stored the session in the meantime.
-/
def Reported (packet : Packet) (result : XdpResult) (records : List Assignment) : Prop :=
  records = result.submitted.toList ∨
    result.submitted = none ∧ result.action = .tx ∧
      ∃ backend : BackendSpecT, RewrittenTo backend result.frame ∧
        records = [⟨backend.id, sessionId packet.frame⟩]

def variants (kernel : Kernel) : Variants :=
  ⟨kernel.activePointer, kernel.activePointer, kernel.activePointer⟩

def tableSlot (config : KernelConfig) (kernel : Kernel) (session : UUID) : IdxRef :=
  .slot kernel.activePointer (hashModulo session config.lookupTableSize).toNat

/-- The table decides on the session, whether or not it has been stored by now. -/
structure ByTable (config : KernelConfig) (kernel : Kernel) (packet : Packet) : Prop where
  admitted : Admitted config packet.frame
  backendIdx_eq : backendIdx config kernel (sessionId packet.frame) =
    tableIdx config kernel (sessionId packet.frame)

/--
What a task that no switchover overtakes has found out when it reaches a
statement: with the records it has submitted and, once it has committed, the
result that its packet had at that moment.
-/
inductive Follows (H : Helpers) (config : KernelConfig) (kernel : Kernel)
    (packet : Packet) : List Assignment → List XdpResult → Pc → Prop
  | guards : Follows H config kernel packet [] [] .guards
  | getBackendList (h : Admitted config packet.frame) :
      Follows H config kernel packet [] [] .getBackendList
  | getLookupTable (h : Admitted config packet.frame) :
      Follows H config kernel packet [] [] (.getLookupTable kernel.activePointer)
  | getSessions (h : Admitted config packet.frame) :
      Follows H config kernel packet [] []
        (.getSessions kernel.activePointer kernel.activePointer)
  | findSession (h : Admitted config packet.frame) :
      Follows H config kernel packet [] [] (.findSession (variants kernel))
  | findSlot (h : ByTable config kernel packet) :
      Follows H config kernel packet [] [] (.findSlot (variants kernel))
  | foundSlot (h : ByTable config kernel packet)
      (hkey : (hashModulo (sessionId packet.frame) config.lookupTableSize).toNat <
        lookupTableMaxLength) :
      Follows H config kernel packet [] []
        (.findBackend (variants kernel)
          (tableSlot config kernel (sessionId packet.frame)))
  | reserve (idx : Nat) (h : ByTable config kernel packet)
      (hidx : tableIdx config kernel (sessionId packet.frame) = some idx)
      (hlt : idx < backendListMaxEntries) :
      Follows H config kernel packet [] []
        (.reserve (variants kernel)
          (tableSlot config kernel (sessionId packet.frame)) idx)
  | update (idx : Nat) (h : ByTable config kernel packet)
      (hidx : tableIdx config kernel (sessionId packet.frame) = some idx)
      (hlt : idx < backendListMaxEntries) :
      Follows H config kernel packet
        (if packet.reserved then
          [⟨(kernel.activeBackendList idx).id, sessionId packet.frame⟩] else []) []
        (.update (variants kernel)
          (tableSlot config kernel (sessionId packet.frame)) idx)
  | foundEntry (idx : Nat) (result : XdpResult)
      (houtcome : (result.action, result.frame) = outcome H config kernel packet idx)
      (hreported : Reported packet result []) :
      Follows H config kernel packet [] [result]
        (.findBackend (variants kernel) (.entry idx))
  | rewrite (idx : Nat) (result : XdpResult) (records : List Assignment)
      (hlt : idx < backendListMaxEntries)
      (houtcome : (result.action, result.frame) = outcome H config kernel packet idx)
      (hreported : Reported packet result records) :
      Follows H config kernel packet records [result] (.rewrite kernel.activePointer idx)
  | exited (result : XdpResult) (records : List Assignment)
      (hreported : Reported packet result records) :
      Follows H config kernel packet records [result]
        (.exited result.action result.frame)

section Follows

variable {H : Helpers} {config : KernelConfig} {kernel : Kernel} {packet : Packet}
  {records : List Assignment} {results : List XdpResult} {pc : Pc}

theorem ByTable.undisturbed {after : Kernel} (h : ByTable config kernel packet)
    (hsame : Undisturbed config kernel after) : ByTable config after packet := by
  refine ⟨h.admitted, ?_⟩
  rw [hsame.backendIdx, h.backendIdx_eq, tableIdx, tableIdx, hsame.lookupTable]

theorem Follows.undisturbed {after : Kernel}
    (h : Follows H config kernel packet records results pc)
    (hsame : Undisturbed config kernel after) :
    Follows H config after packet records results pc := by
  have hvariants : variants kernel = variants after := by
    rw [variants, variants, hsame.activePointer]
  have hslot : ∀ session, tableSlot config kernel session = tableSlot config after session := by
    intro session
    rw [tableSlot, tableSlot, hsame.activePointer]
  have htable : ∀ session, tableIdx config kernel session = tableIdx config after session := by
    intro session
    rw [tableIdx, tableIdx, hsame.lookupTable]
  have houtcome : ∀ idx, outcome H config kernel packet idx =
      outcome H config after packet idx := by
    intro idx
    rw [outcome, outcome, hsame.backendList]
  cases h with
  | guards => exact .guards
  | getBackendList h => exact .getBackendList h
  | getLookupTable h =>
      rw [← hsame.activePointer]
      exact .getLookupTable h
  | getSessions h =>
      rw [← hsame.activePointer]
      exact .getSessions h
  | findSession h =>
      rw [hvariants]
      exact .findSession h
  | findSlot h =>
      rw [hvariants]
      exact .findSlot (h.undisturbed hsame)
  | foundSlot h hkey =>
      rw [hvariants, hslot]
      exact .foundSlot (h.undisturbed hsame) hkey
  | reserve idx h hidx hlt =>
      rw [hvariants, hslot]
      exact .reserve idx (h.undisturbed hsame) (htable _ ▸ hidx) hlt
  | update idx h hidx hlt =>
      rw [hvariants, hslot, ← hsame.backendList]
      exact .update idx (h.undisturbed hsame) (htable _ ▸ hidx) hlt
  | foundEntry idx result hresult hreported =>
      rw [hvariants]
      exact .foundEntry idx result (hresult.trans (houtcome idx)) hreported
  | rewrite idx result records hlt hresult hreported =>
      rw [← hsame.activePointer]
      exact .rewrite idx result records hlt (hresult.trans (houtcome idx)) hreported
  | exited result records hreported => exact .exited result records hreported

/-- A task without a pointer relies on nothing in the maps. -/
theorem Follows.overtaken (after : Kernel)
    (h : Follows H config kernel packet records results pc)
    (hpc : pc.holdsPointer = false) :
    Follows H config after packet records results pc := by
  cases h with
  | guards => exact .guards
  | getBackendList h => exact .getBackendList h
  | exited result records hreported => exact .exited result records hreported
  | getLookupTable | getSessions | findSession | findSlot | foundSlot | reserve | update
  | foundEntry | rewrite => cases hpc

theorem Follows.results_eq_nil (h : Follows H config kernel packet records results pc)
    (hpc : pc.holdsPointer = false) (hexited : pc.hasExited = false) : results = [] := by
  cases h with
  | guards | getBackendList => rfl
  | exited => cases hexited
  | getLookupTable | getSessions | findSession | findSlot | foundSlot | reserve | update
  | foundEntry | rewrite => cases hpc

/-- A task has a result if and only if it has committed. -/
theorem Follows.committed_iff (h : Follows H config kernel packet records results pc) :
    pc.committed = true ↔ results ≠ [] := by
  cases h <;> simp [Pc.committed, tableSlot]

theorem Follows.of_exited {action : XdpAction} {frame : Frame}
    (h : Follows H config kernel packet records results (.exited action frame)) :
    ∃ result, results = [result] ∧ result.action = action ∧ result.frame = frame ∧
      Reported packet result records := by
  cases h with
  | exited result records hreported => exact ⟨result, rfl, rfl, rfl, hreported⟩

/-! ## One statement of a task -/

/-- What a statement does: only the one that commits has an effect on the maps. -/
inductive Proceeds (H : Helpers) (config : KernelConfig) (kernel : Kernel)
    (packet : Packet) (records : List Assignment) (results : List XdpResult) (pc : Pc) :
    Pc × Kernel × Option Assignment → Prop
  | goesOn (next : Pc) (record : Option Assignment)
      (hcommitted : next.committed = pc.committed)
      (hnext : Follows H config kernel packet (records ++ record.toList) results next) :
      Proceeds H config kernel packet records results pc (next, kernel, record)
  | commits (next : Pc) (hpc : pc.committed = false) (hcommitted : next.committed = true)
      (hnext : Follows H config kernel packet records [udplb H config kernel packet] next) :
      Proceeds H config kernel packet records results pc
        (next, (udplb H config kernel packet).kernel, none)

/-- An exit that leaves the maps alone. -/
theorem proceeds_exits {action : XdpAction} {frame : Frame} (hpc : pc.committed = false)
    (hresult : udplb H config kernel packet = ⟨action, frame, kernel, none⟩) :
    Proceeds H config kernel packet [] results pc (.exited action frame, kernel, none) := by
  have hreported : Reported packet (udplb H config kernel packet) [] :=
    Or.inl (by rw [hresult]; rfl)
  have hproceeds : Proceeds H config kernel packet [] results pc _ :=
    .commits _ hpc rfl (.exited _ _ hreported)
  rw [hresult] at hproceeds
  exact hproceeds

theorem findSession_proceeds (h : Admitted config packet.frame) :
    Proceeds H config kernel packet [] [] (.findSession (variants kernel))
      (statement H config packet kernel (.findSession (variants kernel))) := by
  change Proceeds _ _ _ _ _ _ _
    (match kernel.activeSessions.lookup (sessionId packet.frame) with
      | some idx => (.findBackend (variants kernel) (.entry idx), kernel, none)
      | none => (.findSlot (variants kernel), kernel, none))
  cases hsession : kernel.activeSessions.lookup (sessionId packet.frame) with
  | none =>
      refine .goesOn _ none rfl (.findSlot ⟨h, ?_⟩)
      rw [backendIdx, hsession, tableIdx]
  | some idx =>
      obtain ⟨hkernel, hsubmitted⟩ := udplb_of_mapped H kernel h hsession
      have hproceeds : Proceeds H config kernel packet [] []
          (.findSession (variants kernel)) _ :=
        .commits _ rfl rfl (.foundEntry idx (udplb H config kernel packet)
          (udplb_with_idx H kernel h (backendIdx_of_lookup hsession))
          (Or.inl (by rw [hsubmitted]; rfl)))
      rw [hkernel] at hproceeds
      exact hproceeds

theorem findSlot_proceeds (h : ByTable config kernel packet) :
    Proceeds H config kernel packet [] [] (.findSlot (variants kernel))
      (statement H config packet kernel (.findSlot (variants kernel))) := by
  simp only [statement]
  split
  · rename_i hkey
    exact .goesOn _ none rfl (.foundSlot h hkey)
  · rename_i hkey
    have hidx : backendIdx config kernel (sessionId packet.frame) = none := by
      rw [h.backendIdx_eq, tableIdx, arrayLookup, if_neg hkey]
    exact proceeds_exits rfl (udplb_without_idx H kernel h.admitted hidx)

theorem read_tableSlot {session : UUID} {idx : Nat}
    (hidx : tableIdx config kernel session = some idx) :
    (tableSlot config kernel session).read kernel = idx :=
  eq_of_arrayLookup hidx

theorem foundSlot_proceeds (h : ByTable config kernel packet)
    (hkey : (hashModulo (sessionId packet.frame) config.lookupTableSize).toNat <
      lookupTableMaxLength) :
    Proceeds H config kernel packet [] []
      (.findBackend (variants kernel) (tableSlot config kernel (sessionId packet.frame)))
      (statement H config packet kernel (.findBackend (variants kernel)
        (tableSlot config kernel (sessionId packet.frame)))) := by
  have hidx : tableIdx config kernel (sessionId packet.frame) =
      some ((tableSlot config kernel (sessionId packet.frame)).read kernel) := by
    rw [tableIdx, arrayLookup, if_pos hkey]
    rfl
  simp only [statement]
  split
  · rename_i hlt
    exact .goesOn _ none rfl (.reserve _ h hidx hlt)
  · rename_i hstray
    exact proceeds_exits rfl
      (udplb_of_stray H kernel h.admitted (h.backendIdx_eq.trans hidx) hstray)

theorem update_proceeds {idx : Nat} (h : ByTable config kernel packet)
    (hidx : tableIdx config kernel (sessionId packet.frame) = some idx)
    (hlt : idx < backendListMaxEntries) :
    Proceeds H config kernel packet
      (if packet.reserved then
        [⟨(kernel.activeBackendList idx).id, sessionId packet.frame⟩] else []) []
      (.update (variants kernel) (tableSlot config kernel (sessionId packet.frame)) idx)
      (statement H config packet kernel (.update (variants kernel)
        (tableSlot config kernel (sessionId packet.frame)) idx)) := by
  have hused := h.backendIdx_eq.trans hidx
  obtain ⟨hkernel, hsubmitted⟩ := udplb_of_stored H kernel h.admitted hused hlt
  have houtcome := udplb_with_idx H kernel h.admitted hused
  have hreported : Reported packet (udplb H config kernel packet)
      (if packet.reserved then
        [⟨(kernel.activeBackendList idx).id, sessionId packet.frame⟩] else []) := by
    rcases hsubmitted with hnone | hsubmitted
    · cases packet.reserved with
      | false => exact Or.inl (by rw [hnone]; rfl)
      | true =>
          rw [outcome, if_pos hlt, Prod.mk.injEq] at houtcome
          refine Or.inr ⟨hnone, houtcome.1, kernel.activeBackendList idx, ?_, rfl⟩
          rw [houtcome.2]
          exact rewrittenTo_rewrite H config _ (by simpa using h.admitted.length_ge)
    · refine Or.inl ?_
      rw [hsubmitted]
      cases packet.reserved <;> rfl
  simp only [statement, read_tableSlot hidx]
  rw [show (variants kernel).sessions = kernel.activePointer from rfl, ← hkernel]
  exact .commits _ rfl rfl (.rewrite idx _ _ hlt houtcome hreported)

theorem foundEntry_proceeds {idx : Nat} {result : XdpResult}
    (houtcome : (result.action, result.frame) = outcome H config kernel packet idx)
    (hreported : Reported packet result []) :
    Proceeds H config kernel packet [] [result]
      (.findBackend (variants kernel) (.entry idx))
      (statement H config packet kernel
        (.findBackend (variants kernel) (.entry idx))) := by
  simp only [statement]
  split
  · rename_i hlt
    exact .goesOn _ none rfl (.rewrite idx result [] hlt houtcome hreported)
  · rename_i hstray
    have hstray : ¬idx < backendListMaxEntries := hstray
    rw [outcome, if_neg hstray, Prod.mk.injEq] at houtcome
    rw [← houtcome.1, ← houtcome.2]
    exact .goesOn _ none rfl (.exited result [] hreported)

theorem statement_proceeds {records : List Assignment} {results : List XdpResult}
    {pc : Pc} (h : Follows H config kernel packet records results pc) :
    Proceeds H config kernel packet records results pc
      (statement H config packet kernel pc) := by
  cases h with
  | guards =>
      unfold statement
      cases hrefusal : refusal config packet.frame with
      | none => exact .goesOn _ none rfl (.getBackendList (refusal_eq_none.mp hrefusal))
      | some action => exact proceeds_exits rfl (udplb_of_refusal H kernel hrefusal)
  | getBackendList h => exact .goesOn _ none rfl (.getLookupTable h)
  | getLookupTable h => exact .goesOn _ none rfl (.getSessions h)
  | getSessions h => exact .goesOn _ none rfl (.findSession h)
  | findSession h => exact findSession_proceeds h
  | findSlot h => exact findSlot_proceeds h
  | foundSlot h hkey => exact foundSlot_proceeds h hkey
  | reserve idx h hidx hlt =>
      refine .goesOn _ _ rfl ?_
      convert Follows.update idx h hidx hlt using 1
      change (if packet.reserved then some _ else none).toList = _
      split <;> rfl
  | update idx h hidx hlt => exact update_proceeds h hidx hlt
  | foundEntry idx result houtcome hreported =>
      exact foundEntry_proceeds houtcome hreported
  | rewrite idx result records hlt houtcome hreported =>
      rw [outcome, if_pos hlt, Prod.mk.injEq] at houtcome
      refine .goesOn _ none rfl ?_
      rw [Option.toList_none, List.append_nil]
      have hexited : Follows H config kernel packet records [result]
          (.exited result.action result.frame) := .exited result records hreported
      rw [houtcome.1, houtcome.2] at hexited
      exact hexited
  | exited result records hreported =>
      refine .goesOn _ none rfl ?_
      rw [Option.toList_none, List.append_nil]
      exact .exited result records hreported

end Follows

end Udplb.Bpf.Processors
