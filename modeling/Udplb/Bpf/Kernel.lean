import Udplb.Bpf.Packet
import Udplb.Foundation.AssocMap
import Udplb.Foundation.DoubleBuffer

/-!
# The XDP program

The maps of the program come in two variants, and `active_pointer` selects one
variant of all three at once.  An array map holds a value at every index below
its capacity; the session map is a hash map.  Whether a ring-buffer reserve or a
session-map update succeeds is decided outside the program.
-/

namespace Udplb.Bpf

open Udplb.Foundation

abbrev SessionMap := AssocMap UUID Nat

structure Kernel where
  activePointer : Nat
  backendList : DoubleBuffer (Nat → BackendSpecT)
  lookupTable : DoubleBuffer (Nat → Nat)
  sessionMap : DoubleBuffer SessionMap

namespace Kernel

def zeroFilled : Kernel where
  activePointer := 0
  backendList := ⟨fun _ => .zero, fun _ => .zero⟩
  lookupTable := ⟨fun _ => 0, fun _ => 0⟩
  sessionMap := ⟨∅, ∅⟩

def activeBackendList (kernel : Kernel) : Nat → BackendSpecT :=
  kernel.backendList.active kernel.activePointer

def activeLookupTable (kernel : Kernel) : Nat → Nat :=
  kernel.lookupTable.active kernel.activePointer

def activeSessions (kernel : Kernel) : SessionMap :=
  kernel.sessionMap.active kernel.activePointer

def updateSession (kernel : Kernel) (session : UUID) (idx : Nat) : Kernel :=
  { kernel with
    sessionMap := kernel.sessionMap.setActive kernel.activePointer
      (kernel.activeSessions.insert session idx) }

@[simp] theorem activePointer_updateSession (kernel : Kernel) (session : UUID)
    (idx : Nat) :
    (kernel.updateSession session idx).activePointer = kernel.activePointer :=
  rfl

@[simp] theorem backendList_updateSession (kernel : Kernel) (session : UUID)
    (idx : Nat) :
    (kernel.updateSession session idx).backendList = kernel.backendList := rfl

@[simp] theorem lookupTable_updateSession (kernel : Kernel) (session : UUID)
    (idx : Nat) :
    (kernel.updateSession session idx).lookupTable = kernel.lookupTable := rfl

@[simp] theorem activeSessions_updateSession (kernel : Kernel) (session : UUID)
    (idx : Nat) :
    (kernel.updateSession session idx).activeSessions =
      kernel.activeSessions.insert session idx := by
  simp [activeSessions, updateSession]

@[simp] theorem passive_updateSession (kernel : Kernel) (session : UUID)
    (idx : Nat) :
    (kernel.updateSession session idx).sessionMap.passive kernel.activePointer =
      kernel.sessionMap.passive kernel.activePointer := by
  simp [updateSession]

end Kernel

def backendListMaxEntries : Nat := 64

def lookupTableMaxLength : Nat := 2 ^ 16

/-- `bpf_map_lookup_elem` on an array map. -/
def arrayLookup {α : Type} (maxEntries : Nat) (array : Nat → α) (key : Nat) :
    Option α :=
  if key < maxEntries then some (array key) else none

theorem eq_of_arrayLookup {α : Type} {maxEntries key : Nat} {array : Nat → α}
    {value : α} (h : arrayLookup maxEntries array key = some value) :
    array key = value := by
  unfold arrayLookup at h
  split at h
  · exact Option.some.inj h
  · cases h

/-- The index of the backend of a session: the session map, else the table. -/
def backendIdx (config : KernelConfig) (kernel : Kernel) (session : UUID) :
    Option Nat :=
  match kernel.activeSessions.lookup session with
  | some idx => some idx
  | none =>
      arrayLookup lookupTableMaxLength kernel.activeLookupTable
        (hashModulo session config.lookupTableSize).toNat

theorem backendIdx_of_lookup {config : KernelConfig} {kernel : Kernel}
    {session : UUID} {idx : Nat}
    (h : kernel.activeSessions.lookup session = some idx) :
    backendIdx config kernel session = some idx := by
  simp [backendIdx, h]

inductive XdpAction where
  | drop
  | pass
  | tx
  deriving DecidableEq, Repr

/-- A frame with the fate of the two fallible calls of its processing. -/
structure Packet where
  frame : Frame
  reserved : Bool
  updated : Bool
  deriving DecidableEq, Repr

structure XdpResult where
  action : XdpAction
  frame : Frame
  kernel : Kernel
  submitted : Option Assignment

def loadbalance (H : Helpers) (config : KernelConfig) (kernel : Kernel)
    (packet : Packet) (frame : Frame) : XdpResult :=
  let session := sessionId frame
  let newSession := (kernel.activeSessions.lookup session).isNone
  match backendIdx config kernel session with
  | none => ⟨.pass, frame, kernel, none⟩
  | some idx =>
      match arrayLookup backendListMaxEntries kernel.activeBackendList idx with
      | none => ⟨.pass, frame, kernel, none⟩
      | some backend =>
          { action := .tx
            frame := rewrite H config backend frame
            kernel :=
              if newSession && packet.updated then
                kernel.updateSession session idx
              else kernel
            submitted :=
              if newSession && packet.reserved then some ⟨backend.id, session⟩
              else none }

def udplb (H : Helpers) (config : KernelConfig) (kernel : Kernel)
    (packet : Packet) : XdpResult :=
  if mustLoadbalance packet.frame config.ip config.port = false then
    ⟨.pass, packet.frame, kernel, none⟩
  -- our own MAC as source: the bridge reflected a forwarded packet
  else if slice packet.frame 6 6 = config.mac.toList then
    ⟨.drop, packet.frame, kernel, none⟩
  else if ttl packet.frame ≤ 1 then ⟨.drop, packet.frame, kernel, none⟩
  -- the TTL is decremented in place, whatever happens next
  else loadbalance H config kernel packet (decrementTtl packet.frame)

/-- A forwarded packet: the backend it went to and what was left behind. -/
structure Forwarded (config : KernelConfig) (kernel : Kernel) (packet : Packet)
    (result : XdpResult) (idx : Nat) (backend : BackendSpecT) : Prop where
  idx_eq : backendIdx config kernel (sessionId packet.frame) = some idx
  backend_eq : arrayLookup backendListMaxEntries kernel.activeBackendList idx =
    some backend
  rewritten : RewrittenTo backend result.frame
  kernel_eq : result.kernel =
    if (kernel.activeSessions.lookup (sessionId packet.frame)).isNone &&
        packet.updated then
      kernel.updateSession (sessionId packet.frame) idx
    else kernel
  submitted_eq : result.submitted =
    if (kernel.activeSessions.lookup (sessionId packet.frame)).isNone &&
        packet.reserved then
      some ⟨backend.id, sessionId packet.frame⟩
    else none

/-- Either the packet is forwarded, or the maps and the ring are left alone. -/
def Handled (config : KernelConfig) (kernel : Kernel) (packet : Packet)
    (result : XdpResult) : Prop :=
  (result.action ≠ .tx ∧ result.kernel = kernel ∧ result.submitted = none) ∨
    result.action = .tx ∧
      ∃ idx backend, Forwarded config kernel packet result idx backend

theorem loadbalance_handled (H : Helpers) (config : KernelConfig)
    (kernel : Kernel) (packet : Packet) {frame : Frame}
    (hlength : 62 ≤ frame.length)
    (hsession : sessionId frame = sessionId packet.frame) :
    Handled config kernel packet (loadbalance H config kernel packet frame) := by
  unfold loadbalance
  rw [hsession]
  cases hidx : backendIdx config kernel (sessionId packet.frame) with
  | none =>
      simp only [hidx]
      exact Or.inl ⟨by simp, rfl, rfl⟩
  | some idx =>
      cases hbackend : arrayLookup backendListMaxEntries
          kernel.activeBackendList idx with
      | none =>
          simp only [hidx, hbackend]
          exact Or.inl ⟨by simp, rfl, rfl⟩
      | some backend =>
          simp only [hidx, hbackend]
          refine Or.inr ⟨rfl, idx, backend, hidx, hbackend, ?_, rfl, rfl⟩
          exact rewrittenTo_rewrite H config backend hlength

theorem udplb_handled (H : Helpers) (config : KernelConfig) (kernel : Kernel)
    (packet : Packet) :
    Handled config kernel packet (udplb H config kernel packet) := by
  unfold udplb
  by_cases hmust : mustLoadbalance packet.frame config.ip config.port = false
  · rw [if_pos hmust]
    exact Or.inl ⟨by simp, rfl, rfl⟩
  rw [if_neg hmust]
  by_cases hsource : slice packet.frame 6 6 = config.mac.toList
  · rw [if_pos hsource]
    exact Or.inl ⟨by simp, rfl, rfl⟩
  rw [if_neg hsource]
  by_cases httl : ttl packet.frame ≤ 1
  · rw [if_pos httl]
    exact Or.inl ⟨by simp, rfl, rfl⟩
  rw [if_neg httl]
  have hlength := length_of_mustLoadbalance (Bool.not_eq_false _ ▸ hmust)
  exact loadbalance_handled H config kernel packet
    (by simpa using hlength) (sessionId_decrementTtl _)

/-- A packet leaves the maps as they are, or stores the index it used. -/
theorem udplb_kernel (H : Helpers) (config : KernelConfig) (kernel : Kernel)
    (p : Packet) :
    (udplb H config kernel p).kernel = kernel ∨
      ∃ session idx, backendIdx config kernel session = some idx ∧
        (udplb H config kernel p).kernel = kernel.updateSession session idx := by
  rcases udplb_handled H config kernel p with
    ⟨-, hkernel, -⟩ | ⟨-, idx, backend, hforwarded⟩
  · exact Or.inl hkernel
  · rw [hforwarded.kernel_eq]
    split
    · exact Or.inr ⟨_, idx, hforwarded.idx_eq, rfl⟩
    · exact Or.inl rfl

end Udplb.Bpf
