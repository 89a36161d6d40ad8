import Udplb.Bpf.Affinity

/-!
# The exits of the XDP program

Three guards return before anything is written.  Behind them the TTL is
decremented, and the program may still give the packet up: the index it finds
need not be one of the backend list.
-/

namespace Udplb.Bpf

open Udplb.Foundation

/-- The packet passes the three guards. -/
structure Admitted (config : KernelConfig) (frame : Frame) : Prop where
  accepted : mustLoadbalance frame config.ip config.port = true
  foreign : slice frame 6 6 ≠ config.mac.toList
  alive : ¬ttl frame ≤ 1

instance (config : KernelConfig) (frame : Frame) : Decidable (Admitted config frame) :=
  decidable_of_iff
    (mustLoadbalance frame config.ip config.port = true ∧
      slice frame 6 6 ≠ config.mac.toList ∧ ¬ttl frame ≤ 1)
    ⟨fun h => ⟨h.1, h.2.1, h.2.2⟩, fun h => ⟨h.accepted, h.foreign, h.alive⟩⟩

def selectBackend (config : KernelConfig) (kernel : Kernel) (session : UUID) :
    Option (Nat × BackendSpecT) := do
  let idx ← backendIdx config kernel session
  let backend ← arrayLookup backendListMaxEntries kernel.activeBackendList idx
  some (idx, backend)

inductive Exits (H : Helpers) (config : KernelConfig) (kernel : Kernel)
    (packet : Packet) : XdpResult → Prop
  | early (action : XdpAction) (hnot : ¬Admitted config packet.frame)
      (haction : action ≠ .tx) :
      Exits H config kernel packet ⟨action, packet.frame, kernel, none⟩
  -- the TTL has been decremented by then
  | unassigned (hadmitted : Admitted config packet.frame)
      (hselect : selectBackend config kernel (sessionId packet.frame) = none) :
      Exits H config kernel packet ⟨.pass, decrementTtl packet.frame, kernel, none⟩
  | forwarded (idx : Nat) (backend : BackendSpecT)
      (hadmitted : Admitted config packet.frame)
      (hselect : selectBackend config kernel (sessionId packet.frame) =
        some (idx, backend)) (after : Kernel) (submitted : Option Assignment) :
      Exits H config kernel packet
        ⟨.tx, rewrite H config backend (decrementTtl packet.frame), after, submitted⟩

theorem loadbalance_exits (H : Helpers) (config : KernelConfig) (kernel : Kernel)
    (packet : Packet) (hadmitted : Admitted config packet.frame) :
    Exits H config kernel packet
      (loadbalance H config kernel packet (decrementTtl packet.frame)) := by
  unfold loadbalance
  rw [sessionId_decrementTtl]
  cases hidx : backendIdx config kernel (sessionId packet.frame) with
  | none =>
      simp only [hidx]
      exact .unassigned hadmitted (by simp [selectBackend, hidx])
  | some idx =>
      cases hbackend : arrayLookup backendListMaxEntries kernel.activeBackendList idx with
      | none =>
          simp only [hidx, hbackend]
          exact .unassigned hadmitted (by simp [selectBackend, hidx, hbackend])
      | some backend =>
          simp only [hidx, hbackend]
          exact .forwarded idx backend hadmitted
            (by simp [selectBackend, hidx, hbackend]) _ _

theorem udplb_exits (H : Helpers) (config : KernelConfig) (kernel : Kernel)
    (packet : Packet) :
    Exits H config kernel packet (udplb H config kernel packet) := by
  unfold udplb
  split
  · rename_i hmust
    exact .early .pass (fun h => by simp [h.accepted] at hmust) (by simp)
  · rename_i hmust
    split
    · rename_i hsource
      exact .early .drop (fun h => h.foreign hsource) (by simp)
    · rename_i hsource
      split
      · rename_i httl
        exact .early .drop (fun h => h.alive httl) (by simp)
      · rename_i httl
        exact loadbalance_exits H config kernel packet
          ⟨by simpa using hmust, hsource, httl⟩

/-! ## Packets that are not forwarded -/

structure LeftAlone (kernel : Kernel) (packet : Packet) (result : XdpResult) : Prop where
  frame_eq : result.frame = packet.frame
  kernel_eq : result.kernel = kernel
  submitted_eq : result.submitted = none

theorem Admitted.length_ge {config : KernelConfig} {frame : Frame}
    (h : Admitted config frame) : 62 ≤ frame.length :=
  length_of_mustLoadbalance h.accepted

theorem Admitted.one_lt_ttl {config : KernelConfig} {frame : Frame}
    (h : Admitted config frame) : 1 < (ttl frame).toNat := by
  have halive := h.alive
  rw [UInt8.le_iff_toNat_le] at halive
  simpa using halive

theorem ttl_decrementTtl {frame : Frame} (hlength : 62 ≤ frame.length) :
    ttl (decrementTtl frame) = ttl frame - 1 := by
  have hbyte : (decrementTtl frame)[22]? = some (ttl frame - 1) := by
    rw [decrementTtl, getElem?_writeAt, if_pos (by simp), if_pos (by omega)]
    rfl
  rw [ttl, List.getD_eq_getElem?_getD, hbyte, Option.getD_some]

theorem Admitted.decrementTtl_ne {config : KernelConfig} {frame : Frame}
    (h : Admitted config frame) : decrementTtl frame ≠ frame := by
  intro heq
  have httl := ttl_decrementTtl h.length_ge
  rw [heq] at httl
  have hnat := congrArg UInt8.toNat httl
  have hpos := h.one_lt_ttl
  have hlt := (ttl frame).toNat_lt
  rw [UInt8.toNat_sub] at hnat
  simp at hnat
  omega

/--
A packet that is not forwarded never changes the maps or the ring buffer.  Its
bytes are unchanged as well exactly when a backend is found for each packet that
passes the guards.
-/
theorem left_alone_iff (H : Helpers) (config : KernelConfig) (kernel : Kernel)
    (packet : Packet) :
    ((udplb H config kernel packet).action ≠ .tx →
      (udplb H config kernel packet).kernel = kernel ∧
        (udplb H config kernel packet).submitted = none) ∧
    (((udplb H config kernel packet).action ≠ .tx →
      LeftAlone kernel packet (udplb H config kernel packet)) ↔
        (Admitted config packet.frame →
          (selectBackend config kernel (sessionId packet.frame)).isSome = true)) := by
  have hexits := udplb_exits H config kernel packet
  generalize udplb H config kernel packet = result at hexits
  cases hexits with
  | early action hnot haction =>
      exact ⟨fun _ => ⟨rfl, rfl⟩, fun _ h => absurd h hnot, fun _ _ => ⟨rfl, rfl, rfl⟩⟩
  | unassigned hadmitted hselect =>
      refine ⟨fun _ => ⟨rfl, rfl⟩, ?_, ?_⟩
      · intro halone
        exact absurd (halone (by simp)).frame_eq hadmitted.decrementTtl_ne
      · intro hsome
        rw [hselect] at hsome
        exact absurd (hsome hadmitted) (by simp)
  | forwarded idx backend hadmitted hselect after submitted =>
      refine ⟨fun hne => absurd rfl hne, fun _ _ => ?_, fun _ hne => absurd rfl hne⟩
      rw [hselect]
      rfl

/-- A packet of a session that is not in the session map. -/
def testPacket : Packet := ⟨buildPacket (Vector.replicate 16 9), true, true⟩

/-- A lookup table that holds an index behind the end of the backend list. -/
def strayKernel : Kernel :=
  { testKernel with lookupTable := ⟨fun _ => 64, fun _ => 0⟩ }

theorem unassigned_packet_is_changed :
    (udplb .onesComplement testConfig strayKernel testPacket).action = .pass ∧
    ttl testPacket.frame = 64 ∧
    ttl (udplb .onesComplement testConfig strayKernel testPacket).frame = 63 := by
  decide +kernel

end Udplb.Bpf
