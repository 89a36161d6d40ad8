import Udplb.Bpf.Kernel

/-!
# Session affinity in the kernel

The program chooses a backend in two ways, from the session map or from the
lookup table.  While the maps are not touched from userland the two choices
agree: a session enters the session map with the index that the table gave it,
so no packet of any session changes the index that `backendIdx` computes.
-/

namespace Udplb.Bpf

open Udplb.Foundation

/-- The packets one after the other, each on the maps its predecessor left. -/
def process (H : Helpers) (config : KernelConfig) :
    Kernel → List Packet → List XdpResult
  | _, [] => []
  | kernel, packet :: packets =>
      let result := udplb H config kernel packet
      result :: process H config result.kernel packets

/-- What a packet leaves behind selects the same backends as before. -/
structure SameSelection (config : KernelConfig) (before after : Kernel) : Prop where
  backendIdx_eq : ∀ session,
    backendIdx config after session = backendIdx config before session
  backendList_eq : after.activeBackendList = before.activeBackendList

theorem backendIdx_updateSession {config : KernelConfig} {kernel : Kernel}
    {session : UUID} {idx : Nat}
    (hidx : backendIdx config kernel session = some idx) (other : UUID) :
    backendIdx config (kernel.updateSession session idx) other =
      backendIdx config kernel other := by
  by_cases hother : other = session
  · subst hother
    rw [hidx]
    simp [backendIdx]
  · simp [backendIdx, AList.lookup_insert_ne hother, Kernel.activeLookupTable]

theorem udplb_sameSelection (H : Helpers) (config : KernelConfig)
    (kernel : Kernel) (packet : Packet) :
    SameSelection config kernel (udplb H config kernel packet).kernel := by
  rcases udplb_kernel H config kernel packet with hkernel | ⟨session, idx, hidx, hkernel⟩
  · rw [hkernel]
    exact ⟨fun _ => rfl, rfl⟩
  · rw [hkernel]
    exact ⟨backendIdx_updateSession hidx, rfl⟩

/-- A forwarded packet goes where the first maps of the sequence would send it. -/
theorem process_forwards (H : Helpers) (config : KernelConfig)
    {packets : List Packet} {kernel : Kernel} {i : Nat} {packet : Packet}
    {result : XdpResult} (hpacket : packets[i]? = some packet)
    (hresult : (process H config kernel packets)[i]? = some result)
    (htx : result.action = .tx) :
    ∃ idx backend,
      backendIdx config kernel (sessionId packet.frame) = some idx ∧
      arrayLookup backendListMaxEntries kernel.activeBackendList idx =
        some backend ∧
      RewrittenTo backend result.frame := by
  induction packets generalizing kernel i with
  | nil => simp at hpacket
  | cons first packets ih =>
      cases i with
      | zero =>
          simp only [process, List.getElem?_cons_zero, Option.some.injEq] at *
          subst hpacket hresult
          rcases udplb_handled H config kernel first with
            ⟨hne, -⟩ | ⟨-, idx, backend, hforwarded⟩
          · exact absurd htx hne
          · exact ⟨idx, backend, hforwarded.idx_eq, hforwarded.backend_eq,
              hforwarded.rewritten⟩
      | succ i =>
          simp only [process, List.getElem?_cons_succ] at *
          have hsame := udplb_sameSelection H config kernel first
          obtain ⟨idx, backend, hidx, hbackend, hrewritten⟩ := ih hpacket hresult
          rw [hsame.backendIdx_eq] at hidx
          rw [hsame.backendList_eq] at hbackend
          exact ⟨idx, backend, hidx, hbackend, hrewritten⟩

/--
Two forwarded packets of one session are rewritten to the same backend, whatever
the maps hold at the start and whatever reserves and updates fail on the way.
-/
theorem kernel_session_affinity (H : Helpers) (config : KernelConfig)
    (kernel : Kernel) (packets : List Packet) {i j : Nat}
    {packet packet' : Packet} {result result' : XdpResult}
    (hpacket : packets[i]? = some packet)
    (hpacket' : packets[j]? = some packet')
    (hresult : (process H config kernel packets)[i]? = some result)
    (hresult' : (process H config kernel packets)[j]? = some result')
    (hsession : sessionId packet.frame = sessionId packet'.frame)
    (htx : result.action = .tx) (htx' : result'.action = .tx) :
    ∃ idx backend,
      arrayLookup backendListMaxEntries kernel.activeBackendList idx =
        some backend ∧
      RewrittenTo backend result.frame ∧ RewrittenTo backend result'.frame := by
  obtain ⟨idx, backend, hidx, hbackend, hrewritten⟩ :=
    process_forwards H config hpacket hresult htx
  obtain ⟨idx', backend', hidx', hbackend', hrewritten'⟩ :=
    process_forwards H config hpacket' hresult' htx'
  rw [← hsession, hidx, Option.some.injEq] at hidx'
  subst hidx'
  rw [hbackend, Option.some.injEq] at hbackend'
  subst hbackend'
  exact ⟨idx, backend, hbackend, hrewritten, hrewritten'⟩

/-! ## An instance: a full session map between two packets of one session -/

def testConfig : KernelConfig where
  ip := 0x0100000a
  port := 12345
  lookupTableSize := 7
  mac := #v[0x0a, 0x0b, 0x0c, 0x0d, 0x0e, 0x0f]

def testBackend (i : UInt8) : BackendSpecT where
  id := Vector.replicate 16 i
  ip := 0x0a00000a + i.toUInt32 * 2 ^ 24
  port := 8080
  mac := #v[0xaa, 0xbb, 0xcc, 0, 0, i + 1]

def testKernel : Kernel where
  activePointer := 0
  backendList := ⟨fun i => testBackend (UInt8.ofNat i), fun _ => testBackend 0⟩
  lookupTable := ⟨fun i => i % 3, fun _ => 0⟩
  sessionMap := ⟨∅, ∅⟩

def testPackets : List Packet :=
  [⟨buildPacket (Vector.replicate 16 9), true, false⟩,
   ⟨buildPacket (Vector.replicate 16 5), true, true⟩,
   ⟨buildPacket (Vector.replicate 16 9), false, true⟩]

theorem kernel_session_affinity_after_failed_update :
    ∃ first second third,
      process .onesComplement testConfig testKernel testPackets =
        [first, second, third] ∧
      first.action = .tx ∧ third.action = .tx ∧
      ∃ idx backend,
        arrayLookup backendListMaxEntries testKernel.activeBackendList idx =
          some backend ∧
        RewrittenTo backend first.frame ∧ RewrittenTo backend third.frame := by
  refine ⟨_, _, _, rfl, by decide +kernel, by decide +kernel, ?_⟩
  exact kernel_session_affinity .onesComplement testConfig testKernel testPackets
    (i := 0) (j := 2) rfl rfl rfl rfl (by decide +kernel) (by decide +kernel)
    (by decide +kernel)

end Udplb.Bpf
