import Udplb.Bpf.Checksum

/-!
# Frames that come back

A frame that was sent out again may reach a load balancer once more.  A bridge
reflects it as it is; a router sends it on with other addresses, but with a TTL
that is not higher.  The first kind is recognised by its source, the second kind
runs out of hops, whichever load balancers it passes.
-/

namespace Udplb.Bpf

open Udplb.Foundation

section Forwarded

variable {H : Helpers} {config : KernelConfig} {kernel : Kernel} {packet : Packet}

theorem exists_rewrite_of_tx (htx : (udplb H config kernel packet).action = .tx) :
    Admitted config packet.frame ∧ ∃ backend, (udplb H config kernel packet).frame =
      rewrite H config backend (decrementTtl packet.frame) := by
  have hexits := udplb_exits H config kernel packet
  generalize udplb H config kernel packet = result at htx hexits
  cases hexits with
  | early action hnot haction => exact absurd htx haction
  | unassigned hadmitted hselect => cases htx
  | forwarded idx backend hadmitted hselect after submitted =>
      exact ⟨hadmitted, backend, rfl⟩

theorem source_of_tx (htx : (udplb H config kernel packet).action = .tx) :
    slice (udplb H config kernel packet).frame 6 6 = config.mac.toList := by
  obtain ⟨hadmitted, backend, hframe⟩ := exists_rewrite_of_tx htx
  rw [hframe]
  exact source_rewrite H config backend (by simpa using hadmitted.length_ge)

/-- The TTL goes down by one, and does not reach zero. -/
theorem ttl_of_tx (htx : (udplb H config kernel packet).action = .tx) :
    (ttl (udplb H config kernel packet).frame).toNat + 1 = (ttl packet.frame).toNat ∧
      1 < (ttl packet.frame).toNat := by
  obtain ⟨hadmitted, backend, hframe⟩ := exists_rewrite_of_tx htx
  have hone := hadmitted.one_lt_ttl
  have hle : (1 : UInt8) ≤ ttl packet.frame := by
    rw [UInt8.le_iff_toNat_le]
    exact Nat.le_of_lt hone
  refine ⟨?_, hone⟩
  rw [hframe, ttl_rewrite, ttl_decrementTtl hadmitted.length_ge,
    UInt8.toNat_sub_of_le _ _ hle]
  simp only [UInt8.toNat_one]
  omega

end Forwarded

/-! ## A frame that is reflected -/

/--
A load balancer never sends out a frame twice: a frame that it has forwarded, and
that comes back as it was sent, is left alone whatever the maps hold by then.
-/
theorem reflected_left_alone (H : Helpers) (config : KernelConfig)
    (kernel later : Kernel) (packet reflected : Packet)
    (htx : (udplb H config kernel packet).action = .tx)
    (hreflected : reflected.frame = (udplb H config kernel packet).frame) :
    (udplb H config later reflected).action ≠ .tx ∧
      LeftAlone later reflected (udplb H config later reflected) := by
  have hsource : slice reflected.frame 6 6 = config.mac.toList := by
    rw [hreflected]
    exact source_of_tx htx
  have hexits := udplb_exits H config later reflected
  generalize udplb H config later reflected = result at hexits
  cases hexits with
  | early action hnot haction => exact ⟨haction, rfl, rfl, rfl⟩
  | unassigned hadmitted => exact absurd hsource hadmitted.foreign
  | forwarded idx backend hadmitted => exact absurd hsource hadmitted.foreign

def testResult : XdpResult := udplb .onesComplement testConfig testKernel testPacket

/-- The packet comes back when its session is already known. -/
theorem reflected_left_alone_known_session :
    testResult.action = .tx ∧
    (udplb .onesComplement testConfig testResult.kernel
      ⟨testResult.frame, true, true⟩).action ≠ .tx := by
  have htx : testResult.action = .tx := by decide +kernel
  exact ⟨htx, (reflected_left_alone .onesComplement testConfig testKernel
    testResult.kernel testPacket ⟨testResult.frame, true, true⟩ htx
    (by simp only [testResult])).1⟩

/-! ## A frame that is routed back -/

/-- The visit of a frame to some load balancer. -/
structure Hop where
  config : KernelConfig
  kernel : Kernel
  packet : Packet

def Hop.result (H : Helpers) (hop : Hop) : XdpResult :=
  udplb H hop.config hop.kernel hop.packet

/-- What comes between two visits does not raise the TTL. -/
def RoutedTo (H : Helpers) (hop next : Hop) : Prop :=
  (ttl next.packet.frame).toNat ≤ (ttl (hop.result H).frame).toNat

/--
A frame is forwarded less often than its TTL says, by however many load balancers,
whatever else is changed between them; that is 254 times at most.
-/
theorem hops_lt_ttl (H : Helpers) (first : Hop) (rest : List Hop)
    (hforwarded : ∀ hop ∈ first :: rest, (hop.result H).action = .tx)
    (hrouted : List.IsChain (RoutedTo H) (first :: rest)) :
    (first :: rest).length < (ttl first.packet.frame).toNat := by
  induction rest generalizing first with
  | nil => exact (ttl_of_tx (hforwarded first (by simp))).2
  | cons next rest ih =>
      obtain ⟨hnext, hrest⟩ := List.isChain_cons_cons.mp hrouted
      have hlater := ih next (fun hop hop' => hforwarded hop (List.mem_cons_of_mem _ hop'))
        hrest
      have hfirst := (ttl_of_tx (hforwarded first (by simp))).1
      have hle : (ttl next.packet.frame).toNat ≤ (ttl (first.result H).frame).toNat := hnext
      simp only [Hop.result, List.length_cons] at hle hlater ⊢
      omega

/-- A second load balancer has the address of the backend. -/
def routedBack : Hop where
  config := { testConfig with ip := 0x0b00000a, port := 8080, mac := Vector.replicate 6 1 }
  kernel := testKernel
  packet := ⟨testResult.frame, true, true⟩

def firstHop : Hop := ⟨testConfig, testKernel, testPacket⟩

theorem hops_lt_ttl_two_load_balancers :
    (∀ hop ∈ [firstHop, routedBack], (hop.result .onesComplement).action = .tx) ∧
    ttl firstHop.packet.frame = 64 ∧
    [firstHop, routedBack].length < (ttl firstHop.packet.frame).toNat := by
  have hforwarded : ∀ hop ∈ [firstHop, routedBack],
      (hop.result .onesComplement).action = .tx := by
    decide +kernel
  have hrouted : RoutedTo .onesComplement firstHop routedBack := by
    simp only [RoutedTo, Hop.result, firstHop, routedBack, testResult, Nat.le_refl]
  exact ⟨hforwarded, by decide, hops_lt_ttl .onesComplement firstHop [routedBack]
    hforwarded (.cons_cons hrouted (.singleton _))⟩

end Udplb.Bpf
