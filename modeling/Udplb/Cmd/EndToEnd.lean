import Udplb.Bpf.Checksum
import Udplb.Cmd.EchoBackend
import Udplb.Cmd.TrafficGen

/-!
# From the generator to the backends

The packets of the traffic generator reach the load balancer behind the headers of
a frame, the XDP program sends the frames on, and the network takes each of them to
the echo backend at the address that is then in it.
-/

namespace Udplb.Cmd

open Udplb.Foundation Udplb.Bpf

/-- The address of a frame's destination: IP address and port. -/
def destination (frame : Frame) : Nat × Nat := (leNat (slice frame 30 4), be16 frame 36)

def backendAddress (backend : BackendSpecT) : Nat × Nat :=
  (backend.ip.toNat, backend.port.toNat)

/-- The address of the backend that the maps select for a session. -/
def selectedAddress (config : KernelConfig) (kernel : Kernel) (sid : UUID) :
    Option (Nat × Nat) :=
  (selectBackend config kernel sid).map fun selected => backendAddress selected.2

/-- A frame with the given payload reaches the load balancer from elsewhere. -/
structure Carries (config : KernelConfig) (payload : Bytes) (packet : Packet) : Prop where
  framed : ∃ headers : Vector UInt8 42, packet.frame = headers.toList ++ payload ∧
    headerChecks headers.toList config.ip config.port = true
  foreign : slice packet.frame 6 6 ≠ config.mac.toList
  alive : ¬ttl packet.frame ≤ 1

/-- The payloads of the frames that are sent on to an address. -/
def payloadsTo (address : Nat × Nat) (results : List XdpResult) : List Bytes :=
  (results.filter fun result =>
    result.action = .tx ∧ destination result.frame = address).map (·.frame.drop 42)

namespace Carries

variable {config : KernelConfig} {payload : Bytes} {packet : Packet} {sid : UUID}

theorem admitted (h : Carries config payload packet)
    (hparse : parsePacket payload = (sid, true)) : Admitted config packet.frame := by
  obtain ⟨headers, hframe, hheaders⟩ := h.framed
  refine ⟨?_, h.foreign, h.alive⟩
  rw [hframe, mustLoadbalance_append, hheaders, payloadChecks_eq, hparse]
  rfl

theorem sessionId_eq (h : Carries config payload packet)
    (hparse : parsePacket payload = (sid, true)) : sessionId packet.frame = sid := by
  obtain ⟨headers, hframe, -⟩ := h.framed
  rw [hframe, sessionId_append, ← parsePacket_uuid (by rw [hparse]), hparse]

theorem drop_eq (h : Carries config payload packet) : packet.frame.drop 42 = payload := by
  obtain ⟨headers, hframe, -⟩ := h.framed
  have hlength : headers.toList.length = 42 := Vector.length_toList
  rw [hframe, List.drop_left' hlength]

end Carries

/-! ## The load balancer -/

theorem drop_rewrite (H : Helpers) (config : KernelConfig) (backend : BackendSpecT)
    (frame : Frame) :
    (rewrite H config backend (decrementTtl frame)).drop 42 = frame.drop 42 := by
  apply List.ext_getElem?
  intro i
  rw [List.getElem?_drop, List.getElem?_drop, getElem?_rewrite, getElem?_decrementTtl]
  · omega
  · right
    unfold Written
    omega

theorem destination_rewrite (H : Helpers) (config : KernelConfig) (backend : BackendSpecT)
    {frame : Frame} (hlength : 62 ≤ frame.length) :
    destination (rewrite H config backend (decrementTtl frame)) = backendAddress backend := by
  have hlength' : 62 ≤ (decrementTtl frame).length := by rwa [length_decrementTtl]
  have hto := rewrittenTo_rewrite H config backend hlength'
  have hport := be16_of_rewrittenTo (by rwa [length_rewrite]) hto
  have hip := backend.ip.toNat_lt
  rw [destination, backendAddress, hport, hto.ip, leNat_leBytes, Nat.mod_eq_of_lt (by omega)]

theorem selectBackend_udplb (H : Helpers) (config : KernelConfig) (kernel : Kernel)
    (packet : Packet) (sid : UUID) :
    selectBackend config (udplb H config kernel packet).kernel sid =
      selectBackend config kernel sid := by
  have hsame := udplb_sameSelection H config kernel packet
  rw [selectBackend, selectBackend, hsame.backendIdx_eq, hsame.backendList_eq]

/-- A frame that was sent on: where to, and what it carries. -/
structure SentOn (config : KernelConfig) (kernel : Kernel) (payload : Bytes)
    (result : XdpResult) : Prop where
  action : result.action = .tx
  payload_eq : result.frame.drop 42 = payload
  selected : selectedAddress config kernel (parsePacket payload).1 =
    some (destination result.frame)

theorem udplb_sentOn {H : Helpers} {config : KernelConfig} {kernel : Kernel}
    {payload : Bytes} {packet : Packet} {sid : UUID} (h : Carries config payload packet)
    (hparse : parsePacket payload = (sid, true))
    (hselect : (selectBackend config kernel sid).isSome = true) :
    SentOn config kernel payload (udplb H config kernel packet) := by
  have hsession := h.sessionId_eq hparse
  have hexits := udplb_exits H config kernel packet
  generalize udplb H config kernel packet = result at hexits
  cases hexits with
  | early action hnot => exact absurd (h.admitted hparse) hnot
  | unassigned hadmitted hnone =>
      rw [hsession] at hnone
      rw [hnone] at hselect
      cases hselect
  | forwarded idx backend hadmitted hsome after submitted =>
      rw [hsession] at hsome
      refine ⟨rfl, (drop_rewrite H config backend packet.frame).trans h.drop_eq, ?_⟩
      rw [destination_rewrite H config backend hadmitted.length_ge, selectedAddress, hparse,
        hsome, Option.map_some]

/-- Each packet is sent on as if it were the first one. -/
theorem process_sentOn {H : Helpers} {config : KernelConfig} {kernel : Kernel}
    {payloads : List Bytes} {packets : List Packet}
    (hcarries : List.Forall₂ (Carries config) payloads packets)
    (hparse : ∀ payload ∈ payloads, (parsePacket payload).2 = true ∧
      (selectBackend config kernel (parsePacket payload).1).isSome = true) :
    List.Forall₂ (SentOn config kernel) payloads (process H config kernel packets) := by
  induction hcarries generalizing kernel with
  | nil => exact .nil
  | @cons payload packet payloads packets hfirst hrest ih =>
      obtain ⟨hok, hselect⟩ := hparse payload (by simp)
      refine .cons (udplb_sentOn hfirst (by rw [← hok]) hselect) ?_
      have hlater : List.Forall₂ (SentOn config (udplb H config kernel packet).kernel)
          payloads (process H config (udplb H config kernel packet).kernel packets) := by
        apply ih
        intro payload' hpayload'
        rw [selectBackend_udplb]
        exact hparse payload' (List.mem_cons_of_mem _ hpayload')
      refine hlater.imp ?_
      intro payload' result h
      refine ⟨h.action, h.payload_eq, ?_⟩
      rw [← h.selected, selectedAddress, selectedAddress, selectBackend_udplb]

theorem payloadsTo_eq {config : KernelConfig} {kernel : Kernel} {payloads : List Bytes}
    {results : List XdpResult} (h : List.Forall₂ (SentOn config kernel) payloads results)
    (address : Nat × Nat) :
    payloadsTo address results = payloads.filter fun payload =>
      selectedAddress config kernel (parsePacket payload).1 = some address := by
  induction h with
  | nil => rfl
  | @cons payload result payloads results hfirst hrest ih =>
      unfold payloadsTo at ih ⊢
      by_cases haddress : destination result.frame = address
      · rw [List.filter_cons_of_pos (by simp [hfirst.action, haddress]), List.map_cons, ih,
          hfirst.payload_eq, List.filter_cons_of_pos (by simp [hfirst.selected, haddress])]
      · rw [List.filter_cons_of_neg (by simp [haddress]), ih,
          List.filter_cons_of_neg (by simp [hfirst.selected, haddress])]

/-! ## The counts -/

/-- The datagrams that an echo backend has read. -/
def reads (events : List EchoBackend.Event) : List Bytes :=
  events.filterMap fun
    | .read data _ => some data
    | _ => none

theorem filterMap_session_eq (events : List EchoBackend.Event) :
    events.filterMap EchoBackend.Event.session =
      (reads events).filterMap EchoBackend.session := by
  rw [reads, List.filterMap_filterMap]
  apply List.filterMap_congr
  intro event _
  cases event <;> rfl

theorem session_packetOf (payloadSize : Nat) (sid : UUID) :
    EchoBackend.session (packetOf payloadSize sid) = some sid := by
  rw [EchoBackend.session, parsePacket_packetOf]
  rfl

/-- The sessions of those packets that are for an address. -/
theorem filterMap_session_packets (config : KernelConfig) (kernel : Kernel)
    (payloadSize : Nat) (sids : List UUID) (address : Nat × Nat) :
    (((sids.map (packetOf payloadSize)).filter fun payload =>
      selectedAddress config kernel (parsePacket payload).1 = some address).filterMap
        EchoBackend.session) =
      sids.filter fun sid => selectedAddress config kernel sid = some address := by
  induction sids with
  | nil => rfl
  | cons sid sids ih =>
      have hparse : (parsePacket (packetOf payloadSize sid)).1 = sid := by
        rw [parsePacket_packetOf]
      rw [List.map_cons]
      by_cases hselected : selectedAddress config kernel sid = some address
      · rw [List.filter_cons_of_pos (by simpa [hparse] using hselected),
          List.filterMap_cons_some (session_packetOf payloadSize sid), ih,
          List.filter_cons_of_pos (by simpa using hselected)]
      · rw [List.filter_cons_of_neg (by simpa [hparse] using hselected), ih,
          List.filter_cons_of_neg (by simpa using hselected)]

/--
A generator sends through a load balancer whose maps have a backend for each of its
sessions and are not changed from userland meanwhile.  Nothing is lost on the way,
though an echo backend may read its datagrams in another order.  Then the backend at
the address that the maps select for a session counts exactly the packets that the
generator reports for it, up to one that it has in hand and is about to record, and
every other backend counts none.
-/
theorem session_counted_at_one_backend (H : Helpers) (config : KernelConfig)
    (kernel : Kernel) (fresh : Nat → UUID) (sessions rate payloadSize : Int64)
    (first last : TrafficGen.State)
    (hstart : TrafficGen.start fresh sessions rate payloadSize = .ok first)
    (genEvents : List TrafficGen.Event) (genOut : List TrafficGen.Output)
    (hgen : run TrafficGen.step first genEvents = .ok (last, genOut))
    (packets : List Packet)
    (hcarries : List.Forall₂ (Carries config) (TrafficGen.written genOut) packets)
    (hselect : ∀ sid ∈ TrafficGen.sent genOut,
      (selectBackend config kernel sid).isSome = true)
    (address : Nat × Nat) (events : List EchoBackend.Event) (backend : EchoBackend.State)
    (out : List EchoBackend.Output)
    (hbackend : run EchoBackend.step EchoBackend.start events = .ok (backend, out))
    (hreads : (reads events).Perm (payloadsTo address (process H config kernel packets)))
    (sid : UUID) :
    backend.stats.snapshot.sessions.tally sid + backend.receiver.unrecorded.countP (· = sid) =
      if selectedAddress config kernel sid = some address then
        last.report.sessions.tally sid else 0 := by
  have hgenerator := TrafficGen.sound_run ((TrafficGen.start_sound fresh
    (TrafficGen.startable_of_start hstart)).of_eq_ok hstart) hgen
  have hcounted := (EchoBackend.sound_run hbackend).counted
  have hparse : ∀ payload ∈ TrafficGen.written genOut, (parsePacket payload).2 = true ∧
      (selectBackend config kernel (parsePacket payload).1).isSome = true := by
    intro payload hpayload
    rw [hgenerator.written_eq] at hpayload
    obtain ⟨sid, hsid, rfl⟩ := List.mem_map.mp hpayload
    rw [parsePacket_packetOf]
    exact ⟨rfl, hselect sid hsid⟩
  -- what the backend has recorded or has in hand are the packets sent for its sessions
  have hrecorded : (EchoBackend.recorded out ++ backend.receiver.unrecorded).Perm
      ((TrafficGen.sent genOut).filter fun sid =>
        selectedAddress config kernel sid = some address) := by
    rw [EchoBackend.recorded_run hbackend, filterMap_session_eq,
      ← filterMap_session_packets config kernel _, ← hgenerator.written_eq,
      ← payloadsTo_eq (process_sentOn hcarries hparse)]
    exact hreads.filterMap _
  have htally := hgenerator.report.counts.tally_of_perm_filter hcounted.tallies hrecorded sid
  simpa [EchoBackend.Stats.snapshot] using htally

def exampleFresh (i : Nat) : UUID := Vector.replicate 16 (UInt8.ofNat (5 + i))

def exampleHeaders : Vector UInt8 42 :=
  #v[0x0a, 0x0b, 0x0c, 0x0d, 0x0e, 0x0f, 1, 2, 3, 4, 5, 6, 0x08, 0x00,
    0x45, 0, 0, 48, 0, 0, 0, 0, 64, 17, 0, 0, 10, 0, 0, 100, 10, 0, 0, 1,
    0xd4, 0x31, 0x30, 0x39, 0, 28, 0, 0]

def examplePacket (i : Nat) : Packet :=
  ⟨exampleHeaders.toList ++ packetOf 0 (exampleFresh i), true, true⟩

/-- The first backend has recorded one of its two packets and parsed the other. -/
def exampleReads : List EchoBackend.Event :=
  [.read (packetOf 0 (exampleFresh 0)) none, .record, .echo false,
    .read (packetOf 0 (exampleFresh 0)) none]

/-- Three packets of two sessions; the first backend reads two of them. -/
theorem session_counted_at_one_backend_two_sessions :
    ∃ first last genOut backend out address,
      TrafficGen.start exampleFresh 2 100 0 = .ok first ∧
      run TrafficGen.step first [.tick false, .tick false, .tick false] =
        .ok (last, genOut) ∧
      run EchoBackend.step EchoBackend.start exampleReads = .ok (backend, out) ∧
      backend.stats.snapshot.sessions.tally (exampleFresh 0) = 1 ∧
      selectedAddress testConfig testKernel (exampleFresh 0) = some address ∧
      selectedAddress testConfig testKernel (exampleFresh 1) ≠ some address ∧
      backend.stats.snapshot.sessions.tally (exampleFresh 0) +
          backend.receiver.unrecorded.countP (· = exampleFresh 0) =
        if selectedAddress testConfig testKernel (exampleFresh 0) = some address then
          last.report.sessions.tally (exampleFresh 0) else 0 := by
  obtain ⟨first, hstart, -⟩ := TrafficGen.start_sound exampleFresh
    (show TrafficGen.Startable 2 100 0 from
      ⟨by decide, by decide, by decide, by decide, by decide, by decide⟩)
  obtain ⟨⟨last, genOut⟩, hgen, hwritten, hsent⟩ :
      Returns (run TrafficGen.step first [.tick false, .tick false, .tick false])
        fun result =>
          TrafficGen.written result.2 = [packetOf 0 (exampleFresh 0),
            packetOf 0 (exampleFresh 1), packetOf 0 (exampleFresh 0)] ∧
          TrafficGen.sent result.2 = [exampleFresh 0, exampleFresh 1, exampleFresh 0] := by
    cases hstart
    exact ⟨_, rfl, by decide, by decide⟩
  obtain ⟨⟨backend, out⟩, hbackend, htally⟩ :
      Returns (run EchoBackend.step EchoBackend.start exampleReads) fun result =>
        result.1.stats.snapshot.sessions.tally (exampleFresh 0) = 1 :=
    ⟨_, rfl, by decide⟩
  have hcarries : ∀ i < 2, Carries testConfig (packetOf 0 (exampleFresh i))
      (examplePacket i) := by
    intro i hi
    refine ⟨⟨exampleHeaders, rfl, by decide⟩, ?_, ?_⟩ <;> revert i <;> decide +kernel
  have haddress : selectedAddress testConfig testKernel (exampleFresh 0) =
      some (0x0a00000a, 8080) := by
    decide +kernel
  have hother : selectedAddress testConfig testKernel (exampleFresh 1) ≠
      some (0x0a00000a, 8080) := by
    decide +kernel
  refine ⟨first, last, genOut, backend, out, (0x0a00000a, 8080), hstart, hgen, hbackend,
    htally, haddress, hother, ?_⟩
  refine session_counted_at_one_backend .onesComplement testConfig testKernel exampleFresh
    2 100 0 first last hstart _ genOut hgen
    [examplePacket 0, examplePacket 1, examplePacket 0] ?_ ?_ (0x0a00000a, 8080) _ backend
    out hbackend ?_ (exampleFresh 0)
  · rw [hwritten]
    exact .cons (hcarries 0 (by decide)) (.cons (hcarries 1 (by decide))
      (.cons (hcarries 0 (by decide)) .nil))
  · have hselect : ∀ i < 2,
        (selectBackend testConfig testKernel (exampleFresh i)).isSome = true := by
      decide +kernel
    rw [hsent]
    intro sid hsid
    simp only [List.mem_cons, List.not_mem_nil, or_false] at hsid
    rcases hsid with rfl | rfl | rfl <;> exact hselect _ (by decide)
  · have hpayloads : payloadsTo (0x0a00000a, 8080) (process .onesComplement testConfig
        testKernel [examplePacket 0, examplePacket 1, examplePacket 0]) =
        [packetOf 0 (exampleFresh 0), packetOf 0 (exampleFresh 0)] := by
      decide +kernel
    rw [hpayloads]
    exact .refl _

end Udplb.Cmd
