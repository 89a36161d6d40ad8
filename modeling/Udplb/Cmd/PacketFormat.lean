import Udplb.Bpf.Packet
import Udplb.Foundation.Result

/-!
# The datagram format

A datagram starts with the prefix and the session id.  The traffic generator
builds it, the echo backend parses it, and the XDP program reads it in place
behind the headers of the frame.

An `int` is a 64-bit integer, and the machine has the memory that is asked for.
-/

namespace Udplb.Cmd

open Udplb.Foundation Udplb.Bpf

def packetPrefix : UInt32 := 0x55554944

def minPacketSize : Nat := 20

def parsePacket (data : Bytes) : UUID × Bool :=
  if data.length < minPacketSize then (Vector.replicate 16 0, false)
  else if leNat (slice data 0 4) ≠ packetPrefix.toNat then (Vector.replicate 16 0, false)
  else (Vector.ofFn fun i => data.getD (4 + i) 0, true)

inductive Panic where
  | makesliceLenOutOfRange
  | sliceBoundsOutOfRange
  | nonPositiveInterval
  deriving DecidableEq, Repr

/-- The most bytes that the Go runtime allocates at once on a 64-bit machine. -/
def maxAlloc : Nat := 2 ^ 48

/-- The length of what `make` returns for elements of the given size. -/
def makeslice (elemSize : Nat) (len : Int64) : Except Panic Nat :=
  if len < 0 ∨ maxAlloc < elemSize * len.toInt.toNat then .error .makesliceLenOutOfRange
  else .ok len.toInt.toNat

def buildPacket (sessionId : UUID) (payloadSize : Int64) : Except Panic Bytes := do
  let length ← makeslice 1 (4 + 16 + payloadSize)
  let buf : Bytes := List.replicate length 0
  -- both parts of the buffer that are written end at 20 or before
  if buf.length < 20 then .error .sliceBoundsOutOfRange
  else .ok (writeAt (writeAt buf 0 (leBytes 4 packetPrefix.toNat)) 4 sessionId.toList)

/-! ## The checks of the XDP program -/

/-- The checks that read the Ethernet, IP and UDP headers. -/
def headerChecks (headers : Bytes) (lbAddr : UInt32) (lbPort : UInt16) : Bool :=
  leNat (slice headers 12 2) = htons ethPIp ∧
    leNat (slice headers 30 4) = lbAddr.toNat ∧
    leNat (slice headers 23 1) = ipprotoUdp ∧ leNat (slice headers 36 2) = htons lbPort

/-- The checks that read the datagram. -/
def payloadChecks (payload : Bytes) : Bool :=
  if payload.length < 20 then false
  else if leNat (slice payload 0 4) ≠ udplbPacketPrefix then false
  else true

theorem mustLoadbalance_append (headers : Vector UInt8 42) (payload : Bytes)
    (lbAddr : UInt32) (lbPort : UInt16) :
    mustLoadbalance (headers.toList ++ payload) lbAddr lbPort =
      (headerChecks headers.toList lbAddr lbPort && payloadChecks payload) := by
  have hlength : headers.toList.length = 42 := Vector.length_toList
  have hword := slice_append_right headers.toList payload 0 4
  rw [hlength] at hword
  simp only [mustLoadbalance, headerChecks, payloadChecks, List.length_append, hlength,
    slice_append_left payload (show 12 + 2 ≤ headers.toList.length by omega),
    slice_append_left payload (show 30 + 4 ≤ headers.toList.length by omega),
    slice_append_left payload (show 23 + 1 ≤ headers.toList.length by omega),
    slice_append_left payload (show 36 + 2 ≤ headers.toList.length by omega), hword,
    show ¬42 + payload.length < 14 by omega, show ¬42 + payload.length < 34 by omega,
    show ¬42 + payload.length < 42 by omega,
    show 42 + payload.length < 62 ↔ payload.length < 20 by omega, if_false]
  split_ifs <;> simp_all

theorem payloadChecks_eq (payload : Bytes) :
    payloadChecks payload = (parsePacket payload).2 := by
  unfold payloadChecks parsePacket minPacketSize
  split
  · rfl
  · rw [show udplbPacketPrefix = packetPrefix.toNat from rfl]
    split <;> rfl

theorem sessionId_append (headers : Vector UInt8 42) (payload : Bytes) :
    sessionId (headers.toList ++ payload) = Vector.ofFn fun i => payload.getD (4 + i) 0 := by
  have hlength : headers.toList.length = 42 := Vector.length_toList
  unfold sessionId
  congr 1
  funext i
  rw [List.getD_append_right _ _ _ _ (by omega), hlength]
  congr 1
  omega

theorem parsePacket_uuid {payload : Bytes} (h : (parsePacket payload).2 = true) :
    (parsePacket payload).1 = Vector.ofFn fun i => payload.getD (4 + i) 0 := by
  unfold parsePacket at h ⊢
  split_ifs at h ⊢
  rfl

/-! ## Built packets -/

theorem makeslice_eq_ok {elemSize : Nat} {len : Int64} (hlen : 0 ≤ len.toInt)
    (hmax : elemSize * len.toInt.toNat ≤ maxAlloc) :
    makeslice elemSize len = .ok len.toInt.toNat := by
  have hnonneg : ¬len < 0 := by
    rw [Int64.lt_iff_toInt_lt, Int64.toInt_zero]
    omega
  rw [makeslice, if_neg (not_or.mpr ⟨hnonneg, Nat.not_lt.mpr hmax⟩)]

theorem makeslice_eq_error {elemSize : Nat} {len : Int64}
    (h : len.toInt < 0 ∨ maxAlloc < elemSize * len.toInt.toNat) :
    makeslice elemSize len = .error .makesliceLenOutOfRange := by
  rw [makeslice, if_pos]
  rwa [Int64.lt_iff_toInt_lt, Int64.toInt_zero]

theorem of_makeslice_eq_ok {elemSize n : Nat} {len : Int64}
    (h : makeslice elemSize len = .ok n) :
    elemSize * len.toInt.toNat ≤ maxAlloc ∧ n = len.toInt.toNat := by
  by_cases hlen : len.toInt < 0 ∨ maxAlloc < elemSize * len.toInt.toNat
  · rw [makeslice_eq_error hlen] at h
    cases h
  · rw [makeslice_eq_ok (by omega) (by omega)] at h
    cases h
    exact ⟨by omega, rfl⟩

/-- The payload sizes for which a packet can be built. -/
def Buildable (payloadSize : Int64) : Prop :=
  0 ≤ payloadSize.toInt ∧ 20 + payloadSize.toInt ≤ maxAlloc

/-- A packet of a session, its payload zero. -/
def packetOf (payloadSize : Nat) (session : UUID) : Bytes :=
  leBytes 4 packetPrefix.toNat ++ (session.toList ++ List.replicate payloadSize 0)

theorem length_packetOf (payloadSize : Nat) (session : UUID) :
    (packetOf payloadSize session).length = 20 + payloadSize := by
  simp [packetOf]
  omega

/-- The length of the buffer, which wraps around above the largest `int`. -/
theorem toInt_length (payloadSize : Int64) :
    (4 + 16 + payloadSize).toInt = (20 + payloadSize.toInt).bmod (2 ^ 64) :=
  Int64.toInt_add _ _

theorem toInt_length_of_lt {payloadSize : Int64} (h : 20 + payloadSize.toInt < 2 ^ 63) :
    (4 + 16 + payloadSize).toInt = 20 + payloadSize.toInt := by
  have hlower := payloadSize.le_toInt
  rw [toInt_length, Int.bmod_eq_of_le] <;> omega

theorem toInt_length_of_ge {payloadSize : Int64} (h : 2 ^ 63 ≤ 20 + payloadSize.toInt) :
    (4 + 16 + payloadSize).toInt < 0 := by
  have hupper := payloadSize.toInt_lt
  rw [toInt_length, Int.bmod_def]
  omega

theorem buildPacket_eq {payloadSize : Int64} (h : Buildable payloadSize) (session : UUID) :
    buildPacket session payloadSize = .ok (packetOf payloadSize.toInt.toNat session) := by
  obtain ⟨hnonneg, hmax⟩ := h
  have hmaxAlloc : (maxAlloc : Int) = 2 ^ 48 := rfl
  have hlength : (4 + 16 + payloadSize).toInt = 20 + payloadSize.toInt :=
    toInt_length_of_lt (by omega)
  have hsize : (20 + payloadSize.toInt).toNat = 20 + payloadSize.toInt.toNat := by omega
  have hsession : session.toList.length = 16 := Vector.length_toList
  rw [buildPacket, makeslice_eq_ok (by omega) (by omega), hlength, hsize]
  simp only [bind, Except.bind, List.length_replicate]
  rw [if_neg (by omega), writeAt_eq_append (by simp [hsession]),
    writeAt_eq_append (by simp; omega)]
  simp [packetOf, hsession, leBytes]
  omega

/-- No buffer, or one too short for the prefix and the session id. -/
theorem buildPacket_eq_error {payloadSize : Int64} (h : ¬Buildable payloadSize)
    (session : UUID) :
    buildPacket session payloadSize = .error (if -20 ≤ payloadSize.toInt ∧
      payloadSize.toInt < 0 then .sliceBoundsOutOfRange else .makesliceLenOutOfRange) := by
  have hmaxAlloc : (maxAlloc : Int) = 2 ^ 48 := rfl
  by_cases hwraps : 2 ^ 63 ≤ 20 + payloadSize.toInt
  · rw [buildPacket, makeslice_eq_error (Or.inl (toInt_length_of_ge hwraps)),
      if_neg (by omega)]
    rfl
  · have hlength := toInt_length_of_lt (Int.not_le.mp hwraps)
    by_cases hshort : -20 ≤ payloadSize.toInt ∧ payloadSize.toInt < 0
    · rw [buildPacket, makeslice_eq_ok (by omega) (by omega), if_pos hshort]
      simp only [bind, Except.bind, List.length_replicate]
      rw [if_pos (by omega)]
    · rw [buildPacket, makeslice_eq_error, if_neg hshort]
      · rfl
      · unfold Buildable at h
        omega

theorem buildable_of_buildPacket {payloadSize : Int64} {session : UUID} {packet : Bytes}
    (h : buildPacket session payloadSize = .ok packet) : Buildable payloadSize := by
  by_contra hnot
  rw [buildPacket_eq_error hnot] at h
  cases h

theorem parsePacket_packetOf (payloadSize : Nat) (session : UUID) :
    parsePacket (packetOf payloadSize session) = (session, true) := by
  have hlength : session.toList.length = 16 := Vector.length_toList
  have hword : slice (packetOf payloadSize session) 0 4 = leBytes 4 packetPrefix.toNat := rfl
  rw [parsePacket, if_neg (by simp [packetOf, minPacketSize, hlength]; omega), hword,
    leNat_leBytes, if_neg (by decide)]
  congr 1
  apply Vector.ext
  intro i hi
  rw [packetOf, Vector.getElem_ofFn, List.getD_append_right _ _ _ _ (by simp),
    length_leBytes, Nat.add_sub_cancel_left, List.getD_append _ _ _ _ (by omega),
    List.getD_eq_getElem _ _ (by omega)]
  simp

/--
The echo backend and the XDP program accept the same datagrams and read the same
session id from them.  What the traffic generator builds is accepted by both, with
the session id it was built for; it builds a packet for every payload size that is
not negative and whose packet can be allocated, and panics for the larger ones.
-/
theorem formats_agree (headers : Vector UInt8 42) (lbAddr : UInt32) (lbPort : UInt16) :
    (∀ payload, mustLoadbalance (headers.toList ++ payload) lbAddr lbPort =
        (headerChecks headers.toList lbAddr lbPort && payloadChecks payload) ∧
      (payloadChecks payload = true ↔ (parsePacket payload).2 = true) ∧
      ((parsePacket payload).2 = true →
        sessionId (headers.toList ++ payload) = (parsePacket payload).1)) ∧
    ∀ (session : UUID) (size : Int64), 0 ≤ size →
      (20 + size.toInt ≤ maxAlloc → Returns (buildPacket session size) fun packet =>
        packet.length = 20 + size.toInt ∧ payloadChecks packet = true ∧
          sessionId (headers.toList ++ packet) = session ∧
          parsePacket packet = (session, true)) ∧
      (maxAlloc < 20 + size.toInt →
        buildPacket session size = .error .makesliceLenOutOfRange) := by
  constructor
  · intro payload
    refine ⟨mustLoadbalance_append headers payload lbAddr lbPort, ?_, ?_⟩
    · rw [payloadChecks_eq]
    · intro h
      rw [sessionId_append, parsePacket_uuid h]
  · intro session size hsize
    rw [Int64.le_iff_toInt_le, Int64.toInt_zero] at hsize
    constructor
    · intro hmax
      have hparse := parsePacket_packetOf size.toInt.toNat session
      rw [buildPacket_eq ⟨hsize, hmax⟩]
      refine .ok ⟨?_, ?_, ?_, hparse⟩
      · rw [length_packetOf]
        omega
      · rw [payloadChecks_eq, hparse]
      · rw [sessionId_append, ← parsePacket_uuid (by rw [hparse]), hparse]
    · intro hmax
      rw [buildPacket_eq_error (by unfold Buildable; omega), if_neg (by omega)]

/-- The largest payload, and the one that is a byte longer. -/
theorem formats_agree_at_the_bound :
    Returns (buildPacket (Vector.replicate 16 7) 281474976710636) (fun packet =>
        packet.length = (281474976710656 : Int) ∧
          parsePacket packet = (Vector.replicate 16 7, true)) ∧
      buildPacket (Vector.replicate 16 7) 281474976710637 =
        .error .makesliceLenOutOfRange := by
  have h := (formats_agree (Vector.replicate 42 0) 0 0).2 (Vector.replicate 16 7)
  refine ⟨((h 281474976710636 (by decide)).1 (by decide)).mono ?_,
    (h 281474976710637 (by decide)).2 (by decide)⟩
  rintro packet ⟨hlength, -, -, hparse⟩
  exact ⟨hlength, hparse⟩

/-- `--payload-size 9223372036854775807`: the length wraps around. -/
theorem largest_payload_panics :
    (0 : Int64) ≤ 9223372036854775807 ∧
      ∀ session, buildPacket session 9223372036854775807 =
        .error .makesliceLenOutOfRange := by
  refine ⟨by decide, ?_⟩
  intro session
  rfl

example :
    payloadChecks [0x44, 0x49, 0x55, 0x55, 1, 2, 3, 4, 5, 6, 7, 8, 9, 10, 11, 12, 13,
      14, 15, 16] = true := by
  decide

end Udplb.Cmd
