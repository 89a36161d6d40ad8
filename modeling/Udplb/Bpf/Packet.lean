import Mathlib.Tactic.ByContra
import Udplb.Types

/-!
# Frames

A frame is the byte string between `data` and `data_end`.  The headers are
packed and read at fixed offsets: an Ethernet header of 14 bytes, an IPv4 header
of 20, a UDP header of 8, and the UDPLB prefix and session id.  Multi-byte
fields are read and written in the byte order of a little-endian host.
-/

namespace Udplb.Bpf

open Udplb.Foundation

abbrev Frame := Bytes

abbrev MacAddr := Vector UInt8 6

structure KernelConfig where
  ip : UInt32
  port : UInt16
  lookupTableSize : UInt32
  mac : MacAddr
  deriving DecidableEq, Repr

structure BackendSpecT where
  id : UUID
  ip : UInt32
  port : UInt16
  mac : MacAddr
  deriving DecidableEq, Repr

/-- A slot that has never been written. -/
def BackendSpecT.zero : BackendSpecT :=
  ⟨Vector.replicate 16 0, 0, 0, Vector.replicate 6 0⟩

/-- `bpf_csum_diff(0, 0, header, size, 0)`, a helper of the kernel. -/
structure Helpers where
  csumDiff : Bytes → Int

def wordSum : Bytes → Nat
  | b₀ :: b₁ :: b₂ :: b₃ :: rest => leNat [b₀, b₁, b₂, b₃] + wordSum rest
  | _ => 0

def Helpers.onesComplement : Helpers where
  csumDiff header :=
    if wordSum header = 0 then 0
    else ((wordSum header - 1) % (2 ^ 32 - 1) + 1 : Nat)

def htons (x : UInt16) : Nat := x.toNat % 256 * 256 + x.toNat / 256

def ethPIp : UInt16 := 0x0800

def ipprotoUdp : Nat := 17

/-- `UUID` in ASCII. -/
def udplbPacketPrefix : Nat := 0x55 * 2 ^ 24 + 0x55 * 2 ^ 16 + 0x49 * 2 ^ 8 + 0x44

def sessionId (frame : Frame) : UUID :=
  Vector.ofFn fun i => frame.getD (46 + i) 0

def mustLoadbalance (frame : Frame) (lbAddr : UInt32) (lbPort : UInt16) : Bool :=
  -- ethhdr bounds, then IPv4
  if frame.length < 14 then false
  else if leNat (slice frame 12 2) ≠ htons ethPIp then false
  -- iphdr bounds, destination address, protocol
  else if frame.length < 34 then false
  else if leNat (slice frame 30 4) ≠ lbAddr.toNat then false
  else if leNat (slice frame 23 1) ≠ ipprotoUdp then false
  -- udphdr bounds, destination port
  else if frame.length < 42 then false
  else if leNat (slice frame 36 2) ≠ htons lbPort then false
  -- udpdata bounds, prefix
  else if frame.length < 62 then false
  else if leNat (slice frame 42 4) ≠ udplbPacketPrefix then false
  else true

theorem length_of_mustLoadbalance {frame : Frame} {lbAddr : UInt32}
    {lbPort : UInt16} (h : mustLoadbalance frame lbAddr lbPort = true) :
    62 ≤ frame.length := by
  unfold mustLoadbalance at h
  by_contra hshort
  rw [if_pos (show frame.length < 62 by omega)] at h
  simp only [ite_self, Bool.false_eq_true] at h

/-- The frame of the unit tests: a client sends to `10.0.0.1:12345`. -/
def buildPacket (session : UUID) : Frame :=
  [0x0a, 0x0b, 0x0c, 0x0d, 0x0e, 0x0f, 1, 2, 3, 4, 5, 6, 0x08, 0x00] ++
    [0x45, 0, 0, 48, 0, 0, 0, 0, 64, 17, 0, 0, 10, 0, 0, 100, 10, 0, 0, 1] ++
    [0xd4, 0x31, 0x30, 0x39, 0, 28, 0, 0] ++
    [0x44, 0x49, 0x55, 0x55] ++ session.toList

/-! ## Hash of the session id -/

/-- `char` is signed on the target: a byte is sign-extended before the sum. -/
def fastHash (bytes : Bytes) : UInt32 :=
  bytes.foldl (fun hash byte =>
    byte.toInt8.toInt32.toUInt32 + (hash <<< 6) + (hash <<< 16) - hash) 0

def hashModulo (session : UUID) (size : UInt32) : UInt32 :=
  fastHash session.toList % size

theorem hashModulo_lt (session : UUID) {size : UInt32} (hsize : 0 < size.toNat) :
    (hashModulo session size).toNat < size.toNat := by
  rw [hashModulo, UInt32.toNat_mod]
  exact Nat.mod_lt _ hsize

/-! ## Checksum -/

/-- One round of the carry loop on a signed 64-bit accumulator. -/
def foldCarry (csum : Int) : Int := csum % 0x10000 + csum / 0x10000

def csum (H : Helpers) (header : Bytes) : Nat :=
  let folded := foldCarry (foldCarry (foldCarry (foldCarry (H.csumDiff header))))
  ((-folded - 1) % 0x10000).toNat

/-- The checksum of the IP header is computed over a zero checksum field. -/
def setIphdrCsum (H : Helpers) (frame : Frame) : Frame :=
  let frame := writeAt frame 24 [0, 0]
  writeAt frame 24 (leBytes 2 (csum H (slice frame 14 20)))

/-! ## Rewriting the headers -/

def ttl (frame : Frame) : UInt8 := frame.getD 22 0

def decrementTtl (frame : Frame) : Frame := writeAt frame 22 [ttl frame - 1]

def rewrite (H : Helpers) (config : KernelConfig) (backend : BackendSpecT)
    (frame : Frame) : Frame :=
  let frame := writeAt frame 6 config.mac.toList
  let frame := writeAt frame 0 backend.mac.toList
  let frame := writeAt frame 30 (leBytes 4 backend.ip.toNat)
  let frame := writeAt frame 36 (leBytes 2 (htons backend.port))
  let frame := setIphdrCsum H frame
  writeAt frame 40 [0, 0]

structure RewrittenTo (backend : BackendSpecT) (frame : Frame) : Prop where
  mac : slice frame 0 6 = backend.mac.toList
  ip : slice frame 30 4 = leBytes 4 backend.ip.toNat
  port : slice frame 36 2 = leBytes 2 (htons backend.port)

instance (backend : BackendSpecT) (frame : Frame) :
    Decidable (RewrittenTo backend frame) :=
  decidable_of_iff
    (slice frame 0 6 = backend.mac.toList ∧
      slice frame 30 4 = leBytes 4 backend.ip.toNat ∧
      slice frame 36 2 = leBytes 2 (htons backend.port))
    ⟨fun h => ⟨h.1, h.2.1, h.2.2⟩, fun h => ⟨h.mac, h.ip, h.port⟩⟩

theorem slice_setIphdrCsum (H : Helpers) (frame : Frame) {start width : Nat}
    (h : start + width ≤ 24 ∨ 26 ≤ start) :
    slice (setIphdrCsum H frame) start width = slice frame start width := by
  unfold setIphdrCsum
  rw [slice_writeAt_disjoint (by simpa using h),
    slice_writeAt_disjoint (by simpa using h)]

theorem rewrittenTo_rewrite (H : Helpers) (config : KernelConfig)
    (backend : BackendSpecT) {frame : Frame} (hlength : 62 ≤ frame.length) :
    RewrittenTo backend (rewrite H config backend frame) where
  mac := by
    unfold rewrite
    rw [slice_writeAt_disjoint (by simp), slice_setIphdrCsum _ _ (by omega),
      slice_writeAt_disjoint (by simp), slice_writeAt_disjoint (by simp)]
    have hwritten := slice_writeAt_same (writeAt frame 6 config.mac.toList) 0
      backend.mac.toList (by simp; omega)
    simpa using hwritten
  ip := by
    unfold rewrite
    rw [slice_writeAt_disjoint (by simp), slice_setIphdrCsum _ _ (by omega),
      slice_writeAt_disjoint (by simp)]
    have hwritten := slice_writeAt_same
      (writeAt (writeAt frame 6 config.mac.toList) 0 backend.mac.toList) 30
      (leBytes 4 backend.ip.toNat) (by simp; omega)
    simpa using hwritten
  port := by
    unfold rewrite
    rw [slice_writeAt_disjoint (by simp), slice_setIphdrCsum _ _ (by omega)]
    have hwritten := slice_writeAt_same
      (writeAt (writeAt (writeAt frame 6 config.mac.toList) 0
        backend.mac.toList) 30 (leBytes 4 backend.ip.toNat)) 36
      (leBytes 2 (htons backend.port)) (by simp; omega)
    simpa using hwritten

@[simp] theorem length_decrementTtl (frame : Frame) :
    (decrementTtl frame).length = frame.length := by
  simp [decrementTtl]

theorem sessionId_decrementTtl (frame : Frame) :
    sessionId (decrementTtl frame) = sessionId frame := by
  unfold sessionId
  congr 1
  funext i
  rw [List.getD_eq_getElem?_getD, List.getD_eq_getElem?_getD, decrementTtl,
    getElem?_writeAt, if_neg (by simp; omega)]

end Udplb.Bpf
