import Udplb.Bpf.Packet

/-!
# Which datagrams are taken

The fields of a frame in network byte order, and the datagrams that are meant
for the load balancer: the UDP header is found behind the IP header, whatever
its length, and a fragment other than the first has none.  `mustLoadbalance`
finds it behind 20 bytes and looks neither at the header length nor at the
fragment offset.
-/

namespace Udplb.Bpf

open Udplb.Foundation

def byteAt (frame : Frame) (offset : Nat) : Nat := (frame.getD offset 0).toNat

/-- A 16-bit field in network byte order. -/
def be16 (frame : Frame) (offset : Nat) : Nat :=
  byteAt frame offset * 256 + byteAt frame (offset + 1)

/-- The length of the IP header, in words of 32 bits. -/
def ihl (frame : Frame) : Nat := byteAt frame 14 % 16

def fragmentOffset (frame : Frame) : Nat := be16 frame 20 % 2 ^ 13

/-- A datagram to `lbAddr:lbPort` behind an IP header of `header` bytes. -/
structure DatagramBehind (header : Nat) (frame : Frame) (lbAddr : UInt32)
    (lbPort : UInt16) : Prop where
  etherType : be16 frame 12 = ethPIp.toNat
  header_le : 14 + header ≤ frame.length
  protocol : byteAt frame 23 = ipprotoUdp
  daddr : leNat (slice frame 30 4) = lbAddr.toNat
  udp_le : 14 + header + 8 ≤ frame.length
  dest : be16 frame (14 + header + 2) = lbPort.toNat
  data_le : 14 + header + 8 + 20 ≤ frame.length
  magic : leNat (slice frame (14 + header + 8) 4) = udplbPacketPrefix

/-- A datagram that is meant for the load balancer. -/
structure Intended (frame : Frame) (lbAddr : UInt32) (lbPort : UInt16) : Prop where
  ihl_ge : 5 ≤ ihl frame
  first : fragmentOffset frame = 0
  datagram : DatagramBehind (4 * ihl frame) frame lbAddr lbPort

/-! ## What the program accepts -/

theorem slice_one {frame : Frame} {offset : Nat} (h : offset < frame.length) :
    slice frame offset 1 = [frame.getD offset 0] := by
  rw [slice, List.drop_eq_getElem_cons h, List.take_succ_cons, List.take_zero,
    List.getD_eq_getElem _ _ h]

theorem slice_two {frame : Frame} {offset : Nat} (h : offset + 1 < frame.length) :
    slice frame offset 2 = [frame.getD offset 0, frame.getD (offset + 1) 0] := by
  have hfirst : offset < frame.length := by omega
  rw [slice, List.drop_eq_getElem_cons hfirst, List.take_succ_cons,
    List.drop_eq_getElem_cons h, List.take_succ_cons, List.take_zero,
    List.getD_eq_getElem _ _ hfirst, List.getD_eq_getElem _ _ h]

/-- A field compared with `htons` of a value holds it in network byte order. -/
theorem leNat_eq_htons_iff {frame : Frame} {offset : Nat}
    (h : offset + 1 < frame.length) (x : UInt16) :
    leNat (slice frame offset 2) = htons x ↔ be16 frame offset = x.toNat := by
  have hx := x.toNat_lt
  have hfirst := (frame.getD offset 0).toNat_lt
  have hsecond := (frame.getD (offset + 1) 0).toNat_lt
  rw [slice_two h]
  simp only [leNat, htons, be16, byteAt]
  omega

theorem leNat_slice_one {frame : Frame} {offset : Nat} (h : offset < frame.length) :
    leNat (slice frame offset 1) = byteAt frame offset := by
  rw [slice_one h]
  simp [leNat, byteAt]

/-- The program takes the datagrams behind a header of 20 bytes. -/
theorem mustLoadbalance_iff (frame : Frame) (lbAddr : UInt32) (lbPort : UInt16) :
    mustLoadbalance frame lbAddr lbPort = true ↔
      DatagramBehind 20 frame lbAddr lbPort := by
  by_cases hlength : frame.length < 62
  · constructor
    · intro h
      have := length_of_mustLoadbalance h
      omega
    · intro h
      have := h.data_le
      omega
  · have htype := leNat_eq_htons_iff (show 12 + 1 < frame.length by omega) ethPIp
    have hport := leNat_eq_htons_iff (show 36 + 1 < frame.length by omega) lbPort
    have hprotocol := leNat_slice_one (show 23 < frame.length by omega)
    simp only [mustLoadbalance, htype, hport, hprotocol, hlength,
      show ¬frame.length < 14 by omega, show ¬frame.length < 34 by omega,
      show ¬frame.length < 42 by omega, if_false, ne_eq, ite_not]
    constructor
    · intro h
      split_ifs at h with h₁ h₂ h₃ h₄ h₅
      exact ⟨h₁, by omega, h₃, h₂, by omega, h₄, by omega, h₅⟩
    · intro h
      rw [if_pos h.etherType, if_pos h.daddr, if_pos h.protocol, if_pos h.dest,
        if_pos h.magic]

/-- The checks that come before the UDP header: IPv4, destination and protocol. -/
structure ForUdp (frame : Frame) (lbAddr : UInt32) : Prop where
  etherType : be16 frame 12 = ethPIp.toNat
  header_le : 34 ≤ frame.length
  protocol : byteAt frame 23 = ipprotoUdp
  daddr : leNat (slice frame 30 4) = lbAddr.toNat

theorem DatagramBehind.forUdp {header : Nat} {frame : Frame} {lbAddr : UInt32}
    {lbPort : UInt16} (h : DatagramBehind header frame lbAddr lbPort) (hheader : 20 ≤ header) :
    ForUdp frame lbAddr := by
  have hle := h.header_le
  exact ⟨h.etherType, by omega, h.protocol, h.daddr⟩

/-- A frame without options, or one that is dismissed before they matter, is judged rightly. -/
theorem accepts_intended_of_plain {frame : Frame} {lbAddr : UInt32}
    (hplain : ForUdp frame lbAddr → ihl frame = 5 ∧ fragmentOffset frame = 0)
    (lbPort : UInt16) :
    mustLoadbalance frame lbAddr lbPort = true ↔ Intended frame lbAddr lbPort := by
  rw [mustLoadbalance_iff]
  constructor
  · intro h
    obtain ⟨hihl, hfragment⟩ := hplain (h.forUdp (Nat.le_refl 20))
    exact ⟨by omega, hfragment, by rw [hihl]; exact h⟩
  · intro h
    have hge := h.ihl_ge
    have hdatagram := h.datagram
    rw [(hplain (hdatagram.forUdp (by omega))).1] at hdatagram
    exact hdatagram

/-! ## The first 34 bytes -/

section Header

variable (header : Vector UInt8 34) (rest : Bytes)

theorem byteAt_append {i : Nat} (hi : i < 34) :
    byteAt (header.toList ++ rest) i = byteAt header.toList i := by
  have hlength : header.toList.length = 34 := Vector.length_toList
  rw [byteAt, byteAt, List.getD_append _ _ _ _ (by omega)]

theorem be16_append {i : Nat} (hi : i < 33) :
    be16 (header.toList ++ rest) i = be16 header.toList i := by
  rw [be16, be16, byteAt_append header rest (by omega), byteAt_append header rest (by omega)]

theorem forUdp_append (lbAddr : UInt32) :
    ForUdp (header.toList ++ rest) lbAddr ↔ ForUdp header.toList lbAddr := by
  have hlength : header.toList.length = 34 := Vector.length_toList
  have hdaddr : slice (header.toList ++ rest) 30 4 = slice header.toList 30 4 :=
    slice_append_left rest (by omega)
  have htype := be16_append header rest (show 12 < 33 by omega)
  have hprotocol := byteAt_append header rest (show 23 < 34 by omega)
  constructor
  · rintro ⟨h₁, -, h₂, h₃⟩
    exact ⟨htype ▸ h₁, by omega, hprotocol ▸ h₂, hdaddr ▸ h₃⟩
  · rintro ⟨h₁, -, h₂, h₃⟩
    exact ⟨htype.trans h₁, by simp, hprotocol.trans h₂, by rw [hdaddr]; exact h₃⟩

theorem plain_append :
    (ihl (header.toList ++ rest) = 5 ∧ fragmentOffset (header.toList ++ rest) = 0) ↔
      ihl header.toList = 5 ∧ fragmentOffset header.toList = 0 := by
  rw [ihl, ihl, fragmentOffset, fragmentOffset, byteAt_append header rest (by omega),
    be16_append header rest (by omega)]

end Header

/-- What a UDP header for the port, the magic and a session id look like. -/
def udpPart (lbPort : UInt16) : Bytes :=
  [0, 0, UInt8.ofNat (lbPort.toNat / 256), UInt8.ofNat lbPort.toNat, 0, 0, 0, 0] ++
    [0x44, 0x49, 0x55, 0x55] ++ List.replicate 16 9

theorem mustLoadbalance_udpPart {header : Vector UInt8 34} {lbAddr : UInt32}
    (h : ForUdp header.toList lbAddr) (lbPort : UInt16) :
    mustLoadbalance (header.toList ++ udpPart lbPort) lbAddr lbPort = true := by
  have hlength : header.toList.length = 34 := Vector.length_toList
  have hpart : ∀ i, byteAt (header.toList ++ udpPart lbPort) (34 + i) =
      byteAt (udpPart lbPort) i := by
    intro i
    rw [byteAt, byteAt, List.getD_append_right _ _ _ _ (by omega), hlength,
      Nat.add_sub_cancel_left]
  have htotal : (header.toList ++ udpPart lbPort).length = 62 := by
    rw [List.length_append, hlength]
    rfl
  have hport := lbPort.toNat_lt
  have h := (forUdp_append header (udpPart lbPort) lbAddr).mpr h
  rw [mustLoadbalance_iff]
  refine ⟨h.etherType, by omega, h.protocol, h.daddr, by omega, ?_, by omega, ?_⟩
  · change byteAt _ (34 + 2) * 256 + byteAt _ (34 + 3) = _
    rw [hpart, hpart]
    change (UInt8.ofNat (lbPort.toNat / 256)).toNat * 256 + (UInt8.ofNat lbPort.toNat).toNat = _
    rw [UInt8.toNat_ofNat', UInt8.toNat_ofNat']
    omega
  · have hmagic := slice_append_right header.toList (udpPart lbPort) 8 4
    rw [hlength] at hmagic
    rw [hmagic]
    rfl

/-- A datagram behind an IP header with one word of options. -/
def optionsPacket : Frame :=
  [0x0a, 0x0b, 0x0c, 0x0d, 0x0e, 0x0f, 1, 2, 3, 4, 5, 6, 0x08, 0x00] ++
    [0x46, 0, 0, 52, 0, 0, 0, 0, 64, 17, 0, 0, 10, 0, 0, 100, 10, 0, 0, 1] ++
    [1, 1, 1, 1] ++ [0xd4, 0x31, 0x30, 0x39, 0, 28, 0, 0] ++
    [0x44, 0x49, 0x55, 0x55] ++ List.replicate 16 9

/-- A frame of 62 bytes with the given header length byte and fragment field. -/
def fragmentPacket (versionIhl high low : UInt8) : Frame :=
  [0x0a, 0x0b, 0x0c, 0x0d, 0x0e, 0x0f, 1, 2, 3, 4, 5, 6, 0x08, 0x00] ++
    [versionIhl, 0, 0, 48, 0, 0, high, low, 64, 17, 0, 0, 10, 0, 0, 100, 10, 0, 0, 1] ++
    [0xd4, 0x31, 0x30, 0x39, 0, 28, 0, 0] ++
    [0x44, 0x49, 0x55, 0x55] ++ List.replicate 16 9

end Udplb.Bpf
