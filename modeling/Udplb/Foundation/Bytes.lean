import Mathlib.Algebra.Group.Nat.Defs
import Mathlib.Data.List.GetD

/-!
# Byte strings

Words of a little-endian host in memory, and bounded reads and writes of a
fixed buffer.  A write never changes the length of the buffer.
-/

namespace Udplb.Foundation

abbrev Bytes := List UInt8

/-- The value of a little-endian word. -/
def leNat : Bytes → Nat
  | [] => 0
  | byte :: bytes => byte.toNat + 256 * leNat bytes

/-- The `width` low bytes of a number, least significant first. -/
def leBytes : Nat → Nat → Bytes
  | 0, _ => []
  | width + 1, n => UInt8.ofNat n :: leBytes width (n / 256)

@[simp] theorem length_leBytes (width n : Nat) :
    (leBytes width n).length = width := by
  induction width generalizing n with
  | zero => rfl
  | succ width ih => simp [leBytes, ih]

theorem leNat_lt (bytes : Bytes) : leNat bytes < 256 ^ bytes.length := by
  induction bytes with
  | nil => simp [leNat]
  | cons byte bytes ih =>
      have hbyte : byte.toNat < 256 := byte.toNat_lt
      rw [leNat, List.length_cons, Nat.pow_succ]
      omega

theorem leBytes_leNat (bytes : Bytes) :
    leBytes bytes.length (leNat bytes) = bytes := by
  induction bytes with
  | nil => rfl
  | cons byte bytes ih =>
      have hbyte : byte.toNat < 256 := byte.toNat_lt
      have hlow : UInt8.ofNat (byte.toNat + 256 * leNat bytes) = byte := by
        apply UInt8.toNat_inj.mp
        simp only [UInt8.toNat_ofNat']
        omega
      have hhigh : (byte.toNat + 256 * leNat bytes) / 256 = leNat bytes := by
        omega
      rw [List.length_cons, leNat, leBytes, hlow, hhigh, ih]

theorem leNat_leBytes (width n : Nat) : leNat (leBytes width n) = n % 256 ^ width := by
  induction width generalizing n with
  | zero => simp [leBytes, leNat, Nat.mod_one]
  | succ width ih =>
      rw [leBytes, leNat, ih, Nat.pow_succ', Nat.mod_mul, UInt8.toNat_ofNat']

def slice (buffer : Bytes) (offset width : Nat) : Bytes :=
  (buffer.drop offset).take width

def writeAt (buffer : Bytes) (offset : Nat) (bytes : Bytes) : Bytes :=
  buffer.mapIdx fun i old =>
    if offset ≤ i then bytes.getD (i - offset) old else old

@[simp] theorem length_writeAt (buffer : Bytes) (offset : Nat) (bytes : Bytes) :
    (writeAt buffer offset bytes).length = buffer.length := by
  simp [writeAt]

theorem getElem?_slice (buffer : Bytes) (offset width i : Nat) :
    (slice buffer offset width)[i]? =
      if i < width then buffer[offset + i]? else none := by
  rw [slice, List.getElem?_take, List.getElem?_drop]

theorem slice_append_left {front : Bytes} (back : Bytes) {offset width : Nat}
    (h : offset + width ≤ front.length) :
    slice (front ++ back) offset width = slice front offset width := by
  apply List.ext_getElem?
  intro i
  rw [getElem?_slice, getElem?_slice]
  by_cases hi : i < width
  · rw [if_pos hi, if_pos hi, List.getElem?_append_left (by omega)]
  · rw [if_neg hi, if_neg hi]

theorem slice_append_right (front back : Bytes) (offset width : Nat) :
    slice (front ++ back) (front.length + offset) width = slice back offset width := by
  rw [slice, slice, List.drop_append, List.drop_eq_nil_of_le (by omega),
    List.nil_append, Nat.add_sub_cancel_left]

theorem getElem?_writeAt (buffer : Bytes) (offset : Nat) (bytes : Bytes)
    (i : Nat) :
    (writeAt buffer offset bytes)[i]? =
      if offset ≤ i ∧ i < offset + bytes.length then
        (if i < buffer.length then bytes[i - offset]? else none)
      else buffer[i]? := by
  rw [writeAt, List.getElem?_mapIdx]
  by_cases hi : i < buffer.length
  · rw [List.getElem?_eq_getElem hi, Option.map_some, if_pos hi]
    by_cases hlow : offset ≤ i
    · rw [if_pos hlow]
      by_cases hhigh : i < offset + bytes.length
      · have hin : i - offset < bytes.length := by omega
        rw [if_pos ⟨hlow, hhigh⟩, List.getD_eq_getElem _ _ hin,
          List.getElem?_eq_getElem hin]
      · rw [if_neg (by omega), List.getD_eq_default _ _ (by omega)]
    · rw [if_neg hlow, if_neg (by omega)]
  · rw [List.getElem?_eq_none (by omega), Option.map_none, if_neg hi, ite_self]

theorem length_slice {buffer : Bytes} {offset width : Nat}
    (h : offset + width ≤ buffer.length) : (slice buffer offset width).length = width := by
  rw [slice, List.length_take, List.length_drop]
  omega

theorem writeAt_eq_append {buffer : Bytes} {offset : Nat} {bytes : Bytes}
    (h : offset + bytes.length ≤ buffer.length) :
    writeAt buffer offset bytes =
      buffer.take offset ++ (bytes ++ buffer.drop (offset + bytes.length)) := by
  have hfront : (buffer.take offset).length = offset := by
    rw [List.length_take]
    omega
  apply List.ext_getElem?
  intro i
  rw [getElem?_writeAt]
  by_cases hbefore : i < offset
  · rw [if_neg (by omega), List.getElem?_append_left (by omega), List.getElem?_take,
      if_pos hbefore]
  · rw [List.getElem?_append_right (by omega), hfront]
    by_cases hinside : i < offset + bytes.length
    · rw [if_pos ⟨by omega, hinside⟩, if_pos (by omega),
        List.getElem?_append_left (by omega)]
    · rw [if_neg (by omega), List.getElem?_append_right (by omega), List.getElem?_drop]
      congr 1
      omega

theorem writeAt_writeAt {buffer : Bytes} {offset : Nat} {first second : Bytes}
    (h : first.length = second.length) :
    writeAt (writeAt buffer offset first) offset second = writeAt buffer offset second := by
  apply List.ext_getElem?
  intro i
  simp only [getElem?_writeAt, length_writeAt, h]
  split <;> rfl

/-- A part that contains what is written: the write is one into the part. -/
theorem slice_writeAt_inside {buffer : Bytes} {offset : Nat} {bytes : Bytes}
    {start width : Nat} (hstart : start ≤ offset)
    (hwidth : offset + bytes.length ≤ start + width) :
    slice (writeAt buffer offset bytes) start width =
      writeAt (slice buffer start width) (offset - start) bytes := by
  apply List.ext_getElem?
  intro i
  have hlength : (slice buffer start width).length = min width (buffer.length - start) := by
    rw [slice, List.length_take, List.length_drop]
  rw [getElem?_slice, getElem?_writeAt, getElem?_writeAt, getElem?_slice, hlength]
  by_cases hinside : offset ≤ start + i ∧ start + i < offset + bytes.length
  · rw [if_pos (by omega), if_pos hinside,
      if_pos (show offset - start ≤ i ∧ i < offset - start + bytes.length by omega),
      show i - (offset - start) = start + i - offset by omega]
    by_cases hfits : start + i < buffer.length
    · rw [if_pos hfits, if_pos (by omega)]
    · rw [if_neg hfits, if_neg (by omega)]
  · rw [if_neg hinside, if_neg (show ¬(offset - start ≤ i ∧ _) by omega)]

theorem slice_writeAt_same (buffer : Bytes) (offset : Nat) (bytes : Bytes)
    (h : offset + bytes.length ≤ buffer.length) :
    slice (writeAt buffer offset bytes) offset bytes.length = bytes := by
  apply List.ext_getElem?
  intro i
  rw [getElem?_slice, getElem?_writeAt]
  by_cases hi : i < bytes.length
  · rw [if_pos hi, if_pos (by omega), if_pos (by omega), Nat.add_sub_cancel_left]
  · rw [if_neg hi, List.getElem?_eq_none (by omega)]

theorem slice_writeAt_disjoint {buffer : Bytes} {offset : Nat} {bytes : Bytes}
    {start width : Nat}
    (h : start + width ≤ offset ∨ offset + bytes.length ≤ start) :
    slice (writeAt buffer offset bytes) start width =
      slice buffer start width := by
  apply List.ext_getElem?
  intro i
  rw [getElem?_slice, getElem?_slice, getElem?_writeAt]
  by_cases hi : i < width
  · rw [if_pos hi, if_pos hi, if_neg (by omega)]
  · rw [if_neg hi, if_neg hi]

end Udplb.Foundation
