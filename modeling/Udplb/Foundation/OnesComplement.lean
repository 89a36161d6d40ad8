import Mathlib.Algebra.GroupWithZero.Nat
import Udplb.Foundation.Bytes

/-!
# One's-complement sums

Sums of 16-bit words with end-around carry.  Such a sum determines the ordinary
sum modulo `0xffff`, and tells apart the two multiples zero and `0xffff`: it is
zero only if every word is.
-/

namespace Udplb.Foundation

def onesAdd (a b : Nat) : Nat := (a + b) % 0x10000 + (a + b) / 0x10000

def onesSum (words : List Nat) : Nat := words.foldl onesAdd 0

theorem onesAdd_le {a b : Nat} (ha : a ≤ 0xffff) (hb : b ≤ 0xffff) :
    onesAdd a b ≤ 0xffff := by
  unfold onesAdd
  omega

theorem onesAdd_mod (a b : Nat) : onesAdd a b % 0xffff = (a + b) % 0xffff := by
  unfold onesAdd
  omega

theorem onesAdd_eq_zero {a b : Nat} : onesAdd a b = 0 ↔ a + b = 0 := by
  unfold onesAdd
  omega

theorem foldl_onesAdd_le {words : List Nat} (h : ∀ word ∈ words, word ≤ 0xffff)
    {acc : Nat} (hacc : acc ≤ 0xffff) : words.foldl onesAdd acc ≤ 0xffff := by
  induction words generalizing acc with
  | nil => exact hacc
  | cons word words ih =>
      exact ih (fun other hmem => h other (by simp [hmem]))
        (onesAdd_le hacc (h word (by simp)))

theorem foldl_onesAdd_mod (words : List Nat) (acc : Nat) :
    words.foldl onesAdd acc % 0xffff = (acc + words.sum) % 0xffff := by
  induction words generalizing acc with
  | nil => simp
  | cons word words ih =>
      have hword := onesAdd_mod acc word
      rw [List.foldl_cons, ih, List.sum_cons]
      omega

theorem foldl_onesAdd_eq_zero {words : List Nat} {acc : Nat} :
    words.foldl onesAdd acc = 0 ↔ acc + words.sum = 0 := by
  induction words generalizing acc with
  | nil => simp
  | cons word words ih =>
      have hword : onesAdd acc word = 0 ↔ acc + word = 0 := onesAdd_eq_zero
      rw [List.foldl_cons, ih, List.sum_cons]
      omega

theorem onesSum_eq_iff {words : List Nat} (h : ∀ word ∈ words, word ≤ 0xffff) :
    onesSum words = 0xffff ↔ words.sum % 0xffff = 0 ∧ words.sum ≠ 0 := by
  have hle := foldl_onesAdd_le h (Nat.zero_le 0xffff)
  have hmod := foldl_onesAdd_mod words 0
  have hzero : words.foldl onesAdd 0 = 0 ↔ 0 + words.sum = 0 := foldl_onesAdd_eq_zero
  unfold onesSum
  omega

/-! ## The words of a byte string -/

/-- The 16-bit words in network byte order; an odd last byte is left out. -/
def beWords : Bytes → List Nat
  | [] => []
  | [_] => []
  | high :: low :: rest => (high.toNat * 256 + low.toNat) :: beWords rest

theorem le_of_mem_beWords {bytes : Bytes} {word : Nat} (h : word ∈ beWords bytes) :
    word ≤ 0xffff := by
  induction bytes using beWords.induct with
  | case1 => simp [beWords] at h
  | case2 byte => simp [beWords] at h
  | case3 high low rest ih =>
      have hhigh : high.toNat < 256 := high.toNat_lt
      have hlow : low.toNat < 256 := low.toNat_lt
      rw [beWords, List.mem_cons] at h
      rcases h with rfl | h
      · omega
      · exact ih h

theorem beWords_append {front : Bytes} (back : Bytes) (h : front.length % 2 = 0) :
    beWords (front ++ back) = beWords front ++ beWords back := by
  induction front using beWords.induct with
  | case1 => rfl
  | case2 byte => simp at h
  | case3 high low rest ih =>
      rw [List.length_cons, List.length_cons] at h
      simp only [List.cons_append, beWords, ih (by omega)]

theorem toNat_le_sum_beWords {bytes : Bytes} {byte : UInt8}
    (h : bytes.length % 2 = 0) (hmem : byte ∈ bytes) :
    byte.toNat ≤ (beWords bytes).sum := by
  induction bytes using beWords.induct with
  | case1 => cases hmem
  | case2 other => simp at h
  | case3 high low rest ih =>
      rw [List.length_cons, List.length_cons] at h
      rw [beWords, List.sum_cons]
      simp only [List.mem_cons] at hmem
      rcases hmem with rfl | rfl | hmem
      · omega
      · omega
      · have := ih (by omega) hmem
        omega

end Udplb.Foundation
