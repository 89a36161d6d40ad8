import Mathlib.Data.List.Basic

/-!
# Queues in a cyclic array

`Window buf start q`: from `start` on, wrapping at the end, the array holds the
queue `q` and nothing else.  A value is appended at the first free position and
removed at `start`.
-/

namespace Udplb.Foundation

universe u

/-- The position `j` steps after `start`, at most once around. -/
def cyclicAdd (n start j : Nat) : Nat :=
  if start + j < n then start + j else start + j - n

theorem cyclicAdd_lt {n start j : Nat} (hstart : start < n) (hj : j ≤ n) :
    cyclicAdd n start j < n := by
  unfold cyclicAdd
  split <;> omega

theorem cyclicAdd_inj {n start i j : Nat} (hi : i < n) (hj : j < n) :
    cyclicAdd n start i = cyclicAdd n start j ↔ i = j := by
  unfold cyclicAdd
  split <;> split <;> omega

@[simp] theorem cyclicAdd_zero {n start : Nat} (hstart : start < n) :
    cyclicAdd n start 0 = start := by
  simp [cyclicAdd, hstart]

theorem cyclicAdd_self (n start : Nat) : cyclicAdd n start n = start := by
  unfold cyclicAdd
  split <;> omega

theorem cyclicAdd_cyclicAdd_one {n start j : Nat} (hstart : start < n) (hj : j < n) :
    cyclicAdd n (cyclicAdd n start 1) j = cyclicAdd n start (j + 1) := by
  unfold cyclicAdd
  split <;> split <;> split <;> omega

theorem cyclicAdd_add_one {n start j : Nat} (hstart : start < n) (hj : j < n) :
    cyclicAdd n (cyclicAdd n start j) 1 = cyclicAdd n start (j + 1) := by
  unfold cyclicAdd
  split <;> split <;> split <;> omega

variable {α : Type u}

structure Window (buf : List (Option α)) (start : Nat) (q : List α) : Prop where
  start_lt : start < buf.length
  length_le : q.length ≤ buf.length
  slot : ∀ j, j < buf.length → buf[cyclicAdd buf.length start j]? = some q[j]?

namespace Window

variable {buf : List (Option α)} {start : Nat} {q : List α}

theorem empty {n : Nat} (h : 0 < n) :
    Window (List.replicate n (none : Option α)) 0 [] := by
  refine ⟨by simpa using h, by simp, ?_⟩
  intro j hj
  have hlt := cyclicAdd_lt (by simpa using h) (Nat.le_of_lt hj)
  rw [List.getElem?_eq_getElem hlt]
  simp

theorem head (h : Window buf start q) : buf[start]? = some q.head? := by
  have hslot := h.slot 0 (by have := h.start_lt; omega)
  rw [cyclicAdd_zero h.start_lt] at hslot
  rw [hslot]
  cases q <;> rfl

/-- The first free position takes the new value. -/
theorem push (h : Window buf start q) (hfree : q.length < buf.length) (value : α) :
    Window (buf.set (cyclicAdd buf.length start q.length) (some value)) start
      (q ++ [value]) := by
  have hlength : (buf.set (cyclicAdd buf.length start q.length)
      (some value)).length = buf.length := List.length_set
  refine ⟨?_, ?_, ?_⟩
  · rw [hlength]
    exact h.start_lt
  · rw [hlength, List.length_append, List.length_singleton]
    omega
  · rw [hlength]
    intro j hj
    by_cases hlast : j = q.length
    · subst hlast
      have hlt := cyclicAdd_lt h.start_lt (Nat.le_of_lt hfree)
      rw [List.getElem?_set_self hlt]
      simp
    · have hne : cyclicAdd buf.length start q.length ≠
          cyclicAdd buf.length start j := by
        intro heq
        exact hlast ((cyclicAdd_inj hfree hj).mp heq).symm
      rw [List.getElem?_set_ne hne, h.slot j hj]
      congr 1
      by_cases hj' : j < q.length
      · rw [List.getElem?_append_left hj']
      · rw [List.getElem?_eq_none (by omega), List.getElem?_eq_none (by simp; omega)]

/-- The first value is taken out and its position becomes free. -/
theorem pop {value : α} (h : Window buf start (value :: q)) :
    Window (buf.set start none) (cyclicAdd buf.length start 1) q := by
  have hlength : (buf.set start none).length = buf.length := List.length_set
  have hcount := h.length_le
  rw [List.length_cons] at hcount
  refine ⟨?_, ?_, ?_⟩
  · rw [hlength]
    exact cyclicAdd_lt h.start_lt (by omega)
  · rw [hlength]
    omega
  · rw [hlength]
    intro j hj
    rw [cyclicAdd_cyclicAdd_one h.start_lt hj]
    by_cases hlast : j + 1 = buf.length
    · rw [hlast, cyclicAdd_self, List.getElem?_set_self h.start_lt,
        List.getElem?_eq_none (by omega)]
    · have hne : start ≠ cyclicAdd buf.length start (j + 1) := by
        intro heq
        have hzero : cyclicAdd buf.length start 0 = cyclicAdd buf.length start (j + 1) :=
          (cyclicAdd_zero h.start_lt).trans heq
        have := (cyclicAdd_inj (by omega) (by omega)).mp hzero
        omega
      rw [List.getElem?_set_ne hne, h.slot (j + 1) (by omega), List.getElem?_cons_succ]

end Window

/-! ## The last elements -/

/-- One more element pushes out the first of the last `n`, if there are `n`. -/
theorem drop_append_singleton {α : Type u} {n : Nat} (h : 1 ≤ n) (xs : List α) (x : α) :
    (xs ++ [x]).drop (xs.length + 1 - n) =
      (if (xs.drop (xs.length - n)).length = n then (xs.drop (xs.length - n)).tail
        else xs.drop (xs.length - n)) ++ [x] := by
  rw [List.length_drop]
  by_cases hfull : n ≤ xs.length
  · rw [if_pos (by omega), List.tail_drop, List.drop_append_of_le_length (by omega)]
    congr 2
    omega
  · rw [if_neg (by omega), List.drop_append_of_le_length (by omega)]
    congr 2
    omega

end Udplb.Foundation
