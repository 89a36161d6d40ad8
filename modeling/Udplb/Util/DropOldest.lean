import Mathlib.Data.List.DropRight
import Udplb.Util.RingBuffer

/-!
# The ring buffer, one operation at a time

Used by one goroutine, or under a lock of its own, the buffer is a queue that
drops its oldest value.  The values that are unread are those written after the
last one that was read; the buffer retains the most recent ones of them.
-/

namespace Udplb.Util.RingBuffer

open Udplb.Foundation

universe u

variable {α : Type u}

inductive Op (α : Type u) where
  | write (v : α)
  | next
  deriving DecidableEq, Repr

def Op.written? : Op α → Option α
  | .write v => some v
  | .next => none

def next (rb : RingBuffer α) : Except Stop (RingBuffer α × α) := do
  let rb ← rb.takeToken
  rb.lockedRead

def apply (rb : RingBuffer α) : Op α → Except Stop (RingBuffer α × List α)
  | .write v => do
      let rb ← rb.write v
      .ok (rb, [])
  | .next => do
      let (rb, out) ← rb.next
      .ok (rb, [out])

/-- The values in the buffer, from the read index on. -/
def values (rb : RingBuffer α) : List α :=
  (List.range rb.size).filterMap fun j => rb.buf[cyclicAdd rb.size rb.readIdx j]?.join

/-- A `Next` skips the unread values that are not among the last `size` ones. -/
def queueStep (size : Nat) (unread : List α) : Op α → Except Stop (List α × List α)
  | .write v => .ok (unread ++ [v], [])
  | .next =>
      match unread.rtake size with
      | [] => .error .blocked
      | v :: rest => .ok (rest, [v])

/-! ## What the buffer retains -/

theorem filterMap_range_getElem? (q : List α) (n : Nat) :
    (List.range n).filterMap (fun j => q[j]?) = q.take n := by
  induction n with
  | zero => rfl
  | succ n ih =>
      rw [List.range_succ, List.filterMap_append, ih, List.take_add_one]
      cases hn : q[n]? <;> simp [hn]

theorem Holds.values_eq {rb : RingBuffer α} {q : List α} (h : Holds rb q) :
    rb.values = q := by
  have hslot : ∀ j ∈ List.range rb.size,
      rb.buf[cyclicAdd rb.size rb.readIdx j]?.join = q[j]? := by
    intro j hj
    rw [h.window.slot j (List.mem_range.mp hj)]
    rfl
  rw [values, List.filterMap_congr hslot, filterMap_range_getElem?,
    List.take_of_length_le h.window.length_le]

theorem rtake_of_length_le {q : List α} {n : Nat} (h : q.length ≤ n) : q.rtake n = q := by
  rw [List.rtake, Nat.sub_eq_zero_of_le h, List.drop_zero]

theorem rtake_append_singleton {n : Nat} (h : 1 ≤ n) (unread : List α) (v : α) :
    (unread ++ [v]).rtake n = push n (unread.rtake n) v := by
  rw [push, List.rtake, List.rtake, List.length_append, List.length_singleton]
  exact drop_append_singleton h unread v

structure Retains (size : Nat) (rb : RingBuffer α) (unread : List α) : Prop where
  holds : rb.Holds (unread.rtake size)
  size_eq : rb.size = size
  safeNext_eq : rb.safeNext = (unread.rtake size).length

theorem retains_new {size : Nat} (h : 1 ≤ size) : Retains size (new size : RingBuffer α) [] := by
  refine ⟨?_, by simp [new, RingBuffer.size], by simp [new]⟩
  rw [List.rtake_nil]
  exact holds_new h

theorem Retains.write {size : Nat} {rb : RingBuffer α} {unread : List α}
    (hsize : 1 ≤ size) (h : Retains size rb unread) (v : α) :
    Returns (rb.write v) fun rb' => Retains size rb' (unread ++ [v]) := by
  have hle : (unread.rtake size).length ≤ rb.size := h.holds.window.length_le
  apply (h.holds.write_spec v).mono
  rintro rb' ⟨hholds, hsame, hsafe⟩
  rw [h.size_eq] at hholds hsame hsafe hle
  rw [← rtake_append_singleton hsize] at hholds
  refine ⟨hholds, hsame, ?_⟩
  -- a token is added until there are as many as the buffer has slots
  rw [hsafe, h.safeNext_eq]
  simp only [List.rtake, List.length_drop, List.length_append, List.length_singleton] at hle ⊢
  split <;> omega

theorem Retains.next {size : Nat} {rb : RingBuffer α} {unread rest : List α} {v : α}
    (h : Retains size rb unread) (hretained : unread.rtake size = v :: rest) :
    Returns rb.next fun result => Retains size result.1 rest ∧ result.2 = v := by
  have hholds := h.holds
  have hsafe := h.safeNext_eq
  have hle : (unread.rtake size).length ≤ rb.size := hholds.window.length_le
  rw [hretained, List.length_cons] at hsafe hle
  rw [hretained] at hholds
  have htoken : rb.takeToken = .ok { rb with safeNext := rb.safeNext - 1 } := by
    rw [takeToken, if_neg (by omega)]
  have htaken := hholds.takeToken htoken
  rw [RingBuffer.next, htoken]
  apply htaken.lockedRead_cons.mono
  rintro ⟨rb', out⟩ ⟨hrest, hsame, hsafe', rfl⟩
  have hkept : rest.rtake size = rest := by
    apply rtake_of_length_le
    rw [← h.size_eq]
    omega
  refine ⟨⟨by rw [hkept]; exact hrest, hsame.trans h.size_eq, ?_⟩, rfl⟩
  rw [hkept, hsafe', hsafe]
  rfl

theorem Retains.apply {size : Nat} {rb : RingBuffer α} {unread unread' now : List α}
    {op : Op α} (hsize : 1 ≤ size) (h : Retains size rb unread)
    (hstep : queueStep size unread op = .ok (unread', now)) :
    Returns (rb.apply op) fun result => Retains size result.1 unread' ∧ result.2 = now := by
  cases op with
  | write v =>
      cases hstep
      apply (h.write hsize v).bind
      intro rb' hrb'
      exact .ok ⟨hrb', rfl⟩
  | next =>
      cases hretained : unread.rtake size with
      | nil => simp [queueStep, hretained] at hstep
      | cons v rest =>
          simp only [queueStep, hretained] at hstep
          cases hstep
          apply (h.next hretained).bind
          rintro ⟨rb', out⟩ ⟨hrb', rfl⟩
          exact .ok ⟨hrb', rfl⟩

/-! ## What is unread -/

/-- What has been passed over ends with the last value that was read. -/
theorem exists_passed {size : Nat} {ops : List (Op α)} {before unread out : List α}
    (hrun : run (queueStep size) before ops = .ok (unread, out)) :
    ∃ passed, before ++ ops.filterMap Op.written? = passed ++ unread ∧
      passed.getLast? = out.getLast? := by
  induction ops generalizing before out with
  | nil =>
      cases hrun
      exact ⟨[], by simp, rfl⟩
  | cons op ops ih =>
      obtain ⟨middle, now, later, hstep, hrest, rfl⟩ := run_cons_eq_ok.mp hrun
      obtain ⟨passed, hpassed, hlast⟩ := ih hrest
      cases op with
      | write v =>
          cases hstep
          refine ⟨passed, ?_, hlast⟩
          rw [← hpassed]
          simp [Op.written?]
      | next =>
          cases hretained : before.rtake size with
          | nil => simp [queueStep, hretained] at hstep
          | cons v rest =>
              simp only [queueStep, hretained] at hstep
              cases hstep
              have hsuffix : v :: middle <:+ before := by
                rw [← hretained]
                exact List.drop_suffix _ _
              obtain ⟨dropped, rfl⟩ := hsuffix
              refine ⟨dropped ++ v :: passed, ?_, ?_⟩
              · simpa [List.filterMap_cons, Op.written?] using hpassed
              · simp [List.getLast?_append, List.getLast?_cons, hlast]

/--
As long as a `Next` is only issued when something is unread, every operation
returns.  The unread values are those written after the last one read; the
buffer holds the last `size` of them, with a token for each, and `Next` returns
the first of those.
-/
theorem drop_oldest_queue (size : Nat) (hsize : 1 ≤ size) (ops : List (Op α))
    (unread out : List α) (hissued : run (queueStep size) [] ops = .ok (unread, out)) :
    (∃ passed, ops.filterMap Op.written? = passed ++ unread ∧
      passed.getLast? = out.getLast?) ∧
    Returns (run apply (new size) ops) fun result =>
      result.2 = out ∧ result.1.values = unread.rtake size ∧
      result.1.safeNext = result.1.values.length ∧
      result.1.readIdx < size ∧ result.1.writeIdx < size ∧
      ∀ v, result.1.values.head? = some v →
        Returns result.1.next fun answer => answer.2 = v := by
  refine ⟨by simpa using exists_passed hissued, ?_⟩
  have hsimulates := run_simulates (Retains size)
    (fun rb unread op unread' now h hstep => h.apply hsize hstep) (retains_new hsize) hissued
  apply hsimulates.mono
  rintro ⟨rb, out'⟩ ⟨h, rfl⟩
  have hvalues := h.holds.values_eq
  refine ⟨rfl, hvalues, by rw [hvalues, h.safeNext_eq], ?_, ?_, ?_⟩
  · rw [← h.size_eq]
    exact h.holds.window.start_lt
  · rw [← h.size_eq]
    exact h.holds.writeIdx_lt
  · intro v hhead
    obtain ⟨rest, hrest⟩ := List.head?_eq_some_iff.mp hhead
    exact (h.next (hvalues ▸ hrest)).mono fun answer hanswer => hanswer.2

/-- Two values are dropped, and the reads go on behind them. -/
theorem drop_oldest_queue_wrapping :
    run (queueStep 2) [] [.write 1, .write 2, .write 3, .write 4, .next, .write 5] =
      .ok ([4, 5], [3]) ∧
    Returns (run apply (new 2) [.write 1, .write 2, .write 3, .write 4, .next, .write 5])
      fun result => result.2 = [3] ∧ result.1.values = [4, 5] := by
  have hissued : run (queueStep 2) []
      [.write 1, .write 2, .write 3, .write 4, .next, .write 5] = .ok ([4, 5], [3]) := by
    decide
  refine ⟨hissued, ?_⟩
  have h := (drop_oldest_queue 2 (by decide) _ _ _ hissued).2
  exact h.mono fun result hresult => ⟨hresult.1, hresult.2.1⟩

end Udplb.Util.RingBuffer
