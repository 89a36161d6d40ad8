import Udplb.Foundation.Cyclic
import Udplb.Foundation.Trace

/-!
# The ring buffer

A `Write` into a full buffer overwrites the oldest value.  `Next` takes a token
from `safeNext` before it locks the buffer, and reads in a second step.  The
buffer always holds a queue; the tokens count its values as long as no value is
overwritten while a `Next` is between its two steps.
-/

namespace Udplb.Util

open Udplb.Foundation

universe u

structure RingBuffer (α : Type u) where
  buf : List (Option α)
  readIdx : Nat
  writeIdx : Nat
  /-- The number of tokens in the channel, whose capacity is the buffer's size. -/
  safeNext : Nat
  deriving DecidableEq, Repr

namespace RingBuffer

variable {α : Type u}

inductive Stop where
  | indexOutOfRange
  | nilDereference
  | blocked
  deriving DecidableEq, Repr

def new (size : Nat) : RingBuffer α := ⟨List.replicate size none, 0, 0, 0⟩

abbrev size (rb : RingBuffer α) : Nat := rb.buf.length

def incIdx (size idx : Nat) : Nat :=
  if idx + 1 > size - 1 then 0 else idx + 1

/-- The test of `Write` that a value is about to be overwritten. -/
def Overwriting (rb : RingBuffer α) : Prop :=
  rb.writeIdx = rb.readIdx ∧ (rb.buf[rb.writeIdx]?.join).isSome = true

instance (rb : RingBuffer α) : Decidable rb.Overwriting :=
  inferInstanceAs (Decidable (_ ∧ _))

def write (rb : RingBuffer α) (v : α) : Except Stop (RingBuffer α) :=
  if rb.writeIdx < rb.size then
    .ok { buf := rb.buf.set rb.writeIdx (some v)
          readIdx := if rb.Overwriting then incIdx rb.size rb.readIdx else rb.readIdx
          writeIdx := incIdx rb.size rb.writeIdx
          -- the token is dropped when the channel is full
          safeNext := if rb.safeNext < rb.size then rb.safeNext + 1 else rb.safeNext }
  else .error .indexOutOfRange

/-- The first step of `Next`. -/
def takeToken (rb : RingBuffer α) : Except Stop (RingBuffer α) :=
  if rb.safeNext = 0 then .error .blocked
  else .ok { rb with safeNext := rb.safeNext - 1 }

/-- The second step of `Next`, under the lock. -/
def lockedRead (rb : RingBuffer α) : Except Stop (RingBuffer α × α) :=
  match rb.buf[rb.readIdx]? with
  | none => .error .indexOutOfRange
  | some none => .error .nilDereference
  | some (some out) =>
      .ok ({ rb with
             buf := rb.buf.set rb.readIdx none
             readIdx := incIdx rb.size rb.readIdx }, out)

/-! ## The queue in the buffer -/

/-- A queue of at most `n` values that drops its oldest one. -/
def push (n : Nat) (q : List α) (v : α) : List α :=
  (if q.length = n then q.tail else q) ++ [v]

/-- Nothing is reordered by a push: a queue before the new value in `ahead` stays. -/
theorem append_push_sublist {n : Nat} {ahead q all : List α} (v : α)
    (h : (ahead ++ q).Sublist all) : (ahead ++ push n q v).Sublist (all ++ [v]) := by
  have hkept : (if q.length = n then q.tail else q).Sublist q := by
    split
    · exact List.tail_sublist q
    · exact .refl q
  rw [push, ← List.append_assoc]
  exact (((List.Sublist.refl ahead).append hkept).trans h).append (.refl [v])

structure Holds (rb : RingBuffer α) (q : List α) : Prop where
  window : Window rb.buf rb.readIdx q
  writeIdx_eq : rb.writeIdx = cyclicAdd rb.size rb.readIdx q.length

theorem incIdx_eq {size idx : Nat} (h : idx < size) :
    incIdx size idx = cyclicAdd size idx 1 := by
  unfold incIdx cyclicAdd
  split <;> split <;> omega

theorem holds_new {size : Nat} (h : 0 < size) :
    Holds (new size : RingBuffer α) [] := by
  refine ⟨Window.empty h, ?_⟩
  simp [new, RingBuffer.size, cyclicAdd, h]

namespace Holds

variable {rb : RingBuffer α} {q : List α}

theorem writeIdx_lt (h : Holds rb q) : rb.writeIdx < rb.size := by
  rw [h.writeIdx_eq]
  exact cyclicAdd_lt h.window.start_lt h.window.length_le

theorem writeIdx_eq_readIdx_iff (h : Holds rb q) :
    rb.writeIdx = rb.readIdx ↔ q.length = 0 ∨ q.length = rb.size := by
  have hstart : rb.readIdx < rb.size := h.window.start_lt
  have hlength : q.length ≤ rb.size := h.window.length_le
  rw [h.writeIdx_eq]
  unfold cyclicAdd
  split <;> omega

theorem overwriting_iff (h : Holds rb q) : rb.Overwriting ↔ q.length = rb.size := by
  have hpos : 0 < rb.size := Nat.zero_lt_of_lt h.window.start_lt
  have hhead := h.window.head
  constructor
  · rintro ⟨hidx, hslot⟩
    rcases h.writeIdx_eq_readIdx_iff.mp hidx with hempty | hfull
    · rw [hidx, hhead, List.length_eq_zero_iff.mp hempty] at hslot
      cases hslot
    · exact hfull
  · intro hfull
    have hidx := h.writeIdx_eq_readIdx_iff.mpr (Or.inr hfull)
    refine ⟨hidx, ?_⟩
    rw [hidx, hhead]
    cases q with
    | nil =>
        rw [List.length_nil] at hfull
        omega
    | cons v q => rfl

theorem write_free {v : α} (h : Holds rb q) (hfree : q.length < rb.size) :
    Returns (rb.write v) fun rb' => Holds rb' (q ++ [v]) ∧ rb'.size = rb.size ∧
      rb'.safeNext = if rb.safeNext < rb.size then rb.safeNext + 1 else rb.safeNext := by
  have hnot : ¬rb.Overwriting := by
    rw [h.overwriting_iff]
    omega
  rw [write, if_pos h.writeIdx_lt, if_neg hnot]
  refine .ok ⟨⟨?_, ?_⟩, by simp [size], rfl⟩
  · rw [h.writeIdx_eq]
    exact h.window.push hfree v
  · simp only [size, List.length_set, List.length_append, List.length_singleton]
    rw [incIdx_eq h.writeIdx_lt, h.writeIdx_eq]
    exact cyclicAdd_add_one h.window.start_lt hfree

theorem write_full {old v : α} (h : Holds rb (old :: q))
    (hfull : (old :: q).length = rb.size) :
    Returns (rb.write v) fun rb' => Holds rb' (q ++ [v]) ∧ rb'.size = rb.size ∧
      rb'.safeNext = if rb.safeNext < rb.size then rb.safeNext + 1 else rb.safeNext := by
  have hover := h.overwriting_iff.mpr hfull
  have hlength : q.length < (rb.buf.set rb.readIdx none).length := by
    rw [List.length_set]
    rw [List.length_cons] at hfull
    exact Nat.lt_of_succ_le (Nat.le_of_eq hfull)
  have hpushed := h.window.pop.push hlength v
  -- the position freed by dropping the oldest value is the one written to
  have hend : cyclicAdd (rb.buf.set rb.readIdx none).length
      (cyclicAdd rb.buf.length rb.readIdx 1) q.length = rb.readIdx := by
    rw [List.length_set] at hlength ⊢
    rw [cyclicAdd_cyclicAdd_one h.window.start_lt hlength, ← List.length_cons (a := old),
      hfull]
    exact cyclicAdd_self _ _
  rw [hend, List.set_set] at hpushed
  rw [write, if_pos h.writeIdx_lt, if_pos hover, hover.1,
    incIdx_eq h.window.start_lt]
  refine .ok ⟨⟨hpushed, ?_⟩, by simp [size], rfl⟩
  simp only [size, List.length_set, List.length_append, List.length_singleton]
  rw [← List.length_cons (a := old), hfull]
  exact (cyclicAdd_self _ _).symm

theorem write_spec (h : Holds rb q) (v : α) :
    Returns (rb.write v) fun rb' => Holds rb' (push rb.size q v) ∧
      rb'.size = rb.size ∧
      rb'.safeNext = if rb.safeNext < rb.size then rb.safeNext + 1 else rb.safeNext := by
  unfold push
  by_cases hfull : q.length = rb.size
  · rw [if_pos hfull]
    cases q with
    | nil =>
        have hlt : rb.readIdx < rb.size := h.window.start_lt
        rw [List.length_nil] at hfull
        omega
    | cons old q => exact h.write_full hfull
  · rw [if_neg hfull]
    have hle : q.length ≤ rb.size := h.window.length_le
    exact h.write_free (by omega)

theorem lockedRead_cons {v : α} (h : Holds rb (v :: q)) :
    Returns rb.lockedRead fun result => Holds result.1 q ∧ result.1.size = rb.size ∧
      result.1.safeNext = rb.safeNext ∧ result.2 = v := by
  have hhead := h.window.head
  simp only [lockedRead, hhead, List.head?_cons]
  refine .ok ⟨⟨?_, ?_⟩, by simp [size], rfl, rfl⟩
  · rw [incIdx_eq h.window.start_lt]
    exact h.window.pop
  · have hlt : q.length < rb.size := h.window.length_le
    rw [incIdx_eq h.window.start_lt]
    simp only [size, List.length_set]
    rw [h.writeIdx_eq, List.length_cons]
    exact (cyclicAdd_cyclicAdd_one h.window.start_lt hlt).symm

theorem takeToken {rb' : RingBuffer α} (h : Holds rb q)
    (htoken : rb.takeToken = .ok rb') : Holds rb' q := by
  unfold RingBuffer.takeToken at htoken
  split at htoken
  · cases htoken
  · cases htoken
    exact ⟨h.window, h.writeIdx_eq⟩

/-- What a read that returns took out of the queue. -/
theorem lockedRead_eq_ok {rb' : RingBuffer α} {v : α} (h : Holds rb q)
    (hread : rb.lockedRead = .ok (rb', v)) : ∃ q', q = v :: q' ∧ Holds rb' q' := by
  cases q with
  | nil =>
      rw [lockedRead, h.window.head] at hread
      cases hread
  | cons first q =>
      obtain ⟨hholds, -, -, rfl⟩ := h.lockedRead_cons.of_eq_ok hread
      exact ⟨q, rfl, hholds⟩

theorem lockedRead_nil (h : Holds rb []) : rb.lockedRead = .error .nilDereference := by
  have hhead := h.window.head
  simp only [lockedRead, hhead, List.head?_nil]

end Holds

/-! ## Writers and readers -/

/-- The buffer, and the number of `Next` calls that hold a token. -/
structure Shared (α : Type u) where
  rb : RingBuffer α
  pending : Nat
  deriving DecidableEq, Repr

inductive Event (α : Type u) where
  | write (v : α)
  | takeToken
  | lockedRead
  deriving DecidableEq, Repr

def Event.isNext : Event α → Bool
  | .write _ => false
  | .takeToken | .lockedRead => true

def start (size : Nat) : Shared α := ⟨new size, 0⟩

/-- A step of some goroutine; a read emits the value that `Next` returns. -/
def step (s : Shared α) : Event α → Except Stop (Shared α × List α)
  | .write v => do
      let rb ← s.rb.write v
      .ok ({ s with rb := rb }, [])
  | .takeToken => do
      let rb ← s.rb.takeToken
      .ok (⟨rb, s.pending + 1⟩, [])
  | .lockedRead =>
      if s.pending = 0 then .error .blocked
      else do
        let (rb, out) ← s.rb.lockedRead
        .ok (⟨rb, s.pending - 1⟩, [out])

/-- No value is overwritten while a `Next` is between its two steps. -/
def NoOverwriteUnderNext (s : Shared α) (_ : List α) : Event α → Prop
  | .write _ => s.rb.Overwriting → s.pending = 0
  | .takeToken | .lockedRead => True

instance (s : Shared α) (out : List α) :
    (event : Event α) → Decidable (NoOverwriteUnderNext s out event)
  | .write _ => inferInstanceAs (Decidable (_ → _))
  | .takeToken | .lockedRead => inferInstanceAs (Decidable True)

/-- There is a value for every token, in the channel or taken. -/
structure Counted (s : Shared α) (q : List α) : Prop where
  holds : s.rb.Holds q
  tokens_eq : s.rb.safeNext + s.pending = q.length

theorem counted_start {size : Nat} (h : 1 ≤ size) :
    Counted (start size : Shared α) [] :=
  ⟨holds_new h, rfl⟩

theorem counted_write {s : Shared α} {q : List α} {v : α} (h : Counted s q)
    (hcond : s.rb.Overwriting → s.pending = 0) :
    Returns (step s (.write v)) fun result => ∃ q', Counted result.1 q' := by
  have htokens := h.tokens_eq
  have hle : q.length ≤ s.rb.size := h.holds.window.length_le
  have hfull := h.holds.overwriting_iff
  obtain ⟨rb, hwrite, hholds, -, hsafe⟩ := h.holds.write_spec v
  simp only [step, hwrite]
  refine .ok ⟨_, hholds, ?_⟩
  change rb.safeNext + s.pending = _
  rw [hsafe]
  unfold push
  by_cases hlength : q.length = s.rb.size
  · have hpending := hcond (hfull.mpr hlength)
    rw [if_pos hlength, if_neg (by omega), List.length_append, List.length_tail,
      List.length_singleton]
    have hpos : s.rb.readIdx < s.rb.size := h.holds.window.start_lt
    omega
  · rw [if_neg hlength, if_pos (by omega), List.length_append, List.length_singleton]
    omega

theorem counted_takeToken {s next : Shared α} {out : List α} {q : List α}
    (h : Counted s q) (hstep : step s .takeToken = .ok (next, out)) :
    Counted next q := by
  have htokens := h.tokens_eq
  simp only [step, bind_eq_ok] at hstep
  obtain ⟨rb, htoken, hnext⟩ := hstep
  cases hnext
  refine ⟨h.holds.takeToken htoken, ?_⟩
  unfold takeToken at htoken
  split at htoken
  · cases htoken
  · cases htoken
    change s.rb.safeNext - 1 + (s.pending + 1) = q.length
    omega

theorem counted_lockedRead {s : Shared α} {q : List α} (h : Counted s q)
    (hpending : s.pending ≠ 0) :
    Returns (step s .lockedRead) fun result => ∃ q', Counted result.1 q' := by
  have htokens := h.tokens_eq
  cases q with
  | nil =>
      rw [List.length_nil] at htokens
      omega
  | cons v q =>
      obtain ⟨⟨rb, out⟩, hread, hholds, -, hsafe, -⟩ := h.holds.lockedRead_cons
      simp only [step, if_neg hpending, hread]
      refine .ok ⟨q, hholds, ?_⟩
      change rb.safeNext + (s.pending - 1) = q.length
      rw [List.length_cons] at htokens
      change rb.safeNext = s.rb.safeNext at hsafe
      omega

theorem step_counted {s : Shared α} {now : List α} {event : Event α}
    (hinv : ∃ q, Counted s q) (hcond : NoOverwriteUnderNext s now event) :
    (∀ err, step s event = .error err → err ≠ .nilDereference) ∧
      ∀ next now', step s event = .ok (next, now') → ∃ q, Counted next q := by
  obtain ⟨q, hq⟩ := hinv
  cases event with
  | write v =>
      obtain ⟨result, hstep, hcounted⟩ := counted_write hq hcond
      rw [hstep]
      refine ⟨by simp, ?_⟩
      intro next now' heq
      cases heq
      exact hcounted
  | takeToken =>
      refine ⟨?_, fun next now' hstep => ⟨q, counted_takeToken hq hstep⟩⟩
      intro err hstep
      simp only [step, takeToken] at hstep
      split at hstep <;> cases hstep
      simp
  | lockedRead =>
      by_cases hpending : s.pending = 0
      · simp [step, hpending]
      · obtain ⟨result, hstep, hcounted⟩ := counted_lockedRead hq hpending
        rw [hstep]
        refine ⟨by simp, ?_⟩
        intro next now' heq
        cases heq
        exact hcounted

theorem run_counted {size : Nat} {events : List (Event α)} {s : Shared α}
    {out : List α} (hsize : 1 ≤ size)
    (halong : Along step NoOverwriteUnderNext (start size) [] events)
    (hrun : run step (start size) events = .ok (s, out)) : ∃ q, Counted s q := by
  refine run_induction (fun s _ => ∃ q, Counted s q) ⟨[], counted_start hsize⟩ ?_
    halong hrun
  intro s now event next now' hinv hcond hstep
  exact (step_counted hinv hcond).2 next now' hstep

/-- Where a token is left, some `Next` can be between its two steps. -/
theorem exists_pending {s : Shared α} {q : List α} (h : s.rb.Holds q)
    (hexcess : q.length < s.rb.safeNext + s.pending) :
    ∃ before s', (∀ e ∈ before, e.isNext = true) ∧ run step s before = .ok (s', []) ∧
      s'.rb.Holds q ∧ q.length < s'.rb.safeNext + s'.pending ∧ s'.pending ≠ 0 := by
  by_cases hpending : s.pending = 0
  · have htoken : s.rb.safeNext ≠ 0 := by omega
    refine ⟨[.takeToken], ⟨{ s.rb with safeNext := s.rb.safeNext - 1 }, s.pending + 1⟩,
      by simp [Event.isNext], ?_, ⟨h.window, h.writeIdx_eq⟩, ?_, Nat.succ_ne_zero _⟩
    · simp only [run, step, takeToken, if_neg htoken]
      rfl
    · change q.length < s.rb.safeNext - 1 + (s.pending + 1)
      omega
  · exact ⟨[], s, by simp, rfl, h, hexcess, hpending⟩

/-- With more tokens than values, `Next` calls alone lead to an empty slot. -/
theorem crash_of_excess {s : Shared α} {q : List α} (h : s.rb.Holds q)
    (hexcess : q.length < s.rb.safeNext + s.pending) :
    ∃ later, (∀ e ∈ later, e.isNext = true) ∧
      run step s later = .error .nilDereference := by
  induction q generalizing s with
  | nil =>
      obtain ⟨before, s', hbefore, hrun, hholds, -, hpending⟩ := exists_pending h hexcess
      have hcrash : run step s' [.lockedRead] = .error .nilDereference := by
        simp only [run, step, if_neg hpending, hholds.lockedRead_nil]
        rfl
      refine ⟨before ++ [.lockedRead], ?_, run_append_eq_error hrun hcrash⟩
      simpa [or_imp, forall_and, Event.isNext] using hbefore
  | cons v q ih =>
      obtain ⟨before, s', hbefore, hrun, hholds, hexcess', hpending⟩ :=
        exists_pending h hexcess
      obtain ⟨⟨rb, out⟩, hread, hholds', -, hsafe, -⟩ := hholds.lockedRead_cons
      change rb.safeNext = s'.rb.safeNext at hsafe
      have hrest : q.length < rb.safeNext + (s'.pending - 1) := by
        rw [List.length_cons] at hexcess'
        omega
      obtain ⟨later, hlater, hcrash⟩ := ih (s := ⟨rb, s'.pending - 1⟩) hholds' hrest
      have hstep : step s' .lockedRead = .ok (⟨rb, s'.pending - 1⟩, [out]) := by
        simp only [step, if_neg hpending, hread]
        rfl
      have hcrash' : run step s' (.lockedRead :: later) = .error .nilDereference :=
        run_cons_eq_error.mpr (Or.inr ⟨_, _, hstep, hcrash⟩)
      refine ⟨before ++ .lockedRead :: later, ?_, run_append_eq_error hrun hcrash'⟩
      intro e he
      rcases List.mem_append.mp he with he | he
      · exact hbefore e he
      · rcases List.mem_cons.mp he with rfl | he
        · rfl
        · exact hlater e he

/-- A write that breaks the condition leaves a token without a value. -/
theorem excess_of_overwrite {s : Shared α} {q : List α} {v : α} (h : Counted s q)
    (hover : s.rb.Overwriting) (hpending : s.pending ≠ 0) :
    Returns (step s (.write v)) fun result => ∃ q', result.1.rb.Holds q' ∧
      q'.length < result.1.rb.safeNext + result.1.pending := by
  have htokens := h.tokens_eq
  have hfull := h.holds.overwriting_iff.mp hover
  have hpos : s.rb.readIdx < s.rb.size := h.holds.window.start_lt
  obtain ⟨rb, hwrite, hholds, -, hsafe⟩ := h.holds.write_spec v
  simp only [step, hwrite]
  refine .ok ⟨_, hholds, ?_⟩
  change _ < rb.safeNext + s.pending
  rw [hsafe, if_pos (by omega), push, if_pos hfull, List.length_append,
    List.length_tail, List.length_singleton]
  omega

/--
In every run of writers and readers, and after any further steps of `Next` calls,
no `Next` finds an empty slot, if and only if no `Write` overwrites a value
while a `Next` is between its two steps.
-/
theorem next_finds_value_iff (size : Nat) (hsize : 1 ≤ size) (events : List (Event α)) :
    (∀ first later, first <+: events → (∀ e ∈ later, e.isNext = true) →
      run step (start size) (first ++ later) ≠ .error .nilDereference) ↔
      Along step NoOverwriteUnderNext (start size) [] events := by
  refine safe_iff_along (· ≠ .error Stop.nilDereference)
    (fun e : Event α => e.isNext = true) ?_ ?_ ?_
  · intro s now event hnext
    cases event with
    | write v => cases hnext
    | takeToken => trivial
    | lockedRead => trivial
  · intro events halong hcrash
    exact run_errors (fun s _ => ∃ q, Counted s q) (· ≠ .nilDereference)
      ⟨[], counted_start hsize⟩ (fun s now event hinv hcond => step_counted hinv hcond)
      halong hcrash rfl
  · intro first event rest s now hevents hrun hfirst hfail
    obtain ⟨q, hq⟩ := run_counted hsize hfirst hrun
    cases event with
    | write v =>
        simp only [NoOverwriteUnderNext, Classical.not_imp] at hfail
        obtain ⟨⟨next, out⟩, hstep, q', hholds, hexcess⟩ :=
          excess_of_overwrite (v := v) hq hfail.1 hfail.2
        obtain ⟨later, hlater, hcrash⟩ := crash_of_excess hholds hexcess
        refine ⟨[.write v], later, List.prefix_rfl, hlater, not_not.mpr ?_⟩
        apply run_append_eq_error hrun
        exact run_cons_eq_error.mpr (Or.inr ⟨next, out, hstep, hcrash⟩)
    | takeToken => exact absurd trivial hfail
    | lockedRead => exact absurd trivial hfail

def exampleAlternating : List (Event Nat) :=
  [.write 1, .takeToken, .lockedRead, .write 2, .write 3, .takeToken, .lockedRead]

theorem next_finds_value_alternating :
    1 ≤ 1 ∧ Along step NoOverwriteUnderNext (start 1) [] exampleAlternating ∧
    ∀ first later, first <+: exampleAlternating → (∀ e ∈ later, e.isNext = true) →
      run step (start 1) (first ++ later) ≠ .error .nilDereference := by
  have halong : Along step NoOverwriteUnderNext (start 1) [] exampleAlternating := by
    decide
  exact ⟨by decide, halong, (next_finds_value_iff 1 (by decide) _).mpr halong⟩

/--
The second write lands between the two steps of the first `Next`.  Its token
lets the second `Next` read the slot that the first one has emptied.
-/
theorem next_dereferences_nil :
    run step (start 1)
      [.write 1, .takeToken, .write 2, .lockedRead, .takeToken, .lockedRead] =
      .error .nilDereference := by
  decide

end RingBuffer

end Udplb.Util
