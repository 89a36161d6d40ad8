import Udplb.Foundation.Result

/-!
# Loops and their variants

`loop` runs a body that says itself when to leave.  Its fuel bounds the number of
iterations, and a run that uses it up ends with an outcome of its own.  The rules
below give total correctness: an invariant and a decreasing variant for `loop`, an
invariant that depends on the counter for a loop over `0, .., n - 1`.
-/

namespace Udplb.Foundation

universe u v

variable {ε : Type u} {σ β : Type v}

/-- The body goes on with a state on the left or leaves with a result on the right. -/
def loop (body : σ → Except ε (σ ⊕ β)) (unfinished : ε) : Nat → σ → Except ε β
  | 0, _ => .error unfinished
  | fuel + 1, state =>
      body state >>= Sum.elim (loop body unfinished fuel) .ok

theorem loop_returns {body : σ → Except ε (σ ⊕ β)} {unfinished : ε}
    {Inv : σ → Prop} {Post : β → Prop} (variant : σ → Nat)
    (hbody : ∀ state, Inv state → Returns (body state)
      (Sum.elim (fun next => Inv next ∧ variant next < variant state) Post))
    {fuel : Nat} {state : σ} (hinv : Inv state) (hfuel : variant state < fuel) :
    Returns (loop body unfinished fuel state) Post := by
  induction fuel generalizing state with
  | zero => exact absurd hfuel (Nat.not_lt_zero _)
  | succ fuel ih =>
      refine (hbody state hinv).bind ?_
      rintro (next | result) hnext
      · obtain ⟨hinv', hless⟩ := hnext
        exact ih hinv' (by omega)
      · exact .ok hnext

/-- A counted loop, with an invariant that may speak of the iterations done. -/
theorem foldlM_range_returns {f : σ → Nat → Except ε σ} (Inv : Nat → σ → Prop)
    {start : σ} {n : Nat} (hstart : Inv 0 start)
    (hstep : ∀ i state, i < n → Inv i state → Returns (f state i) (Inv (i + 1))) :
    Returns ((List.range n).foldlM f start) (Inv n) := by
  induction n with
  | zero => exact .ok hstart
  | succ n ih =>
      rw [List.range_succ, List.foldlM_append]
      refine (ih fun i state hi => hstep i state (by omega)).bind ?_
      intro state hstate
      rw [List.foldlM_cons]
      exact (hstep n state (by omega) hstate).bind fun next hnext => .ok hnext

end Udplb.Foundation
