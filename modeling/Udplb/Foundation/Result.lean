import Mathlib.Data.List.Forall2

/-!
# Fallible computations that return

A computation in `Except` models code that may stop with a runtime error.
`Returns x P` is its total-correctness triple: `x` does not stop, and its value
satisfies `P`.  The rules below carry such a triple through sequencing and
through a loop or a traversal of a list.
-/

namespace Udplb.Foundation

universe u v w

inductive RuntimeError where
  | divideByZero
  | indexOutOfRange
  deriving DecidableEq, Repr

variable {ε : Type u} {α β σ : Type v}

def Returns (x : Except ε α) (P : α → Prop) : Prop :=
  ∃ value, x = .ok value ∧ P value

theorem Returns.ok {P : α → Prop} {value : α} (h : P value) :
    Returns (.ok value : Except ε α) P :=
  ⟨value, rfl, h⟩

theorem Returns.mono {x : Except ε α} {P Q : α → Prop} (hx : Returns x P)
    (h : ∀ value, P value → Q value) : Returns x Q := by
  obtain ⟨value, hvalue, hP⟩ := hx
  exact ⟨value, hvalue, h value hP⟩

/-- The property holds of the value, however it was obtained. -/
theorem Returns.of_eq_ok {x : Except ε α} {P : α → Prop} {value : α}
    (h : Returns x P) (hx : x = .ok value) : P value := by
  obtain ⟨value', hvalue', hP⟩ := h
  rw [hx] at hvalue'
  cases hvalue'
  exact hP

theorem Returns.bind {x : Except ε α} {f : α → Except ε β} {P : α → Prop}
    {Q : β → Prop} (hx : Returns x P) (hf : ∀ value, P value → Returns (f value) Q) :
    Returns (x >>= f) Q := by
  obtain ⟨value, rfl, hP⟩ := hx
  exact hf value hP

@[simp] theorem bind_eq_ok {x : Except ε α} {f : α → Except ε β} {result : β} :
    x >>= f = .ok result ↔ ∃ value, x = .ok value ∧ f value = .ok result := by
  cases x with
  | error err =>
      constructor
      · intro h
        cases h
      · rintro ⟨value, h, -⟩
        cases h
  | ok value =>
      constructor
      · intro h
        exact ⟨value, rfl, h⟩
      · rintro ⟨value', h, h'⟩
        cases h
        exact h'

theorem bind_eq_error {x : Except ε α} {f : α → Except ε β} {err : ε} :
    x >>= f = .error err ↔
      x = .error err ∨ ∃ value, x = .ok value ∧ f value = .error err := by
  cases x with
  | error err' =>
      constructor
      · intro h
        cases h
        exact Or.inl rfl
      · rintro (h | ⟨value, h, -⟩)
        · cases h
          rfl
        · cases h
  | ok value =>
      constructor
      · intro h
        exact Or.inr ⟨value, rfl, h⟩
      · rintro (h | ⟨value', h, h'⟩)
        · cases h
        · cases h
          exact h'

theorem mapError_eq_ok {δ : Type w} {x : Except ε α} {f : ε → δ} {result : α} :
    x.mapError f = .ok result ↔ x = .ok result := by
  cases x <;> simp [Except.mapError]

theorem mapError_eq_error {δ : Type w} {x : Except ε α} {f : ε → δ} {err : δ} :
    x.mapError f = .error err ↔ ∃ err', x = .error err' ∧ f err' = err := by
  cases x <;> simp [Except.mapError]

theorem run_bind_of_ok {x : StateT σ (Except ε) α} {f : α → StateT σ (Except ε) β} {s s' : σ}
    {result : α} (h : x.run s = .ok (result, s')) : (x >>= f).run s = (f result).run s' := by
  rw [StateT.run_bind, h]
  rfl

/-- A computation that was evaluated returns. -/
theorem returns_of_toOption {x : Except ε α} {f : α → β} {result : β}
    (h : x.toOption.map f = some result) :
    Returns x fun value => f value = result := by
  cases x with
  | error err => simp [Except.toOption] at h
  | ok value => exact ⟨value, rfl, by simpa [Except.toOption] using h⟩

/-- A loop returns when every iteration returns and keeps the invariant. -/
theorem foldlM_returns {f : σ → α → Except ε σ} {Inv : σ → Prop} {items : List α}
    {start : σ} (hstart : Inv start)
    (hstep : ∀ state item, item ∈ items → Inv state →
      Returns (f state item) Inv) :
    Returns (items.foldlM f start) Inv := by
  induction items generalizing start with
  | nil => exact .ok hstart
  | cons item items ih =>
      rw [List.foldlM_cons]
      refine (hstep start item (by simp) hstart).bind ?_
      intro next hnext
      exact ih hnext fun state item' hmem hinv =>
        hstep state item' (List.mem_cons_of_mem _ hmem) hinv

/-- What every iteration keeps holds after a loop that was run to its end. -/
theorem foldlM_keeps {f : σ → α → Except ε σ} {Inv : σ → Prop} {items : List α}
    {start last : σ} (hstart : Inv start)
    (hstep : ∀ state item next, item ∈ items → f state item = .ok next →
      Inv state → Inv next)
    (hrun : items.foldlM f start = .ok last) : Inv last := by
  induction items generalizing start with
  | nil =>
      cases hrun
      exact hstart
  | cons item items ih =>
      rw [List.foldlM_cons, bind_eq_ok] at hrun
      obtain ⟨next, hnext, hrest⟩ := hrun
      refine ih (hstep start item next (by simp) hnext hstart) ?_ hrest
      exact fun state item' next' hmem =>
        hstep state item' next' (List.mem_cons_of_mem _ hmem)

/--
A loop follows another one through a projection of its state when every
iteration does.  The two may stop with different errors.
-/
theorem foldlM_follows {τ : Type v} {δ : Type w} {f : σ → α → Except ε σ}
    {g : τ → α → Except δ τ} (proj : σ → τ) {Inv : σ → Prop} {items : List α}
    {start : σ} (hstart : Inv start)
    (hstep : ∀ state item, item ∈ items → Inv state →
      Returns (f state item) fun next =>
        Inv next ∧ g (proj state) item = .ok (proj next)) :
    Returns (items.foldlM f start) fun last =>
      Inv last ∧ items.foldlM g (proj start) = .ok (proj last) := by
  induction items generalizing start with
  | nil => exact .ok ⟨hstart, rfl⟩
  | cons item items ih =>
      rw [List.foldlM_cons, List.foldlM_cons]
      refine (hstep start item (by simp) hstart).bind ?_
      rintro next ⟨hnext, hg⟩
      rw [hg]
      exact ih hnext fun state item' hmem hinv =>
        hstep state item' (List.mem_cons_of_mem _ hmem) hinv

/-- Two nested loops are one loop over the entries of both. -/
theorem foldlM_flatMap {f : σ → β → Except ε σ} (entries : α → List β) (items : List α)
    (start : σ) :
    (items.flatMap entries).foldlM f start =
      items.foldlM (fun state item => (entries item).foldlM f state) start := by
  induction items generalizing start with
  | nil => rfl
  | cons item items ih =>
      rw [List.flatMap_cons, List.foldlM_append, List.foldlM_cons]
      exact congrArg _ (funext ih)

/-- A traversal returns related results exactly when each of its calls does. -/
theorem mapM_returns_iff {κ : Type w} {f : α → Except ε β} {R : κ → β → Prop}
    {keys : List κ} {items : List α} :
    Returns (items.mapM f) (List.Forall₂ R keys) ↔
      List.Forall₂ (fun key item => Returns (f item) (R key)) keys items := by
  induction items generalizing keys with
  | nil =>
      rw [List.mapM_nil, List.forall₂_nil_right_iff]
      constructor
      · rintro ⟨results, hresults, hkeys⟩
        cases hresults
        exact List.forall₂_nil_right_iff.mp hkeys
      · rintro rfl
        exact .ok .nil
  | cons item items ih =>
      rw [List.mapM_cons, List.forall₂_cons_right_iff]
      constructor
      · rintro ⟨results, hresults, hkeys⟩
        simp only [bind_eq_ok] at hresults
        obtain ⟨result, hresult, rest, hrest, heq⟩ := hresults
        cases heq
        obtain ⟨key, keys, hkey, htail, rfl⟩ := List.forall₂_cons_right_iff.mp hkeys
        exact ⟨key, keys, ⟨result, hresult, hkey⟩, ih.mp ⟨rest, hrest, htail⟩, rfl⟩
      · rintro ⟨key, keys, hkey, htail, rfl⟩
        apply hkey.bind
        intro result hresult
        apply (ih.mpr htail).bind
        intro rest hrest
        exact .ok (.cons hresult hrest)

end Udplb.Foundation
