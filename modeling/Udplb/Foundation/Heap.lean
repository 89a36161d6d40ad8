import Udplb.Foundation.Trace

/-!
# Objects that hold cells of a heap

A heap is a list of cells: a reference is an index, and allocating appends.  An
object holds one cell at most, and stands for a value together with it.  Two
objects that hold different cells stay apart in every run of their calls, and
what either stands for does not depend on the calls of the other.
-/

namespace Udplb.Foundation

variable {ε C O S α β ω : Type}

structure Objects (C O S : Type) where
  ref : O → Option Nat
  /-- What an object requires of the cell it holds. -/
  Fits : O → Option C → Prop
  view : O → Option C → S

/-- No cell but the given one is written, and none is freed. -/
structure WritesOnly (ref : Option Nat) (heap heap' : List C) : Prop where
  length_le : heap.length ≤ heap'.length
  kept : ∀ r, r < heap.length → ref ≠ some r → heap'[r]? = heap[r]?

namespace WritesOnly

variable {ref : Option Nat} {heap : List C}

theorem refl : WritesOnly ref heap heap := ⟨Nat.le_refl _, fun _ _ _ => rfl⟩

theorem modify (r : Nat) (f : C → C) : WritesOnly (some r) heap (heap.modify r f) where
  length_le := by simp
  kept r' _ hne := by
    have hne' : r ≠ r' := fun heq => hne (congrArg some heq)
    simp [hne']

theorem alloc (cell : C) : WritesOnly ref heap (heap ++ [cell]) where
  length_le := by simp
  kept _ hr _ := List.getElem?_append_left hr

end WritesOnly

/-- A reference to a cell that the heap does not have yet. -/
def Fresh (heap : List C) (ref : Option Nat) : Prop := ∀ r, ref = some r → heap.length ≤ r

theorem Fresh.alloc {heap : List C} : Fresh heap (some heap.length) := by
  rintro r ⟨⟩
  exact Nat.le_refl _

namespace Objects

variable (objects : Objects C O S)

def cell (x : List C × O) : Option C := (objects.ref x.2).bind (x.1[·]?)

def value (x : List C × O) : S := objects.view x.2 (objects.cell x)

structure Valid (x : List C × O) : Prop where
  held : ∀ r, objects.ref x.2 = some r → r < x.1.length
  fits : objects.Fits x.2 (objects.cell x)

/-- A call writes no cell but its object's, which keeps it or gets a fresh one. -/
structure Keeps (x y : List C × O) : Prop where
  valid : objects.Valid y
  frame : WritesOnly (objects.ref x.2) x.1 y.1
  ref : objects.ref y.2 = objects.ref x.2 ∨ Fresh x.1 (objects.ref y.2)

/-- Two objects of one heap that do not share a cell. -/
structure Apart (heap : List C) (first second : O) : Prop where
  first_valid : objects.Valid (heap, first)
  second_valid : objects.Valid (heap, second)
  ne : ∀ r, objects.ref first = some r → objects.ref second ≠ some r

/-- A call in the heap does to an object what is done to the value by itself. -/
inductive Follows (x : List C × O) :
    Except ε ((List C × O) × β) → Except ε (S × β) → Prop
  | ok {y : List C × O} {s : S} {out : β} (keeps : objects.Keeps x y)
      (value_eq : objects.value y = s) : Follows x (.ok (y, out)) (.ok (s, out))
  | error (err : ε) : Follows x (.error err) (.error err)

def Implements (call : List C × O → α → Except ε ((List C × O) × β))
    (spec : S → α → Except ε (S × β)) : Prop :=
  ∀ x event, objects.Valid x → objects.Follows x (call x event) (spec (objects.value x) event)

/-- A copy that holds a fresh cell and stands for `copy` of what is copied. -/
structure Copies (deepCopy : List C × O → List C × O) (copy : S → S) : Prop where
  valid : ∀ x, objects.Valid x → objects.Valid (deepCopy x)
  frame : ∀ x, WritesOnly none x.1 (deepCopy x).1
  fresh : ∀ x, Fresh x.1 (objects.ref (deepCopy x).2)
  value_eq : ∀ x, objects.Valid x → objects.value (deepCopy x) = copy (objects.value x)

variable {objects} {heap heap' : List C} {first second next : O}

theorem Apart.symm (h : objects.Apart heap first second) :
    objects.Apart heap second first :=
  ⟨h.second_valid, h.first_valid, fun r hr hr' => h.ne r hr' hr⟩

theorem Keeps.refl {x : List C × O} (h : objects.Valid x) : objects.Keeps x x :=
  ⟨h, .refl, Or.inl rfl⟩

theorem Keeps.trans {x y z : List C × O} (h : objects.Keeps x y) (h' : objects.Keeps y z) :
    objects.Keeps x z := by
  refine ⟨h'.valid, ⟨Nat.le_trans h.frame.length_le h'.frame.length_le, ?_⟩, ?_⟩
  · -- a cell of the first heap that is not `x`'s is not `y`'s either
    intro r hr hne
    have hne' : objects.ref y.2 ≠ some r := by
      intro hy
      rcases h.ref with hsame | hfresh
      · exact hne (hsame ▸ hy)
      · exact Nat.lt_irrefl r (Nat.lt_of_lt_of_le hr (hfresh r hy))
    rw [h'.frame.kept r (Nat.lt_of_lt_of_le hr h.frame.length_le) hne', h.frame.kept r hr hne]
  · rcases h'.ref with hsame | hfresh
    · rw [hsame]
      exact h.ref
    · exact Or.inr fun r hr => Nat.le_trans h.frame.length_le (hfresh r hr)

theorem cell_eq_of_frame {ref : Option Nat} {o : O} (hframe : WritesOnly ref heap heap')
    (hvalid : objects.Valid (heap, o)) (hne : ∀ r, objects.ref o = some r → ref ≠ some r) :
    objects.cell (heap', o) = objects.cell (heap, o) := by
  cases href : objects.ref o with
  | none => simp only [cell, href, Option.bind_none]
  | some r =>
      simp only [cell, href, Option.bind_some]
      exact hframe.kept r (hvalid.held r href) (hne r href)

theorem Valid.of_frame {ref : Option Nat} {o : O} (hvalid : objects.Valid (heap, o))
    (hframe : WritesOnly ref heap heap') (hne : ∀ r, objects.ref o = some r → ref ≠ some r) :
    objects.Valid (heap', o) ∧ objects.value (heap', o) = objects.value (heap, o) := by
  have hcell := cell_eq_of_frame hframe hvalid hne
  refine ⟨⟨?_, ?_⟩, ?_⟩
  · exact fun r hr => Nat.lt_of_lt_of_le (hvalid.held r hr) hframe.length_le
  · rw [hcell]
    exact hvalid.fits
  · rw [value, value, hcell]

/-- A call of one object leaves the other one apart, and what it stands for. -/
theorem Apart.keeps (h : objects.Apart heap first second)
    (hkeeps : objects.Keeps (heap, first) (heap', next)) :
    objects.Apart heap' next second ∧
      objects.value (heap', second) = objects.value (heap, second) := by
  obtain ⟨hvalid, hvalue⟩ := h.second_valid.of_frame hkeeps.frame fun r hr hr' => h.ne r hr' hr
  refine ⟨⟨hkeeps.valid, hvalid, ?_⟩, hvalue⟩
  intro r hr hr'
  rcases hkeeps.ref with hsame | hfresh
  · exact h.ne r (hsame ▸ hr) hr'
  · exact Nat.lt_irrefl r (Nat.lt_of_lt_of_le (h.second_valid.held r hr') (hfresh r hr))

theorem Copies.apart {deepCopy : List C × O → List C × O} {copy : S → S}
    (h : objects.Copies deepCopy copy) {x : List C × O} (hvalid : objects.Valid x) :
    objects.Apart (deepCopy x).1 x.2 (deepCopy x).2 ∧
      objects.value ((deepCopy x).1, x.2) = objects.value x := by
  obtain ⟨hkept, hvalue⟩ := hvalid.of_frame (h.frame x) (by simp)
  refine ⟨⟨hkept, h.valid x hvalid, ?_⟩, hvalue⟩
  intro r hr hr'
  exact Nat.lt_irrefl r (Nat.lt_of_lt_of_le (hvalid.held r hr) (h.fresh x r hr'))

theorem Follows.map_eq {x : List C × O} {actual : Except ε ((List C × O) × β)}
    {expected : Except ε (S × β)} (h : objects.Follows x actual expected) :
    actual.map (fun result => (objects.value result.1, result.2)) = expected := by
  cases h with
  | ok hkeeps hvalue => rw [← hvalue]; rfl
  | error err => rfl

theorem Implements.keeps {call : List C × O → α → Except ε ((List C × O) × β)}
    {spec : S → α → Except ε (S × β)} (h : objects.Implements call spec)
    {x y : List C × O} {event : α} {out : β} (hvalid : objects.Valid x)
    (hcall : call x event = .ok (y, out)) : objects.Keeps x y := by
  have hfollows := h x event hvalid
  rw [hcall] at hfollows
  generalize spec (objects.value x) event = expected at hfollows
  cases hfollows with
  | ok hkeeps hvalue => exact hkeeps

/-! ## Objects with a part that holds the cell -/

section Comap

variable {O' S' : Type}

/-- What holds an object of another kind, and all else by value. -/
def comap (objects : Objects C O S) (part : O' → O) (whole : O' → S → S') :
    Objects C O' S' where
  ref o := objects.ref (part o)
  Fits o := objects.Fits (part o)
  view o cell := whole o (objects.view (part o) cell)

variable {part : O' → O} {whole : O' → S → S'} {x y : List C × O'}

theorem valid_comap :
    (objects.comap part whole).Valid x ↔ objects.Valid (x.1, part x.2) :=
  ⟨fun h => ⟨h.held, h.fits⟩, fun h => ⟨h.held, h.fits⟩⟩

theorem Keeps.comap (h : objects.Keeps (x.1, part x.2) (y.1, part y.2)) :
    (objects.comap part whole).Keeps x y :=
  ⟨valid_comap.mpr h.valid, h.frame, h.ref⟩

end Comap

/-! ## Runs -/

theorem Implements.run_value {call : List C × O → α → Except ε ((List C × O) × List ω)}
    {spec : S → α → Except ε (S × List ω)} (h : objects.Implements call spec)
    {x : List C × O} (hvalid : objects.Valid x) (events : List α) :
    (run call x events).map (fun result => (objects.value result.1, result.2)) =
      run spec (objects.value x) events :=
  run_map_view objects.Valid objects.value (fun y event hy => (h y event hy).map_eq)
    (fun _ _ _ _ hy hcall => (h.keeps hy hcall).valid) hvalid events

theorem Implements.indistinguishable_iff
    {call : List C × O → α → Except ε ((List C × O) × List ω)}
    {spec : S → α → Except ε (S × List ω)} (h : objects.Implements call spec)
    {x y : List C × O} (hx : objects.Valid x) (hy : objects.Valid y) :
    Indistinguishable call x y ↔
      Indistinguishable spec (objects.value x) (objects.value y) := by
  have hanswers : ∀ z, objects.Valid z → ∀ events,
      (run call z events).map Prod.snd =
        (run spec (objects.value z) events).map Prod.snd := by
    intro z hz events
    rw [← h.run_value hz]
    cases run call z events <;> rfl
  apply forall_congr'
  intro events
  rw [hanswers x hx, hanswers y hy]

end Objects

/-- Two objects of one heap: an event is a call of the first or of the second. -/
def pairStep (call : List C × O → α → Except ε ((List C × O) × List ω)) :
    List C × O × O → α ⊕ α → Except ε ((List C × O × O) × List ω)
  | (heap, first, second), .inl event => do
      let ((heap, first), out) ← call (heap, first) event
      .ok ((heap, first, second), out)
  | (heap, first, second), .inr event => do
      let ((heap, second), out) ← call (heap, second) event
      .ok ((heap, first, second), out)

/-- After any calls of the two, a call of either leaves what the other one shows. -/
def Independent {U : Type} (call : List C × O → α → Except ε ((List C × O) × List ω))
    (state : List C × O → U) (heap : List C) (first second : O) : Prop :=
  ∀ events heap' first' second' out,
    run (pairStep call) (heap, first, second) events = .ok ((heap', first', second'), out) →
    ∀ event heap'' next now,
      (call (heap', first') event = .ok ((heap'', next), now) →
        state (heap'', second') = state (heap', second')) ∧
      (call (heap', second') event = .ok ((heap'', next), now) →
        state (heap'', first') = state (heap', first'))

namespace Objects

variable {objects : Objects C O S} {heap : List C} {first second : O}
  {call : List C × O → α → Except ε ((List C × O) × List ω)}
  {spec : S → α → Except ε (S × List ω)}

theorem Implements.apart_step (h : objects.Implements call spec) {pair next : List C × O × O}
    {event : α ⊕ α} {out : List ω} (hapart : objects.Apart pair.1 pair.2.1 pair.2.2)
    (hstep : pairStep call pair event = .ok (next, out)) :
    objects.Apart next.1 next.2.1 next.2.2 := by
  obtain ⟨heap, first, second⟩ := pair
  cases event with
  | inl event =>
      obtain ⟨⟨⟨heap', first'⟩, now⟩, hcall, hnext⟩ := bind_eq_ok.mp hstep
      cases hnext
      exact (hapart.keeps (h.keeps hapart.first_valid hcall)).1
  | inr event =>
      obtain ⟨⟨⟨heap', second'⟩, now⟩, hcall, hnext⟩ := bind_eq_ok.mp hstep
      cases hnext
      exact (hapart.symm.keeps (h.keeps hapart.second_valid hcall)).1.symm

theorem Implements.independent (h : objects.Implements call spec) {U : Type} (state : S → U)
    (hapart : objects.Apart heap first second) :
    Independent call (fun x => state (objects.value x)) heap first second := by
  intro events heap' first' second' out hrun event heap'' next now
  have hkept : objects.Apart heap' first' second' :=
    run_invariant (fun pair => objects.Apart pair.1 pair.2.1 pair.2.2)
      (fun pair event next now _ hpair hstep => h.apart_step hpair hstep) hapart hrun
  constructor
  · intro hcall
    exact congrArg state (hkept.keeps (h.keeps hkept.first_valid hcall)).2
  · intro hcall
    exact congrArg state (hkept.symm.keeps (h.keeps hkept.second_valid hcall)).2

end Objects

end Udplb.Foundation
