import Mathlib.Logic.Basic

/-!
# Double buffering

Two variants of a data structure and a pointer shared with other structures: at
0 the variant `a` is the active one, at any other value the variant `b`.  A
deferred write fills the passive variant and leaves it to its caller to move the
pointer there.
-/

namespace Udplb.Foundation

universe u v

structure DoubleBuffer (α : Type u) where
  a : α
  b : α

/-- The pointer that designates the variant `pointer` does not designate. -/
def otherPointer (pointer : Nat) : Nat := if pointer = 0 then 1 else 0

namespace DoubleBuffer

variable {α : Type u}

def active (buffer : DoubleBuffer α) (pointer : Nat) : α :=
  if pointer = 0 then buffer.a else buffer.b

def passive (buffer : DoubleBuffer α) (pointer : Nat) : α :=
  if pointer = 0 then buffer.b else buffer.a

def setActive (buffer : DoubleBuffer α) (pointer : Nat) (value : α) :
    DoubleBuffer α :=
  if pointer = 0 then { buffer with a := value } else { buffer with b := value }

def setPassive (buffer : DoubleBuffer α) (pointer : Nat) (value : α) :
    DoubleBuffer α :=
  if pointer = 0 then { buffer with b := value } else { buffer with a := value }

@[simp] theorem active_otherPointer (buffer : DoubleBuffer α) (pointer : Nat) :
    buffer.active (otherPointer pointer) = buffer.passive pointer := by
  by_cases h : pointer = 0 <;> simp [active, passive, otherPointer, h]

@[simp] theorem active_setActive (buffer : DoubleBuffer α) (pointer : Nat)
    (value : α) : (buffer.setActive pointer value).active pointer = value := by
  by_cases h : pointer = 0 <;> simp [active, setActive, h]

@[simp] theorem passive_setActive (buffer : DoubleBuffer α) (pointer : Nat)
    (value : α) :
    (buffer.setActive pointer value).passive pointer =
      buffer.passive pointer := by
  by_cases h : pointer = 0 <;> simp [passive, setActive, h]

@[simp] theorem active_setPassive (buffer : DoubleBuffer α) (pointer : Nat)
    (value : α) :
    (buffer.setPassive pointer value).active pointer = buffer.active pointer := by
  by_cases h : pointer = 0 <;> simp [active, setPassive, h]

@[simp] theorem passive_setPassive (buffer : DoubleBuffer α) (pointer : Nat)
    (value : α) : (buffer.setPassive pointer value).passive pointer = value := by
  by_cases h : pointer = 0 <;> simp [passive, setPassive, h]

end DoubleBuffer

/-! ## Deferred writes -/

/-- The two variants after a write and, unless it failed, the pointer to store. -/
structure SetOutcome (α : Type u) where
  buffer : DoubleBuffer α
  switchover : Option Nat

/--
A fallible write.  A failed one may leave anything in the passive variant; one
that succeeds leaves the whole content there and designates that variant.
-/
structure DeferredSetter (γ : Type v) (α : Type u) (Holds : γ → α → Prop) where
  set : Nat → DoubleBuffer α → γ → SetOutcome α
  active_set : ∀ pointer buffer content,
    (set pointer buffer content).buffer.active pointer = buffer.active pointer
  switchover_set : ∀ pointer buffer content target,
    (set pointer buffer content).switchover = some target →
      target = otherPointer pointer ∧
        Holds content ((set pointer buffer content).buffer.passive pointer)

/-- The write that replaces the passive variant by `write content`, or fails. -/
def DeferredSetter.ofWrite {γ : Type v} {α : Type u} {Holds : γ → α → Prop}
    (write : γ → α) (hwrite : ∀ content, Holds content (write content))
    (succeeds : Bool) : DeferredSetter γ α Holds where
  set pointer buffer content :=
    ⟨buffer.setPassive pointer (write content),
      if succeeds then some (otherPointer pointer) else none⟩
  active_set pointer buffer content := by simp
  switchover_set pointer buffer content target htarget := by
    cases succeeds with
    | false => simp at htarget
    | true => simp_all

end Udplb.Foundation
