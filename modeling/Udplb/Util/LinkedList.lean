import Mathlib.Data.List.Induction
import Udplb.Foundation.Cyclic

/-!
# The capped linked list

Nodes live in a heap, in the order of their allocation, and a pointer is an
index into it.  Nodes are only ever appended at the tail and dropped at the
head, so that the list is always the last part of the heap.
-/

namespace Udplb.Util

universe u

structure LLNode (α : Type u) where
  previous : Option Nat
  next : Option Nat
  data : α
  deriving DecidableEq, Repr

structure LinkedList (α : Type u) where
  nodes : List (LLNode α)
  head : Option Nat
  tail : Option Nat
  length : Nat
  capacity : Nat
  deriving DecidableEq, Repr

namespace LinkedList

variable {α : Type u}

def new (capacity : Nat) : LinkedList α := ⟨[], none, none, 0, capacity⟩

/-- Append a node after the tail; `none` is the dereference of a nil pointer. -/
def insertTail (l : LinkedList α) (data : α) : Option (LinkedList α) :=
  match l.tail with
  | none =>
      some { l with
        nodes := l.nodes ++ [⟨none, none, data⟩]
        head := some l.nodes.length
        tail := some l.nodes.length
        length := l.length + 1 }
  | some oldTail => do
      let node ← l.nodes[oldTail]?
      some { l with
        nodes := l.nodes.set oldTail { node with next := some l.nodes.length } ++
          [⟨some oldTail, none, data⟩]
        tail := some l.nodes.length
        length := l.length + 1 }

def append (l : LinkedList α) (data : α) : Option (LinkedList α) :=
  if l.capacity ≠ 0 ∧ l.length = l.capacity then
    match l.length with
    | 0 => some l
    | 1 => insertTail { l with head := none, tail := none, length := 0 } data
    | length + 2 =>
        (l.head.bind fun head => l.nodes[head]?).bind fun node =>
          insertTail { l with head := node.next, length := length + 1 } data
  else insertTail l data

/-- The nodes visited from a pointer on; `none` if the walk does not end in time. -/
def visit (nodes : List (LLNode α)) (follow : LLNode α → Option Nat) :
    Nat → Option Nat → Option (List Nat)
  | _, none => some []
  | 0, some _ => none
  | fuel + 1, some p =>
      match nodes[p]? with
      | none => none
      | some node => (visit nodes follow fuel (follow node)).map (p :: ·)

@[simp] theorem visit_none (nodes : List (LLNode α)) (follow : LLNode α → Option Nat)
    (fuel : Nat) : visit nodes follow fuel none = some [] := by
  cases fuel <;> rfl

/-- The walk from `Head` by `Next`. -/
def nextNodes (l : LinkedList α) : Option (List Nat) :=
  visit l.nodes LLNode.next l.nodes.length l.head

def data? (l : LinkedList α) (p : Nat) : Option α := l.nodes[p]?.map LLNode.data

/-- The data of the nodes from the head on. -/
def entries (l : LinkedList α) : List α := (l.nextNodes.getD []).filterMap l.data?

theorem capacity_insertTail {l l' : LinkedList α} {data : α}
    (h : l.insertTail data = some l') : l'.capacity = l.capacity := by
  unfold insertTail at h
  split at h
  · cases h
    rfl
  · simp only [Option.bind_eq_bind, Option.bind_eq_some_iff] at h
    obtain ⟨node, -, h⟩ := h
    cases h
    rfl

theorem capacity_append {l l' : LinkedList α} {data : α}
    (h : l.append data = some l') : l'.capacity = l.capacity := by
  unfold append at h
  split at h
  · split at h
    · cases h
      rfl
    · exact (capacity_insertTail h :)
    · obtain ⟨node, -, h⟩ := Option.bind_eq_some_iff.mp h
      exact (capacity_insertTail h :)
  · exact (capacity_insertTail h :)

/-! ## The list in the heap -/

/-- The list holds `q`, in the nodes from `first` to the end of the heap. -/
structure Represents (l : LinkedList α) (first : Nat) (q : List α) : Prop where
  nodes_length : l.nodes.length = first + q.length
  length_eq : l.length = q.length
  head_eq : l.head = if q.length = 0 then none else some first
  tail_eq : l.tail = if q.length = 0 then none else some (first + q.length - 1)
  node : ∀ k x, q[k]? = some x → ∃ node, l.nodes[first + k]? = some node ∧
    node.data = x ∧ node.next = if k + 1 < q.length then some (first + k + 1) else none

/-- A list of at most `capacity` values, of any number if that is zero. -/
def capped (capacity : Nat) (q : List α) (x : α) : List α :=
  (if capacity ≠ 0 ∧ q.length = capacity then q.tail else q) ++ [x]

def retained (capacity : Nat) (xs : List α) : List α :=
  if capacity = 0 then xs else xs.drop (xs.length - capacity)

theorem represents_new (capacity : Nat) :
    Represents (new capacity : LinkedList α) 0 [] :=
  ⟨rfl, rfl, rfl, rfl, by simp⟩

namespace Represents

variable {l : LinkedList α} {first : Nat} {q : List α}

theorem insertTail_nil (h : Represents l first []) (data : α) :
    ∃ l', l.insertTail data = some l' ∧ l'.Represents first [data] := by
  have htail : l.tail = none := h.tail_eq
  have hnodes : l.nodes.length = first := h.nodes_length
  have hlength : l.length = 0 := h.length_eq
  simp only [insertTail, htail]
  refine ⟨_, rfl, ?_, ?_, ?_, ?_, ?_⟩
  · simp [hnodes]
  · simp [hlength]
  · simp [hnodes]
  · simp [hnodes]
  · intro k x hk
    obtain ⟨rfl, rfl⟩ : k = 0 ∧ data = x := by
      cases k <;> simp_all
    exact ⟨⟨none, none, data⟩, by simp [← hnodes], rfl, rfl⟩

theorem insertTail_cons (h : Represents l first q) (hpos : q.length ≠ 0) (data : α) :
    ∃ l', l.insertTail data = some l' ∧ l'.Represents first (q ++ [data]) := by
  have htail := h.tail_eq
  have hhead := h.head_eq
  have hnodes := h.nodes_length
  have hlength := h.length_eq
  rw [if_neg hpos] at htail hhead
  have hlast : q[q.length - 1]? = some (q[q.length - 1]) :=
    List.getElem?_eq_getElem (by omega)
  obtain ⟨old, hold, hdata, -⟩ := h.node _ _ hlast
  rw [show first + (q.length - 1) = first + q.length - 1 by omega] at hold
  simp only [insertTail, htail, hold, Option.bind_eq_bind, Option.bind_some]
  refine ⟨_, rfl, ?_, ?_, ?_, ?_, ?_⟩
  · simp [hnodes, Nat.add_assoc]
  · simp [hlength]
  · simp [hhead]
  · simp [hnodes]
  · intro k x hk
    rw [List.length_append, List.length_singleton]
    rcases Nat.lt_trichotomy k (q.length - 1) with hlt | rfl | hgt
    · rw [List.getElem?_append_left (by omega)] at hk
      obtain ⟨node, hnode, hdata', hnext⟩ := h.node k x hk
      refine ⟨node, ?_, hdata', ?_⟩
      · rw [List.getElem?_append_left (by rw [List.length_set]; omega),
          List.getElem?_set_ne (by omega)]
        exact hnode
      · rw [hnext, if_pos (by omega), if_pos (by omega)]
    · rw [List.getElem?_append_left (by omega), hlast, Option.some.injEq] at hk
      refine ⟨{ old with next := some l.nodes.length }, ?_, hdata.trans hk, ?_⟩
      · rw [List.getElem?_append_left (by rw [List.length_set]; omega),
          show first + (q.length - 1) = first + q.length - 1 by omega,
          List.getElem?_set_self (by omega)]
      · rw [if_pos (by omega)]
        simp only [hnodes, Option.some.injEq]
        omega
    · have hkeq : k = q.length := by
        have hlt := (List.getElem?_eq_some_iff.mp hk).1
        rw [List.length_append, List.length_singleton] at hlt
        omega
      subst hkeq
      rw [List.getElem?_append_right (Nat.le_refl _), Nat.sub_self] at hk
      refine ⟨⟨some (first + q.length - 1), none, data⟩, ?_, by simpa using hk, ?_⟩
      · rw [List.getElem?_append_right (by rw [List.length_set]; omega),
          List.length_set, hnodes, Nat.sub_self]
        rfl
      · rw [if_neg (by omega)]

theorem insertTail_spec (h : Represents l first q) (data : α) :
    ∃ l', l.insertTail data = some l' ∧ l'.Represents first (q ++ [data]) := by
  cases q with
  | nil => exact h.insertTail_nil data
  | cons x q => exact h.insertTail_cons (by simp) data

/-- Dropping the only node. -/
theorem clear {x : α} (h : Represents l first [x]) :
    Represents { l with head := none, tail := none, length := 0 } (first + 1) [] := by
  have hnodes := h.nodes_length
  rw [List.length_singleton] at hnodes
  exact ⟨hnodes, rfl, rfl, rfl, by simp⟩

/-- Dropping the head of a list that has a second node. -/
theorem drop_head {x y : α} (h : Represents l first (x :: y :: q)) :
    ∃ node, l.head = some first ∧ l.nodes[first]? = some node ∧
      Represents { l with head := node.next, length := q.length + 1 } (first + 1)
        (y :: q) := by
  have hnodes := h.nodes_length
  have htail := h.tail_eq
  simp only [List.length_cons] at hnodes htail
  obtain ⟨node, hnode, -, hnext⟩ := h.node 0 x rfl
  rw [if_pos (by simp)] at hnext
  refine ⟨node, by rw [h.head_eq, if_neg (by simp)], hnode, ?_, rfl, ?_, ?_, ?_⟩
  · simp only [hnodes, List.length_cons]
    omega
  · rw [if_neg (by simp)]
    exact hnext
  · rw [if_neg (by simp)]
    change l.tail = _
    rw [htail, if_neg (by omega), List.length_cons]
    congr 1
    omega
  · intro k z hk
    obtain ⟨node', hnode', hdata, hnext'⟩ := h.node (k + 1) z (by simpa using hk)
    rw [show first + (k + 1) = first + 1 + k by omega] at hnode' hnext'
    refine ⟨node', hnode', hdata, ?_⟩
    rw [hnext', List.length_cons, List.length_cons]
    split <;> split <;> first | rfl | omega

theorem append_spec (h : Represents l first q) (data : α) :
    ∃ l' first', l.append data = some l' ∧
      l'.Represents first' (capped l.capacity q data) := by
  unfold append capped
  rw [h.length_eq]
  by_cases hfull : l.capacity ≠ 0 ∧ q.length = l.capacity
  · rw [if_pos hfull, if_pos hfull]
    match q with
    | [] => exact absurd hfull.2.symm hfull.1
    | [x] =>
        obtain ⟨l', hl', hrep⟩ := h.clear.insertTail_spec data
        exact ⟨l', first + 1, hl', hrep⟩
    | x :: y :: q =>
        obtain ⟨node, hhead, hnode, hdropped⟩ := h.drop_head
        obtain ⟨l', hl', hrep⟩ := hdropped.insertTail_spec data
        refine ⟨l', first + 1, ?_, hrep⟩
        simpa [hhead, hnode] using hl'
  · rw [if_neg hfull, if_neg hfull]
    obtain ⟨l', hl', hrep⟩ := h.insertTail_spec data
    exact ⟨l', first, hl', hrep⟩

/-- From the node of `q[k]` on, `Next` visits the nodes of the rest in order. -/
theorem visit_next (h : Represents l first q) (fuel k : Nat) (hk : k ≤ q.length)
    (hfuel : q.length ≤ fuel + k) :
    visit l.nodes LLNode.next fuel (if k < q.length then some (first + k) else none) =
      some (List.range' (first + k) (q.length - k)) := by
  induction fuel generalizing k with
  | zero =>
      rw [if_neg (by omega), visit_none, show q.length - k = 0 by omega, List.range'_zero]
  | succ fuel ih =>
      by_cases hlt : k < q.length
      · obtain ⟨node, hnode, -, hnext⟩ := h.node k q[k] (List.getElem?_eq_getElem hlt)
        have hrest := ih (k + 1) (by omega) (by omega)
        simp only [if_pos hlt, visit, hnode, hnext]
        rw [show first + k + 1 = first + (k + 1) by omega, hrest,
          show q.length - k = q.length - (k + 1) + 1 by omega, List.range'_succ]
        rfl
      · rw [if_neg hlt, visit_none, show q.length - k = 0 by omega, List.range'_zero]

theorem nextNodes_eq (h : Represents l first q) :
    l.nextNodes = some (List.range' first q.length) := by
  have hvisit := h.visit_next l.nodes.length 0 (Nat.zero_le _)
    (by rw [h.nodes_length]; omega)
  rw [Nat.add_zero, Nat.sub_zero] at hvisit
  rw [nextNodes, ← hvisit, h.head_eq]
  congr 1
  split <;> split <;> first | rfl | omega

theorem data_range (h : Represents l first q) :
    (List.range' first q.length).map l.data? = q.map some := by
  apply List.ext_getElem?
  intro k
  rw [List.getElem?_map, List.getElem?_map]
  by_cases hk : k < q.length
  · obtain ⟨node, hnode, hdata, -⟩ := h.node k q[k] (List.getElem?_eq_getElem hk)
    rw [List.getElem?_range' hk, List.getElem?_eq_getElem hk]
    simp [data?, hnode, hdata]
  · rw [List.getElem?_eq_none (by simpa using hk), List.getElem?_eq_none (by omega)]
    rfl

theorem entries_eq (h : Represents l first q) : l.entries = q := by
  have hdata := congrArg (List.filterMap id) h.data_range
  rw [List.filterMap_map, List.filterMap_map] at hdata
  rw [entries, h.nextNodes_eq, Option.getD_some]
  exact hdata.trans List.filterMap_some

end Represents

/-! ## What is retained -/

theorem retained_append (capacity : Nat) (xs : List α) (x : α) :
    retained capacity (xs ++ [x]) = capped capacity (retained capacity xs) x := by
  unfold retained capped
  by_cases hzero : capacity = 0
  · simp [hzero]
  · simp only [hzero, if_false, ne_eq, not_false_eq_true, true_and, List.length_append,
      List.length_singleton]
    exact Foundation.drop_append_singleton (Nat.one_le_iff_ne_zero.mpr hzero) xs x

end LinkedList

end Udplb.Util
