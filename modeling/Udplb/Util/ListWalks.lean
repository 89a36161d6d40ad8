import Udplb.Util.LinkedList

/-!
# Walking the linked list

The nodes that are visited from the head by `Next` and from the tail by
`Previous`.  A node is never unlinked from its predecessor: the one that was
evicted last can still be reached from the head.
-/

namespace Udplb.Util.LinkedList

universe u

variable {α : Type u}

/-- The walk from `Tail` by `Previous`. -/
def previousNodes (l : LinkedList α) : Option (List Nat) :=
  visit l.nodes LLNode.previous l.nodes.length l.tail

def appendAll (l : LinkedList α) (xs : List α) : Option (LinkedList α) :=
  xs.foldlM append l

/-! ## Backward links -/

/-- What an insertion does to the nodes, as far as `Previous` goes. -/
structure Inserted (nodes nodes' : List (LLNode α)) (previous : Option Nat) : Prop where
  length_eq : nodes'.length = nodes.length + 1
  last : ∃ node, nodes'[nodes.length]? = some node ∧ node.previous = previous
  others : ∀ i node', i < nodes.length → nodes'[i]? = some node' →
    ∃ node, nodes[i]? = some node ∧ node'.previous = node.previous

theorem inserted_insertTail {l l' : LinkedList α} {data : α}
    (h : l.insertTail data = some l') : Inserted l.nodes l'.nodes l.tail := by
  unfold insertTail at h
  cases htail : l.tail with
  | none =>
      simp only [htail, Option.some.injEq] at h
      subst h
      refine ⟨by simp, ⟨⟨none, none, data⟩, by simp, rfl⟩, ?_⟩
      intro i node' hi hnode'
      rw [List.getElem?_append_left hi] at hnode'
      exact ⟨node', hnode', rfl⟩
  | some oldTail =>
      simp only [htail, Option.bind_eq_bind, Option.bind_eq_some_iff, Option.some.injEq] at h
      obtain ⟨old, hold, rfl⟩ := h
      refine ⟨by simp, ⟨⟨some oldTail, none, data⟩, by simp, rfl⟩, ?_⟩
      intro i node' hi hnode'
      rw [List.getElem?_append_left (by simpa using hi), List.getElem?_set] at hnode'
      split at hnode'
      · rename_i hsame
        subst hsame
        rw [if_pos hi, Option.some.injEq] at hnode'
        subst hnode'
        exact ⟨old, hold, rfl⟩
      · exact ⟨node', hnode', rfl⟩

theorem inserted_append {l l' : LinkedList α} {data : α} {first : Nat} {q : List α}
    (hrep : Represents l first q) (hcapacity : l.capacity ≠ 0 → q.length ≤ l.capacity)
    (h : l.append data = some l') :
    Inserted l.nodes l'.nodes (if l.capacity = 1 then none else l.tail) := by
  have hlength := hrep.length_eq
  have htail := hrep.tail_eq
  unfold append at h
  split at h
  · rename_i hfull
    split at h
    · rename_i hzero
      exact absurd (hfull.2.symm.trans hzero) hfull.1
    · rename_i hone
      rw [if_pos (hfull.2.symm.trans hone)]
      exact (inserted_insertTail h :)
    · rename_i n hlong
      obtain ⟨node, -, h⟩ := Option.bind_eq_some_iff.mp h
      rw [if_neg (by omega)]
      exact (inserted_insertTail h :)
  · rename_i hfull
    have hinserted := inserted_insertTail h
    split
    · rename_i hone
      -- a list of capacity one that is not full is empty
      have hle := hcapacity (by omega)
      rw [htail, if_pos (by omega)] at hinserted
      exact hinserted
    · exact hinserted

/-- The nodes form one chain, from which nothing is cut off when it is evicted. -/
structure Chained (l : LinkedList α) (count : Nat) : Prop where
  nodes_length : l.nodes.length = count
  previous_eq : ∀ i node, l.nodes[i]? = some node →
    node.previous = if l.capacity = 1 ∨ i = 0 then none else some (i - 1)

theorem length_retained (capacity : Nat) (xs : List α) :
    (retained capacity xs).length =
      if capacity = 0 then xs.length else min xs.length capacity := by
  unfold retained
  split
  · rfl
  · rw [List.length_drop]
    omega

theorem Chained.append {l l' : LinkedList α} {first : Nat} {xs : List α} {x : α}
    (h : Chained l xs.length) (hrep : Represents l first (retained l.capacity xs))
    (happend : l.append x = some l') : Chained l' (xs.length + 1) := by
  have hcount := length_retained l.capacity xs
  have hnodes := hrep.nodes_length
  have hlength := h.nodes_length
  have hinserted := inserted_append hrep
    (fun hne => by rw [hcount, if_neg hne]; omega) happend
  refine ⟨by rw [hinserted.length_eq, hlength], ?_⟩
  intro i node' hnode'
  rw [capacity_append happend]
  have hi := (List.getElem?_eq_some_iff.mp hnode').1
  rw [hinserted.length_eq] at hi
  by_cases hlast : i = l.nodes.length
  · subst hlast
    obtain ⟨node, hnode, hprevious⟩ := hinserted.last
    rw [hnode', Option.some.injEq] at hnode
    rw [hnode, hprevious]
    by_cases hone : l.capacity = 1
    · rw [if_pos hone, if_pos (Or.inl hone)]
    · rw [if_neg hone, hrep.tail_eq]
      split at hcount <;> split <;> split <;> first | rfl | omega | skip
      all_goals
        congr 1
        omega
  · obtain ⟨node, hnode, hprevious⟩ := hinserted.others i node' (by omega) hnode'
    rw [hprevious, h.previous_eq i node hnode]

/-- After any number of appends: what the list holds, and where. -/
structure Built (capacity : Nat) (xs : List α) (l : LinkedList α) (first : Nat) : Prop where
  capacity_eq : l.capacity = capacity
  represents : Represents l first (retained capacity xs)
  chained : Chained l xs.length

theorem exists_built (capacity : Nat) (xs : List α) :
    ∃ l first, appendAll (new capacity) xs = some l ∧ Built capacity xs l first := by
  induction xs using List.reverseRecOn with
  | nil =>
      refine ⟨new capacity, 0, rfl, rfl, ?_, rfl, by simp [new]⟩
      simpa [retained] using represents_new capacity
  | append_singleton xs x ih =>
      obtain ⟨l, first, hall, hcapacity, hrep, hchained⟩ := ih
      subst hcapacity
      obtain ⟨l', first', happend, hrep'⟩ := hrep.append_spec x
      refine ⟨l', first', ?_, capacity_append happend, ?_, ?_⟩
      · rw [appendAll] at hall ⊢
        rw [List.foldlM_append, hall]
        simpa using happend
      · rw [retained_append]
        exact hrep'
      · rw [List.length_append, List.length_singleton]
        exact hchained.append hrep happend

/-! ## The walks -/

/-- Without evictions of single nodes, `Previous` leads back to the first node ever. -/
theorem Chained.visit_previous {l : LinkedList α} {count : Nat} (h : Chained l count)
    (hcapacity : l.capacity ≠ 1) (fuel p : Nat) (hp : p < count) (hfuel : p < fuel) :
    visit l.nodes LLNode.previous fuel (some p) = some (List.range (p + 1)).reverse := by
  induction fuel generalizing p with
  | zero => omega
  | succ fuel ih =>
      have hlt : p < l.nodes.length := by rw [h.nodes_length]; exact hp
      have hnode : l.nodes[p]? = some l.nodes[p] := List.getElem?_eq_getElem hlt
      have hprevious := h.previous_eq p _ hnode
      simp only [visit, hnode, hprevious, hcapacity, false_or]
      cases p with
      | zero => simp
      | succ p =>
          rw [if_neg (by omega), Nat.add_sub_cancel, ih p (by omega) (by omega),
            List.range_succ (n := p + 1), List.reverse_append]
          rfl

theorem Chained.visit_previous_one {l : LinkedList α} {count : Nat} (h : Chained l count)
    (hcapacity : l.capacity = 1) (p : Nat) (hp : p < count) :
    visit l.nodes LLNode.previous count (some p) = some [p] := by
  have hlt : p < l.nodes.length := by rw [h.nodes_length]; exact hp
  have hnode : l.nodes[p]? = some l.nodes[p] := List.getElem?_eq_getElem hlt
  have hprevious := h.previous_eq p _ hnode
  rw [if_pos (Or.inl hcapacity)] at hprevious
  obtain ⟨fuel, rfl⟩ : ∃ fuel, count = fuel + 1 := ⟨count - 1, by omega⟩
  simp [visit, hnode, hprevious]

/-! ## What the list holds -/

/--
Walking from the head visits the last values appended, as many as the capacity
allows, and ends at the tail.
-/
theorem walk_visits_retained (capacity : Nat) (xs : List α) :
    ∃ l ps, appendAll (new capacity) xs = some l ∧ l.nextNodes = some ps ∧
      ps.map l.data? = (retained capacity xs).map some ∧
      ps.getLast? = l.tail ∧
      (∀ p, l.tail = some p → ∃ node, l.nodes[p]? = some node ∧ node.next = none) ∧
      l.length = ps.length ∧
      l.length = (if capacity = 0 then xs.length else min xs.length capacity) ∧
      (l.head = none ↔ l.tail = none) ∧ (l.tail = none ↔ l.length = 0) := by
  obtain ⟨l, first, hall, -, hrep, -⟩ := exists_built capacity xs
  have hhead := hrep.head_eq
  have htail := hrep.tail_eq
  have hlength := hrep.length_eq
  refine ⟨l, _, hall, hrep.nextNodes_eq, hrep.data_range, ?_, ?_, by simpa using hlength,
    by rw [hlength, length_retained], ?_, ?_⟩
  · rw [htail, List.getLast?_range']
  · intro p hp
    rw [htail] at hp
    split at hp
    · cases hp
    · rename_i hpos
      cases hp
      obtain ⟨node, hnode, -, hnext⟩ := hrep.node ((retained capacity xs).length - 1) _
        (List.getElem?_eq_getElem (by omega))
      rw [if_neg (by omega)] at hnext
      rw [show first + ((retained capacity xs).length - 1) =
        first + (retained capacity xs).length - 1 by omega] at hnode
      exact ⟨node, hnode, hnext⟩
  · rw [hhead, htail]
    split <;> simp
  · rw [htail, hlength]
    split <;> simp_all

/-! ## Both directions -/

/-- What a holder of the list can get at. -/
inductive Reachable (l : LinkedList α) : Nat → Prop
  | head (p : Nat) (hhead : l.head = some p) : Reachable l p
  | tail (p : Nat) (htail : l.tail = some p) : Reachable l p
  | next (p : Nat) (node : LLNode α) (p' : Nat) (hp : Reachable l p)
      (hnode : l.nodes[p]? = some node) (hnext : node.next = some p') : Reachable l p'
  | previous (p : Nat) (node : LLNode α) (p' : Nat) (hp : Reachable l p)
      (hnode : l.nodes[p]? = some node) (hprevious : node.previous = some p') :
      Reachable l p'

structure DoublyLinked (l : LinkedList α) : Prop where
  reversed : l.previousNodes = l.nextNodes.map List.reverse
  head_previous : ∀ p node, l.head = some p → l.nodes[p]? = some node →
    node.previous = none
  retained_only : ∀ p ps, Reachable l p → l.nextNodes = some ps → p ∈ ps

/-- Where the walk by `Previous` ends: at the head, or at the first node ever. -/
def backEnd (capacity first : Nat) : Nat := if capacity = 1 then first else 0

namespace Built

variable {capacity : Nat} {xs : List α} {l : LinkedList α} {first : Nat}

theorem length_eq (h : Built capacity xs l first) :
    xs.length = first + (retained capacity xs).length := by
  rw [← h.chained.nodes_length, h.represents.nodes_length]

theorem nextNodes_eq (h : Built capacity xs l first) :
    l.nextNodes = some (List.range' first (xs.length - first)) := by
  rw [h.represents.nextNodes_eq, h.length_eq, Nat.add_sub_cancel_left]

theorem previousNodes_eq (h : Built capacity xs l first) :
    l.previousNodes = some
      (List.range' (backEnd capacity first) (xs.length - backEnd capacity first)).reverse := by
  have hlength := h.length_eq
  have hcount := length_retained capacity xs
  have htail := h.represents.tail_eq
  unfold backEnd
  rw [previousNodes, h.chained.nodes_length, htail]
  by_cases hempty : (retained capacity xs).length = 0
  · have hzero : xs.length = 0 := by split at hcount <;> omega
    rw [if_pos hempty, visit_none, hzero]
    simp
  · rw [if_neg hempty, ← hlength]
    by_cases hone : capacity = 1
    · rw [h.chained.visit_previous_one (h.capacity_eq.trans hone) _ (by omega), if_pos hone]
      have hlast : xs.length - first = 1 ∧ xs.length - 1 = first := by
        rw [if_neg (by omega)] at hcount
        omega
      rw [hlast.1, hlast.2]
      rfl
    · rw [h.chained.visit_previous (by rw [h.capacity_eq]; exact hone) _ _ (by omega)
        (by omega), if_neg hone, Nat.sub_zero, ← List.range_eq_range',
        show xs.length - 1 + 1 = xs.length by omega]

theorem backEnd_eq_iff (h : Built capacity xs l first) :
    backEnd capacity first = first ↔ capacity ≤ 1 ∨ xs.length ≤ capacity := by
  have hlength := h.length_eq
  have hcount := length_retained capacity xs
  unfold backEnd
  split at hcount <;> split <;> omega

/-- A node that has not been evicted leads only to others. -/
theorem reachable_bounds (h : Built capacity xs l first)
    (hback : backEnd capacity first = first) {p : Nat} (hp : Reachable l p) :
    first ≤ p ∧ p < xs.length := by
  have hlength := h.length_eq
  induction hp with
  | head p hhead =>
      rw [h.represents.head_eq] at hhead
      split at hhead <;> cases hhead
      omega
  | tail p htail =>
      rw [h.represents.tail_eq] at htail
      split at htail <;> cases htail
      omega
  | next p node p' hp hnode hnext ih =>
      obtain ⟨node', hnode', -, hnext'⟩ := h.represents.node (p - first) _
        (List.getElem?_eq_getElem (by omega))
      rw [show first + (p - first) = p by omega, hnode, Option.some.injEq] at hnode'
      subst hnode'
      rw [hnext] at hnext'
      split at hnext' <;> cases hnext'
      omega
  | previous p node p' hp hnode hprevious ih =>
      rw [h.chained.previous_eq p node hnode, h.capacity_eq] at hprevious
      split at hprevious <;> cases hprevious
      unfold backEnd at hback
      split at hback <;> omega

theorem head_previous (h : Built capacity xs l first)
    (hback : backEnd capacity first = first) {p : Nat} {node : LLNode α}
    (hhead : l.head = some p) (hnode : l.nodes[p]? = some node) : node.previous = none := by
  rw [h.represents.head_eq] at hhead
  split at hhead <;> cases hhead
  rw [h.chained.previous_eq first node hnode, h.capacity_eq]
  unfold backEnd at hback
  apply if_pos
  split at hback <;> omega

end Built

/--
The two walks are each other's reverse, and no evicted node can be reached,
exactly as long as nothing was evicted from a list of more than one node.
-/
theorem doublyLinked_iff (capacity : Nat) (xs : List α) :
    ∃ l, appendAll (new capacity) xs = some l ∧
      (DoublyLinked l ↔ capacity ≤ 1 ∨ xs.length ≤ capacity) := by
  obtain ⟨l, first, hall, h⟩ := exists_built capacity xs
  refine ⟨l, hall, ?_⟩
  rw [← h.backEnd_eq_iff]
  constructor
  · intro hlinked
    have hreversed := hlinked.reversed
    rw [h.previousNodes_eq, h.nextNodes_eq, Option.map_some, Option.some.injEq] at hreversed
    have hlengths := congrArg List.length hreversed
    simp only [List.length_reverse, List.length_range'] at hlengths
    have hlength := h.length_eq
    unfold backEnd at hlengths ⊢
    split at hlengths <;> split <;> omega
  · intro hback
    refine ⟨?_, fun p node => h.head_previous hback, ?_⟩
    · rw [h.previousNodes_eq, h.nextNodes_eq, hback]
      rfl
    · intro p ps hp hps
      rw [h.nextNodes_eq, Option.some.injEq] at hps
      have hbounds := h.reachable_bounds hback hp
      rw [← hps, List.mem_range'_1]
      omega

/-- Three values in a list of two: from the tail, the evicted node is still visited. -/
theorem evicted_node_visited :
    ∃ l : LinkedList Nat, appendAll (new 2) [1, 2, 3] = some l ∧
      l.nextNodes = some [1, 2] ∧ l.previousNodes = some [2, 1, 0] ∧
      l.data? 0 = some 1 :=
  ⟨_, rfl, by decide, by decide, by decide⟩

end Udplb.Util.LinkedList
