import Mathlib.Data.List.Forall2
import Udplb.Foundation.Trace

/-!
# Interleavings of sequences

An interleaving takes its elements one at a time from the front of one of the
sequences, until all of them are used up.  A sequence whose elements carry the
number of the sequence they come from is an interleaving of its own parts.

A system that takes from several sources emits such a sequence: at any moment, what
it has emitted from a source and what that source still holds are the source's whole
sequence.
-/

namespace Udplb.Foundation

universe u

variable {α : Type u}

inductive Interleaves : List (List α) → List α → Prop
  | done {parts : List (List α)} (h : ∀ part ∈ parts, part = []) :
      Interleaves parts []
  | take {parts : List (List α)} {a : α} {rest whole : List α} (i : Nat)
      (hpart : parts[i]? = some (a :: rest))
      (hrest : Interleaves (parts.set i rest) whole) : Interleaves parts (a :: whole)

/-- The elements that carry the number `i`, in order. -/
def ofTag (i : Nat) (tagged : List (Nat × α)) : List α :=
  (tagged.filter (·.1 = i)).map Prod.snd

@[simp] theorem ofTag_nil (i : Nat) : ofTag i ([] : List (Nat × α)) = [] := rfl

theorem ofTag_cons (i j : Nat) (a : α) (tagged : List (Nat × α)) :
    ofTag i ((j, a) :: tagged) = if j = i then a :: ofTag i tagged else ofTag i tagged := by
  unfold ofTag
  by_cases h : j = i <;> simp [h]

@[simp] theorem ofTag_append (i : Nat) (first second : List (Nat × α)) :
    ofTag i (first ++ second) = ofTag i first ++ ofTag i second := by
  simp [ofTag]

theorem mem_ofTag {i : Nat} {a : α} {tagged : List (Nat × α)} :
    a ∈ ofTag i tagged ↔ (i, a) ∈ tagged := by
  simp [ofTag]

theorem ofTag_map_mk_self (i : Nat) (part : List α) :
    ofTag i (part.map (Prod.mk i)) = part := by
  rw [ofTag, List.filter_eq_self.mpr (by simp), List.map_map]
  exact List.map_id part

theorem ofTag_map_mk_ne {i j : Nat} (h : j ≠ i) (part : List α) :
    ofTag i (part.map (Prod.mk j)) = [] := by
  simp [ofTag, h]

theorem ofTag_eq_nil {n i : Nat} {tagged : List (Nat × α)}
    (htags : ∀ entry ∈ tagged, entry.1 < n) (hi : n ≤ i) : ofTag i tagged = [] := by
  rw [ofTag, List.filter_eq_nil_iff.mpr, List.map_nil]
  intro entry hentry
  have := htags entry hentry
  simp only [decide_eq_true_eq]
  omega

theorem interleaves_ofTag {n : Nat} {tagged : List (Nat × α)}
    (htags : ∀ entry ∈ tagged, entry.1 < n) :
    Interleaves ((List.range n).map (ofTag · tagged)) (tagged.map Prod.snd) := by
  induction tagged with
  | nil => exact .done (by simp)
  | cons entry tagged ih =>
      obtain ⟨j, a⟩ := entry
      have hj : j < n := htags (j, a) (by simp)
      have hrest := ih fun entry hentry => htags entry (by simp [hentry])
      have hpart : ((List.range n).map (ofTag · ((j, a) :: tagged)))[j]? =
          some (a :: ofTag j tagged) := by
        simp [hj, ofTag_cons]
      refine .take j hpart ?_
      convert hrest using 1
      apply List.ext_getElem
      · simp
      · intro i hi _
        by_cases hij : j = i
        · subst hij
          simp
        · simp [List.getElem_set_ne hij, ofTag_cons, hij]

/-- The elements that `f` keeps of an interleaving interleave those it keeps of the parts. -/
theorem Interleaves.filterMap {β : Type u} (f : α → Option β) {parts : List (List α)}
    {whole : List α} (h : Interleaves parts whole) :
    Interleaves (parts.map (·.filterMap f)) (whole.filterMap f) := by
  induction h with
  | done hnil =>
      refine .done ?_
      intro part hpart
      obtain ⟨part', hpart', rfl⟩ := List.mem_map.mp hpart
      rw [hnil part' hpart', List.filterMap_nil]
  | @take parts a rest whole i hpart hrest ih =>
      rw [List.map_set] at ih
      cases hfa : f a with
      | none =>
          have hsame : (parts.map (·.filterMap f))[i]? = some (rest.filterMap f) := by
            rw [List.getElem?_map, hpart, Option.map_some, List.filterMap_cons_none hfa]
          obtain ⟨hi, hget⟩ := List.getElem?_eq_some_iff.mp hsame
          rw [← hget, List.set_getElem_self] at ih
          rw [List.filterMap_cons_none hfa]
          exact ih
      | some b =>
          rw [List.filterMap_cons_some hfa]
          refine .take i ?_ ih
          rw [List.getElem?_map, hpart, Option.map_some, List.filterMap_cons_some hfa]

/-- A front of an interleaving interleaves fronts of the parts. -/
theorem Interleaves.of_isPrefix {parts : List (List α)} {whole front : List α}
    (h : Interleaves parts whole) (hfront : front <+: whole) :
    ∃ fronts, List.Forall₂ (· <+: ·) fronts parts ∧ Interleaves fronts front := by
  induction h generalizing front with
  | @done parts hnil =>
      rw [List.prefix_nil.mp hfront]
      exact ⟨parts, List.forall₂_same.mpr fun _ _ => List.prefix_rfl, .done hnil⟩
  | @take parts a rest whole i hpart hrest ih =>
      cases front with
      | nil =>
          refine ⟨parts.map fun _ => [], ?_, .done (by simp)⟩
          rw [List.forall₂_map_left_iff]
          exact List.forall₂_same.mpr fun _ _ => List.nil_prefix
      | cons b front =>
          obtain ⟨rfl, hlater⟩ := List.cons_prefix_cons.mp hfront
          obtain ⟨fronts, hfronts, hinterleaves⟩ := ih hlater
          obtain ⟨hlength, hget⟩ := List.forall₂_iff_get.mp hfronts
          obtain ⟨hi, hparti⟩ := List.getElem?_eq_some_iff.mp hpart
          rw [List.length_set] at hlength
          have hi' : i < fronts.length := by omega
          refine ⟨fronts.set i (b :: fronts[i]), ?_, .take i (List.getElem?_set_self hi') ?_⟩
          · rw [List.forall₂_iff_get]
            refine ⟨by simpa using hlength, ?_⟩
            intro j hj hj'
            have hj'' : j < fronts.length := by simpa using hj
            have hold := hget j hj'' (by simpa using hj')
            by_cases hij : i = j
            · subst hij
              simp only [List.get_eq_getElem, List.getElem_set_self, hparti] at hold ⊢
              exact List.cons_prefix_cons.mpr ⟨rfl, hold⟩
            · simpa [List.getElem_set_ne hij] using hold
          · rw [List.set_set, List.set_getElem_self]
            exact hinterleaves

/-- An interleaving of what was taken from the fronts of the sequences. -/
def InterleavesFronts (sequences : List (List α)) (whole : List α) : Prop :=
  ∃ taken, List.Forall₂ (· <+: ·) taken sequences ∧ Interleaves taken whole

theorem InterleavesFronts.of_isPrefix {sequences : List (List α)} {whole front : List α}
    (h : InterleavesFronts sequences whole) (hfront : front <+: whole) :
    InterleavesFronts sequences front := by
  obtain ⟨taken, htaken, hinterleaves⟩ := h
  obtain ⟨fronts, hfronts, hinterleaves'⟩ := hinterleaves.of_isPrefix hfront
  refine ⟨fronts, ?_, hinterleaves'⟩
  rw [List.forall₂_iff_get] at hfronts htaken ⊢
  refine ⟨hfronts.1.trans htaken.1, ?_⟩
  intro i hi hi'
  exact (hfronts.2 i hi (by omega)).trans (htaken.2 i (by omega) hi')

theorem InterleavesFronts.filterMap {β : Type u} (f : α → Option β)
    {sequences : List (List α)} {whole : List α} (h : InterleavesFronts sequences whole) :
    InterleavesFronts (sequences.map (·.filterMap f)) (whole.filterMap f) := by
  obtain ⟨taken, htaken, hinterleaves⟩ := h
  refine ⟨taken.map (·.filterMap f), ?_, hinterleaves.filterMap f⟩
  rw [List.forall₂_map_left_iff, List.forall₂_map_right_iff]
  exact htaken.imp fun _ _ hfront => hfront.filterMap f

/-- Tagged elements interleave the sequences that their tags keep to. -/
theorem interleavesFronts_of_tagged {sequences : List (List α)} {tagged : List (Nat × α)}
    (htags : ∀ entry ∈ tagged, entry.1 < sequences.length)
    (hfronts : ∀ i sequence, sequences[i]? = some sequence → ofTag i tagged <+: sequence) :
    InterleavesFronts sequences (tagged.map Prod.snd) := by
  refine ⟨_, ?_, interleaves_ofTag htags⟩
  rw [List.forall₂_iff_get]
  refine ⟨by simp, ?_⟩
  intro i hi hi'
  simpa using hfronts i _ (List.getElem?_eq_getElem hi')

/-! ## Sources -/

/-- What was taken from a source that still has `rest`, or that was given up. -/
def AccountsFor (sequence taken : List α) : Option (List α) → Prop
  | some rest => sequence = taken ++ rest
  | none => taken <+: sequence

theorem AccountsFor.isPrefix {sequence taken : List α} {rest : Option (List α)}
    (h : AccountsFor sequence taken rest) : taken <+: sequence := by
  cases rest with
  | none => exact h
  | some rest => exact ⟨rest, h.symm⟩

/-- The sources that `sequences` are taken from; `pending` is what they still hold. -/
structure Accounted {χ : Type u} (pending : χ → Option (List α))
    (sequences : List (List α)) (sources : List χ) (taken : List (Nat × α)) : Prop where
  length_sources : sources.length = sequences.length
  tags_lt : ∀ entry ∈ taken, entry.1 < sequences.length
  accounts : ∀ i sequence source, sequences[i]? = some sequence →
    sources[i]? = some source → AccountsFor sequence (ofTag i taken) (pending source)

namespace Accounted

variable {χ : Type u} {pending : χ → Option (List α)} {sequences : List (List α)}
  {sources : List χ} {taken : List (Nat × α)}

/-- Only source `i` moves, and only what is taken now may carry its number. -/
theorem set (h : Accounted pending sequences sources taken) {i : Nat} {source source' : χ}
    {now : List (Nat × α)} (hsource : sources[i]? = some source)
    (hnow : ∀ entry ∈ now, entry.1 = i)
    (hmove : ∀ sequence, AccountsFor sequence (ofTag i taken) (pending source) →
      AccountsFor sequence (ofTag i (taken ++ now)) (pending source')) :
    Accounted pending sequences (sources.set i source') (taken ++ now) := by
  have hlt : i < sources.length := (List.getElem?_eq_some_iff.mp hsource).1
  refine ⟨by simp [h.length_sources], ?_, ?_⟩
  · intro entry hentry
    rcases List.mem_append.mp hentry with hentry | hentry
    · exact h.tags_lt entry hentry
    · rw [hnow entry hentry, ← h.length_sources]
      exact hlt
  · intro j sequence source'' hsequence hsource''
    rcases getElem?_set_cases hsource'' with ⟨rfl, rfl⟩ | ⟨hji, hsource''⟩
    · exact hmove sequence (h.accounts j sequence source hsequence hsource)
    · have hnone : ofTag j now = [] := by
        rw [ofTag, List.filter_eq_nil_iff.mpr, List.map_nil]
        intro entry hentry
        simpa [hnow entry hentry] using Ne.symm hji
      rw [ofTag_append, hnone, List.append_nil]
      exact h.accounts j sequence source'' hsequence hsource''

theorem keep (h : Accounted pending sequences sources taken) {i : Nat} {source source' : χ}
    (hsource : sources[i]? = some source) (hpending : pending source' = pending source) :
    Accounted pending sequences (sources.set i source') taken := by
  rw [← List.append_nil taken]
  refine h.set hsource (by simp) ?_
  intro sequence haccounts
  rwa [hpending, List.append_nil]

theorem giveUp (h : Accounted pending sequences sources taken) {i : Nat}
    {source source' : χ} (hsource : sources[i]? = some source)
    (hpending : pending source' = none) :
    Accounted pending sequences (sources.set i source') taken := by
  rw [← List.append_nil taken]
  refine h.set hsource (by simp) ?_
  intro sequence haccounts
  rw [hpending, List.append_nil]
  exact haccounts.isPrefix

theorem take (h : Accounted pending sequences sources taken) {i : Nat} {source source' : χ}
    {a : α} {rest : List α} (hsource : sources[i]? = some source)
    (hpending : pending source = some (a :: rest))
    (hpending' : pending source' = some rest) :
    Accounted pending sequences (sources.set i source') (taken ++ [(i, a)]) := by
  refine h.set hsource (by simp) ?_
  intro sequence haccounts
  rw [hpending] at haccounts
  rw [hpending']
  simpa [AccountsFor, ofTag_cons] using haccounts

/-- What was taken interleaves fronts of the sequences. -/
theorem interleavesFronts (h : Accounted pending sequences sources taken) :
    InterleavesFronts sequences (taken.map Prod.snd) := by
  refine interleavesFronts_of_tagged h.tags_lt ?_
  intro i sequence hsequence
  have hlt : i < sources.length := by
    rw [h.length_sources]
    exact (List.getElem?_eq_some_iff.mp hsequence).1
  exact (h.accounts i sequence _ hsequence (List.getElem?_eq_getElem hlt)).isPrefix

end Accounted

end Udplb.Foundation
