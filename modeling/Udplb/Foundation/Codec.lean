import Mathlib.Data.Countable.Basic
import Mathlib.Data.Finmap
import Mathlib.Logic.Equiv.List
import Udplb.Foundation.Bytes
import Udplb.Foundation.Result

/-!
# Codecs that decode into a value

Decoding does not build a value, it writes into one that exists, and what was
there may show through.  `into source target` says what is left in `target` when
the bytes of `source` are decoded into it: `source` itself for a sequence or a
number, and the union of the two for a map.  That an encoding decodes to its source
is not part of a codec: a result that rests on it says so.
-/

namespace Udplb.Foundation

universe u v

inductive CodecError where
  | unsupportedValue
  | malformed
  deriving DecidableEq, Repr

structure Codec (α : Type u) where
  marshal : α → Except CodecError Bytes
  /-- What is left in the target, also after an error. -/
  unmarshal : Bytes → α → α × Option CodecError

/-- Every value is encoded, and decoding it leaves `into source target`. -/
def Codec.DecodesInto {α : Type u} (codec : Codec α) (into : α → α → α) : Prop :=
  ∀ source, ∃ buf, codec.marshal source = .ok buf ∧
    ∀ target, codec.unmarshal buf target = (into source target, none)

def replaceInto {α : Type u} (source _target : α) : α := source

/-- A codec for whatever has an injection into the bytes. -/
noncomputable def Codec.ofInjective {α : Type u} (into : α → α → α) (f : α → Bytes) :
    Codec α where
  marshal source := .ok (f source)
  unmarshal buf target :=
    open Classical in
    if h : ∃ source, f source = buf then (into h.choose target, none)
    else (target, some .malformed)

theorem Codec.ofInjective_decodesInto {α : Type u} (into : α → α → α) {f : α → Bytes}
    (hf : Function.Injective f) : (Codec.ofInjective into f).DecodesInto into := by
  intro source
  refine ⟨f source, rfl, ?_⟩
  intro target
  have hexists : ∃ source', f source' = f source := ⟨source, rfl⟩
  simp only [Codec.ofInjective]
  rw [dif_pos hexists, hf hexists.choose_spec]

/-- Some codec has the law, for whatever there are countably many of. -/
theorem Codec.exists_decodesInto {α : Type u} [Countable α] (into : α → α → α) :
    ∃ codec : Codec α, codec.DecodesInto into := by
  obtain ⟨f, hf⟩ := exists_injective_nat α
  refine ⟨.ofInjective into fun value => List.replicate (f value) 0,
    ofInjective_decodesInto into ?_⟩
  intro first second h
  have hlength := congrArg List.length h
  simp only [List.length_replicate] at hlength
  exact hf hlength

/-! ## JSON texts -/

/-- The texts `true` and `false`. -/
def boolText : Bool → Bytes
  | true => [0x74, 0x72, 0x75, 0x65]
  | false => [0x66, 0x61, 0x6c, 0x73, 0x65]

def readBool (buf : Bytes) : Option Bool :=
  if buf = boolText true then some true
  else if buf = boolText false then some false
  else none

/-- The text `null`. -/
def nullText : Bytes := [0x6e, 0x75, 0x6c, 0x6c]

/-- A text in brackets, its parts separated by commas. -/
def bracketed (left right : UInt8) (parts : List Bytes) : Bytes :=
  left :: [0x2c].intercalate parts ++ [right]

/-- A slice of booleans as JSON, nil as `null`. -/
def boolsCodec : Codec (Option (List Bool)) where
  marshal source := .ok (source.elim nullText fun bools =>
    bracketed 0x5b 0x5d (bools.map boolText))
  unmarshal buf target :=
    if buf = nullText then (none, none)
    else if buf = bracketed 0x5b 0x5d [] then (some [], none)
    else
      match ((buf.drop 1).dropLast.splitOn 0x2c).mapM readBool with
      | some bools => (some bools, none)
      | none => (target, some .malformed)

/-! ## Maps -/

/-- A map in which `none` stands for the nil map. -/
abbrev NilableMap (κ : Type u) (α : Type v) := Option (Finmap fun _ : κ => α)

namespace NilableMap

variable {κ : Type u} {α : Type v}

/-- The entries, none of them in the nil map. -/
def entries (m : NilableMap κ α) : Finmap fun _ : κ => α := m.getD ∅

instance [Countable κ] [Countable α] : Countable (Finmap fun _ : κ => α) :=
  Function.Injective.countable (f := Finmap.entries) fun _ _ => Finmap.ext

variable [DecidableEq κ]

/-- Decoding what a map encodes to adds what is read from it to the map that is there. -/
def Merges (codec : Codec (NilableMap κ α)) (read : Bytes → Finmap fun _ : κ => α) : Prop :=
  ∀ source buf, codec.marshal (some source) = .ok buf →
    ∀ target, (codec.unmarshal buf (some target)).1 = some (read buf ∪ target)

/-- The null of a nil map replaces the target; other entries are added to it. -/
def mergeInto : NilableMap κ α → NilableMap κ α → NilableMap κ α
  | none, _ => none
  | some source, none => some source
  | some source, some target => some (source ∪ target)

theorem entries_mergeInto_some (source : Finmap fun _ : κ => α) (target : NilableMap κ α) :
    (mergeInto (some source) target).entries = source ∪ target.entries := by
  cases target with
  | none => simp [mergeInto, entries]
  | some target => rfl

theorem union_eq_left_iff {source target : Finmap fun _ : κ => α} :
    source ∪ target = source ↔ ∀ k ∈ target, k ∈ source := by
  constructor
  · intro h k hk
    rw [← h]
    exact Finmap.mem_union.mpr (Or.inr hk)
  · intro h
    apply Finmap.ext_lookup
    intro k
    by_cases hk : k ∈ source
    · rw [Finmap.lookup_union_left hk]
    · have htarget : k ∉ target := fun hmem => hk (h k hmem)
      rw [Finmap.lookup_union_right hk, Finmap.lookup_eq_none.mpr hk,
        Finmap.lookup_eq_none.mpr htarget]

theorem union_eq_union_iff {source first second : Finmap fun _ : κ => α} :
    source ∪ first = source ∪ second ↔
      ∀ k, k ∉ source → first.lookup k = second.lookup k := by
  constructor
  · intro h k hk
    rw [← Finmap.lookup_union_right hk, h, Finmap.lookup_union_right hk]
  · intro h
    apply Finmap.ext_lookup
    intro k
    by_cases hk : k ∈ source
    · rw [Finmap.lookup_union_left hk, Finmap.lookup_union_left hk]
    · rw [Finmap.lookup_union_right hk, Finmap.lookup_union_right hk, h k hk]

/-- Decoding restores the source unless the target has a key of its own. -/
theorem entries_mergeInto_eq_iff {source target : NilableMap κ α} :
    (mergeInto source target).entries = source.entries ↔
      source = none ∨ ∀ k ∈ target.entries, k ∈ source.entries := by
  cases source with
  | none => simp [mergeInto]
  | some source =>
      rw [entries_mergeInto_some]
      simpa [entries] using union_eq_left_iff

/-- Two targets end up equal unless they differ outside of the source. -/
theorem entries_mergeInto_congr_iff {source first second : NilableMap κ α} :
    (mergeInto source first).entries = (mergeInto source second).entries ↔
      source = none ∨ ∀ k, k ∉ source.entries →
        first.entries.lookup k = second.entries.lookup k := by
  cases source with
  | none => simp [mergeInto]
  | some source =>
      rw [entries_mergeInto_some, entries_mergeInto_some]
      simpa [entries] using union_eq_union_iff

end NilableMap

end Udplb.Foundation
