import Mathlib.Data.Set.Function
import Udplb.Controller.Accepted

/-!
# The two readers of the configuration

`NewBackendSpecList` reads the same entries as `buildBackends` into a map.  It
skips an entry that does not parse, where the other gives up, and a later entry
with the same id replaces an earlier one.  The ids of the two come from
different namespaces.
-/

namespace Udplb.Monitor

open Udplb.Foundation Udplb.Controller

def nameSpaceDNS : UUID :=
  #v[0x6b, 0xa7, 0xb8, 0x10, 0x9d, 0xad, 0x11, 0xd1,
     0x80, 0xb4, 0x00, 0xc0, 0x4f, 0xd4, 0x30, 0xc8]

abbrev BackendSpecMap := AssocMap UUID BackendSpec

/-- The data that either reader hashes for an entry. -/
def hashedName (bc : BackendConfig) : Bytes :=
  (bc.ip ++ ":" ++ toString bc.port).toUTF8.toList

section SpecMap

variable (newSHA1 : UUID → Bytes → UUID)

def specId (bc : BackendConfig) : UUID := newSHA1 nameSpaceDNS (hashedName bc)

def addSpec (specMap : BackendSpecMap) (bc : BackendConfig) : BackendSpecMap :=
  if bc.enabled = false then specMap
  else
    match Net.parseIP bc.ip, Net.parseMAC bc.mac with
    | some ip, some mac =>
        specMap.insert (specId newSHA1 bc) ⟨ip, bc.port, mac, .available⟩
    -- an entry with an invalid address is skipped
    | _, _ => specMap

def newBackendSpecList (config : Config) : BackendSpecMap :=
  config.backends.foldl (addSpec newSHA1) ∅

end SpecMap

/-! ## The identities of the backends -/

def identities (backends : List Backend) : Set (UUID × Bytes × Int × Bytes) :=
  {x | ∃ b ∈ backends, x = (b.id, b.spec.ip, b.spec.port, b.spec.macAddr)}

def specIdentities (specMap : BackendSpecMap) : Set (UUID × Bytes × Int × Bytes) :=
  {x | ∃ id spec, specMap.lookup id = some spec ∧
    x = (id, spec.ip, spec.port, spec.macAddr)}

/-- What the readers hash for the entries of a configuration. -/
def hashInputs (config : Config) : Set (UUID × Bytes) :=
  {input | (input.1 = nameSpaceURL ∨ input.1 = nameSpaceDNS) ∧
    ∃ bc ∈ config.backends, input.2 = hashedName bc}

variable {newSHA1 : UUID → Bytes → UUID}

/-- A key that an entry adds is the entry's own id. -/
theorem lookup_addSpec {specMap : BackendSpecMap} {bc : BackendConfig} {id : UUID}
    {spec : BackendSpec} (h : (addSpec newSHA1 specMap bc).lookup id = some spec) :
    specMap.lookup id = some spec ∨ (bc.enabled = true ∧ id = specId newSHA1 bc) := by
  unfold addSpec at h
  split at h
  · exact Or.inl h
  · rename_i henabled
    split at h
    · by_cases hid : id = specId newSHA1 bc
      · exact Or.inr ⟨by simpa using henabled, hid⟩
      · rw [AList.lookup_insert_ne hid] at h
        exact Or.inl h
    · exact Or.inl h

theorem lookup_foldl_addSpec {entries : List BackendConfig} {specMap : BackendSpecMap}
    {id : UUID} {spec : BackendSpec}
    (h : (entries.foldl (addSpec newSHA1) specMap).lookup id = some spec) :
    specMap.lookup id = some spec ∨
      ∃ bc ∈ entries, bc.enabled = true ∧ id = specId newSHA1 bc := by
  induction entries generalizing specMap with
  | nil => exact Or.inl h
  | cons bc entries ih =>
      rcases ih h with h | ⟨bc', hbc', hadded⟩
      · rcases lookup_addSpec h with h | hadded
        · exact Or.inl h
        · exact Or.inr ⟨bc, by simp, hadded⟩
      · exact Or.inr ⟨bc', by simp [hbc'], hadded⟩

theorem mem_of_lookup_newBackendSpecList {config : Config} {id : UUID}
    {spec : BackendSpec}
    (h : (newBackendSpecList newSHA1 config).lookup id = some spec) :
    ∃ bc ∈ config.backends, bc.enabled = true ∧ id = specId newSHA1 bc := by
  rcases lookup_foldl_addSpec h with h | h
  · simp at h
  · exact h

theorem nameSpaceURL_ne_nameSpaceDNS : nameSpaceURL ≠ nameSpaceDNS := by
  decide

/-- No id of the one reader is an id of the other. -/
theorem backendId_ne_specId {config : Config}
    (hinj : Set.InjOn (fun input : UUID × Bytes => newSHA1 input.1 input.2)
      (hashInputs config))
    {bc bc' : BackendConfig} (hbc : bc ∈ config.backends)
    (hbc' : bc' ∈ config.backends) : backendId newSHA1 bc ≠ specId newSHA1 bc' := by
  intro heq
  have hinputs := @hinj (nameSpaceURL, hashedName bc) ⟨Or.inl rfl, bc, hbc, rfl⟩
    (nameSpaceDNS, hashedName bc') ⟨Or.inr rfl, bc', hbc', rfl⟩ heq
  exact nameSpaceURL_ne_nameSpaceDNS (congrArg Prod.fst hinputs)

/--
For an accepted configuration, and a hash that is injective on what is hashed
for it, the two readers agree exactly when no entry is enabled.
-/
theorem readers_agree_iff (config : Config) (backends : List Backend)
    (hbuild : buildBackends newSHA1 config = .ok backends)
    (hinj : Set.InjOn (fun input : UUID × Bytes => newSHA1 input.1 input.2)
      (hashInputs config)) :
    identities backends = specIdentities (newBackendSpecList newSHA1 config) ↔
      ∀ bc ∈ config.backends, bc.enabled = false := by
  have hids := (buildBackends_spec hbuild).1
  constructor
  · intro hsame bc hbc
    by_contra henabled
    have hmem : backendId newSHA1 bc ∈ backends.map (·.id) := by
      rw [hids]
      exact List.mem_map.mpr ⟨bc, List.mem_filter.mpr ⟨hbc, by simpa using henabled⟩, rfl⟩
    obtain ⟨b, hb, hid⟩ := List.mem_map.mp hmem
    have hidentity : (b.id, b.spec.ip, b.spec.port, b.spec.macAddr) ∈
        specIdentities (newBackendSpecList newSHA1 config) := by
      rw [← hsame]
      exact ⟨b, hb, rfl⟩
    obtain ⟨id, spec, hlookup, heq⟩ := hidentity
    obtain ⟨bc', hbc', -, hspec⟩ := mem_of_lookup_newBackendSpecList hlookup
    apply backendId_ne_specId hinj hbc hbc'
    rw [← hid, ← hspec]
    exact congrArg Prod.fst heq
  · intro hdisabled
    have hnone : backends = [] := by
      have hfilter : config.backends.filter (·.enabled) = [] := by
        simpa [List.filter_eq_nil_iff] using hdisabled
      rw [enabledIds, hfilter] at hids
      simpa using hids
    subst hnone
    ext x
    constructor
    · rintro ⟨b, hb, -⟩
      simp at hb
    · rintro ⟨id, spec, hlookup, -⟩
      obtain ⟨bc, hbc, henabled, -⟩ := mem_of_lookup_newBackendSpecList hlookup
      simp [hdisabled bc hbc] at henabled

/-- The version 5 UUIDs of `10.0.0.10:8080` in the two namespaces. -/
def exampleHash (space : UUID) (name : Bytes) : UUID :=
  if space = nameSpaceURL then exampleSHA1 space name
  else
    #v[0x56, 0x4c, 0x29, 0x15, 0x0e, 0xb9, 0x54, 0x26,
       0x94, 0x7e, 0xdf, 0x20, 0x54, 0x2d, 0xff, 0x8d]

theorem exampleHash_ne :
    exampleHash nameSpaceURL (hashedName (exampleEntry "10.0.0.10")) ≠
      exampleHash nameSpaceDNS (hashedName (exampleEntry "10.0.0.10")) := by
  decide +kernel

theorem readers_disagree_one_entry :
    ∃ backends,
      buildBackends exampleHash (exampleConfig ["10.0.0.10"]) = .ok backends ∧
      Set.InjOn (fun input : UUID × Bytes => exampleHash input.1 input.2)
        (hashInputs (exampleConfig ["10.0.0.10"])) ∧
      identities backends ≠
        specIdentities (newBackendSpecList exampleHash (exampleConfig ["10.0.0.10"])) := by
  have haccepted : (buildBackends exampleHash
      (exampleConfig ["10.0.0.10"])).toOption.map (fun _ => ()) = some () := by
    decide +kernel
  have hinj : Set.InjOn (fun input : UUID × Bytes => exampleHash input.1 input.2)
      (hashInputs (exampleConfig ["10.0.0.10"])) := by
    rintro ⟨space, name⟩ ⟨hspace, bc, hbc, rfl⟩ ⟨space', name'⟩ ⟨hspace', bc', hbc', rfl⟩ heq
    simp only [exampleConfig, List.map_cons, List.map_nil, List.mem_singleton] at hbc hbc'
    subst hbc hbc'
    rcases hspace with rfl | rfl <;> rcases hspace' with rfl | rfl
    · rfl
    · exact absurd heq exampleHash_ne
    · exact absurd heq exampleHash_ne.symm
    · rfl
  obtain ⟨backends, hbuild, -⟩ := returns_of_toOption haccepted
  refine ⟨backends, hbuild, hinj, fun hsame => ?_⟩
  have hdisabled := (readers_agree_iff _ _ hbuild hinj).mp hsame
  simp [exampleConfig, exampleEntry] at hdisabled

theorem one_backend_two_ids :
    (buildBackends exampleHash (exampleConfig ["10.0.0.10"])).toOption.map
        (fun backends => backends.map (·.id)) =
      some [exampleHash nameSpaceURL "10.0.0.10:8080".toUTF8.toList] ∧
    (newBackendSpecList exampleHash (exampleConfig ["10.0.0.10"])).keys =
      [exampleHash nameSpaceDNS "10.0.0.10:8080".toUTF8.toList] ∧
    exampleHash nameSpaceURL "10.0.0.10:8080".toUTF8.toList ≠
      exampleHash nameSpaceDNS "10.0.0.10:8080".toUTF8.toList := by
  refine ⟨?_, ?_, ?_⟩ <;> decide +kernel

end Udplb.Monitor
