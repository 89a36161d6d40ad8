import Udplb.Bpf.Manager
import Udplb.Controller.Build

/-!
# What an accepted configuration becomes in the kernel

`buildBackends` accepts every IP address, hardware address and port that parses.
`transformBackendList` narrows them to four bytes, six bytes and sixteen bits.
What reaches the kernel is what was written exactly for the entries that fit.
-/

namespace Udplb.Controller

open Udplb.Foundation Udplb.Bpf

/-- The entry fits the kernel's representation of a backend. -/
def Representable (bc : BackendConfig) : Prop :=
  ((Net.parseIP bc.ip).bind Net.to4).isSome = true ∧
    (0 ≤ bc.port ∧ bc.port < 65536) ∧
    (Net.parseMAC bc.mac).map List.length = some 6

instance (bc : BackendConfig) : Decidable (Representable bc) :=
  inferInstanceAs (Decidable (_ ∧ _ ∧ _))

/-- The kernel's backend has the address, port and MAC written in the entry. -/
structure Carries (bc : BackendConfig) (spec : BackendSpecT) : Prop where
  ip : (Net.parseIP bc.ip).bind Net.to4 = some (leBytes 4 spec.ip.toNat)
  port : (spec.port.toNat : Int) = bc.port
  mac : Net.parseMAC bc.mac = some spec.mac.toList

/-! ## One entry -/

theorem length_of_to4 {ip ipv4 : Bytes} (h : Net.to4 ip = some ipv4) :
    ipv4.length = 4 := by
  unfold Net.to4 at h
  split at h
  · cases h
    assumption
  · split at h
    · rename_i hmapped
      cases h
      rw [List.length_drop, hmapped.1]
    · cases h

theorem leBytes_ofNat_leNat {ipv4 : Bytes} (h : ipv4.length = 4) :
    leBytes 4 (UInt32.ofNat (leNat ipv4)).toNat = ipv4 := by
  have hlt := leNat_lt ipv4
  rw [h] at hlt
  rw [UInt32.toNat_ofNat_of_lt' hlt, ← h, leBytes_leNat]

theorem toNat_ofInt_eq_iff (port : Int) :
    ((UInt16.ofInt port).toNat : Int) = port ↔ 0 ≤ port ∧ port < 65536 := by
  have htoNat : ((UInt16.ofInt port).toNat : Int) = port % 65536 := by
    rw [UInt16.ofInt, UInt16.toNat_ofNat']
    omega
  rw [htoNat]
  omega

/-- What `buildBackend` stores of an entry. -/
theorem buildBackend_eq_ok {newSHA1 : UUID → Bytes → UUID} {i : Nat}
    {bc : BackendConfig} {b : Backend} (h : buildBackend newSHA1 i bc = .ok b) :
    Net.parseIP bc.ip = some b.spec.ip ∧ Net.parseMAC bc.mac = some b.spec.macAddr ∧
      b.spec.port = bc.port := by
  simp only [buildBackend, bind_eq_ok] at h
  obtain ⟨ip, hip, mac, hmac, h⟩ := h
  cases h
  cases hparse : Net.parseIP bc.ip with
  | none => simp [hparse] at hip
  | some parsed =>
      cases hparse' : Net.parseMAC bc.mac with
      | none => simp [hparse'] at hmac
      | some parsed' =>
          simp only [hparse, hparse', Option.elim_some] at hip hmac
          cases hip
          cases hmac
          exact ⟨rfl, rfl, rfl⟩

theorem transformBackend_returns_iff {newSHA1 : UUID → Bytes → UUID} {i : Nat}
    {bc : BackendConfig} {b : Backend} (hb : buildBackend newSHA1 i bc = .ok b) :
    Returns (transformBackend b) (Carries bc) ↔ Representable bc := by
  obtain ⟨hip, hmac, hport⟩ := buildBackend_eq_ok hb
  rw [Representable, hip, hmac, Option.bind_some, Option.map_some, Option.some.injEq,
    ← hport]
  constructor
  · rintro ⟨spec, hspec, hcarries⟩
    simp only [transformBackend, bind_eq_ok] at hspec
    obtain ⟨ip, -, hspec⟩ := hspec
    split at hspec
    · cases hspec
      refine ⟨?_, ?_, ?_⟩
      · have hwritten := hcarries.ip
        rw [hip, Option.bind_some] at hwritten
        simp [hwritten]
      · have hwritten := hcarries.port
        rw [← hport] at hwritten
        exact (toNat_ofInt_eq_iff _).mp hwritten
      · have hwritten := hcarries.mac
        rw [hmac, Option.some.injEq] at hwritten
        rw [hwritten, Vector.length_toList]
    · cases hspec
  · rintro ⟨hto4, hrange, hlength⟩
    obtain ⟨ipv4, hipv4⟩ := Option.isSome_iff_exists.mp hto4
    have hsix : 6 ≤ b.spec.macAddr.length := by omega
    simp only [transformBackend, Net.netIPv4ToUint32, hipv4]
    refine ⟨_, dif_pos hsix, ?_, ?_, ?_⟩
    · rw [hip, Option.bind_some, hipv4, leBytes_ofNat_leNat (length_of_to4 hipv4)]
    · rw [← hport]
      exact (toNat_ofInt_eq_iff _).mpr hrange
    · rw [hmac, Option.some.injEq]
      exact (List.take_of_length_le (Nat.le_of_eq hlength)).symm

/-! ## The whole configuration -/

theorem forall₂_transform_iff {newSHA1 : UUID → Bytes → UUID}
    {entries : List BackendConfig} {backends : List Backend}
    (h : List.Forall₂ (BuiltFrom newSHA1) entries backends) :
    List.Forall₂ (fun bc b => Returns (transformBackend b) (Carries bc)) entries
        backends ↔
      ∀ bc ∈ entries, Representable bc := by
  induction h with
  | nil => simp
  | cons hbuilt hrest ih =>
      obtain ⟨i, hb⟩ := hbuilt
      rw [List.forall₂_cons, List.forall_mem_cons, ih, transformBackend_returns_iff hb]

/--
For an accepted configuration the kernel gets exactly what is written in the
enabled entries if and only if every enabled entry has an IPv4 address, a port
below 65536 that is not negative, and a MAC of six bytes.
-/
theorem accepted_faithful_iff {newSHA1 : UUID → Bytes → UUID} {config : Config}
    {backends : List Backend} (hbuild : buildBackends newSHA1 config = .ok backends) :
    Returns (transformBackendList backends)
        (List.Forall₂ Carries (enabledEntries config)) ↔
      ∀ bc ∈ enabledEntries config, Representable bc := by
  rw [transformBackendList, mapM_returns_iff]
  exact forall₂_transform_iff (buildBackends_builtFrom hbuild)

theorem accepted_faithful_iff_two_entries :
    ∃ backends,
      buildBackends exampleSHA1 (exampleConfig ["10.0.0.10", "10.0.0.11"]) =
        .ok backends ∧
      (∀ bc ∈ enabledEntries (exampleConfig ["10.0.0.10", "10.0.0.11"]),
        Representable bc) ∧
      Returns (transformBackendList backends) (List.Forall₂ Carries
        (enabledEntries (exampleConfig ["10.0.0.10", "10.0.0.11"]))) := by
  have haccepted : (buildBackends exampleSHA1 (exampleConfig
      ["10.0.0.10", "10.0.0.11"])).toOption.map (fun _ => ()) = some () := by
    decide +kernel
  have hentries : ∀ bc ∈ enabledEntries (exampleConfig ["10.0.0.10", "10.0.0.11"]),
      Representable bc := by
    decide +kernel
  obtain ⟨backends, hbuild, -⟩ := returns_of_toOption haccepted
  exact ⟨backends, hbuild, hentries, (accepted_faithful_iff hbuild).mpr hentries⟩

def exampleConfigOf (entry : BackendConfig) : Config :=
  { exampleConfig [] with backends := [entry] }

/-- The version 5 UUID of `fe80::1:8080`. -/
def exampleIPv6Id : UUID :=
  #v[0xf7, 0xd7, 0xac, 0x74, 0x6e, 0xc2, 0x56, 0xa1,
     0xa7, 0x7f, 0xea, 0x98, 0xc2, 0x71, 0x01, 0x76]

/--
An entry with an IPv6 address is accepted and panics on its way to the kernel;
an entry with an EUI-64 hardware address is accepted and cut to six bytes.
-/
theorem accepted_not_faithful :
    (buildBackends (fun _ _ => exampleIPv6Id)
        (exampleConfigOf (exampleEntry "fe80::1"))).toOption.map
      (fun backends => (transformBackendList backends).toOption.isSome) =
        some false ∧
    (buildBackends exampleSHA1 (exampleConfigOf
        { exampleEntry "10.0.0.10" with mac := "aa:bb:cc:dd:ee:ff:00:11" })).toOption.map
      (fun backends => (transformBackendList backends).toOption.map
        (·.map (·.mac.toList))) =
        some (some [[0xaa, 0xbb, 0xcc, 0xdd, 0xee, 0xff]]) ∧
    Net.parseMAC "aa:bb:cc:dd:ee:ff:00:11" =
      some [0xaa, 0xbb, 0xcc, 0xdd, 0xee, 0xff, 0x00, 0x11] := by
  decide +kernel

end Udplb.Controller
