import Udplb.Bpf.Kernel
import Udplb.Net

/-!
# Building the controller

`buildBackends` turns the enabled entries of the configuration into backends.
The id of a backend is derived from the text `ip:port` of its entry, so two
entries with one text share their id.  The hash is a parameter.
-/

namespace Udplb

open Udplb.Foundation

/-- The controller's state: what its loops read and write. -/
structure Controller where
  backends : List Backend
  lookupTableSize : UInt32
  sessionMap : AssocMap UUID Nat

namespace Controller

def nameSpaceURL : UUID :=
  #v[0x6b, 0xa7, 0xb8, 0x11, 0x9d, 0xad, 0x11, 0xd1,
     0x80, 0xb4, 0x00, 0xc0, 0x4f, 0xd4, 0x30, 0xc8]

/-- An entry that cannot be built, at its index in the configuration. -/
inductive BuildError where
  | cannotParseIP (index : Nat) (ip : String)
  | invalidMAC (index : Nat) (mac : String)
  deriving DecidableEq, Repr

section Build

variable (newSHA1 : UUID → Bytes → UUID)

def backendId (bc : BackendConfig) : UUID :=
  newSHA1 nameSpaceURL (bc.ip ++ ":" ++ toString bc.port).toUTF8.toList

def buildBackend (i : Nat) (bc : BackendConfig) : Except BuildError Backend := do
  let ip ← (Net.parseIP bc.ip).elim (.error (.cannotParseIP i bc.ip)) .ok
  let mac ← (Net.parseMAC bc.mac).elim (.error (.invalidMAC i bc.mac)) .ok
  .ok (newBackend (backendId newSHA1 bc) ⟨ip, bc.port, mac, .available⟩
    ⟨.available⟩)

def appendBackend (out : List Backend) (entry : BackendConfig × Nat) :
    Except BuildError (List Backend) :=
  if entry.1.enabled then do
    let b ← buildBackend newSHA1 entry.2 entry.1
    .ok (out ++ [b])
  else .ok out

def buildBackends (config : Config) : Except BuildError (List Backend) :=
  config.backends.zipIdx.foldlM (appendBackend newSHA1) []

end Build

def lookupTablePrimes : List UInt32 := [7, 13, 23, 47, 97, 197, 397, 797]

def computeLookupTableSize (n : Nat) : UInt32 :=
  let target := UInt32.ofNat (2 * n)
  (lookupTablePrimes.find? fun p => target ≤ p).getD
    (lookupTablePrimes.getLast (by decide))

/-- What the controller is built from besides its configuration. -/
structure Host where
  newSHA1 : UUID → Bytes → UUID
  interfaceByName : String → Option Bytes
  removeMemlock : Bool
  loadAndAssign : Bool

inductive NewError where
  | noInterface (ifname : String)
  | cannotParseIP (ip : String)
  | backend (err : BuildError)
  | removingMemlock
  | creatingNewBPFProgram
  | panic (err : RuntimeError)
  deriving DecidableEq, Repr

def kernelConfig (ip : Bytes) (port : UInt16) (lookupTableSize : UInt32)
    (hardwareAddr : Bytes) : Except RuntimeError Bpf.KernelConfig := do
  let ip ← Net.netIPv4ToUint32 ip
  if h : 6 ≤ hardwareAddr.length then
    .ok { ip := ip
          port := port
          lookupTableSize := lookupTableSize
          mac := ⟨(hardwareAddr.take 6).toArray, by simp [h]⟩ }
  else .error .indexOutOfRange

def init (backends : List Backend) : Controller :=
  ⟨backends, computeLookupTableSize backends.length, ∅⟩

def new (host : Host) (config : Config) :
    Except NewError (Controller × Bpf.KernelConfig) := do
  let hardwareAddr ← (host.interfaceByName config.ifname).elim
    (.error (.noInterface config.ifname)) .ok
  let ip ← (Net.parseIP config.ip).elim (.error (.cannotParseIP config.ip)) .ok
  let backends ← (buildBackends host.newSHA1 config).mapError .backend
  if host.removeMemlock = false then .error .removingMemlock
  else do
    let controller := init backends
    let kernelConfig ← (kernelConfig ip config.port controller.lookupTableSize
      hardwareAddr).mapError .panic
    if host.loadAndAssign = false then .error .creatingNewBPFProgram
    else .ok (controller, kernelConfig)

/-! ## What is built -/

theorem computeLookupTableSize_mem (n : Nat) :
    computeLookupTableSize n ∈ lookupTablePrimes := by
  simp only [computeLookupTableSize]
  cases hfind : lookupTablePrimes.find? fun p => UInt32.ofNat (2 * n) ≤ p with
  | none => exact List.getLast_mem (by decide)
  | some p => exact List.mem_of_find?_eq_some hfind

theorem computeLookupTableSize_pos (n : Nat) :
    0 < (computeLookupTableSize n).toNat := by
  have hprimes : ∀ p ∈ lookupTablePrimes, 0 < p.toNat := by
    simp [lookupTablePrimes]
  exact hprimes _ (computeLookupTableSize_mem n)

def isAvailable (b : Backend) : Bool :=
  b.spec.state = .available && b.status.state = .available

section Build

variable {newSHA1 : UUID → Bytes → UUID}

def enabledIds (newSHA1 : UUID → Bytes → UUID) (entries : List BackendConfig) :
    List UUID :=
  (entries.filter (·.enabled)).map (backendId newSHA1)

theorem buildBackend_spec {i : Nat} {bc : BackendConfig} {b : Backend}
    (h : buildBackend newSHA1 i bc = .ok b) :
    b.id = backendId newSHA1 bc ∧ isAvailable b = true := by
  simp only [buildBackend, bind_eq_ok] at h
  obtain ⟨ip, -, mac, -, hb⟩ := h
  cases hb
  exact ⟨rfl, rfl⟩

def enabledEntries (config : Config) : List BackendConfig :=
  config.backends.filter (·.enabled)

/-- Each backend is built from an entry. -/
def BuiltFrom (newSHA1 : UUID → Bytes → UUID) (bc : BackendConfig) (b : Backend) :
    Prop :=
  ∃ i, buildBackend newSHA1 i bc = .ok b

theorem foldlM_appendBackend_builtFrom {entries : List (BackendConfig × Nat)}
    {out backends : List Backend}
    (h : entries.foldlM (appendBackend newSHA1) out = .ok backends) :
    ∃ built, backends = out ++ built ∧
      List.Forall₂ (BuiltFrom newSHA1)
        ((entries.map Prod.fst).filter (·.enabled)) built := by
  induction entries generalizing out with
  | nil =>
      cases h
      exact ⟨[], by simp, .nil⟩
  | cons entry entries ih =>
      rw [List.foldlM_cons] at h
      cases henabled : entry.1.enabled with
      | false =>
          simp only [appendBackend, henabled, Bool.false_eq_true, if_false,
            bind_eq_ok] at h
          obtain ⟨out', hout', h⟩ := h
          cases hout'
          simpa [henabled] using ih h
      | true =>
          simp only [appendBackend, henabled, if_true, bind_eq_ok] at h
          obtain ⟨out', ⟨b, hb, hout'⟩, h⟩ := h
          cases hout'
          obtain ⟨built, rfl, hbuilt⟩ := ih h
          refine ⟨b :: built, by simp, ?_⟩
          rw [List.map_cons, List.filter_cons_of_pos (by simpa using henabled)]
          exact .cons ⟨entry.2, hb⟩ hbuilt

theorem buildBackends_builtFrom {config : Config} {backends : List Backend}
    (h : buildBackends newSHA1 config = .ok backends) :
    List.Forall₂ (BuiltFrom newSHA1) (enabledEntries config) backends := by
  obtain ⟨built, rfl, hbuilt⟩ := foldlM_appendBackend_builtFrom h
  simpa [enabledEntries] using hbuilt

theorem builtFrom_spec {entries : List BackendConfig} {built : List Backend}
    (h : List.Forall₂ (BuiltFrom newSHA1) entries built) :
    built.map (·.id) = entries.map (backendId newSHA1) ∧
      ∀ b ∈ built, isAvailable b = true := by
  induction h with
  | nil => simp
  | cons hbuilt hrest ih =>
      obtain ⟨i, hb⟩ := hbuilt
      obtain ⟨hid, havailable⟩ := buildBackend_spec hb
      rw [List.map_cons, List.map_cons, hid, ih.1, List.forall_mem_cons]
      exact ⟨rfl, havailable, ih.2⟩

/-- The backends have the enabled entries' ids, in order, and are available. -/
theorem buildBackends_spec {config : Config} {backends : List Backend}
    (h : buildBackends newSHA1 config = .ok backends) :
    backends.map (·.id) = enabledIds newSHA1 config.backends ∧
      ∀ b ∈ backends, isAvailable b = true :=
  builtFrom_spec (buildBackends_builtFrom h)

end Build

theorem kernelConfig_lookupTableSize {ip hardwareAddr : Bytes} {port : UInt16}
    {size : UInt32} {config : Bpf.KernelConfig}
    (h : kernelConfig ip port size hardwareAddr = .ok config) :
    config.lookupTableSize = size := by
  simp only [kernelConfig, bind_eq_ok] at h
  obtain ⟨ip, -, h⟩ := h
  split at h
  · cases h
    rfl
  · cases h

theorem new_spec {host : Host} {config : Config} {controller : Controller}
    {kernelConfig : Bpf.KernelConfig}
    (h : new host config = .ok (controller, kernelConfig)) :
    ∃ backends, buildBackends host.newSHA1 config = .ok backends ∧
      controller = init backends ∧
      kernelConfig.lookupTableSize = controller.lookupTableSize := by
  simp only [new, bind_eq_ok, mapError_eq_ok] at h
  obtain ⟨hardwareAddr, -, ip, -, backends, hbackends, h⟩ := h
  refine ⟨backends, hbackends, ?_⟩
  split at h
  · cases h
  simp only [bind_eq_ok, mapError_eq_ok] at h
  obtain ⟨built, hbuilt, h⟩ := h
  split at h
  · cases h
  cases h
  exact ⟨rfl, kernelConfig_lookupTableSize hbuilt⟩

theorem lookupTableSize_pos_of_new {host : Host} {config : Config}
    {controller : Controller} {kernelConfig : Bpf.KernelConfig}
    (h : new host config = .ok (controller, kernelConfig)) :
    0 < kernelConfig.lookupTableSize.toNat := by
  obtain ⟨backends, -, rfl, hsize⟩ := new_spec h
  rw [hsize]
  exact computeLookupTableSize_pos backends.length

/-- The controller is known once the configuration is accepted. -/
theorem new_eq_ok {host : Host} {config : Config} {kernelConfig : Bpf.KernelConfig}
    (h : (new host config).toOption.map (·.2) = some kernelConfig) :
    new host config =
      .ok (init ((buildBackends host.newSHA1 config).toOption.getD []),
        kernelConfig) := by
  obtain ⟨⟨c, kernelConfig⟩, hnew, rfl⟩ := returns_of_toOption h
  obtain ⟨backends, hbackends, rfl, -⟩ := new_spec hnew
  rw [hnew, hbackends]
  rfl

/-! ## An instance: entries and their version 5 UUIDs -/

def exampleEntry (ip : String) : BackendConfig where
  enabled := true
  ip := ip
  mac := "aa:bb:cc:dd:ee:ff"
  port := 8080

def exampleSHA1 (_ : UUID) (name : Bytes) : UUID :=
  if name = "10.0.0.10:8080".toUTF8.toList then
    #v[0x24, 0x95, 0x88, 0x15, 0xba, 0xab, 0x57, 0xfe,
       0x91, 0x22, 0x53, 0x0c, 0x09, 0xe8, 0xcb, 0x64]
  else if name = "10.0.0.11:8080".toUTF8.toList then
    #v[0x2b, 0xd4, 0xa8, 0xeb, 0x54, 0x1e, 0x5b, 0x5d,
       0x84, 0xf7, 0x4c, 0xa3, 0x75, 0x10, 0x07, 0x17]
  else if name = "10.0.0.12:8080".toUTF8.toList then
    #v[0xb4, 0x38, 0x0a, 0xe7, 0xba, 0xf2, 0x5a, 0xfb,
       0xba, 0x03, 0x40, 0x20, 0x92, 0xcb, 0x52, 0x36]
  else Vector.replicate 16 0

def exampleHost : Host where
  newSHA1 := exampleSHA1
  interfaceByName ifname :=
    if ifname = "eth0" then some [0x0a, 0x0b, 0x0c, 0x0d, 0x0e, 0x0f] else none
  removeMemlock := true
  loadAndAssign := true

def exampleConfig (ips : List String) : Config where
  ifname := "eth0"
  ip := "10.0.0.1"
  port := 12345
  backends := ips.map exampleEntry

def exampleId (ip : String) : UUID := backendId exampleSHA1 (exampleEntry ip)

def exampleBackends (ips : List String) : List Backend :=
  (buildBackends exampleSHA1 (exampleConfig ips)).toOption.getD []

def exampleController : Controller :=
  init (exampleBackends ["10.0.0.10", "10.0.0.11"])

end Controller

end Udplb
