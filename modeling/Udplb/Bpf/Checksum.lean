import Udplb.Bpf.Datagram
import Udplb.Bpf.Exits
import Udplb.Foundation.OnesComplement

/-!
# The rewritten frame

What a forwarded frame looks like: the fields that are written, the checksum of
the IP header, and the bytes that stay.  The checksum is folded from the sum of
32-bit words in the byte order of the host; a receiver adds 16-bit words in
network byte order.
-/

namespace Udplb.Bpf

open Udplb.Foundation

/-! ## Folding the carry -/

theorem foldCarry_nonneg {sum : Int} (h : 0 ≤ sum) : 0 ≤ foldCarry sum := by
  unfold foldCarry
  omega

theorem foldCarry_mod (sum : Int) : foldCarry sum % 0xffff = sum % 0xffff := by
  unfold foldCarry
  omega

theorem foldCarry_le {sum : Int} (h : 0 ≤ sum) (hlt : sum < 2 ^ 32) :
    foldCarry (foldCarry sum) ≤ 0xffff := by
  unfold foldCarry
  omega

theorem foldCarry_le_of_le {sum : Int} (h : 0 ≤ sum) (hle : sum ≤ 0xffff) :
    foldCarry sum ≤ 0xffff := by
  unfold foldCarry
  omega

/-- What is known of `bpf_csum_diff` over an IP header. -/
structure Helpers.Sums (H : Helpers) : Prop where
  nonneg : ∀ header : Bytes, header.length = 20 → 0 ≤ H.csumDiff header
  lt : ∀ header : Bytes, header.length = 20 → H.csumDiff header < 2 ^ 32
  mod_eq : ∀ header : Bytes, header.length = 20 →
    H.csumDiff header % 0xffff = wordSum header % 0xffff

theorem onesComplement_sums : Helpers.onesComplement.Sums := by
  refine ⟨?_, ?_, ?_⟩ <;> intro header _ <;> simp only [Helpers.onesComplement] <;>
    split <;> omega

/-- The checksum completes the sum of the words to a multiple of `0xffff`. -/
theorem csum_completes {H : Helpers} (hsums : H.Sums) (header : Bytes)
    (hlength : header.length = 20) :
    csum H header ≤ 0xffff ∧ (csum H header + wordSum header) % 0xffff = 0 := by
  have hnonneg := hsums.nonneg header hlength
  have htwice := foldCarry_le hnonneg (hsums.lt header hlength)
  have hpos := foldCarry_nonneg (foldCarry_nonneg hnonneg)
  have hthrice := foldCarry_le_of_le hpos htwice
  have hpos' := foldCarry_nonneg hpos
  have hfolded := foldCarry_le_of_le hpos' hthrice
  have hfoldedPos := foldCarry_nonneg hpos'
  have hmod : foldCarry (foldCarry (foldCarry (foldCarry (H.csumDiff header)))) % 0xffff =
      wordSum header % 0xffff := by
    rw [foldCarry_mod, foldCarry_mod, foldCarry_mod, foldCarry_mod,
      hsums.mod_eq header hlength]
  simp only [csum]
  generalize foldCarry (foldCarry (foldCarry (foldCarry (H.csumDiff header)))) = folded at *
  omega

/-! ## A header that verifies -/

theorem sum_beWords_mod (header : Bytes) (h : header.length % 4 = 0) :
    (beWords header).sum % 0xffff = 256 * wordSum header % 0xffff := by
  induction header using wordSum.induct with
  | case1 b₀ b₁ b₂ b₃ rest ih =>
      have hrest := ih (by simp only [List.length_cons] at h; omega)
      simp only [beWords, wordSum, leNat, List.sum_cons]
      omega
  | case2 header hshort =>
      -- nothing shorter than a word has a length divisible by four, except nothing
      rcases header with _ | ⟨b₀, _ | ⟨b₁, _ | ⟨b₂, _ | ⟨b₃, rest⟩⟩⟩⟩
      · rfl
      · simp at h
      · simp at h
      · simp at h
      · exact absurd rfl (hshort b₀ b₁ b₂ b₃ rest)

/-- Swapping the bytes of a word multiplies it by 256. -/
theorem swapped_mod {word : Nat} (h : word ≤ 0xffff) :
    (word % 256 * 256 + word / 256 % 256) % 0xffff = 256 * word % 0xffff := by
  have hsplit : 256 * word =
      0xffff * (word / 256) + (word % 256 * 256 + word / 256 % 256) := by omega
  rw [hsplit, Nat.mul_add_mod]

theorem header_verifies {H : Helpers} (hsums : H.Sums) {header : Bytes} (byte : UInt8)
    (hlength : header.length = 20) (hmem : byte ∈ header.take 10)
    (hbyte : byte.toNat ≠ 0) :
    onesSum (beWords (writeAt header 10
      (leBytes 2 (csum H (writeAt header 10 [0, 0]))))) = 0xffff := by
  have hcleared := csum_completes hsums (writeAt header 10 [0, 0])
    (by rw [length_writeAt, hlength])
  have hwords := sum_beWords_mod (writeAt header 10 [0, 0])
    (by rw [length_writeAt, hlength])
  generalize csum H (writeAt header 10 [0, 0]) = check at hcleared ⊢
  generalize wordSum (writeAt header 10 [0, 0]) = total at hcleared hwords
  have hswapped := swapped_mod hcleared.1
  have hscaled : 256 * (check + total) % 0xffff = 0 := by omega
  have hfront : (header.take 10).length % 2 = 0 := by simp [hlength]
  have hpositive := toNat_le_sum_beWords hfront hmem
  rw [onesSum_eq_iff fun word => le_of_mem_beWords]
  rw [writeAt_eq_append (by simp [hlength]), beWords_append _ hfront] at hwords ⊢
  simp only [leBytes, List.cons_append, List.nil_append, beWords, List.sum_append,
    List.sum_cons, List.length_cons, List.length_nil, UInt8.toNat_ofNat',
    UInt8.toNat_zero] at hwords ⊢
  omega

/-! ## The frame -/

/-- The bytes that the program writes. -/
def Written (i : Nat) : Prop :=
  i < 12 ∨ i = 22 ∨ 24 ≤ i ∧ i < 26 ∨ 30 ≤ i ∧ i < 34 ∨ 36 ≤ i ∧ i < 38 ∨
    40 ≤ i ∧ i < 42

theorem getElem?_decrementTtl {frame : Frame} {i : Nat} (h : i ≠ 22) :
    (decrementTtl frame)[i]? = frame[i]? := by
  rw [decrementTtl, getElem?_writeAt, if_neg (by simp; omega)]

theorem getElem?_rewrite (H : Helpers) (config : KernelConfig) (backend : BackendSpecT)
    {frame : Frame} {i : Nat} (h : i = 22 ∨ ¬Written i) :
    (rewrite H config backend frame)[i]? = frame[i]? := by
  unfold Written at h
  simp only [rewrite, setIphdrCsum, getElem?_writeAt, length_leBytes,
    Vector.length_toList, List.length_cons, List.length_nil]
  repeat rw [if_neg (by omega)]

theorem slice_setIphdrCsum_header (H : Helpers) (frame : Frame) :
    slice (setIphdrCsum H frame) 14 20 =
      writeAt (slice frame 14 20) 10
        (leBytes 2 (csum H (writeAt (slice frame 14 20) 10 [0, 0]))) := by
  unfold setIphdrCsum
  rw [slice_writeAt_inside (by omega) (by simp), slice_writeAt_inside (by omega) (by simp),
    writeAt_writeAt (by simp)]

/-- The protocol keeps the header from being all zero. -/
theorem Admitted.protocol_eq {config : KernelConfig} {frame : Frame}
    (h : Admitted config frame) : frame[23]? = some 17 := by
  have hlength := h.length_ge
  have hprotocol := ((mustLoadbalance_iff _ _ _).mp h.accepted).protocol
  have hbyte : frame[23]? = some (frame.getD 23 0) := by
    rw [List.getD_eq_getElem _ _ (by omega), List.getElem?_eq_getElem]
  rw [hbyte, Option.some.injEq]
  exact UInt8.toNat_inj.mp hprotocol

/-- The frame that went out, against the one that came in. -/
structure Rewritten (config : KernelConfig) (backend : BackendSpecT)
    (before after : Frame) : Prop where
  verifies : onesSum (beWords (slice after 14 20)) = 0xffff
  ttl_eq : (ttl after).toNat + 1 = (ttl before).toNat
  destination : RewrittenTo backend after
  port : be16 after 36 = backend.port.toNat
  source : slice after 6 6 = config.mac.toList
  udpCheck : slice after 40 2 = [0, 0]
  others : ∀ i, ¬Written i → after[i]? = before[i]?

theorem verifies_rewrite {H : Helpers} (hsums : H.Sums) (config : KernelConfig)
    (backend : BackendSpecT) {frame : Frame} (hlength : 62 ≤ frame.length)
    (hprotocol : frame[23]? = some 17) :
    onesSum (beWords (slice (rewrite H config backend frame) 14 20)) = 0xffff := by
  unfold rewrite
  rw [slice_writeAt_disjoint (by simp), slice_setIphdrCsum_header]
  refine header_verifies hsums 17 (length_slice ?_) ?_ (by simp)
  · simp only [length_writeAt]
    omega
  · apply List.mem_of_getElem? (i := 9)
    simp only [slice, List.take_take, List.getElem?_take, List.getElem?_drop,
      getElem?_writeAt, Vector.length_toList, length_leBytes]
    simpa using hprotocol

theorem ttl_rewrite (H : Helpers) (config : KernelConfig) (backend : BackendSpecT)
    (frame : Frame) : ttl (rewrite H config backend frame) = ttl frame := by
  rw [ttl, List.getD_eq_getElem?_getD, getElem?_rewrite H config backend (Or.inl rfl),
    ← List.getD_eq_getElem?_getD, ttl]

theorem source_rewrite (H : Helpers) (config : KernelConfig) (backend : BackendSpecT)
    {frame : Frame} (hlength : 62 ≤ frame.length) :
    slice (rewrite H config backend frame) 6 6 = config.mac.toList := by
  unfold rewrite
  rw [slice_writeAt_disjoint (by simp), slice_setIphdrCsum _ _ (by omega),
    slice_writeAt_disjoint (by simp), slice_writeAt_disjoint (by simp),
    slice_writeAt_disjoint (by simp)]
  have hwritten := slice_writeAt_same frame 6 config.mac.toList (by simp; omega)
  simpa using hwritten

theorem udpCheck_rewrite (H : Helpers) (config : KernelConfig) (backend : BackendSpecT)
    {frame : Frame} (hlength : 62 ≤ frame.length) :
    slice (rewrite H config backend frame) 40 2 = [0, 0] := by
  unfold rewrite setIphdrCsum
  exact slice_writeAt_same _ 40 [0, 0] (by simp; omega)

theorem length_rewrite (H : Helpers) (config : KernelConfig) (backend : BackendSpecT)
    (frame : Frame) : (rewrite H config backend frame).length = frame.length := by
  simp [rewrite, setIphdrCsum]

theorem be16_of_rewrittenTo {backend : BackendSpecT} {frame : Frame}
    (hlength : 62 ≤ frame.length) (h : RewrittenTo backend frame) :
    be16 frame 36 = backend.port.toNat := by
  rw [← leNat_eq_htons_iff (by omega), h.port, leNat_leBytes]
  apply Nat.mod_eq_of_lt
  have := backend.port.toNat_lt
  unfold htons
  omega

theorem rewritten {H : Helpers} (hsums : H.Sums) {config : KernelConfig}
    (backend : BackendSpecT) {frame : Frame} (h : Admitted config frame) :
    Rewritten config backend frame (rewrite H config backend (decrementTtl frame)) := by
  have hlength : 62 ≤ (decrementTtl frame).length := by
    rw [length_decrementTtl]
    exact h.length_ge
  have hto := rewrittenTo_rewrite H config backend hlength
  refine ⟨?_, ?_, hto, ?_, source_rewrite H config backend hlength,
    udpCheck_rewrite H config backend hlength, ?_⟩
  · apply verifies_rewrite hsums config backend hlength
    rw [getElem?_decrementTtl (by omega), h.protocol_eq]
  · have hone := h.one_lt_ttl
    rw [ttl_rewrite, ttl_decrementTtl h.length_ge, UInt8.toNat_sub_of_le]
    · simp
      omega
    · rw [UInt8.le_iff_toNat_le]
      simp
      omega
  · apply be16_of_rewrittenTo _ hto
    rw [length_rewrite]
    exact hlength
  · intro i hi
    rw [getElem?_rewrite H config backend (Or.inr hi), getElem?_decrementTtl]
    rintro rfl
    exact hi (Or.inr (Or.inl rfl))

/--
A forwarded frame carries a header that verifies, the fields of the selected
backend and a TTL that is one less; every other byte is the one received.
-/
theorem forwarded_rewritten (H : Helpers) (hsums : H.Sums) (config : KernelConfig)
    (kernel : Kernel) (packet : Packet)
    (htx : (udplb H config kernel packet).action = .tx) :
    ∃ idx backend,
      backendIdx config kernel (sessionId packet.frame) = some idx ∧
      arrayLookup backendListMaxEntries kernel.activeBackendList idx = some backend ∧
      Rewritten config backend packet.frame (udplb H config kernel packet).frame := by
  have hexits := udplb_exits H config kernel packet
  generalize udplb H config kernel packet = result at htx hexits
  cases hexits with
  | early action hnot haction => exact absurd htx haction
  | unassigned hadmitted hselect => cases htx
  | forwarded idx backend hadmitted hselect after submitted =>
      simp only [selectBackend, Option.bind_eq_bind, Option.bind_eq_some_iff,
        Option.some.injEq, Prod.mk.injEq] at hselect
      obtain ⟨idx, hidx, backend, hbackend, rfl, rfl⟩ := hselect
      exact ⟨idx, backend, hidx, hbackend, rewritten hsums backend hadmitted⟩

theorem forwarded_rewritten_new_session :
    (udplb .onesComplement testConfig testKernel testPacket).action = .tx ∧
    ∃ idx backend,
      backendIdx testConfig testKernel (sessionId testPacket.frame) = some idx ∧
      arrayLookup backendListMaxEntries testKernel.activeBackendList idx = some backend ∧
      Rewritten testConfig backend testPacket.frame
        (udplb .onesComplement testConfig testKernel testPacket).frame := by
  have htx : (udplb .onesComplement testConfig testKernel testPacket).action = .tx := by
    decide +kernel
  exact ⟨htx, forwarded_rewritten .onesComplement onesComplement_sums testConfig
    testKernel testPacket htx⟩

end Udplb.Bpf
