import MqttClient.Wire.Accesses
import MqttClient.Wire.LengthFields

/-! # Writing a length and reading it back

The decoder gives back what the encoder has written, whatever follows it. It
stops at the first byte without the top bit, and what it computes on the way
there stays below 32 bits.
-/

namespace MqttClient

/-- What the turns of `decodeLenLoop` compute, before it is put into a `uint32_t`:
the product, the sum and the next multiplier. -/
def decodeLenValues (buf : Memory) : Nat → Nat → Nat → Nat → List Nat
  | 0, _, _, _ => []
  | remaining + 1, off, multiplier, decodedLen =>
      let encodedByte := (buf off).toNat
      let product := encodedByte % 128 * multiplier
      [product, decodedLen + product, multiplier * 128] ++
        if encodedByte < 128 then []
        else decodeLenValues buf remaining (off + 1) (multiplier * 128 % 2 ^ 32)
          ((decodedLen + product) % 2 ^ 32)

/-- The first byte from `off` on without the top bit is the `n`th. -/
structure StopsAt (buf : Memory) (off n : Nat) : Prop where
  pos : 0 < n
  more : ∀ i, i + 1 < n → 128 ≤ (buf (off + i)).toNat
  last : (buf (off + (n - 1))).toNat < 128

/-- In a turn that `k` others have gone before, the multiplier is `128 ^ k`. -/
theorem decodeLenValues_lt {buf : Memory} {remaining k off decodedLen v : Nat}
    (hturns : remaining + k ≤ maxNoOfRemainingLengthBytes) (hlen : decodedLen < 128 ^ k)
    (hv : v ∈ decodeLenValues buf remaining off (128 ^ k) decodedLen) : v < 2 ^ 32 := by
  induction remaining generalizing k off decodedLen with
  | zero => simp [decodeLenValues] at hv
  | succ remaining ih =>
      have hpow : 128 ^ (k + 1) < 2 ^ 32 := by
        refine Nat.lt_of_le_of_lt (Nat.pow_le_pow_right (by decide) ?_)
          (by decide : 128 ^ 4 < 2 ^ 32)
        simp only [maxNoOfRemainingLengthBytes] at hturns
        omega
      have hdigit : (buf off).toNat % 128 * 128 ^ k ≤ 127 * 128 ^ k :=
        Nat.mul_le_mul_right _ (Nat.le_of_lt_succ (Nat.mod_lt _ (by decide)))
      have hsum : decodedLen + (buf off).toNat % 128 * 128 ^ k < 128 ^ (k + 1) := by
        rw [Nat.pow_succ]
        omega
      simp only [decodeLenValues, List.mem_append, List.mem_cons, List.not_mem_nil, or_false] at hv
      rcases hv with (rfl | rfl | rfl) | hv
      · omega
      · omega
      · rwa [← Nat.pow_succ]
      · split at hv
        · simp at hv
        · rw [← Nat.pow_succ, Nat.mod_eq_of_lt hpow, Nat.mod_eq_of_lt (by omega)] at hv
          exact ih (by omega) hsum hv

/-- The bytes that are looked at end with the first one without the top bit, if there is one. -/
theorem stopsAt_lookedAt {buf : Memory} {remaining off : Nat}
    (h : ∃ i < remaining, (buf (off + i)).toNat < 128) :
    StopsAt buf off (lookedAt buf remaining off) := by
  induction remaining generalizing off with
  | zero => simp at h
  | succ remaining ih =>
      rw [lookedAt]
      split
      next hlast => exact ⟨Nat.one_pos, fun i hi => absurd hi (by omega), hlast⟩
      next hmore =>
        have hrest : ∃ i < remaining, (buf (off + 1 + i)).toNat < 128 := by
          obtain ⟨i, hi, hend⟩ := h
          cases i with
          | zero => exact absurd hend hmore
          | succ i => exact ⟨i, by omega, by rwa [Nat.add_assoc, Nat.add_comm 1 i]⟩
        obtain ⟨hpos, hbefore, hlast⟩ := ih hrest
        refine ⟨Nat.succ_pos _, fun i hi => ?_, ?_⟩
        · cases i with
          | zero => exact Nat.not_lt.mp hmore
          | succ i =>
              have := hbefore i (by omega)
              rwa [Nat.add_assoc, Nat.add_comm 1 i] at this
        · have hnext : off + (lookedAt buf remaining (off + 1) + 1 - 1) =
              off + 1 + (lookedAt buf remaining (off + 1) - 1) := by omega
          rwa [hnext]

theorem StopsAt.isLengthField {buf : Memory} {off n : Nat} (h : StopsAt buf off n) :
    isLengthField (buf.load off n) = true := by
  obtain ⟨m, rfl⟩ : ∃ m, n = m + 1 := ⟨n - 1, by have := h.pos; omega⟩
  exact isLengthField_load (fun i hi => h.more i (by omega)) h.last

theorem lookedAt_le (buf : Memory) (remaining off : Nat) :
    lookedAt buf remaining off ≤ remaining := by
  induction remaining generalizing off with
  | zero => exact Nat.le_refl 0
  | succ remaining ih =>
      rw [lookedAt]
      split
      · exact Nat.succ_pos remaining
      · exact Nat.succ_le_succ (ih (off + 1))

/-- The bytes up to the first one without the top bit are decoded. -/
theorem decodeRemainingLength_of_ends {buf : Memory} {off : Nat}
    (h : ∃ i < maxNoOfRemainingLengthBytes, (buf (off + i)).toNat < 128) :
    decodeRemainingLengthFromBuffer buf off =
      .ok (lengthValue (buf.load off (lookedAt buf maxNoOfRemainingLengthBytes off)),
        lookedAt buf maxNoOfRemainingLengthBytes off) := by
  let n := lookedAt buf maxNoOfRemainingLengthBytes off
  have hfield := (stopsAt_lookedAt h).isLengthField
  have hbuf : buf.load off (buf.load off n).length = buf.load off n := by rw [Memory.length_load]
  have hlength : (buf.load off n).length ≤ maxNoOfRemainingLengthBytes := by
    rw [Memory.length_load]
    exact lookedAt_le buf maxNoOfRemainingLengthBytes off
  rw [decodeRemainingLengthFromBuffer_of_isLengthField hfield hlength hbuf, Memory.length_load]

theorem decodeRemainingLength_of_not_ends {buf : Memory} {off : Nat}
    (h : ¬ ∃ i < maxNoOfRemainingLengthBytes, (buf (off + i)).toNat < 128) :
    decodeRemainingLengthFromBuffer buf off = .error .mqttDecodeRemainingLengthError := by
  apply decodeLenLoop_of_more
  intro i hi
  exact Nat.not_lt.mp fun hlt => h ⟨i, hi, hlt⟩

/-- What the decoder makes of the bytes from `off` on. -/
structure DecodesFrom (buf : Memory) (off : Nat) : Prop where
  accepts_iff : (decodeRemainingLengthFromBuffer buf off).isOk = true ↔
    ∃ i < 4, (buf (off + i)).toNat < 128
  stops : ∀ value n, decodeRemainingLengthFromBuffer buf off = .ok (value, n) →
    StopsAt buf off n ∧ value = lengthValue (buf.load off n)
  /-- No byte behind the one at which it stops is read. -/
  reads : ∀ value n, decodeRemainingLengthFromBuffer buf off = .ok (value, n) →
    (readLength buf maxNoOfRemainingLengthBytes off 1 0).Logs (.ok (value, n))
      ((List.range' off n).map .read)
  fits : ∀ v ∈ decodeLenValues buf maxNoOfRemainingLengthBytes off 1 0, v < 2 ^ 32

theorem decodesFrom (buf : Memory) (off : Nat) : DecodesFrom buf off := by
  by_cases h : ∃ i < maxNoOfRemainingLengthBytes, (buf (off + i)).toNat < 128
  · have hdecode := decodeRemainingLength_of_ends h
    have hreads := logs_readLength buf maxNoOfRemainingLengthBytes off 1 0
    refine ⟨iff_of_true (by rw [hdecode]; rfl) h, ?_, ?_, ?_⟩
    · intro value n hok
      cases hdecode.symm.trans hok
      exact ⟨stopsAt_lookedAt h, rfl⟩
    · intro value n hok
      rw [← decodeRemainingLengthFromBuffer, hok] at hreads
      cases hdecode.symm.trans hok
      exact hreads
    · exact fun v hv => decodeLenValues_lt (k := 0) (Nat.le_refl _) Nat.one_pos hv
  · have herror := decodeRemainingLength_of_not_ends h
    refine ⟨iff_of_false (by rw [herror]; rintro ⟨⟩) h, ?_, ?_, ?_⟩
    · intro value n hok
      cases herror.symm.trans hok
    · intro value n hok
      cases herror.symm.trans hok
    · exact fun v hv => decodeLenValues_lt (k := 0) (Nat.le_refl _) Nat.one_pos hv

/-- What is written is read back, whatever follows it; and of any bytes the decoder
reads those up to the first one without the top bit, if that is among the first four. -/
theorem decodeRemainingLength_spec :
    (∀ n ≤ 268435455, ∀ (buf : Memory) (off : Nat),
      (1 ≤ (writeLenToBuffer n).length ∧ (writeLenToBuffer n).length ≤ 4) ∧
        decodeRemainingLengthFromBuffer (buf.store off (writeLenToBuffer n)) off =
          .ok (n, (writeLenToBuffer n).length)) ∧
      ∀ (buf : Memory) (off : Nat), DecodesFrom buf off := by
  refine ⟨fun n hn buf off => ?_, decodesFrom⟩
  have hlength : (writeLenToBuffer n).length ≤ maxNoOfRemainingLengthBytes :=
    length_writeLenToBuffer_le n 4 (by decide) (Nat.lt_succ_of_le hn)
  have hdecode := decodeRemainingLengthFromBuffer_of_isLengthField
    (isLengthField_writeLenToBuffer n) hlength (Memory.load_store buf off (writeLenToBuffer n))
  rw [lengthValue_writeLenToBuffer (by omega)] at hdecode
  exact ⟨⟨length_writeLenToBuffer_pos n, hlength⟩, hdecode⟩

/-- A length of two bytes between others. -/
theorem decodeRemainingLength_spec_twoBytes :
    decodeRemainingLengthFromBuffer (Memory.store (fun _ => 255) 1 (writeLenToBuffer 321)) 1 =
      .ok (321, 2) :=
  (decodeRemainingLength_spec.1 321 (by decide) (fun _ => 255) 1).2

end MqttClient
