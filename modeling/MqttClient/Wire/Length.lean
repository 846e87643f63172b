import MqttClient.Types
import MqttClient.Wire.Memory

/-! # The remaining-length field

Seven bits a byte, least significant first, with the top bit marking that more
bytes follow.
-/

namespace MqttClient

/-- What fails answers an error code of its own. -/
def ReportsErrors {α : Type} (r : Except IotError α) : Prop :=
  ∀ rc, r = .error rc → rc.isOwnError = true

section ReportsErrors

variable {α β : Type}

theorem reportsErrors_ok (a : α) : ReportsErrors (.ok a) := nofun

theorem reportsErrors_error {rc : IotError} (h : rc.isOwnError = true) :
    ReportsErrors (.error rc : Except IotError α) := by
  intro rc' heq
  cases heq
  exact h

theorem ReportsErrors.bind {r : Except IotError α} {g : α → Except IotError β}
    (hr : ReportsErrors r) (hg : ∀ a, ReportsErrors (g a)) : ReportsErrors (r >>= g) := by
  intro rc heq
  cases r with
  | ok a => exact hg a rc heq
  | error rc' => cases heq; exact hr _ rfl

theorem ReportsErrors.ite {c : Prop} [Decidable c] {r r' : Except IotError α}
    (h : ReportsErrors r) (h' : ReportsErrors r') : ReportsErrors (if c then r else r') := by
  split
  · exact h
  · exact h'

theorem ReportsErrors.ne_success {r : Except IotError α} {rc : IotError} (h : ReportsErrors r)
    (heq : r = .error rc) : rc ≠ .success := by
  rintro rfl
  exact absurd (h _ heq) (by decide)

end ReportsErrors

def maxNoOfRemainingLengthBytes : Nat := 4

/-- The loop of `writeLenToBuffer`; a 32-bit length has at most five digits. -/
def writeLenLoop : Nat → Nat → List UInt8
  | 0, _ => []
  | digits + 1, length =>
      let encodedByte := length % 128
      let length := length / 128
      if length > 0 then UInt8.ofNat (encodedByte ||| 128) :: writeLenLoop digits length
      else [UInt8.ofNat encodedByte]

/-- `aws_iot_mqtt_internal_write_len_to_buffer`: the bytes written. The
argument is a `uint32_t`. -/
def writeLenToBuffer (length : Nat) : List UInt8 := writeLenLoop 5 (length % 2 ^ 32)

/-- The loop of `decodeRemainingLengthFromBuffer`, from the byte at `off` on:
the decoded length and the number of bytes read. -/
def decodeLenLoop (buf : Memory) : Nat → Nat → Nat → Nat → Except IotError (Nat × Nat)
  | 0, _, _, _ => .error .mqttDecodeRemainingLengthError
  | remaining + 1, off, multiplier, decodedLen =>
      let encodedByte := (buf off).toNat
      let decodedLen := (decodedLen + encodedByte % 128 * multiplier) % 2 ^ 32
      if encodedByte < 128 then .ok (decodedLen, maxNoOfRemainingLengthBytes - remaining)
      else decodeLenLoop buf remaining (off + 1) (multiplier * 128 % 2 ^ 32) decodedLen

/-- `aws_iot_mqtt_internal_decode_remaining_length_from_buffer`. -/
def decodeRemainingLengthFromBuffer (buf : Memory) (off : Nat) : Except IotError (Nat × Nat) :=
  decodeLenLoop buf maxNoOfRemainingLengthBytes off 1 0

/-- `aws_iot_mqtt_internal_get_final_packet_length_from_remaining_length`, on
`uint32_t`. -/
def getFinalPacketLengthFromRemainingLength (remLen : Nat) : Nat :=
  let remLen := (remLen + 1) % 2 ^ 32
  if remLen < 128 then (remLen + 1) % 2 ^ 32
  else if remLen < 16384 then (remLen + 2) % 2 ^ 32
  else if remLen < 2097152 then (remLen + 3) % 2 ^ 32
  else (remLen + 4) % 2 ^ 32

/-- A field of `n` digits spells a number below `128 ^ n`. -/
theorem length_writeLenLoop_le (digits length n : Nat) (hn : 0 < n) (h : length < 128 ^ n) :
    (writeLenLoop digits length).length ≤ n := by
  induction digits generalizing length n with
  | zero => simp [writeLenLoop]
  | succ digits ih =>
      simp only [writeLenLoop]
      split
      next hmore =>
        obtain ⟨m, rfl⟩ : ∃ m, n = m + 1 := ⟨n - 1, by omega⟩
        have hm : 0 < m := by
          rcases Nat.eq_zero_or_pos m with rfl | hm
          · rw [Nat.zero_add, Nat.pow_one] at h
            omega
          · exact hm
        have hdiv : length / 128 < 128 ^ m := by
          rw [Nat.div_lt_iff_lt_mul (by decide)]
          simpa only [Nat.pow_succ] using h
        have hrest := ih (length / 128) m hm hdiv
        simp only [List.length_cons]
        omega
      next =>
        simp only [List.length_cons, List.length_nil]
        omega

theorem length_writeLenToBuffer_le (length n : Nat) (hn : 0 < n) (h : length < 128 ^ n) :
    (writeLenToBuffer length).length ≤ n :=
  length_writeLenLoop_le 5 _ n hn (Nat.lt_of_le_of_lt (Nat.mod_le _ _) h)

/-- The field of a 32-bit length. -/
theorem length_writeLenToBuffer_le_five (length : Nat) : (writeLenToBuffer length).length ≤ 5 :=
  length_writeLenLoop_le 5 _ 5 (by decide)
    (Nat.lt_trans (Nat.mod_lt length (by decide)) (by decide))

theorem length_writeLenToBuffer_pos (length : Nat) : 0 < (writeLenToBuffer length).length := by
  simp only [writeLenToBuffer, writeLenLoop]
  split <;> simp

theorem writeLenToBuffer_of_lt {length : Nat} (h : length < 128) :
    writeLenToBuffer length = [UInt8.ofNat length] := by
  have hmod : length % 2 ^ 32 = length := Nat.mod_eq_of_lt (by omega)
  have hdiv : ¬ length / 128 > 0 := by
    rw [Nat.div_eq_of_lt h]
    exact Nat.lt_irrefl 0
  rw [writeLenToBuffer, hmod, writeLenLoop, if_neg hdiv, Nat.mod_eq_of_lt h]

theorem reportsErrors_decodeLenLoop (buf : Memory) (remaining off multiplier decodedLen : Nat) :
    ReportsErrors (decodeLenLoop buf remaining off multiplier decodedLen) := by
  induction remaining generalizing off multiplier decodedLen with
  | zero => exact reportsErrors_error rfl
  | succ remaining ih => exact .ite (reportsErrors_ok _) (ih _ _ _)

/-- A length field that cannot be decoded is always reported in the same way. -/
theorem decodeLenLoop_error {buf : Memory} {remaining off multiplier decodedLen : Nat}
    {rc : IotError} (h : decodeLenLoop buf remaining off multiplier decodedLen = .error rc) :
    rc = .mqttDecodeRemainingLengthError := by
  induction remaining generalizing off multiplier decodedLen with
  | zero =>
      cases h
      rfl
  | succ remaining ih =>
      simp only [decodeLenLoop] at h
      split at h
      · cases h
      · exact ih h

end MqttClient
