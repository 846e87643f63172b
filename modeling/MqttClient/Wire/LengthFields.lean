import MqttClient.Wire.Length
import Mathlib.Tactic.Ring

/-! # Length fields and the numbers they spell

A field is a list of bytes of which all but the last have the top bit. The
encoder writes the shortest field of a number; the decoder accepts every field
of at most four bytes, padded ones included.
-/

namespace MqttClient

/-- The number that a remaining-length field spells. -/
def lengthValue (field : List UInt8) : Nat :=
  field.foldr (fun b v => b.toNat % 128 + 128 * v) 0

@[simp] theorem lengthValue_nil : lengthValue [] = 0 := rfl

@[simp] theorem lengthValue_cons (b : UInt8) (field : List UInt8) :
    lengthValue (b :: field) = b.toNat % 128 + 128 * lengthValue field := rfl

theorem lengthValue_concat (field : List UInt8) (b : UInt8) :
    lengthValue (field ++ [b]) = lengthValue field + b.toNat % 128 * 128 ^ field.length := by
  induction field with
  | nil => simp
  | cons a field ih =>
      simp only [List.cons_append, lengthValue_cons, List.length_cons, ih]
      ring

theorem lengthValue_lt (field : List UInt8) : lengthValue field < 128 ^ field.length := by
  induction field with
  | nil => simp
  | cons a field ih =>
      have hdigit : a.toNat % 128 < 128 := Nat.mod_lt _ (by decide)
      simp only [lengthValue_cons, List.length_cons, Nat.pow_succ]
      omega

/-- All bytes but the last announce another one. -/
def isLengthField : List UInt8 → Bool
  | [] => false
  | [b] => b.toNat < 128
  | b :: field => 128 ≤ b.toNat && isLengthField field

theorem isLengthField_cons {b : UInt8} {field : List UInt8}
    (h : isLengthField (b :: field) = true) :
    field = [] ∧ b.toNat < 128 ∨ 128 ≤ b.toNat ∧ isLengthField field = true := by
  cases field with
  | nil => exact .inl ⟨rfl, of_decide_eq_true h⟩
  | cons b' field =>
      rw [isLengthField, Bool.and_eq_true, decide_eq_true_eq] at h
      · exact .inr h
      · exact nofun

theorem length_pos_of_isLengthField {field : List UInt8} (h : isLengthField field = true) :
    0 < field.length := by
  cases field with
  | nil => cases h
  | cons b field => exact Nat.succ_pos _

theorem ofNat_or_128 {digit : Nat} (h : digit < 128) :
    (UInt8.ofNat (digit ||| 128)).toNat = digit + 128 := by
  have hor : digit ||| 128 = digit + 128 := by
    rw [Nat.or_comm]
    exact (Nat.two_pow_add_eq_or_of_lt (i := 7) h 1).symm.trans (Nat.add_comm _ _)
  rw [hor, UInt8.toNat_ofNat', Nat.mod_eq_of_lt (by omega)]

/-! ## Writing a field -/

theorem writeLenLoop_spec (digits length : Nat) (h : length < 128 ^ (digits + 1)) :
    isLengthField (writeLenLoop (digits + 1) length) = true ∧
      lengthValue (writeLenLoop (digits + 1) length) = length := by
  induction digits generalizing length with
  | zero =>
      have hdiv : ¬ length / 128 > 0 := by omega
      have hlast : (UInt8.ofNat (length % 128)).toNat = length := by
        rw [UInt8.toNat_ofNat']
        omega
      rw [writeLenLoop, if_neg hdiv]
      refine ⟨?_, ?_⟩
      · rw [isLengthField, hlast, decide_eq_true_eq]
        omega
      · rw [lengthValue_cons, hlast, lengthValue_nil]
        omega
  | succ digits ih =>
      -- by whether a higher digit is left
      rw [writeLenLoop]
      split
      next hmore =>
        have hdiv : length / 128 < 128 ^ (digits + 1) := by
          rw [Nat.div_lt_iff_lt_mul (by decide)]
          simpa only [Nat.pow_succ] using h
        obtain ⟨hfield, hvalue⟩ := ih (length / 128) hdiv
        have hbyte := ofNat_or_128 (Nat.mod_lt length (by decide : 0 < 128))
        refine ⟨?_, ?_⟩
        · cases hrest : writeLenLoop (digits + 1) (length / 128) with
          | nil =>
              rw [hrest] at hfield
              cases hfield
          | cons b rest =>
              rw [isLengthField, ← hrest, hfield, hbyte, Bool.and_true, decide_eq_true_eq]
              · omega
              · simp
        · rw [lengthValue_cons, hvalue, hbyte]
          omega
      next hlast =>
        have hbyte : (UInt8.ofNat (length % 128)).toNat = length := by
          rw [UInt8.toNat_ofNat']
          omega
        refine ⟨?_, ?_⟩
        · rw [isLengthField, hbyte, decide_eq_true_eq]
          omega
        · rw [lengthValue_cons, hbyte, lengthValue_nil]
          omega

theorem isLengthField_writeLenToBuffer (length : Nat) :
    isLengthField (writeLenToBuffer length) = true :=
  (writeLenLoop_spec 4 _ (Nat.lt_trans (Nat.mod_lt length (by decide)) (by decide))).1

theorem lengthValue_writeLenToBuffer {length : Nat} (h : length < 2 ^ 32) :
    lengthValue (writeLenToBuffer length) = length := by
  have hspec := writeLenLoop_spec 4 (length % 2 ^ 32)
    (Nat.lt_trans (Nat.mod_lt length (by decide)) (by decide))
  rw [writeLenToBuffer, hspec.2, Nat.mod_eq_of_lt h]

/-! ## Reading a field -/

/-- A field that lies in the buffer is decoded, in the arithmetic of `uint32_t`. -/
theorem decodeLenLoop_of_isLengthField {buf : Memory} {field : List UInt8} {remaining off : Nat}
    (multiplier decodedLen : Nat) (hfield : isLengthField field = true)
    (hlength : field.length ≤ remaining) (hbuf : buf.load off field.length = field) :
    decodeLenLoop buf remaining off multiplier decodedLen =
      .ok ((decodedLen + lengthValue field * multiplier) % 2 ^ 32,
        maxNoOfRemainingLengthBytes - (remaining - field.length)) := by
  induction field generalizing remaining off multiplier decodedLen with
  | nil => cases hfield
  | cons b field ih =>
      obtain ⟨rest, rfl⟩ : ∃ rest, remaining = rest + 1 :=
        ⟨remaining - 1, by simp only [List.length_cons] at hlength; omega⟩
      rw [List.length_cons, Memory.load_succ] at hbuf
      obtain ⟨hb, hrest⟩ := List.cons.inj hbuf
      simp only [decodeLenLoop, hb]
      rcases isLengthField_cons hfield with ⟨rfl, hlast⟩ | ⟨hmore, hfield⟩
      · simp [hlast]
      · have hvalue :
          ∀ m d v : Nat, ((d + b.toNat % 128 * m) % 2 ^ 32 + v * (m * 128 % 2 ^ 32)) % 2 ^ 32 =
            (d + (b.toNat % 128 + 128 * v) * m) % 2 ^ 32 := by
          intro m d v
          have hsum : d + (b.toNat % 128 + 128 * v) * m = d + b.toNat % 128 * m + v * (m * 128) :=
            by
            ring
          rw [hsum, Nat.mod_add_mod, Nat.add_mod, Nat.mul_mod_mod, ← Nat.add_mod]
        rw [if_neg (Nat.not_lt.mpr hmore), ih _ _ hfield (Nat.le_of_succ_le_succ hlength) hrest,
          hvalue, lengthValue_cons, List.length_cons, Nat.add_sub_add_right]

/-- A field of at most four bytes is decoded to the number it spells. -/
theorem decodeRemainingLengthFromBuffer_of_isLengthField {buf : Memory} {field : List UInt8}
    {off : Nat} (hfield : isLengthField field = true)
    (hlength : field.length ≤ maxNoOfRemainingLengthBytes)
    (hbuf : buf.load off field.length = field) :
    decodeRemainingLengthFromBuffer buf off = .ok (lengthValue field, field.length) := by
  have hvalue : lengthValue field < 2 ^ 32 := by
    refine Nat.lt_of_lt_of_le (lengthValue_lt field) ?_
    exact Nat.le_trans (Nat.pow_le_pow_right (by decide) hlength) (by decide)
  rw [decodeRemainingLengthFromBuffer, decodeLenLoop_of_isLengthField 1 0 hfield hlength hbuf,
    Nat.mul_one, Nat.zero_add, Nat.mod_eq_of_lt hvalue, Nat.sub_sub_self hlength]

/-- Without an end among the bytes it may read, the decoder fails. -/
theorem decodeLenLoop_of_more {buf : Memory} {remaining off : Nat} (multiplier decodedLen : Nat)
    (h : ∀ i < remaining, 128 ≤ (buf (off + i)).toNat) :
    decodeLenLoop buf remaining off multiplier decodedLen =
      .error .mqttDecodeRemainingLengthError := by
  induction remaining generalizing off multiplier decodedLen with
  | zero => rfl
  | succ remaining ih =>
      have hmore := h 0 (Nat.succ_pos _)
      rw [Nat.add_zero] at hmore
      simp only [decodeLenLoop, if_neg (Nat.not_lt.mpr hmore)]
      apply ih
      intro i hi
      have := h (i + 1) (Nat.succ_lt_succ hi)
      rwa [Nat.add_comm i 1, ← Nat.add_assoc] at this

/-- The first byte of a stream without the top bit ends a field. -/
theorem isLengthField_load {buf : Memory} {off n : Nat}
    (hmore : ∀ i < n, 128 ≤ (buf (off + i)).toNat)
    (hlast : (buf (off + n)).toNat < 128) : isLengthField (buf.load off (n + 1)) = true := by
  induction n generalizing off with
  | zero => exact decide_eq_true hlast
  | succ n ih =>
      have hfirst := hmore 0 (Nat.succ_pos _)
      have hrest : isLengthField (buf.load (off + 1) (n + 1)) = true := by
        apply ih
        · intro i hi
          have := hmore (i + 1) (Nat.succ_lt_succ hi)
          rwa [Nat.add_comm i 1, ← Nat.add_assoc] at this
        · rwa [Nat.add_assoc, Nat.add_comm 1 n]
      rw [Memory.load_succ, Memory.load_succ, isLengthField, ← Memory.load_succ, hrest,
        Bool.and_true, decide_eq_true_eq]
      · exact hfirst
      · exact nofun

/-! ## Packets on the wire -/

/-- A packet whose length field announces just its body. -/
structure ControlPacket where
  header : UInt8
  field : List UInt8
  body : List UInt8
  isField : isLengthField field = true
  field_le : field.length ≤ maxNoOfRemainingLengthBytes
  length_eq : lengthValue field = body.length

namespace ControlPacket

variable (p : ControlPacket)

def bytes : List UInt8 := p.header :: (p.field ++ p.body)

/-- The packet with the shortest length field. -/
def canonical : List UInt8 := p.header :: (writeLenToBuffer p.body.length ++ p.body)

theorem length_bytes : p.bytes.length = 1 + (p.field.length + p.body.length) := by
  simp only [bytes, List.length_cons, List.length_append]
  omega

theorem length_body_lt : p.body.length < 2 ^ 28 := by
  rw [← p.length_eq]
  refine Nat.lt_of_lt_of_le (lengthValue_lt p.field) ?_
  exact Nat.le_trans (Nat.pow_le_pow_right (by decide) p.field_le) (by decide)

/-- A packet in memory, piece by piece. -/
theorem load_bytes {buf : Memory} {off : Nat} (h : buf.load off p.bytes.length = p.bytes) :
    buf off = p.header ∧ buf.load (off + 1) p.field.length = p.field ∧
      buf.load (off + 1 + p.field.length) p.body.length = p.body := by
  rw [length_bytes, Nat.add_comm, Memory.load_succ, bytes, Memory.load_add] at h
  obtain ⟨hheader, hrest⟩ := List.cons.inj h
  exact ⟨hheader, List.append_inj hrest (Memory.length_load _ _ _)⟩

/-- The packet lies at the start of a buffer. -/
structure IsIn (buf : Memory) (rxBufLen : Nat) : Prop where
  fits : p.bytes.length ≤ rxBufLen
  load_eq : buf.load 0 p.bytes.length = p.bytes

namespace IsIn

variable {p} {buf : Memory} {rxBufLen : Nat}

theorem header_eq (h : p.IsIn buf rxBufLen) : buf 0 = p.header := (p.load_bytes h.load_eq).1

theorem load_field_body (h : p.IsIn buf rxBufLen) :
    buf.load 1 p.field.length = p.field ∧
      buf.load (1 + p.field.length) p.body.length = p.body := (p.load_bytes h.load_eq).2

theorem body_eq {i : Nat} (h : p.IsIn buf rxBufLen) (hi : i < p.body.length) :
    buf (1 + p.field.length + i) = p.body.getD i 0 := by
  rw [← h.load_field_body.2, Memory.getD_load _ _ hi]

theorem decode_eq (h : p.IsIn buf rxBufLen) :
    decodeRemainingLengthFromBuffer buf 1 = .ok (p.body.length, p.field.length) := by
  rw [decodeRemainingLengthFromBuffer_of_isLengthField p.isField p.field_le h.load_field_body.1,
    p.length_eq]

end IsIn

end ControlPacket

end MqttClient
