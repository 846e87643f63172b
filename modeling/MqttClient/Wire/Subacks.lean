import MqttClient.Wire.Accesses
import MqttClient.Wire.LengthFields

/-! # SUBACK packets in the buffer

Behind its identifier a SUBACK carries a return code for each filter. They are
copied to an array of the caller, who says how many it takes.
-/

namespace MqttClient

structure SubackPacket extends ControlPacket where
  isSuback : headerType header = MessageType.suback.code

theorem headerType_suback : headerType 0x90 = MessageType.suback.code := by decide

/-- The return codes that the body holds behind the identifier. -/
def SubackPacket.codes (p : SubackPacket) : List QoS := p.body.drop 2

def Access.code? : Access → Option QoS
  | .read _ => none
  | .store code => some code

/-- The codes stored, in order. -/
def stored (accesses : List Access) : List QoS := accesses.filterMap Access.code?

@[simp] theorem stored_read (off : Nat) (accesses : List Access) :
    stored (.read off :: accesses) = stored accesses := rfl

@[simp] theorem stored_append (first second : List Access) :
    stored (first ++ second) = stored first ++ stored second := List.filterMap_append

@[simp] theorem stored_reads (offs : List Nat) : stored (offs.map .read) = [] := by
  induction offs with
  | nil => rfl
  | cons off offs ih => exact ih

/-- The codes are stored one after the other, up to one more than there is room for. -/
theorem stored_codeAccesses (buf : Memory)
    (maxExpectedQosCount remaining curData count : Nat) :
    stored (codeAccesses buf maxExpectedQosCount remaining curData count) =
      (buf.load curData remaining).take (maxExpectedQosCount + 1 - count) := by
  induction remaining generalizing curData count with
  | zero => rw [Memory.load_zero, List.take_nil]; rfl
  | succ remaining ih =>
      rw [codeAccesses]
      split
      next hfull =>
        have hnone : maxExpectedQosCount + 1 - count = 0 := by omega
        rw [hnone, List.take_zero]
        rfl
      next hroom =>
        have hsome : maxExpectedQosCount + 1 - count =
            (maxExpectedQosCount + 1 - (count + 1)) + 1 := by omega
        rw [hsome, Memory.load_succ, List.take_succ_cons, ← ih]
        rfl

/-- What the deserializer does with the codes of a SUBACK: no more are stored than the caller
takes, on success the array holds all of them in order, and more are an error. -/
structure StoresCodes (p : SubackPacket) (maxExpectedQosCount : Nat)
    (output : Except IotError UInt16 × List Access) : Prop where
  room : (stored output.2).length ≤ maxExpectedQosCount
  all : ∀ packetId, output.1 = .ok packetId → stored output.2 = p.codes
  excess : maxExpectedQosCount < p.codes.length → ∃ rc, output.1 = .error rc

namespace SubackPacket

variable {p : SubackPacket} {buf : Memory} {rxBufLen : Nat}

theorem load_codes (h : p.IsIn buf rxBufLen) (hbody : 2 ≤ p.body.length) :
    buf.load (1 + p.field.length + 2) (p.body.length - 2) = p.codes := by
  rw [Memory.load_part buf (1 + p.field.length) (n := p.body.length) (by omega),
    h.load_field_body.2, codes, List.take_of_length_le (by rw [List.length_drop])]

/-- A packet in the buffer, with room for an identifier and a code. -/
theorem output_readSuback (maxExpectedQosCount : Nat) (h : p.IsIn buf rxBufLen)
    (hsize : 5 ≤ rxBufLen) :
    ∃ reads, (readSuback buf rxBufLen maxExpectedQosCount).output =
        (subackResult buf maxExpectedQosCount p.body.length (1 + p.field.length), reads) ∧
      stored reads =
        stored (subackAccesses buf maxExpectedQosCount p.body.length (1 + p.field.length)) := by
  have hsame : ¬isOther (some .suback) (buf 0) = true := by
    rw [isOther_some, h.header_eq]
    exact not_not.mpr p.isSuback
  refine ⟨.read 0 :: ((List.range' 1 (fieldSize buf)).map .read ++
    subackAccesses buf maxExpectedQosCount p.body.length (1 + p.field.length)), ?_, ?_⟩
  · rw [(logs_readSuback buf rxBufLen maxExpectedQosCount).output_eq, deserialized, accessed,
      if_neg (Nat.not_lt.mpr hsize), if_neg hsame, if_neg (Nat.not_lt.mpr hsize), if_neg hsame,
      accessedBehind, h.decode_eq]
    rfl
  · rw [stored_read, stored_append, stored_reads, List.nil_append]

theorem length_codes : p.codes.length = p.body.length - 2 := List.length_drop

/-- The codes that are stored: one more than there is room for, if there are so many. -/
theorem stored_readSuback (maxExpectedQosCount : Nat) (h : p.IsIn buf rxBufLen)
    (hsize : 5 ≤ rxBufLen) :
    stored (readSuback buf rxBufLen maxExpectedQosCount).output.2 =
      p.codes.take (maxExpectedQosCount + 1) := by
  obtain ⟨reads, hout, hreads⟩ := output_readSuback maxExpectedQosCount h hsize
  rw [hout, hreads, subackAccesses]
  split
  next hshort =>
    have hnone : p.codes = [] := List.drop_eq_nil_of_le (by omega)
    rw [hnone, List.take_nil]
    rfl
  next hbody =>
    rw [stored_read, stored_read, stored_codeAccesses, load_codes h (by omega), Nat.sub_zero]

/-- The packet is accepted if it has an identifier and at most one code too many. -/
theorem isOk_readSuback (maxExpectedQosCount : Nat) (h : p.IsIn buf rxBufLen)
    (hsize : 5 ≤ rxBufLen) :
    (∃ packetId, (readSuback buf rxBufLen maxExpectedQosCount).output.1 = .ok packetId) ↔
      2 ≤ p.body.length ∧ p.codes.length ≤ maxExpectedQosCount + 1 := by
  obtain ⟨reads, hout, -⟩ := output_readSuback maxExpectedQosCount h hsize
  rw [hout, subackResult, length_codes]
  split
  next hshort => exact iff_of_false (by rintro ⟨_, ⟨⟩⟩) (by omega)
  next hbody =>
    split
    next hdone =>
      have := readGrantedQos_done.mp hdone
      exact iff_of_true ⟨_, rfl⟩ (by omega)
    next hdone =>
      have := mt readGrantedQos_done.mpr hdone
      exact iff_of_false (by rintro ⟨_, ⟨⟩⟩) (by omega)

/-- The deserializer keeps to the array exactly if the packet has no more codes than it takes: the
count is compared before a code is stored, and the code with the number of the maximum passes. -/
theorem storesCodes_iff (maxExpectedQosCount : Nat) (h : p.IsIn buf rxBufLen) :
    StoresCodes p maxExpectedQosCount (readSuback buf rxBufLen maxExpectedQosCount).output ↔
      p.codes.length ≤ maxExpectedQosCount := by
  have hcount := p.length_codes
  by_cases hsize : 5 ≤ rxBufLen
  · have hstored := stored_readSuback maxExpectedQosCount h hsize
    have hok := isOk_readSuback maxExpectedQosCount h hsize
    constructor
    · intro hstores
      have hroom := hstores.room
      rw [hstored, List.length_take] at hroom
      omega
    · intro hfew
      have hall : p.codes.take (maxExpectedQosCount + 1) = p.codes :=
        List.take_of_length_le (Nat.le_succ_of_le hfew)
      rw [hall] at hstored
      refine ⟨by rw [hstored]; exact hfew, fun _ _ => hstored, fun hmany => ?_⟩
      exact absurd hmany (Nat.not_lt.mpr hfew)
  · have hfits := h.fits
    have hfield := length_pos_of_isLengthField p.isField
    rw [p.length_bytes] at hfits
    have hout : (readSuback buf rxBufLen maxExpectedQosCount).output =
        (.error .mqttRxBufferTooShortError, []) := by
      rw [(logs_readSuback buf rxBufLen maxExpectedQosCount).output_eq, deserialized, accessed,
        if_pos (Nat.not_le.mp hsize), if_pos (Nat.not_le.mp hsize)]
    refine iff_of_true ?_ (by omega)
    rw [hout]
    exact ⟨Nat.zero_le _, nofun, fun _ => ⟨_, rfl⟩⟩

/-- A SUBACK with two codes, for a caller who takes one. -/
def twoCodes : SubackPacket where
  header := 0x90
  field := [4]
  body := [0, 1, 0, 1]
  isField := by decide
  field_le := by decide
  length_eq := by decide
  isSuback := headerType_suback

def twoCodesMemory : Memory := fun i => twoCodes.bytes.getD i 0

theorem isIn_twoCodes : twoCodes.IsIn twoCodesMemory 512 := ⟨by decide, by decide⟩

theorem storesCodes_iff_twoCodes :
    StoresCodes twoCodes 1 (readSuback twoCodesMemory 512 1).output ↔ twoCodes.codes.length ≤ 1 :=
  storesCodes_iff 1 isIn_twoCodes

/-- Both codes are stored, and the packet is accepted. -/
theorem not_storesCodes_twoCodes :
    ¬StoresCodes twoCodes 1 (readSuback twoCodesMemory 512 1).output := by
  intro h
  have hstored : stored (readSuback twoCodesMemory 512 1).output.2 = [0, 1] := by decide +kernel
  have hroom := h.room
  rw [hstored] at hroom
  exact absurd hroom (by decide)

end SubackPacket

end MqttClient
