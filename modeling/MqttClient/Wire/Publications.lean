import MqttClient.Wire.Deserialize
import MqttClient.Wire.Identifiers
import MqttClient.Wire.LengthFields

/-! # PUBLISH packets in the buffer

What `deserializePublish` finds in a packet that has arrived whole. The topic
is compared with the end of the packet; the identifier behind it is not.
-/

namespace MqttClient

structure PublishPacket extends ControlPacket where
  isPublish : headerType header = MessageType.publish.code

namespace PublishPacket

variable (p : PublishPacket)

/-- The topic length at the start of the body. -/
def topicNameLen : UInt16 :=
  UInt16.ofNat ((p.body.getD 1 0).toNat + 256 * (p.body.getD 0 0).toNat)

/-- The size of the identifier: only messages above QoS 0 have one. -/
def packetIdSize : Nat := if headerQos p.header ≠ qos0 then 2 else 0

def topicName : List UInt8 := (p.body.drop 2).take p.topicNameLen.toNat

/-- Only messages above QoS 0 have an identifier. -/
def packetId : Option UInt16 :=
  if headerQos p.header ≠ qos0 then leadingUint16 (p.body.drop (2 + p.topicNameLen.toNat)) else none

def payload : List UInt8 := p.body.drop (2 + p.topicNameLen.toNat + p.packetIdSize)

/-- The body holds the topic length, the topic, and the identifier if there is one. -/
def HoldsFields : Prop :=
  2 ≤ p.body.length ∧ 2 + p.topicNameLen.toNat + p.packetIdSize ≤ p.body.length

/-- Topic, identifier and payload lie inside the packet, and the payload is what
the other fields leave of the body. -/
structure Encloses (f : PublishFields) : Prop where
  topicOff : 1 + p.field.length + 2 ≤ f.topicOff
  topic : f.topicOff + f.topicNameLen.toNat ≤ p.bytes.length
  packetId : f.packetId.isSome → f.topicOff + f.topicNameLen.toNat + 2 ≤ p.bytes.length
  payloadOff : f.topicOff + f.topicNameLen.toNat + p.packetIdSize ≤ f.payloadOff
  payload : f.payloadOff + f.payloadLen ≤ p.bytes.length
  payloadLen : f.payloadLen + (2 + f.topicNameLen.toNat + p.packetIdSize) = p.body.length

/-- `deserializePublish` accepts the packet exactly if its body holds the
fields, and finds them inside it. -/
structure TakenApart (buf : Memory) (rxBufLen : Nat) : Prop where
  accepted : (∃ f, deserializePublish buf rxBufLen = .ok f) ↔ p.HoldsFields
  inside : ∀ f, deserializePublish buf rxBufLen = .ok f → p.Encloses f

/-- The packet does not end between the topic and the end of its identifier. -/
def NotCutShort : Prop :=
  headerQos p.header = qos0 ∨ p.body.length < 2 ∨ p.body.length < 2 + p.topicNameLen.toNat ∨
    2 + p.topicNameLen.toNat + 2 ≤ p.body.length

variable {p}

theorem readUint16_of_isIn {buf : Memory} {rxBufLen : Nat} (h : p.IsIn buf rxBufLen)
    (hbody : 2 ≤ p.body.length) : readUint16 buf (1 + p.field.length) = p.topicNameLen := by
  have hhigh := h.body_eq (i := 0) (by omega)
  have hlow := h.body_eq (i := 1) (by omega)
  rw [readUint16, topicNameLen, ← hhigh, ← hlow]
  rfl

variable (p) in
/-- What is found in a packet that holds its topic. -/
def found (buf : Memory) : PublishFields :=
  let topicEnd := 1 + p.field.length + 2 + p.topicNameLen.toNat
  { dup := headerDup p.header
    qos := headerQos p.header
    retained := headerRetain p.header
    packetId := if headerQos p.header ≠ qos0 then some (readUint16 buf topicEnd) else none
    topicOff := 1 + p.field.length + 2
    topicNameLen := p.topicNameLen
    payloadOff := if headerQos p.header ≠ qos0 then topicEnd + 2 else topicEnd
    payloadLen := (1 + p.field.length + p.body.length + 2 ^ 64 -
      if headerQos p.header ≠ qos0 then topicEnd + 2 else topicEnd) % 2 ^ 64 }

/-- Only the topic is compared with the end of the packet. -/
theorem deserializePublish_eq {buf : Memory} {rxBufLen : Nat} (h : p.IsIn buf rxBufLen)
    (hbody : 2 ≤ p.body.length) :
    deserializePublish buf rxBufLen =
      if p.body.length < 2 + p.topicNameLen.toNat then .error .failure else .ok (p.found buf) := by
  have hfits := h.fits
  have hfield := length_pos_of_isLengthField p.isField
  rw [p.length_bytes] at hfits
  have hsize : ¬ 4 > rxBufLen := by omega
  have hend : ¬ 1 + p.field.length + p.body.length ≤ 1 + p.field.length + 1 := by omega
  have htopic : 1 + p.field.length + p.body.length < 1 + p.field.length + 2 + p.topicNameLen.toNat ↔
      p.body.length < 2 + p.topicNameLen.toNat := by omega
  rw [deserializePublish, if_neg hsize, h.header_eq, if_neg (not_not.mpr p.isPublish), h.decode_eq]
  dsimp only [Bind.bind, Except.bind]
  rw [if_neg hend, readUint16_of_isIn h hbody, if_congr htopic rfl rfl]
  rfl

theorem deserializePublish_of_short {buf : Memory} {rxBufLen : Nat} (h : p.IsIn buf rxBufLen)
    (hbody : p.body.length < 2) : ∃ rc, deserializePublish buf rxBufLen = .error rc := by
  have hend : 1 + p.field.length + p.body.length ≤ 1 + p.field.length + 1 := by omega
  by_cases hsize : 4 > rxBufLen
  · exact ⟨_, if_pos hsize⟩
  · refine ⟨.failure, ?_⟩
    rw [deserializePublish, if_neg hsize, h.header_eq, if_neg
      (not_not.mpr p.isPublish), h.decode_eq]
    dsimp only [Bind.bind, Except.bind]
    rw [if_pos hend]

theorem packetIdSize_le : p.packetIdSize ≤ 2 := by
  rw [packetIdSize]
  split <;> decide

theorem found_payloadOff (buf : Memory) :
    (p.found buf).payloadOff =
      1 + p.field.length + 2 + p.topicNameLen.toNat + p.packetIdSize := by
  simp only [found, packetIdSize]
  split <;> rfl

/-- The payload's length, where the two pointers are in order. -/
theorem found_payloadLen (buf : Memory)
    (h : 2 + p.topicNameLen.toNat + p.packetIdSize ≤ p.body.length) :
    (p.found buf).payloadLen =
      p.body.length - (2 + p.topicNameLen.toNat + p.packetIdSize) := by
  have hbody := p.length_body_lt
  have hlen : (p.found buf).payloadLen =
      (1 + p.field.length + p.body.length + 2 ^ 64 - (p.found buf).payloadOff) % 2 ^ 64 := rfl
  rw [hlen, found_payloadOff]
  omega

theorem encloses_found (buf : Memory)
    (h : 2 + p.topicNameLen.toNat + p.packetIdSize ≤ p.body.length) : p.Encloses (p.found buf) := by
  have hlen := p.found_payloadLen buf h
  have hoff := p.found_payloadOff buf
  have htopicOff : (p.found buf).topicOff = 1 + p.field.length + 2 := rfl
  have htopic : (p.found buf).topicNameLen = p.topicNameLen := rfl
  refine ⟨Nat.le_refl _, ?_, ?_, ?_, ?_, ?_⟩
  · rw [htopicOff, htopic, p.length_bytes]
    omega
  · intro hsome
    have hsize : p.packetIdSize = 2 := by
      rw [packetIdSize, if_pos]
      intro hqos
      simp [found, hqos] at hsome
    rw [htopicOff, htopic, p.length_bytes]
    omega
  · rw [htopicOff, htopic, hoff]
  · rw [hoff, hlen, p.length_bytes]
    omega
  · rw [htopic, hlen]
    omega

/-! ## The fields of a whole packet -/

theorem load_body {buf : Memory} {rxBufLen : Nat} (h : p.IsIn buf rxBufLen) {off len : Nat}
    (hin : off + len ≤ p.body.length) :
    buf.load (1 + p.field.length + off) len = (p.body.drop off).take len := by
  rw [Memory.load_part _ _ hin, h.load_field_body.2]

theorem leadingUint16_load (buf : Memory) (off rest : Nat) :
    leadingUint16 (buf.load off (rest + 2)) = some (readUint16 buf off) := by
  rw [Memory.load_succ, Memory.load_succ]
  rfl

theorem load_topicName {buf : Memory} {rxBufLen : Nat} (h : p.IsIn buf rxBufLen)
    (hholds : p.HoldsFields) :
    buf.load (p.found buf).topicOff (p.found buf).topicNameLen.toNat = p.topicName := by
  have hbody := hholds.2
  have hlen : (p.found buf).topicNameLen = p.topicNameLen := rfl
  exact load_body h (by rw [hlen]; omega)

theorem load_payload {buf : Memory} {rxBufLen : Nat} (h : p.IsIn buf rxBufLen)
    (hholds : p.HoldsFields) :
    buf.load (p.found buf).payloadOff (p.found buf).payloadLen = p.payload := by
  have hbody := hholds.2
  have hoff : (p.found buf).payloadOff =
      1 + p.field.length + (2 + p.topicNameLen.toNat + p.packetIdSize) := by
    rw [found_payloadOff]
    omega
  rw [hoff, found_payloadLen buf hbody, load_body h (by omega), payload]
  exact List.take_of_length_le (by rw [List.length_drop])

theorem packetId_found {buf : Memory} {rxBufLen : Nat} (h : p.IsIn buf rxBufLen)
    (hholds : p.HoldsFields) : (p.found buf).packetId = p.packetId := by
  have hbody := hholds.2
  simp only [found, packetId]
  split
  next hqos =>
    rw [packetIdSize, if_pos hqos] at hbody
    obtain ⟨rest, hrest⟩ : ∃ rest, p.body.length = 2 + p.topicNameLen.toNat + (rest + 2) :=
      ⟨p.body.length - (2 + p.topicNameLen.toNat + 2), by omega⟩
    have hload : buf.load (1 + p.field.length + (2 + p.topicNameLen.toNat)) (rest + 2) =
        p.body.drop (2 + p.topicNameLen.toNat) := by
      rw [load_body h (Nat.le_of_eq hrest.symm), List.take_of_length_le]
      rw [List.length_drop]
      omega
    rw [← hload, leadingUint16_load, Nat.add_assoc _ 2]
  next => rfl

theorem deserializePublish_of_holdsFields {buf : Memory} {rxBufLen : Nat}
    (h : p.IsIn buf rxBufLen) (hholds : p.HoldsFields) :
    deserializePublish buf rxBufLen = .ok (p.found buf) := by
  rw [deserializePublish_eq h hholds.1, if_neg]
  have := hholds.2
  omega

theorem exists_packetId (hqos : headerQos p.header ≠ qos0) (hholds : p.HoldsFields) :
    ∃ id, p.packetId = some id := by
  have hbody := hholds.2
  rw [packetIdSize, if_pos hqos] at hbody
  rw [packetId, if_pos hqos, ← Option.isSome_iff_exists]
  apply leadingUint16_isSome
  rw [List.length_drop]
  omega

/-- A packet that is not accepted for want of its topic cannot hold its fields either. -/
theorem takenApart_of_error {buf : Memory} {rxBufLen : Nat} {rc : IotError}
    (heq : deserializePublish buf rxBufLen = .error rc) (hshort : ¬ p.HoldsFields) :
    p.TakenApart buf rxBufLen := by
  refine ⟨iff_of_false ?_ hshort, fun f hf => ?_⟩
  · rintro ⟨f, hf⟩
    cases heq.symm.trans hf
  · cases heq.symm.trans hf

theorem takenApart_of_notCutShort {buf : Memory} {rxBufLen : Nat} (h : p.IsIn buf rxBufLen)
    (hwhole : p.NotCutShort) : p.TakenApart buf rxBufLen := by
  by_cases hbody : p.body.length < 2
  · -- not even the length of the topic is there
    obtain ⟨rc, herror⟩ := deserializePublish_of_short h hbody
    exact takenApart_of_error herror fun hholds => Nat.not_le.mpr hbody hholds.1
  have heq := deserializePublish_eq h (Nat.not_lt.mp hbody)
  by_cases htopic : p.body.length < 2 + p.topicNameLen.toNat
  · rw [if_pos htopic] at heq
    apply takenApart_of_error heq
    intro hholds
    have := hholds.2
    omega
  · rw [if_neg htopic] at heq
    have hfields : 2 + p.topicNameLen.toNat + p.packetIdSize ≤ p.body.length := by
      rcases hwhole with hqos | hshort | hshort | hlong
      · rw [packetIdSize, if_neg (not_not.mpr hqos)]
        omega
      · omega
      · omega
      · have := p.packetIdSize_le
        omega
    refine ⟨iff_of_true ⟨_, heq⟩ ⟨Nat.not_lt.mp hbody, hfields⟩, fun f hf => ?_⟩
    rw [heq] at hf
    cases hf
    exact encloses_found buf hfields

/-- What is accepted has to hold all the fields. -/
theorem notCutShort_of_takenApart {buf : Memory} {rxBufLen : Nat} (h : p.IsIn buf rxBufLen)
    (htaken : p.TakenApart buf rxBufLen) : p.NotCutShort := by
  by_cases hbody : p.body.length < 2
  · exact .inr (.inl hbody)
  have heq := deserializePublish_eq h (Nat.not_lt.mp hbody)
  by_cases htopic : p.body.length < 2 + p.topicNameLen.toNat
  · exact .inr (.inr (.inl htopic))
  · rw [if_neg htopic] at heq
    have hholds := htaken.accepted.mp ⟨_, heq⟩
    by_cases hqos : headerQos p.header = qos0
    · exact .inl hqos
    · have hsize : p.packetIdSize = 2 := if_pos hqos
      exact .inr (.inr (.inr (hsize ▸ hholds.2)))

/-- A complete packet is taken apart as it should be exactly if it does not end
between its topic and the end of its identifier. -/
theorem takenApart_iff {buf : Memory} {rxBufLen : Nat} (h : p.IsIn buf rxBufLen) :
    p.TakenApart buf rxBufLen ↔ p.NotCutShort :=
  ⟨notCutShort_of_takenApart h, takenApart_of_notCutShort h⟩

end PublishPacket

/-- A PUBLISH with QoS 1 and the given body on the topic `a`. -/
def qos1Publish (body : List UInt8) (hlength : body.length < 128) : PublishPacket where
  header := 0x32
  field := writeLenToBuffer body.length
  body := body
  isPublish := by decide
  isField := isLengthField_writeLenToBuffer _
  field_le := length_writeLenToBuffer_le _ 4 (by decide) (by omega)
  length_eq := lengthValue_writeLenToBuffer (by omega)

def bufferOf (p : PublishPacket) : Memory := fun i => p.bytes.getD i 0

/-- A message with topic, identifier and payload. -/
def wholePublish : PublishPacket := qos1Publish [0, 1, 97, 0, 7, 33] (by decide)

/-- The body ends with the topic. -/
def cutShortPublish : PublishPacket := qos1Publish [0, 1, 97] (by decide)

theorem isIn_bufferOf :
    wholePublish.IsIn (bufferOf wholePublish) 512 ∧
      cutShortPublish.IsIn (bufferOf cutShortPublish) 512 :=
  ⟨⟨by decide, by decide⟩, ⟨by decide, by decide⟩⟩

theorem takenApart_wholePublish : wholePublish.TakenApart (bufferOf wholePublish) 512 :=
  (PublishPacket.takenApart_iff isIn_bufferOf.1).mpr (.inr (.inr (.inr (by decide))))

/-- It is accepted, with an identifier and a payload that begin behind its end. -/
theorem not_takenApart_cutShortPublish :
    ¬ cutShortPublish.TakenApart (bufferOf cutShortPublish) 512 := by
  intro h
  rcases PublishPacket.notCutShort_of_takenApart isIn_bufferOf.2 h with hqos | hbody | htopic | hid
  · exact absurd hqos (by decide)
  · exact absurd hbody (by decide)
  · exact absurd htopic (by decide)
  · exact absurd hid (by decide)

end MqttClient
