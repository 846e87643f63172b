import MqttClient.Effect.Logging
import MqttClient.Wire.Deserialize

/-! # The deserializers, access by access

A deserializer is handed the start of the receive buffer and its length, and
reads through a pointer. Here it is recorded which bytes are read, and which
codes are stored in the caller's array, also on the way to an error.
-/

namespace MqttClient

open Effect Logging

inductive Access where
  | read (off : Nat)
  | store (code : QoS)
  deriving DecidableEq

abbrev Deserializer := Logging Access IotError

/-- `aws_iot_mqtt_internal_read_char`. -/
def readChar (buf : Memory) (off : Nat) : Deserializer UInt8 := do
  log [.read off]
  return buf off

/-- `aws_iot_mqtt_internal_read_uint16_t`. -/
def readTwo (buf : Memory) (off : Nat) : Deserializer UInt16 := do
  log [.read off, .read (off + 1)]
  return readUint16 buf off

/-- The loop of `decodeRemainingLengthFromBuffer`. -/
def readLength (buf : Memory) : Nat → Nat → Nat → Nat → Deserializer (Nat × Nat)
  | 0, _, _, _ => throw .mqttDecodeRemainingLengthError
  | remaining + 1, off, multiplier, decodedLen => do
      let encodedByte ← readChar buf off
      let decodedLen := (decodedLen + encodedByte.toNat % 128 * multiplier) % 2 ^ 32
      if encodedByte.toNat < 128 then return (decodedLen, maxNoOfRemainingLengthBytes - remaining)
      else readLength buf remaining (off + 1) (multiplier * 128 % 2 ^ 32) decodedLen

/-- How all deserializers begin: the least length of the buffer, the header, and the length field.
`body` goes on with the header, the length decoded and the position behind the length field. -/
def deserializing {α : Type} (minimum : Nat) (packetType : Option MessageType) (buf : Memory)
    (rxBufLen : Nat) (body : UInt8 → Nat → Nat → Deserializer α) : Deserializer α :=
  if minimum > rxBufLen then throw .mqttRxBufferTooShortError
  else do
    let header ← readChar buf 0
    if packetType.any (headerType header ≠ ·.code) then throw .failure
    else do
      let (decodedLen, readBytesLen) ← readLength buf maxNoOfRemainingLengthBytes 1 1 0
      body header decodedLen (1 + readBytesLen)

/-- `_aws_iot_mqtt_deserialize_connack`. -/
def readConnack (buf : Memory) (rxBufLen : Nat) : Deserializer (UInt8 × IotError) :=
  deserializing 4 (some .connack) buf rxBufLen fun _ decodedLen curData =>
    if decodedLen ≠ 2 then throw .mqttDecodeRemainingLengthError
    else do
      let flags ← readChar buf curData
      let connackRcChar ← readChar buf (curData + 1)
      let connackRc : IotError := match connackRcChar.toNat with
        | 0 => .mqttConnackConnectionAccepted
        | 1 => .mqttConnackUnacceptableProtocolVersionError
        | 2 => .mqttConnackIdentifierRejectedError
        | 3 => .mqttConnackServerUnavailableError
        | 4 => .mqttConnackBadUserdataError
        | 5 => .mqttConnackNotAuthorizedError
        | _ => .mqttConnackUnknownError
      return (flags / 128, connackRc)

/-- `aws_iot_mqtt_internal_deserialize_ack`. -/
def readAck (buf : Memory) (rxBufLen : Nat) : Deserializer (UInt8 × UInt8 × UInt16) :=
  deserializing 4 none buf rxBufLen fun header decodedLen curData =>
    if decodedLen < 2 then throw .failure
    else do
      let packetId ← readTwo buf curData
      return (headerType header, headerDup header, packetId)

/-- `aws_iot_mqtt_internal_deserialize_publish`. -/
def readPublish (buf : Memory) (rxBufLen : Nat) : Deserializer PublishFields :=
  deserializing 4 (some .publish) buf rxBufLen fun header decodedLen curData =>
    let endData := curData + decodedLen
    if endData ≤ curData + 1 then throw .failure
    else do
      let topicNameLen ← readTwo buf curData
      let topicOff := curData + 2
      if endData < topicOff + topicNameLen.toNat then throw .failure
      else do
        let qos := headerQos header
        let curData := topicOff + topicNameLen.toNat
        let fields (packetId : Option UInt16) (payloadOff : Nat) : PublishFields :=
          ⟨headerDup header, qos, headerRetain header, packetId, topicOff, topicNameLen, payloadOff,
            (endData + 2 ^ 64 - payloadOff) % 2 ^ 64⟩
        if qos ≠ qos0 then do
          let packetId ← readTwo buf curData
          return fields (some packetId) (curData + 2)
        else return fields none curData

/-- The loop of `deserializeSuback` over the return codes. -/
def readCodes (buf : Memory) (maxExpectedQosCount : Nat) : Nat → Nat → Nat → Deserializer Unit
  | 0, _, _ => return ()
  | remaining + 1, curData, count =>
      if count > maxExpectedQosCount then throw .failure
      else do
        let code ← readChar buf curData
        log [.store code]
        readCodes buf maxExpectedQosCount remaining (curData + 1) (count + 1)

/-- `_aws_iot_mqtt_deserialize_suback`. -/
def readSuback (buf : Memory) (rxBufLen maxExpectedQosCount : Nat) : Deserializer UInt16 :=
  deserializing 5 (some .suback) buf rxBufLen fun _ decodedLen curData =>
    if decodedLen < 2 then throw .failure
    else do
      let packetId ← readTwo buf curData
      readCodes buf maxExpectedQosCount (decodedLen - 2) (curData + 2) 0
      return packetId

/-! ## What is read -/

theorem logs_readChar (buf : Memory) (off : Nat) :
    (readChar buf off).Logs (.ok (buf off)) [.read off] := (logs_log _).bind (logs_pure _)

theorem logs_readTwo (buf : Memory) (off : Nat) :
    (readTwo buf off).Logs (.ok (readUint16 buf off)) [.read off, .read (off + 1)] :=
  (logs_log _).bind (logs_pure _)

/-- The bytes from `off` on that are looked at for a length field of at most `remaining` bytes. -/
def lookedAt (buf : Memory) : Nat → Nat → Nat
  | 0, _ => 0
  | remaining + 1, off =>
      if (buf off).toNat < 128 then 1 else lookedAt buf remaining (off + 1) + 1

/-- The bytes behind the header that are looked at for the length field: one to four. -/
def fieldSize (buf : Memory) : Nat := lookedAt buf maxNoOfRemainingLengthBytes 1

/-- The remaining length, if four bytes spell one. -/
def announced (buf : Memory) : Option Nat :=
  (decodeRemainingLengthFromBuffer buf 1).toOption.map (·.1)

theorem logs_readLength (buf : Memory) (remaining off multiplier decodedLen : Nat) :
    (readLength buf remaining off multiplier decodedLen).Logs
      (decodeLenLoop buf remaining off multiplier decodedLen)
      ((List.range' off (lookedAt buf remaining off)).map .read) := by
  induction remaining generalizing off multiplier decodedLen with
  | zero => exact logs_throw _
  | succ remaining ih =>
      rw [readLength, decodeLenLoop, lookedAt]
      by_cases hlast : (buf off).toNat < 128
      · simp only [hlast, if_true]
        exact (logs_readChar buf off).bind (by rw [if_pos hlast]; exact logs_pure _)
      · simp only [hlast, if_false]
        rw [List.range'_succ, List.map_cons]
        exact (logs_readChar buf off).bind (by rw [if_neg hlast]; exact ih _ _ _)

theorem decodeLenLoop_size {buf : Memory} {remaining off multiplier decodedLen d n : Nat}
    (hremaining : remaining ≤ maxNoOfRemainingLengthBytes)
    (h : decodeLenLoop buf remaining off multiplier decodedLen = .ok (d, n)) :
    n = maxNoOfRemainingLengthBytes - remaining + lookedAt buf remaining off := by
  induction remaining generalizing off multiplier decodedLen with
  | zero => cases h
  | succ remaining ih =>
      rw [decodeLenLoop] at h
      rw [lookedAt]
      split at h
      next hlast =>
        cases h
        rw [if_pos hlast]
        omega
      next hmore =>
        rw [if_neg hmore, ih (by omega) h]
        omega

theorem decodeRemainingLength_size {buf : Memory} {d n : Nat}
    (h : decodeRemainingLengthFromBuffer buf 1 = .ok (d, n)) :
    n = fieldSize buf ∧ announced buf = some d := by
  refine ⟨?_, by rw [announced, h]; rfl⟩
  rw [decodeLenLoop_size (Nat.le_refl _) h, Nat.sub_self, Nat.zero_add]
  rfl

/-! ## What the deserializers read -/

/-- The packet is not of the type that is asked for. -/
def isOther (packetType : Option MessageType) (header : UInt8) : Bool :=
  packetType.any (headerType header ≠ ·.code)

section Deserializing

variable {α : Type} (minimum : Nat) (packetType : Option MessageType) (buf : Memory)
  (rxBufLen : Nat) (body : UInt8 → Nat → Nat → Deserializer α)
  (result : UInt8 → Nat → Nat → Except IotError α) (accesses : UInt8 → Nat → Nat → List Access)

/-- What is answered, from what is answered behind the length field. -/
def deserialized : Except IotError α :=
  if minimum > rxBufLen then .error .mqttRxBufferTooShortError
  else if isOther packetType (buf 0) then .error .failure
  else do
    let (decodedLen, readBytesLen) ← decodeRemainingLengthFromBuffer buf 1
    result (buf 0) decodedLen (1 + readBytesLen)

/-- What is accessed behind the header. -/
def accessedBehind : List Access :=
  (List.range' 1 (fieldSize buf)).map .read ++
    match decodeRemainingLengthFromBuffer buf 1 with
    | .error _ => []
    | .ok (decodedLen, readBytesLen) => accesses (buf 0) decodedLen (1 + readBytesLen)

/-- What is accessed, from what is accessed behind the length field. -/
def accessed : List Access :=
  if minimum > rxBufLen then []
  else .read 0 :: if isOther packetType (buf 0) then [] else accessedBehind buf accesses

variable {body result accesses}

theorem logs_deserializing (hbody : ∀ header decodedLen curData,
      (body header decodedLen curData).Logs (result header decodedLen curData)
        (accesses header decodedLen curData)) :
    (deserializing minimum packetType buf rxBufLen body).Logs
      (deserialized minimum packetType buf rxBufLen result)
      (accessed minimum packetType buf rxBufLen accesses) := by
  have hlength := logs_readLength buf maxNoOfRemainingLengthBytes 1 1 0
  apply Logs.ite (logs_throw _)
  apply (logs_readChar buf 0).bind
  apply Logs.ite (logs_throw _)
  unfold accessedBehind
  cases hdecode : decodeRemainingLengthFromBuffer buf 1 with
  | error rc =>
      change decodeLenLoop buf maxNoOfRemainingLengthBytes 1 1 0 = .error rc at hdecode
      rw [hdecode] at hlength
      dsimp only
      rw [List.append_nil]
      exact hlength.bind_error
  | ok field =>
      change decodeLenLoop buf maxNoOfRemainingLengthBytes 1 1 0 = .ok field at hdecode
      rw [hdecode] at hlength
      exact hlength.bind (hbody _ _ _)

end Deserializing

/-! ### CONNACK -/

def connackCode (c : UInt8) : IotError :=
  match c.toNat with
  | 0 => .mqttConnackConnectionAccepted
  | 1 => .mqttConnackUnacceptableProtocolVersionError
  | 2 => .mqttConnackIdentifierRejectedError
  | 3 => .mqttConnackServerUnavailableError
  | 4 => .mqttConnackBadUserdataError
  | 5 => .mqttConnackNotAuthorizedError
  | _ => .mqttConnackUnknownError

def connackResult (buf : Memory) (decodedLen curData : Nat) : Except IotError (UInt8 × IotError) :=
  if decodedLen ≠ 2 then .error .mqttDecodeRemainingLengthError
  else .ok (buf curData / 128, connackCode (buf (curData + 1)))

def connackAccesses (decodedLen curData : Nat) : List Access :=
  if decodedLen ≠ 2 then [] else [.read curData, .read (curData + 1)]

theorem deserializeConnack_eq (buf : Memory) (rxBufLen : Nat) :
    deserializeConnack buf rxBufLen =
      deserialized 4 (some .connack) buf rxBufLen fun _ => connackResult buf := by
  unfold deserializeConnack deserialized isOther
  simp only [Option.any_some, decide_eq_true_eq]
  rfl

theorem logs_readConnack (buf : Memory) (rxBufLen : Nat) :
    (readConnack buf rxBufLen).Logs
      (deserialized 4 (some .connack) buf rxBufLen fun _ => connackResult buf)
      (accessed 4 (some .connack) buf rxBufLen fun _ => connackAccesses) := by
  apply logs_deserializing
  intro _ decodedLen curData
  apply Logs.ite (logs_throw _)
  exact (logs_readChar _ _).bind ((logs_readChar _ _).bind (logs_pure _))

/-! ### PUBACK and UNSUBACK -/

def ackResult (buf : Memory) (header : UInt8) (decodedLen curData : Nat) :
    Except IotError (UInt8 × UInt8 × UInt16) :=
  if decodedLen < 2 then .error .failure
  else .ok (headerType header, headerDup header, readUint16 buf curData)

def ackAccesses (decodedLen curData : Nat) : List Access :=
  if decodedLen < 2 then [] else [.read curData, .read (curData + 1)]

theorem deserializeAck_eq (buf : Memory) (rxBufLen : Nat) :
    deserializeAck buf rxBufLen = deserialized 4 none buf rxBufLen (ackResult buf) := rfl

theorem logs_readAck (buf : Memory) (rxBufLen : Nat) :
    (readAck buf rxBufLen).Logs (deserialized 4 none buf rxBufLen (ackResult buf))
      (accessed 4 none buf rxBufLen fun _ => ackAccesses) := by
  apply logs_deserializing
  intro header decodedLen curData
  apply Logs.ite (logs_throw _)
  exact (logs_readTwo _ _).bind (logs_pure _)

/-! ### SUBACK -/

def codeAccesses (buf : Memory) (maxExpectedQosCount : Nat) : Nat → Nat → Nat → List Access
  | 0, _, _ => []
  | remaining + 1, curData, count =>
      if count > maxExpectedQosCount then []
      else .read curData :: .store (buf curData) ::
        codeAccesses buf maxExpectedQosCount remaining (curData + 1) (count + 1)

theorem logs_readCodes (buf : Memory) (maxExpectedQosCount remaining curData count : Nat) :
    (readCodes buf maxExpectedQosCount remaining curData count).Logs
      (if (readGrantedQos buf maxExpectedQosCount remaining curData count).2 then .ok ()
        else .error .failure)
      (codeAccesses buf maxExpectedQosCount remaining curData count) := by
  induction remaining generalizing curData count with
  | zero => exact logs_pure ()
  | succ remaining ih =>
      rw [readCodes, readGrantedQos, codeAccesses]
      split
      · exact logs_throw _
      · exact (logs_readChar _ _).bind ((logs_log _).bind (ih _ _))

def subackResult (buf : Memory) (maxExpectedQosCount decodedLen curData : Nat) :
    Except IotError UInt16 :=
  if decodedLen < 2 then .error .failure
  else if (readGrantedQos buf maxExpectedQosCount (decodedLen - 2) (curData + 2) 0).2 then
    .ok (readUint16 buf curData)
  else .error .failure

def subackAccesses (buf : Memory) (maxExpectedQosCount decodedLen curData : Nat) : List Access :=
  if decodedLen < 2 then []
  else .read curData :: .read (curData + 1) ::
    codeAccesses buf maxExpectedQosCount (decodedLen - 2) (curData + 2) 0

theorem deserializeSuback_eq (buf : Memory) (rxBufLen maxExpectedQosCount : Nat) :
    (deserializeSuback buf rxBufLen maxExpectedQosCount).map (·.1) =
      deserialized 5 (some .suback) buf rxBufLen fun _ => subackResult buf maxExpectedQosCount := by
  unfold deserializeSuback deserialized isOther
  simp only [Option.any_some, decide_eq_true_eq]
  split
  · rfl
  · split
    · rfl
    · cases decodeRemainingLengthFromBuffer buf 1 with
      | error rc => rfl
      | ok field =>
          dsimp only [Bind.bind, Except.bind, subackResult]
          split
          · rfl
          · split <;> rfl

theorem logs_readSuback (buf : Memory) (rxBufLen maxExpectedQosCount : Nat) :
    (readSuback buf rxBufLen maxExpectedQosCount).Logs
      (deserialized 5 (some .suback) buf rxBufLen fun _ => subackResult buf maxExpectedQosCount)
      (accessed 5 (some .suback) buf rxBufLen fun _ => subackAccesses buf maxExpectedQosCount) := by
  apply logs_deserializing
  intro _ decodedLen curData
  apply Logs.ite (logs_throw _)
  apply (logs_readTwo _ _).bind
  have hcodes := logs_readCodes buf maxExpectedQosCount (decodedLen - 2) (curData + 2) 0
  by_cases hdone :
    (readGrantedQos buf maxExpectedQosCount (decodedLen - 2) (curData + 2) 0).2 = true
  · rw [if_pos hdone] at hcodes ⊢
    rw [← List.append_nil (codeAccesses _ _ _ _ _)]
    exact hcodes.bind (logs_pure _)
  · rw [if_neg hdone] at hcodes ⊢
    exact hcodes.bind_error

/-! ### PUBLISH -/

/-- The fields found by `deserializePublish`, from a topic at `topicOff` on. -/
def publishFields (buf : Memory) (header : UInt8) (endData topicOff : Nat) (topicNameLen : UInt16) :
    PublishFields :=
  let qos := headerQos header
  let curData := topicOff + topicNameLen.toNat
  let payloadOff := if qos ≠ qos0 then curData + 2 else curData
  ⟨headerDup header, qos, headerRetain header,
    if qos ≠ qos0 then some (readUint16 buf curData) else none, topicOff, topicNameLen, payloadOff,
    (endData + 2 ^ 64 - payloadOff) % 2 ^ 64⟩

def publishResult (buf : Memory) (header : UInt8) (decodedLen curData : Nat) :
    Except IotError PublishFields :=
  if curData + decodedLen ≤ curData + 1 then .error .failure
  else if curData + decodedLen < curData + 2 + (readUint16 buf curData).toNat then .error .failure
  else .ok (publishFields buf header (curData + decodedLen) (curData + 2) (readUint16 buf curData))

def publishAccesses (buf : Memory) (header : UInt8) (decodedLen curData : Nat) : List Access :=
  if curData + decodedLen ≤ curData + 1 then []
  else .read curData :: .read (curData + 1) ::
    let topicEnd := curData + 2 + (readUint16 buf curData).toNat
    if curData + decodedLen < topicEnd then []
    else if headerQos header ≠ qos0 then [.read topicEnd, .read (topicEnd + 1)] else []

theorem deserializePublish_eq (buf : Memory) (rxBufLen : Nat) :
    deserializePublish buf rxBufLen =
      deserialized 4 (some .publish) buf rxBufLen (publishResult buf) := by
  unfold deserializePublish deserialized isOther
  simp only [Option.any_some, decide_eq_true_eq]
  rfl

theorem logs_readPublish (buf : Memory) (rxBufLen : Nat) :
    (readPublish buf rxBufLen).Logs
      (deserialized 4 (some .publish) buf rxBufLen (publishResult buf))
      (accessed 4 (some .publish) buf rxBufLen (publishAccesses buf)) := by
  apply logs_deserializing
  intro header decodedLen curData
  apply Logs.ite (logs_throw _)
  apply (logs_readTwo _ _).bind
  apply Logs.ite (logs_throw _)
  unfold publishFields
  by_cases hqos : headerQos header = qos0
  · simp only [ne_eq, hqos, not_true_eq_false, if_false]
    exact logs_pure _
  · simp only [ne_eq, hqos, not_false_eq_true, if_true]
    exact (logs_readTwo _ _).bind (logs_pure _)

/-- The deserializers answer what `Wire.Deserialize` says. -/
theorem output_readers (buf : Memory) (rxBufLen maxExpectedQosCount : Nat) :
    (readConnack buf rxBufLen).output.1 = deserializeConnack buf rxBufLen ∧
      (readPublish buf rxBufLen).output.1 = deserializePublish buf rxBufLen ∧
      (readAck buf rxBufLen).output.1 = deserializeAck buf rxBufLen ∧
      (readSuback buf rxBufLen maxExpectedQosCount).output.1 =
        (deserializeSuback buf rxBufLen maxExpectedQosCount).map (·.1) := by
  rw [(logs_readConnack buf rxBufLen).output_eq, (logs_readPublish buf rxBufLen).output_eq,
    (logs_readAck buf rxBufLen).output_eq,
    (logs_readSuback buf rxBufLen maxExpectedQosCount).output_eq]
  exact ⟨(deserializeConnack_eq _ _).symm, (deserializePublish_eq _ _).symm,
    (deserializeAck_eq _ _).symm, (deserializeSuback_eq _ _ _).symm⟩

/-! ## What lies inside the buffer -/

/-- Every byte read, and every range handed out, lies in the first `rxBufLen` bytes, and so does
the packet that is accepted. -/
structure StaysInside {α : Type} (buf : Memory) (rxBufLen : Nat) (ranges : α → List (Nat × Nat))
    (p : Deserializer α) : Prop where
  reads : ∀ off, .read off ∈ p.output.2 → off < rxBufLen
  ranges : ∀ a, p.output.1 = .ok a → ∀ range ∈ ranges a, range.1 + range.2 ≤ rxBufLen
  pointsPast : ∀ decodedLen readBytesLen,
    decodeRemainingLengthFromBuffer buf 1 = .ok (decodedLen, readBytesLen) →
      rxBufLen < 1 + readBytesLen + decodedLen → ∀ a, p.output.1 ≠ .ok a

/-- The same of the part behind the length field; the packet ends at `endData`. -/
structure EndsInside {α : Type} (rxBufLen endData : Nat) (ranges : α → List (Nat × Nat))
    (result : Except IotError α) (accesses : List Access) : Prop where
  reads : ∀ off, .read off ∈ accesses → off < rxBufLen
  ranges : ∀ a, result = .ok a → ∀ range ∈ ranges a, range.1 + range.2 ≤ rxBufLen
  endData : ∀ a, result = .ok a → endData ≤ rxBufLen

/-- The length field is read inside the buffer, and `P` holds of the length it announces. -/
def LengthInside (buf : Memory) (rxBufLen : Nat) (P : Nat → Prop) : Prop :=
  1 + fieldSize buf ≤ rxBufLen ∧ ∀ decodedLen, announced buf = some decodedLen → P decodedLen

section StaysInside

variable {α : Type} {minimum : Nat} {packetType : Option MessageType} {buf : Memory}
  {rxBufLen : Nat} {p : Deserializer α} {result : UInt8 → Nat → Nat → Except IotError α}
  {accesses : UInt8 → Nat → Nat → List Access} {ranges : α → List (Nat × Nat)}

theorem mem_reads {off start n : Nat} :
    Access.read off ∈ (List.range' start n).map Access.read ↔ start ≤ off ∧ off < start + n := by
  rw [List.mem_map_of_injective (fun _ _ => Access.read.inj), List.mem_range'_1]

/-- The length field and what follows it. -/
theorem staysInside_behind_iff (hposition : 0 < rxBufLen)
    (hout : p.output = (do
        let (decodedLen, readBytesLen) ← decodeRemainingLengthFromBuffer buf 1
        result (buf 0) decodedLen (1 + readBytesLen),
      .read 0 :: accessedBehind buf accesses)) :
    StaysInside buf rxBufLen ranges p ↔ LengthInside buf rxBufLen fun decodedLen =>
      EndsInside rxBufLen (1 + fieldSize buf + decodedLen) ranges
        (result (buf 0) decodedLen (1 + fieldSize buf))
        (accesses (buf 0) decodedLen (1 + fieldSize buf)) := by
  -- the last byte of the length field has been read
  have hfield (h : ∀ off, .read off ∈ p.output.2 → off < rxBufLen) :
    1 + fieldSize buf ≤ rxBufLen := by
    by_contra hlong
    refine absurd (h (fieldSize buf) ?_) (by omega)
    rw [hout]
    rcases Nat.eq_zero_or_pos (fieldSize buf) with hzero | hpos
    · omega
    · exact List.mem_cons_of_mem _ (List.mem_append_left _ (mem_reads.mpr (by omega)))
  unfold accessedBehind at hout
  cases hdecode : decodeRemainingLengthFromBuffer buf 1 with
  -- without a length, nothing behind the field is accessed
  | error rc =>
      rw [hdecode, List.append_nil] at hout
      have hannounced : announced buf = none := by rw [announced, hdecode]; rfl
      constructor
      · exact fun h => ⟨hfield h.reads, by rw [hannounced]; exact nofun⟩
      · rintro ⟨hinside, -⟩
        refine ⟨?_, ?_, by rw [hdecode]; exact nofun⟩
        · intro off hoff
          rw [hout] at hoff
          rcases List.mem_cons.mp hoff with hzero | hmem
          · cases hzero
            exact hposition
          · have := mem_reads.mp hmem
            omega
        · rw [hout]
          exact nofun
  | ok field =>
      obtain ⟨decodedLen, readBytesLen⟩ := field
      obtain ⟨rfl, hannounced⟩ := decodeRemainingLength_size hdecode
      rw [hdecode] at hout
      change p.output = (result (buf 0) decodedLen (1 + fieldSize buf), .read 0 ::
        ((List.range' 1 (fieldSize buf)).map .read ++
          accesses (buf 0) decodedLen (1 + fieldSize buf))) at hout
      constructor
      · intro h
        refine ⟨hfield h.reads, ?_⟩
        rw [hannounced]
        intro _ heq
        cases heq
        have hreads := h.reads
        have hranges := h.ranges
        have hpast := h.pointsPast _ _ hdecode
        rw [hout] at hreads hranges hpast
        refine ⟨?_, hranges, fun a ha => ?_⟩
        · intro off hoff
          exact hreads off (List.mem_cons_of_mem _ (List.mem_append_right _ hoff))
        · by_contra hend
          exact hpast (Nat.not_le.mp hend) a ha
      · rintro ⟨hinside, hrest⟩
        obtain ⟨hreads, hranges, hend⟩ := hrest decodedLen hannounced
        refine ⟨?_, by rw [hout]; exact hranges, ?_⟩
        · intro off hoff
          rw [hout] at hoff
          rcases List.mem_cons.mp hoff with hzero | hmem
          · cases hzero
            exact hposition
          · rcases List.mem_append.mp hmem with hmem | hmem
            · have := mem_reads.mp hmem
              omega
            · exact hreads off hmem
        · rw [hdecode]
          intro _ _ heq hlong a ha
          cases heq
          rw [hout] at ha
          exact absurd (hend a ha) (Nat.not_le.mpr hlong)

/-- A deserializer stays inside the buffer if it does not get past the header, or the length field
lies inside and what follows does as well. -/
theorem staysInside_deserializing_iff (hminimum : 0 < minimum)
    (hlogs : p.Logs (deserialized minimum packetType buf rxBufLen result)
      (accessed minimum packetType buf rxBufLen accesses)) :
    StaysInside buf rxBufLen ranges p ↔
      rxBufLen < minimum ∨ isOther packetType (buf 0) = true ∨
        LengthInside buf rxBufLen fun decodedLen =>
          EndsInside rxBufLen (1 + fieldSize buf + decodedLen) ranges
            (result (buf 0) decodedLen (1 + fieldSize buf))
            (accesses (buf 0) decodedLen (1 + fieldSize buf)) := by
  have hout := hlogs.output_eq
  unfold deserialized accessed at hout
  by_cases hshort : minimum > rxBufLen
  · rw [if_pos hshort, if_pos hshort] at hout
    refine iff_of_true ?_ (.inl hshort)
    constructor <;> rw [hout] <;> exact nofun
  · rw [if_neg hshort, if_neg hshort] at hout
    rw [or_iff_right hshort]
    by_cases hother : isOther packetType (buf 0) = true
    · rw [if_pos hother, if_pos hother] at hout
      refine iff_of_true ⟨?_, ?_, ?_⟩ (.inl hother) <;> rw [hout]
      · intro off hoff
        cases List.mem_singleton.mp hoff
        omega
      · exact nofun
      · exact nofun
    · rw [if_neg hother, if_neg hother] at hout
      rw [or_iff_right hother]
      exact staysInside_behind_iff (by omega) hout

end StaysInside

/-! ### Where each of them stays inside -/

section EndsInside

variable {buf : Memory} {rxBufLen decodedLen curData : Nat}

theorem endsInside_connack :
    EndsInside rxBufLen (curData + decodedLen) (fun _ => []) (connackResult buf decodedLen curData)
      (connackAccesses decodedLen curData) ↔ (decodedLen = 2 → curData + 2 ≤ rxBufLen) := by
  unfold connackResult connackAccesses
  by_cases htwo : decodedLen = 2
  · subst htwo
    simp only [ne_eq, not_true_eq_false, if_false, true_imp_iff]
    constructor
    · exact fun h => h.endData _ rfl
    · intro hinside
      refine ⟨fun off hoff => ?_, fun _ _ _ => nofun, fun _ _ => hinside⟩
      simp only [List.mem_cons, List.not_mem_nil, or_false, Access.read.injEq] at hoff
      omega
  · simp only [ne_eq, htwo, not_false_eq_true, if_true, false_imp_iff, iff_true]
    exact ⟨nofun, nofun, nofun⟩

theorem endsInside_ack {header : UInt8} :
    EndsInside rxBufLen (curData + decodedLen) (fun _ => [])
      (ackResult buf header decodedLen curData) (ackAccesses decodedLen curData) ↔
        (2 ≤ decodedLen → curData + decodedLen ≤ rxBufLen) := by
  unfold ackResult ackAccesses
  by_cases hshort : decodedLen < 2
  · simp only [hshort, if_true, Nat.not_le.mpr hshort, false_imp_iff, iff_true]
    exact ⟨nofun, nofun, nofun⟩
  · simp only [hshort, if_false, Nat.not_lt.mp hshort, true_imp_iff]
    constructor
    · exact fun h => h.endData _ rfl
    · intro hinside
      refine ⟨fun off hoff => ?_, fun _ _ _ => nofun, fun _ _ => hinside⟩
      simp only [List.mem_cons, List.not_mem_nil, or_false, Access.read.injEq] at hoff
      omega

theorem mem_codeAccesses {maxExpectedQosCount remaining count off : Nat} :
    .read off ∈ codeAccesses buf maxExpectedQosCount remaining curData count ↔
      curData ≤ off ∧ off < curData + min remaining (maxExpectedQosCount + 1 - count) := by
  induction remaining generalizing curData count with
  | zero =>
      simp only [codeAccesses, List.not_mem_nil, false_iff]
      omega
  | succ remaining ih =>
      rw [codeAccesses]
      split
      · simp only [List.not_mem_nil, false_iff]
        omega
      · simp only [List.mem_cons, Access.read.injEq, reduceCtorEq, false_or, ih]
        omega

theorem readGrantedQos_done {maxExpectedQosCount remaining count : Nat} :
    (readGrantedQos buf maxExpectedQosCount remaining curData count).2 = true ↔
      remaining = 0 ∨ remaining + count ≤ maxExpectedQosCount + 1 := by
  induction remaining generalizing curData count with
  | zero => exact iff_of_true rfl (.inl rfl)
  | succ remaining ih =>
      rw [readGrantedQos]
      split
      · exact iff_of_false nofun (by omega)
      · rw [ih]
        omega

theorem endsInside_suback {maxExpectedQosCount : Nat} :
    EndsInside rxBufLen (curData + decodedLen) (fun _ => [])
      (subackResult buf maxExpectedQosCount decodedLen curData)
      (subackAccesses buf maxExpectedQosCount decodedLen curData) ↔
        (2 ≤ decodedLen →
          curData + 2 + min (decodedLen - 2) (maxExpectedQosCount + 1) ≤ rxBufLen) := by
  unfold subackResult subackAccesses
  by_cases hshort : decodedLen < 2
  · simp only [hshort, if_true, Nat.not_le.mpr hshort, false_imp_iff, iff_true]
    exact ⟨nofun, nofun, nofun⟩
  · simp only [hshort, if_false, Nat.not_lt.mp hshort, true_imp_iff]
    constructor
    · intro h
      by_contra hlong
      have hlast : Access.read (curData + 1 + min (decodedLen - 2) (maxExpectedQosCount + 1)) ∈
          Access.read curData :: .read (curData + 1) ::
            codeAccesses buf maxExpectedQosCount (decodedLen - 2) (curData + 2) 0 := by
        simp only [List.mem_cons, Access.read.injEq, mem_codeAccesses]
        omega
      have := h.reads _ hlast
      omega
    · intro hinside
      refine ⟨fun off hoff => ?_, fun _ _ _ => nofun, fun _ ha => ?_⟩
      · simp only [List.mem_cons, Access.read.injEq, mem_codeAccesses] at hoff
        omega
      · split at ha
        next hdone =>
          have := readGrantedQos_done.mp hdone
          omega
        next => cases ha

/-- The topic and the payload. -/
def PublishFields.ranges (f : PublishFields) : List (Nat × Nat) :=
  [(f.topicOff, f.topicNameLen.toNat), (f.payloadOff, f.payloadLen)]

theorem endsInside_publish {header : UInt8} (hsize : rxBufLen < 2 ^ 64) :
    EndsInside rxBufLen (curData + decodedLen) PublishFields.ranges
      (publishResult buf header decodedLen curData)
      (publishAccesses buf header decodedLen curData) ↔
        (2 ≤ decodedLen → curData + 2 ≤ rxBufLen ∧
          (2 + (readUint16 buf curData).toNat ≤ decodedLen → curData + decodedLen ≤ rxBufLen ∧
            (headerQos header ≠ qos0 → 4 + (readUint16 buf curData).toNat ≤ decodedLen))) := by
  unfold publishResult publishAccesses
  generalize (readUint16 buf curData) = topicNameLen
  by_cases hshort : curData + decodedLen ≤ curData + 1
  · -- a packet of one byte has no topic length
    simp only [hshort, if_true]
    exact iff_of_true ⟨nofun, nofun, nofun⟩ fun hlong => by omega
  simp only [hshort, if_false]
  by_cases htopic : curData + decodedLen < curData + 2 + topicNameLen.toNat
  · -- the topic ends behind the packet: only its length is read
    simp only [htopic, if_true]
    constructor
    · intro h _
      have := h.reads (curData + 1) (by simp)
      exact ⟨this, fun hlong => by omega⟩
    · intro hinside
      refine ⟨fun off hoff => ?_, nofun, nofun⟩
      simp only [List.mem_cons, List.not_mem_nil, or_false, Access.read.injEq] at hoff
      have := (hinside (by omega)).1
      omega
  simp only [htopic, if_false]
  constructor
  · intro h _
    have hend := h.endData _ rfl
    have hpayload := h.ranges _ rfl _ (List.mem_cons_of_mem _ List.mem_cons_self)
    refine ⟨by omega, fun _ => ⟨hend, fun hqos => ?_⟩⟩
    simp only [publishFields, ne_eq, hqos, not_false_eq_true, if_true] at hpayload
    omega
  · intro hinside
    obtain ⟨hposition, hrest⟩ := hinside (by omega)
    obtain ⟨hend, hidentifier⟩ := hrest (by omega)
    refine ⟨fun off hoff => ?_, ?_, fun _ _ => hend⟩
    · by_cases hqos : headerQos header = qos0
      · simp only [ne_eq, hqos, not_true_eq_false, if_false, List.mem_cons, List.not_mem_nil,
          or_false, Access.read.injEq] at hoff
        omega
      · have := hidentifier hqos
        simp only [ne_eq, hqos, not_false_eq_true, if_true, List.mem_cons, List.not_mem_nil,
          or_false, Access.read.injEq] at hoff
        omega
    · rintro _ heq range hrange
      cases heq
      rcases List.mem_cons.mp hrange with rfl | hrange
      · change curData + 2 + topicNameLen.toNat ≤ rxBufLen
        omega
      · cases List.mem_singleton.mp hrange
        by_cases hqos : headerQos header = qos0
        · simp only [publishFields, ne_eq, hqos, not_true_eq_false, if_false]
          omega
        · have := hidentifier hqos
          simp only [publishFields, ne_eq, hqos, not_false_eq_true, if_true]
          omega

end EndsInside

theorem isOther_some {packetType : MessageType} {header : UInt8} :
    isOther (some packetType) header = true ↔ headerType header ≠ packetType.code := by
  rw [isOther, Option.any_some, decide_eq_true_eq]

/-- Exactly where the deserializers stay inside the buffer. Behind the least length and the header
they go by the length field alone; of a PUBLISH above QoS 0, not even by that. -/
theorem staysInside_readers_iff (buf : Memory) {rxBufLen : Nat} (maxExpectedQosCount : Nat)
    (hsize : rxBufLen < 2 ^ 64) :
    (StaysInside buf rxBufLen (fun _ => []) (readConnack buf rxBufLen) ↔
      rxBufLen < 4 ∨ headerType (buf 0) ≠ MessageType.connack.code ∨
        LengthInside buf rxBufLen fun decodedLen =>
          decodedLen = 2 → 1 + fieldSize buf + 2 ≤ rxBufLen) ∧
    (StaysInside buf rxBufLen PublishFields.ranges (readPublish buf rxBufLen) ↔
      rxBufLen < 4 ∨ headerType (buf 0) ≠ MessageType.publish.code ∨
        LengthInside buf rxBufLen fun decodedLen =>
          let topicNameLen := (readUint16 buf (1 + fieldSize buf)).toNat
          2 ≤ decodedLen → 1 + fieldSize buf + 2 ≤ rxBufLen ∧
            (2 + topicNameLen ≤ decodedLen → 1 + fieldSize buf + decodedLen ≤ rxBufLen ∧
              (headerQos (buf 0) ≠ qos0 → 4 + topicNameLen ≤ decodedLen))) ∧
    (StaysInside buf rxBufLen (fun _ => []) (readAck buf rxBufLen) ↔
      rxBufLen < 4 ∨ LengthInside buf rxBufLen fun decodedLen =>
        2 ≤ decodedLen → 1 + fieldSize buf + decodedLen ≤ rxBufLen) ∧
    (StaysInside buf rxBufLen (fun _ => []) (readSuback buf rxBufLen maxExpectedQosCount) ↔
      rxBufLen < 5 ∨ headerType (buf 0) ≠ MessageType.suback.code ∨
        LengthInside buf rxBufLen fun decodedLen => 2 ≤ decodedLen →
          1 + fieldSize buf + 2 + min (decodedLen - 2) (maxExpectedQosCount + 1) ≤ rxBufLen) := by
  refine ⟨?_, ?_, ?_, ?_⟩
  · rw [staysInside_deserializing_iff (by decide) (logs_readConnack buf rxBufLen), isOther_some]
    simp only [endsInside_connack]
  · rw [staysInside_deserializing_iff (by decide) (logs_readPublish buf rxBufLen), isOther_some]
    simp only [endsInside_publish hsize]
  · have hany : ¬isOther none (buf 0) = true := Bool.false_ne_true
    rw [staysInside_deserializing_iff (by decide) (logs_readAck buf rxBufLen), or_iff_right hany]
    simp only [endsInside_ack]
  · rw [staysInside_deserializing_iff (by decide)
      (logs_readSuback buf rxBufLen maxExpectedQosCount), isOther_some]
    simp only [endsInside_suback]

/-- Eight bytes that begin like a PUBLISH of 268435455 bytes on the topic `a`. -/
def longPublish : Memory := fun i => [0x30, 0xff, 0xff, 0xff, 0x7f, 0, 1, 97].getD i 0

theorem staysInside_readers_iff_longPublish :
    StaysInside longPublish 8 PublishFields.ranges (readPublish longPublish 8) ↔
      8 < 4 ∨ headerType (longPublish 0) ≠ MessageType.publish.code ∨
        LengthInside longPublish 8 fun decodedLen =>
          let topicNameLen := (readUint16 longPublish (1 + fieldSize longPublish)).toNat
          2 ≤ decodedLen → 1 + fieldSize longPublish + 2 ≤ 8 ∧
            (2 + topicNameLen ≤ decodedLen → 1 + fieldSize longPublish + decodedLen ≤ 8 ∧
              (headerQos (longPublish 0) ≠ qos0 → 4 + topicNameLen ≤ decodedLen)) :=
  (@staysInside_readers_iff longPublish 8 1 (by decide)).2.1

/-- It is accepted, with a payload far behind the end of the buffer. -/
theorem not_staysInside_longPublish :
    ¬StaysInside longPublish 8 PublishFields.ranges (readPublish longPublish 8) := by
  intro h
  have hfound : (readPublish longPublish 8).output.1 =
      .ok ⟨0, qos0, 0, none, 7, 1, 8, 268435452⟩ := by decide +kernel
  exact absurd (h.ranges _ hfound (8, 268435452) (by decide)) (by decide)

end MqttClient
