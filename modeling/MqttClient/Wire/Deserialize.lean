import MqttClient.Wire.Length
import MqttClient.Wire.Serialize

/-! # Taking packets apart

The deserializers work on the receive buffer in place: positions are offsets
from its start, and the fields found are offsets and lengths. None of them
compares the packet's own length with the length of the buffer.
-/

namespace MqttClient

/-- `aws_iot_mqtt_internal_read_uint16_t`. -/
def readUint16 (buf : Memory) (off : Nat) : UInt16 :=
  UInt16.ofNat ((buf (off + 1)).toNat + 256 * (buf off).toNat)

/-- The fields of `MQTTHeader`. -/
def headerType (byte : UInt8) : UInt8 := byte / 16
def headerDup (byte : UInt8) : UInt8 := byte / 8 % 2
def headerQos (byte : UInt8) : QoS := byte / 2 % 4
def headerRetain (byte : UInt8) : UInt8 := byte % 2

/-- What `deserializePublish` finds. The identifier of a QoS 0 message is left
as it was. -/
structure PublishFields where
  dup : UInt8
  qos : QoS
  retained : UInt8
  packetId : Option UInt16
  topicOff : Nat
  topicNameLen : UInt16
  payloadOff : Nat
  payloadLen : Nat
  deriving DecidableEq

/-- `aws_iot_mqtt_internal_deserialize_publish`. -/
def deserializePublish (buf : Memory) (rxBufLen : Nat) : Except IotError PublishFields :=
  if 4 > rxBufLen then .error .mqttRxBufferTooShortError
  else
    let header := buf 0
    if headerType header ≠ MessageType.publish.code then .error .failure
    else do
      let (decodedLen, readBytesLen) ← decodeRemainingLengthFromBuffer buf 1
      let curData := 1 + readBytesLen
      let endData := curData + decodedLen
      -- `readStringWithLen`: two bytes of length, then the topic inside the packet
      if endData ≤ curData + 1 then .error .failure
      else
        let topicNameLen := readUint16 buf curData
        let topicOff := curData + 2
        if endData < topicOff + topicNameLen.toNat then .error .failure
        else
          let qos := headerQos header
          let curData := topicOff + topicNameLen.toNat
          let payloadOff := if qos ≠ qos0 then curData + 2 else curData
          .ok {
            dup := headerDup header
            qos := qos
            retained := headerRetain header
            packetId := if qos ≠ qos0 then some (readUint16 buf curData) else none
            topicOff := topicOff
            topicNameLen := topicNameLen
            payloadOff := payloadOff
            -- the difference of two pointers, converted to `size_t`
            payloadLen := (endData + 2 ^ 64 - payloadOff) % 2 ^ 64 }

/-- `aws_iot_mqtt_internal_deserialize_ack`: type, dup and packet identifier. -/
def deserializeAck (buf : Memory) (rxBufLen : Nat) : Except IotError (UInt8 × UInt8 × UInt16) :=
  if 4 > rxBufLen then .error .mqttRxBufferTooShortError
  else do
    let header := buf 0
    let (decodedLen, readBytesLen) ← decodeRemainingLengthFromBuffer buf 1
    if decodedLen < 2 then .error .failure
    else .ok (headerType header, headerDup header, readUint16 buf (1 + readBytesLen))

/-- The loop of `deserializeSuback` over the return codes: the codes stored,
and whether the end of the packet was reached. -/
def readGrantedQos (buf : Memory) (maxExpectedQosCount : Nat) :
    Nat → Nat → Nat → List QoS × Bool
  | 0, _, _ => ([], true)
  | remaining + 1, curData, count =>
      if count > maxExpectedQosCount then ([], false)
      else
        let (codes, done) := readGrantedQos buf maxExpectedQosCount remaining (curData + 1)
          (count + 1)
        (buf curData :: codes, done)

/-- `_aws_iot_mqtt_deserialize_suback`: packet identifier and granted codes. -/
def deserializeSuback (buf : Memory) (rxBufLen maxExpectedQosCount : Nat) :
    Except IotError (UInt16 × List QoS) :=
  if 5 > rxBufLen then .error .mqttRxBufferTooShortError
  else if headerType (buf 0) ≠ MessageType.suback.code then .error .failure
  else do
    let (decodedLen, readBytesLen) ← decodeRemainingLengthFromBuffer buf 1
    if decodedLen < 2 then .error .failure
    else
      let curData := 1 + readBytesLen
      let (codes, done) := readGrantedQos buf maxExpectedQosCount (decodedLen - 2) (curData + 2) 0
      if done then .ok (readUint16 buf curData, codes) else .error .failure

/-- `_aws_iot_mqtt_deserialize_unsuback`. -/
def deserializeUnsuback (buf : Memory) (rxBufLen : Nat) : Except IotError UInt16 := do
  let (type, _, packetId) ← deserializeAck buf rxBufLen
  if type ≠ MessageType.unsuback.code then .error .failure else .ok packetId

/-- `_aws_iot_mqtt_deserialize_connack`: session-present bit and return code. -/
def deserializeConnack (buf : Memory) (rxBufLen : Nat) : Except IotError (UInt8 × IotError) :=
  if 4 > rxBufLen then .error .mqttRxBufferTooShortError
  else if headerType (buf 0) ≠ MessageType.connack.code then .error .failure
  else do
    let (decodedLen, readBytesLen) ← decodeRemainingLengthFromBuffer buf 1
    let curData := 1 + readBytesLen
    if decodedLen ≠ 2 then .error .mqttDecodeRemainingLengthError
    else
      let sessionPresent := buf curData / 128
      let connackRc : IotError := match (buf (curData + 1)).toNat with
        | 0 => .mqttConnackConnectionAccepted
        | 1 => .mqttConnackUnacceptableProtocolVersionError
        | 2 => .mqttConnackIdentifierRejectedError
        | 3 => .mqttConnackServerUnavailableError
        | 4 => .mqttConnackBadUserdataError
        | 5 => .mqttConnackNotAuthorizedError
        | _ => .mqttConnackUnknownError
      .ok (sessionPresent, connackRc)

/-! ## Errors are errors -/

theorem reportsErrors_decodeRemainingLength (buf : Memory) (off : Nat) :
    ReportsErrors (decodeRemainingLengthFromBuffer buf off) := reportsErrors_decodeLenLoop _ _ _ _ _

theorem reportsErrors_deserializePublish (buf : Memory) (rxBufLen : Nat) :
    ReportsErrors (deserializePublish buf rxBufLen) := by
  refine .ite (reportsErrors_error rfl) (.ite (reportsErrors_error rfl) ?_)
  refine (reportsErrors_decodeRemainingLength buf 1).bind fun _ => ?_
  exact .ite (reportsErrors_error rfl) (.ite (reportsErrors_error rfl) (reportsErrors_ok _))

theorem reportsErrors_deserializeAck (buf : Memory) (rxBufLen : Nat) :
    ReportsErrors (deserializeAck buf rxBufLen) := by
  refine .ite (reportsErrors_error rfl) ?_
  refine (reportsErrors_decodeRemainingLength buf 1).bind fun _ => ?_
  exact .ite (reportsErrors_error rfl) (reportsErrors_ok _)

theorem reportsErrors_deserializeSuback (buf : Memory) (rxBufLen maxExpectedQosCount : Nat) :
    ReportsErrors (deserializeSuback buf rxBufLen maxExpectedQosCount) := by
  refine .ite (reportsErrors_error rfl) (.ite (reportsErrors_error rfl) ?_)
  refine (reportsErrors_decodeRemainingLength buf 1).bind fun _ => ?_
  exact .ite (reportsErrors_error rfl) (.ite (reportsErrors_ok _) (reportsErrors_error rfl))

theorem reportsErrors_deserializeUnsuback (buf : Memory) (rxBufLen : Nat) :
    ReportsErrors (deserializeUnsuback buf rxBufLen) := by
  refine (reportsErrors_deserializeAck buf rxBufLen).bind fun _ => ?_
  exact .ite (reportsErrors_error rfl) (reportsErrors_ok _)

theorem reportsErrors_deserializeConnack (buf : Memory) (rxBufLen : Nat) :
    ReportsErrors (deserializeConnack buf rxBufLen) := by
  refine .ite (reportsErrors_error rfl) (.ite (reportsErrors_error rfl) ?_)
  refine (reportsErrors_decodeRemainingLength buf 1).bind fun _ => ?_
  exact .ite (reportsErrors_error rfl) (reportsErrors_ok _)

/-- The codes of an acknowledgement that cannot be taken apart. -/
theorem deserializeAck_error {buf : Memory} {rxBufLen : Nat} {rc : IotError}
    (h : deserializeAck buf rxBufLen = .error rc) :
    rc = .mqttRxBufferTooShortError ∨ rc = .mqttDecodeRemainingLengthError ∨ rc = .failure := by
  unfold deserializeAck at h
  split at h
  · cases h
    exact .inl rfl
  · cases hlen : decodeRemainingLengthFromBuffer buf 1 with
    | error rc' =>
        rw [hlen] at h
        cases h
        exact .inr (.inl (decodeLenLoop_error hlen))
    | ok p =>
        rw [hlen] at h
        dsimp only [Bind.bind, Except.bind] at h
        split at h
        · cases h
          exact .inr (.inr rfl)
        · cases h

/-- The codes of a SUBACK that cannot be taken apart. -/
theorem deserializeSuback_error {buf : Memory} {rxBufLen maxExpectedQosCount : Nat} {rc : IotError}
    (h : deserializeSuback buf rxBufLen maxExpectedQosCount = .error rc) :
    rc = .mqttRxBufferTooShortError ∨ rc = .mqttDecodeRemainingLengthError ∨ rc = .failure := by
  unfold deserializeSuback at h
  split at h
  · cases h
    exact .inl rfl
  · split at h
    · cases h
      exact .inr (.inr rfl)
    · cases hlen : decodeRemainingLengthFromBuffer buf 1 with
      | error rc' =>
          rw [hlen] at h
          cases h
          exact .inr (.inl (decodeLenLoop_error hlen))
      | ok p =>
          rw [hlen] at h
          dsimp only [Bind.bind, Except.bind] at h
          split at h
          · cases h
            exact .inr (.inr rfl)
          · split at h
            · cases h
            · cases h
              exact .inr (.inr rfl)

/-- No return code of a CONNACK is turned into `SUCCESS`. -/
theorem deserializeConnack_ne_success {buf : Memory} {rxBufLen : Nat} {sessionPresent : UInt8}
    {connackRc : IotError} (h : deserializeConnack buf rxBufLen = .ok (sessionPresent, connackRc)) :
    connackRc ≠ .success := by
  unfold deserializeConnack at h
  split at h
  · cases h
  · split at h
    · cases h
    · cases hlen : decodeRemainingLengthFromBuffer buf 1 with
      | error rc =>
          rw [hlen] at h
          cases h
      | ok p =>
          rw [hlen] at h
          dsimp only [Bind.bind, Except.bind] at h
          split at h
          · cases h
          · cases h
            split <;> nofun

end MqttClient
