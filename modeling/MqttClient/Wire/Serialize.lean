import MqttClient.Wire.Length

/-! # Building packets

Each serializer answers the bytes it writes to the start of the transmit
buffer, or an error before it has written anything. Reads past the end of a
caller's buffer, which C leaves undefined, yield zeros.
-/

namespace MqttClient

/-- `memcpy` of `n` bytes from a caller's buffer. -/
def memcpy (src : List UInt8) (n : Nat) : List UInt8 :=
  (List.range n).map fun i => src.getD i 0

/-- `aws_iot_mqtt_internal_write_uint_16`. -/
def writeUint16 (n : UInt16) : List UInt8 :=
  [UInt8.ofNat (n.toNat / 256), UInt8.ofNat (n.toNat % 256)]

/-- `aws_iot_mqtt_internal_write_utf8_string`. -/
def writeUtf8String (string : List UInt8) (stringLen : UInt16) : List UInt8 :=
  writeUint16 stringLen ++ memcpy string stringLen.toNat

/-- The type nibble that `initHeader` puts in the header byte. -/
def MessageType.code : MessageType → UInt8
  | .unknown => 0
  | .connect => 1
  | .connack => 2
  | .publish => 3
  | .puback => 4
  | .pubrec => 5
  | .pubrel => 6
  | .pubcomp => 7
  | .subscribe => 8
  | .suback => 9
  | .unsubscribe => 10
  | .unsuback => 11
  | .pingreq => 12
  | .pingresp => 13
  | .disconnect => 14

/-- The types of packets whose arrival has no further effect. -/
def MessageType.isAck : MessageType → Bool
  | .connack | .puback | .suback | .unsuback => true
  | _ => false

theorem MessageType.ofNibble_code (packetType : MessageType) :
    MessageType.ofNibble packetType.code = packetType := by
  cases packetType <;> rfl

theorem MessageType.code_ne_zero {packetType : MessageType} (h : packetType.isAck = true) :
    packetType.code ≠ 0 := by
  cases packetType <;> first | decide | cases h

/-- `aws_iot_mqtt_internal_init_header`: type, dup, QoS and retain from the top bit down. -/
def initHeader (messageType : MessageType) (qos : QoS) (dup retained : UInt8) :
    Except IotError UInt8 :=
  match messageType with
  | .unknown => .error .failure
  | _ =>
      let dupBit := if dup = 1 then 1 else 0
      let qosBits := if qos = qos1 then 1 else 0
      let retainBit := if retained = 1 then 1 else 0
      .ok (messageType.code * 16 + dupBit * 8 + qosBits * 2 + retainBit)

/-- `_aws_iot_get_connect_packet_length`, a `uint32_t`. -/
def getConnectPacketLength (params : ConnectParams) : Nat :=
  let len := 10 + params.clientIDLen.toNat + 2
  let len := if params.isWillMsgPresent then
      len + params.will.topicNameLen.toNat + 2 + params.will.msgLen.toNat + 2 else len
  let len := if params.username.isSome then len + params.usernameLen.toNat + 2 else len
  if params.password.isSome then len + params.passwordLen.toNat + 2 else len

/-- The connect flags byte: user name, password, will retain, will QoS, will
and clean session from the top bit down. -/
def connectFlags (params : ConnectParams) : UInt8 :=
  let cleansession := if params.isCleanSession then 1 else 0
  let will := if params.isWillMsgPresent then 1 else 0
  let willQoS := if params.isWillMsgPresent then params.will.qos % 4 else 0
  let willRetain := if params.isWillMsgPresent && params.will.isRetained then 1 else 0
  let username := if params.username.isSome then 1 else 0
  let password := if params.password.isSome then 1 else 0
  username * 128 + password * 64 + willRetain * 32 + willQoS * 8 + will * 4 + cleansession * 2

/-- `_aws_iot_mqtt_serialize_connect`. -/
def serializeConnect (txBufLen : Nat) (params : ConnectParams) : Except IotError (List UInt8) :=
  if (params.clientID.isNone && params.clientIDLen ≠ 0) ||
      (params.clientID.isSome && params.clientIDLen = 0) then
    .error .nullValueError
  else if params.mqttVersion ≠ 4 then
    .error .mqttConnackUnacceptableProtocolVersionError
  else
    let len := getConnectPacketLength params
    if getFinalPacketLengthFromRemainingLength len > txBufLen then
      .error .mqttTxBufferTooShortError
    else do
      let header ← initHeader .connect qos0 0 0
      return header :: writeLenToBuffer len ++ writeUtf8String [77, 81, 84, 84] 4 ++
        [params.mqttVersion, connectFlags params] ++ writeUint16 params.keepAliveIntervalInSec ++
        (match params.clientID with
          | none => writeUint16 0
          | some clientID => writeUtf8String clientID params.clientIDLen) ++
        (if params.isWillMsgPresent then
          writeUtf8String params.will.topicName params.will.topicNameLen ++
            writeUtf8String params.will.message params.will.msgLen else []) ++
        (match params.username with
          | none => []
          | some username => writeUtf8String username params.usernameLen) ++
        (match params.password with
          | none => []
          | some password => writeUtf8String password params.passwordLen)

/-- `_aws_iot_mqtt_internal_serialize_publish`. -/
def serializePublish (txBufLen : Nat) (dup : UInt8) (qos : QoS) (retained : UInt8)
    (packetId : UInt16) (topicName : List UInt8) (topicNameLen : UInt16)
    (payload : Option (List UInt8)) (payloadLen : Nat) : Except IotError (List UInt8) :=
  match payload with
  | none => .error .nullValueError
  | some payload =>
      let remLen := (topicNameLen.toNat + payloadLen + 2) % 2 ^ 32
      let remLen := if qos > 0 then (remLen + 2) % 2 ^ 32 else remLen
      if getFinalPacketLengthFromRemainingLength remLen > txBufLen then
        .error .mqttTxBufferTooShortError
      else do
        let header ← initHeader .publish qos dup retained
        return header :: writeLenToBuffer remLen ++ writeUtf8String topicName topicNameLen ++
          (if qos > 0 then writeUint16 packetId else []) ++ memcpy payload payloadLen

/-- `aws_iot_mqtt_internal_serialize_ack`. -/
def serializeAck (txBufLen : Nat) (messageType : MessageType) (dup : UInt8) (packetId : UInt16) :
    Except IotError (List UInt8) :=
  if 4 > txBufLen then .error .mqttTxBufferTooShortError
  else do
    let requestQoS := if messageType = .pubrel then qos1 else qos0
    let header ← initHeader messageType requestQoS dup 0
    return header :: writeLenToBuffer 2 ++ writeUint16 packetId

/-- `aws_iot_mqtt_internal_serialize_zero`. -/
def serializeZero (txBufLen : Nat) (packetType : MessageType) : Except IotError (List UInt8) :=
  if 4 > txBufLen then .error .mqttTxBufferTooShortError
  else do
    let header ← initHeader packetType qos0 0 0
    return header :: writeLenToBuffer 0

/-- A topic filter of a SUBSCRIBE packet: text, length and requested QoS. -/
abbrev FilterRequest := List UInt8 × UInt16 × QoS

/-- `_aws_iot_mqtt_serialize_subscribe`. -/
def serializeSubscribe (txBufLen : Nat) (dup : UInt8) (packetId : UInt16)
    (filters : List FilterRequest) : Except IotError (List UInt8) :=
  let remLen := filters.foldl (fun len f => (len + (f.2.1.toNat + 2 + 1)) % 2 ^ 32) 2
  if getFinalPacketLengthFromRemainingLength remLen > txBufLen then
    .error .mqttTxBufferTooShortError
  else do
    let header ← initHeader .subscribe qos1 dup 0
    return header :: writeLenToBuffer remLen ++ writeUint16 packetId ++
      filters.flatMap fun f => writeUtf8String f.1 f.2.1 ++ [f.2.2]

/-- Whether a SUBSCRIBE packet fits depends on the length of its filter alone. -/
theorem serializeSubscribe_isOk_iff (txBufLen : Nat) (dup : UInt8) (packetId : UInt16)
    (filter : List UInt8) (len : UInt16) (qos : QoS) :
    (serializeSubscribe txBufLen dup packetId [(filter, len, qos)]).isOk = true ↔
      getFinalPacketLengthFromRemainingLength (len.toNat + 5) ≤ txBufLen := by
  have hlen := len.toNat_lt
  have hrem : (2 + (len.toNat + 2 + 1)) % 2 ^ 32 = len.toNat + 5 := by omega
  simp only [serializeSubscribe, List.foldl_cons, List.foldl_nil, hrem]
  split
  next h => simp [Except.isOk, Except.toBool, Nat.not_le.mpr h]
  next h =>
    simp only [Nat.not_lt.mp h, iff_true]
    rfl

/-- `_aws_iot_mqtt_serialize_unsubscribe`. -/
def serializeUnsubscribe (txBufLen : Nat) (dup : UInt8) (packetId : UInt16)
    (filters : List (List UInt8 × UInt16)) : Except IotError (List UInt8) :=
  let remLen := filters.foldl (fun len f => (len + (f.2.toNat + 2)) % 2 ^ 32) 2
  if getFinalPacketLengthFromRemainingLength remLen > txBufLen then
    .error .mqttTxBufferTooShortError
  else do
    let header ← initHeader .unsubscribe qos1 dup 0
    return header :: writeLenToBuffer remLen ++ writeUint16 packetId ++
      filters.flatMap fun f => writeUtf8String f.1 f.2

/-! ## A packet with one filter fits into 32 bits -/

theorem length_writeUtf8String (string : List UInt8) (stringLen : UInt16) :
    (writeUtf8String string stringLen).length = stringLen.toNat + 2 := by
  simp only [writeUtf8String, writeUint16, memcpy, List.length_append, List.length_cons,
    List.length_nil, List.length_map, List.length_range]
  omega

theorem length_serializeSubscribe_lt {txBufLen : Nat} {packetId : UInt16} {f : FilterRequest}
    {packet : List UInt8} (h : serializeSubscribe txBufLen 0 packetId [f] = .ok packet) :
    packet.length < 2 ^ 32 := by
  simp only [serializeSubscribe] at h
  split at h
  next => cases h
  next =>
    cases h
    have htopic := f.2.1.toNat_lt
    have hfield := length_writeLenToBuffer_le_five
      (List.foldl (fun len f => (len + (f.2.1.toNat + 2 + 1)) % 2 ^ 32) 2 [f])
    simp only [List.length_append, List.length_cons, List.flatMap_cons, List.flatMap_nil,
      List.length_nil, length_writeUtf8String, writeUint16]
    omega

theorem length_serializeUnsubscribe_lt {txBufLen : Nat} {packetId : UInt16}
    {f : List UInt8 × UInt16} {packet : List UInt8}
    (h : serializeUnsubscribe txBufLen 0 packetId [f] = .ok packet) : packet.length < 2 ^ 32 := by
  simp only [serializeUnsubscribe] at h
  split at h
  next => cases h
  next =>
    cases h
    have htopic := f.2.toNat_lt
    have hfield := length_writeLenToBuffer_le_five
      (List.foldl (fun len f => (len + (f.2.toNat + 2)) % 2 ^ 32) 2 [f])
    simp only [List.length_append, List.length_cons, List.flatMap_cons, List.flatMap_nil,
      List.length_nil, length_writeUtf8String, writeUint16]
    omega

/-! ## Errors are errors -/

theorem reportsErrors_initHeader (messageType : MessageType) (qos : QoS) (dup retained : UInt8) :
    ReportsErrors (initHeader messageType qos dup retained) := by
  cases messageType <;> first | exact reportsErrors_ok _ | exact reportsErrors_error rfl

theorem reportsErrors_serializeConnect (txBufLen : Nat) (params : ConnectParams) :
    ReportsErrors (serializeConnect txBufLen params) := by
  refine .ite (reportsErrors_error rfl) (.ite (reportsErrors_error rfl) ?_)
  exact .ite (reportsErrors_error rfl) ((reportsErrors_initHeader _ _ _ _).bind fun _ =>
    reportsErrors_ok _)

theorem reportsErrors_serializePublish (txBufLen : Nat) (dup : UInt8) (qos : QoS)
    (retained : UInt8) (packetId : UInt16) (topicName : List UInt8) (topicNameLen : UInt16)
    (payload : Option (List UInt8)) (payloadLen : Nat) :
    ReportsErrors (serializePublish txBufLen dup qos retained packetId topicName topicNameLen
      payload payloadLen) := by
  cases payload with
  | none => exact reportsErrors_error rfl
  | some payload =>
      exact .ite (reportsErrors_error rfl) ((reportsErrors_initHeader _ _ _ _).bind fun _ =>
        reportsErrors_ok _)

theorem reportsErrors_serializeAck (txBufLen : Nat) (messageType : MessageType) (dup : UInt8)
    (packetId : UInt16) : ReportsErrors (serializeAck txBufLen messageType dup packetId) :=
  .ite (reportsErrors_error rfl) ((reportsErrors_initHeader _ _ _ _).bind fun _ =>
    reportsErrors_ok _)

theorem reportsErrors_serializeZero (txBufLen : Nat) (packetType : MessageType) :
    ReportsErrors (serializeZero txBufLen packetType) :=
  .ite (reportsErrors_error rfl) ((reportsErrors_initHeader _ _ _ _).bind fun _ =>
    reportsErrors_ok _)

theorem reportsErrors_serializeSubscribe (txBufLen : Nat) (dup : UInt8) (packetId : UInt16)
    (filters : List FilterRequest) :
    ReportsErrors (serializeSubscribe txBufLen dup packetId filters) :=
  .ite (reportsErrors_error rfl) ((reportsErrors_initHeader _ _ _ _).bind fun _ =>
    reportsErrors_ok _)

theorem reportsErrors_serializeUnsubscribe (txBufLen : Nat) (dup : UInt8) (packetId : UInt16)
    (filters : List (List UInt8 × UInt16)) :
    ReportsErrors (serializeUnsubscribe txBufLen dup packetId filters) :=
  .ite (reportsErrors_error rfl) ((reportsErrors_initHeader _ _ _ _).bind fun _ =>
    reportsErrors_ok _)

end MqttClient
