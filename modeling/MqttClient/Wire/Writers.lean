import MqttClient.Effect.Logging
import MqttClient.Wire.Serialize

/-! # The serializers, byte by byte

A serializer writes through a pointer into the transmit buffer, and may give up
at any point. What it has written by then stays there. Run byte by byte, the
serializers write what they answer, and nothing before they give up.
-/

namespace MqttClient

open Effect Logging

/-- Code that writes to the end of what has been written since the start of the buffer. -/
abbrev Writer := Logging UInt8 IotError

namespace Writer

/-- `**pptr = c; (*pptr)++;` for one byte after the other. -/
def put (bytes : List UInt8) : Writer Unit := log bytes

/-- `if(c) ...` -/
def onlyIf (c : Prop) [Decidable c] (w : Writer Unit) : Writer Unit := if c then w else pure ()

/-- `if(NULL != p) ...` for a string and its length. -/
def putIfGiven (string : Option (List UInt8)) (stringLen : UInt16) : Writer Unit :=
  match string with
  | none => pure ()
  | some string => put (writeUtf8String string stringLen)

/-- The header byte, unless it cannot be built. -/
def putHeader (messageType : MessageType) (qos : QoS) (dup retained : UInt8) : Writer Unit :=
  match initHeader messageType qos dup retained with
  | .error rc => throw rc
  | .ok header => put [header]

/-- The code writes just these bytes, or gives up having written nothing. -/
def Writes (w : Writer Unit) : Except IotError (List UInt8) → Prop
  | .ok bytes => w.Logs (.ok ()) bytes
  | .error rc => w.Logs (.error rc) []

section Rules

variable {w w' : Writer Unit} {a b : List UInt8} {r r' : Except IotError (List UInt8)}

theorem writes_put (bytes : List UInt8) : Writes (put bytes) (.ok bytes) := logs_log bytes

theorem writes_throw (rc : IotError) : Writes (throw rc) (.error rc) := logs_throw rc

theorem Writes.seq (h : Writes w (.ok a)) (h' : Writes w' (.ok b)) :
    Writes (w >>= fun _ => w') (.ok (a ++ b)) := Logs.bind h h'

theorem Writes.ite {c : Prop} [Decidable c] (h : Writes w r) (h' : Writes w' r') :
    Writes (if c then w else w') (if c then r else r') := by
  split
  · exact h
  · exact h'

theorem Writes.onlyIf {c : Prop} [Decidable c] (h : Writes w (.ok a)) :
    Writes (onlyIf c w) (.ok (if c then a else [])) := by
  unfold Writer.onlyIf
  split
  · exact h
  · exact logs_pure ()

theorem writes_putIfGiven (string : Option (List UInt8)) (stringLen : UInt16) :
    Writes (putIfGiven string stringLen) (.ok (match string with
      | none => []
      | some string => writeUtf8String string stringLen)) := by
  cases string with
  | none => exact logs_pure ()
  | some string => exact writes_put _

/-- What follows the header is only written if there is one. -/
theorem writes_putHeader (messageType : MessageType) (qos : QoS) (dup retained : UInt8)
    (h : Writes w (.ok b)) :
    Writes (putHeader messageType qos dup retained >>= fun _ => w)
      (initHeader messageType qos dup retained >>= fun header => .ok (header :: b)) := by
  unfold putHeader
  cases initHeader messageType qos dup retained with
  | error rc => exact (logs_throw rc).bind_error
  | ok header => exact (writes_put [header]).seq h

/-- What is in the buffer in the end. -/
theorem Writes.output_of_ok (h : Writes w (.ok a)) : w.output = (.ok (), a) := Logs.output_eq h

theorem Writes.output_of_error {rc : IotError} (h : Writes w (.error rc)) :
    w.output = (.error rc, []) := Logs.output_eq h

end Rules

end Writer

open Writer

/-! ## The serializers -/

/-- `_aws_iot_mqtt_serialize_connect`. -/
def writeConnectPacket (txBufLen : Nat) (params : ConnectParams) : Writer Unit :=
  if (params.clientID.isNone && params.clientIDLen ≠ 0) ||
      (params.clientID.isSome && params.clientIDLen = 0) then
    throw .nullValueError
  else if params.mqttVersion ≠ 4 then
    throw .mqttConnackUnacceptableProtocolVersionError
  else
    let len := getConnectPacketLength params
    if getFinalPacketLengthFromRemainingLength len > txBufLen then
      throw .mqttTxBufferTooShortError
    else do
      putHeader .connect qos0 0 0
      put (writeLenToBuffer len)
      put (writeUtf8String [77, 81, 84, 84] 4)
      put [params.mqttVersion]
      put [connectFlags params]
      put (writeUint16 params.keepAliveIntervalInSec)
      put (match params.clientID with
        | none => writeUint16 0
        | some clientID => writeUtf8String clientID params.clientIDLen)
      onlyIf params.isWillMsgPresent do
        put (writeUtf8String params.will.topicName params.will.topicNameLen)
        put (writeUtf8String params.will.message params.will.msgLen)
      putIfGiven params.username params.usernameLen
      putIfGiven params.password params.passwordLen

/-- `_aws_iot_mqtt_internal_serialize_publish`. -/
def writePublishPacket (txBufLen : Nat) (dup : UInt8) (qos : QoS) (retained : UInt8)
    (packetId : UInt16) (topicName : List UInt8) (topicNameLen : UInt16)
    (payload : Option (List UInt8)) (payloadLen : Nat) : Writer Unit :=
  match payload with
  | none => throw .nullValueError
  | some payload =>
      let remLen := (topicNameLen.toNat + payloadLen + 2) % 2 ^ 32
      let remLen := if qos > 0 then (remLen + 2) % 2 ^ 32 else remLen
      if getFinalPacketLengthFromRemainingLength remLen > txBufLen then
        throw .mqttTxBufferTooShortError
      else do
        putHeader .publish qos dup retained
        put (writeLenToBuffer remLen)
        put (writeUtf8String topicName topicNameLen)
        onlyIf (qos > 0) (put (writeUint16 packetId))
        put (memcpy payload payloadLen)

/-- `aws_iot_mqtt_internal_serialize_ack`. -/
def writeAckPacket (txBufLen : Nat) (messageType : MessageType) (dup : UInt8)
    (packetId : UInt16) : Writer Unit :=
  if 4 > txBufLen then throw .mqttTxBufferTooShortError
  else do
    putHeader messageType (if messageType = .pubrel then qos1 else qos0) dup 0
    put (writeLenToBuffer 2)
    put (writeUint16 packetId)

/-- `aws_iot_mqtt_internal_serialize_zero`. -/
def writeZeroPacket (txBufLen : Nat) (packetType : MessageType) : Writer Unit :=
  if 4 > txBufLen then throw .mqttTxBufferTooShortError
  else do
    putHeader packetType qos0 0 0
    put (writeLenToBuffer 0)

/-- `_aws_iot_mqtt_serialize_subscribe`. -/
def writeSubscribePacket (txBufLen : Nat) (dup : UInt8) (packetId : UInt16)
    (filters : List FilterRequest) : Writer Unit :=
  let remLen := filters.foldl (fun len f => (len + (f.2.1.toNat + 2 + 1)) % 2 ^ 32) 2
  if getFinalPacketLengthFromRemainingLength remLen > txBufLen then
    throw .mqttTxBufferTooShortError
  else do
    putHeader .subscribe qos1 dup 0
    put (writeLenToBuffer remLen)
    put (writeUint16 packetId)
    forEach (fun f => do
      put (writeUtf8String f.1 f.2.1)
      put [f.2.2]) filters

/-- `_aws_iot_mqtt_serialize_unsubscribe`. -/
def writeUnsubscribePacket (txBufLen : Nat) (dup : UInt8) (packetId : UInt16)
    (filters : List (List UInt8 × UInt16)) : Writer Unit :=
  let remLen := filters.foldl (fun len f => (len + (f.2.toNat + 2)) % 2 ^ 32) 2
  if getFinalPacketLengthFromRemainingLength remLen > txBufLen then
    throw .mqttTxBufferTooShortError
  else do
    putHeader .unsubscribe qos1 dup 0
    put (writeLenToBuffer remLen)
    put (writeUint16 packetId)
    forEach (fun f => put (writeUtf8String f.1 f.2)) filters

/-! ## They write what they answer -/

theorem writes_writeAckPacket (txBufLen : Nat) (messageType : MessageType) (dup : UInt8)
    (packetId : UInt16) :
    Writer.Writes (writeAckPacket txBufLen messageType dup packetId)
      (serializeAck txBufLen messageType dup packetId) := by
  apply Writer.Writes.ite (writes_throw _)
  exact writes_putHeader _ _ _ _ ((writes_put _).seq (writes_put _))

theorem writes_writeZeroPacket (txBufLen : Nat) (packetType : MessageType) :
    Writer.Writes (writeZeroPacket txBufLen packetType) (serializeZero txBufLen packetType) := by
  apply Writer.Writes.ite (writes_throw _)
  exact writes_putHeader _ _ _ _ (writes_put _)

theorem writes_writePublishPacket (txBufLen : Nat) (dup : UInt8) (qos : QoS) (retained : UInt8)
    (packetId : UInt16) (topicName : List UInt8) (topicNameLen : UInt16)
    (payload : Option (List UInt8)) (payloadLen : Nat) :
    Writer.Writes
      (writePublishPacket txBufLen dup qos retained packetId topicName topicNameLen payload
        payloadLen)
      (serializePublish txBufLen dup qos retained packetId topicName topicNameLen payload
        payloadLen) := by
  cases payload with
  | none => exact writes_throw _
  | some payload =>
      apply Writer.Writes.ite (writes_throw _)
      simp only [List.cons_append, List.append_assoc]
      apply writes_putHeader
      exact (writes_put _).seq ((writes_put _).seq ((writes_put _).onlyIf.seq (writes_put _)))

theorem writes_writeConnectPacket (txBufLen : Nat) (params : ConnectParams) :
    Writer.Writes (writeConnectPacket txBufLen params) (serializeConnect txBufLen params) := by
  apply Writer.Writes.ite (writes_throw _)
  apply Writer.Writes.ite (writes_throw _)
  apply Writer.Writes.ite (writes_throw _)
  simp only [List.cons_append, List.append_assoc]
  apply writes_putHeader
  have hwill := ((writes_put (writeUtf8String params.will.topicName params.will.topicNameLen)).seq
    (writes_put (writeUtf8String params.will.message params.will.msgLen))).onlyIf
    (c := params.isWillMsgPresent)
  exact (writes_put _).seq ((writes_put _).seq ((writes_put _).seq ((writes_put _).seq
    ((writes_put _).seq ((writes_put _).seq (hwill.seq
      ((writes_putIfGiven _ _).seq (writes_putIfGiven _ _))))))))

theorem writes_writeSubscribePacket (txBufLen : Nat) (dup : UInt8) (packetId : UInt16)
    (filters : List FilterRequest) :
    Writer.Writes (writeSubscribePacket txBufLen dup packetId filters)
      (serializeSubscribe txBufLen dup packetId filters) := by
  apply Writer.Writes.ite (writes_throw _)
  simp only [List.cons_append, List.append_assoc]
  apply writes_putHeader
  have hfilter (f : FilterRequest) := (writes_put (writeUtf8String f.1 f.2.1)).seq
    (writes_put [f.2.2])
  exact (writes_put _).seq ((writes_put _).seq (logs_forEach hfilter filters))

theorem writes_writeUnsubscribePacket (txBufLen : Nat) (dup : UInt8) (packetId : UInt16)
    (filters : List (List UInt8 × UInt16)) :
    Writer.Writes (writeUnsubscribePacket txBufLen dup packetId filters)
      (serializeUnsubscribe txBufLen dup packetId filters) := by
  apply Writer.Writes.ite (writes_throw _)
  simp only [List.cons_append, List.append_assoc]
  apply writes_putHeader
  exact (writes_put _).seq ((writes_put _).seq (logs_forEach (fun f => writes_put _) filters))

end MqttClient
