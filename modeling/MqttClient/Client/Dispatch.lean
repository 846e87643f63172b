import MqttClient.Client.Packet

/-! # Dispatching incoming packets

Message handlers are application code: they may make any call, which runs to
its end before the handler goes on. The functions here take what a call does as
the parameter `call`, and are tied to the calls themselves in
`MqttClient.Client.Api`.
-/

namespace MqttClient

open Effect

/-- Application code: it makes calls until it returns. -/
def application (fuel : Nat) (call : Call → M IotError) : M Unit :=
  Program.loop (fun _ => do
    let (next : Option Call) ← Program.query (A := Answer) .application
    match next with
    | none => return .inr ()
    | some c => do
        let _ ← call c
        return .inl ()) fuel ()

/-- Call the handler of a slot with what its topic and payload pointers point
to at this moment. -/
def callHandler (fuel : Nat) (call : Call → M IotError) (h : MessageHandler) (topicOff : Nat)
    (topicNameLen : UInt16) : M Unit := do
  match h.applicationHandler with
  | none => return ()
  | some name =>
      Program.modify fun w =>
        let payload := match w.messages with
          | [] => []
          | msg :: _ => w.client.readBuf.load msg.payloadOff msg.payloadLen
        w.log (.delivered name (w.client.readBuf.load topicOff topicNameLen.toNat) payload
          h.applicationHandlerData)
      let _ ← framed (.handler name) do
        application fuel call
        return .success
      return ()

/-- The loop of `internalDeliverMessage`, with `remaining` slots to go. -/
def deliverMessageLoop (fuel : Nat) (call : Call → M IotError) (topicOff : Nat)
    (topicNameLen : UInt16) : Nat → M Unit
  | 0 => return ()
  | remaining + 1 => do
      let c ← getClient
      let h := c.messageHandlers.slot (numSubscribeHandlers - (remaining + 1))
      if h.receives (c.readBuf.load topicOff topicNameLen.toNat) topicNameLen then
        callHandler fuel call h topicOff topicNameLen
        deliverMessageLoop fuel call topicOff topicNameLen remaining
      else deliverMessageLoop fuel call topicOff topicNameLen remaining

/-- `_aws_iot_mqtt_internal_deliver_message`. -/
def internalDeliverMessage (fuel : Nat) (call : Call → M IotError) (topicOff : Nat)
    (topicNameLen : UInt16) : M IotError := do
  let clientState ← getClientState
  let _ ← setClientState .other clientState .connectedWaitForCbReturn
  deliverMessageLoop fuel call topicOff topicNameLen numSubscribeHandlers
  setClientState .other .connectedWaitForCbReturn clientState

/-- Put the parameter block of `internalHandlePublish` on its stack. -/
def pushMessage (msg : MessageParams) : M Unit :=
  Program.modify fun w => { w with messages := msg :: w.messages }

/-- Take the block off again, with what handlers have made of it. -/
def popMessage (msg : MessageParams) : M MessageParams :=
  Program.atomically (fun w => w.messages.headD msg)
    (fun w => { w with messages := w.messages.tail })

/-- `_aws_iot_mqtt_internal_handle_publish`. -/
def internalHandlePublish (fuel : Nat) (call : Call → M IotError) (timer : TimerName) :
    M IotError := do
  let c ← getClient
  match deserializePublish c.readBuf c.readBufSize with
  | .error rc => return rc
  | .ok f =>
      let msg : MessageParams :=
        ⟨f.qos, f.retained, f.dup, f.packetId.getD 0, f.payloadOff, f.payloadLen⟩
      pushMessage msg
      let rc ← internalDeliverMessage fuel call f.topicOff f.topicNameLen
      let msg ← popMessage msg
      onSuccess rc do
        if msg.qos = qos0 then return .success
        else
          serialized (fun c => serializeAck c.writeBufSize .puback 0 msg.id) fun len =>
            internalSendPacket fuel (len % 2 ^ 32) timer

/-- The `switch` of `internalCycleRead` over the type of the packet read. -/
def dispatchPacket (fuel : Nat) (call : Call → M IotError) (timer : TimerName)
    (packetType : UInt8) : M IotError :=
  match MessageType.ofNibble packetType with
  | .connack | .puback | .suback | .unsuback => return .success
  | .publish => internalHandlePublish fuel call timer
  | .pubrec | .pubcomp => return .success
  | .pingresp => do
      modifyClient fun c => { c with isPingOutstanding := false }
      let c ← getClient
      countdown .ping c.keepAliveInterval.toUInt32
      return .success
  | _ => return .mqttRxMessagePacketTypeInvalidError

theorem dispatchPacket_ack {call : Call → M IotError} {packetType : MessageType} (fuel : Nat)
    (timer : TimerName) (h : packetType.isAck = true) :
    dispatchPacket fuel call timer packetType.code = pure .success := by
  cases packetType <;> first | rfl | cases h

/-- `aws_iot_mqtt_internal_cycle_read`: its result, and the packet type if a
packet was read. -/
def internalCycleRead (fuel : Nat) (call : Call → M IotError) (timer : TimerName) :
    M (IotError × Option UInt8) := do
  let threadRc ← lockMutex .tlsRead
  if threadRc ≠ .success then return (threadRc, none)
  else
    let r ← internalReadPacket fuel
    let threadRc ← unlockMutex .tlsRead
    match r with
    | .error .mqttNothingToRead =>
        return if threadRc ≠ .success then (threadRc, none) else (.success, none)
    | .error rc => return (rc, none)
    | .ok packetType =>
        if threadRc ≠ .success then return (threadRc, some packetType)
        else
          let rc ← dispatchPacket fuel call timer packetType
          return (rc, some packetType)

/-- One turn of the loop of `internalWaitForRead`, with the type of the last
packet it has read. -/
def waitForReadStep (fuel : Nat) (call : Call → M IotError) (packetType : MessageType)
    (readPacketType : UInt8) : M (UInt8 ⊕ IotError × UInt8) := do
  let expired ← hasTimerExpired .command
  if expired then return .inr (.mqttRequestTimeoutError, readPacketType)
  else
    let (rc, type) ← internalCycleRead fuel call .command
    let readPacketType := type.getD readPacketType
    if rc ≠ .networkDisconnectedError ∧ readPacketType ≠ packetType.code then
      return .inl readPacketType
    else return .inr (rc, readPacketType)

/-- `aws_iot_mqtt_internal_wait_for_read`. -/
def internalWaitForRead (fuel : Nat) (call : Call → M IotError) (packetType : MessageType) :
    M IotError :=
  framed (.waiting packetType) do
    let (rc, readPacketType) ← Program.loop (waitForReadStep fuel call packetType) fuel 0
    if rc ≠ .mqttRequestTimeoutError ∧ rc ≠ .networkDisconnectedError ∧
        readPacketType ≠ packetType.code then return .failure
    else return rc

end MqttClient
