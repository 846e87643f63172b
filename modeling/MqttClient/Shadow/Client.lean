import MqttClient.Shadow.World
import MqttClient.Wire.Deserialize

/-! # The client below the shadow layer

The client's operations as the layer sees them: what they do to the message
handlers, which codes they answer, and which packets arrive while they wait.
Which packets those are and whether an operation succeeds is left to the
environment; that the client's own code is such an environment is shown in
`MqttClient.Shadow.Link`. A packet that arrives is dispatched in the middle of the operation,
so that dispatching is a procedure of its own, tied to the others in
`MqttClient.Shadow.Api`.
-/

namespace MqttClient.Shadow

open Effect

/-- What runs to its end before its caller goes on. -/
inductive Procedure where
  | call (c : Call)
  /-- A packet has been read into the receive buffer. -/
  | receive (packet : List UInt8)

/-- Application code: it makes calls until it returns. -/
def application (fuel : Nat) (call : Procedure → M IotError) : M Unit :=
  Program.loop (fun _ => do
    let (next : Option Call) ← ask .application
    match next with
    | none => return .inr ()
    | some c => do
        let _ ← call (.call c)
        return .inl ()) fuel ()

/-- Read packets until the request is done. -/
def waitFor (fuel : Nat) (call : Procedure → M IotError) (r : Request) : M IotError :=
  Program.loop (fun _ => do
    let (next : Traffic) ← ask (.wait r)
    match next with
    | .done rc => return .inr rc
    | .packet bytes => do
        let _ ← call (.receive bytes)
        return .inl ()) fuel ()

/-- Claim the client for a request and give it back afterwards. -/
def claimed (r : Request) (body : M IotError) : M IotError := do
  let (rc : IotError) ← ask (.claim r)
  onSuccess rc do
    let bodyRc ← body
    let (rc : IotError) ← ask (.release r)
    return if bodyRc = .success ∧ rc ≠ .success then rc else bodyRc

namespace World

/-- `_aws_iot_mqtt_get_free_message_handler_index`. -/
def getFreeMessageHandlerIndex (w : World) : Option HandlerIndex :=
  firstIndex fun j => (w.messageHandlers j).isNone

def setHandler (w : World) (j : HandlerIndex) (s : Subscription) : World :=
  { w with messageHandlers := Function.update w.messageHandlers j (some s) }

/-- The message handler's topic name is this string. -/
def hasFilter (w : World) (s : Subscription) (topic : List UInt8) : Bool :=
  w.topicText s.topicName = topic

/-- Some message handler has this topic name. -/
def subscriptionExists (w : World) (topic : List UInt8) : Bool :=
  (List.finRange numSubscribeHandlers).any fun j =>
    match w.messageHandlers j with
    | none => false
    | some s => w.hasFilter s topic

/-- Free the message handlers with this topic name. -/
def withoutFilter (w : World) (topic : List UInt8) : World :=
  { w with messageHandlers := fun j => (w.messageHandlers j).filter fun s => !w.hasFilter s topic }

end World

/-- The local array of `aws_iot_shadow_connect` is looked at. -/
def lookAtFormerLocal : M Unit := do
  let (text : List UInt8) ← ask .formerLocal
  Program.modify fun w => { w with deleteAcceptedTopic := text }

/-- The part of `aws_iot_mqtt_subscribe` behind the choice of a slot: send the
SUBSCRIBE, wait for its SUBACK and fill the slot. -/
def subscribeInSlot (fuel : Nat) (call : Procedure → M IotError) (r : Request) (j : HandlerIndex)
    (s : Subscription) : M IotError := do
  let rc ← waitFor fuel call r
  onSuccess rc do
    Program.modify (·.setHandler j s)
    return .success

/-- `aws_iot_mqtt_subscribe`, to the topic that is in `buffer`. -/
def mqttSubscribe (fuel : Nat) (call : Procedure → M IotError) (buffer : TopicBuffer)
    (handler : Handler) : M IotError := do
  let w ← Program.get
  let topic := w.topicText buffer
  let r := Request.subscribe buffer topic
  claimed r do
    let w ← Program.get
    match w.getFreeMessageHandlerIndex with
    | none => return .mqttMaxSubscriptionsReachedError
    | some j => subscribeInSlot fuel call r j ⟨buffer, topic.length.toUInt16, handler, topic⟩

/-- `aws_iot_mqtt_unsubscribe`. -/
def mqttUnsubscribe (fuel : Nat) (call : Procedure → M IotError) (topic : List UInt8) :
    M IotError := do
  emit (.unsubscribe topic)
  claimed (.unsubscribe topic) do
    lookAtFormerLocal
    let w ← Program.get
    if !w.subscriptionExists topic then return .failure
    else
      let rc ← waitFor fuel call (.unsubscribe topic)
      onSuccess rc do
        Program.modify (·.withoutFilter topic)
        return .success

/-- `aws_iot_mqtt_publish` of a QoS 0 message, which is not acknowledged. -/
def mqttPublish (topic payload : List UInt8) : M IotError :=
  claimed (.publish topic payload) do
    let (rc : IotError) ← ask (.send (.publish topic payload))
    onSuccess rc do
      emit (.published topic payload)
      return .success

/-- `aws_iot_mqtt_publish` of a message that is acknowledged. -/
def mqttPublishQos1 (fuel : Nat) (call : Procedure → M IotError) (topic payload : List UInt8) :
    M IotError :=
  claimed (.publish topic payload) do
    let (rc : IotError) ← ask (.send (.publish topic payload))
    onSuccess rc do
      emit (.published topic payload)
      waitFor fuel call (.publish topic payload)

end MqttClient.Shadow
