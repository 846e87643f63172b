import MqttClient.Shadow.Records
import Mathlib.Data.List.TakeWhile

/-! # The shadow interface

The actions on shadows, the calls of the interface, and the dispatch of incoming
messages to the layer's own handlers and to those of the application.
-/

namespace MqttClient.Shadow

open Effect

/-! ## Actions -/

/-- The part of `aws_iot_shadow_internal_action` that makes sure that the topics
of the answers are subscribed. -/
def awaitAcks (fuel : Nat) (call : Procedure → M IotError) (p : Target) (isSticky : Bool) :
    M IotError := do
  let w ← Program.get
  if w.isSubscriptionPresent p then
    Program.modify (·.incrementSubscriptionCnt p isSticky)
    return .success
  else subscribeToShadowActionAcks fuel call p isSticky

/-- The part of `aws_iot_shadow_internal_action` for a request with a token and a
callback, whose answer is awaited. -/
def trackedAction (fuel : Nat) (call : Procedure → M IotError) (p : Target)
    (jsonDocument token : List UInt8) (callback : CallbackName) (callbackContext : Nat)
    (isSticky : Bool) : M IotError := do
  let w ← Program.get
  match w.getNextFreeIndexOfAckWaitList with
  | none => return .failure
  | some i => do
      let rc ← awaitAcks fuel call p isSticky
      onSuccess rc do
        let rc ← publishToShadowAction p jsonDocument
        onSuccess rc do
          Program.modify fun w =>
            (w.addToAckWaitList i p token callback callbackContext).log (.awaited i p isSticky)
          return .success

def World.requestToken (w : World) (jsonDocument : List UInt8) : Option (List UInt8) :=
  (extractClientToken (.ofText jsonDocument) w.jsonTokenStruct).1

def World.withRequest (w : World) (args : ActionArgs) (jsonDocument : List UInt8) : World :=
  ({ w with jsonTokenStruct :=
      (extractClientToken (.ofText jsonDocument) w.jsonTokenStruct).2 } : World).log
    (.enter (.action args (w.requestToken jsonDocument)))

/-- The part of `aws_iot_shadow_internal_action` behind the extraction of the token. -/
def requestAction (fuel : Nat) (call : Procedure → M IotError) (args : ActionArgs) (p : Target)
    (jsonDocument : List UInt8) (token : Option (List UInt8)) : M IotError :=
  match token, args.callback with
  | some token, some callback =>
      trackedAction fuel call p jsonDocument token callback args.callbackContext args.isSticky
  | _, _ => publishToShadowAction p jsonDocument

/-- Look for the token of a request, go on with it, and return. -/
def requested (args : ActionArgs) (jsonDocument : List UInt8)
    (body : Option (List UInt8) → M IotError) : M IotError := do
  let token ← Program.atomically (·.requestToken jsonDocument) (·.withRequest args jsonDocument)
  let rc ← body token
  emit (.leave (.action args token) rc)
  return rc

/-- `aws_iot_shadow_internal_action`. -/
def internalAction (fuel : Nat) (call : Procedure → M IotError) (args : ActionArgs) : M IotError :=
  match args.thingName, args.jsonDocument with
  | some thing, some doc =>
      requested args doc.chars (requestAction fuel call args ⟨thing.chars, args.action⟩ doc.chars)
  | _, _ => return .nullValueError

/-- `%d` of a 32-bit variable that has no sign. -/
def printToken (n : UInt32) : List UInt8 := ascii (toString (n.toInt32.toInt))

/-- `emptyJsonWithClientToken`, with `FillWithClientToken`. -/
def World.emptyJsonWithClientToken (w : World) : List UInt8 :=
  ascii "\x7b\"clientToken\":\"" ++ w.mqttClientID ++ ascii "-" ++ printToken w.clientTokenNum ++
    ascii "\"\x7d"

/-- `clientTokenNum++`. -/
def World.withTokenUsed (w : World) : World := { w with clientTokenNum := w.clientTokenNum + 1 }

/-- The string that a text is, which ends at the first zero. -/
def Text.ofChars (chars : List UInt8) : Text where
  chars := chars.takeWhile (· ≠ 0)
  nonzero := fun h => by simpa using List.mem_takeWhile_imp h

/-- `if(!aws_iot_mqtt_is_client_connected(pClient)) return MQTT_CONNECTION_ERROR;` -/
def ifConnected (next : M IotError) : M IotError := do
  let (connected : Bool) ← ask .isClientConnected
  if connected then next else return .mqttConnectionError

/-- `aws_iot_shadow_get` and `aws_iot_shadow_delete`, whose document holds nothing
but a token. -/
def requestWithToken (fuel : Nat) (call : Procedure → M IotError) (action : ShadowAction)
    (thingName : Option Text) (callback : Option CallbackName) (contextData : Nat)
    (timeoutSeconds : UInt8) (isPersistentSubscribe : Bool) : M IotError :=
  ifConnected do
    let doc ← Program.atomically World.emptyJsonWithClientToken World.withTokenUsed
    internalAction fuel call ⟨thingName, action, some (.ofChars doc), callback, contextData,
      timeoutSeconds.toUInt32, isPersistentSubscribe⟩

/-! ## Connecting -/

/-- The world after `aws_iot_mqtt_init`, which clears the message handlers. -/
def World.withoutHandlers (w : World) : World := { w with messageHandlers := fun _ => none }

/-- The world in which `aws_iot_shadow_connect` has copied the names. -/
def World.withNames (w : World) (myThingName mqttClientId : Text) : World :=
  { w with
    myThingName := myThingName.chars.take (maxSizeOfThingName - 1)
    mqttClientID := mqttClientId.chars.take (maxSizeOfUniqueClientIdBytes - 1) }

/-- The world in which `aws_iot_shadow_connect` has printed the topic of deletions. -/
def World.withDeleteTopic (w : World) : World :=
  { w with deleteAcceptedTopic := w.ownTopic "/shadow/delete/accepted" }

/-- `aws_iot_shadow_reset_last_received_version`. -/
def World.resetLastReceivedVersion (w : World) : World :=
  ({ w with shadowJsonVersionNum := 0 } : World).log .versionReset

def World.initDeltaTokens (w : World) : World :=
  { w with tokenTable := [], deltaTopicSubscribedFlag := false }

/-- `aws_iot_shadow_init`; the parameters and the TLS layer answer through the code. -/
def shadowInit : M IotError := do
  let (rc : IotError) ← ask (.send .init)
  if rc = .nullValueError then return rc
  else
    Program.modify World.withoutHandlers
    onSuccess rc do
      -- `resetClientTokenSequenceNum`
      Program.modify fun w => { w with clientTokenNum := 0 }
      Program.modify World.resetLastReceivedVersion
      Program.modify World.initDeltaTokens
      return .success

/-- `aws_iot_shadow_connect`. The handler of deletions is subscribed through a
local array, and also where connecting has failed. -/
def shadowConnect (fuel : Nat) (call : Procedure → M IotError)
    (params : Option ShadowConnectParams) : M IotError := do
  match params.bind fun params => params.mqttClientId.map (params, ·) with
  | none => return .nullValueError
  | some (params, mqttClientId) => do
      Program.modify (·.withNames params.myThingName mqttClientId)
      let rc ← waitFor fuel call .connect
      doIf (rc = .success) (Program.modify World.initializeRecords)
      match params.deleteActionHandler with
      | none => return rc
      | some name => do
          Program.modify World.withDeleteTopic
          mqttSubscribe fuel call .deleteAcceptedTopic (.application name)

/-- `aws_iot_shadow_register_delta`. -/
def registerDelta (fuel : Nat) (call : Procedure → M IotError) (s : Option JsonStruct) :
    M IotError :=
  match s with
  | none => return .nullValueError
  | some s => ifConnected (registerJsonTokenOnDelta fuel call s)

/-- `aws_iot_shadow_yield`. -/
def shadowYield (fuel : Nat) (call : Procedure → M IotError) : M IotError := do
  handleExpiredResponseCallbacks fuel call
  waitFor fuel call .yield

/-! ## Incoming messages -/

/-- The test by which `deliverMessage` selects a message handler. -/
def World.receives (w : World) (s : Subscription) (m : MessageRef) : Bool :=
  let topicName := w.readBuf.load m.topicOff m.topicNameLen.toNat
  let topicFilter := w.topicText s.topicName
  (m.topicNameLen = s.topicNameLen && strncmpEq topicName topicFilter m.topicNameLen.toNat) ||
    isTopicMatched topicFilter topicName

def callHandler (fuel : Nat) (call : Procedure → M IotError) (m : MessageRef) : Handler → M Unit
  | .ackStatusCallback => ackStatusCallback fuel call m
  | .shadowDeltaCallback => shadowDeltaCallback fuel call m
  | .application name => framedVoid (.handler name) (application fuel call)

/-- `_aws_iot_mqtt_internal_deliver_message`. -/
def deliverMessage (fuel : Nat) (call : Procedure → M IotError) (m : MessageRef) : M Unit :=
  Program.forEach (fun j => do
    let w ← Program.get
    match w.messageHandlers j with
    | none => return ()
    | some s => if w.receives s m then callHandler fuel call m s.handler else return ())
    (List.finRange numSubscribeHandlers)

/-- The message in the receive buffer, if it holds one. -/
def World.incoming (w : World) : Option MessageRef :=
  match deserializePublish w.readBuf mqttRxBufLen with
  | .error _ => none
  | .ok f => some ⟨f.topicOff, f.topicNameLen, f.payloadOff, f.payloadLen⟩

/-- Store a packet and, if it is a message, hand it to the message handlers. -/
def dispatchPacket (fuel : Nat) (call : Procedure → M IotError) (packet : List UInt8) :
    M IotError := do
  Program.modify fun w => { w with readBuf := w.readBuf.store 0 packet }
  lookAtFormerLocal
  let w ← Program.get
  match w.incoming with
  | none => return .success
  | some m => do
      deliverMessage fuel call m
      return .success

/-- A packet has been read. -/
def receivePacket (fuel : Nat) (call : Procedure → M IotError) (packet : List UInt8) :
    M IotError := framed (.receiving packet) (dispatchPacket fuel call packet)

/-! ## The interface -/

/-- What a call does; the calls made meanwhile are made through `call`. -/
def perform (fuel : Nat) (call : Procedure → M IotError) : Call → M IotError
  | .init => shadowInit
  | .connect params => shadowConnect fuel call params
  | .disconnect => ask (.send .disconnect)
  | .update thingName jsonString callback contextData timeoutSeconds isPersistentSubscribe =>
      ifConnected (internalAction fuel call ⟨thingName, .update, jsonString, callback, contextData,
        timeoutSeconds.toUInt32, isPersistentSubscribe⟩)
  | .get thingName callback contextData timeoutSeconds isPersistentSubscribe =>
      requestWithToken fuel call .get thingName callback contextData timeoutSeconds
        isPersistentSubscribe
  | .delete thingName callback contextData timeoutSeconds isPersistentSubscribe =>
      requestWithToken fuel call .delete thingName callback contextData timeoutSeconds
        isPersistentSubscribe
  | .internalAction args => internalAction fuel call args
  | .registerDelta s => registerDelta fuel call s
  | .yield _ => shadowYield fuel call
  | .resetLastReceivedVersion => do
      Program.modify World.resetLastReceivedVersion
      return .success
  | .enableDiscardOldDeltaMsgs => do
      Program.modify fun w => { w with shadowDiscardOldDeltaFlag := true }
      return .success
  | .disableDiscardOldDeltaMsgs => do
      Program.modify fun w => { w with shadowDiscardOldDeltaFlag := false }
      return .success
  | .mqttSubscribe topic handler =>
      mqttSubscribe fuel call (.own topic.chars) (.application handler)
  | .mqttUnsubscribe topic => mqttUnsubscribe fuel call topic.chars
  | .mqttPublish topic payload qos =>
      if qos = qos0 then mqttPublish topic payload else mqttPublishQos1 fuel call topic payload

/-- A procedure, in which `call` stands for those that run meanwhile. -/
def runProcedure (fuel : Nat) (call : Procedure → M IotError) : Procedure → M IotError
  | .call c => framed (.call c) (perform fuel call c)
  | .receive packet => receivePacket fuel call packet

/-- Procedures with enough fuel for so many nested calls and turns of loops. -/
def api : Nat → Procedure → M IotError := Program.recursive runProcedure

/-- The application at work, from its first call on. -/
def app (fuel : Nat) : M Unit := application fuel (api fuel)

end MqttClient.Shadow
