import MqttClient.Client.Handlers
import MqttClient.Effect.Logic
import MqttClient.Shadow.Json
import MqttClient.Shadow.Topics

/-! # The shadow layer, its environment and what is recorded of a run

The layer keeps its state in global tables, and its subscriptions in the table
of message handlers of the client below. The environment is that client, as far
as the network decides what it does, the clock and the application. A run keeps
a trace, which no operation reads.
-/

namespace MqttClient.Shadow

open Effect

/-! ## The tables -/

/-- `MAX_ACKS_TO_COMEIN_AT_ANY_GIVEN_TIME` and `MAX_TOPICS_AT_ANY_GIVEN_TIME`. -/
def maxAcks : Nat := 10
def maxTopics : Nat := 20

abbrev AckIndex := Fin maxAcks
abbrev SubscriptionIndex := Fin maxTopics
abbrev HandlerIndex := Fin numSubscribeHandlers

/-- The first index at which `p` holds. -/
def firstIndex {n : Nat} (p : Fin n → Bool) : Option (Fin n) := (List.finRange n).find? p

/-- The functions an application registers are known to the layer by name only. -/
abbrev CallbackName := Nat

/-- `Shadow_Ack_Status_t`. -/
inductive AckStatus where
  | timeout | rejected | accepted
  deriving DecidableEq

/-- `MAX_SIZE_CLIENT_ID_WITH_SEQUENCE` and `MAX_SIZE_OF_UNIQUE_CLIENT_ID_BYTES`. -/
def maxSizeClientIdWithSequence : Nat := 90
def maxSizeOfUniqueClientIdBytes : Nat := 80

/-- `ToBeReceivedAckRecord_t`, less its timer. The character arrays are given by
what `strncpy` has copied into them. -/
structure AckRecord where
  clientTokenID : List UInt8
  thingName : List UInt8
  action : ShadowAction
  callback : Option CallbackName
  callbackContext : Nat
  isFree : Bool

namespace AckRecord

/-- The bytes of an action in memory, up to the first zero. -/
def actionBytes : ShadowAction → List UInt8
  | .get => []
  | .update => [1]
  | .delete => [2]

/-- The string in `thingName`. Where the copy left no room for a terminator, the
string goes on into the action, which is the next field. -/
def thingText (r : AckRecord) : List UInt8 :=
  if r.thingName.length < maxSizeOfThingName then r.thingName
  else r.thingName ++ actionBytes r.action

/-- The string in `clientTokenID`; the next field is the thing's name. -/
def tokenText (r : AckRecord) : List UInt8 :=
  if r.clientTokenID.length < maxSizeClientIdWithSequence then r.clientTokenID
  else r.clientTokenID ++ r.thingText

def target (r : AckRecord) : Target := ⟨r.thingText, r.action⟩

end AckRecord

/-- `SubscriptionRecord_t`; of the topic its text is kept. -/
structure SubscriptionRecord where
  topic : List UInt8
  count : UInt8
  isFree : Bool
  isSticky : Bool

/-- What the topic name of a message handler points to. -/
inductive TopicBuffer where
  /-- The topic of an entry of `SubscriptionList`. -/
  | subscriptionList (i : SubscriptionIndex)
  | shadowDeltaTopic
  /-- The local array of `aws_iot_shadow_connect`. -/
  | deleteAcceptedTopic
  /-- A buffer of the application that keeps its text. -/
  | own (text : List UInt8)
  deriving DecidableEq

/-- The functions to which messages are handed. -/
inductive Handler where
  | ackStatusCallback
  | shadowDeltaCallback
  | application (name : HandlerName)
  deriving DecidableEq

/-- A slot in use of the client's `messageHandlers`. -/
structure Subscription where
  topicName : TopicBuffer
  topicNameLen : UInt16
  handler : Handler
  /-- Not in the source: the topic filter that was sent when it was made. -/
  sent : List UInt8

/-- `jsonStruct_t`; the address of its data does not matter. -/
structure JsonStruct where
  key : List UInt8
  type : JsonPrimitiveType
  cb : Option CallbackName
  deriving DecidableEq

/-! ## Calls -/

/-- The arguments of `aws_iot_shadow_internal_action`. -/
structure ActionArgs where
  thingName : Option Text
  action : ShadowAction
  jsonDocument : Option Text
  callback : Option CallbackName
  callbackContext : Nat
  timeoutSeconds : UInt32
  isSticky : Bool

/-- `ShadowConnectParameters_t`, less the length of the client id. -/
structure ShadowConnectParams where
  myThingName : Text
  mqttClientId : Option Text
  deleteActionHandler : Option HandlerName

/-- The calls an application can make: those of the shadow interface, and those
of the client below that share its message handlers. -/
inductive Call where
  | init
  | connect (params : Option ShadowConnectParams)
  | disconnect
  | update (thingName : Option Text) (jsonString : Option Text) (callback : Option CallbackName)
      (contextData : Nat) (timeoutSeconds : UInt8) (isPersistentSubscribe : Bool)
  | get (thingName : Option Text) (callback : Option CallbackName) (contextData : Nat)
      (timeoutSeconds : UInt8) (isPersistentSubscribe : Bool)
  | delete (thingName : Option Text) (callback : Option CallbackName) (contextData : Nat)
      (timeoutSeconds : UInt8) (isPersistentSubscribe : Bool)
  | internalAction (args : ActionArgs)
  | registerDelta (s : Option JsonStruct)
  | yield (timeout : UInt32)
  | resetLastReceivedVersion
  | enableDiscardOldDeltaMsgs
  | disableDiscardOldDeltaMsgs
  | mqttSubscribe (topic : Text) (handler : HandlerName)
  | mqttUnsubscribe (topic : Text)
  | mqttPublish (topic payload : List UInt8) (qos : QoS)

/-! ## The environment -/

/-- What the client below is asked to do. -/
inductive Request where
  | init | connect | disconnect | yield
  | subscribe (buffer : TopicBuffer) (topic : List UInt8)
  | unsubscribe (topic : List UInt8)
  | publish (topic payload : List UInt8)

/-- What happens next to a client that waits: it stores a packet at the start of
its receive buffer, or it is done. -/
inductive Traffic where
  | packet (bytes : List UInt8)
  | done (rc : IotError)

/-- What the layer asks its environment. -/
inductive Query where
  /-- The application is running: which call does it make next, if any? -/
  | application
  /-- May the client start with the request, in the state in which it is? -/
  | claim (r : Request)
  /-- A step that does not read from the network. -/
  | send (r : Request)
  /-- A step that reads from the network until it is done. -/
  | wait (r : Request)
  /-- Has the client kept its state, so that it can go back to the one before? -/
  | release (r : Request)
  | isClientConnected
  | hasTimerExpired (i : AckIndex)
  | hasSettlingTimeExpired
  /-- The value of a variable that was not set. -/
  | indeterminate
  /-- What the memory in front of `SubscriptionList` holds, taken for an entry. -/
  | beforeSubscriptionList
  /-- What is left of the local array of `aws_iot_shadow_connect`. -/
  | formerLocal

abbrev Answer : Query → Type
  | .application => Option Call
  | .wait _ => Traffic
  | .isClientConnected | .hasTimerExpired _ | .hasSettlingTimeExpired => Bool
  | .indeterminate => UInt32
  | .beforeSubscriptionList => SubscriptionRecord
  | .formerLocal => List UInt8
  | _ => IotError

/-! ## The trace -/

/-- A message as its handler gets it: where in the receive buffer it lies. -/
structure MessageRef where
  topicOff : Nat
  topicNameLen : UInt16
  payloadOff : Nat
  payloadLen : Nat
  deriving DecidableEq

/-- What is in progress on the call stack. -/
inductive Frame where
  | call (c : Call)
  /-- A packet is being dispatched. -/
  | receiving (packet : List UInt8)
  /-- `aws_iot_shadow_internal_action`, for a document that carries this token. -/
  | action (args : ActionArgs) (token : Option (List UInt8))
  /-- Two entries of `SubscriptionList` are being filled. -/
  | subscribing (p : Target) (accepted rejected : SubscriptionIndex)
  /-- `AckStatusCallback`. -/
  | ackStatus (m : MessageRef)
  /-- `shadow_delta_callback`. -/
  | delta (m : MessageRef)
  /-- A record is answered, from its callback to its being free. -/
  | completing (i : AckIndex) (status : AckStatus)
  /-- `unsubscribeFromAcceptedAndRejected`. -/
  | releasing (i : AckIndex)
  /-- The application's code, called by the layer or by the client. -/
  | callback (name : CallbackName)
  | deltaCallback (name : CallbackName)
  | handler (name : HandlerName)

/-- What is recorded of a run. -/
inductive Event where
  | enter (frame : Frame)
  | leave (frame : Frame) (rc : IotError)
  /-- An UNSUBSCRIBE is due. -/
  | unsubscribe (topic : List UInt8)
  | published (topic payload : List UInt8)
  /-- A record was added that waits for an answer. -/
  | awaited (i : AckIndex) (p : Target) (isSticky : Bool)
  /-- The callback of a record is called. -/
  | answered (i : AckIndex) (record : AckRecord) (status : AckStatus)
  /-- The version kept is set back to zero. -/
  | versionReset
  /-- The version of a response is taken over. -/
  | versionTaken (version : UInt32)
  /-- A delta is dispatched, which carries this version if it carries one. -/
  | dispatched (version : Option UInt32) (document : List UInt8)
  /-- A registered key was found; the value is stored if it could be converted. -/
  | matched (s : JsonStruct) (stored : Option s.type.Data)
  /-- The callback of a registered key is called with these bytes and this length. -/
  | deltaCallback (s : JsonStruct) (value : List UInt8) (dataLength : UInt32)

/-- The newest event comes first. -/
abbrev Trace := List Event

/-- The calls in progress, the innermost first. -/
def Trace.stack : Trace → List Frame
  | [] => []
  | .enter f :: t => f :: Trace.stack t
  | .leave _ _ :: t => (Trace.stack t).tail
  | _ :: t => Trace.stack t

/-! ## The state -/

/-- The global variables of the layer, the message handlers and the receive
buffer of the client, and the trace. -/
structure World where
  ackWaitList : AckIndex → AckRecord
  subscriptionList : SubscriptionIndex → SubscriptionRecord
  messageHandlers : HandlerIndex → Option Subscription
  readBuf : Memory
  shadowRxBuf : Memory
  jsonTokenStruct : JsonTokens
  /-- The entries of `tokenTable` in use, of which there are `tokenTableIndex`. -/
  tokenTable : List JsonStruct
  deltaTopicSubscribedFlag : Bool
  shadowDeltaTopic : List UInt8
  /-- What is found where the local array of `aws_iot_shadow_connect` was. -/
  deleteAcceptedTopic : List UInt8
  myThingName : List UInt8
  mqttClientID : List UInt8
  clientTokenNum : UInt32
  shadowJsonVersionNum : UInt32
  shadowDiscardOldDeltaFlag : Bool
  trace : Trace

def shadowMaxSizeOfRxBuffer : Nat := 131073

/-- `AWS_IOT_MQTT_RX_BUF_LEN`. -/
def mqttRxBufLen : Nat := 131072

namespace World

def log (w : World) (e : Event) : World := { w with trace := e :: w.trace }

/-- The calls in progress. -/
def stack (w : World) : List Frame := w.trace.stack

/-- The document in `shadowRxBuf`. -/
def rxDocument (w : World) : Document := ⟨w.shadowRxBuf, shadowMaxSizeOfRxBuffer⟩

/-- The C string in the receive buffer from `off` on: it ends at the first zero
byte, wherever that is. -/
def readText (w : World) (off : Nat) : List UInt8 := Document.text ⟨w.readBuf, mqttRxBufLen⟩ off

/-- The bytes of the topic of a message. -/
def receivedTopic (w : World) (m : MessageRef) : List UInt8 :=
  w.readBuf.load m.topicOff m.topicNameLen.toNat

/-- The text to which the topic name of a message handler points. -/
def topicText (w : World) : TopicBuffer → List UInt8
  | .subscriptionList i => (w.subscriptionList i).topic
  | .shadowDeltaTopic => w.shadowDeltaTopic
  | .deleteAcceptedTopic => w.deleteAcceptedTopic
  | .own text => text

def setAck (w : World) (i : AckIndex) (r : AckRecord) : World :=
  { w with ackWaitList := Function.update w.ackWaitList i r }

def setSubscription (w : World) (i : SubscriptionIndex) (r : SubscriptionRecord) : World :=
  { w with subscriptionList := Function.update w.subscriptionList i r }

@[simp] theorem trace_log (w : World) (e : Event) : (w.log e).trace = e :: w.trace := rfl

@[simp] theorem stack_log_enter (w : World) (f : Frame) :
    (w.log (.enter f)).stack = f :: w.stack := rfl

@[simp] theorem stack_log_leave (w : World) (f : Frame) (rc : IotError) :
    (w.log (.leave f rc)).stack = w.stack.tail := rfl

end World

/-- The layer's code. -/
abbrev M := Program World Answer

/-! ## Primitive operations -/

def emit (e : Event) : M Unit := Program.modify (·.log e)

def ask (q : Query) : M (Answer q) := Program.query q

/-- `if(SUCCESS != rc) return rc;` -/
def onSuccess (rc : IotError) (next : M IotError) : M IotError :=
  if rc = .success then next else return rc

/-- `if(b) p;` -/
def doIf (b : Bool) (p : M Unit) : M Unit := if b then p else return ()

/-- Run `body` as a call that is in progress until it returns. -/
def framed (frame : Frame) (body : M IotError) : M IotError := do
  emit (.enter frame)
  let rc ← body
  emit (.leave frame rc)
  return rc

/-- A call that returns nothing. -/
def framedVoid (frame : Frame) (body : M Unit) : M Unit := do
  let _ ← framed frame do
    body
    return .success
  return ()

end MqttClient.Shadow
