import MqttClient.Shadow.Client

/-! # The tables of the shadow layer

Which acknowledgements are awaited and which topics are subscribed for them. A
topic is subscribed once for all actions that wait for it; its entry counts them.
-/

namespace MqttClient.Shadow

open Effect

/-! ## The list of subscriptions -/

namespace World

/-- Some entry in use has this topic, as far as `p` does not rule it out. -/
def isListed (w : World) (topic : List UInt8) : Bool :=
  (List.finRange maxTopics).any fun k =>
    !(w.subscriptionList k).isFree && (w.subscriptionList k).topic = topic

def isSubscriptionPresent (w : World) (p : Target) : Bool :=
  w.isListed p.accepted && (w.isListed p.rejected && p.accepted ≠ p.rejected)

def findIndexOfSubscriptionList (w : World) (topic : List UInt8) : Option SubscriptionIndex :=
  firstIndex fun k => !(w.subscriptionList k).isFree && (w.subscriptionList k).topic = topic

def incrementSubscriptionCnt (w : World) (p : Target) (isSticky : Bool) : World :=
  { w with subscriptionList := fun k =>
      let r := w.subscriptionList k
      if !r.isFree && (r.topic = p.accepted || r.topic = p.rejected) then
        { r with count := r.count + 1, isSticky := isSticky }
      else r }

/-- The first entry of `SubscriptionList` that is free. -/
def freeSubscription (w : World) : Option SubscriptionIndex :=
  firstIndex fun k => (w.subscriptionList k).isFree

/-- Change an entry of `SubscriptionList`. -/
def onSubscription (w : World) (k : SubscriptionIndex)
    (f : SubscriptionRecord → SubscriptionRecord) : World :=
  w.setSubscription k (f (w.subscriptionList k))

/-- The world in which `getNextFreeIndexOfSubscriptionList` has taken an entry. -/
def withSubscriptionTaken (w : World) : World :=
  match w.freeSubscription with
  | none => w
  | some k => w.onSubscription k fun r => { r with isFree := false }

end World

def getNextFreeIndexOfSubscriptionList : M (Option SubscriptionIndex) :=
  Program.atomically World.freeSubscription World.withSubscriptionTaken

def onSubscription (k : SubscriptionIndex) (f : SubscriptionRecord → SubscriptionRecord) : M Unit :=
  Program.modify (·.onSubscription k f)

/-- Half of `unsubscribeFromAcceptedAndRejected`, for one of its topics. -/
def releaseTopic (fuel : Nat) (call : Procedure → M IotError) (topic : List UInt8) : M Unit := do
  let w ← Program.get
  match w.findIndexOfSubscriptionList topic with
  | none => return ()
  | some k =>
      let r := w.subscriptionList k
      if !r.isSticky && r.count = 1 then
        let rc ← mqttUnsubscribe fuel call topic
        if rc = .success then onSubscription k fun r => { r with isFree := true } else return ()
      else if r.count > 1 then onSubscription k fun r => { r with count := r.count - 1 }
      else return ()

def unsubscribeFromAcceptedAndRejected (fuel : Nat) (call : Procedure → M IotError)
    (i : AckIndex) : M Unit :=
  framedVoid (.releasing i) do
    let w ← Program.get
    let p := (w.ackWaitList i).target
    releaseTopic fuel call p.accepted
    releaseTopic fuel call p.rejected

/-- Free the first of the two entries that there is. -/
def freeEntry (accepted rejected : Option SubscriptionIndex) : M Unit :=
  match accepted.or rejected with
  | none => return ()
  | some k => onSubscription k fun r => { r with isFree := true }

/-- The entry for the accepted topic; an index of -1 is in front of the list. -/
def readEntry (accepted : Option SubscriptionIndex) : M SubscriptionRecord :=
  match accepted with
  | none => ask .beforeSubscriptionList
  | some k => Program.atomically (·.subscriptionList k) id

/-- The end of `subscribeToShadowActionAcks` when the entries are not both
subscribed: only one of them is freed. -/
def clearEntries (fuel : Nat) (call : Procedure → M IotError)
    (accepted rejected : Option SubscriptionIndex) : M Unit := do
  freeEntry accepted rejected
  let r ← readEntry accepted
  if r.count = 1 then
    let _ ← mqttUnsubscribe fuel call r.topic
    return ()
  else return ()

/-- `while(!has_timer_expired(&subSettlingtimer))`. -/
def settle (fuel : Nat) : M Unit :=
  Program.loop (fun _ => do
    let (expired : Bool) ← ask .hasSettlingTimeExpired
    return if expired then .inr () else .inl ()) fuel ()

/-- Print a topic into an entry and subscribe to it. -/
def subscribeEntry (fuel : Nat) (call : Procedure → M IotError) (k : SubscriptionIndex)
    (topic : List UInt8) (isSticky : Bool) : M IotError := do
  onSubscription k fun r => { r with topic := topic }
  let rc ← mqttSubscribe fuel call (.subscriptionList k) .ackStatusCallback
  onSuccess rc do
    onSubscription k fun r => { r with count := 1, isSticky := isSticky }
    return .success

/-- The part of `subscribeToShadowActionAcks` that has two entries to fill. -/
def subscribeEntries (fuel : Nat) (call : Procedure → M IotError) (p : Target) (isSticky : Bool)
    (accepted rejected : SubscriptionIndex) : M IotError :=
  framed (.subscribing p accepted rejected) do
    let rc ← subscribeEntry fuel call accepted p.accepted isSticky
    onSuccess rc do
      let rc ← subscribeEntry fuel call rejected p.rejected isSticky
      onSuccess rc do
        settle fuel
        return .success

/-- `subscribeToShadowActionAcks`. Without two free entries it returns SUCCESS. -/
def subscribeToShadowActionAcks (fuel : Nat) (call : Procedure → M IotError) (p : Target)
    (isSticky : Bool) : M IotError := do
  let accepted ← getNextFreeIndexOfSubscriptionList
  let rejected ← getNextFreeIndexOfSubscriptionList
  match accepted, rejected with
  | some a, some k => do
      let rc ← subscribeEntries fuel call p isSticky a k
      if rc = .success then return .success
      else
        clearEntries fuel call accepted rejected
        return rc
  | _, _ => do
      clearEntries fuel call accepted rejected
      return .success

/-! ## The list of acknowledgements -/

namespace World

def getNextFreeIndexOfAckWaitList (w : World) : Option AckIndex :=
  firstIndex fun i => (w.ackWaitList i).isFree

/-- `addToAckWaitList`, less the timer. -/
def addToAckWaitList (w : World) (i : AckIndex) (p : Target) (token : List UInt8)
    (callback : CallbackName) (callbackContext : Nat) : World :=
  w.setAck i {
    clientTokenID := token.take maxSizeClientIdWithSequence
    thingName := p.thing.take maxSizeOfThingName
    action := p.action
    callback := some callback
    callbackContext := callbackContext
    isFree := false }

/-- `AckWaitList[i].isFree = true`. -/
def freeAck (w : World) (i : AckIndex) : World :=
  w.setAck i { w.ackWaitList i with isFree := true }

/-- The loops of `initializeRecords`. -/
def initializeRecords (w : World) : World :=
  { w with
    ackWaitList := fun i => { w.ackWaitList i with isFree := true }
    subscriptionList := fun k =>
      { w.subscriptionList k with isFree := true, count := 0, isSticky := false } }

end World

def publishToShadowAction (p : Target) (jsonDocument : List UInt8) : M IotError :=
  mqttPublish (p.topic .action) jsonDocument

/-- Call the callback of a record, if it has one. -/
def answerRecord (fuel : Nat) (call : Procedure → M IotError) (i : AckIndex) (status : AckStatus) :
    M Unit := do
  let w ← Program.get
  let r := w.ackWaitList i
  match r.callback with
  | none => return ()
  | some name => do
      emit (.answered i r status)
      framedVoid (.callback name) (application fuel call)

/-- What `AckStatusCallback` does with the record it has found. -/
def completeAck (fuel : Nat) (call : Procedure → M IotError) (i : AckIndex) (status : AckStatus) :
    M Unit :=
  framedVoid (.completing i status) do
    answerRecord fuel call i status
    unsubscribeFromAcceptedAndRejected fuel call i
    Program.modify (·.freeAck i)

/-- What `HandleExpiredResponseCallbacks` does with an expired record. -/
def completeExpired (fuel : Nat) (call : Procedure → M IotError) (i : AckIndex) : M Unit :=
  framedVoid (.completing i .timeout) do
    answerRecord fuel call i .timeout
    Program.modify (·.freeAck i)
    unsubscribeFromAcceptedAndRejected fuel call i

def handleExpiredResponseCallbacks (fuel : Nat) (call : Procedure → M IotError) : M Unit :=
  Program.forEach (fun i => do
    let w ← Program.get
    if (w.ackWaitList i).isFree then return ()
    else
      let (expired : Bool) ← ask (.hasTimerExpired i)
      if expired then completeExpired fuel call i else return ()) (List.finRange maxAcks)

/-! ## Messages -/

namespace World

/-- `memcpy` of a payload to `shadowRxBuf`, and the terminator. -/
def withPayload (w : World) (m : MessageRef) : World :=
  { w with shadowRxBuf :=
      (w.shadowRxBuf.store 0 (w.readBuf.load m.payloadOff m.payloadLen)).store m.payloadLen [0] }

/-- The tokens of the document in `shadowRxBuf`. -/
def withRxTokens (w : World) : World :=
  { w with jsonTokenStruct := (isJsonValidAndParse w.rxDocument w.jsonTokenStruct).2 }

/-- The number of tokens of the document in `shadowRxBuf`, if it is valid. -/
def rxTokenCount (w : World) : Option Nat :=
  (isJsonValidAndParse w.rxDocument w.jsonTokenStruct).1

/-- `extractVersionNumber` on the document in `shadowRxBuf`. -/
def rxVersion (w : World) (tokenCount : Nat) : Option UInt32 :=
  extractVersionNumber w.rxDocument w.jsonTokenStruct tokenCount

/-- `extractClientToken` on the document in `shadowRxBuf`. -/
def rxClientToken (w : World) : Option (List UInt8) :=
  (extractClientToken w.rxDocument w.jsonTokenStruct).1

def isAckForMyThingName (w : World) (topicName : List UInt8) : Bool :=
  decide (w.myThingName <:+: topicName) &&
    (decide (ascii "get/accepted" <:+: topicName) ||
      decide (ascii "update/accepted" <:+: topicName) || decide (ascii "delta" <:+: topicName))

/-- A response brings a version that is taken over. -/
def takesVersion (w : World) (m : MessageRef) (tokenCount : Nat) : Option UInt32 :=
  if w.isAckForMyThingName (w.readText m.topicOff) then
    (w.rxVersion tokenCount).filter (w.shadowJsonVersionNum < ·)
  else none

/-- The world after `AckStatusCallback` has looked at the version. -/
def withResponseVersion (w : World) (m : MessageRef) (tokenCount : Nat) : World :=
  match w.takesVersion m tokenCount with
  | none => w
  | some v => ({ w with shadowJsonVersionNum := v } : World).log (.versionTaken v)

end World

/-- The beginning of both message callbacks: the number of tokens of the
payload, if it is a valid document. -/
def receiveDocument (m : MessageRef) : M (Option Nat) := do
  if m.payloadLen > shadowMaxSizeOfRxBuffer then return none
  else
    Program.modify (·.withPayload m)
    Program.atomically World.rxTokenCount World.withRxTokens

/-- The status that `AckStatusCallback` finds for a record, if it is one that is
reported. A topic without either word leaves the variable as it was. -/
def ackStatusOf (topicName : List UInt8) : M (Option AckStatus) := do
  if ascii "accepted" <:+: topicName then return some .accepted
  else if ascii "rejected" <:+: topicName then return some .rejected
  else
    let (status : UInt32) ← ask .indeterminate
    return if status = 2 then some .accepted else if status = 1 then some .rejected else none

/-- The body of the loop of `AckStatusCallback`. -/
def ackRecord (fuel : Nat) (call : Procedure → M IotError) (m : MessageRef) (token : List UInt8)
    (i : AckIndex) : M (Option Unit) := do
  let w ← Program.get
  if !(w.ackWaitList i).isFree && (w.ackWaitList i).tokenText = token then
    let status ← ackStatusOf (w.readText m.topicOff)
    match status with
    | none => return none
    | some status => do
        completeAck fuel call i status
        return some ()
  else return none

/-- The part of `AckStatusCallback` behind the version: look for a record. -/
def answerToken (fuel : Nat) (call : Procedure → M IotError) (m : MessageRef) : M Unit := do
  let token ← Program.atomically World.rxClientToken World.withRxTokens
  match token with
  | none => return ()
  | some token => do
      let _ ← Program.firstOf (ackRecord fuel call m token) (List.finRange maxAcks)
      return ()

/-- The body of `AckStatusCallback`. -/
def ackStatusBody (fuel : Nat) (call : Procedure → M IotError) (m : MessageRef) : M Unit := do
  let tokenCount ← receiveDocument m
  match tokenCount with
  | none => return ()
  | some tokenCount => do
      Program.modify (·.withResponseVersion m tokenCount)
      answerToken fuel call m

def ackStatusCallback (fuel : Nat) (call : Procedure → M IotError) (m : MessageRef) : M Unit :=
  framedVoid (.ackStatus m) (ackStatusBody fuel call m)

namespace World

/-- The delta in `shadowRxBuf` is not newer than what has been received. -/
def isOldDelta (w : World) (tokenCount : Nat) : Bool :=
  w.shadowDiscardOldDeltaFlag &&
    match w.rxVersion tokenCount with
    | none => false
    | some v => !(w.shadowJsonVersionNum < v)

/-- The world after `shadow_delta_callback` has looked at the version. -/
def withDeltaVersion (w : World) (tokenCount : Nat) : World :=
  if w.isOldDelta tokenCount then w
  else
    let version := w.rxVersion tokenCount
    ({ w with shadowJsonVersionNum :=
        if w.shadowDiscardOldDeltaFlag then version.getD w.shadowJsonVersionNum
        else w.shadowJsonVersionNum } : World).log (.dispatched version (w.rxDocument.text 0))

end World

/-- The body of the loop of `shadow_delta_callback`. -/
def dispatchKey (fuel : Nat) (call : Procedure → M IotError) (tokenCount i : Nat) : M Unit := do
  let w ← Program.get
  match w.tokenTable[i]? with
  | none => return ()
  | some s =>
      match isJsonKeyMatchingAndUpdateValue w.rxDocument w.jsonTokenStruct tokenCount s.key
        s.type with
      | none => return ()
      | some v => do
          emit (.matched s v.stored)
          match s.cb with
          | none => return ()
          | some name => do
              emit (.deltaCallback s (w.shadowRxBuf.load v.dataPosition v.dataLength.toNat)
                v.dataLength)
              framedVoid (.deltaCallback name) (application fuel call)

/-- The body of `shadow_delta_callback`. The loop ends at the first index that is
not in use, and the indices in use come first. -/
def shadowDeltaBody (fuel : Nat) (call : Procedure → M IotError) (m : MessageRef) : M Unit := do
  let tokenCount ← receiveDocument m
  match tokenCount with
  | none => return ()
  | some tokenCount => do
      let isOld ← Program.atomically (·.isOldDelta tokenCount) (·.withDeltaVersion tokenCount)
      if isOld then return ()
      else Program.forEach (dispatchKey fuel call tokenCount) (List.range maxJsonTokenExpected)

def shadowDeltaCallback (fuel : Nat) (call : Procedure → M IotError) (m : MessageRef) : M Unit :=
  framedVoid (.delta m) (shadowDeltaBody fuel call m)

/-- A topic of the device's own thing, printed into a buffer for topics. -/
def World.ownTopic (w : World) (suffix : String) : List UInt8 :=
  (ascii "$aws/things/" ++ w.myThingName ++ ascii suffix).take (maxShadowTopicLengthBytes - 1)

def World.withDeltaTopic (w : World) : World :=
  { w with shadowDeltaTopic := w.ownTopic "/shadow/update/delta" }

/-- `if(!deltaTopicSubscribedFlag)`: subscribe to the topic of deltas. A subscribe
that fails is not made up for later. -/
def subscribeDelta (fuel : Nat) (call : Procedure → M IotError) : M IotError := do
  let w ← Program.get
  if w.deltaTopicSubscribedFlag then return .success
  else
    Program.modify World.withDeltaTopic
    let rc ← mqttSubscribe fuel call .shadowDeltaTopic .shadowDeltaCallback
    Program.modify fun w => { w with deltaTopicSubscribedFlag := true }
    return rc

/-- The world in which a key has been registered, if there is room for it. -/
def World.withKey (w : World) (s : JsonStruct) : World :=
  if w.tokenTable.length ≥ maxJsonTokenExpected then w
  else { w with tokenTable := w.tokenTable ++ [s] }

def registerJsonTokenOnDelta (fuel : Nat) (call : Procedure → M IotError) (s : JsonStruct) :
    M IotError := do
  let rc ← subscribeDelta fuel call
  let isFull ← Program.atomically (fun w => decide (w.tokenTable.length ≥ maxJsonTokenExpected))
    (·.withKey s)
  return if isFull then .failure else rc

end MqttClient.Shadow
