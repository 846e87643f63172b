import MqttClient.Client.Dispatch

/-! # The client's operations

The calls of the interface, each with the function that does its work. The
operations that need an idle client claim it by a change of the client state
and release it by the opposite change.
-/

namespace MqttClient

open Effect

/-- `aws_iot_mqtt_get_next_packet_id`. -/
def getNextPacketId : M UInt16 :=
  let next (c : Client) : UInt16 := if c.nextPacketId = 65535 then 1 else c.nextPacketId + 1
  Program.atomically (fun w => next w.client)
    (fun w => w.onClient fun c => { c with nextPacketId := next c })

/-- `aws_iot_mqtt_set_connect_params`. The password becomes the user name. -/
def Client.withConnectParams (c : Client) (params : ConnectParams) : Client :=
  { c with options := { params with password := params.username } }

def setConnectParams (params : Option ConnectParams) : M IotError := do
  match params with
  | none => return .nullValueError
  | some params => do
      modifyClient (·.withConnectParams params)
      return .success

/-! ## Initialization -/

/-- The argument check of `aws_iot_mqtt_init`. -/
def InitParams.isValid (params : InitParams) : Bool :=
  params.hostURL.isSome && params.port ≠ 0 && params.rootCALocation.isSome &&
    params.devicePrivateKeyLocation.isSome && params.deviceCertLocation.isSome

/-- `AWS_IOT_MQTT_TX_BUF_LEN` and `AWS_IOT_MQTT_RX_BUF_LEN`. -/
def awsIotMqttTxBufLen : Nat := 131072
def awsIotMqttRxBufLen : Nat := 131072

/-- What `aws_iot_mqtt_init` makes of a client. -/
def Client.initialized (c : Client) (params : InitParams) : Client :=
  { c.withConnectParams connectParamsInitializer with
    messageHandlers := c.messageHandlers.cleared
    packetTimeoutMs := params.mqttPacketTimeoutMs
    commandTimeoutMs := params.mqttCommandTimeoutMs
    writeBufSize := awsIotMqttTxBufLen
    readBufSize := awsIotMqttRxBufLen
    counterNetworkDisconnected := 0
    disconnectHandler := params.disconnectHandler
    nextPacketId := 1
    isPingOutstanding := false
    isAutoReconnectEnabled := params.enableAutoReconnect
    clientState := .initialized }

/-- `aws_iot_mqtt_init`. Setting up the TLS layer and its mutexes succeeds. -/
def init (params : InitParams) : M IotError := do
  if params.isValid then
    modifyClient (·.initialized params)
    emit (.putState .initialized)
    return .success
  else return .nullValueError

/-! ## Connecting and disconnecting -/

/-- `if(NULL != pConnectParams)`: new connection parameters replace the old ones. -/
def applyConnectParams (params : Option ConnectParams) : M Unit :=
  match params with
  | none => return ()
  | some params => modifyClient (·.withConnectParams params)

/-- The part of `internalConnect` behind a successful connect of the transport. -/
def handshake (fuel : Nat) (call : Call → M IotError) : M IotError := do
  let c ← getClient
  countdown .command c.commandTimeoutMs
  modifyClient fun c => { c with keepAliveInterval := c.options.keepAliveIntervalInSec }
  serialized (fun c => serializeConnect c.writeBufSize c.options) fun len => do
    let rc ← internalSendPacket fuel len .command
    onSuccess rc do
      let rc ← internalWaitForRead fuel call .connack
      onSuccess rc do
        let c ← getClient
        match deserializeConnack c.readBuf c.readBufSize with
        | .error rc => return rc
        | .ok (_, connackRc) =>
            if connackRc ≠ .mqttConnackConnectionAccepted then return connackRc
            else
              modifyClient fun c => { c with isPingOutstanding := false }
              countdown .ping c.keepAliveInterval.toUInt32
              return .success

/-- `_aws_iot_mqtt_internal_connect`. -/
def internalConnect (fuel : Nat) (call : Call → M IotError) (params : Option ConnectParams) :
    M IotError := do
  applyConnectParams params
  let rc ← netConnect
  onSuccess rc (handshake fuel call)

/-- The part of `aws_iot_mqtt_connect` behind its check of the client state. -/
def connectFrom (fuel : Nat) (call : Call → M IotError) (params : Option ConnectParams)
    (clientState : ClientState) : M IotError := do
  -- the result of the claim is not looked at
  let claimRc ← setClientState .claim clientState .connecting
  let change : StateChange := if claimRc = .success then .release else .other
  framed .connecting do
    let rc ← internalConnect fuel call params
    if rc ≠ .success then
      netDisconnect
      let _ ← netDestroy
      let _ ← setClientState change .connecting .disconnectedError
      return rc
    else
      let _ ← setClientState change .connecting .connectedIdle
      return rc

/-- `aws_iot_mqtt_connect`. -/
def connect (fuel : Nat) (call : Call → M IotError) (params : Option ConnectParams) :
    M IotError := do
  let clientState ← getClientState
  if clientState.isValidForConnect then connectFrom fuel call params clientState
  else return .networkAlreadyConnectedError

/-- `_aws_iot_mqtt_internal_disconnect`. -/
def internalDisconnect (fuel : Nat) : M IotError :=
  serialized (fun c => serializeZero c.writeBufSize .disconnect) fun len => do
    let c ← getClient
    countdown .command c.commandTimeoutMs
    let rc ← internalSendPacket fuel (len % 2 ^ 32) .command
    onSuccess rc do
      netDisconnect
      let rc ← netDestroy
      if rc ≠ .success then return .failure else return .success

/-- `aws_iot_mqtt_disconnect`. -/
def disconnect (fuel : Nat) : M IotError := do
  let clientState ← getClientState
  let connected ← isClientConnected
  if !connected then return .networkDisconnectedError
  else
    let rc ← setClientState .other clientState .disconnecting
    onSuccess rc do
      let rc ← internalDisconnect fuel
      if rc ≠ .success then
        putClientState clientState
        return rc
      else
        putClientState .disconnectedManually
        return rc

/-! ## Publishing -/

/-- The parameter block behind a pointer, as it is now. -/
def World.publishParams (w : World) : PublishArg → Option PublishParams
  | .own params => some params
  | .received depth => w.messages[depth]?.map fun msg =>
      ⟨msg.qos, msg.isRetained, msg.isDup, msg.id,
        some (w.client.readBuf.load msg.payloadOff msg.payloadLen), msg.payloadLen⟩

/-- `pParams->id = id`; a caller's own block is not looked at again. -/
def World.setPublishId (w : World) (arg : PublishArg) (id : UInt16) : World :=
  match arg with
  | .own _ => w
  | .received depth =>
      { w with messages := w.messages.modify depth fun msg => { msg with id := id } }

/-- `if(QOS1 == pParams->qos)`: the message gets a new packet identifier. -/
def assignPublishId (arg : PublishArg) (params : PublishParams) : M UInt16 :=
  if params.qos = qos1 then do
    let id ← getNextPacketId
    Program.modify fun w => w.setPublishId arg id
    return id
  else return params.id

/-- `_aws_iot_mqtt_internal_publish`. -/
def internalPublish (fuel : Nat) (call : Call → M IotError) (topicName : List UInt8)
    (topicNameLen : UInt16) (arg : PublishArg) : M IotError := do
  let c ← getClient
  countdown .command c.commandTimeoutMs
  let params ← Program.atomically (fun w => w.publishParams arg) id
  match params with
  -- a dangling pointer
  | none => .stop
  | some params => do
      let id ← assignPublishId arg params
      serialized (fun c => serializePublish c.writeBufSize 0 params.qos params.isRetained id
          topicName topicNameLen params.payload params.payloadLen) fun len => do
        let rc ← internalSendPacket fuel (len % 2 ^ 32) .command
        onSuccess rc do
          if params.qos = qos1 then
            let rc ← internalWaitForRead fuel call .puback
            onSuccess rc do
              let c ← getClient
              match deserializeAck c.readBuf c.readBufSize with
              | .error rc => return rc
              | .ok _ => return .success
          else return .success

/-- Claim the client for an operation that is allowed on an idle client and in
a message handler, run it, and give the client back as it was found. `onRefused`
is what happens when the claim fails. -/
def exclusively (inProgress : ClientState) (body : M IotError)
    (onRefused : ClientState → IotError → M IotError) : M IotError := do
  let connected ← isClientConnected
  if !connected then return .networkDisconnectedError
  else
    let clientState ← getClientState
    if clientState ≠ .connectedIdle ∧ clientState ≠ .connectedWaitForCbReturn then
      return .mqttClientNotIdleError
    else
      let rc ← setClientState .claim clientState inProgress
      if rc ≠ .success then onRefused clientState rc
      else
        let bodyRc ← body
        let rc ← setClientState .release inProgress clientState
        return if bodyRc = .success ∧ rc ≠ .success then rc else bodyRc

/-- `aws_iot_mqtt_publish`. -/
def publish (fuel : Nat) (call : Call → M IotError) (topicName : Option (List UInt8))
    (topicNameLen : UInt16) (params : Option PublishArg) : M IotError :=
  match topicName, params with
  | some topicName, some params =>
      if topicNameLen = 0 then return .nullValueError
      else exclusively .connectedPublishInProgress
        (internalPublish fuel call topicName topicNameLen params) fun _ rc => return rc
  | _, _ => return .nullValueError

/-! ## Subscribing -/

/-- Put into the table what has been subscribed. -/
def addSubscription (slot : Nat) (h : MessageHandler) : M IotError := do
  modifyClient fun c => { c with messageHandlers := c.messageHandlers.set slot h }
  return .success

/-- Send a SUBSCRIBE of `len` bytes, wait for its SUBACK and fill the slot. -/
def requestSubscription (fuel : Nat) (call : Call → M IotError) (slot len : Nat)
    (h : MessageHandler) : M IotError := do
  let rc ← internalSendPacket fuel (len % 2 ^ 32) .command
  onSuccess rc do
    let rc ← internalWaitForRead fuel call .suback
    onSuccess rc do
      let c ← getClient
      match deserializeSuback c.readBuf c.readBufSize 1 with
      | .error rc => return rc
      | .ok _ => addSubscription slot h

/-- The part of `internalSubscribe` behind the choice of a slot. -/
def subscribeInSlot (fuel : Nat) (call : Call → M IotError) (slot len : Nat)
    (h : MessageHandler) : M IotError :=
  framed (.subscribing slot) (requestSubscription fuel call slot len h)

/-- `_aws_iot_mqtt_internal_subscribe`. -/
def internalSubscribe (fuel : Nat) (call : Call → M IotError) (topicName : CString)
    (topicNameLen : UInt16) (qos : QoS) (applicationHandler : HandlerName)
    (applicationHandlerData : Nat) : M IotError := do
  let c ← getClient
  countdown .command c.commandTimeoutMs
  let txPacketId ← getNextPacketId
  serialized (fun c => serializeSubscribe c.writeBufSize 0 txPacketId
      [(topicName.bytes, topicNameLen, qos)]) fun len => do
    let c ← getClient
    let indexOfFreeMessageHandler := c.messageHandlers.getFreeMessageHandlerIndex
    if numSubscribeHandlers ≤ indexOfFreeMessageHandler then
      return .mqttMaxSubscriptionsReachedError
    else
      subscribeInSlot fuel call indexOfFreeMessageHandler len
        ⟨some topicName, topicNameLen, qos, some applicationHandler, applicationHandlerData⟩

/-- `aws_iot_mqtt_subscribe`. -/
def subscribe (fuel : Nat) (call : Call → M IotError) (topicName : Option CString)
    (topicNameLen : UInt16) (qos : QoS) (applicationHandler : Option HandlerName)
    (applicationHandlerData : Nat) : M IotError :=
  match topicName, applicationHandler with
  | some topicName, some applicationHandler =>
      exclusively .connectedSubscribeInProgress
        (internalSubscribe fuel call topicName topicNameLen qos applicationHandler
          applicationHandlerData) fun _ rc => return rc
  | _, _ => return .nullValueError

/-- One turn of the loop of `internalResubscribe`, for the slot `itr`. -/
def resubscribeSlot (fuel : Nat) (call : Call → M IotError) (itr : Nat) : M IotError := do
  let c ← getClient
  countdown .command c.commandTimeoutMs
  let packetId ← getNextPacketId
  let c ← getClient
  let h := c.messageHandlers.slot itr
  match h.topicName with
  -- a slot freed in the meantime: `memcpy` from a null pointer
  | none => .stop
  | some topicName =>
      serialized (fun c => serializeSubscribe c.writeBufSize 0 packetId
          [(topicName.bytes, h.topicNameLen, h.qos)]) fun len => do
        let rc ← internalSendPacket fuel (len % 2 ^ 32) .command
        onSuccess rc do
          let rc ← internalWaitForRead fuel call .suback
          onSuccess rc do
            let c ← getClient
            match deserializeSuback c.readBuf c.readBufSize 1 with
            | .error rc => return rc
            | .ok _ => return .success

/-- The loop of `internalResubscribe`, with `remaining` slots to go. -/
def resubscribeLoop (fuel : Nat) (call : Call → M IotError) (itr : Nat) : Nat → M IotError
  | 0 => return .success
  | remaining + 1 => do
      let rc ← resubscribeSlot fuel call itr
      onSuccess rc (resubscribeLoop fuel call (itr + 1) remaining)

/-- `_aws_iot_mqtt_internal_resubscribe`. -/
def internalResubscribe (fuel : Nat) (call : Call → M IotError) : M IotError := do
  let c ← getClient
  resubscribeLoop fuel call 0 c.messageHandlers.getFreeMessageHandlerIndex

/-- `aws_iot_mqtt_resubscribe`. -/
def resubscribe (fuel : Nat) (call : Call → M IotError) : M IotError := do
  let connected ← isClientConnected
  if !connected then return .networkDisconnectedError
  else
    let clientState ← getClientState
    if clientState ≠ .connectedIdle then return .mqttClientNotIdleError
    else
      let rc ← setClientState .claim .connectedIdle .connectedResubscribeInProgress
      onSuccess rc do
        let resubRc ← internalResubscribe fuel call
        let rc ← setClientState .release .connectedResubscribeInProgress .connectedIdle
        return if resubRc = .success ∧ rc ≠ .success then rc else resubRc

/-! ## Unsubscribing -/

/-- The world in which every slot with this filter has been freed. -/
def World.withoutSubscription (w : World) (topicFilter : CString) : World :=
  (w.onClient fun c => { c with messageHandlers := c.messageHandlers.remove topicFilter }).log
    (.unsubscribed topicFilter)

/-- Remove from the table what has been unsubscribed. -/
def removeSubscription (topicFilter : CString) : M IotError := do
  Program.modify (·.withoutSubscription topicFilter)
  return .success

/-- `_aws_iot_mqtt_internal_unsubscribe`. -/
def internalUnsubscribe (fuel : Nat) (call : Call → M IotError) (topicFilter : CString)
    (topicFilterLen : UInt16) : M IotError := do
  let c ← getClient
  if !c.messageHandlers.subscriptionExists topicFilter then return .failure
  else
    countdown .command c.commandTimeoutMs
    let packetId ← getNextPacketId
    serialized (fun c => serializeUnsubscribe c.writeBufSize 0 packetId
        [(topicFilter.bytes, topicFilterLen)]) fun len => do
      let rc ← internalSendPacket fuel (len % 2 ^ 32) .command
      onSuccess rc do
        let rc ← internalWaitForRead fuel call .unsuback
        onSuccess rc do
          let c ← getClient
          match deserializeUnsuback c.readBuf c.readBufSize with
          | .error rc => return rc
          | .ok _ => removeSubscription topicFilter

/-- `aws_iot_mqtt_unsubscribe`. A claim that failed is rolled back as well. -/
def unsubscribe (fuel : Nat) (call : Call → M IotError) (topicFilter : Option CString)
    (topicFilterLen : UInt16) : M IotError :=
  match topicFilter with
  | none => return .nullValueError
  | some topicFilter =>
      exclusively .connectedUnsubscribeInProgress
        (internalUnsubscribe fuel call topicFilter topicFilterLen) fun clientState _ =>
          setClientState .rollback .connectedUnsubscribeInProgress clientState

/-! ## Reconnecting -/

/-- `aws_iot_mqtt_attempt_reconnect`. -/
def attemptReconnect (fuel : Nat) (call : Call → M IotError) : M IotError := do
  let connected ← isClientConnected
  if connected then return .networkAlreadyConnectedError
  else
    let _ ← connect fuel call none
    let clientState ← getClientState
    if clientState ≠ .connectedIdle then
      let _ ← setClientState .other .disconnectedError .pendingReconnect
      return .networkAttemptingReconnect
    else
      let rc ← resubscribe fuel call
      onSuccess rc (return .networkReconnected)

/-- `AWS_IOT_MQTT_MIN_RECONNECT_WAIT_INTERVAL` and
`AWS_IOT_MQTT_MAX_RECONNECT_WAIT_INTERVAL`. -/
def minReconnectWaitInterval : UInt32 := 1000
def maxReconnectWaitInterval : UInt32 := 128000

/-- `_aws_iot_mqtt_force_client_disconnect`. -/
def forceClientDisconnect : M Unit := do
  putClientState .disconnectedError
  netDisconnect
  let _ ← netDestroy

/-- `if(NULL != disconnectHandler)`: the application's handler runs. -/
def callDisconnectHandler (fuel : Nat) (call : Call → M IotError)
    (disconnectHandler : Option HandlerName) : M Unit := do
  match disconnectHandler with
  | none => return ()
  | some name => do
      let _ ← framed (.disconnectHandler name) do
        application fuel call
        return .success
      return ()

/-- `_aws_iot_mqtt_handle_disconnect`. -/
def handleDisconnect (fuel : Nat) (call : Call → M IotError) : M IotError :=
  framed .handleDisconnect do
    let rc ← disconnect fuel
    doIf (rc ≠ .success) forceClientDisconnect
    let c ← getClient
    callDisconnectHandler fuel call c.disconnectHandler
    putClientState .disconnectedError
    return .networkDisconnectedError

/-- The back-off of `handleReconnect` after an attempt that answered `rc`. -/
def reconnectBackoff (rc : IotError) : M IotError := do
  modifyClient fun c =>
    { c with currentReconnectWaitInterval := c.currentReconnectWaitInterval * 2 }
  let c ← getClient
  if maxReconnectWaitInterval < c.currentReconnectWaitInterval then
    return .networkReconnectTimedOutError
  else
    countdown .reconnectDelay c.currentReconnectWaitInterval
    return rc

/-- `_aws_iot_mqtt_handle_reconnect`. -/
def handleReconnect (fuel : Nat) (call : Call → M IotError) : M IotError :=
  framed .handleReconnect do
    let expired ← hasTimerExpired .reconnectDelay
    if !expired then return .networkAttemptingReconnect
    else
      let rc ← netIsConnected
      if rc = .networkPhysicalLayerConnected then
        let rc ← attemptReconnect fuel call
        if rc = .networkReconnected then
          let rc ← setClientState .other .connectedIdle .connectedYieldInProgress
          onSuccess rc (return .networkReconnected)
        else reconnectBackoff rc
      else reconnectBackoff rc

/-! ## Yielding -/

/-- `_aws_iot_mqtt_keep_alive`. -/
def keepAlive (fuel : Nat) (call : Call → M IotError) : M IotError := do
  let c ← getClient
  if c.keepAliveInterval = 0 then return .success
  else
    let expired ← hasTimerExpired .ping
    if !expired then return .success
    else
      let c ← getClient
      if c.isPingOutstanding then handleDisconnect fuel call
      else
        countdown .command c.commandTimeoutMs
        serialized (fun c => serializeZero c.writeBufSize .pingreq) fun len => do
          let rc ← internalSendPacket fuel (len % 2 ^ 32) .command
          if rc ≠ .success then handleDisconnect fuel call
          else
            modifyClient fun c => { c with isPingOutstanding := true }
            countdown .ping c.keepAliveInterval.toUInt32
            return .success

/-- The read and write errors after which the connection is closed. -/
def IotError.isTerminal (rc : IotError) : Bool :=
  rc = .networkSslReadError || rc = .networkSslReadTimeoutError ||
    rc = .networkSslWriteError || rc = .networkSslWriteTimeoutError

/-- What `internalYield` does about a lost connection: it goes on (`inl`) when
a reconnect is due, and ends (`inr`) otherwise. -/
def connectionLost : M (IotError ⊕ IotError) := do
  modifyClient fun c => { c with counterNetworkDisconnected := c.counterNetworkDisconnected + 1 }
  let c ← getClient
  if c.isAutoReconnectEnabled then
    let rc ← setClientState .other .disconnectedError .pendingReconnect
    if rc ≠ .success then return .inr rc
    else
      modifyClient fun c => { c with currentReconnectWaitInterval := minReconnectWaitInterval }
      countdown .reconnectDelay minReconnectWaitInterval
      return .inl .networkAttemptingReconnect
  else return .inr .networkDisconnectedError

/-- What `internalYield` does with the result of `internalCycleRead`. -/
def afterCycleRead (fuel : Nat) (call : Call → M IotError) (rc : IotError) : M IotError :=
  if rc = .success then keepAlive fuel call
  else if rc.isTerminal then handleDisconnect fuel call
  else return rc

/-- The body of the loop of `internalYield`, before the timer is looked at. -/
def yieldCycle (fuel : Nat) (call : Call → M IotError) : M (IotError ⊕ IotError) := do
  let clientState ← getClientState
  if clientState = .pendingReconnect then
    let c ← getClient
    if maxReconnectWaitInterval < c.currentReconnectWaitInterval then
      return .inr .networkReconnectTimedOutError
    else
      let rc ← handleReconnect fuel call
      return .inl rc
  else
    let (rc, _) ← internalCycleRead fuel call .yield
    let yieldRc ← afterCycleRead fuel call rc
    if yieldRc = .networkDisconnectedError then connectionLost
    else if yieldRc ≠ .success then return .inr yieldRc
    else return .inl yieldRc

/-- `_aws_iot_mqtt_internal_yield`. -/
def internalYield (fuel : Nat) (call : Call → M IotError) : M IotError :=
  Program.loop (fun _ => do
    let r ← yieldCycle fuel call
    match r with
    | .inr yieldRc => return .inr yieldRc
    | .inl yieldRc => do
        let expired ← hasTimerExpired .yield
        if expired then return .inr yieldRc else return .inl yieldRc) fuel .success

/-- The part of `aws_iot_mqtt_yield` behind its claim; `change` is what the
closing change of the state is made for. -/
def yieldClaimed (fuel : Nat) (call : Call → M IotError) (change : StateChange) : M IotError := do
  let yieldRc ← internalYield fuel call
  if yieldRc ≠ .networkDisconnectedError ∧ yieldRc ≠ .networkAttemptingReconnect then
    let rc ← setClientState change .connectedYieldInProgress .connectedIdle
    return if yieldRc = .success ∧ rc ≠ .success then rc else yieldRc
  else
    doIf (change = .release) (emit .relinquished)
    return yieldRc

/-- `aws_iot_mqtt_yield`. -/
def yield (fuel : Nat) (call : Call → M IotError) (timeoutMs : UInt32) : M IotError := do
  if timeoutMs = 0 then return .nullValueError
  else
    let clientState ← getClientState
    if clientState = .disconnectedManually then return .networkManuallyDisconnected
    else if clientState = .pendingReconnect then
      countdown .yield timeoutMs
      yieldClaimed fuel call .other
    else
      let connected ← isClientConnected
      if !connected then return .networkDisconnectedError
      else if clientState ≠ .connectedIdle then return .mqttClientNotIdleError
      else
        let rc ← setClientState .claim .connectedIdle .connectedYieldInProgress
        onSuccess rc do
          countdown .yield timeoutMs
          yieldClaimed fuel call .release

/-! ## The interface -/

/-- What a call does; the calls its handlers make are made through `call`. -/
def perform (fuel : Nat) (call : Call → M IotError) : Call → M IotError
  | .init params => init params
  | .connect params => connect fuel call params
  | .publish topicName topicNameLen params => publish fuel call topicName topicNameLen params
  | .subscribe topicName topicNameLen qos handler data =>
      subscribe fuel call topicName topicNameLen qos handler data
  | .unsubscribe topicFilter topicFilterLen => unsubscribe fuel call topicFilter topicFilterLen
  | .resubscribe => resubscribe fuel call
  | .yield timeoutMs => yield fuel call timeoutMs
  | .disconnect => disconnect fuel
  | .attemptReconnect => attemptReconnect fuel call
  | .autoreconnectSetStatus newStatus => do
      modifyClient fun c => { c with isAutoReconnectEnabled := newStatus }
      return .success
  | .setDisconnectHandler handler => do
      match handler with
      | none => return .nullValueError
      | some handler => do
          modifyClient fun c => { c with disconnectHandler := some handler }
          return .success
  | .setConnectParams params => setConnectParams params
  | .resetNetworkDisconnectedCount => do
      modifyClient fun c => { c with counterNetworkDisconnected := 0 }
      return .success

/-- A call of the interface. -/
def api : Nat → Call → M IotError :=
  Program.recursive fun fuel call c => framed (.call c) (perform fuel call c)

end MqttClient
