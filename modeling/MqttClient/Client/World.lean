import MqttClient.Client.Handlers
import MqttClient.Effect.Logic
import MqttClient.Wire.Deserialize

/-! # The client, its environment and what is recorded of a run

The client is the structure that all operations share. Its environment is the
network stack, the clock and the application: each is asked, and may answer
anything its interface lets it answer. Beside the client a run keeps a trace,
which no operation reads; it serves to say what happened.
-/

namespace MqttClient

open Effect

/-- `struct _Client`, less the network stack and the timers. -/
structure Client where
  clientState : ClientState
  isPingOutstanding : Bool
  isAutoReconnectEnabled : Bool
  nextPacketId : UInt16
  packetTimeoutMs : UInt32
  commandTimeoutMs : UInt32
  keepAliveInterval : UInt16
  currentReconnectWaitInterval : UInt32
  counterNetworkDisconnected : UInt32
  writeBufSize : Nat
  readBufSize : Nat
  writeBuf : Memory
  readBuf : Memory
  options : ConnectParams
  messageHandlers : HandlerTable
  disconnectHandler : Option HandlerName
  /-- The build defines `_ENABLE_THREAD_SUPPORT_`. -/
  threadSupport : Bool

/-- The parameter block that `handlePublish` fills and message handlers are
handed; its payload lies in the receive buffer. -/
structure MessageParams where
  qos : QoS
  isRetained : UInt8
  isDup : UInt8
  id : UInt16
  payloadOff : Nat
  payloadLen : Nat

/-- What publishing a block again leaves of it. -/
def MessageParams.withoutId (msg : MessageParams) : MessageParams := { msg with id := 0 }

/-- The parameter block of a publish: the caller's own, or one that a message
handler in progress was handed, counted from the innermost. -/
inductive PublishArg where
  | own (params : PublishParams)
  | received (depth : Nat)

/-- The calls an application can make. -/
inductive Call where
  | init (params : InitParams)
  | connect (params : Option ConnectParams)
  | publish (topicName : Option (List UInt8)) (topicNameLen : UInt16) (params : Option PublishArg)
  | subscribe (topicName : Option CString) (topicNameLen : UInt16) (qos : QoS)
      (applicationHandler : Option HandlerName) (applicationHandlerData : Nat)
  | unsubscribe (topicFilter : Option CString) (topicFilterLen : UInt16)
  | resubscribe
  | yield (timeoutMs : UInt32)
  | disconnect
  | attemptReconnect
  | autoreconnectSetStatus (newStatus : Bool)
  | setDisconnectHandler (handler : Option HandlerName)
  | setConnectParams (params : Option ConnectParams)
  | resetNetworkDisconnectedCount

/-! ## The environment -/

inductive TimerName where
  | ping | reconnectDelay | command | packet | yield
  deriving DecidableEq

/-- Which part of a packet a read is for. -/
inductive ReadSite where
  | header | length | body | drain
  deriving DecidableEq

/-- What a read of `n` bytes may do: deliver them all, or fail having stored
fewer; with nothing to read it has stored none. -/
inductive ReadResult (n : Nat) where
  | success (bytes : List UInt8) (length_eq : bytes.length = n)
  | failure (rc : IotError) (stored : List UInt8) (rc_ne : rc ≠ .success)
      (length_le : stored.length ≤ n - 1) (nothing : rc = .networkSslNothingToRead → stored = [])

/-- What a write of `n` bytes may do: accept some of them and answer any code. -/
structure WriteResult (n : Nat) where
  rc : IotError
  written : Nat
  written_le : written ≤ n

/-- The mutexes of a build with thread support. -/
inductive MutexName where
  | tlsRead | tlsWrite
  deriving DecidableEq

/-- What the client asks its environment. -/
inductive Query where
  | netConnect
  | netRead (site : ReadSite) (n : Nat)
  | netWrite (bytes : List UInt8)
  | netDisconnect
  | netIsConnected
  | netDestroy
  | hasTimerExpired (timer : TimerName)
  | lock (mutex : MutexName)
  | unlock (mutex : MutexName)
  /-- The application is running: which call does it make next, if any? -/
  | application
  deriving DecidableEq

abbrev Answer : Query → Type
  | .netRead _ n => ReadResult n
  | .netWrite bytes => WriteResult bytes.length
  | .hasTimerExpired _ | .lock _ | .unlock _ => Bool
  | .application => Option Call
  | _ => IotError

namespace ReadResult

variable {n : Nat}

def rc : ReadResult n → IotError
  | .success _ _ => .success
  | .failure rc _ _ _ _ => rc

/-- The bytes stored in the caller's buffer. -/
def bytes : ReadResult n → List UInt8
  | .success bytes _ => bytes
  | .failure _ stored _ _ _ => stored

theorem length_bytes_le (r : ReadResult n) : r.bytes.length ≤ n := by
  cases r with
  | success bytes h => exact Nat.le_of_eq h
  | failure _ stored _ h _ => exact Nat.le_trans h (Nat.sub_le n 1)

theorem length_bytes_of_success {r : ReadResult n} (h : r.rc = .success) :
    r.bytes.length = n := by
  cases r with
  | success bytes hlen => exact hlen
  | failure rc _ hrc _ _ => exact absurd h hrc

end ReadResult

/-! ## The trace -/

/-- What is in progress on the call stack. -/
inductive Frame where
  | call (c : Call)
  | connecting
  | waiting (packetType : MessageType)
  | subscribing (slot : Nat)
  | handler (name : HandlerName)
  | handleDisconnect
  | handleReconnect
  | disconnectHandler (name : HandlerName)

/-- What a change of the client state is made for. -/
inductive StateChange where
  | claim | release | rollback | other
  deriving DecidableEq

/-- What is recorded of a run. -/
inductive Event where
  | enter (frame : Frame)
  | leave (frame : Frame) (rc : IotError)
  | setState (change : StateChange) (expected new : ClientState) (granted : Bool)
  | putState (new : ClientState)
  /-- A claim ended without a change of the state. -/
  | relinquished
  | netConnect (rc : IotError)
  | netRead (site : ReadSite) (n : Nat) (rc : IotError) (bytes : List UInt8)
  | netWrite (offered : List UInt8) (rc : IotError) (written : Nat)
  | netDisconnect
  | netDestroy (rc : IotError)
  | countdown (timer : TimerName) (duration : UInt32)
  /-- Bytes were stored in the receive buffer. -/
  | stored (off n : Nat)
  | sent (packet : List UInt8)
  | received (packetType : MessageType)
  /-- The slots with this filter were freed. -/
  | unsubscribed (topicFilter : CString)
  /-- A message handler was called with this topic, payload and data. -/
  | delivered (name : HandlerName) (topicName payload : List UInt8) (data : Nat)

/-- The newest event comes first. -/
abbrev Trace := List Event

namespace Trace

/-- The calls in progress, the innermost first. -/
def stack : Trace → List Frame
  | [] => []
  | .enter f :: t => f :: stack t
  | .leave _ _ :: t => (stack t).tail
  | _ :: t => stack t

/-- The transport is open from a successful connect to the next destroy. -/
def transportOpen : Trace → Bool
  | [] => false
  | .netConnect .success :: _ => true
  | .netDestroy _ :: _ => false
  | _ :: t => transportOpen t

end Trace

/-- A thread's view of the system: the shared client, the parameter blocks of
the messages it is delivering, and its own trace. -/
structure World where
  client : Client
  messages : List MessageParams
  trace : Trace

namespace World

def log (w : World) (e : Event) : World := { w with trace := e :: w.trace }

def onClient (w : World) (f : Client → Client) : World := { w with client := f w.client }

/-- The calls in progress. -/
def stack (w : World) : List Frame := w.trace.stack

def transportOpen (w : World) : Bool := w.trace.transportOpen

/-- `aws_iot_mqtt_is_client_connected`. -/
def isClientConnected (w : World) : Bool := w.client.clientState.isConnected

end World

namespace World

/-- The world after a change of the client state that was granted. -/
def granted (w : World) (change : StateChange) (expected new : ClientState) : World :=
  (w.onClient fun c => { c with clientState := new }).log (.setState change expected new true)

/-- The world after a change of the client state that was refused. -/
def refused (w : World) (change : StateChange) (expected new : ClientState) : World :=
  w.log (.setState change expected new false)

/-- The world after an assignment to the client state. -/
def put (w : World) (new : ClientState) : World :=
  (w.onClient fun c => { c with clientState := new }).log (.putState new)

@[simp] theorem client_log (w : World) (e : Event) : (w.log e).client = w.client := rfl

@[simp] theorem messages_log (w : World) (e : Event) : (w.log e).messages = w.messages := rfl

@[simp] theorem trace_log (w : World) (e : Event) : (w.log e).trace = e :: w.trace := rfl

@[simp] theorem client_onClient (w : World) (f : Client → Client) :
    (w.onClient f).client = f w.client := rfl

@[simp] theorem messages_onClient (w : World) (f : Client → Client) :
    (w.onClient f).messages = w.messages := rfl

@[simp] theorem trace_onClient (w : World) (f : Client → Client) :
    (w.onClient f).trace = w.trace := rfl

@[simp] theorem stack_onClient (w : World) (f : Client → Client) :
    (w.onClient f).stack = w.stack := rfl

@[simp] theorem transportOpen_onClient (w : World) (f : Client → Client) :
    (w.onClient f).transportOpen = w.transportOpen := rfl

@[simp] theorem stack_log_enter (w : World) (f : Frame) :
    (w.log (.enter f)).stack = f :: w.stack := rfl

@[simp] theorem stack_log_leave (w : World) (f : Frame) (rc : IotError) :
    (w.log (.leave f rc)).stack = w.stack.tail := rfl

@[simp] theorem transportOpen_log_enter (w : World) (f : Frame) :
    (w.log (.enter f)).transportOpen = w.transportOpen := rfl

@[simp] theorem transportOpen_log_leave (w : World) (f : Frame) (rc : IotError) :
    (w.log (.leave f rc)).transportOpen = w.transportOpen := rfl

@[simp] theorem clientState_granted (w : World) (change : StateChange)
    (expected new : ClientState) : (w.granted change expected new).client.clientState = new := rfl

@[simp] theorem stack_granted (w : World) (change : StateChange) (expected new : ClientState) :
    (w.granted change expected new).stack = w.stack := rfl

@[simp] theorem transportOpen_granted (w : World) (change : StateChange)
    (expected new : ClientState) :
    (w.granted change expected new).transportOpen = w.transportOpen := rfl

@[simp] theorem messageHandlers_granted (w : World) (change : StateChange)
    (expected new : ClientState) :
    (w.granted change expected new).client.messageHandlers = w.client.messageHandlers := rfl

@[simp] theorem client_refused (w : World) (change : StateChange) (expected new : ClientState) :
    (w.refused change expected new).client = w.client := rfl

@[simp] theorem stack_refused (w : World) (change : StateChange) (expected new : ClientState) :
    (w.refused change expected new).stack = w.stack := rfl

@[simp] theorem transportOpen_refused (w : World) (change : StateChange)
    (expected new : ClientState) :
    (w.refused change expected new).transportOpen = w.transportOpen := rfl

@[simp] theorem clientState_put (w : World) (new : ClientState) :
    (w.put new).client.clientState = new := rfl

@[simp] theorem stack_put (w : World) (new : ClientState) : (w.put new).stack = w.stack := rfl

@[simp] theorem transportOpen_put (w : World) (new : ClientState) :
    (w.put new).transportOpen = w.transportOpen := rfl

@[simp] theorem messageHandlers_put (w : World) (new : ClientState) :
    (w.put new).client.messageHandlers = w.client.messageHandlers := rfl

end World

/-- The client's code. -/
abbrev M := Program World Answer

/-! ## Primitive operations -/

def emit (e : Event) : M Unit := Program.modify (·.log e)

def getClient : M Client := Program.atomically World.client id

def modifyClient (f : Client → Client) : M Unit := Program.modify (·.onClient f)

/-- `aws_iot_mqtt_get_client_state`. -/
def getClientState : M ClientState := Program.atomically (·.client.clientState) id

/-- `aws_iot_mqtt_is_client_connected`. -/
def isClientConnected : M Bool := Program.atomically World.isClientConnected id

/-- `aws_iot_mqtt_set_client_state`, one atomic step. -/
def setClientState (change : StateChange) (expected new : ClientState) : M IotError :=
  Program.atomically
    (fun w => if w.client.clientState = expected then .success
      else .mqttUnexpectedClientStateError)
    (fun w => if w.client.clientState = expected then w.granted change expected new
      else w.refused change expected new)

/-- A plain assignment to `clientState`. -/
def putClientState (new : ClientState) : M Unit :=
  Program.modify (·.put new)

/-- `networkStack.connect`. -/
def netConnect : M IotError := do
  let rc ← Program.query (A := Answer) .netConnect
  emit (.netConnect rc)
  return rc

/-- What a read to `readBuf[off..]` leaves. -/
def World.filled (w : World) (site : ReadSite) (off : Nat) {n : Nat} (r : ReadResult n) : World :=
  ((w.onClient fun c => { c with readBuf := c.readBuf.store off r.bytes }).log
    (.netRead site n r.rc r.bytes)).log (.stored off r.bytes.length)

/-- `networkStack.read` of `n` bytes to `readBuf[off..]`. -/
def netReadToBuffer (site : ReadSite) (off n : Nat) : M IotError := do
  let (r : ReadResult n) ← Program.query (A := Answer) (.netRead site n)
  Program.modify (·.filled site off r)
  return r.rc

/-- `networkStack.read` of one byte to a local variable. -/
def netReadByte (site : ReadSite) : M (Except IotError UInt8) := do
  let (r : ReadResult 1) ← Program.query (A := Answer) (.netRead site 1)
  emit (.netRead site 1 r.rc r.bytes)
  return if r.rc = .success then .ok (r.bytes.headD 0) else .error r.rc

/-- `networkStack.write`: the code, and the number of bytes accepted. -/
def netWrite (bytes : List UInt8) : M (IotError × Nat) := do
  let (r : WriteResult bytes.length) ← Program.query (A := Answer) (.netWrite bytes)
  emit (.netWrite bytes r.rc r.written)
  return (r.rc, r.written)

/-- `networkStack.disconnect`; its result is not used. -/
def netDisconnect : M Unit := do
  let (_ : IotError) ← Program.query (A := Answer) .netDisconnect
  emit .netDisconnect

/-- `networkStack.destroy`. -/
def netDestroy : M IotError := do
  let rc ← Program.query (A := Answer) .netDestroy
  emit (.netDestroy rc)
  return rc

/-- `aws_iot_mqtt_client_lock_mutex`, in a build with thread support:
`aws_iot_thread_mutex_lock`, which may fail. -/
def lockMutex (mutex : MutexName) : M IotError := do
  let c ← getClient
  if c.threadSupport then
    let (ok : Bool) ← Program.query (A := Answer) (.lock mutex)
    return if ok then .success else .mutexLockError
  else return .success

/-- `aws_iot_mqtt_client_unlock_mutex`, in a build with thread support:
`aws_iot_thread_mutex_unlock`, which may fail. -/
def unlockMutex (mutex : MutexName) : M IotError := do
  let c ← getClient
  if c.threadSupport then
    let (ok : Bool) ← Program.query (A := Answer) (.unlock mutex)
    return if ok then .success else .mutexUnlockError
  else return .success

/-- `networkStack.isConnected`. -/
def netIsConnected : M IotError := Program.query (A := Answer) .netIsConnected

def hasTimerExpired (timer : TimerName) : M Bool :=
  Program.query (A := Answer) (.hasTimerExpired timer)

/-- `countdown_ms` and `countdown_sec`, in their own units. -/
def countdown (timer : TimerName) (duration : UInt32) : M Unit := emit (.countdown timer duration)

/-- `if(SUCCESS != rc) return rc;` -/
def onSuccess (rc : IotError) (next : M IotError) : M IotError :=
  if rc = .success then next else return rc

/-- `if(b) p;` -/
def doIf (b : Bool) (p : M Unit) : M Unit := if b then p else return ()

/-- Run `body` as a call that is in progress until it returns. -/
def framed (frame : Frame) (body : M IotError) : M IotError := do
  emit (.enter frame)
  let rc ← body
  emit (.leave frame rc)
  return rc

end MqttClient
