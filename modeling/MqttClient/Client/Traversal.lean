import MqttClient.Client.Operations

/-! # Walking through the operations

A property of programs that is closed under sequencing holds of an operation
if it holds of the operation's parts. The operations are taken apart here once
for all such properties; what a property says about the parts that matter to it
is left to its own module.
-/

namespace MqttClient

open Effect Program

/-- `S` holds of the plain steps, and is closed under sequencing. -/
structure Sequences (S : (α : Type) → M α → Prop) : Prop where
  plain : ∀ {α : Type} {p : M α}, IsPlainStep p → S α p
  bind : ∀ {α β : Type} {p : M α} {g : α → M β}, S α p → (∀ a, S β (g a)) → S β (p >>= g)

namespace Sequences

variable {S : (α : Type) → M α → Prop} {α : Type}

theorem pure (h : Sequences S) (a : α) : S α (pure a) := h.plain (.pure a)

theorem stop (h : Sequences S) : S α .stop := h.plain .stop

theorem ite {c : Prop} [Decidable c] {p q : M α} (hp : c → S α p) (hq : ¬ c → S α q) :
    S α (if c then p else q) := by
  split
  next hc => exact hp hc
  next hc => exact hq hc

/-- A loop has the property if its body has it; by induction on the turns that are left. -/
theorem loop {β : Type} (h : Sequences S) {body : β → M (β ⊕ α)} (hbody : ∀ b, S _ (body b))
    (fuel : Nat) (b : β) : S α (Program.loop body fuel b) := by
  induction fuel generalizing b with
  | zero => exact h.stop
  | succ fuel ih =>
      apply h.bind (hbody b)
      intro r
      cases r with
      | inl b' => exact ih b'
      | inr a => exact h.pure a

theorem onSuccess (h : Sequences S) (rc : IotError) {p : M IotError} (hp : S _ p) :
    S _ (onSuccess rc p) := ite (fun _ => hp) fun _ => h.pure rc

theorem doIf (h : Sequences S) (b : Bool) {p : M Unit} (hp : S _ p) : S _ (doIf b p) :=
  ite (fun _ => hp) fun _ => h.pure ()

/-- Looking at the world is a plain step. -/
theorem look (h : Sequences S) (view : World → α) : S _ (Program.atomically view id) :=
  h.plain (.look view)

theorem modifyClient (h : Sequences S) {f : Client → Client}
    (hf : ∀ c : Client, c.SameSession (f c))
    (hping : ∀ c : Client, (f c).isPingOutstanding = c.isPingOutstanding) : S _ (modifyClient f) :=
  h.plain (.modifyClient hf hping)

/-- A packet that could not be serialized ends the operation. -/
theorem serialized (h : Sequences S) {make : Client → Except IotError (List UInt8)}
    {next : Nat → M IotError} (hnext : ∀ len, S _ (next len)) : S _ (serialized make next) := by
  apply h.bind (h.look World.client)
  intro c
  split
  next => exact h.pure _
  next =>
    refine h.bind (h.modifyClient ?_ fun _ => rfl) fun _ => hnext _
    exact fun _ => ⟨rfl, rfl, rfl, rfl, rfl, rfl⟩

/-- Handling a message, where putting its block on the stack and taking it off
again have the property each by itself. -/
theorem internalHandlePublish (h : Sequences S)
    (hsend : ∀ fuel length timer, S _ (internalSendPacket fuel length timer))
    (hpush : ∀ msg, S _ (pushMessage msg))
    (hpop : ∀ msg, S _ (popMessage msg)) {fuel : Nat} {call : Call → M IotError}
    (hdeliver : ∀ topicOff len, S _ (MqttClient.internalDeliverMessage fuel call topicOff len))
    (timer : TimerName) : S _ (internalHandlePublish fuel call timer) := by
  apply h.bind (h.look World.client)
  intro c
  split
  next => exact h.pure _
  next =>
    apply h.bind (hpush _)
    intro _
    apply h.bind (hdeliver _ _)
    intro rc
    apply h.bind (hpop _)
    intro msg
    apply h.onSuccess
    apply Sequences.ite
    · exact fun _ => h.pure _
    · exact fun _ => h.serialized fun _ => hsend _ _ _

/-- Application code, made of calls that all have the property. -/
theorem application (h : Sequences S) (happ : S _ (Program.query .application))
    {call : Call → M IotError} (hcall : ∀ c, S _ (call c)) (fuel : Nat) :
    S _ (application fuel call) := by
  apply h.loop
  intro _
  apply h.bind happ
  intro next
  match next with
  | none => exact h.pure _
  | some c => exact h.bind (hcall c) fun _ => h.pure _

end Sequences

/-- Questions about the transport. -/
def Query.isTransport : Query → Bool
  | .netConnect | .netDisconnect | .netDestroy => true
  | _ => false

/-- Events on the transport, and the notice that a claim has ended. -/
def Event.isTransport : Event → Bool
  | .netConnect _ | .netDisconnect | .netDestroy _ | .relinquished => true
  | _ => false

/-- The calls that set what no operation in progress depends on. -/
def Call.isSetting : Call → Bool
  | .setDisconnectHandler _ | .setConnectParams _ | .resetNetworkDisconnectedCount => true
  | _ => false

/-- `S` also holds of delivering a message, and of what runs in a frame in `F`. -/
structure Frames (F : Frame → Prop) (S : (α : Type) → M α → Prop) : Prop
    extends Sequences S where
  delivered : ∀ f : World → World,
    (∀ w, ∃ name topic payload data, f w = w.log (.delivered name topic payload data)) →
      S _ (Program.modify f)
  framed : ∀ {f : Frame} {body : M IotError}, F f → S _ body → S _ (framed f body)

/-- `S` also holds of sending, reading and handling packets, whatever they are. -/
structure Dispatches (F : Frame → Prop) (S : (α : Type) → M α → Prop) : Prop
    extends Frames F S where
  io : ∀ {α : Type} {p : M α}, IsIoStep p → S α p
  handled : ∀ {fuel : Nat} {call : Call → M IotError},
    (∀ topicOff len, S _ (internalDeliverMessage fuel call topicOff len)) →
      ∀ timer, S _ (internalHandlePublish fuel call timer)

/-- `S` also holds of opening and closing the transport. -/
structure Transports (F : Frame → Prop) (S : (α : Type) → M α → Prop) : Prop
    extends Frames F S where
  query : ∀ q, q.isTransport = true → S _ (Program.query q)
  emit : ∀ e, e.isTransport = true → S _ (emit e)

/-- `S` also holds of the other single steps, but for those that prepare a
reconnect. -/
structure Primitives (F : Frame → Prop) (S : (α : Type) → M α → Prop) : Prop
    extends Transports F S where
  setState : ∀ change expected new, new ≠ .pendingReconnect →
    S _ (setClientState change expected new)
  putState : ∀ new, new ≠ .pendingReconnect → S _ (putClientState new)

namespace Frames

variable {F : Frame → Prop} {S : (α : Type) → M α → Prop} {fuel : Nat} {call : Call → M IotError}

/-! ## Message handlers and waits -/

/-- A slot without a handler is passed over. -/
theorem callHandler (h : Frames F S) (hframe : ∀ name, F (.handler name))
    (happ : S _ (application fuel call)) (handler : MessageHandler) (topicOff : Nat)
    (topicNameLen : UInt16) : S _ (callHandler fuel call handler topicOff topicNameLen) := by
  unfold MqttClient.callHandler
  split
  next => exact h.pure ()
  next name _ =>
    apply h.bind (h.delivered _ fun _ => ⟨_, _, _, _, rfl⟩)
    intro _
    apply h.bind (h.framed (hframe name) (h.bind happ fun _ => h.pure _))
    exact fun _ => h.pure ()

/-- The slots are looked at one after the other; by induction on those that are left. -/
theorem deliverMessageLoop (h : Frames F S) (hframe : ∀ name, F (.handler name))
    (happ : S _ (application fuel call)) (topicOff : Nat) (topicNameLen : UInt16)
    (remaining : Nat) : S _ (deliverMessageLoop fuel call topicOff topicNameLen remaining) := by
  induction remaining with
  | zero => exact h.pure ()
  | succ remaining ih =>
      apply h.bind (h.look World.client)
      intro c
      apply Sequences.ite
      · exact fun _ => h.bind (h.callHandler hframe happ _ _ _) fun _ => ih
      · exact fun _ => ih

section Waiting

variable (h : Frames F S) (hread : ∀ timer, S _ (MqttClient.internalCycleRead fuel call timer))

include h hread

/-- What a wait does in its frame. -/
theorem waitForRead (packetType : MessageType) :
    S _ (do
      let (rc, readPacketType) ← Program.loop (waitForReadStep fuel call packetType) fuel 0
      if rc ≠ .mqttRequestTimeoutError ∧ rc ≠ .networkDisconnectedError ∧
          readPacketType ≠ packetType.code then return .failure
      else return rc) := by
  apply h.bind
  · apply h.loop
    intro readPacketType
    apply h.bind (h.plain (.hasTimerExpired _))
    intro expired
    apply Sequences.ite
    · exact fun _ => h.pure _
    · intro _
      apply h.bind (hread _)
      exact fun r => Sequences.ite (fun _ => h.pure _) fun _ => h.pure _
  · exact fun r => Sequences.ite (fun _ => h.pure _) fun _ => h.pure _

/-- A wait reads packets in its frame. -/
theorem internalWaitForRead {packetType : MessageType} (hframe : F (.waiting packetType)) :
    S _ (internalWaitForRead fuel call packetType) :=
  h.framed hframe (h.waitForRead hread packetType)

end Waiting

end Frames

namespace Dispatches

variable {F : Frame → Prop} {S : (α : Type) → M α → Prop} {fuel : Nat} {call : Call → M IotError}

theorem send (h : Dispatches F S) (fuel length : Nat) (timer : TimerName) :
    S _ (internalSendPacket fuel length timer) := h.io (.send fuel length timer)

/-! ## Dispatching packets -/

section Packets

variable (h : Dispatches F S)
  (hdeliver : ∀ topicOff len, S _ (MqttClient.internalDeliverMessage fuel call topicOff len))

include h hdeliver

/-- Only a PUBLISH and a PINGRESP are more than looked at. -/
theorem dispatchPacket (timer : TimerName) (packetType : UInt8) :
    S _ (dispatchPacket fuel call timer packetType) := by
  unfold MqttClient.dispatchPacket
  split
  case h_5 => exact h.handled hdeliver timer
  case h_8 =>
    apply h.bind (h.io (.ping false))
    intro _
    apply h.bind (h.look World.client)
    exact fun c => h.bind (h.plain (.countdown _ _)) fun _ => h.pure _
  all_goals exact h.pure _

/-- A packet is read under the mutex, and dispatched behind it. -/
theorem internalCycleRead (timer : TimerName) : S _ (internalCycleRead fuel call timer) := by
  apply h.bind (h.plain (.lockMutex _))
  intro threadRc
  apply Sequences.ite
  · exact fun _ => h.pure _
  · intro _
    apply h.bind (h.io (.receive fuel))
    intro r
    apply h.bind (h.plain (.unlockMutex _))
    intro threadRc
    split
    next => exact h.pure _
    next => exact h.pure _
    next packetType =>
      apply Sequences.ite
      · exact fun _ => h.pure _
      · exact fun _ => h.bind (h.dispatchPacket hdeliver timer packetType) fun _ => h.pure _

end Packets

/-- What an operation on a connected client consists of. -/
theorem composes (h : Dispatches F S)
    (hwait : ∀ packetType, S _ (MqttClient.internalWaitForRead fuel call packetType)) :
    Composes fuel call (S IotError) where
  io hp := h.io hp
  before hp hg := h.bind (h.io hp) hg
  seq hp hg := h.bind hp hg
  wait := hwait

/-- The keep-alive check, with what it does when the connection is lost. -/
theorem keepAlive (h : Dispatches F S)
    (hdisconnect : S _ (MqttClient.handleDisconnect fuel call)) : S _ (keepAlive fuel call) := by
  apply h.bind (h.look World.client)
  intro c
  apply Sequences.ite
  · exact fun _ => h.pure _
  · intro _
    apply h.bind (h.plain (.hasTimerExpired _))
    intro expired
    apply Sequences.ite
    · exact fun _ => h.pure _
    · intro _
      apply h.bind (h.look World.client)
      intro c
      apply Sequences.ite
      · exact fun _ => hdisconnect
      · intro _
        apply h.bind (h.plain (.countdown _ _))
        intro _
        apply h.serialized
        intro len
        apply h.bind (h.io (.send _ _ _))
        intro rc
        apply Sequences.ite
        · exact fun _ => hdisconnect
        · intro _
          apply h.bind (h.io (.ping true))
          exact fun _ => h.bind (h.plain (.countdown _ _)) fun _ => h.pure _

end Dispatches

namespace Transports

variable {F : Frame → Prop} {S : (α : Type) → M α → Prop} {fuel : Nat} {call : Call → M IotError}

theorem netConnect (h : Transports F S) : S _ netConnect :=
  h.bind (h.query .netConnect rfl) fun _ => h.bind (h.emit _ rfl) fun _ => h.pure _

theorem netDisconnect (h : Transports F S) : S _ netDisconnect :=
  h.bind (h.query .netDisconnect rfl) fun _ => h.emit _ rfl

theorem netDestroy (h : Transports F S) : S _ netDestroy :=
  h.bind (h.query .netDestroy rfl) fun _ => h.bind (h.emit _ rfl) fun _ => h.pure _

/-- The handshake takes place once the transport is open. -/
theorem internalConnect (h : Transports F S) (hhandshake : S _ (handshake fuel call))
    (params : Option ConnectParams) : S _ (internalConnect fuel call params) := by
  have happly : S _ (applyConnectParams params) := by
    cases params with
    | none => exact h.pure ()
    | some params => exact h.modifyClient (fun _ => ⟨rfl, rfl, rfl, rfl, rfl, rfl⟩) fun _ => rfl
  exact h.bind happly fun _ => h.bind h.netConnect fun rc => h.onSuccess rc hhandshake

theorem internalDisconnect (h : Transports F S)
    (hsend : ∀ fuel length timer, S _ (internalSendPacket fuel length timer)) :
    S _ (internalDisconnect fuel) := by
  apply h.serialized
  intro len
  apply h.bind (h.look World.client)
  intro c
  apply h.bind (h.plain (.countdown _ _))
  intro _
  apply h.bind (hsend _ _ _)
  intro rc
  apply h.onSuccess
  apply h.bind h.netDisconnect
  intro _
  apply h.bind h.netDestroy
  exact fun rc => Sequences.ite (fun _ => h.pure _) fun _ => h.pure _

end Transports

namespace Primitives

variable {F : Frame → Prop} {S : (α : Type) → M α → Prop} {fuel : Nat} {call : Call → M IotError}

/-- The state is changed for the handlers, and changed back behind them. -/
theorem internalDeliverMessage (h : Primitives F S) (hframe : ∀ name, F (.handler name))
    (happ : S _ (application fuel call))
    (hrestore : ∀ new, S _ (setClientState .other .connectedWaitForCbReturn new)) (topicOff : Nat)
    (topicNameLen : UInt16) : S _ (internalDeliverMessage fuel call topicOff topicNameLen) := by
  apply h.bind (h.look (·.client.clientState))
  intro clientState
  refine h.bind (h.setState _ _ _ nofun) fun _ => ?_
  apply h.bind (h.deliverMessageLoop hframe happ _ _ _)
  exact fun _ => hrestore clientState

/-! ## Connecting and disconnecting -/

/-- What a connect does in its frame. -/
theorem connecting (h : Primitives F S) (hhandshake : S _ (handshake fuel call))
    (params : Option ConnectParams) (change : StateChange) :
    S _ (do
      let rc ← internalConnect fuel call params
      if rc ≠ .success then
        MqttClient.netDisconnect
        let _ ← MqttClient.netDestroy
        let _ ← setClientState change .connecting .disconnectedError
        return rc
      else
        let _ ← setClientState change .connecting .connectedIdle
        return rc) := by
  apply h.bind (h.internalConnect hhandshake params)
  intro rc
  apply Sequences.ite
  · intro _
    apply h.bind h.netDisconnect
    intro _
    apply h.bind h.netDestroy
    exact fun _ => h.bind (h.setState _ _ _ nofun) fun _ => h.pure _
  · exact fun _ => h.bind (h.setState _ _ _ nofun) fun _ => h.pure _

/-- A connect claims the client and goes on in its frame, whatever came of the claim. -/
theorem connectFrom (h : Primitives F S) (hframe : F .connecting)
    (hhandshake : S _ (handshake fuel call)) (params : Option ConnectParams)
    (clientState : ClientState) : S _ (connectFrom fuel call params clientState) :=
  h.bind (h.setState _ _ _ nofun) fun _ => h.framed hframe (h.connecting hhandshake params _)

/-- Only a client that is not connected is connected. -/
theorem connect (h : Primitives F S) {params : Option ConnectParams}
    (hfrom : ∀ clientState, S _ (MqttClient.connectFrom fuel call params clientState)) :
    S _ (connect fuel call params) := by
  apply h.bind (h.look (·.client.clientState))
  exact fun clientState => Sequences.ite (fun _ => hfrom clientState) fun _ => h.pure _

/-- A disconnect that fails puts the state back that it has found. -/
theorem disconnect (h : Primitives F S) (hinternal : S _ (MqttClient.internalDisconnect fuel))
    (hback : ∀ new, S _ (putClientState new)) : S _ (disconnect fuel) := by
  apply h.bind (h.look (·.client.clientState))
  intro clientState
  apply h.bind (h.look World.isClientConnected)
  intro connected
  apply Sequences.ite
  · exact fun _ => h.pure _
  · intro _
    refine h.bind (h.setState _ _ _ nofun) fun rc => h.onSuccess rc ?_
    apply h.bind hinternal
    intro rc
    apply Sequences.ite
    · exact fun _ => h.bind (hback _) fun _ => h.pure _
    · exact fun _ => h.bind (hback _) fun _ => h.pure _

/-- The handler for a lost connection runs in its frame. -/
theorem callDisconnectHandler (h : Primitives F S) (hframe : ∀ name, F (.disconnectHandler name))
    (happ : S _ (application fuel call)) (disconnectHandler : Option HandlerName) :
    S _ (callDisconnectHandler fuel call disconnectHandler) := by
  cases disconnectHandler with
  | none => exact h.pure ()
  | some name =>
      apply h.bind (h.framed (hframe name) (h.bind happ fun _ => h.pure _))
      exact fun _ => h.pure ()

/-- A connection is closed by force where it could not be closed properly. -/
theorem handleDisconnect (h : Primitives F S) (hframe : F .handleDisconnect)
    (hdisconnect : S _ (MqttClient.disconnect fuel))
    (hhandler : ∀ handler, S _ (MqttClient.callDisconnectHandler fuel call handler)) :
    S _ (handleDisconnect fuel call) := by
  apply h.framed hframe
  apply h.bind hdisconnect
  intro rc
  have hforced : S _ forceClientDisconnect := by
    refine h.bind (h.putState _ nofun) fun _ => h.bind h.netDisconnect fun _ => ?_
    exact h.bind h.netDestroy fun _ => h.pure ()
  apply h.bind (h.doIf _ hforced)
  intro _
  apply h.bind (h.look World.client)
  intro c
  apply h.bind (hhandler _)
  exact fun _ => h.bind (h.putState _ nofun) fun _ => h.pure _

/-! ## Operations on a connected client -/

/-- Claim the client, run the operation, and release it. -/
theorem exclusively (h : Primitives F S) {inProgress : ClientState} {body : M IotError}
    {onRefused : ClientState → IotError → M IotError} (hclaim : inProgress ≠ .pendingReconnect)
    (hbody : S _ body)
    (hrefused : ∀ clientState rc, clientState ≠ .pendingReconnect →
      S _ (onRefused clientState rc)) :
    S _ (exclusively inProgress body onRefused) := by
  apply h.bind (h.look World.isClientConnected)
  intro connected
  apply Sequences.ite
  · exact fun _ => h.pure _
  · intro _
    apply h.bind (h.look (·.client.clientState))
    intro clientState
    apply Sequences.ite
    · exact fun _ => h.pure _
    · intro hstate
      have hpending : clientState ≠ .pendingReconnect := by
        rintro rfl
        exact hstate ⟨nofun, nofun⟩
      apply h.bind (h.setState _ _ _ hclaim)
      intro rc
      apply Sequences.ite
      · exact fun _ => hrefused _ _ hpending
      · intro _
        apply h.bind hbody
        exact fun bodyRc => h.bind (h.setState _ _ _ hpending) fun rc => h.pure _

/-- Arguments that are missing end a publish before its claim. -/
theorem publish (h : Primitives F S)
    (hbody : ∀ topicName topicNameLen arg,
      S _ (internalPublish fuel call topicName topicNameLen arg)) (topicName : Option (List UInt8))
    (topicNameLen : UInt16) (params : Option PublishArg) :
    S _ (publish fuel call topicName topicNameLen params) := by
  unfold MqttClient.publish
  split
  · apply Sequences.ite
    · exact fun _ => h.pure _
    · exact fun _ => h.exclusively nofun (hbody _ _ _) fun _ _ _ => h.pure _
  · exact h.pure _

/-- So they do a subscribe. -/
theorem subscribe (h : Primitives F S)
    (hbody : ∀ topicName topicNameLen qos handler data,
      S _ (internalSubscribe fuel call topicName topicNameLen qos handler data))
    (topicName : Option CString) (topicNameLen : UInt16) (qos : QoS)
    (applicationHandler : Option HandlerName) (data : Nat) :
    S _ (subscribe fuel call topicName topicNameLen qos applicationHandler data) := by
  unfold MqttClient.subscribe
  split
  · exact h.exclusively nofun (hbody _ _ _ _ _) fun _ _ _ => h.pure _
  · exact h.pure _

/-- An unsubscribe also rolls a refused claim back. -/
theorem unsubscribe (h : Primitives F S)
    (hbody : ∀ topicFilter topicFilterLen,
      S _ (internalUnsubscribe fuel call topicFilter topicFilterLen)) (topicFilter : Option CString)
    (topicFilterLen : UInt16) : S _ (unsubscribe fuel call topicFilter topicFilterLen) := by
  unfold MqttClient.unsubscribe
  split
  · exact h.pure _
  · exact h.exclusively nofun (hbody _ _) fun _ _ hstate => h.setState _ _ _ hstate

/-- A resubscribe claims the client from idle only. -/
theorem resubscribe (h : Primitives F S) (hbody : S _ (internalResubscribe fuel call)) :
    S _ (resubscribe fuel call) := by
  apply h.bind (h.look World.isClientConnected)
  intro connected
  apply Sequences.ite
  · exact fun _ => h.pure _
  · intro _
    apply h.bind (h.look (·.client.clientState))
    intro clientState
    apply Sequences.ite
    · exact fun _ => h.pure _
    · intro _
      refine h.bind (h.setState _ _ _ nofun) fun rc => h.onSuccess rc ?_
      apply h.bind hbody
      exact fun resubRc => h.bind (h.setState _ _ _ nofun) fun rc => h.pure _

/-! ## Reconnecting -/

/-- A connect that has left the client idle is followed by a resubscribe. -/
theorem attemptReconnect (h : Primitives F S)
    (hconnect : S _ (MqttClient.connect fuel call none))
    (hresubscribe : S _ (MqttClient.resubscribe fuel call))
    (hpending : S _ (setClientState .other .disconnectedError .pendingReconnect)) :
    S _ (attemptReconnect fuel call) := by
  apply h.bind (h.look World.isClientConnected)
  intro connected
  apply Sequences.ite
  · exact fun _ => h.pure _
  · intro _
    apply h.bind hconnect
    intro _
    apply h.bind (h.look (·.client.clientState))
    intro clientState
    apply Sequences.ite
    · exact fun _ => h.bind hpending fun _ => h.pure _
    · exact fun _ => h.bind hresubscribe fun rc => h.onSuccess rc (h.pure _)

/-- An attempt is made when its timer has expired and the physical layer is up. -/
theorem handleReconnect (h : Primitives F S) (hframe : F .handleReconnect)
    (hattempt : S _ (MqttClient.attemptReconnect fuel call))
    (hbackoff : ∀ rc, S _ (reconnectBackoff rc)) : S _ (handleReconnect fuel call) := by
  apply h.framed hframe
  apply h.bind (h.plain (.hasTimerExpired _))
  intro expired
  apply Sequences.ite
  · exact fun _ => h.pure _
  · intro _
    apply h.bind (h.plain .netIsConnected)
    intro rc
    apply Sequences.ite
    · intro _
      apply h.bind hattempt
      intro rc
      apply Sequences.ite
      · exact fun _ => h.bind (h.setState _ _ _ nofun) fun rc => h.onSuccess rc (h.pure _)
      · exact fun _ => hbackoff rc
    · exact fun _ => hbackoff rc

/-! ## Yielding -/

/-- A turn of a yield either reconnects or reads a packet. -/
theorem yieldCycle (h : Primitives F S)
    (hread : ∀ timer, S _ (MqttClient.internalCycleRead fuel call timer))
    (hkeepAlive : S _ (MqttClient.keepAlive fuel call))
    (hdisconnect : S _ (MqttClient.handleDisconnect fuel call))
    (hreconnect : S _ (MqttClient.handleReconnect fuel call)) (hlost : S _ connectionLost) :
    S _ (yieldCycle fuel call) := by
  apply h.bind (h.look (·.client.clientState))
  intro clientState
  apply Sequences.ite
  · intro _
    apply h.bind (h.look World.client)
    intro c
    apply Sequences.ite
    · exact fun _ => h.pure _
    · exact fun _ => h.bind hreconnect fun rc => h.pure _
  · intro _
    apply h.bind (hread _)
    intro r
    have hafter : S _ (afterCycleRead fuel call r.1) := by
      apply Sequences.ite
      · exact fun _ => hkeepAlive
      · exact fun _ => Sequences.ite (fun _ => hdisconnect) fun _ => h.pure _
    apply h.bind hafter
    intro yieldRc
    apply Sequences.ite
    · exact fun _ => hlost
    · exact fun _ => Sequences.ite (fun _ => h.pure _) fun _ => h.pure _

/-- The turns go on until the timer has expired or one of them ends the yield. -/
theorem yieldClaimed (h : Primitives F S) (hcycle : S _ (MqttClient.yieldCycle fuel call))
    (change : StateChange) : S _ (yieldClaimed fuel call change) := by
  have hloop : S _ (internalYield fuel call) := by
    apply h.loop
    intro _
    apply h.bind hcycle
    intro r
    cases r with
    | inr rc => exact h.pure _
    | inl rc =>
        apply h.bind (h.plain (.hasTimerExpired _))
        exact fun expired => Sequences.ite (fun _ => h.pure _) fun _ => h.pure _
  apply h.bind hloop
  intro yieldRc
  apply Sequences.ite
  · exact fun _ => h.bind (h.setState _ _ _ nofun) fun rc => h.pure _
  · exact fun _ => h.bind (h.doIf _ (h.emit _ rfl)) fun _ => h.pure _

/-- A yield of a client that is about to be reconnected needs no claim. -/
theorem yield (h : Primitives F S) (hcycle : S _ (MqttClient.yieldCycle fuel call))
    (timeoutMs : UInt32) : S _ (yield fuel call timeoutMs) := by
  apply Sequences.ite
  · exact fun _ => h.pure _
  · intro _
    apply h.bind (h.look (·.client.clientState))
    intro clientState
    apply Sequences.ite
    · exact fun _ => h.pure _
    · intro _
      apply Sequences.ite
      · intro _
        exact h.bind (h.plain (.countdown _ _)) fun _ => h.yieldClaimed hcycle _
      · intro _
        apply h.bind (h.look World.isClientConnected)
        intro connected
        apply Sequences.ite
        · exact fun _ => h.pure _
        · intro _
          apply Sequences.ite
          · exact fun _ => h.pure _
          · intro _
            refine h.bind (h.setState _ _ _ nofun) fun rc => h.onSuccess rc ?_
            exact h.bind (h.plain (.countdown _ _)) fun _ => h.yieldClaimed hcycle _

/-! ## Settings -/

/-- Settings change none of what a call in progress depends on. -/
theorem setting (h : Primitives F S) {c : Call} (hc : c.isSetting = true) :
    S _ (perform fuel call c) := by
  have hset {f : Client → Client} (hf : ∀ c : Client, c.SameSession (f c))
      (hping : ∀ c : Client, (f c).isPingOutstanding = c.isPingOutstanding) :
      S _ (modifyClient f >>= fun _ => pure IotError.success) :=
    h.bind (h.modifyClient hf hping) fun _ => h.pure _
  cases c with
  | setDisconnectHandler handler =>
      cases handler with
      | none => exact h.pure _
      | some handler => exact hset (fun _ => ⟨rfl, rfl, rfl, rfl, rfl, rfl⟩) fun _ => rfl
  | setConnectParams params =>
      cases params with
      | none => exact h.pure _
      | some params => exact hset (fun _ => ⟨rfl, rfl, rfl, rfl, rfl, rfl⟩) fun _ => rfl
  | resetNetworkDisconnectedCount =>
      exact hset (fun _ => ⟨rfl, rfl, rfl, rfl, rfl, rfl⟩) fun _ => rfl
  | _ => cases hc

end Primitives

/-- Frames other than those of calls, connects, subscriptions and message handlers. -/
def Frame.isInside : Frame → Bool
  | .call _ | .connecting | .subscribing _ | .handler _ => false
  | _ => true

/-- The calls whose work is on the table of handlers. -/
def Call.isOnTable : Call → Bool
  | .init _ | .subscribe _ _ _ _ _ | .unsubscribe _ _ => true
  | _ => false

def Call.isInit : Call → Bool
  | .init _ => true
  | _ => false

/-- What a change of neither the state nor the table leaves alone. -/
structure Client.SameTable (c c' : Client) : Prop where
  clientState : c'.clientState = c.clientState
  messageHandlers : c'.messageHandlers = c.messageHandlers

/-- `S` holds of every single step that leaves the table of handlers alone, and
of what runs in a frame in `F`. -/
structure OffTable (F : Frame → Prop) (S : (α : Type) → M α → Prop) : Prop
    extends Primitives F S, Dispatches F S where
  prepare : ∀ change expected, S _ (setClientState change expected .pendingReconnect)
  putBack : S _ (putClientState .pendingReconnect)
  change : ∀ f, (∀ c : Client, c.SameTable (f c)) → S _ (modifyClient f)

namespace OffTable

variable {F : Frame → Prop} {S : (α : Type) → M α → Prop} {fuel : Nat} {call : Call → M IotError}

/-- A change to any state has the property, if the one to the state for reconnecting has it. -/
theorem setClientState (h : OffTable F S) (change : StateChange) (expected new : ClientState) :
    S _ (setClientState change expected new) := by
  by_cases hnew : new = .pendingReconnect
  · rw [hnew]
    exact h.prepare change expected
  · exact h.setState change expected new hnew

/-- So has any assignment to the state. -/
theorem putClientState (h : OffTable F S) (new : ClientState) : S _ (putClientState new) := by
  by_cases hnew : new = .pendingReconnect
  · rw [hnew]
    exact h.putBack
  · exact h.putState new hnew

theorem internalDisconnect (h : OffTable F S) : S _ (internalDisconnect fuel) :=
  h.toTransports.internalDisconnect h.send

theorem disconnect (h : OffTable F S) : S _ (disconnect fuel) :=
  h.toPrimitives.disconnect h.internalDisconnect h.putClientState

/-- Backing off changes the interval only. -/
theorem reconnectBackoff (h : OffTable F S) (rc : IotError) : S _ (reconnectBackoff rc) := by
  refine h.bind (h.change _ fun _ => ⟨rfl, rfl⟩) fun _ => ?_
  apply h.bind (h.look World.client)
  intro c
  apply Sequences.ite
  · exact fun _ => h.pure _
  · exact fun _ => h.bind (h.plain (.countdown _ _)) fun _ => h.pure _

/-- A lost connection is counted, and a reconnect prepared if it is enabled. -/
theorem connectionLost (h : OffTable F S) : S _ connectionLost := by
  refine h.bind (h.change _ fun _ => ⟨rfl, rfl⟩) fun _ => ?_
  apply h.bind (h.look World.client)
  intro c
  apply Sequences.ite
  · intro _
    apply h.bind (h.setClientState _ _ _)
    intro rc
    apply Sequences.ite
    · exact fun _ => h.pure _
    · intro _
      refine h.bind (h.change _ fun _ => ⟨rfl, rfl⟩) fun _ => ?_
      exact h.bind (h.plain (.countdown _ _)) fun _ => h.pure _
  · exact fun _ => h.pure _

/-- A call of the interface: what its messages and its connects do is given, and
what the calls do whose work is on the table. -/
theorem perform (h : OffTable F S) (hframe : ∀ f : Frame, f.isInside = true → F f)
    (happ : S _ (application fuel call))
    (hread : ∀ timer, S _ (internalCycleRead fuel call timer))
    (hconnect : ∀ params, S _ (connect fuel call params)) (c : Call)
    (htable : c.isOnTable = true → S _ (perform fuel call c)) : S _ (perform fuel call c) := by
  have hwait : ∀ packetType, S _ (internalWaitForRead fuel call packetType) := fun _ =>
    h.internalWaitForRead hread (hframe _ rfl)
  have hcomposes := h.composes hwait
  have hresubscribe := h.resubscribe hcomposes.internalResubscribe
  have hattempt := h.attemptReconnect (hconnect none) hresubscribe (h.prepare _ _)
  have hlost : S _ (handleDisconnect fuel call) :=
    h.handleDisconnect (hframe _ rfl) h.disconnect
      (h.callDisconnectHandler (fun _ => hframe _ rfl) happ)
  cases c with
  | init | subscribe | unsubscribe => exact htable rfl
  | connect params => exact hconnect params
  | publish topicName topicNameLen params => exact h.publish hcomposes.internalPublish _ _ _
  | resubscribe => exact hresubscribe
  | yield timeoutMs =>
      have hreconnect := h.handleReconnect (hframe _ rfl) hattempt h.reconnectBackoff
      have hcycle := h.yieldCycle hread (h.keepAlive hlost) hlost hreconnect h.connectionLost
      exact h.yield hcycle timeoutMs
  | disconnect => exact h.disconnect
  | attemptReconnect => exact hattempt
  | autoreconnectSetStatus newStatus =>
      exact h.bind (h.change _ fun _ => ⟨rfl, rfl⟩) fun _ => h.pure _
  | setDisconnectHandler | setConnectParams | resetNetworkDisconnectedCount => exact h.setting rfl

end OffTable

/-- `S` holds of every single step of the client, and of what runs in a frame in `F`. -/
structure AllSteps (F : Frame → Prop) (S : (α : Type) → M α → Prop) : Prop
    extends OffTable F S where
  fill : ∀ slot h, S _ (addSubscription slot h)
  remove : ∀ topicFilter, S _ (removeSubscription topicFilter)

/-- A call of the interface: what its messages, its connects and an
initialization do is given. -/
theorem AllSteps.perform {F : Frame → Prop} {S : (α : Type) → M α → Prop} {fuel : Nat}
    {call : Call → M IotError} (h : AllSteps F S) (hframe : ∀ f : Frame, f.isInside = true → F f)
    (hslot : ∀ slot, F (.subscribing slot)) (happ : S _ (application fuel call))
    (hread : ∀ timer, S _ (internalCycleRead fuel call timer))
    (hconnect : ∀ params, S _ (connect fuel call params)) (c : Call)
    (hinit : ∀ params, c = .init params → S _ (init params)) : S _ (perform fuel call c) := by
  apply h.toOffTable.perform hframe happ hread hconnect
  intro hc
  have hcomposes := h.composes fun _ => h.internalWaitForRead hread (hframe _ rfl)
  cases c with
  | init params => exact hinit params rfl
  | subscribe topicName topicNameLen qos handler data =>
      apply h.subscribe
      intro _ _ _ _ _
      apply hcomposes.internalSubscribe
      intro slot len handler
      exact h.framed (hslot slot) (hcomposes.requestSubscription _ _ _ (h.fill _ _))
  | unsubscribe topicFilter topicFilterLen =>
      exact h.unsubscribe (fun _ _ => hcomposes.internalUnsubscribe _ _ (h.remove _)) _ _
  | _ => cases hc

end MqttClient
