import MqttClient.Shadow.Api
import MqttClient.Shadow.Documents

/-! # Walking through the shadow layer

A property of programs that is closed under sequencing holds of an operation if
it holds of the operation's parts. The operations are taken apart here once for
all such properties. An atomic step is known by the part of the state that it
may change; what a property says about the parts that matter to it is left to
its own module.
-/

namespace MqttClient.Shadow

open Effect Program

/-- The parts of the state that atomic steps change. -/
inductive Part where
  | readBuf | formerLocal | handlers | subscriptions | acks | tables | document | version
  | registry | names | counters | flag
  | event (e : Event)

/-- `t` is `s` but for this part. Arrays keep their size. -/
def World.ChangesTo (s : World) (part : Part) (t : World) : Prop :=
  match part with
  | .readBuf => t = { s with readBuf := t.readBuf }
  | .formerLocal => t = { s with deleteAcceptedTopic := t.deleteAcceptedTopic }
  | .handlers => t = { s with messageHandlers := t.messageHandlers }
  | .subscriptions => t = { s with subscriptionList := t.subscriptionList }
  | .acks => t = { s with ackWaitList := t.ackWaitList }
  | .tables => t = { s with
      ackWaitList := t.ackWaitList
      subscriptionList := t.subscriptionList }
  | .document =>
      t = { s with shadowRxBuf := t.shadowRxBuf, jsonTokenStruct := t.jsonTokenStruct } ∧
        t.jsonTokenStruct.length = s.jsonTokenStruct.length
  | .version => t = s.resetLastReceivedVersion
  | .registry =>
      t = { s with
        tokenTable := t.tokenTable
        deltaTopicSubscribedFlag := t.deltaTopicSubscribedFlag } ∧
        (s.tokenTable.length ≤ maxJsonTokenExpected → t.tokenTable.length ≤ maxJsonTokenExpected)
  | .names => t = { s with myThingName := t.myThingName, mqttClientID := t.mqttClientID }
  | .counters => t = { s with
      clientTokenNum := t.clientTokenNum
      deltaTopicSubscribedFlag := t.deltaTopicSubscribedFlag
      shadowDeltaTopic := t.shadowDeltaTopic }
  | .flag => t = { s with shadowDiscardOldDeltaFlag := t.shadowDiscardOldDeltaFlag }
  | .event e => t = s.log e

namespace World

/-- The payload of a message, copied to the buffer for documents, ends at a zero. -/
theorem holds_withPayload (w : World) {m : MessageRef}
    (hlength : m.payloadLen ≤ shadowMaxSizeOfRxBuffer) :
    (w.withPayload m).rxDocument.Holds ((w.withPayload m).rxDocument.text 0) := by
  apply Document.holds_text hlength
  exact Memory.store_apply _ [0] (Nat.zero_lt_one)

/-- Tokenizing the document changes the tokens only. -/
theorem changesTo_withRxTokens (w : World) : w.ChangesTo .document w.withRxTokens :=
  ⟨rfl, length_isJsonValidAndParse _ _⟩

/-- Registering a key adds to the registry only. -/
theorem changesTo_withKey (w : World) (s : JsonStruct) : w.ChangesTo .registry (w.withKey s) := by
  unfold withKey
  split
  next => exact ⟨rfl, id⟩
  next hroom =>
      refine ⟨rfl, fun _ => ?_⟩
      rw [List.length_append]
      exact Nat.lt_of_not_le hroom

end World

/-- `S` holds of questions and of steps that change parts in `K`, and is closed
under sequencing and under framing with frames in `F`. -/
structure Walks (F : Frame → Prop) (K : Part → Prop) (S : (α : Type) → M α → Prop) : Prop where
  ret : ∀ {α : Type} (a : α), S α (.ret a)
  stop : ∀ {α : Type}, S α .stop
  bind : ∀ {α β : Type} {p : M α} {g : α → M β}, S α p → (∀ a, S β (g a)) → S β (p >>= g)
  ask : ∀ q, S _ (ask q)
  get : S World Program.get
  atomically : ∀ {α : Type} {part : Part} {v : World → α} {f : World → World}, K part →
    (∀ w : World, w.ChangesTo part (f w)) → S α (Program.atomically v f)
  framed : ∀ {f : Frame} {body : M IotError}, F f → S _ body → S _ (framed f body)

namespace Walks

variable {F : Frame → Prop} {K : Part → Prop} {S : (α : Type) → M α → Prop} {α β : Type}
  {fuel : Nat} {call : Procedure → M IotError}

/-- A step that changes one part has the property, if changes of that part have it. -/
theorem modify (h : Walks F K S) {part : Part} {f : World → World} (hpart : K part)
    (hf : ∀ w : World, w.ChangesTo part (f w)) : S Unit (Program.modify f) :=
  h.atomically hpart hf

theorem ite {c : Prop} [Decidable c] {p q : M α} (hp : c → S α p) (hq : ¬ c → S α q) :
    S α (if c then p else q) := by
  split
  next hc => exact hp hc
  next hc => exact hq hc

/-- A loop has the property if its body has it; by induction on the turns that are left. -/
theorem loop (h : Walks F K S) {body : β → M (β ⊕ α)} (hbody : ∀ b, S _ (body b)) (fuel : Nat)
    (b : β) : S α (Program.loop body fuel b) := by
  induction fuel generalizing b with
  | zero => exact h.stop
  | succ fuel ih =>
      apply h.bind (hbody b)
      intro r
      cases r with
      | inl b' => exact ih b'
      | inr a => exact h.ret a

/-- Doing something for each of a list has the property if doing it once has it. -/
theorem forEach (h : Walks F K S) {body : β → M Unit} (hbody : ∀ b, S _ (body b)) (bs : List β) :
    S _ (Program.forEach body bs) := by
  induction bs with
  | nil => exact h.ret ()
  | cons b bs ih => exact h.bind (hbody b) fun _ => ih

/-- So has looking for the first of a list. -/
theorem firstOf (h : Walks F K S) {body : β → M (Option α)} (hbody : ∀ b, S _ (body b))
    (bs : List β) : S _ (Program.firstOf body bs) := by
  induction bs with
  | nil => exact h.ret none
  | cons b bs ih =>
      apply h.bind (hbody b)
      intro r
      cases r with
      | none => exact ih
      | some a => exact h.ret (some a)

theorem onSuccess (h : Walks F K S) (rc : IotError) {p : M IotError} (hp : S _ p) :
    S _ (onSuccess rc p) := ite (fun _ => hp) fun _ => h.ret rc

theorem doIf (h : Walks F K S) (b : Bool) {p : M Unit} (hp : S _ p) : S _ (doIf b p) :=
  ite (fun _ => hp) fun _ => h.ret ()

/-- So has a frame around a body without a result. -/
theorem framedVoid (h : Walks F K S) {f : Frame} {body : M Unit} (hf : F f) (hbody : S _ body) :
    S _ (framedVoid f body) :=
  h.bind (h.framed hf (h.bind hbody fun _ => h.ret _)) fun _ => h.ret _

theorem emit (h : Walks F K S) {e : Event} (he : K (.event e)) : S _ (emit e) :=
  h.modify he fun _ => rfl

/-! ## The client below -/

/-- Application code has the property if the calls that it makes have it. -/
theorem application (h : Walks F K S) (hcall : ∀ c, S _ (call (.call c))) :
    S _ (application fuel call) := by
  apply h.loop
  intro _
  apply h.bind (h.ask .application)
  intro next
  cases next with
  | none => exact h.ret _
  | some c => exact h.bind (hcall c) fun _ => h.ret _

/-- Waiting has the property if receiving a packet has it. -/
theorem waitFor (h : Walks F K S) (hcall : ∀ packet, S _ (call (.receive packet))) (r : Request) :
    S _ (waitFor fuel call r) := by
  apply h.loop
  intro _
  apply h.bind (h.ask (.wait r))
  intro next
  cases next with
  | done rc => exact h.ret _
  | packet bytes => exact h.bind (hcall bytes) fun _ => h.ret _

/-- A request that is claimed and given back has it if its body has it. -/
theorem claimed (h : Walks F K S) (r : Request) {body : M IotError} (hbody : S _ body) :
    S _ (claimed r body) := by
  apply h.bind (h.ask (.claim r))
  intro rc
  apply h.onSuccess
  apply h.bind hbody
  intro bodyRc
  exact h.bind (h.ask (.release r)) fun _ => h.ret _

theorem lookAtFormerLocal (h : Walks F K S) (hlocal : K .formerLocal) : S _ lookAtFormerLocal :=
  h.bind (h.ask .formerLocal) fun _ => h.modify hlocal fun _ => rfl

/-- A subscribe changes the table only where it sets its slot. -/
theorem mqttSubscribe (h : Walks F K S) (hcall : ∀ packet, S _ (call (.receive packet)))
    {buffer : TopicBuffer} {handler : Handler}
    (hset : ∀ j s, s.topicName = buffer → S _ (Program.modify (·.setHandler j s))) :
    S _ (mqttSubscribe fuel call buffer handler) := by
  apply h.bind h.get
  intro w
  apply h.claimed
  apply h.bind h.get
  intro w'
  split
  next => exact h.ret _
  next j _ =>
      apply h.bind (h.waitFor hcall _)
      intro rc
      exact h.onSuccess rc (h.bind (hset j _ rfl) fun _ => h.ret _)

/-- An unsubscribe changes the table only where it frees the slots of the topic. -/
theorem mqttUnsubscribe (h : Walks F K S) (hcall : ∀ packet, S _ (call (.receive packet)))
    (hlocal : K .formerLocal) {topic : List UInt8} (hemit : S _ (Shadow.emit (.unsubscribe topic)))
    (hremove : S _ (Program.modify (·.withoutFilter topic))) :
    S _ (mqttUnsubscribe fuel call topic) := by
  apply h.bind hemit
  intro _
  apply h.claimed
  apply h.bind (h.lookAtFormerLocal hlocal)
  intro _
  apply h.bind h.get
  intro w
  apply ite (fun _ => h.ret _)
  intro _
  apply h.bind (h.waitFor hcall _)
  intro rc
  exact h.onSuccess rc (h.bind hremove fun _ => h.ret _)

/-- A publish of QoS 0 puts its message on record and waits for nothing. -/
theorem mqttPublish (h : Walks F K S) {topic payload : List UInt8}
    (hemit : K (.event (.published topic payload))) : S _ (mqttPublish topic payload) := by
  apply h.claimed
  apply h.bind (h.ask _)
  intro rc
  exact h.onSuccess rc (h.bind (h.emit hemit) fun _ => h.ret _)

/-- A publish of QoS 1 waits for its acknowledgement behind that. -/
theorem mqttPublishQos1 (h : Walks F K S) (hcall : ∀ packet, S _ (call (.receive packet)))
    {topic payload : List UInt8} (hemit : K (.event (.published topic payload))) :
    S _ (mqttPublishQos1 fuel call topic payload) := by
  apply h.claimed
  apply h.bind (h.ask _)
  intro rc
  exact h.onSuccess rc (h.bind (h.emit hemit) fun _ => h.waitFor hcall _)

/-! ## Incoming messages -/

/-- A message goes to one of the two callbacks of the layer, or to the application. -/
theorem callHandler (h : Walks F K S) {m : MessageRef}
    (hack : S _ (ackStatusCallback fuel call m)) (hdelta : S _ (shadowDeltaCallback fuel call m))
    (hframe : ∀ name, F (.handler name)) (hcall : ∀ c, S _ (call (.call c))) (handler : Handler) :
    S _ (callHandler fuel call m handler) := by
  cases handler with
  | ackStatusCallback => exact hack
  | shadowDeltaCallback => exact hdelta
  | application name => exact h.framedVoid (hframe name) (h.application hcall)

/-- It goes to every slot that receives it. -/
theorem deliverMessage (h : Walks F K S) {m : MessageRef}
    (hhandler : ∀ handler, S _ (Shadow.callHandler fuel call m handler)) :
    S _ (deliverMessage fuel call m) := by
  apply h.forEach
  intro j
  apply h.bind h.get
  intro w
  split
  next => exact h.ret _
  next s _ => exact ite (fun _ => hhandler s.handler) fun _ => h.ret _

/-- A packet is put into the read buffer before it is delivered. -/
theorem dispatchPacket (h : Walks F K S) (hread : K .readBuf) (hlocal : K .formerLocal)
    (hdeliver : ∀ m, S _ (Shadow.deliverMessage fuel call m)) (packet : List UInt8) :
    S _ (dispatchPacket fuel call packet) := by
  apply h.bind
  · exact h.modify hread fun _ => rfl
  intro _
  apply h.bind (h.lookAtFormerLocal hlocal)
  intro _
  apply h.bind h.get
  intro w
  split
  next => exact h.ret _
  next m _ => exact h.bind (hdeliver m) fun _ => h.ret _

/-- The beginning of both message callbacks. -/
theorem receiveDocument (h : Walks F K S) (hdocument : K .document) (m : MessageRef) :
    S _ (receiveDocument m) := by
  apply ite (fun _ => h.ret _)
  intro _
  exact h.bind (h.modify hdocument fun _ => ⟨rfl, rfl⟩) fun _ =>
    h.atomically hdocument World.changesTo_withRxTokens

/-- The status is read off the topic, where nothing is changed. -/
theorem ackStatusOf (h : Walks F K S) (topicName : List UInt8) : S _ (ackStatusOf topicName) := by
  apply ite (fun _ => h.ret _)
  intro _
  apply ite (fun _ => h.ret _)
  intro _
  exact h.bind (h.ask .indeterminate) fun _ => h.ret _

/-- A record is completed at most. -/
theorem ackRecord (h : Walks F K S) {i : AckIndex}
    (hcomplete : ∀ status, S _ (completeAck fuel call i status)) (m : MessageRef)
    (token : List UInt8) : S _ (ackRecord fuel call m token i) := by
  apply h.bind h.get
  intro w
  apply ite _ fun _ => h.ret _
  intro _
  apply h.bind (h.ackStatusOf _)
  intro status
  cases status with
  | none => exact h.ret _
  | some status => exact h.bind (hcomplete status) fun _ => h.ret _

/-! ## Answering records -/

/-- Calling back is put on record, and the callback runs in its frame. -/
theorem answerRecord (h : Walks F K S) {i : AckIndex} {status : AckStatus}
    (hemit : ∀ r, K (.event (.answered i r status))) (hframe : ∀ name, F (.callback name))
    (hcall : ∀ c, S _ (call (.call c))) : S _ (answerRecord fuel call i status) := by
  apply h.bind h.get
  intro w
  dsimp only
  split
  next => exact h.ret _
  next name _ =>
      exact h.bind (h.emit (hemit _)) fun _ => h.framedVoid (hframe name) (h.application hcall)

/-- Every record is looked at, and completed if its time is over. -/
theorem handleExpiredResponseCallbacks (h : Walks F K S)
    (hcomplete : ∀ i, S _ (completeExpired fuel call i)) :
    S _ (handleExpiredResponseCallbacks fuel call) := by
  apply h.forEach
  intro i
  apply h.bind h.get
  intro w
  apply ite (fun _ => h.ret _)
  intro _
  apply h.bind (h.ask _)
  intro expired
  exact ite (fun _ => hcomplete i) fun _ => h.ret _

/-- Waiting for the subscriptions to settle changes nothing. -/
theorem settle (h : Walks F K S) : S _ (settle fuel) :=
  h.loop (fun _ => h.bind (h.ask _) fun _ => h.ret _) _ _

end Walks

/-! ## The client's own operations -/

/-- What holds of all steps by which the client's own operations change the message
handlers. -/
structure ClientWalks (F : Frame → Prop) (K : Part → Prop) (S : (α : Type) → M α → Prop) : Prop
    extends Walks F K S where
  formerLocal : K .formerLocal
  handlers : K .handlers
  unsubscribe : ∀ topic, K (.event (.unsubscribe topic))
  published : ∀ topic payload, K (.event (.published topic payload))

/-- The parts that a call changes itself, beyond the tables. -/
def Call.parts : Call → List Part
  | .init => [.counters, .version, .registry]
  | .connect _ => [.names, .tables]
  | .get .. | .delete .. => [.counters]
  | .registerDelta _ => [.counters, .registry]
  | .resetLastReceivedVersion => [.version]
  | .enableDiscardOldDeltaMsgs | .disableDiscardOldDeltaMsgs => [.flag]
  | _ => []

namespace ClientWalks

variable {F : Frame → Prop} {K : Part → Prop} {S : (α : Type) → M α → Prop}
  {fuel : Nat} {call : Procedure → M IotError}

/-- Subscribing walks through the table of handlers. -/
theorem subscribe (h : ClientWalks F K S) (hcall : ∀ packet, S _ (call (.receive packet)))
    (buffer : TopicBuffer) (handler : Handler) : S _ (mqttSubscribe fuel call buffer handler) :=
  h.mqttSubscribe hcall fun _ _ _ => h.modify h.handlers fun _ => rfl

/-- So does unsubscribing. -/
theorem unsubscribeTopic (h : ClientWalks F K S) (hcall : ∀ packet, S _ (call (.receive packet)))
    (topic : List UInt8) : S _ (mqttUnsubscribe fuel call topic) :=
  h.mqttUnsubscribe hcall h.formerLocal (h.emit (h.unsubscribe topic))
    (h.modify h.handlers fun _ => rfl)

/-- Publishing to a thing puts the message on record. -/
theorem publishToShadowAction (h : ClientWalks F K S) (p : Target) (doc : List UInt8) :
    S _ (publishToShadowAction p doc) := h.mqttPublish (h.published _ _)

/-! ## The interface -/

/-- A call that is not made without a connection has the property if it has it with one. -/
theorem ifConnected (h : ClientWalks F K S) {next : M IotError} (hnext : S _ next) :
    S _ (ifConnected next) :=
  h.bind (h.ask _) fun _ => Walks.ite (fun _ => hnext) fun _ => h.ret _

/-- A connect changes the names and the tables, and subscribes to deletions. -/
theorem shadowConnect (h : ClientWalks F K S) (hnames : K .names) (htables : K .tables)
    (hcall : ∀ packet, S _ (call (.receive packet))) (params : Option ShadowConnectParams) :
    S _ (shadowConnect fuel call params) := by
  unfold Shadow.shadowConnect
  split
  next => exact h.ret _
  next params _ _ =>
      apply h.bind
      · exact h.modify hnames fun _ => rfl
      intro _
      apply h.bind (h.waitFor hcall _)
      intro rc
      apply h.bind
      · exact h.doIf _ (h.modify htables fun _ => rfl)
      intro _
      split
      next => exact h.ret _
      next name _ =>
          apply h.bind
          · exact h.modify h.formerLocal fun _ => rfl
          intro _
          exact h.subscribe hcall _ _

/-- An initialization changes the counters, the version and the registry. -/
theorem shadowInit (h : ClientWalks F K S) (hcounters : K .counters) (hversion : K .version)
    (hregistry : K .registry) : S _ shadowInit := by
  apply h.bind (h.ask _)
  intro rc
  apply Walks.ite (fun _ => h.ret _)
  intro _
  apply h.bind
  · exact h.modify h.handlers fun _ => rfl
  intro _
  apply h.onSuccess
  apply h.bind
  · exact h.modify hcounters fun _ => rfl
  intro _
  apply h.bind
  · exact h.modify hversion fun _ => rfl
  intro _
  apply h.bind
  · exact h.modify hregistry fun _ => ⟨rfl, fun _ => Nat.zero_le _⟩
  intro _
  exact h.ret _

/-- Registering a key subscribes to the topic of deltas first. -/
theorem registerDelta (h : ClientWalks F K S) (hcounters : K .counters) (hregistry : K .registry)
    (hcall : ∀ packet, S _ (call (.receive packet))) (s : Option JsonStruct) :
    S _ (registerDelta fuel call s) := by
  have hsubscribe : S _ (subscribeDelta fuel call) := by
    apply h.bind h.get
    intro w
    apply Walks.ite (fun _ => h.ret _)
    intro _
    apply h.bind
    · exact h.modify hcounters fun _ => rfl
    intro _
    apply h.bind (h.subscribe hcall _ _)
    intro rc
    apply h.bind
    · exact h.modify hcounters fun _ => rfl
    intro _
    exact h.ret _
  cases s with
  | none => exact h.ret _
  | some s =>
      apply h.ifConnected
      apply h.bind hsubscribe
      intro rc
      apply h.bind
      · exact h.atomically hregistry fun w => w.changesTo_withKey s
      intro _
      exact h.ret _

/-- A call whose own parts are all in `K`. -/
theorem perform (h : ClientWalks F K S)
    (haction : ∀ args, S _ (Shadow.internalAction fuel call args))
    (hexpired : S _ (Shadow.handleExpiredResponseCallbacks fuel call))
    (hcall : ∀ proc, S _ (call proc)) {c : Call} (hparts : ∀ part ∈ c.parts, K part) :
    S _ (perform fuel call c) := by
  have hreceive (packet : List UInt8) : S _ (call (.receive packet)) := hcall (.receive packet)
  have htoken (hcounters : K .counters) (action : ShadowAction) (thingName : Option Text)
      (callback : Option CallbackName) (context : Nat) (timeout : UInt8) (isSticky : Bool) :
      S _ (requestWithToken fuel call action thingName callback context timeout isSticky) := by
    apply h.ifConnected
    apply h.bind
    · exact h.atomically hcounters fun _ => rfl
    intro doc
    exact haction _
  cases c with
  | init =>
      exact h.shadowInit (hparts .counters (by simp [Call.parts]))
        (hparts .version (by simp [Call.parts])) (hparts .registry (by simp [Call.parts]))
  | connect params =>
      exact h.shadowConnect (hparts .names (by simp [Call.parts]))
        (hparts .tables (by simp [Call.parts])) hreceive params
  | disconnect => exact h.ask (.send .disconnect)
  | update => exact h.ifConnected (haction _)
  | get => exact htoken (hparts .counters (by simp [Call.parts])) _ _ _ _ _ _
  | delete => exact htoken (hparts .counters (by simp [Call.parts])) _ _ _ _ _ _
  | internalAction args => exact haction args
  | registerDelta s =>
      exact h.registerDelta (hparts .counters (by simp [Call.parts]))
        (hparts .registry (by simp [Call.parts])) hreceive s
  | yield timeout =>
      exact h.bind hexpired fun _ =>
        h.waitFor hreceive _
  | resetLastReceivedVersion =>
      apply h.bind
      · exact h.modify (hparts .version (by simp [Call.parts])) fun _ => rfl
      intro _
      exact h.ret _
  | enableDiscardOldDeltaMsgs =>
      apply h.bind
      · exact h.modify (hparts .flag (by simp [Call.parts])) fun _ => rfl
      intro _
      exact h.ret _
  | disableDiscardOldDeltaMsgs =>
      apply h.bind
      · exact h.modify (hparts .flag (by simp [Call.parts])) fun _ => rfl
      intro _
      exact h.ret _
  | mqttSubscribe topic handler => exact h.subscribe hreceive _ _
  | mqttUnsubscribe topic => exact h.unsubscribeTopic hreceive _
  | mqttPublish topic payload qos =>
      apply Walks.ite
      · intro _
        exact h.mqttPublish (h.published _ _)
      · intro _
        exact h.mqttPublishQos1 hreceive (h.published _ _)

/-! ## Messages -/

/-- A message with a token is handed to the records that wait for it. -/
theorem answerToken (h : ClientWalks F K S) (hdocument : K .document)
    {m : MessageRef} (hrecord : ∀ token i, S _ (Shadow.ackRecord fuel call m token i)) :
    S _ (answerToken fuel call m) := by
  apply h.bind
  · exact h.atomically hdocument World.changesTo_withRxTokens
  intro token
  cases token with
  | none => exact h.ret _
  | some token =>
      apply h.bind
      · exact h.firstOf (hrecord token) _
      intro _
      exact h.ret _

/-- The callback for responses takes over the version before it looks for a record. -/
theorem ackStatusBody (h : ClientWalks F K S) (hdocument : K .document)
    {m : MessageRef} (hrecord : ∀ token i, S _ (Shadow.ackRecord fuel call m token i))
    (hversion : ∀ tokenCount, S _ (Program.modify (·.withResponseVersion m tokenCount))) :
    S _ (ackStatusBody fuel call m) := by
  apply h.bind (h.receiveDocument hdocument m)
  intro tokenCount
  cases tokenCount with
  | none => exact h.ret _
  | some tokenCount =>
      apply h.bind (hversion tokenCount)
      intro _
      exact h.answerToken hdocument hrecord

/-- The value of a key is put on record and called back. -/
theorem dispatchKey (h : ClientWalks F K S) (hcall : ∀ proc, S _ (call proc))
    (hmatched : ∀ s stored, K (.event (.matched s stored)))
    (hcallback : ∀ s value length, K (.event (.deltaCallback s value length)))
    (hframe : ∀ name, F (.deltaCallback name)) (tokenCount i : Nat) :
    S _ (dispatchKey fuel call tokenCount i) := by
  apply h.bind h.get
  intro w
  split
  next => exact h.ret _
  next s _ =>
      split
      next => exact h.ret _
      next v _ =>
          apply h.bind (h.emit (hmatched s _))
          intro _
          split
          next => exact h.ret _
          next name _ =>
              apply h.bind (h.emit (hcallback s _ _))
              intro _
              exact h.framedVoid (hframe name) (h.application fun c => hcall (.call c))

/-- The callback for deltas takes over the version before it looks for the keys. -/
theorem shadowDeltaBody (h : ClientWalks F K S) (hdocument : K .document) (m : MessageRef)
    (hversion : ∀ tokenCount,
      S _ (Program.atomically (·.isOldDelta tokenCount) (·.withDeltaVersion tokenCount)))
    (hkey : ∀ tokenCount i, S _ (Shadow.dispatchKey fuel call tokenCount i)) :
    S _ (shadowDeltaBody fuel call m) := by
  apply h.bind (h.receiveDocument hdocument m)
  intro tokenCount
  cases tokenCount with
  | none => exact h.ret _
  | some tokenCount =>
      apply h.bind (hversion tokenCount)
      intro isOld
      exact Walks.ite (fun _ => h.ret _) fun _ => h.forEach (hkey tokenCount) _

/-- A packet is received in its frame. -/
theorem receivePacket (h : ClientWalks F K S) (hreceiving : ∀ packet, F (.receiving packet))
    (hhandler : ∀ name, F (.handler name)) (hread : K .readBuf)
    (hack : ∀ m, S _ (ackStatusCallback fuel call m))
    (hdelta : ∀ m, S _ (shadowDeltaCallback fuel call m)) (hcall : ∀ c, S _ (call (.call c)))
    (packet : List UInt8) : S _ (receivePacket fuel call packet) := by
  apply h.framed (hreceiving packet)
  apply h.dispatchPacket hread h.formerLocal
  intro m
  apply h.deliverMessage
  exact h.callHandler (hack m) (hdelta m) hhandler hcall

end ClientWalks

/-! ## Actions -/

/-- What holds of all steps of an action, too, which subscribes the topics of its
answers and puts a record to use. -/
structure ActionWalks (F : Frame → Prop) (K : Part → Prop) (S : (α : Type) → M α → Prop) : Prop
    extends ClientWalks F K S where
  subscriptions : K .subscriptions
  subscribing : ∀ p a k, F (.subscribing p a k)
  awaited : ∀ i p token callback context isSticky, S Unit (Program.modify fun w =>
    (w.addToAckWaitList i p token callback context).log (.awaited i p isSticky))

namespace ActionWalks

variable {F : Frame → Prop} {K : Part → Prop} {S : (α : Type) → M α → Prop}
  {fuel : Nat} {call : Procedure → M IotError}

/-- An entry of the list of subscriptions is changed in place. -/
theorem onSubscription (h : ActionWalks F K S) (k : SubscriptionIndex)
    (f : SubscriptionRecord → SubscriptionRecord) : S _ (onSubscription k f) :=
  h.modify h.subscriptions fun _ => rfl

/-- Releasing a topic unsubscribes it where nothing else counts on it. -/
theorem releaseTopic (h : ActionWalks F K S) (hcall : ∀ packet, S _ (call (.receive packet)))
    (topic : List UInt8) : S _ (releaseTopic fuel call topic) := by
  apply h.bind h.get
  intro w
  split
  next => exact h.ret _
  next k _ =>
      apply Walks.ite
      · intro _
        apply h.bind (h.unsubscribeTopic hcall topic)
        intro rc
        exact Walks.ite (fun _ => h.onSubscription k _) fun _ => h.ret _
      · intro _
        exact Walks.ite (fun _ => h.onSubscription k _) fun _ => h.ret _

theorem freeEntry (h : ActionWalks F K S) (accepted rejected : Option SubscriptionIndex) :
    S _ (freeEntry accepted rejected) := by
  unfold Shadow.freeEntry
  split
  next => exact h.ret _
  next k _ => exact h.onSubscription k _

theorem readEntry (h : ActionWalks F K S) (accepted : Option SubscriptionIndex) :
    S _ (readEntry accepted) := by
  cases accepted with
  | none => exact h.ask .beforeSubscriptionList
  | some k => exact h.atomically h.subscriptions fun _ => rfl

/-- Clearing two entries releases their topics first. -/
theorem clearEntries (h : ActionWalks F K S) (hcall : ∀ packet, S _ (call (.receive packet)))
    (accepted rejected : Option SubscriptionIndex) :
    S _ (clearEntries fuel call accepted rejected) := by
  apply h.bind (h.freeEntry accepted rejected)
  intro _
  apply h.bind (h.readEntry accepted)
  intro r
  exact Walks.ite (fun _ => h.bind (h.unsubscribeTopic hcall _) fun _ => h.ret _) fun _ => h.ret _

/-- An entry is filled behind a subscribe that succeeds. -/
theorem subscribeEntry (h : ActionWalks F K S) (hcall : ∀ packet, S _ (call (.receive packet)))
    (k : SubscriptionIndex) (topic : List UInt8) (isSticky : Bool) :
    S _ (subscribeEntry fuel call k topic isSticky) := by
  apply h.bind (h.onSubscription k _)
  intro _
  apply h.bind (h.subscribe hcall _ _)
  intro rc
  exact h.onSuccess rc (h.bind (h.onSubscription k _) fun _ => h.ret _)

/-- The topic of rejections is subscribed behind that of acceptances. -/
theorem subscribeEntries (h : ActionWalks F K S) (hcall : ∀ packet, S _ (call (.receive packet)))
    (p : Target) (isSticky : Bool) (a k : SubscriptionIndex) :
    S _ (subscribeEntries fuel call p isSticky a k) := by
  apply h.framed (h.subscribing p a k)
  apply h.bind (h.subscribeEntry hcall _ _ _)
  intro rc
  apply h.onSuccess
  apply h.bind (h.subscribeEntry hcall _ _ _)
  intro rc
  exact h.onSuccess rc (h.bind h.settle fun _ => h.ret _)

/-- Taking an entry marks it as used. -/
theorem takeEntry (h : ActionWalks F K S) : S _ getNextFreeIndexOfSubscriptionList := by
  apply h.atomically h.subscriptions
  intro w
  unfold World.withSubscriptionTaken
  split <;> rfl

/-- Both topics are subscribed in their frame. -/
theorem subscribeToShadowActionAcks (h : ActionWalks F K S)
    (hcall : ∀ packet, S _ (call (.receive packet))) (p : Target) (isSticky : Bool) :
    S _ (subscribeToShadowActionAcks fuel call p isSticky) := by
  apply h.bind h.takeEntry
  intro accepted
  apply h.bind h.takeEntry
  intro rejected
  split
  next a k =>
      apply h.bind (h.subscribeEntries hcall p isSticky a k)
      intro rc
      apply Walks.ite (fun _ => h.ret _)
      intro _
      exact h.bind (h.clearEntries hcall _ _) fun _ => h.ret _
  next => exact h.bind (h.clearEntries hcall _ _) fun _ => h.ret _

/-- A pair that is there already is counted once more. -/
theorem awaitAcks (h : ActionWalks F K S) (hcall : ∀ packet, S _ (call (.receive packet)))
    (p : Target) (isSticky : Bool) : S _ (awaitAcks fuel call p isSticky) := by
  apply h.bind h.get
  intro w
  apply Walks.ite
  · intro _
    exact h.bind (h.modify h.subscriptions fun _ => rfl) fun _ => h.ret _
  · intro _
    exact h.subscribeToShadowActionAcks hcall p isSticky

/-- A request with a token and a callback is tracked, and any other one is published. -/
theorem requestAction (h : ActionWalks F K S) (hcall : ∀ packet, S _ (call (.receive packet)))
    (args : ActionArgs) (p : Target) (doc : List UInt8) (token : Option (List UInt8)) :
    S _ (requestAction fuel call args p doc token) := by
  unfold Shadow.requestAction
  split
  next token callback _ =>
      apply h.bind h.get
      intro w
      split
      next => exact h.ret _
      next i _ =>
          apply h.bind (h.awaitAcks hcall p _)
          intro rc
          apply h.onSuccess
          apply h.bind (h.publishToShadowAction p doc)
          intro rc
          exact h.onSuccess rc (h.bind (h.awaited i p token callback _ _) fun _ => h.ret _)
  next => exact h.publishToShadowAction p doc

/-- An action is a request about one document. -/
theorem internalAction (h : ActionWalks F K S)
    (hrequested : ∀ args doc body, (∀ token, S _ (body token)) → S _ (requested args doc body))
    (hcall : ∀ packet, S _ (call (.receive packet))) (args : ActionArgs) :
    S _ (internalAction fuel call args) := by
  unfold Shadow.internalAction
  split
  next thing doc _ _ =>
      exact hrequested _ _ _ fun token => h.requestAction hcall args _ _ token
  next => exact h.ret _

/-- A call whose own parts are all in `K`. -/
theorem perform (h : ActionWalks F K S)
    (hrequested : ∀ args doc body, (∀ token, S _ (body token)) → S _ (requested args doc body))
    (hexpired : S _ (Shadow.handleExpiredResponseCallbacks fuel call))
    (hcall : ∀ proc, S _ (call proc)) {c : Call} (hparts : ∀ part ∈ c.parts, K part) :
    S _ (perform fuel call c) :=
  h.toClientWalks.perform (h.internalAction hrequested fun packet => hcall (.receive packet))
    hexpired hcall hparts

end ActionWalks

/-! ## Operations on the tables -/

/-- What holds of all steps that change the layer's tables, too. -/
structure TableWalks (F : Frame → Prop) (K : Part → Prop) (S : (α : Type) → M α → Prop) : Prop
    extends ActionWalks F K S where
  acks : K .acks
  answered : ∀ i r status, K (.event (.answered i r status))
  completing : ∀ i status, F (.completing i status)
  releasing : ∀ i, F (.releasing i)
  callback : ∀ name, F (.callback name)

namespace TableWalks

variable {F : Frame → Prop} {K : Part → Prop} {S : (α : Type) → M α → Prop}
  {fuel : Nat} {call : Procedure → M IotError}

/-- Both topics of a record are released in their frame. -/
theorem unsubscribeFromAcceptedAndRejected (h : TableWalks F K S)
    (hcall : ∀ packet, S _ (call (.receive packet))) (i : AckIndex) :
    S _ (unsubscribeFromAcceptedAndRejected fuel call i) := by
  apply h.framedVoid (h.releasing i)
  apply h.bind h.get
  intro w
  exact h.bind (h.releaseTopic hcall _) fun _ => h.releaseTopic hcall _

/-- A record is called back, its topics are released, and it is freed. -/
theorem completeAck (h : TableWalks F K S) (hcall : ∀ proc, S _ (call proc)) (i : AckIndex)
    (status : AckStatus) : S _ (completeAck fuel call i status) := by
  apply h.framedVoid (h.completing i _)
  apply h.bind (h.answerRecord (h.answered i · status) h.callback fun c => hcall (.call c))
  intro _
  apply h.bind (h.unsubscribeFromAcceptedAndRejected (fun packet => hcall (.receive packet)) i)
  intro _
  exact h.modify h.acks fun _ => rfl

/-- A record whose time is over is completed with a timeout. -/
theorem completeExpired (h : TableWalks F K S) (hcall : ∀ proc, S _ (call proc)) (i : AckIndex) :
    S _ (completeExpired fuel call i) := by
  apply h.framedVoid (h.completing i _)
  apply h.bind (h.answerRecord (h.answered i · .timeout) h.callback fun c => hcall (.call c))
  intro _
  apply h.bind
  · exact h.modify h.acks fun _ => rfl
  intro _
  exact h.unsubscribeFromAcceptedAndRejected (fun packet => hcall (.receive packet)) i

/-- A record that is answered is completed with the status of the answer. -/
theorem answersRecord (h : TableWalks F K S) (hcall : ∀ proc, S _ (call proc)) (m : MessageRef)
    (token : List UInt8) (i : AckIndex) : S _ (ackRecord fuel call m token i) :=
  h.ackRecord (h.completeAck hcall i) m token

/-- A call whose own parts are all in `K`. -/
theorem perform (h : TableWalks F K S)
    (hrequested : ∀ args doc body, (∀ token, S _ (body token)) → S _ (requested args doc body))
    (hcall : ∀ proc, S _ (call proc)) {c : Call} (hparts : ∀ part ∈ c.parts, K part) :
    S _ (perform fuel call c) :=
  h.toActionWalks.perform hrequested (h.handleExpiredResponseCallbacks (h.completeExpired hcall))
    hcall hparts

/-- All procedures, if no frame and no call is an exception. -/
theorem runProcedure (h : TableWalks F K S) (hframe : ∀ f, F f) (hread : K .readBuf)
    (hack : ∀ m, S _ (ackStatusCallback fuel call m))
    (hdelta : ∀ m, S _ (shadowDeltaCallback fuel call m))
    (hrequested : ∀ args doc body, (∀ token, S _ (body token)) → S _ (requested args doc body))
    (hparts : ∀ c : Call, ∀ part ∈ c.parts, K part) (hcall : ∀ proc, S _ (call proc))
    (proc : Procedure) : S _ (runProcedure fuel call proc) := by
  cases proc with
  | call c => exact h.framed (hframe _) (h.perform hrequested hcall (hparts c))
  | receive packet =>
      exact h.receivePacket (fun _ => hframe _) (fun _ => hframe _) hread hack hdelta
        (fun c => hcall (.call c)) packet

end TableWalks

/-! ## Instances -/

/-- Programs all of whose steps are in a relation. -/
theorem walks_within {F : Frame → Prop} {K : Part → Prop} {step : World → World → Prop}
    (hrefl : ∀ s, step s s) (hparts : ∀ part s t, K part → s.ChangesTo part t → step s t)
    (henter : ∀ f s, F f → step s (s.log (.enter f)))
    (hleave : ∀ f s rc, F f → step s (s.log (.leave f rc))) :
    Walks F K fun _ p => p.Within (fun _ => True) step where
  ret := within_pure
  stop := within_stop
  bind := Within.bind
  ask := fun _ => within_query trivial
  get := within_atomically hrefl
  atomically := fun hpart hf => within_atomically fun s => hparts _ s _ hpart (hf s)
  framed := fun hf hbody => (within_modify fun s => henter _ s hf).bind fun _ => hbody.bind fun _ =>
    (within_modify fun s => hleave _ s _ hf).bind fun _ => within_pure _

/-- Events that are recorded in a step of their own. -/
def Event.isPlain : Event → Prop
  | .awaited .. | .versionReset | .versionTaken _ | .dispatched .. => False
  | _ => True

def Part.isPlain : Part → Prop
  | .event e => e.isPlain
  | _ => True

/-- Every atomic step is in the relation but those that look at a version. -/
structure CoversTables (step : World → World → Prop) : Prop where
  refl : ∀ s, step s s
  part : ∀ part s t, part.isPlain → s.ChangesTo part t → step s t
  awaited : ∀ s i p token callback context isSticky, step s
    ((s.addToAckWaitList i p token callback context).log (.awaited i p isSticky))
  request : ∀ s args jsonDocument, step s (s.withRequest args jsonDocument)

/-- Every atomic step of the layer is in the relation. -/
structure CoversSteps (step : World → World → Prop) : Prop extends CoversTables step where
  response : ∀ s m tokenCount, step s (s.withResponseVersion m tokenCount)
  delta : ∀ s tokenCount, step s (s.withDeltaVersion tokenCount)

namespace CoversSteps

variable {step : World → World → Prop}

/-- A relation that covers the steps holds along programs that change plain parts. -/
theorem walks (h : CoversSteps step) :
    Walks (fun _ => True) Part.isPlain fun _ p => p.Within (fun _ => True) step :=
  walks_within h.refl h.part (fun f s _ => h.part (.event (.enter f)) s _ trivial rfl)
    fun f s rc _ => h.part (.event (.leave f rc)) s _ trivial rfl

/-- It holds along the operations on the tables as well. -/
theorem tableWalks (h : CoversSteps step) :
    TableWalks (fun _ => True) Part.isPlain fun _ p => p.Within (fun _ => True) step :=
  { h.walks with
    formerLocal := trivial
    handlers := trivial
    subscriptions := trivial
    acks := trivial
    unsubscribe := fun _ => trivial
    published := fun _ _ => trivial
    answered := fun _ _ _ => trivial
    awaited := fun i p token callback context isSticky =>
      within_modify fun s => h.awaited s i p token callback context isSticky
    subscribing := fun _ _ _ => trivial
    completing := fun _ _ => trivial
    releasing := fun _ => trivial
    callback := fun _ => trivial }

/-- It holds along a request with the step that looks for its token. -/
theorem requested (h : CoversSteps step) (args : ActionArgs) (doc : List UInt8)
    (body : Option (List UInt8) → M IotError)
    (hbody : ∀ token, (body token).Within (fun _ => True) step) :
    (requested args doc body).Within (fun _ => True) step := by
  apply Within.bind (within_atomically fun s => h.request s args doc)
  intro token
  apply (hbody token).bind
  intro rc
  exact (h.walks.emit (e := .leave (.action args token) rc) trivial).bind fun _ => within_pure _

theorem runProcedure (h : CoversSteps step) {fuel : Nat} {call : Procedure → M IotError}
    (hcall : ∀ proc, (call proc).Within (fun _ => True) step) (proc : Procedure) :
    (runProcedure fuel call proc).Within (fun _ => True) step := by
  have htables := h.tableWalks
  apply htables.runProcedure (fun _ => trivial) trivial
  · intro m
    apply h.walks.framedVoid trivial
    exact htables.ackStatusBody trivial (htables.answersRecord hcall m) fun tokenCount =>
      within_modify fun s => h.response s m tokenCount
  · intro m
    apply h.walks.framedVoid trivial
    apply htables.shadowDeltaBody trivial
    · intro tokenCount
      exact within_atomically fun s => h.delta s tokenCount
    · intro tokenCount i
      exact htables.dispatchKey hcall (fun _ _ => trivial) (fun _ _ _ => trivial)
        (fun _ => trivial) tokenCount i
  · exact h.requested
  · intro c part hpart
    cases c <;> simp [Call.parts] at hpart <;> rcases hpart with rfl | rfl | rfl <;> trivial
  · exact hcall

/-- So it holds along every procedure, with any fuel. -/
theorem api (h : CoversSteps step) (fuel : Nat) (proc : Procedure) :
    (api fuel proc).Within (fun _ => True) step :=
  Within.recursive (fun _ _ hcall proc => h.runProcedure hcall proc) fuel proc

/-- So it holds along the whole application. -/
theorem app (h : CoversSteps step) (fuel : Nat) : (app fuel).Within (fun _ => True) step :=
  h.walks.application fun c => h.api fuel (.call c)

end CoversSteps

/-! ## What a step records -/

namespace World

variable {s t : World}

/-- A step records one event at most. -/
def Records (s t : World) : Prop := t.trace = s.trace ∨ ∃ e, t.trace = e :: s.trace

/-- A step that changes one part records the event of that part, if any. -/
theorem records_of_changesTo {part : Part} (h : s.ChangesTo part t) : s.Records t := by
  cases part with
  | event e => exact .inr ⟨e, h ▸ rfl⟩
  | version => exact .inr ⟨.versionReset, h ▸ rfl⟩
  | document | registry => rw [h.1]; exact .inl rfl
  | _ => rw [h]; exact .inl rfl

theorem coversSteps_records : CoversSteps Records where
  refl := fun _ => .inl rfl
  part := fun _ _ _ _ => records_of_changesTo
  awaited := fun _ i p _ _ _ isSticky => .inr ⟨.awaited i p isSticky, rfl⟩
  request := fun _ _ _ => .inr ⟨_, rfl⟩
  response := by
    intro s m tokenCount
    unfold withResponseVersion
    split
    next => exact .inl rfl
    next => exact .inr ⟨_, rfl⟩
  delta := by
    intro s tokenCount
    unfold withDeltaVersion
    split
    next => exact .inl rfl
    next => exact .inr ⟨_, rfl⟩

/-- The event that a step has recorded. -/
def logged (s t : World) : Option Event :=
  match t.trace with
  | [] => none
  | e :: rest => if rest.length = s.trace.length then some e else none

/-- What is recorded is the newest event. -/
theorem logged_of_trace_eq {e : Event} (h : t.trace = e :: s.trace) : s.logged t = some e := by
  rw [logged, h]
  exact if_pos rfl

/-- A step that records an event adds that event to the trace. -/
theorem Records.trace_eq (h : s.Records t) {e : Event} (he : s.logged t = some e) :
    t.trace = e :: s.trace := by
  unfold logged at he
  rcases h with htrace | ⟨e', htrace⟩
  · cases hs : s.trace with
    | nil => rw [htrace, hs] at he; cases he
    | cons e' rest =>
        rw [htrace, hs, List.length_cons] at he
        simp at he
  · rw [htrace] at he
    simp only [if_true, Option.some.injEq] at he
    rw [htrace, he]

end World

/-- Every step of a run records at most one event. -/
theorem records_of_step {allow : (q : Query) → World → Answer q → Prop} {fuel : Nat}
    {w s t : World} {p p' : M Unit} (hsteps : Steps allow (app fuel, w) (p, s))
    (hstep : Step allow (p, s) (p', t)) : s.Records t := by
  rcases (((World.coversSteps_records.app fuel).of_steps hsteps).of_step hstep).2 with h | rfl
  · exact h
  · exact .inl rfl

end MqttClient.Shadow
