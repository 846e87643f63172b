import MqttClient.Client.Quiet

/-! # What the operations consist of

Behind its claim an operation reads, writes, keeps time and waits for an
acknowledgement. A property of programs that is closed under these holds of
what the operations do, and is shown here once for all such properties.
-/

namespace MqttClient

open Effect Program

/-- `S` is closed under reading, writing, keeping time and waiting. -/
structure Composes (fuel : Nat) (call : Call → M IotError) (S : M IotError → Prop) : Prop where
  io : ∀ {p}, IsIoStep p → S p
  before : ∀ {α : Type} {p : M α} {g : α → M IotError}, IsIoStep p → (∀ a, S (g a)) → S (p >>= g)
  seq : ∀ {p : M IotError} {g : IotError → M IotError}, S p → (∀ rc, S (g rc)) → S (p >>= g)
  wait : ∀ packetType, S (internalWaitForRead fuel call packetType)

namespace Composes

variable {fuel : Nat} {call : Call → M IotError} {S : M IotError → Prop}

theorem pure (h : Composes fuel call S) (rc : IotError) : S (pure rc) := h.io (.plain (.pure rc))

theorem stop (h : Composes fuel call S) : S .stop := h.io (.plain .stop)

/-- Look at the state, and go on with what is seen. -/
theorem look {α : Type} (h : Composes fuel call S) (view : World → α) {g : α → M IotError}
    (hg : ∀ a, S (g a)) : S (Program.atomically view id >>= g) := h.before (.plain (.look view)) hg

/-- Change the client's own data, and go on. -/
theorem modifyClient (h : Composes fuel call S) {f : Client → Client} {g : Unit → M IotError}
    (hf : ∀ c : Client, c.SameSession (f c))
    (hping : ∀ c : Client, (f c).isPingOutstanding = c.isPingOutstanding) (hg : ∀ a, S (g a)) :
    S (MqttClient.modifyClient f >>= g) := h.before (.plain (.modifyClient hf hping)) hg

theorem onSuccess (h : Composes fuel call S) (rc : IotError) {p : M IotError} (hp : S p) :
    S (onSuccess rc p) := by
  unfold MqttClient.onSuccess
  split
  · exact hp
  · exact h.pure rc

theorem serialized (h : Composes fuel call S) {make : Client → Except IotError (List UInt8)}
    {next : Nat → M IotError} (hnext : ∀ len, S (next len)) : S (serialized make next) := by
  refine h.look World.client fun c => ?_
  split
  · exact h.pure _
  · exact h.modifyClient (fun _ => ⟨rfl, rfl, rfl, rfl, rfl, rfl⟩) (fun _ => rfl) fun _ => hnext _

/-- Send a packet, and go on if it was sent. -/
theorem send (h : Composes fuel call S) (length : Nat) (timer : TimerName) {next : M IotError}
    (hnext : S next) :
    S (internalSendPacket fuel length timer >>= fun rc => MqttClient.onSuccess rc next) :=
  h.before (.send _ _ _) fun rc => h.onSuccess rc hnext

/-- Wait for an acknowledgement, and go on if it came. -/
theorem await (h : Composes fuel call S) (packetType : MessageType) {next : M IotError}
    (hnext : S next) :
    S (internalWaitForRead fuel call packetType >>= fun rc => MqttClient.onSuccess rc next) :=
  h.seq (h.wait packetType) fun rc => h.onSuccess rc hnext

theorem internalPublish (h : Composes fuel call S) (topicName : List UInt8) (topicNameLen : UInt16)
    (arg : PublishArg) : S (internalPublish fuel call topicName topicNameLen arg) := by
  refine h.look World.client fun c => h.before (.plain (.countdown _ _)) fun _ => ?_
  refine h.look (fun w => w.publishParams arg) fun params => ?_
  split
  · exact h.stop
  · refine h.before (.plain (.assignPublishId _ _)) fun id => ?_
    refine h.serialized fun len => h.send _ _ ?_
    split
    · refine h.await .puback (h.look World.client fun c => ?_)
      split <;> exact h.pure _
    · exact h.pure _

theorem requestSubscription (h : Composes fuel call S) (slot len : Nat) (handler : MessageHandler)
    (hadd : S (addSubscription slot handler)) :
    S (requestSubscription fuel call slot len handler) := by
  refine h.send _ _ (h.await .suback (h.look World.client fun c => ?_))
  split
  · exact h.pure _
  · exact hadd

theorem internalSubscribe (h : Composes fuel call S) (topicName : CString) (topicNameLen : UInt16)
    (qos : QoS) (applicationHandler : HandlerName) (data : Nat)
    (hslot : ∀ slot len handler, S (subscribeInSlot fuel call slot len handler)) :
    S (internalSubscribe fuel call topicName topicNameLen qos applicationHandler data) := by
  refine h.look World.client fun c => h.before (.plain (.countdown _ _)) fun _ => ?_
  refine h.before (.plain .getNextPacketId) fun id => h.serialized fun len => ?_
  refine h.look World.client fun c => ?_
  simp only
  split
  · exact h.pure _
  · exact hslot _ _ _

theorem internalUnsubscribe (h : Composes fuel call S) (topicFilter : CString)
    (topicFilterLen : UInt16) (hremove : S (removeSubscription topicFilter)) :
    S (internalUnsubscribe fuel call topicFilter topicFilterLen) := by
  refine h.look World.client fun c => ?_
  split
  · exact h.pure _
  · refine h.before (.plain (.countdown _ _)) fun _ => ?_
    refine h.before (.plain .getNextPacketId) fun id => ?_
    refine h.serialized fun len => h.send _ _ (h.await .unsuback ?_)
    refine h.look World.client fun c => ?_
    split
    · exact h.pure _
    · exact hremove

theorem resubscribeSlot (h : Composes fuel call S) (itr : Nat) :
    S (resubscribeSlot fuel call itr) := by
  refine h.look World.client fun c => h.before (.plain (.countdown _ _)) fun _ => ?_
  refine h.before (.plain .getNextPacketId) fun id => h.look World.client fun c => ?_
  simp only
  split
  · exact h.stop
  · refine h.serialized fun len => h.send _ _ (h.await .suback ?_)
    refine h.look World.client fun c => ?_
    split <;> exact h.pure _

theorem resubscribeLoop (h : Composes fuel call S) (itr remaining : Nat) :
    S (resubscribeLoop fuel call itr remaining) := by
  induction remaining generalizing itr with
  | zero => exact h.pure _
  | succ remaining ih => exact h.seq (h.resubscribeSlot itr) fun rc => h.onSuccess rc (ih (itr + 1))

theorem internalResubscribe (h : Composes fuel call S) : S (internalResubscribe fuel call) :=
  h.look World.client fun _ => h.resubscribeLoop _ _

/-- What `internalConnect` does on an open transport. -/
theorem handshake (h : Composes fuel call S) : S (handshake fuel call) := by
  refine h.look World.client fun c => h.before (.plain (.countdown _ _)) fun _ => ?_
  refine h.modifyClient (fun _ => ⟨rfl, rfl, rfl, rfl, rfl, rfl⟩) (fun _ => rfl) fun _ => ?_
  refine h.serialized fun len => h.send _ _ (h.await .connack ?_)
  refine h.look World.client fun c => ?_
  split
  · exact h.pure _
  · split
    · exact h.pure _
    · refine h.before (.ping false) fun _ => ?_
      exact h.before (.plain (.countdown _ _)) fun _ => h.pure _

end Composes

end MqttClient
