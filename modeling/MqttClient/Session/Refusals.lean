import MqttClient.Client.Codes
import MqttClient.Session.Runs
import MqttClient.Wire.Sizes

/-! # Packets that are too long

A packet is refused as too long in two places: by its serializer, which
predicts its size, and by `internalSendPacket`, which compares its length with
the size of the transmit buffer once more. Nothing else answers
`MQTT_TX_BUFFER_TOO_SHORT_ERROR`.
-/

namespace MqttClient

open Effect Program

/-- Any environment, and nothing asked of the client. -/
abbrev anyRun : Discipline World Answer := solo (fun _ _ => True) anything fun _ _ => True

/-- The program never says that a packet is too long. -/
abbrev NeverTooShort (p : M IotError) : Prop := p.Always (· ≠ .mqttTxBufferTooShortError)

theorem NeverTooShort.wp {p : M IotError} (h : NeverTooShort p) (s : World) :
    wp anyRun p (fun rc _ => rc ≠ .mqttTxBufferTooShortError) s :=
  Always.wp h (fun _ _ => trivial) (fun _ _ => trivial) fun _ => trivial

theorem neverTooShort_lockMutex (mutex : MutexName) : NeverTooShort (lockMutex mutex) := by
  refine always_bind fun c => .ite (fun _ => always_bind fun ok => ?_) fun _ => nofun
  cases ok <;> exact nofun

theorem neverTooShort_onSuccess {rc : IotError} {next : M IotError}
    (hrc : rc ≠ .mqttTxBufferTooShortError) (hnext : NeverTooShort next) :
    NeverTooShort (onSuccess rc next) :=
  .ite (fun _ => hnext) fun _ => always_pure hrc

theorem neverTooShort_unlockMutex (mutex : MutexName) : NeverTooShort (unlockMutex mutex) := by
  apply (always_unlockMutex mutex).mono
  rintro rc (rfl | rfl) <;> exact nofun

theorem neverTooShort_internalWaitForRead (fuel : Nat) {call : Call → M IotError}
    {packetType : MessageType} (hack : packetType.isAck = true) :
    NeverTooShort (internalWaitForRead fuel call packetType) := by
  apply (waitings_internalWaitForRead fuel hack).mono
  rintro rc hrc rfl
  cases hrc

/-- Sending refuses what fills the buffer, and nothing shorter. -/
theorem wp_internalSendPacket_tooShort (fuel length : Nat) (timer : TimerName) (s : World) :
    wp anyRun (internalSendPacket fuel length timer)
      (fun rc _ => rc = .mqttTxBufferTooShortError ↔ s.client.writeBufSize ≤ length) s := by
  unfold internalSendPacket
  simp only [wp_bind, wp_getClient]
  refine ⟨trivial, ?_⟩
  split
  next hfull => exact iff_of_true rfl hfull
  next hroom =>
    apply wp_mono (fun rc t hrc => iff_of_false hrc hroom)
    apply NeverTooShort.wp
    refine (neverTooShort_lockMutex _).bind fun rc hrc => neverTooShort_onSuccess hrc ?_
    refine always_bind fun sent => (neverTooShort_unlockMutex _).bind fun rc hrc => ?_
    exact neverTooShort_onSuccess hrc (.ite (fun _ => always_bind fun _ => nofun) fun _ => nofun)

/-- What comes after sending does not refuse the packet any more. -/
theorem wp_send_tooShort {fuel length : Nat} {timer : TimerName} {next : M IotError} {s : World}
    (hnext : NeverTooShort next) :
    wp anyRun (internalSendPacket fuel length timer >>= fun rc => onSuccess rc next)
      (fun rc _ => rc = .mqttTxBufferTooShortError ↔ s.client.writeBufSize ≤ length) s := by
  rw [wp_bind]
  apply wp_mono _ (wp_internalSendPacket_tooShort fuel length timer s)
  intro rc t hrc
  rw [wp_onSuccess]
  constructor
  · rintro rfl
    have hroom := mt hrc.mpr nofun
    exact wp_mono (fun rc u hne => iff_of_false hne hroom) (hnext.wp t)
  · exact fun _ => hrc

/-- Await an acknowledgement. -/
theorem neverTooShort_await (fuel : Nat) {call : Call → M IotError} {packetType : MessageType}
    (hack : packetType.isAck = true) {next : M IotError} (hnext : NeverTooShort next) :
    NeverTooShort (internalWaitForRead fuel call packetType >>= fun rc => onSuccess rc next) :=
  (neverTooShort_internalWaitForRead fuel hack).bind fun _ hrc => neverTooShort_onSuccess hrc hnext

/-- An idle client gives way to an operation that claims it. -/
theorem wp_exclusively_tooShort {inProgress : ClientState} {body : M IotError}
    {onRefused : ClientState → IotError → M IotError} {P : Prop} {s : World}
    (hidle : s.client.clientState = .connectedIdle)
    (hbody : wp anyRun body (fun rc _ => rc = .mqttTxBufferTooShortError ↔ P)
      (s.granted .claim .connectedIdle inProgress)) :
    wp anyRun (exclusively inProgress body onRefused)
      (fun rc _ => rc = .mqttTxBufferTooShortError ↔ P) s := by
  have hconnected : s.isClientConnected = true := by rw [World.isClientConnected, hidle]; rfl
  simp only [exclusively, wp_bind, wp_isClientConnected, wp_getClientState, hconnected, hidle,
    Bool.not_true, Bool.false_eq_true, if_false, ne_eq, not_true_eq_false, false_and,
    wp_setClientState, if_true, pure_eq, wp_ret]
  refine ⟨trivial, trivial, trivial, wp_mono (fun rc t hrc => ?_) hbody⟩
  split
  · simpa using hrc
  · refine ⟨trivial, ?_⟩
    split
    next hboth => exact iff_of_false (by simp) (mt hrc.mpr (hboth.1 ▸ (by simp)))
    next => exact hrc

/-- A serializer at its work: it refuses, or the packet is in the buffer. -/
theorem wp_serialized_tooShort {p : Serializer} {make : Client → Except IotError (List UInt8)}
    {next : Nat → M IotError} {Φ : IotError → World → Prop} {s : World}
    (hmake : make s.client = p.packet s.client.writeBufSize) (haccepted : p.isAccepted)
    (herror : s.client.writeBufSize < p.room → Φ .mqttTxBufferTooShortError s)
    (hnext : ∀ t : World, p.room ≤ s.client.writeBufSize → t.client.writeBufSize =
      s.client.writeBufSize → t.client.messageHandlers = s.client.messageHandlers →
        wp anyRun (next (packetSize p.remaining)) Φ t) :
    wp anyRun (serialized make next) Φ s := by
  have hanswers := Serializer.answers_packet s.client.writeBufSize p
  apply wp_serialized trivial
  · intro rc hrc
    rw [← hmake, hrc] at hanswers
    obtain ⟨rfl, hroom⟩ := hanswers haccepted
    exact herror hroom
  · intro packet hpacket
    rw [← hmake, hpacket] at hanswers
    obtain ⟨-, hroom, hlength⟩ := hanswers
    rw [hlength]
    exact ⟨trivial, hnext _ hroom rfl rfl⟩

/-- The bytes of an allowed packet can be counted in 32 bits. -/
theorem packetSize_mod {remaining : Nat} (h : remaining ≤ maxRemainingLength) :
    packetSize remaining % 2 ^ 32 = packetSize remaining := by
  apply Nat.mod_eq_of_lt
  have hfield := (fitsField h).field_le
  rw [maxNoOfRemainingLengthBytes] at hfield
  rw [maxRemainingLength] at h
  rw [packetSize]
  omega

/-! ## Publishing -/

/-- The bytes of a publication. -/
def publishSize (topicNameLen : UInt16) (params : PublishParams) : Nat :=
  packetSize (publishRemaining params.qos topicNameLen.toNat params.payloadLen)

theorem wp_internalPublish_tooShort (fuel : Nat) (call : Call → M IotError)
    (topicName : List UInt8) {topicNameLen : UInt16} {params : PublishParams} {s : World}
    (hpayload : params.payload.isSome = true)
    (hrem : publishRemaining params.qos topicNameLen.toNat params.payloadLen ≤ maxRemainingLength) :
    wp anyRun (internalPublish fuel call topicName topicNameLen (.own params))
      (fun rc _ => rc = .mqttTxBufferTooShortError ↔
        s.client.writeBufSize ≤ publishSize topicNameLen params) s := by
  unfold internalPublish
  simp only [wp_bind, wp_getClient, countdown, wp_emit, wp_atomically, World.publishParams, id]
  refine ⟨trivial, trivial, trivial, ?_⟩
  -- the identifier does not change the size
  have hid : wp anyRun (assignPublishId (.own params) params)
      (fun _ t => t.client.writeBufSize = s.client.writeBufSize)
      (s.log (.countdown .command s.client.commandTimeoutMs)) := by
    unfold assignPublishId
    split
    · simp only [wp_bind, getNextPacketId, wp_atomically, wp_modify, World.setPublishId, pure_eq,
        wp_ret]
      exact ⟨trivial, trivial, rfl⟩
    · exact rfl
  apply wp_mono _ hid
  intro id t ht
  have hpredicted := packetSize_le hrem
  have hexcess := getFinalPacketLength_le hrem
  apply wp_serialized_tooShort (p := .publish 0 params.qos params.isRetained id topicName
    topicNameLen params.payload params.payloadLen) rfl hpayload
  · intro hroom
    rw [ht] at hroom
    refine iff_of_true rfl ?_
    exact Nat.le_of_lt_succ (Nat.lt_of_lt_of_le hroom hexcess)
  · intro u _ hsize _
    have hmod : publishSize topicNameLen params % 2 ^ 32 = publishSize topicNameLen params :=
      packetSize_mod hrem
    rw [← ht, ← hsize]
    change wp anyRun
      (internalSendPacket fuel (publishSize topicNameLen params % 2 ^ 32) .command >>= _)
      _ u
    rw [hmod]
    apply wp_send_tooShort
    refine .ite (fun _ => neverTooShort_await fuel rfl (always_bind fun c => ?_)) fun _ => nofun
    split
    next rc hrc =>
      apply always_pure
      rcases deserializeAck_error hrc with rfl | rfl | rfl <;> exact nofun
    next => exact always_pure nofun

/-! ## Subscribing -/

/-- The remaining length of a subscription. -/
def subscribeRemaining (topicNameLen : UInt16) : Nat := topicNameLen.toNat + 5

/-- The bytes of a subscription. -/
def subscribeSize (topicNameLen : UInt16) : Nat := packetSize (subscribeRemaining topicNameLen)

theorem subscribeRemaining_le (topicNameLen : UInt16) :
    subscribeRemaining topicNameLen ≤ maxRemainingLength := by
  have hlen := topicNameLen.toNat_lt
  rw [subscribeRemaining, maxRemainingLength]
  omega

/-- Every slot of the table is in use. -/
def Client.isTableFull (c : Client) : Prop :=
  numSubscribeHandlers ≤ c.messageHandlers.getFreeMessageHandlerIndex

/-- A subscription is refused as too long by its serializer, or, with a slot to go to, by
`internalSendPacket`. -/
def refusesSubscribe (c : Client) (topicNameLen : UInt16) : Prop :=
  c.writeBufSize < getFinalPacketLengthFromRemainingLength (subscribeRemaining topicNameLen) ∨
    ¬c.isTableFull ∧ c.writeBufSize ≤ subscribeSize topicNameLen

theorem wp_internalSubscribe_tooShort (fuel : Nat) (call : Call → M IotError) (topicName : CString)
    (topicNameLen : UInt16) (qos : QoS) (handler : HandlerName) (data : Nat) (s : World) :
    wp anyRun (internalSubscribe fuel call topicName topicNameLen qos handler data)
      (fun rc _ => rc = .mqttTxBufferTooShortError ↔ refusesSubscribe s.client topicNameLen) s := by
  unfold internalSubscribe
  simp only [wp_bind, wp_getClient, countdown, wp_emit, getNextPacketId, wp_atomically]
  refine ⟨trivial, trivial, trivial, ?_⟩
  have hrem := subscribeRemaining_le topicNameLen
  have hremaining (id : UInt16) : (Serializer.subscribe 0 id
      [(topicName.bytes, topicNameLen, qos)]).remaining = subscribeRemaining topicNameLen := by
    simp only [Serializer.remaining, List.map_cons, List.map_nil, List.sum_cons, List.sum_nil,
      subscribeRemaining]
    omega
  have hpredicted (id : UInt16) :
      (Serializer.subscribe 0 id [(topicName.bytes, topicNameLen, qos)]).room =
        getFinalPacketLengthFromRemainingLength (subscribeRemaining topicNameLen) :=
    congrArg getFinalPacketLengthFromRemainingLength (hremaining id)
  apply wp_serialized_tooShort
    (p := .subscribe 0 _ [(topicName.bytes, topicNameLen, qos)]) rfl trivial
  · intro hroom
    rw [hpredicted] at hroom
    exact iff_of_true rfl (.inl hroom)
  · intro u hroom hsize htable
    rw [hpredicted] at hroom
    rw [hremaining]
    simp only [wp_bind, wp_getClient, htable]
    refine ⟨trivial, ?_⟩
    -- without a free slot the packet is made, but not sent
    split
    next hfull =>
      refine iff_of_false (by simp) (not_or.mpr ⟨Nat.not_lt.mpr hroom, fun h => h.1 hfull⟩)
    next hfree =>
      have hcondition : refusesSubscribe s.client topicNameLen ↔
          u.client.writeBufSize ≤ subscribeSize topicNameLen := by
        rw [hsize]
        constructor
        · rintro (hpredicted | ⟨-, hlong⟩)
          · exact absurd hroom (Nat.not_le.mpr hpredicted)
          · exact hlong
        · exact fun hlong => .inr ⟨hfree, hlong⟩
      have hmod : subscribeSize topicNameLen % 2 ^ 32 = subscribeSize topicNameLen :=
        packetSize_mod hrem
      rw [hcondition, subscribeInSlot, wp_framed]
      refine ⟨trivial, ?_⟩
      change wp anyRun
        (internalSendPacket fuel (subscribeSize topicNameLen % 2 ^ 32) .command >>= _)
        _ _
      -- what comes behind the send has other codes
      rw [hmod]
      apply wp_mono (fun rc t hrc => ⟨trivial, hrc⟩)
      apply wp_send_tooShort
      refine neverTooShort_await fuel rfl (always_bind fun c => ?_)
      split
      next rc hrc =>
        apply always_pure
        rcases deserializeSuback_error hrc with rfl | rfl | rfl <;> simp
      next => exact always_bind fun _ => by rintro ⟨⟩

/-! ## The calls -/

/-- A call that claims an idle client is refused as its operation is. -/
theorem tooShort_iff_of_returns {c : Call} {P : Prop} {w w' : World} {rc : IotError} {fuel : Nat}
    (hperform : ∀ fuel call, wp anyRun (perform fuel call c)
      (fun rc _ => rc = .mqttTxBufferTooShortError ↔ P) (w.log (.enter (.call c))))
    (hret : Returns anything (api fuel c) w rc w') :
    rc = .mqttTxBufferTooShortError ↔ P := by
  have hwp : wp anyRun (api fuel c) (fun rc _ => rc = .mqttTxBufferTooShortError ↔ P) w := by
    cases fuel with
    | zero => trivial
    | succ fuel =>
        unfold api
        rw [recursive, wp_framed]
        exact ⟨trivial, wp_mono (fun rc t hrc => ⟨trivial, hrc⟩) (hperform fuel _)⟩
  exact wp_returns (D := anyRun) hwp hret

/-- Publishing on an idle client: refused as too long from the size of the buffer on. -/
theorem publish_tooShort_iff {topicName : List UInt8} {topicNameLen : UInt16}
    {params : PublishParams} {w w' : World} {rc : IotError} {fuel : Nat}
    (hidle : w.client.clientState = .connectedIdle) (htopic : topicNameLen ≠ 0)
    (hpayload : params.payload.isSome = true)
    (hrem : publishRemaining params.qos topicNameLen.toNat params.payloadLen ≤ maxRemainingLength)
    (hret : Returns anything
      (api fuel (.publish (some topicName) topicNameLen (some (.own params)))) w rc w') :
    rc = .mqttTxBufferTooShortError ↔ w.client.writeBufSize ≤ publishSize topicNameLen params := by
  apply tooShort_iff_of_returns _ hret
  intro fuel call
  rw [perform, publish, if_neg htopic]
  apply wp_exclusively_tooShort (s := w.log _) hidle
  exact wp_internalPublish_tooShort fuel call topicName hpayload hrem

theorem subscribe_tooShort_iff {topicName : CString} {topicNameLen : UInt16} {qos : QoS}
    {handler : HandlerName} {data : Nat} {w w' : World} {rc : IotError} {fuel : Nat}
    (hidle : w.client.clientState = .connectedIdle)
    (hret : Returns anything
      (api fuel (.subscribe (some topicName) topicNameLen qos (some handler) data)) w rc w') :
    rc = .mqttTxBufferTooShortError ↔ refusesSubscribe w.client topicNameLen := by
  apply tooShort_iff_of_returns _ hret
  intro fuel call
  rw [perform, subscribe]
  apply wp_exclusively_tooShort (s := w.log _) hidle
  exact wp_internalSubscribe_tooShort fuel call topicName topicNameLen qos handler data _

/-- A subscription just as long as the buffer is let through to a full table, if the prediction is
right. Any other is refused exactly if it is longer. -/
theorem refusesSubscribe_iff (c : Client) (topicNameLen : UInt16) :
    (refusesSubscribe c topicNameLen ↔ c.writeBufSize < subscribeSize topicNameLen) ↔
      subscribeSize topicNameLen ≠ c.writeBufSize ∨
        c.isTableFull ∧ ¬isThreshold (subscribeRemaining topicNameLen) := by
  have hpredicted := getFinalPacketLength_eq (subscribeRemaining_le topicNameLen)
  change _ = subscribeSize topicNameLen + _ at hpredicted
  unfold refusesSubscribe
  rw [hpredicted]
  by_cases hthreshold : isThreshold (subscribeRemaining topicNameLen)
  · simp only [hthreshold, if_true, not_true_eq_false, and_false, or_false]
    omega
  · simp only [hthreshold, if_false, not_false_eq_true, and_true]
    by_cases hfull : c.isTableFull
    · simp only [hfull, not_true_eq_false, false_and, or_false, or_true, iff_true]
      omega
    · simp only [hfull, not_false_eq_true, true_and, or_false]
      omega

/-- Where a packet is taken for too long although the buffer would hold it: the prediction counts
one byte too many at three sizes, and sending refuses a packet that fills the buffer. -/
theorem refusals_iff (fuel : Nat) (w w' : World) (rc : IotError) :
    (∀ remaining ≤ maxRemainingLength,
      (getFinalPacketLengthFromRemainingLength remaining = packetSize remaining ↔
        ¬isThreshold remaining)) ∧
    (∀ (p : Serializer) (timer : TimerName) (packet : List UInt8),
      p.remaining ≤ maxRemainingLength →
      p.packet w.client.writeBufSize = .ok packet →
      Returns anything (internalSendPacket fuel packet.length timer) w rc w' →
      (rc ≠ .mqttTxBufferTooShortError ↔ packet.length ≠ w.client.writeBufSize)) ∧
    (∀ (topicName : List UInt8) (topicNameLen : UInt16) (params : PublishParams),
      topicNameLen ≠ 0 → params.payload.isSome = true →
      publishRemaining params.qos topicNameLen.toNat params.payloadLen ≤ maxRemainingLength →
      w.client.clientState = .connectedIdle →
      Returns anything (api fuel (.publish (some topicName) topicNameLen (some (.own params)))) w
        rc w' →
      ((rc = .mqttTxBufferTooShortError ↔
          w.client.writeBufSize < publishSize topicNameLen params) ↔
        publishSize topicNameLen params ≠ w.client.writeBufSize)) ∧
    ∀ (topicName : CString) (topicNameLen : UInt16) (qos : QoS) (handler : HandlerName)
        (data : Nat),
      w.client.clientState = .connectedIdle →
      Returns anything
        (api fuel (.subscribe (some topicName) topicNameLen qos (some handler) data)) w rc w' →
      ((rc = .mqttTxBufferTooShortError ↔
          w.client.writeBufSize < subscribeSize topicNameLen) ↔
        subscribeSize topicNameLen ≠ w.client.writeBufSize ∨
          w.client.isTableFull ∧ ¬isThreshold (subscribeRemaining topicNameLen)) := by
  refine ⟨?_, ?_, ?_, ?_⟩
  · intro remaining hrem
    rw [getFinalPacketLength_eq hrem]
    split
    next hthreshold => exact iff_of_false (by omega) (not_not.mpr hthreshold)
    next hthreshold => exact iff_of_true rfl hthreshold
  · intro p timer packet hrem hpacket hret
    have hanswers := Serializer.answers_packet w.client.writeBufSize p
    rw [hpacket] at hanswers
    -- the serializer's check leaves room for the packet
    have hfits : packet.length ≤ w.client.writeBufSize := by
      rw [hanswers.2.2]
      exact Nat.le_trans (Serializer.packetSize_le_room hrem) hanswers.2.1
    have hrefused := wp_returns (D := anyRun)
      (wp_internalSendPacket_tooShort fuel packet.length timer w) hret
    have hlet : rc ≠ .mqttTxBufferTooShortError ↔ ¬w.client.writeBufSize ≤ packet.length :=
      not_congr hrefused
    rw [hlet]
    omega
  · intro topicName topicNameLen params htopic hpayload hrem hidle hret
    rw [publish_tooShort_iff hidle htopic hpayload hrem hret]
    omega
  · intro topicName topicNameLen qos handler data hidle hret
    rw [subscribe_tooShort_iff hidle hret]
    exact refusesSubscribe_iff w.client topicNameLen

/-- The connected client, with a transmit buffer of eight bytes. -/
def tightWorld : World := connectedWorld.onClient fun c => { c with writeBufSize := 8 }

/-- The publication of eight bytes is refused there. -/
theorem perform_publishCall_tightWorld :
    (tightWorld.perform 20 publishCall [] []).1 = some .mqttTxBufferTooShortError := by
  decide +kernel

theorem returns_publishCall_tightWorld :
    Returns anything (api 20 publishCall) tightWorld .mqttTxBufferTooShortError
      (tightWorld.perform 20 publishCall [] []).2.2 :=
  returns_perform (fun _ _ _ _ => trivial) (keepsTo_true _ _ _) perform_publishCall_tightWorld

theorem not_refused_exactly_tightWorld :
    tightWorld.client.clientState = .connectedIdle ∧ tightWorld.client.writeBufSize = 8 ∧
      publishSize 1 ⟨qos1, 0, 0, 0, some [33], 1⟩ = 8 ∧
      Returns anything (api 20 publishCall) tightWorld .mqttTxBufferTooShortError
        (tightWorld.perform 20 publishCall [] []).2.2 :=
  ⟨by decide +kernel, rfl, by decide, returns_publishCall_tightWorld⟩

theorem refusals_iff_tightWorld :
    ((IotError.mqttTxBufferTooShortError = .mqttTxBufferTooShortError ↔
        tightWorld.client.writeBufSize < publishSize 1 ⟨qos1, 0, 0, 0, some [33], 1⟩) ↔
      publishSize 1 ⟨qos1, 0, 0, 0, some [33], 1⟩ ≠ tightWorld.client.writeBufSize) :=
  (refusals_iff 20 tightWorld _ _).2.2.1 [98] 1 ⟨qos1, 0, 0, 0, some [33], 1⟩ (by decide) rfl
    (by decide) (by decide +kernel) returns_publishCall_tightWorld

end MqttClient
