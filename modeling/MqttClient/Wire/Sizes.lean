import MqttClient.Wire.RoundTrips
import MqttClient.Wire.Writers

/-! # How much is written

The room for a packet is predicted in 32 bits from its remaining length, and
the packet is then written without another look at the end of the buffer. Here
the prediction is compared with what is written.
-/

namespace MqttClient

/-! ## The size of a length field -/

/-- A number that needs more than `n` digits gets more than `n` bytes. -/
theorem lt_length_writeLenLoop {digits n length : Nat} (hdigits : n < digits)
    (h : 128 ^ n ≤ length) : n < (writeLenLoop digits length).length := by
  induction n generalizing digits length with
  | zero =>
      obtain ⟨digits, rfl⟩ : ∃ d, digits = d + 1 := ⟨digits - 1, by omega⟩
      rw [writeLenLoop]
      split <;> exact Nat.succ_pos _
  | succ n ih =>
      obtain ⟨digits, rfl⟩ : ∃ d, digits = d + 1 := ⟨digits - 1, by omega⟩
      have hdiv : 128 ^ n ≤ length / 128 := by
        rw [Nat.le_div_iff_mul_le (by decide)]
        exact h
      have hmore : length / 128 > 0 := Nat.lt_of_lt_of_le (Nat.pow_pos (by decide)) hdiv
      rw [writeLenLoop]
      simp only [hmore, if_true, List.length_cons]
      exact Nat.succ_lt_succ (ih (Nat.lt_of_succ_lt_succ hdigits) hdiv)

/-- A number of `n + 1` digits gets `n + 1` bytes. -/
theorem length_writeLenToBuffer_eq {length n : Nat} (hn : n < 5) (hlow : 128 ^ n ≤ length)
    (hhigh : length < 128 ^ (n + 1)) (h32 : length < 2 ^ 32) :
    (writeLenToBuffer length).length = n + 1 := by
  apply Nat.le_antisymm (length_writeLenToBuffer_le _ _ (Nat.succ_pos n) hhigh)
  rw [writeLenToBuffer, Nat.mod_eq_of_lt h32]
  exact lt_length_writeLenLoop hn hlow

/-- The bytes of a packet with this remaining length: header, length field and body. -/
def packetSize (remaining : Nat) : Nat := 1 + (writeLenToBuffer remaining).length + remaining

/-- The sizes that need one byte more to be announced than the prediction has counted on. -/
def isThreshold (remaining : Nat) : Prop :=
  remaining = 127 ∨ remaining = 16383 ∨ remaining = 2097151

instance (remaining : Nat) : Decidable (isThreshold remaining) :=
  inferInstanceAs (Decidable (_ ∨ _))

/-- The prediction counts the header in when it looks up the size of the length field. It is one
too many where that makes a difference. -/
theorem getFinalPacketLength_eq {remaining : Nat} (h : remaining ≤ maxRemainingLength) :
    getFinalPacketLengthFromRemainingLength remaining =
      packetSize remaining + if isThreshold remaining then 1 else 0 := by
  rw [maxRemainingLength] at h
  have hmod : (remaining + 1) % 2 ^ 32 = remaining + 1 := Nat.mod_eq_of_lt (by omega)
  have hsize {n : Nat} (hn : n < 5) (hlow : 128 ^ n ≤ remaining)
      (hhigh : remaining < 128 ^ (n + 1)) : packetSize remaining = remaining + n + 2 := by
    rw [packetSize, length_writeLenToBuffer_eq hn hlow hhigh (by omega)]
    omega
  have hone : remaining < 128 → packetSize remaining = remaining + 2 := by
    intro hlt
    rw [packetSize, writeLenToBuffer_of_lt hlt, List.length_singleton]
    omega
  have htwo : 128 ≤ remaining → remaining < 16384 → packetSize remaining = remaining + 3 :=
    fun hlow hhigh => hsize (n := 1) (by decide) hlow hhigh
  have hthree : 16384 ≤ remaining → remaining < 2097152 → packetSize remaining = remaining + 4 :=
    fun hlow hhigh => hsize (n := 2) (by decide) hlow hhigh
  have hfour : 2097152 ≤ remaining → packetSize remaining = remaining + 5 :=
    fun hlow => hsize (n := 3) (by decide) hlow (Nat.lt_succ_of_le h)
  unfold getFinalPacketLengthFromRemainingLength
  simp only [hmod]
  by_cases hthreshold : isThreshold remaining
  · rw [if_pos hthreshold]
    unfold isThreshold at hthreshold
    split_ifs <;> omega
  · rw [if_neg hthreshold]
    unfold isThreshold at hthreshold
    split_ifs <;> omega

/-- What is predicted is enough for what is written, as far as the length field has room. -/
theorem packetSize_le {remaining : Nat} (h : remaining ≤ maxRemainingLength) :
    packetSize remaining ≤ getFinalPacketLengthFromRemainingLength remaining := by
  rw [getFinalPacketLength_eq h]
  exact Nat.le_add_right _ _

theorem getFinalPacketLength_le {remaining : Nat} (h : remaining ≤ maxRemainingLength) :
    getFinalPacketLengthFromRemainingLength remaining ≤ packetSize remaining + 1 := by
  rw [getFinalPacketLength_eq h]
  split <;> omega

/-! ## CONNECT -/

/-- What is in the transmit buffer after the serializer of CONNECT has run. -/
structure WritesConnect (params : ConnectParams) (output : Except IotError Unit × List UInt8) :
    Prop where
  decoded : output.1 = .ok () → decodeConnect output.2 = some params.content
  predicted : output.1 = .ok () → ∃ header body,
    output.2 = header :: (writeLenToBuffer (getConnectPacketLength params) ++ body) ∧
      body.length = getConnectPacketLength params
  nothing : ∀ rc, output.1 = .error rc → output.2 = []

theorem ConnectParams.sentContent_eq {params : ConnectParams}
    (h : params.isWillMsgPresent = true → params.will.qos < 4) :
    params.sentContent = params.content := by
  rw [sentContent, params.map_mod_four.mpr h]
  rfl

/-- Whatever the options, a CONNECT that is built says just these, has the length that was
predicted, and otherwise nothing has been written. The two bits for the QoS of a will hold
every value of the enumeration. -/
theorem writesConnect_output (txBufLen : Nat) {params : ConnectParams}
    (hqos : params.isWillMsgPresent = true → params.will.qos < 4) :
    WritesConnect params (writeConnectPacket txBufLen params).output := by
  have hwrites := writes_writeConnectPacket txBufLen params
  cases hresult : serializeConnect txBufLen params with
  | error rc =>
      rw [hresult] at hwrites
      rw [hwrites.output_of_error]
      exact ⟨nofun, nofun, fun _ _ => rfl⟩
  | ok packet =>
      rw [hresult] at hwrites
      obtain ⟨hclient, hpacket⟩ := serializeConnect_ok hresult
      rw [hwrites.output_of_ok]
      refine ⟨fun _ => ?_, fun _ => ⟨_, _, hpacket, ?_⟩, nofun⟩
      · rw [decodeConnect_serializeConnect hresult, ConnectParams.sentContent_eq hqos]
      · have hlength := length_writePayload hclient
        have hfour : (4 : UInt16).toNat = 4 := rfl
        simp only [List.length_append, List.length_cons, length_writeUtf8String,
          length_writeUint16]
        omega

/-- A connect with a will and a user name. -/
def willParams : ConnectParams :=
  { connectParamsInitializer with
    clientID := some [99], clientIDLen := 1
    isWillMsgPresent := true, will := ⟨[119], 1, [33, 33], 2, true, qos1⟩
    username := some [117], usernameLen := 1 }

theorem writesConnect_output_willParams :
    WritesConnect willParams (writeConnectPacket 512 willParams).output :=
  @writesConnect_output 512 willParams (fun _ => by decide)

/-! ## Every serializer -/

/-- A call of a serializer: which one, and with what besides the buffer. -/
inductive Serializer where
  | connect (params : ConnectParams)
  | publish (dup : UInt8) (qos : QoS) (retained : UInt8) (packetId : UInt16)
      (topicName : List UInt8) (topicNameLen : UInt16) (payload : Option (List UInt8))
      (payloadLen : Nat)
  | ack (messageType : MessageType) (dup : UInt8) (packetId : UInt16)
  | zero (packetType : MessageType)
  | subscribe (dup : UInt8) (packetId : UInt16) (filters : List FilterRequest)
  | unsubscribe (dup : UInt8) (packetId : UInt16) (filters : List (List UInt8 × UInt16))

namespace Serializer

def writer (txBufLen : Nat) : Serializer → Writer Unit
  | connect params => writeConnectPacket txBufLen params
  | publish dup qos retained packetId topicName topicNameLen payload payloadLen =>
      writePublishPacket txBufLen dup qos retained packetId topicName
        topicNameLen payload payloadLen
  | ack messageType dup packetId => writeAckPacket txBufLen messageType dup packetId
  | zero packetType => writeZeroPacket txBufLen packetType
  | subscribe dup packetId filters => writeSubscribePacket txBufLen dup packetId filters
  | unsubscribe dup packetId filters => writeUnsubscribePacket txBufLen dup packetId filters

/-- The packet as a whole, or the error. -/
def packet (txBufLen : Nat) : Serializer → Except IotError (List UInt8)
  | connect params => serializeConnect txBufLen params
  | publish dup qos retained packetId topicName topicNameLen payload payloadLen =>
      serializePublish txBufLen dup qos retained packetId topicName topicNameLen payload payloadLen
  | ack messageType dup packetId => serializeAck txBufLen messageType dup packetId
  | zero packetType => serializeZero txBufLen packetType
  | subscribe dup packetId filters => serializeSubscribe txBufLen dup packetId filters
  | unsubscribe dup packetId filters => serializeUnsubscribe txBufLen dup packetId filters

/-- The remaining length of the packet, without the bounds of a machine word. -/
def remaining : Serializer → Nat
  | connect params => getConnectPacketLength params
  | publish _ qos _ _ _ topicNameLen _ payloadLen =>
      publishRemaining qos topicNameLen.toNat payloadLen
  | ack .. => 2
  | zero _ => 0
  | subscribe _ _ filters => 2 + (filters.map fun f => f.2.1.toNat + 2 + 1).sum
  | unsubscribe _ _ filters => 2 + (filters.map fun f => f.2.toNat + 2).sum

/-- The room that the serializer asks for. -/
def room : Serializer → Nat
  | ack .. | zero _ => 4
  | s => getFinalPacketLengthFromRemainingLength s.remaining

/-- The arguments for which there is a packet. -/
def isAccepted : Serializer → Prop
  | connect params => (params.clientID.isSome ↔ params.clientIDLen ≠ 0) ∧ params.mqttVersion = 4
  | publish _ _ _ _ _ _ payload _ => payload.isSome
  | ack messageType _ _ => messageType ≠ .unknown
  | zero packetType => packetType ≠ .unknown
  | subscribe .. | unsubscribe .. => True

/-- Nothing is written at or behind the end of the buffer. A packet that has no room there is
refused as too long. -/
structure WritesInside (txBufLen : Nat) (s : Serializer) : Prop where
  inside : (s.writer txBufLen).output.2.length ≤ txBufLen
  tooShort : s.isAccepted → txBufLen < packetSize s.remaining →
    (s.writer txBufLen).output.1 = .error .mqttTxBufferTooShortError

end Serializer

/-- An answer that fits the room that was asked for and the size of the packet. -/
def Answers (txBufLen : Nat) (s : Serializer) : Except IotError (List UInt8) → Prop
  | .error rc => s.isAccepted → rc = .mqttTxBufferTooShortError ∧ txBufLen < s.room
  | .ok packet => s.isAccepted ∧ s.room ≤ txBufLen ∧ packet.length = packetSize s.remaining

namespace Serializer

theorem writes_writer (txBufLen : Nat) (s : Serializer) :
    Writer.Writes (s.writer txBufLen) (s.packet txBufLen) := by
  cases s with
  | connect params => exact writes_writeConnectPacket _ _
  | publish => exact writes_writePublishPacket ..
  | ack => exact writes_writeAckPacket ..
  | zero => exact writes_writeZeroPacket ..
  | subscribe => exact writes_writeSubscribePacket ..
  | unsubscribe => exact writes_writeUnsubscribePacket ..

/-- The header of a known type can be built. -/
theorem initHeader_ok {messageType : MessageType} (h : messageType ≠ .unknown) (qos : QoS)
    (dup retained : UInt8) : ∃ header, initHeader messageType qos dup retained = .ok header := by
  cases messageType with
  | unknown => exact absurd rfl h
  | _ => exact ⟨_, rfl⟩

/-- The field and the predicted size only see 32 bits of the length. -/
theorem length_writeLenToBuffer_mod (length : Nat) :
    writeLenToBuffer (length % 2 ^ 32) = writeLenToBuffer length := by
  rw [writeLenToBuffer, Nat.mod_mod, writeLenToBuffer]

theorem getFinalPacketLength_mod (remaining : Nat) :
    getFinalPacketLengthFromRemainingLength (remaining % 2 ^ 32) =
      getFinalPacketLengthFromRemainingLength remaining := by
  unfold getFinalPacketLengthFromRemainingLength
  simp only [Nat.mod_add_mod]

/-- The part that all of them share: a look at the room, the header, and the rest. -/
theorem answers_built {txBufLen room : Nat} {s : Serializer} {header : Except IotError UInt8}
    {rest : List UInt8} (haccepted : s.isAccepted) (hroom : room = s.room)
    (hheader : ∃ h, header = .ok h) (hsize : 1 + rest.length = packetSize s.remaining) :
    Answers txBufLen s (if room > txBufLen then .error .mqttTxBufferTooShortError
      else header >>= fun h => .ok (h :: rest)) := by
  obtain ⟨h, rfl⟩ := hheader
  split
  next hfits => exact fun _ => ⟨rfl, hroom ▸ hfits⟩
  next hfits =>
    refine ⟨haccepted, hroom ▸ Nat.not_lt.mp hfits, ?_⟩
    rw [← hsize, List.length_cons, Nat.add_comm]

theorem answers_connect (txBufLen : Nat) (params : ConnectParams) :
    Answers txBufLen (.connect params) (serializeConnect txBufLen params) := by
  unfold serializeConnect
  split
  next hclient =>
    rintro ⟨hgiven, -⟩
    cases hid : params.clientID <;> simp_all
  next hclient =>
    split
    next hversion => exact fun haccepted => absurd haccepted.2 hversion
    next hversion =>
      have hnone : params.clientID = none → params.clientIDLen = 0 := by
        intro hid
        simpa [hid] using hclient
      have hlength := length_writePayload hnone
      have hfour : (4 : UInt16).toNat = 4 := rfl
      simp only [List.cons_append, List.append_assoc]
      change Answers txBufLen _
        (if _ > txBufLen then _ else initHeader .connect qos0 0 0 >>= fun h =>
        .ok (h :: (writeLenToBuffer (getConnectPacketLength params) ++
          (writeUtf8String [77, 81, 84, 84] 4 ++ (params.mqttVersion :: connectFlags params ::
            (writeUint16 params.keepAliveIntervalInSec ++ writePayload params))))))
      apply answers_built
      · refine ⟨?_, not_not.mp hversion⟩
        cases hid : params.clientID <;> simp_all
      · rfl
      · exact ⟨_, rfl⟩
      · simp only [packetSize, remaining, List.length_append, List.length_cons,
          length_writeUtf8String, length_writeUint16]
        omega

theorem answers_publish (txBufLen : Nat) (dup : UInt8) (qos : QoS) (retained : UInt8)
    (packetId : UInt16) (topicName : List UInt8) (topicNameLen : UInt16)
    (payload : Option (List UInt8)) (payloadLen : Nat) :
    Answers txBufLen
      (.publish dup qos retained packetId topicName topicNameLen payload payloadLen)
      (serializePublish txBufLen dup qos retained packetId topicName topicNameLen payload
        payloadLen) := by
  cases payload with
  | none => exact nofun
  | some payload =>
      have hremLen : (if qos > 0 then ((topicNameLen.toNat + payloadLen + 2) % 2 ^ 32 + 2) % 2 ^ 32
          else (topicNameLen.toNat + payloadLen + 2) % 2 ^ 32) =
          publishRemaining qos topicNameLen.toNat payloadLen % 2 ^ 32 := by
        rw [publishRemaining]
        split
        · exact Nat.mod_add_mod _ _ _
        · rfl
      unfold serializePublish
      simp only [hremLen, getFinalPacketLength_mod, length_writeLenToBuffer_mod, List.cons_append,
        List.append_assoc]
      apply answers_built
      · rfl
      · rfl
      · exact ⟨_, rfl⟩
      · have hbody := length_publishBody qos packetId topicName topicNameLen
          (memcpy payload payloadLen)
        rw [length_memcpy] at hbody
        rw [packetSize, remaining, ← hbody, publishBody, List.length_append]
        omega

theorem answers_request {α : Type} {txBufLen : Nat} {s : Serializer} {messageType : MessageType}
    {dup : UInt8} {packetId : UInt16} {write : α → List UInt8} {size : α → Nat} {items : List α}
    (hwrite : ∀ a, (write a).length = size a) (hknown : messageType ≠ .unknown)
    (haccepted : s.isAccepted) (hremaining : s.remaining = 2 + (items.map size).sum)
    (hroom : s.room = getFinalPacketLengthFromRemainingLength s.remaining) :
    Answers txBufLen s
      (let remLen := items.foldl (fun len a => (len + size a) % 2 ^ 32) 2
       if getFinalPacketLengthFromRemainingLength remLen > txBufLen then
         .error .mqttTxBufferTooShortError
       else do
         let header ← initHeader messageType qos1 dup 0
         return header :: writeLenToBuffer remLen ++ writeUint16 packetId ++
           items.flatMap write) := by
  simp only [foldl_add_mod size items 2 (by decide), getFinalPacketLength_mod,
    length_writeLenToBuffer_mod, List.cons_append, List.append_assoc]
  apply answers_built haccepted
  · rw [hroom, hremaining]
  · exact initHeader_ok hknown _ _ _
  · rw [packetSize, hremaining, List.length_append, List.length_append, length_writeUint16,
      length_flatMap_eq items hwrite]
    omega

theorem answers_packet (txBufLen : Nat) (s : Serializer) :
    Answers txBufLen s (s.packet txBufLen) := by
  cases s with
  | connect params => exact answers_connect _ _
  | publish => exact answers_publish ..
  | ack messageType dup packetId =>
      by_cases hknown : messageType = .unknown
      · subst hknown
        rw [packet, serializeAck]
        split <;> exact fun h => absurd rfl h
      · apply answers_built
        · exact hknown
        · rfl
        · exact initHeader_ok hknown _ _ _
        · change 1 + (writeLenToBuffer 2 ++ writeUint16 packetId).length = packetSize 2
          rw [packetSize, List.length_append, length_writeUint16, Nat.add_assoc]
  | zero packetType =>
      by_cases hknown : packetType = .unknown
      · subst hknown
        rw [packet, serializeZero]
        split <;> exact fun h => absurd rfl h
      · apply answers_built
        · exact hknown
        · rfl
        · exact initHeader_ok hknown _ _ _
        · exact (Nat.add_zero _).symm
  | subscribe dup packetId filters =>
      refine answers_request (fun f => ?_) (by decide) trivial rfl rfl
      rw [List.length_append, length_writeUtf8String]
      rfl
  | unsubscribe dup packetId filters =>
      refine answers_request (fun f => ?_) (by decide) trivial rfl rfl
      exact length_writeUtf8String _ _

/-- What is asked for covers the packet, as long as it is no longer than MQTT allows. -/
theorem packetSize_le_room {s : Serializer} (h : s.remaining ≤ maxRemainingLength) :
    packetSize s.remaining ≤ s.room := by
  cases s with
  | ack => exact (by decide : packetSize 2 ≤ 4)
  | zero => exact (by decide : packetSize 0 ≤ 4)
  | _ => exact packetSize_le h

/-- The serializers keep to the buffer for every packet that MQTT allows. For a longer one they do
if the prediction, of 32 bits and with four bytes at most for the length field, refuses it too, or
if the buffer takes it as a whole. -/
theorem writesInside_iff (txBufLen : Nat) (s : Serializer) :
    s.WritesInside txBufLen ↔ ¬s.isAccepted ∨ s.remaining ≤ maxRemainingLength ∨
      txBufLen < s.room ∨ packetSize s.remaining ≤ txBufLen := by
  have hwrites := writes_writer txBufLen s
  have hanswers := answers_packet txBufLen s
  cases hpacket : s.packet txBufLen with
  | error rc =>
      rw [hpacket] at hwrites hanswers
      -- a packet that is refused writes nothing
      have hout : (s.writer txBufLen).output = (.error rc, []) := hwrites.output_of_error
      constructor
      · intro _
        by_cases haccepted : s.isAccepted
        · exact .inr (.inr (.inl (hanswers haccepted).2))
        · exact .inl haccepted
      · intro _
        refine ⟨by rw [hout]; exact Nat.zero_le _, fun haccepted _ => ?_⟩
        rw [hout, (hanswers haccepted).1]
  | ok packet =>
      rw [hpacket] at hwrites hanswers
      obtain ⟨haccepted, hroom, hlength⟩ := hanswers
      have hout : (s.writer txBufLen).output = (.ok (), packet) := hwrites.output_of_ok
      constructor
      · rintro ⟨hinside, -⟩
        rw [hout, hlength] at hinside
        exact .inr (.inr (.inr hinside))
      · intro hcondition
        have hfits : packetSize s.remaining ≤ txBufLen := by
          rcases hcondition with hrefused | hallowed | hpredicted | hfits
          · exact absurd haccepted hrefused
          · exact Nat.le_trans (packetSize_le_room hallowed) hroom
          · exact absurd hroom (Nat.not_le.mpr hpredicted)
          · exact hfits
        refine ⟨by rw [hout, hlength]; exact hfits, fun _ hlong => ?_⟩
        exact absurd hfits (Nat.not_le.mpr hlong)

/-- A publication with a payload of 4 GiB: in 32 bits its length is 3. -/
def wrappedPublish : Serializer :=
  .publish 0 qos0 0 0 [97] 1 (some (List.replicate (2 ^ 32) 0)) (2 ^ 32)

/-- In a buffer of 512 bytes, 4 GiB are written. -/
theorem not_writesInside_wrappedPublish : ¬wrappedPublish.WritesInside 512 := by
  rintro ⟨hinside, htooShort⟩
  have hanswers := answers_packet 512 wrappedPublish
  have hwrites := writes_writer 512 wrappedPublish
  have hroom : wrappedPublish.room ≤ 512 := by decide
  have hsize : 512 < packetSize wrappedPublish.remaining := by
    have hremaining : wrappedPublish.remaining = 2 ^ 32 + 3 := by decide
    rw [packetSize, hremaining]
    omega
  cases hpacket : wrappedPublish.packet 512 with
  | error rc =>
      rw [hpacket] at hanswers
      exact absurd hroom (Nat.not_le.mpr (hanswers rfl).2)
  | ok packet =>
      rw [hpacket] at hanswers hwrites
      have hout : (wrappedPublish.writer 512).output = (.ok (), packet) := hwrites.output_of_ok
      rw [hout, hanswers.2.2] at hinside
      exact absurd hinside (Nat.not_le.mpr hsize)

end Serializer

end MqttClient
