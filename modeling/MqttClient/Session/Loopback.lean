import MqttClient.Session.Exchange
import MqttClient.Wire.Sizes

/-! # Messages from one client to another

What one client publishes on a connection that loses nothing arrives at the
other as it was published, in the same order, once at each handler whose filter
matches; and what the other acknowledges ends each publish of QoS 1.
-/

namespace MqttClient

open Effect Program

/-- The packet identifier that is drawn next. -/
def succPacketId (id : UInt16) : UInt16 := if id = 65535 then 1 else id + 1

/-- A message that can be published. -/
structure Message where
  topicName : List UInt8
  qos : QoS
  retained : UInt8
  payload : List UInt8
  topicName_ne : topicName ≠ []
  topicName_lt : topicName.length < 2 ^ 16
  qos_eq : qos = qos0 ∨ qos = qos1
  retained_eq : retained = 0 ∨ retained = 1
  remaining_le : publishRemaining qos topicName.length payload.length ≤ maxRemainingLength

namespace Message

variable (m : Message)

def topicNameLen : UInt16 := UInt16.ofNat m.topicName.length

def params : PublishParams := ⟨m.qos, m.retained, 0, 0, some m.payload, m.payload.length⟩

/-- The call by which the message is published. -/
def call : Call := .publish (some m.topicName) m.topicNameLen (some (.own m.params))

/-- The identifier of the message, after `last` was drawn. -/
def packetId (last : UInt16) : UInt16 := if m.qos = qos1 then succPacketId last else 0

/-- The identifier that was drawn last when the message has been published. -/
def lastId (last : UInt16) : UInt16 := if m.qos = qos1 then succPacketId last else last

theorem toNat_topicNameLen : m.topicNameLen.toNat = m.topicName.length := by
  rw [topicNameLen, UInt16.toNat_ofNat']
  exact Nat.mod_eq_of_lt m.topicName_lt

def header : UInt8 :=
  MessageType.publish.code * 16 + 0 * 8 + (if m.qos = qos1 then 1 else 0) * 2 +
    if m.retained = 1 then 1 else 0

theorem publishHeader_header : PublishHeader m.header 0 m.qos m.retained :=
  publishHeader (.inl rfl) m.qos_eq m.retained_eq rfl

theorem publishRemaining_le :
    publishRemaining m.qos m.topicNameLen.toNat m.payload.length ≤ maxRemainingLength := by
  rw [m.toNat_topicNameLen]
  exact m.remaining_le

/-- The packet of the message, after the identifier `last` was drawn. -/
def packet (last : UInt16) : PublishPacket :=
  writtenPublish m.publishHeader_header m.publishRemaining_le (m.packetId last) m.topicName

theorem bytes_packet (last : UInt16) : (m.packet last).bytes = m.header ::
    (writeLenToBuffer (publishRemaining m.qos m.topicNameLen.toNat m.payload.length) ++
      publishBody m.qos (m.packetId last) m.topicName m.topicNameLen m.payload) := rfl

/-- How many bytes the packet has. -/
def size : Nat := packetSize (publishRemaining m.qos m.topicNameLen.toNat m.payload.length)

theorem length_packet (last : UInt16) : (m.packet last).bytes.length = m.size := by
  rw [bytes_packet, List.length_cons, List.length_append, length_publishBody, size, packetSize]
  omega

theorem length_packet_lt (last : UInt16) : (m.packet last).bytes.length < 2 ^ 32 := by
  have hfield := (fitsField m.publishRemaining_le).field_le
  have hrem := m.publishRemaining_le
  rw [maxNoOfRemainingLengthBytes] at hfield
  rw [maxRemainingLength] at hrem
  rw [length_packet, size, packetSize]
  omega

/-- The message is serialized if its packet is shorter than the buffer. -/
theorem serializePublish_eq (last : UInt16) {txBufLen : Nat} (h : m.size < txBufLen) :
    serializePublish txBufLen 0 m.qos m.retained (m.packetId last) m.topicName m.topicNameLen
      (some m.payload) m.payload.length = .ok (m.packet last).bytes := by
  have hword := (fitsField m.publishRemaining_le).mod_eq
  have hroom := getFinalPacketLength_le m.publishRemaining_le
  have hremLen : (if m.qos > 0 then
      ((m.topicNameLen.toNat + m.payload.length + 2) % 2 ^ 32 + 2) % 2 ^ 32
      else (m.topicNameLen.toNat + m.payload.length + 2) % 2 ^ 32) =
        publishRemaining m.qos m.topicNameLen.toNat m.payload.length := by
    refine Eq.trans ?_ hword
    rw [publishRemaining]
    split
    · exact Nat.mod_add_mod _ _ _
    · rfl
  rw [size] at h
  unfold serializePublish
  dsimp only
  rw [hremLen, if_neg (by omega), bytes_packet, memcpy_length]
  simp only [publishBody, List.append_assoc, List.cons_append]
  rfl

/-- The client has room for the packet, and for its acknowledgement. -/
structure CanBePublished (c : Client) : Prop where
  writeBuf : m.size < c.writeBufSize
  readBuf : 4 ≤ c.readBufSize

/-- The client has room for the packet when it arrives, and for acknowledging it. -/
structure CanBeRead (c : Client) : Prop where
  readBuf : m.size ≤ c.readBufSize
  writeBuf : 4 < c.writeBufSize

instance (c : Client) : Decidable (m.CanBePublished c) :=
  decidable_of_iff (m.size < c.writeBufSize ∧ 4 ≤ c.readBufSize)
    ⟨fun h => ⟨h.1, h.2⟩, fun h => ⟨h.writeBuf, h.readBuf⟩⟩

instance (c : Client) : Decidable (m.CanBeRead c) :=
  decidable_of_iff (m.size ≤ c.readBufSize ∧ 4 < c.writeBufSize)
    ⟨fun h => ⟨h.1, h.2⟩, fun h => ⟨h.readBuf, h.writeBuf⟩⟩

/-- What the handlers of a client have to be called with for the message. -/
def calls (table : HandlerTable) : List Delivery :=
  (List.range numSubscribeHandlers).filterMap fun i =>
    (table.slot i).delivery m.topicName m.topicNameLen m.payload

/-- What the acknowledgement of the message is. -/
theorem acknowledgement_packet (last : UInt16) : (m.packet last).acknowledgement =
    if m.qos = qos0 then [] else pubackBytes (m.packetId last) := by
  have hqos : headerQos (m.packet last).header = m.qos := m.publishHeader_header.qos_eq
  rw [PublishPacket.acknowledgement, hqos]
  split
  next => rfl
  next hne =>
    have hone : m.qos = qos1 := m.qos_eq.resolve_left hne
    have hid : (m.packet last).packetId = _ :=
      packetId_writtenPublish m.publishHeader_header m.publishRemaining_le m.qos_eq
    rw [hid, if_pos hone]
    rfl

theorem calls_packet (last : UInt16) (table : HandlerTable) :
    (m.packet last).calls table = m.calls table := by
  have htopic : (m.packet last).topicName = m.topicName := by
    have hwritten : (m.packet last).topicName = _ :=
      topicName_writtenPublish m.publishHeader_header m.publishRemaining_le
    rw [hwritten, m.toNat_topicNameLen, memcpy_length]
  have hlen : (m.packet last).topicNameLen = m.topicNameLen :=
    topicNameLen_writtenPublish m.publishHeader_header m.publishRemaining_le
  have hpayload : (m.packet last).payload = m.payload :=
    payload_writtenPublish m.publishHeader_header m.publishRemaining_le
  rw [PublishPacket.calls, PublishPacket.selected, htopic, hlen, hpayload, calls]

/-- The packet has the shortest length field from the start. -/
theorem canonical_packet (last : UInt16) : (m.packet last).canonical = (m.packet last).bytes := by
  have hbody : (m.packet last).body.length =
      publishRemaining m.qos m.topicNameLen.toNat m.payload.length := length_publishBody ..
  rw [ControlPacket.canonical, hbody]
  rfl

theorem fitsIn_packet {c : Client} (h : m.CanBeRead c) (last : UInt16) :
    (m.packet last).FitsIn c where
  holdsFields := holdsFields_writtenPublish m.publishHeader_header m.publishRemaining_le
  readBuf := by
    rw [canonical_packet, length_packet]
    exact h.readBuf
  writeBuf := h.writeBuf

end Message

/-- The packets of the messages, after the identifier `last` was drawn. -/
def packetsOf : UInt16 → List Message → List PublishPacket
  | _, [] => []
  | last, m :: ms => m.packet last :: packetsOf (m.lastId last) ms

/-- The world in which this identifier was the last one drawn. -/
def World.numbered (w : World) (id : UInt16) : World :=
  w.onClient fun c => { c with nextPacketId := id }

/-- The acknowledgement of a publish, as it arrives. -/
def puback (id : UInt16) : ControlPacket where
  header := 0x40
  field := [2]
  body := writeUint16 id
  isField := by decide
  field_le := by decide
  length_eq := rfl

namespace Exchange

section Publishing

variable {inc : Incoming} {stream : Memory} {call : Call → M IotError} {fuel : Nat} {r : Reader}
  {w : World}

theorem canonical_puback (id : UInt16) : (puback id).canonical = pubackBytes id := by
  change 0x40 :: (writeLenToBuffer 2 ++ writeUint16 id) = pubackBytes id
  rw [writeLenToBuffer_of_lt (by decide)]
  rfl

theorem length_canonical_puback (id : UInt16) : (puback id).canonical.length = 4 := by
  rw [canonical_puback]
  rfl

theorem headerType_puback (id : UInt16) :
    headerType (puback id).header = MessageType.puback.code := by
  change headerType 0x40 = MessageType.puback.code
  decide

/-- The acknowledgement that arrives ends the wait. -/
theorem ends_internalWaitForRead (id : UInt16) (hsize : 4 ≤ w.client.readBufSize)
    (hfuel : 4 ≤ fuel) (hstream : stream.load r.bytes 4 = pubackBytes id) :
    (internalWaitForRead fuel call .puback).Ends (Incoming.ofStream stream).answer
      (fun rc r' t => rc = .success ∧ r'.bytes = r.bytes + 4 ∧
        t.client.clientState = w.client.clientState ∧ w.Advances [] [] t ∧
          t.client.readBuf.load 0 4 = pubackBytes id) r w := by
  obtain ⟨fuel, rfl⟩ : ∃ n, fuel = n + 1 := ⟨fuel - 1, by omega⟩
  -- the first cycle reads the acknowledgement, so the loop turns once
  have hcycle : (internalCycleRead (fuel + 1) call .command).Ends (Incoming.ofStream stream).answer
      (fun res r' t => res.2 = some (headerType (puback id).header) ∧ res.1 = .success ∧
        r'.bytes = r.bytes + 4 ∧ Reads (w.log (.enter (.waiting .puback))) t ∧
          t.client.readBuf.load 0 4 = pubackBytes id) r
      (w.log (.enter (.waiting .puback))) := by
    apply ends_internalCycleRead (p := puback id) (Φ := fun rc r' t => rc = .success ∧
      r'.bytes = r.bytes + 4 ∧ Reads (w.log (.enter (.waiting .puback))) t ∧
        t.client.readBuf.load 0 4 = pubackBytes id) .command
      (length_canonical_puback id ▸ hsize) hfuel hstream
    intro r' t hreads hbytes hload
    rw [canonical_puback] at hload
    rw [headerType_puback, dispatchPacket_ack _ _ rfl]
    exact ends_ret ⟨rfl, hbytes, hreads, hload⟩
  unfold internalWaitForRead framed
  apply ends_modify_bind
  apply ends_bind_assoc
  unfold Program.loop
  apply ends_bind_assoc
  unfold waitForReadStep
  apply ends_bind_assoc
  apply ends_bind_of_run (run_hasTimerExpired _ _ _ _)
  rw [if_neg (by decide)]
  apply ends_bind_assoc
  apply hcycle.bind
  rintro ⟨rc, type⟩ r' t ⟨htype, hrc, hbytes, hreads, hload⟩
  simp only at htype hrc
  subst htype hrc
  simp only [Option.getD_some, headerType_puback]
  rw [if_neg fun h => h.2 rfl, pure_eq, ret_bind, ret_bind, if_neg fun h => h.2.2 rfl, pure_eq,
    ret_bind]
  apply ends_modify_bind
  have hadvances := advances_of_reads hreads
  refine ends_ret ⟨rfl, hbytes, ?_, ?_, hload⟩
  · change t.client.clientState = _
    rw [hreads.client]
    rfl
  · have henter : w.Advances [] [] (w.log (.enter (.waiting .puback))) := advances_log w rfl rfl
    exact advances_idle_left henter (advances_idle_left hadvances (advances_log t rfl rfl))

theorem deserializeAck_of_load {c : Client} {id : UInt16} (hsize : 4 ≤ c.readBufSize)
    (hload : c.readBuf.load 0 4 = pubackBytes id) :
    ∃ ack, deserializeAck c.readBuf c.readBufSize = .ok ack := by
  have hin : (puback id).IsIn c.readBuf c.readBufSize := ⟨hsize, hload⟩
  rw [deserializeAck, if_neg (Nat.not_lt.mpr hsize), hin.decode_eq]
  exact ⟨_, rfl⟩

/-- A call's own parameters get an identifier if the message has QoS 1. -/
theorem run_assignPublishId (m : Message) (inc : Incoming) (r : Reader) (w : World) :
    (assignPublishId (.own m.params) m.params).run inc.answer r w =
      (some (m.packetId w.client.nextPacketId), r,
        w.numbered (m.lastId w.client.nextPacketId)) := by
  have hqos : m.params.qos = m.qos := rfl
  rw [assignPublishId, Message.packetId, Message.lastId, hqos]
  by_cases hone : m.qos = qos1
  · simp only [if_pos hone]
    rfl
  · simp only [if_neg hone]
    rfl

theorem ends_internalPublish (call : Call → M IotError) {m : Message}
    (hcan : m.CanBePublished w.client) (hfuel : 4 ≤ fuel) (hstream : stream.load r.bytes
      (m.packet w.client.nextPacketId).acknowledgement.length =
        (m.packet w.client.nextPacketId).acknowledgement) :
    (internalPublish fuel call m.topicName m.topicNameLen (.own m.params)).Ends
      (Incoming.ofStream stream).answer
      (fun rc r' t => rc = .success ∧
        r'.bytes = r.bytes + (m.packet w.client.nextPacketId).acknowledgement.length ∧
          t.client.clientState = w.client.clientState ∧
            (w.numbered (m.lastId w.client.nextPacketId)).Advances []
              (m.packet w.client.nextPacketId).bytes t) r w := by
  unfold internalPublish
  apply ends_atomically_bind
  apply ends_modify_bind
  apply ends_atomically_bind
  simp only [World.publishParams, id_eq]
  generalize hw₁ : w.log (.countdown .command w.client.commandTimeoutMs) = w₁
  have hlast : w₁.client = w.client := by
    rw [← hw₁]
    rfl
  apply ends_bind_of_run (run_assignPublishId m _ r w₁)
  rw [hlast]
  -- the identifier that is taken, in place of the client's last one
  generalize w.client.nextPacketId = last at hstream ⊢
  have hroom : m.size < (w₁.numbered (m.lastId last)).client.writeBufSize := by
    rw [← hw₁]
    exact hcan.writeBuf
  apply ends_serialized (m.serializePublish_eq last hroom)
  have hstart : (w.numbered (m.lastId last)).Advances [] [] (w₁.numbered (m.lastId last)) := by
    rw [← hw₁]
    exact advances_log (w.numbered (m.lastId last)) rfl rfl
  have hstate₁ : (w₁.numbered (m.lastId last)).client.clientState = w.client.clientState := by
    rw [← hw₁]
    rfl
  have hpos : 0 < (m.packet last).bytes.length := Nat.succ_pos _
  apply (ends_sendSerialized (Incoming.ofStream stream) .command hpos (m.length_packet last ▸ hroom)
    (m.length_packet_lt last) (Nat.le_trans (by decide) hfuel)).bind
  rintro rc r' t ⟨rfl, rfl, hstate, hsent⟩
  have hadvances := advances_idle_left hstart hsent
  rw [onSuccess, if_pos rfl]
  change Program.Ends _ (if m.qos = qos1 then _ else _) _ _ _
  rw [m.acknowledgement_packet] at hstream ⊢
  split
  next hone =>
    have hzero : m.qos ≠ qos0 := by
      rw [hone]
      decide
    rw [if_neg hzero] at hstream ⊢
    have hsize : 4 ≤ t.client.readBufSize := hadvances.readBufSize ▸ hcan.readBuf
    apply (ends_internalWaitForRead (m.packetId last) hsize hfuel hstream).bind
    rintro rc r'' u ⟨rfl, hbytes, hstate', hwaited, hload⟩
    rw [onSuccess, if_pos rfl]
    apply ends_atomically_bind
    obtain ⟨ack, hack⟩ := deserializeAck_of_load (hwaited.readBufSize ▸ hsize) hload
    rw [id_eq, hack]
    exact ends_ret ⟨rfl, hbytes, hstate'.trans (hstate.trans hstate₁),
      advances_idle_right hadvances hwaited⟩
  next hone =>
    -- without QoS 1 there is nothing to wait for
    have hzero : m.qos = qos0 := m.qos_eq.resolve_right hone
    rw [if_pos hzero]
    exact ends_ret ⟨rfl, rfl, hstate.trans hstate₁, hadvances⟩

theorem advances_numbered {calls : List Delivery} {output : List UInt8} {s t : World}
    (h : s.Advances calls output t) (id : UInt16) :
    (s.numbered id).Advances calls output (t.numbered id) :=
  ⟨h.messageHandlers, h.readBufSize, h.writeBufSize, rfl, h.messages, h.handed, h.output⟩

theorem ends_framed {f : Frame} {body : M IotError} {Φ : IotError → Reader → World → Prop}
    (h : body.Ends inc.answer (fun rc r' t => Φ rc r' (t.log (.leave f rc))) r
      (w.log (.enter f))) : (framed f body).Ends inc.answer Φ r w := by
  apply ends_modify_bind
  apply h.bind
  exact fun rc r' t ht => ends_modify_bind (ends_ret ht)

/-- An idle client is claimed, and given back. -/
theorem ends_exclusively {inProgress : ClientState} {body : M IotError}
    {onRefused : ClientState → IotError → M IotError} {Φ : IotError → Reader → World → Prop}
    (hidle : w.client.clientState = .connectedIdle)
    (h : body.Ends inc.answer (fun rc r' t => t.client.clientState = inProgress ∧
      Φ rc r' (t.granted .release inProgress .connectedIdle)) r
      (w.granted .claim .connectedIdle inProgress)) :
    (exclusively inProgress body onRefused).Ends inc.answer Φ r w := by
  have hconnected : w.isClientConnected = true := by
    rw [World.isClientConnected, hidle]
    rfl
  unfold exclusively
  apply ends_atomically_bind
  rw [hconnected, if_neg (by decide)]
  apply ends_atomically_bind
  rw [id_eq, hidle, if_neg (by decide)]
  apply ends_bind_of_run (run_setClientState inc .claim inProgress r hidle)
  rw [if_neg (not_not.mpr rfl)]
  apply h.bind
  rintro bodyRc r' t ⟨hstate, ht⟩
  apply ends_bind_of_run (run_setClientState inc .release .connectedIdle r' hstate)
  rw [if_neg fun hne => hne.2 rfl]
  exact ends_ret ht

/-- The call succeeds, and leaves the client idle. -/
theorem ends_publish {m : Message} (hidle : w.client.clientState = .connectedIdle)
    (hcan : m.CanBePublished w.client) (hfuel : 4 ≤ fuel)
    (hstream : stream.load r.bytes (m.packet w.client.nextPacketId).acknowledgement.length =
        (m.packet w.client.nextPacketId).acknowledgement) :
    (api (fuel + 1) m.call).Ends (Incoming.ofStream stream).answer
      (fun rc r' t => rc = .success ∧
        r'.bytes = r.bytes + (m.packet w.client.nextPacketId).acknowledgement.length ∧
          t.client.clientState = .connectedIdle ∧
            (w.numbered (m.lastId w.client.nextPacketId)).Advances []
              (m.packet w.client.nextPacketId).bytes t) r w := by
  have hlen : ¬ m.topicNameLen = 0 := by
    intro hzero
    have hlength := m.toNat_topicNameLen
    rw [hzero] at hlength
    exact m.topicName_ne (List.length_eq_zero_iff.mp hlength.symm)
  generalize hw₁ : (w.log (.enter (.call m.call))).granted .claim .connectedIdle
    .connectedPublishInProgress = w₁
  have hlast : w₁.client.nextPacketId = w.client.nextPacketId := by
    rw [← hw₁]
    rfl
  -- the claim sends nothing
  have hstart : w.Advances [] [] w₁ := by
    have henter : w.Advances [] [] (w.log (.enter (.call m.call))) := advances_log w rfl rfl
    rw [← hw₁]
    exact advances_idle_left henter (advances_granted _ _ _ _)
  have hcan' : m.CanBePublished w₁.client :=
    ⟨hstart.writeBufSize ▸ hcan.writeBuf, hstart.readBufSize ▸ hcan.readBuf⟩
  have hpublish := ends_internalPublish (api fuel) hcan' hfuel (hlast ▸ hstream)
  rw [hlast] at hpublish
  change Program.Ends _ (framed (.call m.call) (if m.topicNameLen = 0 then _ else _)) _ _ _
  apply ends_framed
  rw [if_neg hlen]
  have hidle' : (w.log (.enter (.call m.call))).client.clientState = .connectedIdle := hidle
  apply ends_exclusively hidle'
  rw [hw₁]
  apply hpublish.mono
  rintro rc r' t ⟨rfl, hbytes, hstate, hadvances⟩
  refine ⟨?_, rfl, hbytes, rfl, ?_⟩
  · rw [hstate, ← hw₁]
    rfl
  · apply advances_idle_left (advances_numbered hstart (m.lastId w.client.nextPacketId))
    apply advances_idle_right (advances_idle_right hadvances (advances_granted t _ _ _))
    exact advances_log _ rfl rfl

end Publishing

/-! ## One message after the other -/

theorem length_packetsOf (last : UInt16) (ms : List Message) :
    (packetsOf last ms).length = ms.length := by
  induction ms generalizing last with
  | nil => rfl
  | cons m ms ih => exact congrArg (· + 1) (ih (m.lastId last))

theorem calls_packetsOf (last : UInt16) (ms : List Message) (table : HandlerTable) :
    (packetsOf last ms).flatMap (·.calls table) = ms.flatMap (·.calls table) := by
  induction ms generalizing last with
  | nil => rfl
  | cons m ms ih =>
      rw [packetsOf, List.flatMap_cons, List.flatMap_cons, m.calls_packet, ih]

theorem forall_mem_packetsOf {P : PublishPacket → Prop} {ms : List Message}
    (h : ∀ m ∈ ms, ∀ last, P (m.packet last)) (last : UInt16) : ∀ p ∈ packetsOf last ms, P p := by
  induction ms generalizing last with
  | nil => exact fun p hp => by cases hp
  | cons m ms ih =>
      intro p hp
      rcases List.mem_cons.mp hp with rfl | hp
      · exact h m List.mem_cons_self last
      · exact ih (fun m' hm' => h m' (List.mem_cons_of_mem m hm')) (m.lastId last) p hp

end Exchange

/-- Successive publishes, and what each of them returns. -/
def publishes (fuel : Nat) : List Message → M (List IotError)
  | [] => return []
  | m :: ms => do
      let rc ← api fuel m.call
      let rest ← publishes fuel ms
      return rc :: rest

/-- One message after the other is published, and every publish succeeds. -/
theorem ends_publishes {stream : Memory} {fuel : Nat} {r : Reader} {w : World} (ms : List Message)
    (hidle : w.client.clientState = .connectedIdle) (hcan : ∀ m ∈ ms, m.CanBePublished w.client)
    (hfuel : 4 ≤ fuel)
    (hstream : stream.load r.bytes
      ((packetsOf w.client.nextPacketId ms).flatMap (·.acknowledgement)).length =
        (packetsOf w.client.nextPacketId ms).flatMap (·.acknowledgement)) :
    (publishes (fuel + 1) ms).Ends (Incoming.ofStream stream).answer
      (fun rcs r' t => rcs = List.replicate ms.length .success ∧
        r'.bytes = r.bytes +
          ((packetsOf w.client.nextPacketId ms).flatMap (·.acknowledgement)).length ∧
        t.client.clientState = .connectedIdle ∧ ∃ last, (w.numbered last).Advances []
          ((packetsOf w.client.nextPacketId ms).flatMap (·.bytes)) t) r w := by
  induction ms generalizing r w with
  | nil => exact ends_ret ⟨rfl, rfl, hidle, w.client.nextPacketId, Exchange.advances_refl w⟩
  | cons m ms ih =>
      rw [packetsOf, List.flatMap_cons, List.length_append, Memory.load_add] at hstream
      obtain ⟨hfirst, hrest⟩ := List.append_inj hstream (Memory.length_load _ _ _)
      apply (Exchange.ends_publish hidle (hcan m List.mem_cons_self) hfuel hfirst).bind
      rintro rc r' t ⟨rfl, hbytes, hstate, hadvances⟩
      have hlast : t.client.nextPacketId = m.lastId w.client.nextPacketId := hadvances.nextPacketId
      have hcan' : ∀ m' ∈ ms, m'.CanBePublished t.client := fun m' hm' =>
        have hm := hcan m' (List.mem_cons_of_mem m hm')
        ⟨hadvances.writeBufSize ▸ hm.writeBuf, hadvances.readBufSize ▸ hm.readBuf⟩
      rw [← hbytes, ← hlast] at hrest
      apply (ih hstate hcan' hrest).bind
      rintro rcs r'' u ⟨rfl, hbytes', hstate', last, hadvances'⟩
      rw [hlast] at hbytes' hadvances'
      refine ends_ret ⟨rfl, ?_, hstate', last, ?_⟩
      · rw [hbytes', hbytes, packetsOf, List.flatMap_cons, List.length_append, Nat.add_assoc]
      · rw [packetsOf, List.flatMap_cons]
        exact Exchange.advances_trans (Exchange.advances_numbered hadvances last) hadvances'

/-- One packet after the other is read, and each message is handed to its handlers. -/
theorem ends_readMessages {stream : Memory} {fuel : Nat} {r : Reader} {w : World}
    (call : Call → M IotError) (timer : TimerName) (ms : List Message) (last : UInt16)
    (hread : ∀ m ∈ ms, m.CanBeRead w.client) (henough : ∀ m ∈ ms, m.size ≤ fuel)
    (hstream : stream.load r.bytes ((packetsOf last ms).flatMap (·.bytes)).length =
      (packetsOf last ms).flatMap (·.bytes)) :
    (cycleReads fuel call timer ms.length).Ends (Incoming.ofStream stream).answer
      (fun results r' t =>
        results = List.replicate ms.length (.success, some MessageType.publish.code) ∧
          r'.bytes = r.bytes + ((packetsOf last ms).flatMap (·.bytes)).length ∧
            t.client.clientState = w.client.clientState ∧
              w.Advances (ms.flatMap (·.calls w.client.messageHandlers))
                ((packetsOf last ms).flatMap (·.acknowledgement)) t) r w := by
  have hfits : ∀ p ∈ packetsOf last ms, p.FitsIn w.client :=
    Exchange.forall_mem_packetsOf (fun m hm => m.fitsIn_packet (hread m hm)) last
  have hlength : ∀ p ∈ packetsOf last ms, p.bytes.length ≤ fuel := by
    apply Exchange.forall_mem_packetsOf
    intro m hm last
    rw [m.length_packet]
    exact henough m hm
  have hends := ends_cycleReads call timer (packetsOf last ms) hfits hlength hstream
  rwa [Exchange.length_packetsOf, Exchange.calls_packetsOf] at hends

/-- The messages are published, each with success, while these bytes come in and these go out. -/
structure Published (ms : List Message) (input output : List UInt8) (s : World)
    (rcs : List IotError) (r : Reader) (t : World) : Prop where
  rcs_eq : rcs = List.replicate ms.length .success
  bytes : r.bytes = input.length
  clientState : t.client.clientState = .connectedIdle
  handed : t.trace.handed = s.trace.handed
  output_eq : t.trace.output = s.trace.output ++ output

/-- The messages are read, each by one turn and handed to its handlers, while these bytes come
in and these go out. -/
structure Received (ms : List Message) (input output : List UInt8) (s : World)
    (results : List (IotError × Option UInt8)) (r : Reader) (t : World) : Prop where
  results_eq : results = List.replicate ms.length (.success, some MessageType.publish.code)
  bytes : r.bytes = input.length
  clientState : t.client.clientState = s.client.clientState
  handed : t.trace.handed =
    (ms.flatMap (·.calls s.client.messageHandlers)).reverse ++ s.trace.handed
  output_eq : t.trace.output = s.trace.output ++ output

/-- A message of QoS 1 on the topic `a`, and one of QoS 0 on the topic `b`. -/
def sampleMessages : List Message :=
  [⟨[97], qos1, 0, [33], by decide, by decide, by decide, by decide, by decide⟩,
    ⟨[98], qos0, 1, [], by decide, by decide, by decide, by decide, by decide⟩]

end MqttClient
