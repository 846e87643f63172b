import MqttClient.Effect.Ending
import MqttClient.Session.Selections
import MqttClient.Session.Sending
import MqttClient.Session.Streams
import MqttClient.Wire.RoundTrips

/-! # Messages that arrive one after the other

A connection that loses nothing brings a concatenation of messages. Each is read
by one turn, handed once to each handler whose filter matches, and acknowledged
unless it has QoS 0. The handlers here make no calls of their own.
-/

namespace MqttClient

open Effect Program

/-- The handlers that have been called, the last one first. -/
def Trace.handed (t : Trace) : List Delivery := t.filterMap Event.delivery

/-- The bytes that the network has accepted, in order. -/
def Trace.output (t : Trace) : List UInt8 := accepted (writes t)

namespace PublishPacket

variable (p : PublishPacket)

/-- The packet with the shortest length field. -/
def shortest : PublishPacket where
  header := p.header
  field := writeLenToBuffer p.body.length
  body := p.body
  isField := isLengthField_writeLenToBuffer _
  field_le := length_writeLenToBuffer_le _ 4 (by decide) p.length_body_lt
  length_eq := lengthValue_writeLenToBuffer (Nat.lt_trans p.length_body_lt (by decide))
  isPublish := p.isPublish

/-- The bytes that acknowledge the packet. -/
def acknowledgement : List UInt8 :=
  if headerQos p.header = qos0 then [] else pubackBytes (p.packetId.getD 0)

/-- What all handlers have to be called with. -/
def calls (table : HandlerTable) : List Delivery := p.selected table numSubscribeHandlers

/-- The client has room for the packet and for its acknowledgement. -/
structure FitsIn (c : Client) : Prop where
  holdsFields : p.HoldsFields
  readBuf : p.canonical.length ≤ c.readBufSize
  writeBuf : 4 < c.writeBufSize

end PublishPacket

/-- The client is as it was but for its buffers and its state, these handlers have been
called, and these bytes accepted. -/
structure World.Advances (calls : List Delivery) (output : List UInt8) (s t : World) : Prop where
  messageHandlers : t.client.messageHandlers = s.client.messageHandlers
  readBufSize : t.client.readBufSize = s.client.readBufSize
  writeBufSize : t.client.writeBufSize = s.client.writeBufSize
  nextPacketId : t.client.nextPacketId = s.client.nextPacketId
  messages : t.messages = s.messages
  handed : t.trace.handed = calls.reverse ++ s.trace.handed
  output : t.trace.output = s.trace.output ++ output

namespace Exchange

/-! ## What is on record -/

theorem handed_append (ev t : Trace) : Trace.handed (ev ++ t) = ev.handed ++ t.handed :=
  List.filterMap_append

theorem output_append (ev t : Trace) : Trace.output (ev ++ t) = t.output ++ ev.output := by
  rw [Trace.output, writes, List.filterMap_append, List.reverse_append, accepted,
    List.flatMap_append]
  rfl

theorem handed_of_forall {ev : Trace} (h : ∀ e ∈ ev, e.delivery = none) : ev.handed = [] :=
  List.filterMap_eq_nil_iff.mpr h

theorem output_of_forall {ev : Trace} (h : ∀ e ∈ ev, e.write? = none) : ev.output = [] := by
  rw [Trace.output, writes, List.filterMap_eq_nil_iff.mpr h]
  rfl

section Advances

variable {calls calls' : List Delivery} {output output' : List UInt8} {s t u w : World}

theorem advances_refl (s : World) : s.Advances [] [] s :=
  ⟨rfl, rfl, rfl, rfl, rfl, rfl, (List.append_nil _).symm⟩

theorem advances_trans (h : s.Advances calls output t) (h' : t.Advances calls' output' u) :
    s.Advances (calls ++ calls') (output ++ output') u where
  messageHandlers := h'.messageHandlers.trans h.messageHandlers
  readBufSize := h'.readBufSize.trans h.readBufSize
  writeBufSize := h'.writeBufSize.trans h.writeBufSize
  nextPacketId := h'.nextPacketId.trans h.nextPacketId
  messages := h'.messages.trans h.messages
  handed := by rw [h'.handed, h.handed, List.reverse_append, List.append_assoc]
  output := by rw [h'.output, h.output, List.append_assoc]

theorem advances_idle_left (h : s.Advances [] [] t) (h' : t.Advances calls output u) :
    s.Advances calls output u := by
  simpa only [List.nil_append] using advances_trans h h'

theorem advances_idle_right (h : s.Advances calls output t) (h' : t.Advances [] [] u) :
    s.Advances calls output u := by
  simpa only [List.append_nil] using advances_trans h h'

/-- Whatever is recorded that is neither a call of a handler nor a write. -/
theorem advances_log (w : World) {e : Event} (hcall : e.delivery = none)
    (hwrite : e.write? = none) : w.Advances [] [] (w.log e) where
  messageHandlers := rfl
  readBufSize := rfl
  writeBufSize := rfl
  nextPacketId := rfl
  messages := rfl
  handed := List.filterMap_cons_none hcall
  output := by
    change Trace.output ([e] ++ w.trace) = _
    rw [output_append, output_of_forall fun e' he' => List.mem_singleton.mp he' ▸ hwrite]

/-- A step that changes nothing but the state. -/
theorem advances_setState (w : World) (new : ClientState) :
    w.Advances [] [] (w.onClient fun c => { c with clientState := new }) :=
  ⟨rfl, rfl, rfl, rfl, rfl, rfl, (List.append_nil _).symm⟩

theorem advances_granted (w : World) (change : StateChange) (expected new : ClientState) :
    w.Advances [] [] (w.granted change expected new) :=
  advances_trans (advances_setState w new) (advances_log _ rfl rfl)

/-- Another packet in the transmit buffer. -/
theorem advances_serialized (w : World) (packet : List UInt8) :
    w.Advances [] [] (w.onClient fun c => { c with writeBuf := c.writeBuf.store 0 packet }) :=
  ⟨rfl, rfl, rfl, rfl, rfl, rfl, (List.append_nil _).symm⟩

/-- What has been done under a parameter block, when the block has been taken off again. -/
theorem advances_pop {msg : MessageParams}
    (h : World.Advances calls output { w with messages := msg :: w.messages } t) :
    w.Advances calls output { t with messages := t.messages.tail } where
  messageHandlers := h.messageHandlers
  readBufSize := h.readBufSize
  writeBufSize := h.writeBufSize
  nextPacketId := h.nextPacketId
  messages := congrArg List.tail h.messages
  handed := h.handed
  output := h.output

theorem advances_call (w : World) (name : HandlerName) (topicName payload : List UInt8)
    (data : Nat) :
    w.Advances [⟨name, topicName, payload, data⟩] []
      (w.log (.delivered name topicName payload data)) where
  messageHandlers := rfl
  readBufSize := rfl
  writeBufSize := rfl
  nextPacketId := rfl
  messages := rfl
  handed := rfl
  output := by
    change Trace.output ([Event.delivered name topicName payload data] ++ w.trace) = _
    rw [output_append]
    rfl

theorem advances_write (w : World) (bytes : List UInt8) (rc : IotError) :
    w.Advances [] bytes (w.log (.netWrite bytes rc bytes.length)) where
  messageHandlers := rfl
  readBufSize := rfl
  writeBufSize := rfl
  nextPacketId := rfl
  messages := rfl
  handed := rfl
  output := by
    change Trace.output ([Event.netWrite bytes rc bytes.length] ++ w.trace) = _
    rw [output_append, Trace.output, Trace.output, writes, writes]
    simp [accepted, Event.write?]

/-- Reading calls no handler and writes nothing. -/
theorem advances_of_reads (h : Reads s t) : s.Advances [] [] t := by
  obtain ⟨ev, htrace, hev⟩ := h.trace
  have hcall : ev.handed = [] := handed_of_forall fun e he =>
    Selections.delivery_of_isIo (Event.isIo_of_isReading (hev e he))
  have hwrite : ev.output = [] := output_of_forall fun e he => by
    have hreading := hev e he
    cases e <;> first | rfl | cases hreading
  refine ⟨?_, ?_, ?_, ?_, h.messages, ?_, ?_⟩
  · rw [h.client]
  · rw [h.client]
  · rw [h.client]
  · rw [h.client]
  · rw [htrace, handed_append, hcall]
    rfl
  · rw [htrace, output_append, hwrite]

end Advances

/-! ## Sending a packet -/

theorem run_netWrite (inc : Incoming) (bytes : List UInt8) (r : Reader) (w : World) :
    (netWrite bytes).run inc.answer r w =
      (some (.success, bytes.length), r, w.log (.netWrite bytes .success bytes.length)) := rfl

theorem run_getClient (inc : Incoming) (r : Reader) (w : World) :
    getClient.run inc.answer r w = (some w.client, r, w) := rfl

theorem run_hasTimerExpired (inc : Incoming) (timer : TimerName) (r : Reader) (w : World) :
    (hasTimerExpired timer).run inc.answer r w = (some false, r, w) := rfl

theorem run_sendPacketStep (inc : Incoming) {length : Nat} (timer : TimerName) (hpos : 0 < length)
    (r : Reader) (w : World) :
    (sendPacketStep length timer 0).run inc.answer r w = (some (.inl length), r,
      w.log (.netWrite (w.client.writeBuf.load 0 length) .success length)) := by
  have hcount : (some (Sum.inl (0 + length)) : Option (Nat ⊕ Nat)) = some (.inl length) := by
    rw [Nat.zero_add]
  rw [sendPacketStep, if_pos hpos, run_bind_of_some _ (run_hasTimerExpired inc timer r w),
    if_neg (by decide), run_bind_of_some _ (run_getClient inc r w),
    run_bind_of_some _ (run_netWrite inc _ r w), Memory.length_load, ← hcount]
  rfl

/-- A packet that is shorter than the buffer is written with one write. -/
theorem ends_internalSendPacket (inc : Incoming) {fuel length : Nat} {r : Reader} {w : World}
    (timer : TimerName) (hpos : 0 < length) (hroom : length < w.client.writeBufSize)
    (hfuel : 2 ≤ fuel) :
    (internalSendPacket fuel length timer).Ends inc.answer
      (fun rc r' t => rc = .success ∧ r' = r ∧ t.client = w.client ∧
        w.Advances [] (w.client.writeBuf.load 0 length) t) r w := by
  obtain ⟨fuel, rfl⟩ : ∃ n, fuel = n + 2 := ⟨fuel - 2, by omega⟩
  generalize hbytes : w.client.writeBuf.load 0 length = bytes
  have hlength : bytes.length = length := by
    rw [← hbytes]
    exact Memory.length_load _ _ _
  generalize hwritten : w.log (.netWrite bytes .success length) = t
  have hloop : (Program.loop (sendPacketStep length timer) (fuel + 2) 0).run inc.answer r w =
      (some length, r, t) := by
    rw [Program.loop, run_bind_of_some _ (run_sendPacketStep inc timer hpos r w), hbytes, hwritten]
    simp only [Program.loop, sendPacketStep, if_neg (Nat.lt_irrefl length)]
    rfl
  have hadvances : w.Advances [] bytes t := by
    rw [← hwritten, ← hlength]
    exact advances_write w bytes .success
  have hclient : t.client = w.client := by
    rw [← hwritten]
    rfl
  refine ⟨.success, r, t.log (.sent (t.client.writeBuf.load 0 length)), ?_, rfl, rfl, hclient, ?_⟩
  · rw [internalSendPacket, run_bind_of_some _ (run_getClient inc r w),
      if_neg (Nat.not_le.mpr hroom), run_bind_of_some _ (inc.run_lockMutex _ _ _), onSuccess,
      if_pos rfl, run_bind_of_some _ hloop, run_bind_of_some _ (inc.run_unlockMutex _ _ _),
      onSuccess, if_pos rfl, if_pos rfl]
    rfl
  · have hsent : t.Advances [] [] (t.log (.sent (t.client.writeBuf.load 0 length))) :=
      advances_log t rfl rfl
    exact advances_idle_right hadvances hsent

theorem ends_serialized {inc : Incoming} {make : Client → Except IotError (List UInt8)}
    {next : Nat → M IotError} {Φ : IotError → Reader → World → Prop} {packet : List UInt8}
    {r : Reader} {w : World} (hmake : make w.client = .ok packet)
    (hnext : (next packet.length).Ends inc.answer Φ r
      (w.onClient fun c => { c with writeBuf := c.writeBuf.store 0 packet })) :
    (serialized make next).Ends inc.answer Φ r w := by
  unfold serialized
  apply ends_atomically_bind
  rw [id_eq, hmake]
  exact ends_modify_bind hnext

/-- A packet goes out as it was serialized. -/
theorem ends_sendSerialized (inc : Incoming) {fuel : Nat} {packet : List UInt8} {r : Reader}
    {w : World} (timer : TimerName) (hpos : 0 < packet.length)
    (hroom : packet.length < w.client.writeBufSize) (hword : packet.length < 2 ^ 32)
    (hfuel : 2 ≤ fuel) :
    (internalSendPacket fuel (packet.length % 2 ^ 32) timer).Ends inc.answer
      (fun rc r' t => rc = .success ∧ r' = r ∧ t.client.clientState = w.client.clientState ∧
        w.Advances [] packet t) r
      (w.onClient fun c => { c with writeBuf := c.writeBuf.store 0 packet }) := by
  rw [Nat.mod_eq_of_lt hword]
  have hadvances := advances_serialized w packet
  generalize hstored : w.onClient _ = v at hadvances
  have hload : v.client.writeBuf.load 0 packet.length = packet := by
    rw [← hstored]
    exact Memory.load_store _ 0 _
  have hstate : v.client.clientState = w.client.clientState := by
    rw [← hstored]
    rfl
  have hsends := ends_internalSendPacket inc (r := r) timer hpos
    (hadvances.writeBufSize ▸ hroom) hfuel
  rw [hload] at hsends
  apply hsends.mono
  rintro rc r' t ⟨rfl, rfl, hclient, hsent⟩
  exact ⟨rfl, rfl, hclient ▸ hstate, advances_idle_left hadvances hsent⟩

theorem ends_acknowledge (inc : Incoming) {fuel : Nat} {r : Reader} {w : World}
    (timer : TimerName) (id : UInt16) (hroom : 4 < w.client.writeBufSize) (hfuel : 2 ≤ fuel) :
    (serialized (fun c => serializeAck c.writeBufSize .puback 0 id) fun len =>
      internalSendPacket fuel (len % 2 ^ 32) timer).Ends inc.answer
      (fun rc r' t => rc = .success ∧ r' = r ∧ t.client.clientState = w.client.clientState ∧
        w.Advances [] (pubackBytes id) t) r w := by
  have hlength : (pubackBytes id).length = 4 := rfl
  have hmake : serializeAck w.client.writeBufSize .puback 0 id = .ok (pubackBytes id) := by
    rw [serializeAck, if_neg (by omega)]
    rfl
  apply ends_serialized hmake
  apply ends_sendSerialized inc timer _ _ _ hfuel
  · rw [hlength]
    decide
  · rwa [hlength]
  · rw [hlength]
    decide

/-! ## Calling the handlers -/

section Delivering

variable {call : Call → M IotError} {f : PublishFields} {fuel : Nat} {r : Reader} {w : World}

/-- The block on top says where the payload is. -/
def PointsTo (f : PublishFields) (w : World) : Prop :=
  ∃ msg rest, w.messages = msg :: rest ∧ msg.payloadOff = f.payloadOff ∧
    msg.payloadLen = f.payloadLen

/-- A handler that makes no call returns. -/
theorem run_handler (inc : Incoming) (fuel : Nat) (call : Call → M IotError) (name : HandlerName)
    (r : Reader) (w : World) :
    (framed (.handler name) do
        application (fuel + 1) call
        return .success).run inc.answer r w =
      (some .success, r, (w.log (.enter (.handler name))).log (.leave (.handler name) .success)) :=
  rfl

theorem ends_callHandler (inc : Incoming) {i : Nat} (hpoints : PointsTo f w)
    (hreceives : (w.client.messageHandlers.slot i).receives
      (w.client.readBuf.load f.topicOff f.topicNameLen.toNat) f.topicNameLen = true) :
    (callHandler (fuel + 1) call (w.client.messageHandlers.slot i) f.topicOff f.topicNameLen).Ends
      inc.answer (fun _ r' t => r' = r ∧ t.client = w.client ∧
        w.Advances (w.offer f i).toList [] t) r w := by
  rw [World.offer, MessageHandler.delivery, if_pos hreceives]
  unfold callHandler
  cases (w.client.messageHandlers.slot i).applicationHandler with
  | none => exact ends_ret ⟨rfl, rfl, advances_refl w⟩
  | some name =>
      obtain ⟨msg, rest, hmessages, hoff, hlen⟩ := hpoints
      apply ends_modify_bind
      rw [hmessages, ← hoff, ← hlen]
      refine ⟨(), r, _, run_bind_of_some _ (run_handler inc fuel call name r _), rfl, rfl, ?_⟩
      apply advances_idle_right (advances_call w name _ _ _)
      exact advances_idle_right (advances_log _ rfl rfl) (advances_log _ rfl rfl)

/-- The slots are gone through in their order. -/
theorem ends_deliverMessageLoop (inc : Incoming) (remaining : Nat)
    (hremaining : remaining ≤ numSubscribeHandlers) (hpoints : PointsTo f w) :
    (deliverMessageLoop (fuel + 1) call f.topicOff f.topicNameLen remaining).Ends inc.answer
      (fun _ r' t => r' = r ∧ t.client = w.client ∧
        w.Advances ((List.range' (numSubscribeHandlers - remaining) remaining).filterMap
          (w.offer f)) [] t) r w := by
  induction remaining generalizing r w with
  | zero => exact ends_ret ⟨rfl, rfl, advances_refl w⟩
  | succ remaining ih =>
      have hnext : numSubscribeHandlers - (remaining + 1) + 1 =
          numSubscribeHandlers - remaining := by
        omega
      -- the first slot's call, if it gets one, comes in front of the others
      have hcalls : (List.range' (numSubscribeHandlers - (remaining + 1)) (remaining + 1)).filterMap
          (w.offer f) = (w.offer f (numSubscribeHandlers - (remaining + 1))).toList ++
            (List.range' (numSubscribeHandlers - remaining) remaining).filterMap (w.offer f) := by
        rw [List.range'_succ, hnext, List.filterMap_eq_flatMap_toList, List.flatMap_cons,
          ← List.filterMap_eq_flatMap_toList]
      rw [hcalls]
      unfold deliverMessageLoop
      apply ends_atomically_bind
      simp only
      split
      next hreceives =>
        apply (ends_callHandler inc hpoints hreceives).bind
        rintro _ r' t ⟨rfl, hclient, hadvances⟩
        have hpoints' : PointsTo f t := by
          rw [PointsTo, hadvances.messages]
          exact hpoints
        have hoffer : t.offer f = w.offer f := by
          funext j
          rw [World.offer, World.offer, hclient]
        apply (ih (Nat.le_of_succ_le hremaining) hpoints').mono
        rintro _ r'' u ⟨rfl, hclient', hadvances'⟩
        rw [hoffer] at hadvances'
        exact ⟨rfl, hclient'.trans hclient, advances_trans hadvances hadvances'⟩
      next hreceives =>
        have hnone : w.offer f (numSubscribeHandlers - (remaining + 1)) = none := by
          rw [World.offer, MessageHandler.delivery, if_neg hreceives]
        rw [hnone]
        exact ih (Nat.le_of_succ_le hremaining) hpoints

theorem run_setClientState (inc : Incoming) (change : StateChange) {expected : ClientState}
    (new : ClientState) (r : Reader) (h : w.client.clientState = expected) :
    (setClientState change expected new).run inc.answer r w =
      (some .success, r, w.granted change expected new) := by
  simp only [setClientState, Program.atomically, run_act, if_pos h, run_ret]

theorem ends_internalDeliverMessage (inc : Incoming) (hpoints : PointsTo f w) :
    (internalDeliverMessage (fuel + 1) call f.topicOff f.topicNameLen).Ends inc.answer
      (fun rc r' t => rc = .success ∧ r' = r ∧ t.client = w.client ∧
        w.Advances ((List.range numSubscribeHandlers).filterMap (w.offer f)) [] t) r w := by
  unfold internalDeliverMessage
  apply ends_atomically_bind
  apply ends_bind_of_run (run_setClientState inc .other .connectedWaitForCbReturn r rfl)
  have hpoints' : PointsTo f
      (w.granted .other w.client.clientState .connectedWaitForCbReturn) := hpoints
  apply (ends_deliverMessageLoop inc numSubscribeHandlers (Nat.le_refl _) hpoints').bind
  rintro _ r' t ⟨rfl, hclient, hadvances⟩
  have hstate : t.client.clientState = .connectedWaitForCbReturn := by
    rw [hclient]
    rfl
  refine ⟨_, _, _, run_setClientState inc .other _ _ hstate, rfl, rfl, ?_, ?_⟩
  · change { t.client with clientState := w.client.clientState } = w.client
    rw [hclient]
    rfl
  · rw [Nat.sub_self, ← List.range_eq_range'] at hadvances
    apply advances_idle_left (advances_granted w .other _ _)
    exact advances_idle_right hadvances (advances_granted t .other _ _)

/-- What a handler would be called with, for a packet that lies in the receive buffer. -/
theorem offer_eq_delivery {p : PublishPacket} (hin : p.IsIn w.client.readBuf w.client.readBufSize)
    (hholds : p.HoldsFields) (i : Nat) : w.offer (p.found w.client.readBuf) i =
      (w.client.messageHandlers.slot i).delivery p.topicName p.topicNameLen p.payload :=
  Selections.offer_start hin hholds i

theorem ends_internalHandlePublish {p : PublishPacket} (inc : Incoming) (timer : TimerName)
    (hin : p.IsIn w.client.readBuf w.client.readBufSize) (hholds : p.HoldsFields)
    (hack : 4 < w.client.writeBufSize) (hfuel : 2 ≤ fuel) :
    (internalHandlePublish fuel call timer).Ends inc.answer
      (fun rc r' t => rc = .success ∧ r' = r ∧ t.client.clientState = w.client.clientState ∧
        w.Advances (p.calls w.client.messageHandlers) p.acknowledgement t) r w := by
  obtain ⟨fuel, rfl⟩ : ∃ n, fuel = n + 1 := ⟨fuel - 1, by omega⟩
  unfold internalHandlePublish
  apply ends_atomically_bind
  rw [id_eq, PublishPacket.deserializePublish_of_holdsFields hin hholds]
  apply ends_modify_bind
  have hpoints : PointsTo (p.found w.client.readBuf)
      { w with messages := p.message w.client.readBuf :: w.messages } := ⟨_, _, rfl, rfl, rfl⟩
  apply (ends_internalDeliverMessage inc hpoints).bind
  rintro rc r' t ⟨rfl, rfl, hclient, hadvances⟩
  apply ends_atomically_bind
  -- the delivery has left the message on the stack
  have hmsg (d : MessageParams) : t.messages.headD d = p.message w.client.readBuf := by
    rw [hadvances.messages]
    rfl
  have hpopped := advances_pop hadvances
  have hstate : t.client.clientState = w.client.clientState := by rw [hclient]
  have hcalls : (List.range numSubscribeHandlers).filterMap
      (World.offer { w with messages := p.message w.client.readBuf :: w.messages }
        (p.found w.client.readBuf)) = p.calls w.client.messageHandlers :=
    List.filterMap_congr fun i _ => offer_eq_delivery hin hholds i
  rw [hcalls] at hpopped
  rw [onSuccess, if_pos rfl, hmsg, PublishPacket.acknowledgement]
  change Program.Ends _ (if headerQos p.header = qos0 then _ else _) _ _ _
  split
  next => exact ends_ret ⟨rfl, rfl, hstate, hpopped⟩
  next hqos =>
    have hid : (p.message w.client.readBuf).id = p.packetId.getD 0 :=
      congrArg (Option.getD · 0) (PublishPacket.packetId_found hin hholds)
    rw [hid]
    have hroom : 4 < t.client.writeBufSize := by
      rw [hclient]
      exact hack
    have hacks := ends_acknowledge inc (r := r') (w := { t with messages := t.messages.tail })
      timer (p.packetId.getD 0) hroom hfuel
    apply hacks.mono
    rintro rc r'' u ⟨rfl, rfl, hstate', hadvances'⟩
    refine ⟨rfl, rfl, hstate'.trans hstate, ?_⟩
    simpa only [List.append_nil, List.nil_append] using advances_trans hpopped hadvances'

end Delivering

/-! ## Reading -/

section Reading

variable {stream : Memory} {call : Call → M IotError} {fuel : Nat} {r : Reader} {w : World}

/-- The packet at the reader's position is read into the buffer. -/
theorem ends_internalReadPacket {p : ControlPacket}
    (hfits : p.canonical.length ≤ w.client.readBufSize) (henough : p.bytes.length ≤ fuel)
    (hstream : stream.load r.bytes p.bytes.length = p.bytes) :
    (internalReadPacket fuel).Ends (Incoming.ofStream stream).answer
      (fun res r' t => Reads w t ∧ res = .ok (headerType p.header) ∧
        r'.bytes = r.bytes + p.bytes.length ∧
          t.client.readBuf.load 0 p.canonical.length = p.canonical) r w := by
  have hsize : 0 < w.client.readBufSize := Nat.lt_of_lt_of_le (Nat.succ_pos _) hfits
  obtain ⟨res, reads, t, hrun, -, hread⟩ := Incoming.run_internalReadPacket w hsize henough hstream
  obtain ⟨hres, hload⟩ := hread.stored hfits
  exact Within.ends .refl (fun _ _ _ => .trans) (onlyReads_internalReadPacket fuel)
    ⟨res, _, t, hrun, hres, rfl, hload⟩

/-- A turn of reading: the packet at the reader's position is read and dispatched. -/
theorem ends_internalCycleRead {p : ControlPacket} {Φ : IotError → Reader → World → Prop}
    (timer : TimerName) (hfits : p.canonical.length ≤ w.client.readBufSize)
    (henough : p.bytes.length ≤ fuel) (hstream : stream.load r.bytes p.bytes.length = p.bytes)
    (hdispatch : ∀ r' t, Reads w t → r'.bytes = r.bytes + p.bytes.length →
      t.client.readBuf.load 0 p.canonical.length = p.canonical →
      (dispatchPacket fuel call timer (headerType p.header)).Ends
        (Incoming.ofStream stream).answer Φ r' t) :
    (internalCycleRead fuel call timer).Ends (Incoming.ofStream stream).answer
      (fun res r' t => res.2 = some (headerType p.header) ∧ Φ res.1 r' t) r w := by
  unfold internalCycleRead
  apply ends_bind_of_run ((Incoming.ofStream stream).run_lockMutex _ _ _)
  rw [if_neg (not_not.mpr rfl)]
  apply (ends_internalReadPacket hfits henough hstream).bind
  rintro res r' t ⟨hreads, rfl, hbytes, hload⟩
  apply ends_bind_of_run ((Incoming.ofStream stream).run_unlockMutex _ _ _)
  simp only
  rw [if_neg (not_not.mpr rfl)]
  apply (hdispatch r' t hreads hbytes hload).bind
  exact fun rc r'' u hu => ends_ret ⟨rfl, hu⟩

/-- A message is read, handed to its handlers and acknowledged. -/
theorem ends_internalCycleRead_publish {p : PublishPacket} (timer : TimerName)
    (hfits : p.FitsIn w.client) (henough : p.bytes.length ≤ fuel)
    (hstream : stream.load r.bytes p.bytes.length = p.bytes) :
    (internalCycleRead fuel call timer).Ends (Incoming.ofStream stream).answer
      (fun res r' t => res = (.success, some MessageType.publish.code) ∧
        r'.bytes = r.bytes + p.bytes.length ∧
          t.client.clientState = w.client.clientState ∧
            w.Advances (p.calls w.client.messageHandlers) p.acknowledgement t) r w := by
  have hfuel : 2 ≤ fuel := by
    have hbody := hfits.holdsFields.1
    rw [p.length_bytes] at henough
    omega
  refine (ends_internalCycleRead (Φ := fun rc r' t => rc = .success ∧
    r'.bytes = r.bytes + p.bytes.length ∧ t.client.clientState = w.client.clientState ∧
      w.Advances (p.calls w.client.messageHandlers) p.acknowledgement t)
    timer hfits.readBuf henough hstream ?_).mono ?_
  rotate_left
  · rintro ⟨rc, type⟩ r' t ⟨htype, hrc, hrest⟩
    rw [p.isPublish] at htype
    exact ⟨Prod.ext hrc htype, hrest⟩
  · intro r' t hreads hbytes hload
    have hadvances := advances_of_reads hreads
    have hin : p.shortest.IsIn t.client.readBuf t.client.readBufSize :=
      ⟨hadvances.readBufSize ▸ hfits.readBuf, hload⟩
    rw [p.isPublish, dispatchPacket, MessageType.ofNibble_code]
    apply (ends_internalHandlePublish (r := r') (Incoming.ofStream stream) timer hin
      hfits.holdsFields (hadvances.writeBufSize ▸ hfits.writeBuf) hfuel).mono
    rintro rc r'' u ⟨hrc, rfl, hstate, hadvances'⟩
    rw [hadvances.messageHandlers] at hadvances'
    refine ⟨hrc, hbytes, hstate.trans ?_, advances_idle_left hadvances hadvances'⟩
    rw [hreads.client]

theorem fitsIn_of_advances {calls : List Delivery} {output : List UInt8} {p : PublishPacket}
    {t : World} (h : p.FitsIn w.client) (hadvances : w.Advances calls output t) :
    p.FitsIn t.client where
  holdsFields := h.holdsFields
  readBuf := hadvances.readBufSize ▸ h.readBuf
  writeBuf := hadvances.writeBufSize ▸ h.writeBuf

end Reading

end Exchange

/-- Successive turns of reading, and what each of them answers. -/
def cycleReads (fuel : Nat) (call : Call → M IotError) (timer : TimerName) :
    Nat → M (List (IotError × Option UInt8))
  | 0 => return []
  | turns + 1 => do
      let res ← internalCycleRead fuel call timer
      let rest ← cycleReads fuel call timer turns
      return res :: rest

/-- One message after the other is read, handed once to each of its handlers and
acknowledged. -/
theorem ends_cycleReads {stream : Memory} {fuel : Nat} {r : Reader} {w : World}
    (call : Call → M IotError) (timer : TimerName) (packets : List PublishPacket)
    (hfits : ∀ p ∈ packets, p.FitsIn w.client) (henough : ∀ p ∈ packets, p.bytes.length ≤ fuel)
    (hstream : stream.load r.bytes (packets.flatMap (·.bytes)).length =
      packets.flatMap (·.bytes)) :
    (cycleReads fuel call timer packets.length).Ends (Incoming.ofStream stream).answer
      (fun results r' t =>
        results = List.replicate packets.length (.success, some MessageType.publish.code) ∧
          r'.bytes = r.bytes + (packets.flatMap (·.bytes)).length ∧
            t.client.clientState = w.client.clientState ∧
              w.Advances (packets.flatMap (·.calls w.client.messageHandlers))
                (packets.flatMap (·.acknowledgement)) t) r w := by
  induction packets generalizing r w with
  | nil => exact ends_ret ⟨rfl, rfl, rfl, Exchange.advances_refl w⟩
  | cons p packets ih =>
      rw [List.flatMap_cons, List.length_append, Memory.load_add] at hstream
      obtain ⟨hfirst, hrest⟩ := List.append_inj hstream (Memory.length_load _ _ _)
      have hp : p ∈ p :: packets := List.mem_cons_self
      apply (Exchange.ends_internalCycleRead_publish timer (hfits p hp) (henough p hp) hfirst).bind
      rintro res r' t ⟨rfl, hbytes, hstate, hadvances⟩
      have hfits' : ∀ q ∈ packets, q.FitsIn t.client := fun q hq =>
        Exchange.fitsIn_of_advances (hfits q (List.mem_cons_of_mem p hq)) hadvances
      rw [← hbytes] at hrest
      apply (ih hfits' (fun q hq => henough q (List.mem_cons_of_mem p hq)) hrest).bind
      rintro results r'' u ⟨rfl, hbytes', hstate', hadvances'⟩
      rw [hadvances.messageHandlers] at hadvances'
      refine ends_ret ⟨rfl, ?_, hstate'.trans hstate, Exchange.advances_trans hadvances hadvances'⟩
      rw [hbytes', hbytes, List.flatMap_cons, List.length_append, Nat.add_assoc]

end MqttClient
