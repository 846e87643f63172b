import MqttClient.Session.Nesting
import MqttClient.Session.Records
import MqttClient.Wire.Identifiers

/-! # Requests and their acknowledgements

A request waits for a packet of the type that acknowledges it. Whether the
packet that comes is the acknowledgement of this very request is left to the
broker: the identifier in it is decoded, and not compared with anything.
-/

namespace MqttClient

open Effect Program

/-- A packet of this type in the receive buffer can be taken apart. -/
def Client.takesApart (c : Client) : MessageType → Bool
  | .puback => (deserializeAck c.readBuf c.readBufSize).isOk
  | .suback => (deserializeSuback c.readBuf c.readBufSize 1).isOk
  | .unsuback => (deserializeUnsuback c.readBuf c.readBufSize).isOk
  | _ => false

/-- The client with the rest of a packet stored behind the length field. -/
def Client.withBody (c : Client) (bytes : List UInt8) : Client :=
  { c with readBuf := c.readBuf.store (1 + (writeLenToBuffer bytes.length).length) bytes }

/-- The type of packet that is being waited for, and the packet sent before the wait. -/
def World.awaited (w : World) : Option (MessageType × List UInt8) :=
  match w.trace.opened with
  | (.waiting packetType, .sent packet :: _) :: _ => some (packetType, packet)
  | _ => none

/-- An acknowledgement that comes while the client waits for one of its type
carries the identifier of the request. -/
def acknowledgesInTurn : (q : Query) → World → Answer q → Bool := fun q =>
  match q with
  | .netRead .body n => fun w (r : ReadResult n) =>
      match w.awaited with
      | none => true
      | some (packetType, packet) =>
          r.rc ≠ .success || headerType (w.client.readBuf 0) ≠ packetType.code ||
            !(w.client.withBody r.bytes).takesApart packetType ||
            leadingUint16 r.bytes = packetIdentifier packet
  | _ => fun _ _ => true

/-- A call made at `w` has sent a packet, its first one, and in the wait that
followed it has read a packet of this type with the same identifier. -/
def Acknowledged (packetType : MessageType) (w w' : World) : Prop :=
  ∃ (newer reading older : Trace) (packet bytes : List UInt8) (off len n : Nat) (id : UInt16),
    w'.trace = newer ++ .received packetType :: .stored off len ::
      .netRead .body n .success bytes :: reading ∧
    reading.opened.head? = some (.waiting packetType, .sent packet :: (older ++ w.trace)) ∧
    (∀ e ∈ older, e.isSent = false) ∧ packetIdentifier packet = some id ∧
    leadingUint16 bytes = some id

/-- The acknowledgement that a call needs, for the calls that need one. -/
def World.acknowledgement (w : World) : Call → Option MessageType
  | .publish _ _ (some arg) =>
      match w.publishParams arg with
      | some params => if params.qos = qos1 then some .puback else none
      | none => none
  | .subscribe _ _ _ _ _ => some .suback
  | .unsubscribe _ _ => some .unsuback
  | _ => none

theorem Acknowledged.later {packetType : MessageType} {w s t : World}
    (h : Acknowledged packetType w s) (hst : s.trace <:+ t.trace) :
      Acknowledged packetType w t := by
  obtain ⟨newer, reading, older, packet, bytes, off, len, n, id, htrace, hrest⟩ := h
  obtain ⟨newest, hnewest⟩ := hst
  refine ⟨newest ++ newer, reading, older, packet, bytes, off, len, n, id, ?_, hrest⟩
  rw [← hnewest, htrace, List.append_assoc]

namespace Acknowledgements

abbrev policy : Policy := fun q w a => acknowledgesInTurn q w a = true

abbrev discipline : Discipline World Answer := observed policy fun _ _ => True

/-- The program returns to the calls that were in progress. -/
abbrev Returning {α : Type} (p : M α) : Prop :=
  Kept (fun _ _ => True) policy (fun _ _ => True) (fun _ => True) Extends p

/-! ## Reading an acknowledgement -/

/-- A packet whose length field says 0 or 1 is no acknowledgement. -/
theorem takesApart_of_short {c : Client} {n : Nat} (packetType : MessageType)
    (hbyte : c.readBuf 1 = UInt8.ofNat n) (h : n < 2) : c.takesApart packetType = false := by
  have hn : (UInt8.ofNat n).toNat = n := by
    rw [UInt8.toNat_ofNat', Nat.mod_eq_of_lt (by omega)]
  have hlen : decodeRemainingLengthFromBuffer c.readBuf 1 = .ok (n, 1) := by
    simp only [decodeRemainingLengthFromBuffer, maxNoOfRemainingLengthBytes,
      decodeLenLoop, hbyte, hn]
    rw [if_pos (by omega), Nat.zero_add, Nat.mul_one, Nat.mod_eq_of_lt (by omega),
      Nat.mod_eq_of_lt (by omega)]
  cases packetType with
  | puback =>
      simp only [Client.takesApart, deserializeAck, hlen]
      split <;> simp [h, Bind.bind, Except.bind, Except.isOk, Except.toBool]
  | suback =>
      simp only [Client.takesApart, deserializeSuback, hlen]
      split
      · rfl
      · split <;> simp [h, Bind.bind, Except.bind, Except.isOk, Except.toBool]
  | unsuback =>
      simp only [Client.takesApart, deserializeUnsuback, deserializeAck, hlen]
      split <;> simp [h, Bind.bind, Except.bind, Except.isOk, Except.toBool]
  | _ => rfl

section Waiting

variable {call : Call → M IotError} {packetType : MessageType} {packet : List UInt8}

/-- The packet just read acknowledges the one that was sent. -/
def Answered (packetType : MessageType) (packet : List UInt8) (s t : World) : Prop :=
  ∃ (reading : Trace) (bytes : List UInt8) (off len n : Nat) (id : UInt16),
    t.trace = .received packetType :: .stored off len :: .netRead .body n
    .success bytes :: reading ∧
    reading.opened = s.trace.opened ∧ packetIdentifier packet = some id ∧
    leadingUint16 bytes = some id

theorem awaited_of_opened {s t : World} (h : t.trace.opened = s.trace.opened) :
    t.awaited = s.awaited := by
  simp only [World.awaited, h]

/-- The body that is stored does not touch the header or the first byte of the length. -/
theorem withBody_apply (c : Client) (bytes : List UInt8) {i : Nat} (h : i < 2) :
    (c.withBody bytes).readBuf i = c.readBuf i := by
  apply Memory.store_apply_of_lt
  have := length_writeLenToBuffer_pos bytes.length
  omega

theorem wp_readPacketBody (remLen : Nat) {s : World} (hs : s.awaited = some (packetType, packet)) :
    wp discipline (readPacketBody remLen)
      (fun r t => r = .ok packetType.code → t.client.takesApart packetType = true →
        Answered packetType packet s t) s := by
  let field := writeLenToBuffer remLen
  let u := s.withLength field
  have hopened : u.trace.opened = s.trace.opened := rfl
  have hfield : remLen < 2 → u.client.readBuf 1 = UInt8.ofNat remLen := by
    intro h
    have hfield : field = [UInt8.ofNat remLen] := writeLenToBuffer_of_lt (by omega)
    have hstored : u.client.readBuf = s.client.readBuf.store 1 field := rfl
    rw [hstored, hfield]
    rfl
  simp only [readPacketBody, wp_bind, wp_modify, solo_guar, true_and]
  unfold readRemaining
  split
  next hpos =>
    simp only [netReadToBuffer, wp_bind, wp_query, solo_pre, solo_allow, wp_modify, solo_guar,
      true_and, pure_eq, wp_ret]
    intro r hr
    split
    next hrc =>
      simp only [wp_bind, wp_getClient, wp_emit, true_and, wp_ret]
      intro htype happart
      have hlength := ReadResult.length_bytes_of_success hrc
      let v := u.filled .body (1 + field.length) r
      have hclient : v.client = u.client.withBody r.bytes := by
        simp only [v, World.filled, Client.withBody, hlength]
        rfl
      change v.client.takesApart packetType = true at happart
      change Except.ok (headerType (v.client.readBuf 0)) = _ at htype
      rw [hclient] at happart htype
      rw [withBody_apply _ _ (by decide)] at htype
      have htype' : headerType (u.client.readBuf 0) = packetType.code := Except.ok.inj htype
      -- a body of one byte could not be taken apart
      have hshort : 2 ≤ remLen := by
        by_contra hlt
        have hbyte : (u.client.withBody r.bytes).readBuf 1 = UInt8.ofNat remLen := by
          rw [withBody_apply _ _ (by decide), hfield (by omega)]
        rw [takesApart_of_short packetType hbyte (by omega)] at happart
        cases happart
      -- by the policy, an awaited acknowledgement has the identifier of its request
      have hsame : leadingUint16 r.bytes = packetIdentifier packet := by
        have hawaited : u.awaited = some (packetType, packet) := hs
        have hr' : acknowledgesInTurn (.netRead .body remLen) u r = true := hr
        simpa [acknowledgesInTurn, hawaited, hrc, htype', happart] using hr'
      obtain ⟨id, hid⟩ := Option.isSome_iff_exists.mp (leadingUint16_isSome (hlength ▸ hshort))
      refine ⟨u.trace, r.bytes, 1 + field.length, r.bytes.length, remLen, id, ?_, rfl,
        hsame ▸ hid, hid⟩
      have hreceived : MessageType.ofNibble (headerType (v.client.readBuf 0)) = packetType := by
        rw [hclient, withBody_apply _ _ (by decide), htype', MessageType.ofNibble_code]
      change .received (MessageType.ofNibble (headerType (v.client.readBuf 0))) :: v.trace = _
      rw [hreceived]
      simp only [v, World.filled, World.trace_log, hrc, World.trace_onClient]
    next => rintro ⟨⟩
  next hzero =>
    simp only [pure_eq, wp_ret, if_true, wp_bind, wp_getClient, wp_emit, true_and]
    intro htype happart
    change u.client.takesApart packetType = true at happart
    rw [takesApart_of_short packetType (hfield (by omega)) (by omega)] at happart
    cases happart

theorem wp_internalReadPacket (fuel : Nat) {s : World}
    (hs : s.awaited = some (packetType, packet)) :
    wp discipline (internalReadPacket fuel)
      (fun r t => r = .ok packetType.code → t.client.takesApart packetType = true →
        Answered packetType packet s t) s := by
  apply wp_mono (Φ := fun r t => ∀ type, r = .ok type → type = packetType.code →
    t.client.takesApart packetType = true → Answered packetType packet s t)
  · exact fun _ _ h hr => h _ hr rfl
  · apply MqttClient.wp_internalReadPacket
    intro remLen t ht
    have hopened := ht.io.extends.opened
    apply wp_mono _ (wp_readPacketBody remLen ((awaited_of_opened hopened).trans hs))
    rintro r u hu type hr rfl hapart
    obtain ⟨reading, bytes, off, len, n, id, htrace, hreading, hrest⟩ := hu hr hapart
    exact ⟨reading, bytes, off, len, n, id, htrace, hreading.trans hopened, hrest⟩

variable (hcall : ∀ c, Returning (call c)) (hack : packetType.isAck = true)

include hcall hack

/-- A wait that succeeds has read its acknowledgement last. -/
theorem wp_internalWaitForRead (fuel : Nat) {s : World} {before : Trace}
    (hs : s.trace = .sent packet :: before) :
    wp discipline (internalWaitForRead fuel call packetType)
      (fun rc t => rc = .success → t.client.takesApart packetType = true →
        ∃ u rc', Answered packetType packet (s.log (.enter (.waiting packetType))) u ∧
          t = u.log (.leave (.waiting packetType) rc')) s := by
  let s' := s.log (.enter (.waiting packetType))
  have hs' : s'.awaited = some (packetType, packet) := by
    simp only [s', World.awaited, World.trace_log, Trace.opened, hs]
  let found (u : World) : Prop :=
    u.client.takesApart packetType = true → Answered packetType packet s' u
  have hcycle (t : World) (ht : Extends s' t) :
      wp discipline (internalCycleRead fuel call .command)
        (fun r u => Extends s' u ∧ (r.2 = some packetType.code → found u)) t := by
    refine wp_and (wp_mono (fun r u hu => ht.trans hu.2) (allSteps_extending.internalCycleRead
      (extending_deliver hcall fuel) .command t trivial))
      (wp_internalCycleRead_found hack fuel .command fun u hu => ?_)
    have hopened : u.trace.opened = s'.trace.opened := hu.io.extends.opened.trans ht.opened
    apply wp_mono _ (wp_internalReadPacket fuel ((awaited_of_opened hopened).trans hs'))
    intro r v hv hr hapart
    obtain ⟨reading, bytes, off, len, n, id, htrace, hreading, hrest⟩ := hv hr hapart
    exact ⟨reading, bytes, off, len, n, id, htrace, hreading.trans hopened, hrest⟩
  apply wp_mono _ (wp_internalWaitForRead_found hack fuel hcycle (.refl s'))
  intro rc t ht hrc hapart
  obtain ⟨u, hanswered, rfl⟩ := ht hrc
  exact ⟨u, _, hanswered hapart, rfl⟩

/-! ## Requests -/

variable {w s : World} {fuel : Nat}

/-- A success says that the packet sent since `w` has been acknowledged. -/
abbrev Confirms (packetType : MessageType) (w : World) (rc : IotError) (t : World) : Prop :=
  rc = .success → Acknowledged packetType w t

/-- Send the packet in the transmit buffer, and go on when it has been acknowledged. -/
theorem wp_request {len : Nat} {next : M IotError} (hs : Unsent w s)
    (hnext : ∀ t, (t.client.takesApart packetType = true → Acknowledged packetType w t) →
      wp discipline next (Confirms packetType w) t) :
    wp discipline (internalSendPacket fuel len .command >>= fun rc => onSuccess rc
      (internalWaitForRead fuel call packetType >>= fun rc => onSuccess rc next))
      (Confirms packetType w) s := by
  rw [wp_bind]
  apply wp_mono _ (wp_internalSendPacket_sent fuel len .command s)
  intro rc t ht
  rw [wp_onSuccess]
  refine ⟨fun hrc => ?_, fun hrc h => absurd h hrc⟩
  obtain ⟨u, hwrites, rfl⟩ := ht.1 hrc
  obtain ⟨older, holder, hunsent⟩ := hs.trans hwrites.unsent
  rw [wp_bind]
  apply wp_mono _ (wp_internalWaitForRead hcall hack fuel rfl)
  intro rc v hv
  rw [wp_onSuccess]
  refine ⟨fun hrc => hnext v fun hapart => ?_, fun hrc h => absurd h hrc⟩
  obtain ⟨x, rc', ⟨reading, bytes, off, len, n, id, htrace, hreading, hid, hbytes⟩, rfl⟩ :=
    hv hrc hapart
  refine ⟨[.leave (.waiting packetType) rc'], reading, older, _, bytes, off, len, n, id,
    ?_, ?_, hunsent, hid, hbytes⟩
  · rw [World.trace_log, htrace]
    rfl
  · rw [hreading, ← holder]
    rfl

omit hcall hack in
theorem confirms_exclusively {inProgress : ClientState} {body : M IotError}
    {onRefused : ClientState → IotError → M IotError}
    (hbody : wp discipline body (Confirms packetType w)
      (s.granted .claim s.client.clientState inProgress)) :
    wp discipline (exclusively inProgress body onRefused) (Confirms packetType w) s := by
  simp only [exclusively, wp_bind, wp_isClientConnected, true_and]
  split
  next => rintro ⟨⟩
  next =>
    simp only [wp_bind, wp_getClientState, true_and]
    split
    next => rintro ⟨⟩
    next =>
      -- nobody has changed the state since it was read
      simp only [wp_bind, wp_setClientState, if_true, ne_eq, not_true_eq_false, if_false, true_and]
      apply wp_mono _ hbody
      intro rc t ht
      split
      next =>
        simp only [and_false, if_false]
        exact fun h => (ht h).later (List.suffix_cons _ _)
      next =>
        split
        next => rintro ⟨⟩
        next => exact fun h => (ht h).later (List.suffix_cons _ _)

omit hack in
theorem confirms_internalPublish (topicName : List UInt8) (topicNameLen : UInt16) {arg : PublishArg}
    {params : PublishParams} (hparams : s.publishParams arg = some params)
    (hqos : params.qos = qos1) (hs : Unsent w s) :
    wp discipline (internalPublish fuel call topicName topicNameLen arg)
      (Confirms .puback w) s := by
  simp only [internalPublish, countdown, wp_bind, wp_getClient, wp_emit, wp_atomically, solo_guar,
    true_and]
  have hparams' : (s.log (.countdown .command s.client.commandTimeoutMs)).publishParams arg =
      some params := by
    rw [← hparams]
    cases arg <;> rfl
  rw [hparams']
  simp only [assignPublishId, hqos, if_true, getNextPacketId, wp_bind, wp_atomically, wp_modify,
    solo_guar, true_and, pure_eq, wp_ret]
  apply wp_serialized trivial
  · exact fun rc hrc h =>
      absurd h ((reportsErrors_serializePublish _ _ _ _ _ _ _ _ _).ne_success hrc)
  · intro packet _
    refine ⟨trivial, wp_request hcall rfl ?_ fun t ht => ?_⟩
    · cases arg <;> exact hs.trans (adds_one rfl rfl)
    · simp only [wp_bind, wp_getClient, true_and]
      split
      next hrc => exact fun h => absurd h ((reportsErrors_deserializeAck _ _).ne_success hrc)
      next hok => exact fun _ => ht (by rw [Client.takesApart, hok]; rfl)

omit hack in
theorem confirms_internalSubscribe (topicName : CString) (topicNameLen : UInt16) (qos : QoS)
    (handler : HandlerName) (data : Nat) (hs : Unsent w s) :
    wp discipline (internalSubscribe fuel call topicName topicNameLen qos handler data)
      (Confirms .suback w) s := by
  simp only [internalSubscribe, countdown, getNextPacketId, wp_bind, wp_getClient, wp_emit,
    wp_atomically, solo_guar, true_and]
  apply wp_serialized trivial
  · exact fun rc hrc h => absurd h ((reportsErrors_serializeSubscribe _ _ _ _).ne_success hrc)
  · intro packet _
    refine ⟨trivial, ?_⟩
    simp only [wp_bind, wp_getClient, true_and]
    split
    next => exact nofun
    next =>
      rw [subscribeInSlot, wp_framed]
      refine ⟨trivial, ?_⟩
      apply wp_mono (Φ := Confirms .suback w)
      · exact fun rc t ht => ⟨trivial, fun h => (ht h).later (List.suffix_cons _ _)⟩
      · refine wp_request hcall rfl (hs.trans (adds_two rfl rfl rfl)) fun t ht => ?_
        simp only [wp_bind, wp_getClient, true_and]
        split
        next hrc => exact fun h => absurd h ((reportsErrors_deserializeSuback _ _ _).ne_success hrc)
        next hok =>
          simp only [addSubscription, wp_bind, wp_modifyClient, pure_eq, wp_ret, true_and]
          exact fun _ => (ht (by rw [Client.takesApart, hok]; rfl)).later (List.suffix_refl _)

omit hack in
theorem confirms_internalUnsubscribe (topicFilter : CString) (topicFilterLen : UInt16)
    (hs : Unsent w s) :
    wp discipline (internalUnsubscribe fuel call topicFilter topicFilterLen)
      (Confirms .unsuback w) s := by
  simp only [internalUnsubscribe, wp_bind, wp_getClient, true_and]
  split
  next => exact nofun
  next =>
    simp only [countdown, getNextPacketId, wp_bind, wp_emit, wp_atomically, solo_guar, true_and]
    apply wp_serialized trivial
    · exact fun rc hrc h => absurd h ((reportsErrors_serializeUnsubscribe _ _ _ _).ne_success hrc)
    · intro packet _
      refine ⟨trivial, wp_request hcall rfl (hs.trans (adds_one rfl rfl)) fun t ht => ?_⟩
      simp only [wp_bind, wp_getClient, true_and]
      split
      next hrc => exact fun h => absurd h ((reportsErrors_deserializeUnsuback _ _).ne_success hrc)
      next hok =>
        simp only [removeSubscription, wp_bind, wp_modify, solo_guar, pure_eq, wp_ret, true_and]
        exact fun _ => (ht (by rw [Client.takesApart, hok]; rfl)).later (List.suffix_cons _ _)

omit hack in
theorem confirms_resubscribeSlot (itr : Nat) (hs : Unsent w s) :
    wp discipline (resubscribeSlot fuel call itr) (Confirms .suback w) s := by
  simp only [resubscribeSlot, countdown, getNextPacketId, wp_bind, wp_getClient, wp_emit,
    wp_atomically, solo_guar, true_and]
  split
  next => trivial
  next =>
    apply wp_serialized trivial
    · exact fun rc hrc h => absurd h ((reportsErrors_serializeSubscribe _ _ _ _).ne_success hrc)
    · intro packet _
      refine ⟨trivial, wp_request hcall rfl (hs.trans (adds_one rfl rfl)) fun t ht => ?_⟩
      simp only [wp_bind, wp_getClient, true_and]
      split
      next hrc => exact fun h => absurd h ((reportsErrors_deserializeSuback _ _ _).ne_success hrc)
      next hok => exact fun _ => ht (by rw [Client.takesApart, hok]; rfl)

omit hack in
/-- A call that needs an acknowledgement succeeds only if it has got it. -/
theorem confirms_perform {c : Call} (hc : s.acknowledgement c = some packetType) (hs : Unsent w s) :
    wp discipline (perform fuel call c) (Confirms packetType w) s := by
  cases c with
  | publish topicName topicNameLen params =>
      cases params with
      | none => cases hc
      | some arg =>
          cases hparams : s.publishParams arg with
          | none => simp [World.acknowledgement, hparams] at hc
          | some params =>
              -- only a QoS1 publish awaits an acknowledgement
              simp only [World.acknowledgement, hparams] at hc
              split at hc
              next hqos =>
                cases hc
                change wp discipline
                  (MqttClient.publish fuel call topicName topicNameLen (some arg)) _ s
                unfold MqttClient.publish
                split
                next heq =>
                  cases heq
                  split
                  next => exact nofun
                  next =>
                    apply confirms_exclusively
                    apply confirms_internalPublish hcall _ _ _ hqos (hs.trans (adds_one rfl rfl))
                    rw [← hparams]
                    cases arg <;> rfl
                next => exact nofun
              next => cases hc
  | subscribe topicName topicNameLen qos handler data =>
      cases hc
      change wp discipline
        (MqttClient.subscribe fuel call topicName topicNameLen qos handler data) _ s
      unfold MqttClient.subscribe
      split
      next =>
        apply confirms_exclusively
        exact confirms_internalSubscribe hcall _ _ _ _ _ (hs.trans (adds_one rfl rfl))
      next => exact nofun
  | unsubscribe topicFilter topicFilterLen =>
      cases hc
      change wp discipline (MqttClient.unsubscribe fuel call topicFilter topicFilterLen) _ s
      unfold MqttClient.unsubscribe
      split
      next => exact nofun
      next =>
        apply confirms_exclusively
        exact confirms_internalUnsubscribe hcall _ _ (hs.trans (adds_one rfl rfl))
  | _ => cases hc

end Waiting

end Acknowledgements

/-- A program that sends a request at `w` and waits for a packet of this type. -/
inductive Requests (w : World) : M IotError → MessageType → Prop where
  | call {fuel : Nat} {c : Call} {packetType : MessageType}
      (h : w.acknowledgement c = some packetType) : Requests w (api fuel c) packetType
  | resubscribing (fuel n itr : Nat) : Requests w (resubscribeSlot fuel (api n) itr) .suback

open Acknowledgements

/-- Where acknowledgements come in turn, a request succeeds only if it has been
acknowledged itself. -/
theorem acknowledged {w w' : World} {p : M IotError} {packetType : MessageType}
    (h : Requests w p packetType) (hret : Returns policy p w .success w') :
    Acknowledged packetType w w' := by
  have hwp : wp discipline p (Confirms packetType w) w := by
    cases h with
    | @call fuel c packetType h =>
        cases fuel with
        | zero => trivial
        | succ fuel =>
            change wp discipline (framed (.call c) (perform fuel (api fuel) c)) _ w
            rw [wp_framed]
            have hc : (w.log (.enter (.call c))).acknowledgement c = some packetType := by
              rw [← h]
              cases c with
              | publish _ _ params =>
                  cases params with
                  | none => rfl
                  | some arg => cases arg <;> rfl
              | _ => rfl
            refine ⟨trivial, ?_⟩
            apply wp_mono _ (confirms_perform (extending_api fuel) hc (adds_one rfl rfl))
            exact fun rc t ht => ⟨trivial, fun hrc => (ht hrc).later (List.suffix_cons _ _)⟩
    | resubscribing fuel n itr =>
        exact confirms_resubscribeSlot (extending_api n) itr (adds_of_eq rfl)
  exact wp_returns hwp hret rfl

theorem keepsTo_subscribeCall : connectedWorld.keepsTo acknowledgesInTurn 20 (subscribeCall filterA)
    (subackPacket 2) [] = true := by
  decide +kernel

theorem acknowledged_subscribeCall :
    Acknowledged .suback connectedWorld
      (connectedWorld.perform 20 (subscribeCall filterA) (subackPacket 2) []).2.2 :=
  acknowledged (@Requests.call connectedWorld 20 (subscribeCall filterA) .suback rfl)
    (returns_perform (fun _ _ _ h => h) keepsTo_subscribeCall perform_subscribeCall)

/-! ## A foreign acknowledgement -/

/-- What has been sent and what has been read under the same identifier. -/
def Event.matches : Event → Event → Bool
  | .sent packet, .netRead .body _ _ bytes =>
      (packetIdentifier packet).isSome && packetIdentifier packet = leadingUint16 bytes
  | _, _ => false

theorem Acknowledged.any_matches {packetType : MessageType} {w w' : World}
    (h : Acknowledged packetType w w') :
    (w'.trace.any fun e => w'.trace.any e.matches) = true := by
  obtain ⟨newer, reading, older, packet, bytes, off, len, n, id, htrace, hopened, -, hid, hbytes⟩ :=
    h
  obtain ⟨between, hbetween⟩ := Trace.exists_of_mem_opened (List.mem_of_mem_head? hopened)
  refine List.any_eq_true.mpr ⟨.sent packet, ?_, List.any_eq_true.mpr
    ⟨.netRead .body n .success bytes, ?_, ?_⟩⟩
  · rw [htrace, hbetween]
    simp
  · rw [htrace]
    simp
  · simp [Event.matches, hid, hbytes]

/-- The SUBACK of another request is taken for the one that is waited for. -/
theorem not_acknowledged_foreignSuback :
    ¬ ∀ (w w' : World) (p : M IotError) (packetType : MessageType), AtRest anything w →
      Requests w p packetType → Returns anything p w .success w' →
        Acknowledged packetType w w' := by
  intro h
  have hret : (connectedWorld.perform 20 (subscribeCall filterA) (subackPacket 9) []).1 =
      some .success := by decide +kernel
  have hack := h connectedWorld _ _ .suback atRest_connectedWorld
    (@Requests.call connectedWorld 20 (subscribeCall filterA) .suback rfl)
    (returns_perform (fun _ _ _ _ => trivial) (keepsTo_true _ _ _) hret)
  have hany := hack.any_matches
  revert hany
  decide +kernel

end MqttClient
