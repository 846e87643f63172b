import MqttClient.Session.Handling

/-! # Acknowledging messages

A message with QoS 1 is acknowledged when its handlers have returned, with the
identifier that its parameter block holds then. Handlers are handed that block.
-/

namespace MqttClient

open Effect Program

def Event.sentPacket : Event → Option (List UInt8)
  | .sent packet => some packet
  | _ => none

/-- The packets sent while `n` calls were in progress, the newest first. -/
def Trace.sentAt (n : Nat) (t : Trace) : List (List UInt8) :=
  (t.level n).filterMap Event.sentPacket

theorem Trace.sentAt_cons {e : Event} (h : e.sentPacket = none) (n : Nat) (t : Trace) :
    sentAt n (e :: t) = sentAt n t := filterMap_level_cons h n t

/-- The parameter block of the message that was the `k`-th to be handled of
those in progress. -/
def World.block (w : World) (k : Nat) : Option MessageParams := w.messages.reverse[k]?

/-- The step leaves the identifier in that block alone. -/
def KeepsId (k : Nat) (s t : World) : Prop :=
  ∀ msg msg', s.block k = some msg → t.block k = some msg' → msg'.id = msg.id

def pubackBytes (id : UInt16) : List UInt8 := 0x40 :: 2 :: writeUint16 id

namespace PublishPacket

variable (p : PublishPacket)

/-- The handlers have returned, and the last thing on record is the
acknowledgement, the only packet that was sent for the message. -/
def IsAcknowledged (s t : World) : Prop :=
  ∃ (id : UInt16) (older : Trace), p.packetId = some id ∧
    t.trace = .sent (pubackBytes id) :: older ∧
    older.opened = s.trace.opened ∧
      older.sentAt s.stack.length = s.trace.sentAt s.stack.length

/-- What has been sent for the message, at any point of handling it. -/
structure AcksAt (s t : World) : Prop where
  unacknowledged : headerQos p.header = qos0 →
    t.trace.sentAt s.stack.length = s.trace.sentAt s.stack.length
  acknowledged : headerQos p.header = qos1 →
    t.trace.sentAt s.stack.length = s.trace.sentAt s.stack.length ∨ p.IsAcknowledged s t

/-- While the message is handled nothing but its acknowledgement is sent for it, and
the acknowledgement is sent if the handling succeeds. -/
structure AcksInTime (s : World) (rest : M IotError) (t : World) : Prop extends p.AcksAt s t where
  done : headerQos p.header = qos1 → rest = pure .success → p.IsAcknowledged s t

end PublishPacket

namespace Pubacks

theorem block_cons {w : World} {msg : MessageParams} {rest : List MessageParams}
    (h : w.messages = msg :: rest) : w.block rest.length = some msg := by
  rw [World.block, h, List.reverse_cons, ← List.length_reverse, List.getElem?_concat_length]

section Message

variable {p : PublishPacket} {s : World}

theorem acksAt_of_eq {t : World}
    (h : t.trace.sentAt s.stack.length = s.trace.sentAt s.stack.length) : p.AcksAt s t :=
  ⟨fun _ => h, fun _ => .inl h⟩

/-- The message is being handled: its block is on top and holds what it held. -/
structure Underway (msg : MessageParams) (s w : World) : Prop where
  opened : w.trace.opened = s.trace.opened
  sent : w.trace.sentAt s.stack.length = s.trace.sentAt s.stack.length
  messages : ∃ rest, w.messages = msg :: rest ∧ rest.length = s.messages.length

/-- Inside a handler of the message. -/
theorem shelters (k : Nat) (own : Trace)
    (hown : own.filterMap Event.sentPacket = s.trace.sentAt s.stack.length) :
    Shelters s.stack.length k own (KeepsId k) (fun _ t => p.AcksAt s t)
      fun s t => (t.block k).map MessageParams.id = (s.block k).map MessageParams.id where
  refl _ := rfl
  trans _ _ _ h h' := h'.trans h
  keeps t u ht hu hmay := by
    have hblock : ∀ w : World, k < w.messages.length → ∃ msg, w.block k = some msg := by
      intro w hw
      exact ⟨_, List.getElem?_eq_getElem (by rwa [List.length_reverse])⟩
    obtain ⟨msg, hmsg⟩ := hblock t ht.messages
    obtain ⟨msg', hmsg'⟩ := hblock u hu.messages
    rw [hmsg, hmsg', Option.map_some, Option.map_some, hmay msg msg' hmsg hmsg']
  guar _ t ht := acksAt_of_eq (by rw [Trace.sentAt, ht.level, hown])

theorem Underway.log {msg : MessageParams} {w : World} (h : Underway msg s w) {e : Event}
    (hinner : e.isInner = true) (hsent : e.sentPacket = none) : Underway msg s (w.log e) :=
  ⟨(Trace.opened_of_isInner hinner _).trans h.opened, (Trace.sentAt_cons hsent _ _).trans h.sent,
    h.messages⟩

theorem Underway.stack {msg : MessageParams} {w : World} (h : Underway msg s w) :
    w.stack = s.stack := by
  rw [World.stack, World.stack, ← Trace.map_fst_opened, h.opened, Trace.map_fst_opened]

/-- A block that has been left alone is the block that it was. -/
theorem Underway.resumes {msg : MessageParams} {w t : World} (h : Underway msg s w)
    (hmessages : t.messages.map MessageParams.withoutId = w.messages.map MessageParams.withoutId)
    (hid : (t.block s.messages.length).map MessageParams.id =
      (w.block s.messages.length).map MessageParams.id) :
    ∃ rest, t.messages = msg :: rest ∧ rest.length = s.messages.length := by
  obtain ⟨rest, hrest, hlength⟩ := h.messages
  cases hcases : t.messages with
  | nil =>
      rw [hcases, hrest] at hmessages
      cases hmessages
  | cons msg' rest' =>
      rw [hcases, hrest, List.map_cons, List.map_cons, List.cons.injEq] at hmessages
      have hlength' : rest'.length = s.messages.length := by
        rw [← hlength, ← List.length_map (f := MessageParams.withoutId), hmessages.2,
          List.length_map]
      rw [← hlength, block_cons hrest, hlength, ← hlength', block_cons hcases] at hid
      have hmsg : msg' = msg := by
        have hrest := hmessages.1
        simp only [MessageParams.withoutId, MessageParams.mk.injEq] at hrest
        obtain ⟨hqos, hretained, hdup, -, hoff, hlen⟩ := hrest
        cases msg
        cases msg'
        simp only [Option.map_some, Option.some.injEq] at hid
        simp only at hqos hretained hdup hoff hlen
        rw [hqos, hretained, hdup, hid, hoff, hlen]
      exact ⟨rest', by rw [hmsg], hlength'⟩

theorem wp_callHandler (fuel depth : Nat) {msg : MessageParams} {w : World}
    (h : Underway msg s w) (handler : MessageHandler) (topicOff : Nat) (topicNameLen : UInt16) :
    wp (restricted (KeepsId s.messages.length) fun _ t => p.AcksAt s t)
      (callHandler fuel (api depth) handler topicOff topicNameLen)
      (fun _ t => Underway msg s t) w := by
  apply wp_callHandler_restricted (fun _ => h)
  intro name _ u
  have hu : Underway msg s u := h.log rfl rfl
  refine ⟨acksAt_of_eq hu.sent, ?_⟩
  have hsent : (u.log (.enter (.handler name))).trace.sentAt s.stack.length =
      s.trace.sentAt s.stack.length := (Trace.sentAt_cons rfl _ _).trans hu.sent
  obtain ⟨rest, hrest, hlength⟩ := hu.messages
  have hwithin : (u.log (.enter (.handler name))).IsWithin s.stack.length s.messages.length
      ((u.log (.enter (.handler name))).trace.level s.stack.length) := by
    refine ⟨?_, rfl, ?_⟩
    · rw [World.stack_log_enter, hu.stack]
      exact Nat.lt_succ_self _
    · rw [World.messages_log, hrest, ← hlength]
      exact Nat.lt_succ_self _
  apply (shelters s.messages.length _ hsent).wp_handler fuel depth name hwithin
  intro t ht hresumes
  have hunderway : Underway msg s (t.log (.leave (.handler name) .success)) := by
    refine ⟨?_, ?_, ?_⟩
    · exact (congrArg List.tail hresumes.opened).trans hu.opened
    · rw [World.trace_log, Trace.sentAt_cons rfl, Trace.sentAt, ht.level]
      exact hsent
    · exact hu.resumes (t := t.log (.leave (.handler name) .success)) hresumes.messages
        hresumes.kept
  exact ⟨acksAt_of_eq hunderway.sent, hunderway⟩

/-- The handlers find and leave the block as it was filled. -/
theorem wp_internalDeliverMessage (fuel depth : Nat) {msg : MessageParams} {w : World}
    (h : Underway msg s w) (topicOff : Nat) (topicNameLen : UInt16) :
    wp (restricted (KeepsId s.messages.length) fun _ t => p.AcksAt s t)
      (internalDeliverMessage fuel (api depth) topicOff topicNameLen)
      (fun _ t => Underway msg s t) w := by
  apply wp_internalDeliverMessage_restricted (I := fun _ w => Underway msg s w)
  · exact fun _ w hw => acksAt_of_eq hw.sent
  · intro _ w hw change expected new
    have hrefused : Underway msg s (w.refused change expected new) := hw.log rfl rfl
    have hgranted : Underway msg s (w.granted change expected new) :=
      ⟨hw.opened, (Trace.sentAt_cons rfl _ _).trans hw.sent, hw.messages⟩
    exact ⟨⟨hgranted, acksAt_of_eq hgranted.sent⟩, hrefused, acksAt_of_eq hrefused.sent⟩
  · exact fun _ _ hw _ => hw
  · exact fun _ _ hw _ => wp_callHandler fuel depth hw _ _ _
  · exact h

theorem serializeAck_puback {txBufLen : Nat} {id : UInt16} {packet : List UInt8}
    (h : serializeAck txBufLen .puback 0 id = .ok packet) : packet = pubackBytes id := by
  unfold serializeAck at h
  split at h
  · cases h
  · cases h
    rfl

/-- The acknowledgement goes out as it was serialized, although the transmit
buffer is shared. -/
theorem wp_acknowledge (fuel : Nat) (timer : TimerName) {id : UInt16} (hid : p.packetId = some id)
    (hqos : headerQos p.header = qos1) {w : World} (hopened : w.trace.opened = s.trace.opened)
    (hsent : w.trace.sentAt s.stack.length = s.trace.sentAt s.stack.length) :
    wp (observed anything fun _ t => p.AcksAt s t)
      (serialized (fun c => serializeAck c.writeBufSize .puback 0 id) fun len =>
        internalSendPacket fuel (len % 2 ^ 32) timer)
      (fun rc t => rc = .success → p.IsAcknowledged s t) w := by
  refine wp_serialized (acksAt_of_eq hsent) (fun rc hrc h => ?_) fun packet hpacket => ?_
  · exact absurd h ((reportsErrors_serializeAck _ _ _ _).ne_success hrc)
  · obtain rfl := serializeAck_puback hpacket
    refine ⟨acksAt_of_eq hsent, ?_⟩
    generalize ht : w.onClient _ = t
    have htrace : t.trace = w.trace := ht ▸ rfl
    have hload : t.client.writeBuf.load 0 (pubackBytes id).length = pubackBytes id := by
      rw [← ht]
      exact Memory.load_store _ 0 _
    have hlength : (pubackBytes id).length % 2 ^ 32 = (pubackBytes id).length := rfl
    rw [hlength]
    -- writes add nothing to what has been sent at this level
    have hwritten : ∀ u, Writes t u → u.trace.opened = s.trace.opened ∧
        u.trace.sentAt s.stack.length = s.trace.sentAt s.stack.length := by
      intro u hu
      obtain ⟨ev, hev, hwriting⟩ := hu.trace
      have hinner : ∀ e ∈ ev, e.isInner = true := by
        intro e he
        have := hwriting e he
        cases e <;> first | rfl | cases this
      have hunsent : ∀ e ∈ ev, e.sentPacket = none := by
        intro e he
        have := hwriting e he
        cases e <;> first | rfl | cases this
      rw [hev, htrace, Trace.opened_append hinner, Trace.sentAt,
        Trace.filterMap_level_append hunsent]
      exact ⟨hopened, hsent⟩
    have hacked : ∀ u, Writes t u →
        p.IsAcknowledged s (u.log (.sent (t.client.writeBuf.load 0 (pubackBytes id).length))) := by
      intro u hu
      rw [hload]
      exact ⟨id, u.trace, hid, rfl, hwritten u hu⟩
    apply wp_mono _ (wp_internalSendPacket_observed fuel _ timer t
      (fun u v hu hv => acksAt_of_eq (hwritten v (hu.trans hv)).2) fun u hu => ?_)
    · intro rc u hu hrc
      obtain ⟨v, hv, rfl⟩ := hu.1 hrc
      exact hacked v hv
    · refine ⟨fun h => ?_, fun _ => .inr (hacked u hu)⟩
      rw [hqos] at h
      cases h

/-- What is sent in the course of handling a message. -/
theorem wp_internalHandlePublish (fuel depth : Nat) (timer : TimerName)
    (hin : p.IsIn s.client.readBuf s.client.readBufSize) (hholds : p.HoldsFields) :
    wp (restricted (KeepsId s.messages.length) fun _ t => p.AcksAt s t)
      (internalHandlePublish fuel (api depth) timer)
      (fun rc t => headerQos p.header = qos1 → rc = .success → p.IsAcknowledged s t) s := by
  have hpushed : Underway (p.message s.client.readBuf) s
      { s with messages := p.message s.client.readBuf :: s.messages } :=
    ⟨rfl, rfl, s.messages, rfl, rfl⟩
  refine wp_internalHandlePublish_restricted hin hholds (acksAt_of_eq rfl) (acksAt_of_eq rfl)
    (wp_internalDeliverMessage fuel depth hpushed _ _) ?_ ?_ ?_
  · exact fun t ht => acksAt_of_eq ht.sent
  · exact fun rc _ _ hrc _ h => absurd h hrc
  · intro t ht
    obtain ⟨rest, hrest, -⟩ := ht.messages
    rw [hrest, List.headD_cons]
    have hqos : (p.message s.client.readBuf).qos = headerQos p.header := rfl
    dsimp only
    split
    next hqos0 =>
      intro hqos1
      rw [hqos, hqos1] at hqos0
      cases hqos0
    next hqos0 =>
      rw [hqos] at hqos0
      -- the QoS may also be 2 or 3, of which nothing is claimed
      by_cases hqos1 : headerQos p.header = qos1
      · have hid : p.packetId = some (p.message s.client.readBuf).id := by
          obtain ⟨id, hid⟩ := p.exists_packetId hqos0 hholds
          rw [PublishPacket.message, PublishPacket.packetId_found hin hholds, hid, Option.getD_some]
        apply wp_restricted
        apply wp_mono _ (wp_acknowledge (w := { t with messages := rest }) fuel timer hid hqos1
          ht.opened ht.sent)
        exact fun _ _ h _ => h
      · have hvacuous : ∀ u, p.AcksAt s u := fun u =>
          ⟨fun h => absurd h hqos0, fun h => absurd h hqos1⟩
        apply wp_mono (fun _ _ _ h => absurd h hqos1) (Within.wp (I := fun _ => True)
          (isIo_serialized fun _ => isIo_internalSendPacket _ _ _) _ _ _ _ trivial)
        · exact fun _ _ _ _ => trivial
        · exact fun _ u _ _ _ => ⟨hvacuous u, trivial⟩
        · exact fun _ _ _ _ => trivial
        · exact fun _ _ => trivial

end Message

end Pubacks

/-- As long as nobody writes another identifier into the message's block, a message
with QoS 1 that is handled successfully is acknowledged once, by its own identifier
and after its handlers, and a message with QoS 0 is not. -/
theorem PublishPacket.acksInTime_of_moves (p : PublishPacket) {fuel depth : Nat} {timer : TimerName}
    {s t : World} {rest : M IotError} (hin : p.IsIn s.client.readBuf s.client.readBufSize)
    (hholds : p.HoldsFields) (hmoves : Moves anything (KeepsId s.messages.length)
      (internalHandlePublish fuel (api depth) timer, s) (rest, t)) :
    p.AcksInTime s rest t := by
  have hwp := Pubacks.wp_internalHandlePublish fuel depth timer hin hholds
  refine ⟨invariant_moves (I := fun t => p.AcksAt s t) (fun _ _ _ h => h) hwp
    (Pubacks.acksAt_of_eq rfl) hmoves, fun hqos hrest => ?_⟩
  subst hrest
  exact wp_moves hwp hmoves hqos rfl

/-! ## A message that is published again -/

/-- A message with QoS 1 has arrived, on a topic with a handler. -/
def arrivedWorld : World :=
  subscribedWorld.onClient fun c => { c with readBuf := bufferOf wholePublish }

theorem isIn_arrivedWorld :
    wholePublish.IsIn arrivedWorld.client.readBuf arrivedWorld.client.readBufSize :=
  ⟨by decide +kernel, by decide +kernel⟩

/-- The message is handled for `n` steps. Its handler makes the call, and then the
acknowledgement of a publish arrives. -/
def handled (c : Call) (n : Nat) : M IotError × World :=
  (internalHandlePublish 20 (api 20) .command).advance Script.answer n
    ⟨pubackPacket 3, [some c, none]⟩ arrivedWorld

def keepsId (k : Nat) (s t : World) : Bool :=
  match s.block k, t.block k with
  | some msg, some msg' => msg'.id = msg.id
  | _, _ => true

theorem keepsId_of_eq_true {k : Nat} (s t : World) (h : keepsId k s t = true) : KeepsId k s t := by
  intro msg msg' hmsg hmsg'
  unfold keepsId at h
  rw [hmsg, hmsg'] at h
  exact of_decide_eq_true h

theorem movesTo_publishCall : (internalHandlePublish 20 (api 20) .command).movesTo Script.answer
    (fun _ _ _ => true) (keepsId 0) 220 ⟨pubackPacket 3, [some publishCall, none]⟩
      arrivedWorld = true ∧ (handled publishCall 220).1.returned = some .success := by
  decide +kernel

/-- A handler that publishes a message of its own does no harm. -/
theorem isAcknowledged_publishCall :
    wholePublish.IsAcknowledged arrivedWorld (handled publishCall 220).2 :=
  (wholePublish.acksInTime_of_moves isIn_arrivedWorld ⟨by decide, by decide⟩
    (moves_advance (fun _ _ _ _ => trivial) keepsId_of_eq_true 220 movesTo_publishCall.1)).done
    (by decide) (eq_ret_of_returned movesTo_publishCall.2)

/-- The message itself is published again. -/
def republishCall : Call := .publish (some [98]) 1 (some (.received 0))

theorem sent_republishCall : (handled republishCall 220).1.returned = some .success ∧
    (handled republishCall 220).2.trace.head?.bind Event.sentPacket = some (pubackBytes 3) := by
  decide +kernel

/-- It is acknowledged by the identifier it was published under. -/
theorem not_isAcknowledged_republishCall :
    Moves anything (fun _ _ => True) (internalHandlePublish 20 (api 20) .command, arrivedWorld)
        (pure .success, (handled republishCall 220).2) ∧
      wholePublish.packetId = some 7 ∧
      ¬ wholePublish.IsAcknowledged arrivedWorld (handled republishCall 220).2 := by
  have hmoves : Moves anything (fun _ _ => True)
      (internalHandlePublish 20 (api 20) .command, arrivedWorld) (handled republishCall 220) :=
    moves_advance (fun _ _ _ _ => trivial) (fun _ _ _ => trivial) 220 (movesTo_anything _ _ _ _)
  rw [show handled republishCall 220 = (pure .success, (handled republishCall 220).2) from
    Prod.ext (eq_ret_of_returned sent_republishCall.1) rfl] at hmoves
  refine ⟨hmoves, by decide, ?_⟩
  rintro ⟨id, older, hid, htrace, -⟩
  have hhead := sent_republishCall.2
  rw [htrace] at hhead
  cases hid.symm.trans (by decide : wholePublish.packetId = some 7)
  exact absurd (Option.some.inj hhead) (by decide)

end MqttClient
