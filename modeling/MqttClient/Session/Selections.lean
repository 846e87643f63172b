import MqttClient.Session.Handling
import MqttClient.Session.Pubacks

/-! # Which handlers a message is given to

The slots are compared with the topic in the receive buffer one after the
other, and the handlers called in between may have packets read into it.
-/

namespace MqttClient

open Effect Program

/-- What a handler was called with. -/
structure Delivery where
  name : HandlerName
  topicName : List UInt8
  payload : List UInt8
  data : Nat
  deriving DecidableEq

def Event.delivery : Event → Option Delivery
  | .delivered name topicName payload data => some ⟨name, topicName, payload, data⟩
  | _ => none

/-- The handlers called while `n` calls were in progress, the last one first. -/
def Trace.deliveredAt (n : Nat) (t : Trace) : List Delivery :=
  (t.level n).filterMap Event.delivery

/-- What the handler of a slot has to be called with for a message. -/
def MessageHandler.delivery (h : MessageHandler) (topicName : List UInt8) (topicNameLen : UInt16)
    (payload : List UInt8) : Option Delivery :=
  if h.receives topicName topicNameLen then
    h.applicationHandler.map fun name => ⟨name, topicName, payload, h.applicationHandlerData⟩
  else none

/-- What the handlers of the first `i` slots have to be called with, in slot order. -/
def PublishPacket.selected (p : PublishPacket) (table : HandlerTable) (i : Nat) : List Delivery :=
  (List.range i).filterMap fun j => (table.slot j).delivery p.topicName p.topicNameLen p.payload

/-- What the handler of a slot would be called with, if its turn were now. -/
def World.offer (w : World) (f : PublishFields) (i : Nat) : Option Delivery :=
  (w.client.messageHandlers.slot i).delivery
    (w.client.readBuf.load f.topicOff f.topicNameLen.toNat) f.topicNameLen
    (w.client.readBuf.load f.payloadOff f.payloadLen)

namespace PublishPacket

variable (p : PublishPacket) (s : World)

/-- The slot's turn is still to come: the selected slots before it are at least
as many as the handlers that have been called since `s`. -/
def IsDue (w : World) (i : Nat) : Prop :=
  (w.trace.deliveredAt s.stack.length).length ≤
    (s.trace.deliveredAt s.stack.length).length + (p.selected s.client.messageHandlers i).length

/-- The step does not change what slots still to come would be called with. -/
def KeepsOffers (w w' : World) : Prop :=
  ∀ i, p.IsDue s w i → w'.offer (p.found s.client.readBuf) i = w.offer (p.found s.client.readBuf) i

/-- So far the selected handlers among the first ones have been called. -/
def DeliveredUpTo (i : Nat) (t : World) : Prop :=
  t.trace.deliveredAt s.stack.length =
    (p.selected s.client.messageHandlers i).reverse ++ s.trace.deliveredAt s.stack.length

/-- The handlers called are the selected ones in their order, all of them when
the message has been handled. -/
structure DeliversInOrder (rest : M IotError) (t : World) : Prop where
  ongoing : ∃ i, p.DeliveredUpTo s i t
  done : ∀ rc, rest = pure rc → p.DeliveredUpTo s numSubscribeHandlers t

end PublishPacket

namespace Selections

variable {p : PublishPacket} {s : World}

theorem selected_succ (table : HandlerTable) (i : Nat) :
    p.selected table (i + 1) = p.selected table i ++
      ((table.slot i).delivery p.topicName p.topicNameLen p.payload).toList := by
  rw [PublishPacket.selected, List.range_succ, List.filterMap_append]
  congr 1

theorem length_selected_mono (table : HandlerTable) {i j : Nat} (h : i ≤ j) :
    (p.selected table i).length ≤ (p.selected table j).length := by
  induction h with
  | refl => exact Nat.le_refl _
  | step _ ih =>
      rw [selected_succ, List.length_append]
      omega

/-- The first `i` slots have been dealt with, and the others are as they were. -/
structure Underway (p : PublishPacket) (s : World) (i : Nat) (w : World) : Prop where
  opened : w.trace.opened = s.trace.opened
  delivered : p.DeliveredUpTo s i w
  offers : ∀ j, i ≤ j → w.offer (p.found s.client.readBuf) j =
    (s.client.messageHandlers.slot j).delivery p.topicName p.topicNameLen p.payload
  messages : w.messages.map MessageParams.withoutId =
    (p.message s.client.readBuf :: s.messages).map MessageParams.withoutId

theorem Underway.stack {i : Nat} {w : World} (h : Underway p s i w) : w.stack = s.stack := by
  rw [World.stack, World.stack, ← Trace.map_fst_opened, h.opened, Trace.map_fst_opened]

theorem Underway.deliver {i : Nat} {w : World} (h : Underway p s i w) :
    ∃ i, p.DeliveredUpTo s i w := ⟨i, h.delivered⟩

/-- The block on top points to the payload. -/
theorem Underway.exists_message {i : Nat} {w : World} (h : Underway p s i w) :
    ∃ msg rest, w.messages = msg :: rest ∧ rest.length = s.messages.length ∧
      msg.payloadOff = (p.found s.client.readBuf).payloadOff ∧
        msg.payloadLen = (p.found s.client.readBuf).payloadLen := by
  have hmessages := h.messages
  cases hcases : w.messages with
  | nil =>
      rw [hcases] at hmessages
      cases hmessages
  | cons msg rest =>
      rw [hcases, List.map_cons, List.map_cons, List.cons.injEq] at hmessages
      refine ⟨msg, rest, rfl, ?_, ?_, ?_⟩
      · simpa using congrArg List.length hmessages.2
      · exact congrArg MessageParams.payloadOff hmessages.1
      · exact congrArg MessageParams.payloadLen hmessages.1

/-- Inside the handler of the slot before `i`. -/
theorem shelters (i k : Nat) (own : Trace)
    (hown : own.filterMap Event.delivery = (p.selected s.client.messageHandlers i).reverse ++
      s.trace.deliveredAt s.stack.length) :
    Shelters s.stack.length k own (p.KeepsOffers s) (fun _ t => ∃ i, p.DeliveredUpTo s i t)
      fun s' t => ∀ j, i ≤ j → t.offer (p.found s.client.readBuf) j =
        s'.offer (p.found s.client.readBuf) j where
  refl _ _ _ := rfl
  trans _ _ _ h h' j hj := (h' j hj).trans (h j hj)
  keeps t u ht _ hmay j hj := by
    apply hmay j
    rw [PublishPacket.IsDue, Trace.deliveredAt, ht.level, hown, List.length_append,
      List.length_reverse, Nat.add_comm]
    exact Nat.add_le_add_left (length_selected_mono _ hj) _
  guar _ t ht := ⟨i, by rw [PublishPacket.DeliveredUpTo, Trace.deliveredAt, ht.level, hown]⟩

theorem offer_start (hin : p.IsIn s.client.readBuf s.client.readBufSize) (hholds : p.HoldsFields)
    (j : Nat) : s.offer (p.found s.client.readBuf) j =
      (s.client.messageHandlers.slot j).delivery p.topicName p.topicNameLen p.payload := by
  rw [World.offer, PublishPacket.load_topicName hin hholds, PublishPacket.load_payload hin hholds]
  rfl

/-- A slot that is not called for the message. -/
theorem Underway.skip {i : Nat} {w : World} (h : Underway p s i w)
    (hnone : w.offer (p.found s.client.readBuf) i = none) : Underway p s (i + 1) w := by
  refine ⟨h.opened, ?_, fun j hj => h.offers j (Nat.le_of_succ_le hj), h.messages⟩
  rw [h.offers i (Nat.le_refl i)] at hnone
  rw [PublishPacket.DeliveredUpTo, selected_succ, hnone, Option.toList_none, List.append_nil]
  exact h.delivered

/-- The slot's handler is called with what its pointers point to, which is what the
message brought. -/
theorem Underway.call {i : Nat} {w : World} (h : Underway p s i w) (name : HandlerName)
    (payload : List UInt8) (data : Nat)
    (hoffer : w.offer (p.found s.client.readBuf) i = some ⟨name, w.client.readBuf.load
      (p.found s.client.readBuf).topicOff (p.found s.client.readBuf).topicNameLen.toNat,
      payload, data⟩) :
    Underway p s (i + 1) (w.log (.delivered name (w.client.readBuf.load
      (p.found s.client.readBuf).topicOff (p.found s.client.readBuf).topicNameLen.toNat)
      payload data)) := by
  refine ⟨h.opened, ?_, fun j hj => h.offers j (Nat.le_of_succ_le hj), h.messages⟩
  have hlevel : w.trace.stack.length = s.stack.length := congrArg List.length h.stack
  have hdelivered := h.delivered
  rw [PublishPacket.DeliveredUpTo, Trace.deliveredAt] at hdelivered
  rw [h.offers i (Nat.le_refl i)] at hoffer
  rw [PublishPacket.DeliveredUpTo, Trace.deliveredAt, World.trace_log, Trace.level_cons_self hlevel,
    selected_succ, hoffer, Option.toList_some, List.reverse_append, List.reverse_singleton,
    List.singleton_append, List.cons_append, ← hdelivered]
  rfl

/-- Whatever calls the handler makes, the slots still to come are as they were. -/
theorem wp_handler (fuel depth i : Nat) (name : HandlerName) {w : World} (h : Underway p s i w) :
    wp (restricted (p.KeepsOffers s) fun _ t => ∃ i, p.DeliveredUpTo s i t)
      (framed (.handler name) do
        application fuel (api depth)
        return .success)
      (fun _ t => Underway p s i t) w := by
  obtain ⟨msg, rest, hrest, hlength, -⟩ := h.exists_message
  have hlevel : ((w.log (.enter (.handler name))).trace.level s.stack.length).filterMap
      Event.delivery = w.trace.deliveredAt s.stack.length := Trace.filterMap_level_cons rfl _ _
  have hown := hlevel.trans h.delivered
  have hwithin : (w.log (.enter (.handler name))).IsWithin s.stack.length s.messages.length
      ((w.log (.enter (.handler name))).trace.level s.stack.length) := by
    refine ⟨?_, rfl, ?_⟩
    · rw [World.stack_log_enter, h.stack]
      exact Nat.lt_succ_self _
    · rw [World.messages_log, hrest, ← hlength]
      exact Nat.lt_succ_self _
  apply (shelters i s.messages.length _ hown).wp_handler fuel depth name hwithin
  intro t ht hresumes
  have hunderway : Underway p s i (t.log (.leave (.handler name) .success)) := by
    refine ⟨?_, ?_, fun j hj => ?_, ?_⟩
    · exact (congrArg List.tail hresumes.opened).trans h.opened
    · rw [PublishPacket.DeliveredUpTo, Trace.deliveredAt, World.trace_log,
        Trace.filterMap_level_cons rfl, ht.level]
      exact hown
    · exact (hresumes.kept j hj).trans (h.offers j hj)
    · exact hresumes.messages.trans h.messages
  exact ⟨hunderway.deliver, hunderway⟩

theorem wp_callHandler (fuel depth i : Nat) {w : World} (h : Underway p s i w)
    (hreceives : (w.client.messageHandlers.slot i).receives (w.client.readBuf.load
      (p.found s.client.readBuf).topicOff (p.found s.client.readBuf).topicNameLen.toNat)
      (p.found s.client.readBuf).topicNameLen = true) :
    wp (restricted (p.KeepsOffers s) fun _ t => ∃ i, p.DeliveredUpTo s i t)
      (callHandler fuel (api depth) (w.client.messageHandlers.slot i)
        (p.found s.client.readBuf).topicOff (p.found s.client.readBuf).topicNameLen)
      (fun _ t => Underway p s (i + 1) t) w := by
  obtain ⟨msg, rest, hrest, -, hoff, hlen⟩ := h.exists_message
  apply wp_callHandler_restricted
  · intro hname
    apply h.skip
    rw [World.offer, MessageHandler.delivery, if_pos hreceives, hname]
    rfl
  · intro name hname
    have hoffer : w.offer (p.found s.client.readBuf) i = some ⟨name, w.client.readBuf.load
        (p.found s.client.readBuf).topicOff (p.found s.client.readBuf).topicNameLen.toNat,
        w.client.readBuf.load msg.payloadOff msg.payloadLen,
        (w.client.messageHandlers.slot i).applicationHandlerData⟩ := by
      rw [World.offer, MessageHandler.delivery, if_pos hreceives, hname, hoff, hlen]
      rfl
    have hcall := h.call name _ _ hoffer
    rw [hrest]
    exact ⟨hcall.deliver, wp_handler fuel depth (i + 1) name hcall⟩

theorem wp_internalDeliverMessage (fuel depth : Nat) {w : World} (h : Underway p s 0 w) :
    wp (restricted (p.KeepsOffers s) fun _ t => ∃ i, p.DeliveredUpTo s i t)
      (internalDeliverMessage fuel (api depth) (p.found s.client.readBuf).topicOff
        (p.found s.client.readBuf).topicNameLen)
      (fun _ t => Underway p s numSubscribeHandlers t) w := by
  apply wp_internalDeliverMessage_restricted (I := Underway p s)
  · exact fun _ _ hw => hw.deliver
  · intro i w hw change expected new
    have hlog : ∀ e : Event, e.isInner = true → e.delivery = none →
        p.DeliveredUpTo s i (w.log e) := by
      intro e _ he
      exact (Trace.filterMap_level_cons he _ _).trans hw.delivered
    have hgranted : Underway p s i (w.granted change expected new) :=
      ⟨hw.opened, hlog (.setState change expected new true) rfl rfl, hw.offers, hw.messages⟩
    have hrefused : Underway p s i (w.refused change expected new) :=
      ⟨hw.opened, hlog (.setState change expected new false) rfl rfl, hw.offers, hw.messages⟩
    exact ⟨⟨hgranted, hgranted.deliver⟩, hrefused, hrefused.deliver⟩
  · intro i w hw hreceives
    apply hw.skip
    exact if_neg hreceives
  · exact fun i _ hw hreceives => wp_callHandler fuel depth i hw hreceives
  · exact h

theorem delivery_of_isIo {e : Event} (h : e.isIo = true) : e.delivery = none := by
  cases e <;> first | rfl | cases h

theorem wp_internalHandlePublish (fuel depth : Nat) (timer : TimerName)
    (hin : p.IsIn s.client.readBuf s.client.readBufSize) (hholds : p.HoldsFields) :
    wp (restricted (p.KeepsOffers s) fun _ t => ∃ i, p.DeliveredUpTo s i t)
      (internalHandlePublish fuel (api depth) timer)
      (fun _ t => p.DeliveredUpTo s numSubscribeHandlers t) s := by
  have hstart : p.DeliveredUpTo s 0 s := rfl
  have hpushed : Underway p s 0 { s with messages := p.message s.client.readBuf :: s.messages } :=
    ⟨rfl, hstart, fun j _ => offer_start hin hholds j, rfl⟩
  refine wp_internalHandlePublish_restricted hin hholds ⟨0, hstart⟩ hpushed.deliver
    (wp_internalDeliverMessage fuel depth hpushed) ?_ ?_ ?_
  · exact fun t ht => ht.deliver
  · exact fun _ t ht _ => ht.delivered
  · intro t ht msg
    have hio : IsIo (if msg.qos = qos0 then pure .success
        else serialized (fun c => serializeAck c.writeBufSize .puback 0 msg.id)
          fun len => internalSendPacket fuel (len % 2 ^ 32) timer) :=
      .ite (within_pure _) (isIo_serialized fun _ => isIo_internalSendPacket _ _ _)
    have hend : p.DeliveredUpTo s numSubscribeHandlers { t with messages := t.messages.tail } :=
      ht.delivered
    refine hio.wp (I := fun u => p.DeliveredUpTo s numSubscribeHandlers u) (fun _ _ _ _ => trivial)
      (fun u v hu hv _ => ?_) ?_ (fun _ _ => trivial) hend
    · obtain ⟨ev, hev, hevents⟩ := hv.trace
      have hv' : p.DeliveredUpTo s numSubscribeHandlers v := by
        rw [PublishPacket.DeliveredUpTo, hev, Trace.deliveredAt, Trace.filterMap_level_append
          fun e he => delivery_of_isIo (hevents e he)]
        exact hu
      exact ⟨⟨_, hv'⟩, hv'⟩
    · rintro u v hu rfl
      exact hu

end Selections

/-- As long as nobody changes what slots still to come would be called with, the
handlers called for a message are those of the matching slots, in slot order,
each with the topic and the payload that were received. -/
theorem PublishPacket.deliversInOrder_of_moves (p : PublishPacket) {fuel depth : Nat}
    {timer : TimerName} {s t : World} {rest : M IotError}
    (hin : p.IsIn s.client.readBuf s.client.readBufSize) (hholds : p.HoldsFields)
    (hmoves : Moves anything (p.KeepsOffers s) (internalHandlePublish fuel (api depth) timer, s)
      (rest, t)) : p.DeliversInOrder s rest t := by
  have hwp := Selections.wp_internalHandlePublish fuel depth timer hin hholds
  refine ⟨invariant_moves (I := fun t => ∃ i, p.DeliveredUpTo s i t) (fun _ _ _ h => h) hwp
    ⟨0, rfl⟩ hmoves, fun rc hrest => ?_⟩
  subst hrest
  exact wp_moves hwp hmoves

/-! ## A handler that makes calls -/

def keepsOffers (p : PublishPacket) (s w w' : World) : Bool :=
  (List.range numSubscribeHandlers).all fun i =>
    w'.offer (p.found s.client.readBuf) i = w.offer (p.found s.client.readBuf) i

theorem keepsOffers_of_eq_true {p : PublishPacket} {s : World} (w w' : World)
    (h : keepsOffers p s w w' = true) : p.KeepsOffers s w w' := by
  intro i _
  by_cases hi : i < numSubscribeHandlers
  · exact of_decide_eq_true (List.all_eq_true.mp h i (List.mem_range.mpr hi))
  · have hslot : ∀ u : World, u.client.messageHandlers.slot i = ⟨none, 0, qos0, none, 0⟩ := by
      intro u
      have hlength : u.client.messageHandlers.slots.length ≤ i := by
        rw [u.client.messageHandlers.size_eq]
        omega
      rw [HandlerTable.slot, List.getD_eq_getElem?_getD, List.getElem?_eq_none hlength]
      rfl
    simp [World.offer, hslot, MessageHandler.delivery, MessageHandler.receives]

theorem movesTo_keepsOffers : (internalHandlePublish 20 (api 20) .command).movesTo Script.answer
    (fun _ _ _ => true) (keepsOffers wholePublish arrivedWorld) 220
      ⟨pubackPacket 3, [some publishCall, none]⟩ arrivedWorld = true := by
  decide +kernel

/-- The PUBACK that a handler waits for ends where this topic begins. -/
theorem deliversInOrder_publishCall : wholePublish.DeliversInOrder arrivedWorld
    (handled publishCall 220).1 (handled publishCall 220).2 :=
  wholePublish.deliversInOrder_of_moves isIn_arrivedWorld ⟨by decide, by decide⟩
    (moves_advance (fun _ _ _ _ => trivial) keepsOffers_of_eq_true 220 movesTo_keepsOffers)

/-- A message has arrived whose topic is in two slots. -/
def twiceSubscribedWorld : World :=
  (subscribedWorld.perform 20 (subscribeCall filterA) (subackPacket 3) []).2.2.onClient fun c =>
    { c with readBuf := bufferOf wholePublish }

/-- It is handled, and the handler of the first slot subscribes: the SUBACK is read
over the first byte of the topic. -/
def handledSubscribing : M IotError × World :=
  (internalHandlePublish 20 (api 20) .command).advance Script.answer 300
    ⟨subackPacket 4, [some (subscribeCall filterB), none]⟩ twiceSubscribedWorld

theorem deliveredAt_handledSubscribing :
    wholePublish.IsIn twiceSubscribedWorld.client.readBuf twiceSubscribedWorld.client.readBufSize ∧
      handledSubscribing.1.returned = some .success ∧
      (handledSubscribing.2.trace.deliveredAt twiceSubscribedWorld.stack.length).length = 1 ∧
      (wholePublish.selected twiceSubscribedWorld.client.messageHandlers
        numSubscribeHandlers).length = 2 := by
  exact ⟨⟨by decide +kernel, by decide +kernel⟩, by decide +kernel, by decide +kernel,
    by decide +kernel⟩

/-- The second slot is passed over. -/
theorem not_deliversInOrder_subscribing :
    Moves anything (fun _ _ => True) (internalHandlePublish 20 (api 20) .command,
        twiceSubscribedWorld) (pure .success, handledSubscribing.2) ∧
      wholePublish.IsIn twiceSubscribedWorld.client.readBuf
        twiceSubscribedWorld.client.readBufSize ∧
      ¬ wholePublish.DeliversInOrder twiceSubscribedWorld (pure .success) handledSubscribing.2 := by
  obtain ⟨hin, hreturned, hdelivered, hselected⟩ := deliveredAt_handledSubscribing
  have hmoves : Moves anything (fun _ _ => True)
      (internalHandlePublish 20 (api 20) .command, twiceSubscribedWorld) handledSubscribing :=
    moves_advance (fun _ _ _ _ => trivial) (fun _ _ _ => trivial) 300 (movesTo_anything _ _ _ _)
  rw [show handledSubscribing = (pure .success, handledSubscribing.2) from
    Prod.ext (eq_ret_of_returned hreturned) rfl] at hmoves
  refine ⟨hmoves, hin, fun h => ?_⟩
  have hlength := congrArg List.length (h.done .success rfl)
  rw [hdelivered, List.length_append, List.length_reverse, hselected] at hlength
  omega

end MqttClient
