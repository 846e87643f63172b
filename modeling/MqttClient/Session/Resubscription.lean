import Mathlib.Data.Finset.Card
import Mathlib.Data.Finset.Range
import MqttClient.Client.Codes
import MqttClient.Session.Cooperation

/-! # What a successful resubscribe has done

A resubscribe asks anew for the subscriptions in the slots before the first
free one. Handlers that run while it waits may subscribe and unsubscribe; what
they subscribe is acknowledged as well. So the broker knows of everything in
the table if there was nothing behind the first free slot.
-/

namespace MqttClient

open Effect Program

/-- The packet is a SUBSCRIBE with this filter and QoS. -/
def MessageHandler.IsRequestedBy (h : MessageHandler) (packet : List UInt8) : Prop :=
  ∃ topicName txBufLen packetId, h.topicName = some topicName ∧
    serializeSubscribe txBufLen 0 packetId [(topicName.bytes, h.topicNameLen, h.qos)] = .ok packet

/-- A SUBSCRIBE for `h` was sent after the first `start` events, and the `n`-th
event is a SUBACK that came after it. -/
def Trace.Acknowledged (trace : Trace) (start : Nat) (h : MessageHandler) (n : Nat) : Prop :=
  ∃ newer mid packet older, trace = newer ++ .received .suback :: (mid ++ .sent packet :: older) ∧
    h.IsRequestedBy packet ∧ start ≤ older.length ∧ n = (mid ++ .sent packet :: older).length

/-- An acknowledgement is one of the events. -/
theorem Trace.Acknowledged.lt {trace : Trace} {start n : Nat} {h : MessageHandler}
    (hack : trace.Acknowledged start h n) : n < trace.length := by
  obtain ⟨newer, mid, packet, older, rfl, -, -, rfl⟩ := hack
  simp only [List.length_append, List.length_cons]
  omega

/-- What has been acknowledged stays so. -/
theorem Trace.Acknowledged.append {trace : Trace} {start n : Nat} {h : MessageHandler}
    (hack : trace.Acknowledged start h n) (ev : List Event) :
    Trace.Acknowledged (ev ++ trace) start h n := by
  obtain ⟨newer, mid, packet, older, rfl, hpacket, hstart, hn⟩ := hack
  exact ⟨ev ++ newer, mid, packet, older, (List.append_assoc ..).symm, hpacket, hstart, hn⟩

/-- An occupied slot that is not left to do. -/
def HandlerTable.Due (table : HandlerTable) (todo : Nat → MessageHandler → Prop) (i : Nat) : Prop :=
  (table.slot i).isFree = false ∧ ¬ todo i (table.slot i)

/-- Each occupied slot but those `todo` is acknowledged by a SUBACK of its own. -/
def HandlerTable.Covered (table : HandlerTable) (trace : Trace) (start : Nat)
    (todo : Nat → MessageHandler → Prop) : Prop :=
  ∃ ack : Nat → Nat, (∀ i, table.Due todo i → trace.Acknowledged start (table.slot i) (ack i)) ∧
    ∀ i j, table.Due todo i → table.Due todo j → ack i = ack j → i = j

/-- Nothing is left to do. -/
def noSlot : Nat → MessageHandler → Prop := fun _ _ => False

/-- No slot behind the first free one is occupied. -/
def HandlerTable.IsDense (table : HandlerTable) : Prop :=
  ∀ i, table.getFreeMessageHandlerIndex ≤ i → (table.slot i).isFree = true

namespace Resubscription

variable {table table' : HandlerTable} {trace : Trace} {start : Nat}
  {todo todo' : Nat → MessageHandler → Prop}

/-- Slots may be freed, and the trace may grow. -/
theorem covered_of_due (h : table.Covered trace start todo) (ev : List Event)
    (hdue : ∀ i, table'.Due todo' i → table.Due todo i ∧ table'.slot i = table.slot i) :
    table'.Covered (ev ++ trace) start todo' := by
  obtain ⟨ack, hack, hinj⟩ := h
  refine ⟨ack, fun i hi => ?_, fun i j hi hj => hinj i j (hdue i hi).1 (hdue j hj).1⟩
  rw [(hdue i hi).2]
  exact (hack i (hdue i hi).1).append ev

/-- The SUBACK that has just come covers one more slot. -/
theorem covered_of_acknowledged {k : Nat} {handler : MessageHandler} {newer older : Trace}
    (h : table.Covered older start todo)
    (hack : Trace.Acknowledged (newer ++ .received .suback :: older) start handler older.length)
    (hdue : ∀ i, table'.Due todo' i → i = k ∧ table'.slot i = handler ∨
      table.Due todo i ∧ table'.slot i = table.slot i) :
    table'.Covered (newer ++ .received .suback :: older) start todo' := by
  classical
  obtain ⟨ack, hacked, hinj⟩ := h
  have hlt : ∀ i, table.Due todo i → ack i < older.length := fun i hi => (hacked i hi).lt
  -- the handler's own acknowledgement is the newest, so no other slot has it
  refine ⟨fun i => if i = k ∧ table'.slot i = handler then older.length else ack i,
    fun i hi => ?_, fun i j hi hj heq => ?_⟩
  · simp only
    split
    next hk => rw [hk.2]; exact hack
    next hk =>
      obtain ⟨hi', hslot⟩ := (hdue i hi).resolve_left hk
      rw [hslot]
      have := (hacked i hi').append (newer ++ [.received .suback])
      rwa [List.append_assoc] at this
  · simp only at heq
    split at heq
    next hi' =>
      split at heq
      next hj' => exact hi'.1.trans hj'.1.symm
      next hj' =>
        have := hlt j ((hdue j hj).resolve_left hj').1
        omega
    next hi' =>
      split at heq
      next hj' =>
        have := hlt i ((hdue i hi).resolve_left hi').1
        omega
      next hj' =>
        exact hinj i j ((hdue i hi).resolve_left hi').1 ((hdue j hj).resolve_left hj').1 heq

/-- The table is covered but for `todo`, in a run that has come by `base`. -/
structure Covering (base : Trace) (start : Nat) (todo : Nat → MessageHandler → Prop) (w : World) :
    Prop where
  covered : w.client.messageHandlers.Covered w.trace start todo
  trace : ∃ ev, w.trace = ev ++ base

variable {base : Trace}

/-- Events that come later take no acknowledgement away. -/
theorem Covering.extend {s t : World} (h : Covering base start todo s)
    (htable : t.client.messageHandlers = s.client.messageHandlers)
    (htrace : ∃ ev, t.trace = ev ++ s.trace) : Covering base start todo t := by
  obtain ⟨ev, hev⟩ := htrace
  obtain ⟨ev', hev'⟩ := h.trace
  refine ⟨?_, ev ++ ev', by rw [hev, hev', List.append_assoc]⟩
  rw [htable, hev]
  exact covered_of_due h.covered ev fun i hi => ⟨hi, rfl⟩

/-- Whoever leaves the table alone leaves what covers it alone. -/
theorem kept_covering : KeptByBystanders (fun _ _ => True) (Covering base start todo) where
  keep _ _ h hs := hs.extend h.messageHandlers h.trace
  guar _ _ _ := trivial

/-- Fewer slots are covered as well. -/
theorem Covering.weaken {w : World} (h : Covering base start todo w)
    (htodo : ∀ i handler, todo i handler → todo' i handler) : Covering base start todo' w := by
  refine ⟨?_, h.trace⟩
  exact covered_of_due h.covered [] fun i hi => ⟨⟨hi.1, fun ht => hi.2 (htodo _ _ ht)⟩, rfl⟩

/-- A SUBSCRIBE for `handler` has been acknowledged just now. -/
def Confirmed (handler : MessageHandler) (start : Nat) (todo : Nat → MessageHandler → Prop)
    (w : World) : Prop :=
  ∃ newer older, w.trace = newer ++ .received .suback :: older ∧
    w.client.messageHandlers.Covered older start todo ∧
    w.trace.Acknowledged start handler older.length

/-- A slot whose subscription has been confirmed is covered with the others. -/
theorem Covering.of_confirmed {k : Nat} {handler : MessageHandler} {s t : World}
    (h : Confirmed handler start todo s) (hs : ∃ ev, s.trace = ev ++ base)
    (htrace : t.trace = s.trace)
    (hdue : ∀ i, t.client.messageHandlers.Due todo' i →
      i = k ∧ t.client.messageHandlers.slot i = handler ∨
      s.client.messageHandlers.Due todo i ∧
        t.client.messageHandlers.slot i = s.client.messageHandlers.slot i) :
    Covering base start todo' t := by
  obtain ⟨newer, older, hnewer, hcovered, hack⟩ := h
  rw [hnewer] at hack
  refine ⟨?_, htrace ▸ hs⟩
  rw [htrace, hnewer]
  exact covered_of_acknowledged hcovered hack hdue

/-! ## Requesting a subscription -/

variable {call : Call → M IotError}

/-- What each call does for the code that calls it. -/
abbrev Spec (call : Call → M IotError) : Prop :=
  ∀ base start todo, start ≤ base.length →
    CallsKeep anything (fun _ _ => True) (Covering base start todo) call

/-- Send the packet in the transmit buffer, and go on when its SUBACK is there. -/
theorem wp_request (hcall : Spec call) (hstart : start ≤ base.length) {fuel len : Nat}
    {handler : MessageHandler} {next : M IotError} {Φ : IotError → World → Prop} {s : World}
    (hpacket : handler.IsRequestedBy (s.client.writeBuf.load 0 (len % 2 ^ 32)))
    (hnext : ∀ t, t.stack = s.stack → Covering base start todo t →
      Confirmed handler start todo t → wp unrestricted next Φ t)
    (hfail : ∀ rc t, rc ≠ .success → t.stack = s.stack → Covering base start todo t → Φ rc t)
    (hs : Covering base start todo s) :
    wp unrestricted (internalSendPacket fuel (len % 2 ^ 32) .command >>= fun rc => onSuccess rc
      (internalWaitForRead fuel call .suback >>= fun rc => onSuccess rc next)) Φ s := by
  rw [wp_bind]
  refine wp_mono (fun rc t ht => ?_) (wp_and (wp_quiet_unrestricted s
    (isQuiet_internalSendPacket fuel (len % 2 ^ 32) .command)) (wp_internalSendPacket_sent _ _ _ s))
  obtain ⟨hquiet, hsent⟩ := ht
  have ht : Covering base start todo t := kept_covering.keep s t (.of_quiet hquiet) hs
  rw [wp_onSuccess]
  refine ⟨fun hrc => ?_, fun hrc => hfail rc t hrc hquiet.stack_eq ht⟩
  obtain ⟨v, ⟨-, -, ev, hev, -⟩, heq⟩ := hsent.1 hrc
  have htrace : t.trace = .sent (s.client.writeBuf.load 0 (len % 2 ^ 32)) :: (ev ++ s.trace) := by
    rw [heq, World.trace_log, hev]
  obtain ⟨ev', hbase⟩ := hs.trace
  have hlater : start ≤ t.trace.length := by
    rw [htrace, hbase]
    simp only [List.length_cons, List.length_append]
    omega
  -- the same world, as seen from the moment when the request was sent
  have ht' : Covering t.trace start todo t := ⟨ht.covered, [], rfl⟩
  rw [wp_bind]
  refine wp_mono (fun rc u hu => ?_) (wp_and
    (keeps_internalWaitForRead kept_covering (hcall base start todo hstart) fuel .suback t ht)
    (wp_internalWaitForRead_consumed kept_covering (hcall t.trace start todo hlater) rfl fuel ht'))
  obtain ⟨⟨hu, hstack⟩, -, hconsumed⟩ := hu
  have hstack' : u.stack = s.stack := hstack.trans hquiet.stack_eq
  rw [wp_onSuccess]
  refine ⟨fun hrc => hnext u hstack' hu ?_, fun hrc => hfail rc u hrc hstack' hu⟩
  -- the acknowledgement that the wait has consumed came after it
  obtain ⟨newer, older, hnewer, hcovering⟩ := hconsumed hrc
  obtain ⟨mid, hmid⟩ := hcovering.trace
  have holder : older = mid ++ .sent (s.client.writeBuf.load 0 (len % 2 ^ 32)) ::
      (ev ++ s.trace) := hmid.trans (by rw [htrace])
  refine ⟨newer, older, hnewer, hcovering.covered, newer, mid, _, ev ++ s.trace, ?_, hpacket, ?_,
    congrArg List.length holder⟩
  · rw [hnewer, ← holder]
  · rw [hbase]
    simp only [List.length_append]
    omega

/-- A serialized SUBSCRIBE lies in the transmit buffer. -/
theorem isRequestedBy_store {c : Client} {handler : MessageHandler} {topicName : CString}
    {packetId : UInt16} {packet : List UInt8} (htopic : handler.topicName = some topicName)
    (hmake : serializeSubscribe c.writeBufSize 0 packetId
      [(topicName.bytes, handler.topicNameLen, handler.qos)] = .ok packet) :
    handler.IsRequestedBy ((c.writeBuf.store 0 packet).load 0 (packet.length % 2 ^ 32)) := by
  rw [Nat.mod_eq_of_lt (length_serializeSubscribe_lt hmake), Memory.load_store]
  exact ⟨topicName, _, packetId, htopic, hmake⟩

/-! ## Calls made by handlers -/

/-- A subscribe enters a handler only with an acknowledgement of its own. -/
theorem keeps_addSubscription (hcall : Spec call) (hstart : start ≤ base.length)
    (fuel slot len : Nat)
    {handler : MessageHandler} (hslot : slot < numSubscribeHandlers) {s : World}
    (hpacket : handler.IsRequestedBy (s.client.writeBuf.load 0 (len % 2 ^ 32)))
    (hs : Covering base start todo s) :
    wp unrestricted (subscribeInSlot fuel call slot len handler)
      (fun _ t => Covering base start todo t ∧ t.stack = s.stack) s := by
  rw [subscribeInSlot, wp_framed]
  refine ⟨trivial, wp_mono (Φ := fun _ t => Covering base start todo t ∧
    t.stack = .subscribing slot :: s.stack) (fun rc t ht => ?_) ?_⟩
  · exact ⟨trivial, ht.1.extend rfl ⟨[_], rfl⟩, by rw [World.stack_log_leave, ht.2]; rfl⟩
  · refine wp_request hcall hstart hpacket (fun t hstack ht hconfirmed => ?_)
      (fun rc t _ hstack ht => ⟨ht, hstack⟩) (hs.extend rfl ⟨[_], rfl⟩)
    simp only [wp_bind, wp_getClient, true_and]
    split
    next => exact ⟨ht, hstack⟩
    next =>
      simp only [addSubscription, wp_bind, wp_modifyClient, true_and, pure_eq, wp_ret]
      refine ⟨.of_confirmed (k := slot) hconfirmed ht.trace rfl fun i hi => ?_, hstack⟩
      by_cases hik : i = slot
      · exact .inl ⟨hik, by rw [hik, World.client_onClient, HandlerTable.slot_set_self _ _ hslot]⟩
      · have hslot' := t.client.messageHandlers.slot_set_of_ne handler (Ne.symm hik)
        refine .inr ⟨?_, hslot'⟩
        rwa [HandlerTable.Due, World.client_onClient, hslot'] at hi

/-- So a subscribe keeps the slots covered. -/
theorem keeps_internalSubscribe (hcall : Spec call) (hstart : start ≤ base.length) (fuel : Nat)
    (topicName : CString) (topicNameLen : UInt16) (qos : QoS) (applicationHandler : HandlerName)
    (data : Nat) :
    Keeps anything (fun _ _ => True) (Covering base start todo)
      (internalSubscribe fuel call topicName topicNameLen qos applicationHandler data) := by
  intro s hs
  simp only [internalSubscribe, wp_bind, wp_getClient, true_and]
  refine wp_mono (fun _ t ht => ?_)
    (keeps_of_isQuiet kept_covering (isQuiet_countdown _ _) s hs)
  refine wp_mono (fun txPacketId u hu => ?_)
    (keeps_of_isQuiet kept_covering isQuiet_getNextPacketId t ht.1)
  have hstack : u.stack = s.stack := hu.2.trans ht.2
  refine wp_serialized trivial (fun rc _ => ⟨hu.1, hstack⟩) fun packet hmake => ⟨trivial, ?_⟩
  simp only [wp_bind, wp_getClient, true_and]
  split
  next => exact ⟨hu.1.extend rfl ⟨[], rfl⟩, hstack⟩
  next hindex =>
    refine wp_mono (fun rc v hv => ⟨hv.1, hv.2.trans hstack⟩)
      (keeps_addSubscription hcall hstart fuel _ packet.length (not_le.mp hindex) ?_
        (hu.1.extend rfl ⟨[], rfl⟩))
    exact isRequestedBy_store rfl hmake

/-- A slot that is freed needs no acknowledgement. -/
theorem keeps_removeSubscription (topicFilter : CString) :
    Keeps anything (fun _ _ => True) (Covering base start todo)
      (removeSubscription topicFilter) := by
  intro s hs
  simp only [removeSubscription, wp_bind, wp_modify, solo_guar, true_and, pure_eq, wp_ret]
  obtain ⟨ev, hev⟩ := hs.trace
  refine ⟨⟨?_, _ :: ev, congrArg (_ :: ·) hev⟩, rfl⟩
  refine covered_of_due hs.covered [_] fun i hi => ?_
  have hremoved := s.client.messageHandlers.slot_remove topicFilter i
  have hkept : (s.client.messageHandlers.remove topicFilter).slot i =
      s.client.messageHandlers.slot i := by
    split at hremoved
    next =>
      have := hi.1
      rw [World.withoutSubscription, World.client_log, World.client_onClient, hremoved] at this
      cases this
    next => exact hremoved
  refine ⟨?_, hkept⟩
  have hi' := hi
  rwa [HandlerTable.Due, World.withoutSubscription, World.client_log, World.client_onClient,
    hkept] at hi'

/-- The initialization frees all slots. -/
theorem keeps_init (params : InitParams) :
    Keeps anything (fun _ _ => True) (Covering base start todo) (init params) := by
  intro s hs
  unfold MqttClient.init
  split
  next =>
    simp only [wp_bind, wp_modifyClient, wp_emit, true_and, pure_eq, wp_ret]
    obtain ⟨ev, hev⟩ := hs.trace
    refine ⟨⟨?_, _ :: ev, congrArg (_ :: ·) hev⟩, rfl⟩
    refine covered_of_due hs.covered [_] fun i hi => ?_
    have hfree := s.client.messageHandlers.isFree_slot_cleared i
    have := hi.1.symm.trans hfree
    cases this
  next => exact ⟨hs, rfl⟩

theorem keeps_perform_covering (hcall : Spec call) (hstart : start ≤ base.length) (fuel : Nat)
    (c : Call) :
    Keeps anything (fun _ _ => True) (Covering base start todo) (perform fuel call c) := by
  have hcalls := hcall base start todo hstart
  by_cases hc : c.isOnTable = true
  · cases c with
    | init params => exact keeps_init params
    | subscribe topicName topicNameLen qos applicationHandler data =>
        simp only [perform, subscribe]
        split
        · exact keeps_exclusively kept_covering (keeps_internalSubscribe hcall hstart _ _ _ _ _ _)
        · exact .pure _
    | unsubscribe topicFilter topicFilterLen =>
        simp only [perform, unsubscribe]
        split
        · exact .pure _
        · refine keeps_exclusively kept_covering ?_
          exact (composes_keeps kept_covering hcalls fuel).internalUnsubscribe _ _
            (keeps_removeSubscription _)
    | _ => cases hc
  · exact keeps_perform kept_covering hcalls fuel (eq_false_of_ne_true hc)

/-- The calls that handlers make keep the slots covered, at any depth. -/
theorem spec_api (fuel : Nat) : Spec (api fuel) := by
  induction fuel with
  | zero => exact fun _ _ _ _ _ _ _ _ => trivial
  | succ fuel ih =>
      intro base start todo hstart c s hs _
      refine (wp_framed _ _ _ _).mpr ⟨trivial, ?_⟩
      refine wp_mono (fun rc t ht => ⟨trivial, ht.1.extend rfl ⟨[_], rfl⟩, ?_⟩)
        (keeps_perform_covering ih hstart fuel c _ (hs.extend rfl ⟨[_], rfl⟩))
      rw [World.stack_log_leave, ht.2]
      rfl

/-! ## Resubscribing -/

/-- The slots that the loop has still to come to. -/
def slotsFrom (itr limit : Nat) : Nat → MessageHandler → Prop := fun i _ => itr ≤ i ∧ i < limit

/-- A turn that succeeds covers its slot. -/
theorem wp_resubscribeSlot (hcall : Spec call) (hstart : start ≤ base.length)
    (fuel itr limit : Nat) {s : World} (hs : Covering base start (slotsFrom itr limit) s) :
    wp unrestricted (resubscribeSlot fuel call itr)
      (fun rc t => rc = .success → Covering base start (slotsFrom (itr + 1) limit) t) s := by
  simp only [resubscribeSlot, wp_bind, wp_getClient, true_and]
  refine wp_mono (fun _ t ht => ?_)
    (keeps_of_isQuiet kept_covering (isQuiet_countdown _ _) s hs)
  refine wp_mono (fun packetId u hu => ?_)
    (keeps_of_isQuiet kept_covering isQuiet_getNextPacketId t ht.1)
  split
  next => trivial
  next topicName htopic =>
    refine wp_serialized trivial
      (fun rc hrc h => absurd h ((reportsErrors_serializeSubscribe _ _ _ _).ne_success hrc))
      fun packet hmake => ⟨trivial, ?_⟩
    -- while it waits, the slot is left to do only with what was asked for
    let waiting : Nat → MessageHandler → Prop := fun i h =>
      slotsFrom (itr + 1) limit i h ∨ i = itr ∧ h = u.client.messageHandlers.slot itr
    have hwaiting : Covering base start waiting (u.onClient fun c =>
        { c with writeBuf := c.writeBuf.store 0 packet }) := by
      refine ⟨?_, hu.1.trace⟩
      refine covered_of_due hu.1.covered [] fun i hi => ⟨⟨hi.1, fun htodo => hi.2 ?_⟩, rfl⟩
      rcases Nat.eq_or_lt_of_le htodo.1 with rfl | hlt
      · exact .inr ⟨rfl, rfl⟩
      · exact .inl ⟨hlt, htodo.2⟩
    refine wp_request hcall hstart (isRequestedBy_store htopic hmake) (fun t _ ht hconfirmed => ?_)
      (fun rc t hrc _ _ h => absurd h hrc) hwaiting
    have hcovering : Covering base start (slotsFrom (itr + 1) limit) t := by
      refine .of_confirmed (k := itr) hconfirmed ht.trace rfl fun i hi => ?_
      by_cases hik : i = itr ∧ t.client.messageHandlers.slot i = u.client.messageHandlers.slot itr
      · exact .inl hik
      · exact .inr ⟨⟨hi.1, fun h => h.elim hi.2 hik⟩, rfl⟩
    simp only [wp_bind, wp_getClient, true_and]
    split
    next => exact fun _ => hcovering
    next => exact fun _ => hcovering

/-- Turns that all succeed cover their slots; by induction on the turns that are left. -/
theorem wp_resubscribeLoop (hcall : Spec call) (hstart : start ≤ base.length)
    (fuel itr remaining : Nat) {s : World}
    (hs : Covering base start (slotsFrom itr (itr + remaining)) s) :
    wp unrestricted (resubscribeLoop fuel call itr remaining)
      (fun rc t => rc = .success → Covering base start noSlot t) s := by
  induction remaining generalizing itr s with
  | zero => exact fun _ => hs.weaken fun i _ h => absurd h.2 (not_lt.mpr h.1)
  | succ remaining ih =>
      simp only [resubscribeLoop, wp_bind]
      refine wp_mono (fun rc t ht => ?_) (wp_resubscribeSlot hcall hstart fuel itr _ hs)
      rw [wp_onSuccess]
      refine ⟨fun hrc => ih (itr + 1) ?_, fun hrc h => absurd h hrc⟩
      rw [Nat.add_right_comm, Nat.add_assoc]
      exact ht hrc

/-- Before anything has been acknowledged, a dense table is covered but for
what the loop is going to do. -/
theorem covering_of_isDense {s : World} (hdense : s.client.messageHandlers.IsDense) :
    Covering s.trace s.trace.length
      (slotsFrom 0 (0 + s.client.messageHandlers.getFreeMessageHandlerIndex)) s := by
  have hnone : ∀ i, ¬ s.client.messageHandlers.Due
      (slotsFrom 0 (0 + s.client.messageHandlers.getFreeMessageHandlerIndex)) i := by
    intro i hi
    have hlimit : s.client.messageHandlers.getFreeMessageHandlerIndex ≤ i := by
      by_contra hlt
      exact hi.2 ⟨Nat.zero_le i, by omega⟩
    have := hi.1
    rw [hdense i hlimit] at this
    cases this
  exact ⟨⟨fun _ => 0, fun i hi => absurd hi (hnone i), fun i _ hi => absurd hi (hnone i)⟩, [], rfl⟩

/-- On a dense table, a resubscribe that succeeds covers all slots. -/
theorem wp_resubscribe (hcall : Spec call) (fuel : Nat) {s : World}
    (hdense : s.client.messageHandlers.IsDense) :
    wp unrestricted (resubscribe fuel call) (fun rc t => rc = .success →
      t.client.messageHandlers.Covered t.trace s.trace.length noSlot) s := by
  simp only [resubscribe, wp_bind, wp_isClientConnected, true_and]
  split
  next => exact nofun
  next =>
    simp only [wp_bind, wp_getClientState, true_and]
    split
    next => exact nofun
    next hidle =>
      simp only [wp_bind, wp_setClientState, not_not.mp hidle, if_true, true_and, wp_onSuccess,
        internalResubscribe, wp_getClient, ne_eq, not_true_eq_false, false_imp_iff, and_true,
        forall_const]
      have hs : Covering s.trace s.trace.length
          (slotsFrom 0 (0 + s.client.messageHandlers.getFreeMessageHandlerIndex))
          (s.granted .claim .connectedIdle .connectedResubscribeInProgress) :=
        (covering_of_isDense hdense).extend rfl ⟨[_], rfl⟩
      refine wp_mono (fun resubRc t ht => ?_) (wp_resubscribeLoop hcall le_rfl fuel 0 _ hs)
      have hcovered : ∀ u : World, u.client.messageHandlers = t.client.messageHandlers →
          (∃ ev, u.trace = ev ++ t.trace) → resubRc = .success →
          u.client.messageHandlers.Covered u.trace s.trace.length noSlot :=
        fun u htable htrace hresub => ((ht hresub).extend htable htrace).covered
      split
      next => exact fun h => hcovered _ rfl ⟨[_], rfl⟩ (by simpa using h)
      next =>
        refine fun h => hcovered _ rfl ⟨[_], rfl⟩ ?_
        by_contra hne
        rw [if_neg fun h => hne h.1] at h
        exact hne h

/-! ## A resubscribe that succeeds -/

/-- With the buffers that `aws_iot_mqtt_init` sets up. -/
structure DefaultBuffers (w : World) : Prop where
  readBufSize : w.client.readBufSize = awsIotMqttRxBufLen
  writeBufSize : w.client.writeBufSize = awsIotMqttTxBufLen

theorem DefaultBuffers.of_progressed {n : Nat} {s t : World} (h : DefaultBuffers s)
    (hprogressed : Progressed n s t) : DefaultBuffers t :=
  ⟨hprogressed.readBufSize.trans h.readBufSize, hprogressed.writeBufSize.trans h.writeBufSize⟩

/-- A SUBSCRIBE for one filter fits into the default transmit buffer. -/
theorem exists_serializeSubscribe (packetId : UInt16) (f : FilterRequest) :
    ∃ packet, serializeSubscribe awsIotMqttTxBufLen 0 packetId [f] = .ok packet ∧
      0 < packet.length ∧ packet.length < awsIotMqttTxBufLen := by
  have htopic := f.2.1.toNat_lt
  have hlen : 2 + (f.2.1.toNat + 2 + 1) < 2 ^ 32 := by omega
  have hmod : List.foldl (fun len f => (len + (f.2.1.toNat + 2 + 1)) % 2 ^ 32) 2 [f] =
      2 + (f.2.1.toNat + 2 + 1) := Nat.mod_eq_of_lt hlen
  have hfield := length_writeLenToBuffer_le (2 + (f.2.1.toNat + 2 + 1)) 4 (by decide) (by omega)
  have hfits : ¬ getFinalPacketLengthFromRemainingLength (2 + (f.2.1.toNat + 2 + 1)) >
      awsIotMqttTxBufLen := by
    simp only [getFinalPacketLengthFromRemainingLength, awsIotMqttTxBufLen]
    split <;> [skip; split <;> [skip; split]] <;> omega
  refine ⟨_, by simp only [serializeSubscribe, hmod, if_neg hfits]; rfl, ?_⟩
  simp only [List.length_append, List.length_cons, List.flatMap_cons, List.flatMap_nil,
    List.length_nil, writeUtf8String, writeUint16, memcpy, List.length_map, List.length_range,
    awsIotMqttTxBufLen]
  omega

/-- On an occupied slot a turn can succeed, with one acknowledgement. -/
theorem can_resubscribeSlot (fuel : Nat) {itr : Nat} {s : World} (hbuffers : DefaultBuffers s)
    (hoccupied : (s.client.messageHandlers.slot itr).isFree = false) :
    can (resubscribeSlot (fuel + 2) call itr) (fun rc t => rc = .success ∧ Progressed 1 s t) s := by
  simp only [can, resubscribeSlot, getClient, countdown, emit, getNextPacketId, canReturn_bind,
    canReturn_atomically, canReturn_modify]
  split
  next htopic =>
    have hfree : (s.client.messageHandlers.slot itr).isFree = true := by
      rw [MessageHandler.isFree]
      exact Option.isNone_iff_eq_none.mpr htopic
    rw [hfree] at hoccupied
    cases hoccupied
  next topicName htopic =>
    obtain ⟨packet, hpacket, hpos, hfits⟩ := exists_serializeSubscribe
      (if s.client.nextPacketId = 65535 then 1 else s.client.nextPacketId + 1)
      (topicName.bytes, (s.client.messageHandlers.slot itr).topicNameLen,
        (s.client.messageHandlers.slot itr).qos)
    have hmod : packet.length % 2 ^ 32 = packet.length :=
      Nat.mod_eq_of_lt (hfits.trans (by decide))
    refine can_serialized packet ?_ ?_
    · rw [← hbuffers.writeBufSize] at hpacket
      exact hpacket
    · rw [can, canReturn_bind, hmod]
      refine (can_internalSendPacket fuel .command hpos ?_).mono ?_
      · exact hfits.trans_eq hbuffers.writeBufSize.symm
      rintro _ t ⟨rfl, ht⟩
      have ht' : Progressed 0 s t := by
        refine Progressed.trans (m := 0) ?_ ht
        exact ⟨rfl, rfl, rfl, rfl, [_], rfl, rfl⟩
      -- the default buffers have room for an acknowledgement
      have hsize : ∀ w : World, w.client.readBufSize = s.client.readBufSize →
          5 ≤ w.client.readBufSize := fun w hw => by
        rw [hw, hbuffers.readBufSize]
        decide
      simp only [onSuccess, if_true, canReturn_bind]
      refine (can_internalWaitForRead (fuel + 1) (hsize t ht'.readBufSize)).mono ?_
      rintro _ u ⟨rfl, hholds, hu⟩
      obtain ⟨r, hr⟩ := hholds.deserializeSuback (hsize u (hu.readBufSize.trans ht'.readBufSize))
      simp only [if_true, canReturn_bind, canReturn_atomically, hr, pure_eq, canReturn_ret,
        true_and]
      exact ht'.trans hu

/-- On occupied slots the loop can, with one for each. -/
theorem can_resubscribeLoop (fuel : Nat) {itr remaining : Nat} {s : World}
    (hbuffers : DefaultBuffers s)
    (hoccupied : ∀ i, itr ≤ i → i < itr + remaining →
      (s.client.messageHandlers.slot i).isFree = false) :
    can (resubscribeLoop (fuel + 2) call itr remaining)
      (fun rc t => rc = .success ∧ Progressed remaining s t) s := by
  induction remaining generalizing itr s with
  | zero => exact (canReturn_ret _ _ _).mpr ⟨rfl, rfl, rfl, rfl, rfl, [], rfl, rfl⟩
  | succ remaining ih =>
      simp only [can, resubscribeLoop, canReturn_bind]
      refine (can_resubscribeSlot fuel hbuffers (hoccupied itr le_rfl (by omega))).mono ?_
      rintro _ t ⟨rfl, ht⟩
      simp only [onSuccess, if_true]
      refine (@ih (itr + 1) t (hbuffers.of_progressed ht) fun i hi hlt => ?_).mono ?_
      · rw [ht.messageHandlers]
        exact hoccupied i (by omega) (by omega)
      · rintro _ u ⟨rfl, hu⟩
        exact ⟨rfl, Nat.add_comm 1 remaining ▸ ht.trans hu⟩

/-- The slots before the first free one are occupied. -/
theorem isFree_slot_of_lt {t : HandlerTable} {i : Nat} (h : i < t.getFreeMessageHandlerIndex) :
    (t.slot i).isFree = false := by
  have hlength : i < t.slots.length := lt_of_lt_of_le h List.findIdx_le_length
  rw [t.slot_eq_getElem hlength]
  exact List.not_of_lt_findIdx h

/-- An idle client can resubscribe, with one SUBACK for each slot before the
first free one. -/
theorem can_resubscribe (fuel : Nat) {s : World} (hbuffers : DefaultBuffers s)
    (hidle : s.client.clientState = .connectedIdle) :
    can (resubscribe (fuel + 2) call) (fun rc t => rc = .success ∧
      Progressed s.client.messageHandlers.getFreeMessageHandlerIndex s t) s := by
  have hconnected : s.isClientConnected = true := by rw [World.isClientConnected, hidle]; rfl
  simp only [can, resubscribe, isClientConnected, getClientState, setClientState, getClient,
    canReturn_bind, canReturn_atomically, id_eq, hconnected, hidle,
    Bool.not_true, Bool.false_eq_true,
    if_false, ne_eq, not_true_eq_false, if_true, onSuccess, internalResubscribe]
  refine (can_resubscribeLoop fuel
    (s := s.granted .claim .connectedIdle .connectedResubscribeInProgress)
    ⟨hbuffers.readBufSize, hbuffers.writeBufSize⟩ fun i _ hi => ?_).mono ?_
  · exact isFree_slot_of_lt (t := s.client.messageHandlers) (by simpa using hi)
  rintro _ t ⟨rfl, ht⟩
  have hstate : t.client.clientState = .connectedResubscribeInProgress := ht.clientState
  simp only [hstate, if_true, not_true_eq_false, and_false, if_false, pure_eq,
    canReturn_ret, true_and]
  obtain ⟨ev, htrace, hcount⟩ := ht.trace
  refine ⟨hidle.symm, ht.messageHandlers, ht.readBufSize, ht.writeBufSize,
    .setState .release .connectedResubscribeInProgress .connectedIdle true :: (ev ++
      [.setState .claim .connectedIdle .connectedResubscribeInProgress true]), ?_, ?_⟩
  · rw [List.cons_append, List.append_assoc]
    exact congrArg (_ :: ·) htrace
  · rw [List.countP_cons_of_neg (by decide), List.countP_append, hcount]
    rfl

/-- There are no more SUBACKs to count than have come. -/
theorem card_le_countP {ev base : Trace} (positions : Finset Nat)
    (h : ∀ k ∈ positions, base.length ≤ k ∧
      ∃ newer older, ev ++ base = newer ++ .received .suback :: older ∧ older.length = k) :
    positions.card ≤ ev.countP Event.isSuback := by
  induction ev generalizing positions with
  | nil =>
      have hempty : positions = ∅ := by
        refine Finset.eq_empty_of_forall_notMem fun k hk => ?_
        obtain ⟨hle, newer, older, heq, hlength⟩ := h k hk
        have := congrArg List.length heq
        simp only [List.nil_append, List.length_append, List.length_cons] at this
        omega
      simp [hempty]
  | cons e ev ih =>
      -- the newest event takes up one position at most
      have hrest : (positions.erase (ev ++ base).length).card ≤ ev.countP Event.isSuback := by
        refine ih _ fun k hk => ?_
        obtain ⟨hne, hmem⟩ := Finset.mem_erase.mp hk
        obtain ⟨hle, newer, older, heq, hlength⟩ := h k hmem
        refine ⟨hle, ?_⟩
        cases newer with
        | nil =>
            cases heq
            exact absurd hlength.symm hne
        | cons e' newer => exact ⟨newer, older, (List.cons.inj heq).2, hlength⟩
      by_cases he : e.isSuback = true
      · rw [List.countP_cons_of_pos he]
        have := positions.pred_card_le_card_erase (a := (ev ++ base).length)
        omega
      · have hnot : (ev ++ base).length ∉ positions := by
          intro hmem
          obtain ⟨-, newer, older, heq, hlength⟩ := h _ hmem
          cases newer with
          | nil =>
              cases heq
              exact he rfl
          | cons e' newer =>
              have : (ev ++ base).length = (newer ++ .received .suback :: older).length :=
                congrArg List.length (List.cons.inj heq).2
              simp only [List.length_append, List.length_cons] at this hlength
              omega
        rw [List.countP_cons_of_neg he]
        rwa [Finset.erase_eq_of_notMem hnot] at hrest

/-- A table with an occupied slot behind its first free one has more
subscriptions than a resubscribe gets acknowledged. -/
theorem not_covered_of_progressed {s t : World} {m : Nat}
    (hprogressed : Progressed s.client.messageHandlers.getFreeMessageHandlerIndex s t)
    (hm : s.client.messageHandlers.getFreeMessageHandlerIndex ≤ m)
    (hoccupied : (s.client.messageHandlers.slot m).isFree = false) :
    ¬ t.client.messageHandlers.Covered t.trace s.trace.length noSlot := by
  rintro ⟨ack, hack, hinj⟩
  obtain ⟨ev, htrace, hcount⟩ := hprogressed.trace
  have hdue : ∀ i ∈ insert m (Finset.range s.client.messageHandlers.getFreeMessageHandlerIndex),
      t.client.messageHandlers.Due noSlot i := by
    intro i hi
    refine ⟨?_, id⟩
    rw [hprogressed.messageHandlers]
    rcases Finset.mem_insert.mp hi with rfl | hi
    · exact hoccupied
    · exact isFree_slot_of_lt (Finset.mem_range.mp hi)
  have hcard : (Finset.image ack
      (insert m (Finset.range s.client.messageHandlers.getFreeMessageHandlerIndex))).card =
        s.client.messageHandlers.getFreeMessageHandlerIndex + 1 := by
    rw [Finset.card_image_of_injOn fun i hi j hj heq => hinj i j (hdue i hi) (hdue j hj) heq,
      Finset.card_insert_of_notMem (by simpa using hm), Finset.card_range]
  have hle := @card_le_countP ev s.trace (Finset.image ack
    (insert m (Finset.range s.client.messageHandlers.getFreeMessageHandlerIndex))) (fun k hk => by
      obtain ⟨i, hi, rfl⟩ := Finset.mem_image.mp hk
      obtain ⟨newer, mid, packet, older, heq, -, hstart, hn⟩ := hack i (hdue i hi)
      refine ⟨?_, newer, _, htrace ▸ heq, hn.symm⟩
      rw [hn]
      simp only [List.length_append, List.length_cons]
      omega)
  omega

/-- A reconnect that succeeds has resubscribed with success. -/
theorem exists_resubscribe {fuel : Nat} {w t : World}
    (h : Returns anything (api fuel .attemptReconnect) w .networkReconnected t) :
    ∃ fuel' u v, Returns anything (resubscribe fuel' (api fuel')) u .success v ∧
      t = v.log (.leave (.call .attemptReconnect) .networkReconnected) := by
  cases fuel with
  | zero => exact absurd h not_returns_stop
  | succ fuel =>
      obtain ⟨v, hbody, rfl⟩ := returns_framed.mp h
      refine ⟨fuel, ?_⟩
      obtain ⟨connected, s₁, -, hbody⟩ := returns_bind.mp hbody
      split at hbody
      next => exact absurd (returns_ret.mp hbody).1 (by decide)
      next =>
        obtain ⟨_, s₂, -, hbody⟩ := returns_bind.mp hbody
        obtain ⟨clientState, s₃, -, hbody⟩ := returns_bind.mp hbody
        split at hbody
        next =>
          obtain ⟨_, s₄, -, hbody⟩ := returns_bind.mp hbody
          exact absurd (returns_ret.mp hbody).1 (by decide)
        next =>
          obtain ⟨rc, s₄, hresub, hbody⟩ := returns_bind.mp hbody
          have hresult := (results_resubscribe fuel).returns hresub
          by_cases hrc : rc = .success
          · rw [onSuccess, if_pos hrc] at hbody
            obtain rfl := (returns_ret.mp hbody).2
            exact ⟨s₃, v, hrc ▸ hresub, rfl⟩
          · rw [onSuccess, if_neg hrc] at hbody
            obtain rfl := (returns_ret.mp hbody).1
            exact absurd hresult (by decide)

/-- A resubscribe that succeeds has covered every occupied slot. -/
def ResubscribesAll (s : World) : Prop :=
  ∀ fuel t, Returns anything (resubscribe fuel (api fuel)) s .success t →
    t.client.messageHandlers.Covered t.trace s.trace.length noSlot

/-- On a dense table, success means that every handler has been subscribed again. -/
theorem resubscribesAll_of_isDense {s : World} (h : s.client.messageHandlers.IsDense) :
    ResubscribesAll s := fun fuel _ hret =>
  wp_returns (D := unrestricted) (wp_resubscribe (spec_api fuel) fuel h) hret rfl

/-- On any other table, a resubscribe can succeed and leave handlers out. -/
theorem isDense_of_resubscribesAll {s : World} (hbuffers : DefaultBuffers s)
    (hidle : s.client.clientState = .connectedIdle) (h : ResubscribesAll s) :
    s.client.messageHandlers.IsDense := by
  intro m hm
  by_contra hoccupied
  obtain ⟨_, t, hret, rfl, hprogressed⟩ := @can_resubscribe (api 2) 0 s hbuffers hidle
  exact not_covered_of_progressed hprogressed hm (eq_false_of_ne_true hoccupied) (h 2 t hret)

end Resubscription

open Resubscription

/-- Resubscribing on an idle client covers the table exactly if no slot behind
the first free one is occupied; and a reconnect that succeeds resubscribes. -/
theorem resubscribesAll_iff {s : World} (hbuffers : DefaultBuffers s)
    (hidle : s.client.clientState = .connectedIdle) :
    (ResubscribesAll s ↔ s.client.messageHandlers.IsDense) ∧
      ∀ fuel w t, Returns anything (api fuel .attemptReconnect) w .networkReconnected t →
        ∃ fuel' u v, Returns anything (resubscribe fuel' (api fuel')) u .success v ∧
          t = v.log (.leave (.call .attemptReconnect) .networkReconnected) :=
  ⟨⟨isDense_of_resubscribesAll hbuffers hidle, resubscribesAll_of_isDense⟩,
    fun _ _ _ => exists_resubscribe⟩

theorem resubscribesAll_subscribedWorld :
    (ResubscribesAll subscribedWorld ↔ subscribedWorld.client.messageHandlers.IsDense) ∧
      ∀ fuel w t, Returns anything (api fuel .attemptReconnect) w .networkReconnected t →
        ∃ fuel' u v, Returns anything (resubscribe fuel' (api fuel')) u .success v ∧
          t = v.log (.leave (.call .attemptReconnect) .networkReconnected) :=
  resubscribesAll_iff ⟨by decide +kernel, by decide +kernel⟩ (by decide +kernel)

/-- Two subscriptions have been made. -/
def pairedWorld : World :=
  (subscribedWorld.perform 20 (subscribeCall filterB) (subackPacket 3) []).2.2

/-- The first of them has been unsubscribed. -/
def sparseWorld : World :=
  (pairedWorld.perform 20 (.unsubscribe (some filterA) 1) (packet [0xB0, 2, 0, 4]) []).2.2

theorem perform_subscribe_filterB :
    (subscribedWorld.perform 20 (subscribeCall filterB) (subackPacket 3) []).1 = some .success ∧
      subscribedWorld.isCalm 20 (subscribeCall filterB) (subackPacket 3) = true ∧
      subscribedWorld.stack.isEmpty = true := by
  decide +kernel

theorem perform_unsubscribe_filterA :
    (pairedWorld.perform 20 (.unsubscribe (some filterA) 1) (packet [0xB0, 2, 0, 4]) []).1 =
        some .success ∧
      pairedWorld.isCalm 20 (.unsubscribe (some filterA) 1) (packet [0xB0, 2, 0, 4]) = true ∧
      pairedWorld.stack.isEmpty = true := by
  decide +kernel

theorem sparseWorld_spec :
    sparseWorld.client.clientState = .connectedIdle ∧
      sparseWorld.client.readBufSize = awsIotMqttRxBufLen ∧
      sparseWorld.client.writeBufSize = awsIotMqttTxBufLen ∧
      sparseWorld.client.messageHandlers.getFreeMessageHandlerIndex = 0 ∧
      (sparseWorld.client.messageHandlers.slot 1).isFree = false := by
  decide +kernel

theorem stack_connectedWorld : connectedWorld.stack.isEmpty = true := by decide +kernel

/-- The second subscription is not renewed. -/
theorem not_resubscribesAll_sparseWorld :
    ¬ ∀ w, AtRest subscribesAtRest w → ResubscribesAll w := by
  intro h
  have hcalm := subscribesAtRest_allowsCalm
  have hsubscribed : AtRest subscribesAtRest subscribedWorld :=
    .subscribed hcalm rfl (List.isEmpty_iff.mp stack_connectedWorld)
  have hpaired : AtRest subscribesAtRest pairedWorld :=
    hsubscribed.perform_calm hcalm (List.isEmpty_iff.mp perform_subscribe_filterB.2.2)
      perform_subscribe_filterB.2.1 perform_subscribe_filterB.1
  have hsparse : AtRest subscribesAtRest sparseWorld :=
    hpaired.perform_calm hcalm (List.isEmpty_iff.mp perform_unsubscribe_filterA.2.2)
      perform_unsubscribe_filterA.2.1 perform_unsubscribe_filterA.1
  obtain ⟨hidle, hread, hwrite, hfree, hoccupied⟩ := sparseWorld_spec
  have hdense := isDense_of_resubscribesAll ⟨hread, hwrite⟩ hidle (h sparseWorld hsparse)
  have := hdense 1 (by rw [hfree]; exact Nat.zero_le 1)
  rw [hoccupied] at this
  cases this

end MqttClient
