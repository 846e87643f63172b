import MqttClient.Client.Traversal
import MqttClient.Session.Verdicts

/-! # Calls that no handler disturbs

A handler that makes no calls leaves the client as it was, so that a call leaves behind
what it has done itself. The table of handlers then changes in two places only: where a
subscribe fills its slot, and where an unsubscribe frees the slots of its filter.
-/

namespace MqttClient

open Effect Program

/-- Handlers make no calls. -/
def Policy.IsRestful (allow : Policy) : Prop :=
  ∀ w (next : Option Call), allow .application w next → next = none

/-- What is seen of the world is the same before and behind the program. -/
def Preserves (allow : Policy) {γ α : Type} (view : World → γ) (p : M α) : Prop :=
  ∀ ⦃s a t⦄, Returns allow p s a t → view t = view s

/-- What is seen does not depend on the trace, nor on what quiet steps change. -/
structure IsSteady {γ : Type} (view : World → γ) : Prop where
  quiet : ∀ s t, Quiet s t → view t = view s
  log : ∀ w e, view (w.log e) = view w
  messages : ∀ (w : World) messages, view { w with messages := messages } = view w

theorem isSteady_messageHandlers : IsSteady (·.client.messageHandlers) where
  quiet _ _ h := h.messageHandlers
  log _ _ := rfl
  messages _ _ := rfl

/-- The table of handlers, and the client state. -/
def World.standing (w : World) : HandlerTable × ClientState :=
  (w.client.messageHandlers, w.client.clientState)

theorem isSteady_standing : IsSteady World.standing where
  quiet _ _ h := Prod.ext h.messageHandlers h.clientState
  log _ _ := rfl
  messages _ _ := rfl

section Views

variable {allow : Policy} {α γ : Type} {view : World → γ} {fuel : Nat} {call : Call → M IotError}

theorem preserves_modify {f : World → World} (h : ∀ w, view (f w) = view w) :
    Preserves allow view (Program.modify f : M Unit) := by
  intro s _ t hret
  rw [returns_modify.mp hret]
  exact h s

theorem preserves_query (q : Query) :
    Preserves allow view (Program.query q : M (Answer q)) := by
  intro s _ t hret
  obtain ⟨_, -, hdone⟩ := returns_ask.mp hret
  rw [(returns_ret.mp hdone).2]

/-- Application code that makes no calls does nothing. -/
theorem preserves_application (hrest : allow.IsRestful) :
    Preserves allow view (application fuel call) := by
  intro s _ t hret
  cases fuel with
  | zero => exact absurd hret not_returns_stop
  | succ fuel =>
      obtain ⟨r, u, hbody, hnext⟩ := returns_bind.mp hret
      obtain ⟨next, v, hask, hcall⟩ := returns_bind.mp hbody
      obtain ⟨_, hallow, hanswer⟩ := returns_ask.mp hask
      obtain ⟨rfl, rfl⟩ := returns_ret.mp hanswer
      obtain rfl : next = none := hrest _ _ hallow
      obtain ⟨rfl, rfl⟩ := returns_ret.mp hcall
      rw [(returns_ret.mp hnext).2]

variable (hview : IsSteady view)

include hview

theorem sequences_preserves : Sequences fun _ p => Preserves allow view p where
  plain h _ _ _ hret := hview.quiet _ _ (quiet_of_returns h.isIo.isQuiet hret)
  bind hp hg _ _ _ hret := by
    obtain ⟨a, u, hfirst, hnext⟩ := returns_bind.mp hret
    exact (hg a hnext).trans (hp hfirst)

theorem preserves_emit (e : Event) : Preserves allow view (emit e) :=
  preserves_modify fun w => hview.log w e

theorem transports_preserves : Transports (fun _ => True) fun _ p => Preserves allow view p where
  toSequences := sequences_preserves hview
  delivered f hf := preserves_modify fun w => by
    obtain ⟨name, topic, payload, data, heq⟩ := hf w
    rw [heq]
    exact hview.log w _
  framed _ hbody := by
    have hseq : Sequences fun _ p => Preserves allow view p := sequences_preserves hview
    exact hseq.bind (preserves_emit hview _) fun _ => hseq.bind hbody fun _ =>
      hseq.bind (preserves_emit hview _) fun _ => hseq.pure _
  query q _ := preserves_query q
  emit e _ := preserves_emit hview e

theorem dispatches_preserves : Dispatches (fun _ => True) fun _ p => Preserves allow view p where
  toFrames := (transports_preserves hview).toFrames
  io h _ _ _ hret := hview.quiet _ _ (quiet_of_returns h.isIo.isQuiet hret)
  handled hdeliver := by
    have hpop : ∀ msg, Preserves allow view (popMessage msg) := by
      intro msg s a t hret
      rw [(returns_atomically.mp hret).2]
      exact hview.messages s _
    refine (sequences_preserves hview).internalHandlePublish ?_ ?_ hpop hdeliver
    · exact fun _ _ _ _ _ _ hret =>
        hview.quiet _ _ (quiet_of_returns (isQuiet_internalSendPacket _ _ _) hret)
    · exact fun msg => preserves_modify fun w => hview.messages w _

end Views

/-! ## Waiting for packets -/

section Waits

variable {allow : Policy} {fuel : Nat} {call : Call → M IotError} {rc : IotError} {s t : World}

theorem Preserves.messageHandlers {α : Type} {p : M α} (h : Preserves allow World.standing p) :
    Preserves allow (·.client.messageHandlers) p := fun _ _ _ hret => congrArg Prod.fst (h hret)

/-- A change of the state that expects the present one is granted. -/
theorem granted_of_returns {change : StateChange} {expected new : ClientState}
    (hstate : s.client.clientState = expected)
    (h : Returns allow (setClientState change expected new) s rc t) :
    rc = .success ∧ t = s.granted change expected new := by
  obtain ⟨rfl, rfl⟩ := returns_atomically.mp h
  exact ⟨if_pos hstate, if_pos hstate⟩

variable (hrest : allow.IsRestful)

include hrest

/-- The state is changed for the handlers, and changed back behind them. -/
theorem preserves_internalDeliverMessage (topicOff : Nat) (topicNameLen : UInt16) :
    Preserves allow World.standing (internalDeliverMessage fuel call topicOff topicNameLen) := by
  intro s rc t hret
  obtain ⟨clientState, _, hlook, hret⟩ := returns_bind.mp hret
  obtain ⟨rfl, rfl⟩ := returns_atomically.mp hlook
  obtain ⟨_, u, hwaiting, hret⟩ := returns_bind.mp hret
  obtain ⟨-, rfl⟩ := granted_of_returns rfl hwaiting
  obtain ⟨_, v, hloop, hback⟩ := returns_bind.mp hret
  have hv : v.standing = _ := (dispatches_preserves isSteady_standing).deliverMessageLoop
    (fun _ => trivial) (preserves_application hrest) _ _ _ hloop
  obtain ⟨htable, hstate⟩ := Prod.mk.inj hv
  obtain ⟨-, rfl⟩ := granted_of_returns hstate hback
  exact Prod.ext htable rfl

theorem preserves_internalCycleRead (timer : TimerName) :
    Preserves allow World.standing (internalCycleRead fuel call timer) :=
  (dispatches_preserves isSteady_standing).internalCycleRead
    (preserves_internalDeliverMessage hrest) timer

theorem preserves_internalWaitForRead (packetType : MessageType) :
    Preserves allow World.standing (internalWaitForRead fuel call packetType) :=
  (dispatches_preserves isSteady_standing).internalWaitForRead
    (preserves_internalCycleRead hrest) trivial

theorem composes_preserves : Composes fuel call (Preserves allow World.standing) :=
  (dispatches_preserves isSteady_standing).composes (preserves_internalWaitForRead hrest)

end Waits

/-! ## Operations on the table -/

section Operations

variable {allow : Policy} {fuel : Nat} {call : Call → M IotError} {rc : IotError} {s t : World}
  (hrest : allow.IsRestful)

include hrest

/-- Send a packet and wait for its acknowledgement: without one the request fails, and what
follows on one starts with the table and the state as they were. -/
theorem returns_awaited {length : Nat} {packetType : MessageType} {next : M IotError}
    (h : Returns allow (internalSendPacket fuel length .command >>= fun rc => onSuccess rc
      (internalWaitForRead fuel call packetType >>= fun rc => onSuccess rc next)) s rc t) :
    rc ≠ .success ∧ t.standing = s.standing ∨
      ∃ u, u.standing = s.standing ∧ Returns allow next u rc t := by
  obtain ⟨sendRc, u, hsend, hnext⟩ := returns_bind.mp h
  have hu := (dispatches_preserves isSteady_standing).send _ _ _ hsend
  by_cases hsent : sendRc = .success
  · rw [onSuccess, if_pos hsent] at hnext
    obtain ⟨waitRc, v, hwait, hnext⟩ := returns_bind.mp hnext
    have hv := preserves_internalWaitForRead hrest packetType hwait
    by_cases hwaited : waitRc = .success
    · rw [onSuccess, if_pos hwaited] at hnext
      exact .inr ⟨v, hv.trans hu, hnext⟩
    · rw [onSuccess, if_neg hwaited] at hnext
      obtain ⟨rfl, rfl⟩ := returns_ret.mp hnext
      exact .inl ⟨hwaited, hv.trans hu⟩
  · rw [onSuccess, if_neg hsent] at hnext
    obtain ⟨rfl, rfl⟩ := returns_ret.mp hnext
    exact .inl ⟨hsent, hu⟩

/-- The slot is filled if there is a SUBACK that can be taken apart. -/
theorem returns_subscribeInSlot_standing {slot len : Nat} {handler : MessageHandler}
    (h : Returns allow (subscribeInSlot fuel call slot len handler) s rc t) :
    rc ≠ .success ∧ t.standing = s.standing ∨
      t.standing = (s.client.messageHandlers.set slot handler, s.client.clientState) := by
  obtain ⟨v, hrequest, rfl⟩ := returns_framed.mp h
  rcases returns_awaited hrest hrequest with hfailed | ⟨u, hu, hjudge⟩
  · exact .inl hfailed
  · obtain ⟨htable, hstate⟩ := Prod.mk.inj hu
    obtain ⟨_, _, hlook, hjudge⟩ := returns_bind.mp hjudge
    obtain ⟨rfl, rfl⟩ := returns_atomically.mp hlook
    split at hjudge
    next error herror =>
      obtain ⟨rfl, rfl⟩ := returns_ret.mp hjudge
      exact .inl ⟨(reportsErrors_deserializeSuback _ _ _).ne_success herror, hu⟩
    next =>
      obtain ⟨_, _, hfill, hdone⟩ := returns_bind.mp hjudge
      obtain rfl := returns_modify.mp hfill
      obtain ⟨rfl, rfl⟩ := returns_ret.mp hdone
      exact .inr (Prod.ext (congrArg (HandlerTable.set · slot handler) htable) hstate)

/-- The slot that a subscribe fills is the first free one of the table that it finds. -/
theorem returns_internalSubscribe_standing {topicName : CString} {topicNameLen : UInt16} {qos : QoS}
    {applicationHandler : HandlerName} {data : Nat}
    (h : Returns allow (internalSubscribe fuel call topicName topicNameLen qos applicationHandler
      data) s rc t) :
    rc ≠ .success ∧ t.standing = s.standing ∨
      s.client.messageHandlers.getFreeMessageHandlerIndex < numSubscribeHandlers ∧
        t.standing = (s.client.messageHandlers.set
          s.client.messageHandlers.getFreeMessageHandlerIndex
            ⟨some topicName, topicNameLen, qos, some applicationHandler, data⟩,
          s.client.clientState) := by
  obtain ⟨_, s₁, hclient, h₁⟩ := returns_bind.mp h
  obtain ⟨_, s₂, hcountdown, h₂⟩ := returns_bind.mp h₁
  obtain ⟨packetId, s₃, hid, h₃⟩ := returns_bind.mp h₂
  have hs₃ : s₃.standing = s.standing := by
    obtain ⟨-, rfl⟩ := returns_atomically.mp hclient
    obtain rfl := returns_modify.mp hcountdown
    obtain ⟨-, rfl⟩ := returns_atomically.mp hid
    rfl
  rcases returns_serialized h₃ with ⟨herror, rfl⟩ | ⟨packet, v, hv, hnext, -⟩
  · exact .inl ⟨(reportsErrors_serializeSubscribe _ _ _ _).ne_success herror, hs₃⟩
  · have hstanding : v.standing = s.standing := by
      rw [hv]
      exact hs₃
    obtain ⟨htable, hstate⟩ := Prod.mk.inj hstanding
    obtain ⟨_, _, hlook, h₄⟩ := returns_bind.mp hnext
    obtain ⟨rfl, rfl⟩ := returns_atomically.mp hlook
    dsimp only [id_eq] at h₄
    rw [htable] at h₄
    split at h₄
    next hfull =>
      obtain ⟨rfl, rfl⟩ := returns_ret.mp h₄
      exact .inl ⟨nofun, hstanding⟩
    next hroom =>
      rcases returns_subscribeInSlot_standing hrest h₄ with ⟨hrc, ht⟩ | ht
      · exact .inl ⟨hrc, ht.trans hstanding⟩
      · rw [htable, hstate] at ht
        exact .inr ⟨Nat.lt_of_not_le hroom, ht⟩

/-- The slots of a filter are freed if there is an UNSUBACK that can be taken apart. -/
theorem returns_internalUnsubscribe_standing {topicFilter : CString} {topicFilterLen : UInt16}
    (h : Returns allow (internalUnsubscribe fuel call topicFilter topicFilterLen) s rc t) :
    rc ≠ .success ∧ t.standing = s.standing ∨
      s.client.messageHandlers.subscriptionExists topicFilter = true ∧
        t.standing = (s.client.messageHandlers.remove topicFilter, s.client.clientState) := by
  obtain ⟨_, _, hclient, h₁⟩ := returns_bind.mp h
  obtain ⟨rfl, hstart⟩ := returns_atomically.mp hclient
  obtain rfl : s = _ := hstart.symm
  split at h₁
  next hnone =>
    obtain ⟨rfl, rfl⟩ := returns_ret.mp h₁
    exact .inl ⟨nofun, rfl⟩
  next hsome =>
    obtain ⟨_, s₂, hcountdown, h₂⟩ := returns_bind.mp h₁
    obtain ⟨packetId, s₃, hid, h₃⟩ := returns_bind.mp h₂
    have hs₃ : s₃.standing = s.standing := by
      obtain rfl := returns_modify.mp hcountdown
      obtain ⟨-, rfl⟩ := returns_atomically.mp hid
      rfl
    rcases returns_serialized h₃ with ⟨herror, rfl⟩ | ⟨packet, v, hv, hnext, -⟩
    · exact .inl ⟨(reportsErrors_serializeUnsubscribe _ _ _ _).ne_success herror, hs₃⟩
    · have hstanding : v.standing = s₃.standing := by
        rw [hv]
        rfl
      rcases returns_awaited hrest hnext with ⟨hrc, ht⟩ | ⟨u, hu, hjudge⟩
      · exact .inl ⟨hrc, ht.trans (hstanding.trans hs₃)⟩
      · -- an acknowledgement has come, and the table is as it was
        have hu' := hu.trans (hstanding.trans hs₃)
        obtain ⟨htable, hstate⟩ := Prod.mk.inj hu'
        obtain ⟨_, _, hlook, hjudge⟩ := returns_bind.mp hjudge
        obtain ⟨rfl, rfl⟩ := returns_atomically.mp hlook
        split at hjudge
        next error herror =>
          obtain ⟨rfl, rfl⟩ := returns_ret.mp hjudge
          exact .inl ⟨(reportsErrors_deserializeUnsuback _ _).ne_success herror, hu'⟩
        next =>
          obtain ⟨_, _, hfree, hdone⟩ := returns_bind.mp hjudge
          obtain rfl := returns_modify.mp hfree
          obtain ⟨rfl, rfl⟩ := returns_ret.mp hdone
          have hexists : s.client.messageHandlers.subscriptionExists topicFilter = true := by
            simpa using hsome
          exact .inr
            ⟨hexists, Prod.ext (congrArg (HandlerTable.remove · topicFilter) htable) hstate⟩

end Operations

/-! ## Calls -/

/-- The table that a call makes of this one, if it does its work on the table. -/
def Call.edited (c : Call) (table : HandlerTable) : Option HandlerTable :=
  match c with
  | .init _ => some table.cleared
  | .subscribe (some topicName) topicNameLen qos (some applicationHandler) data =>
      if table.getFreeMessageHandlerIndex < numSubscribeHandlers then
        some (table.set table.getFreeMessageHandlerIndex
          ⟨some topicName, topicNameLen, qos, some applicationHandler, data⟩)
      else none
  | .unsubscribe (some topicFilter) _ =>
      if table.subscriptionExists topicFilter then some (table.remove topicFilter) else none
  | _ => none

section Calls

variable {allow : Policy} {fuel : Nat} {call : Call → M IotError} {rc : IotError} {s t : World}

/-- Setting, resetting and changing the state leave the table alone. -/
theorem offTable_preserves :
    OffTable (fun _ => True) fun _ p => Preserves allow (·.client.messageHandlers) p := by
  have hview := isSteady_messageHandlers
  have hset : ∀ change expected new,
      Preserves allow (·.client.messageHandlers) (setClientState change expected new) :=
    fun _ _ _ _ _ _ hret => (returns_setClientState hret).1
  exact {
    toFrames := (transports_preserves hview).toFrames
    io := (dispatches_preserves hview).io
    handled := (dispatches_preserves hview).handled
    query := (transports_preserves hview).query
    emit := (transports_preserves hview).emit
    setState := fun change expected new _ => hset change expected new
    putState := fun new _ => preserves_modify fun _ => rfl
    prepare := fun change expected => hset change expected _
    putBack := preserves_modify fun _ => rfl
    change := fun f hf => preserves_modify fun w => (hf w.client).messageHandlers }

variable (hrest : allow.IsRestful)

include hrest

/-- A call that does no work on the table leaves it alone. -/
theorem preserves_perform {c : Call} (hc : c.isOnTable = false) :
    Preserves allow (·.client.messageHandlers) (perform fuel call c) := by
  have hsteps : OffTable _ fun _ p => Preserves allow (·.client.messageHandlers) p :=
    offTable_preserves
  have hcomposes : Composes fuel call (Preserves allow World.standing) := composes_preserves hrest
  have hhandshake := hcomposes.handshake.messageHandlers
  apply hsteps.perform (fun _ _ => trivial) (preserves_application hrest)
  · exact fun timer => (preserves_internalCycleRead hrest timer).messageHandlers
  · intro params
    exact hsteps.connect fun _ =>
      hsteps.connectFrom trivial hhandshake params _
  · intro htable
    rw [hc] at htable
    cases htable

omit hrest in
/-- An initialization is refused, or it clears the table. -/
theorem returns_init {params : InitParams} (h : Returns allow (init params) s rc t) :
    rc = .nullValueError ∧ t = s ∨
      rc = .success ∧ t.standing = (s.client.messageHandlers.cleared, .initialized) := by
  unfold init at h
  split at h
  next =>
    obtain ⟨_, _, hset, h⟩ := returns_bind.mp h
    obtain rfl := returns_modify.mp hset
    obtain ⟨_, _, hput, h⟩ := returns_bind.mp h
    obtain rfl := returns_modify.mp hput
    obtain ⟨rfl, rfl⟩ := returns_ret.mp h
    exact .inr ⟨rfl, rfl⟩
  next =>
    obtain ⟨rfl, rfl⟩ := returns_ret.mp h
    exact .inl ⟨rfl, rfl⟩

/-- A call leaves the table as it was, or changed by the one request that it makes of it. -/
theorem edited_of_returns {c : Call} (h : Returns allow (perform fuel call c) s rc t) :
    (c.isOnTable = true → rc ≠ .success) ∧
        t.client.messageHandlers = s.client.messageHandlers ∨
      c.edited s.client.messageHandlers = some t.client.messageHandlers := by
  cases hc : c.isOnTable with
  | false => exact .inl ⟨nofun, preserves_perform hrest hc h⟩
  | true =>
      cases c with
      | init params =>
          rcases returns_init h with ⟨rfl, rfl⟩ | ⟨-, ht⟩
          · exact .inl ⟨nofun, rfl⟩
          · exact .inr (congrArg some (congrArg Prod.fst ht).symm)
      | subscribe topicName topicNameLen qos applicationHandler data =>
          dsimp only [perform, subscribe] at h
          split at h
          next topicName handler =>
            rcases returns_exclusively h with
              ⟨hrc, rfl⟩ | ⟨bodyRc, v, _, hbody, htable, -, -, hfailed, -⟩
            · exact .inl ⟨fun _ => hrc, rfl⟩
            · -- the claim and its release leave the table to the body
              rw [htable]
              rcases returns_internalSubscribe_standing hrest hbody with ⟨hne, hv⟩ | ⟨hroom, hv⟩
              · exact .inl ⟨fun _ => hfailed hne ▸ hne, congrArg Prod.fst hv⟩
              · exact .inr ((if_pos hroom).trans (congrArg some (congrArg Prod.fst hv).symm))
          next =>
            obtain ⟨rfl, rfl⟩ := returns_ret.mp h
            exact .inl ⟨nofun, rfl⟩
      | unsubscribe topicFilter topicFilterLen =>
          dsimp only [perform, unsubscribe] at h
          split at h
          next =>
            obtain ⟨rfl, rfl⟩ := returns_ret.mp h
            exact .inl ⟨nofun, rfl⟩
          next topicFilter =>
            rcases returns_exclusively h with
              ⟨hrc, rfl⟩ | ⟨bodyRc, v, _, hbody, htable, -, -, hfailed, -⟩
            · exact .inl ⟨fun _ => hrc, rfl⟩
            · rw [htable]
              rcases returns_internalUnsubscribe_standing hrest hbody with ⟨hne, hv⟩ | ⟨hexists, hv⟩
              · exact .inl ⟨fun _ => hfailed hne ▸ hne, congrArg Prod.fst hv⟩
              · exact .inr ((if_pos hexists).trans (congrArg some (congrArg Prod.fst hv).symm))
      | _ => cases hc

end Calls

/-! ## The connection -/

/-- The client is connected, or on its way back. -/
def World.isLinked (w : World) : Bool :=
  w.client.clientState.isConnected || w.client.clientState = .pendingReconnect

def Call.needsConnection : Call → Bool
  | .publish _ _ _ | .subscribe _ _ _ _ _ | .unsubscribe _ _ | .yield _ => true
  | _ => false

section Connection

variable {allow : Policy} {fuel : Nat} {call : Call → M IotError} {rc : IotError} {s t : World}

theorem not_connected_of_not_linked (h : s.isLinked = false) :
    s.client.clientState.isConnected = false ∧ s.client.clientState ≠ .pendingReconnect := by
  simpa [World.isLinked] using h

theorem returns_exclusively_of_not_connected {inProgress : ClientState} {body : M IotError}
    {onRefused : ClientState → IotError → M IotError}
    (hs : s.client.clientState.isConnected = false)
    (h : Returns allow (exclusively inProgress body onRefused) s rc t) :
    rc ≠ .success ∧ t = s := by
  obtain ⟨connected, u, hlook, hrest⟩ := returns_bind.mp h
  obtain ⟨rfl, hu⟩ := returns_atomically.mp hlook
  obtain rfl : s = u := hu.symm
  rw [show s.isClientConnected = false from hs] at hrest
  obtain ⟨rfl, rfl⟩ := returns_ret.mp hrest
  exact ⟨nofun, rfl⟩

/-- Without a connection, and without one to come back, nothing is done. -/
theorem eq_of_not_linked {c : Call} (hc : c.needsConnection = true) (hs : s.isLinked = false)
    (h : Returns allow (perform fuel call c) s rc t) : rc ≠ .success ∧ t = s := by
  obtain ⟨hconnected, hpending⟩ := not_connected_of_not_linked hs
  -- every path ends in a plain return, or in a claim that is refused
  have hrefused : ∀ {rc'}, Returns allow (pure rc' : M IotError) s rc t → rc' ≠ .success →
      rc ≠ .success ∧ t = s := by
    intro rc' hret hrc'
    obtain ⟨rfl, rfl⟩ := returns_ret.mp hret
    exact ⟨hrc', rfl⟩
  cases c with
  | publish topicName topicNameLen params =>
      dsimp only [perform, publish] at h
      split at h
      · split at h
        · exact hrefused h nofun
        · exact returns_exclusively_of_not_connected hconnected h
      · exact hrefused h nofun
  | subscribe topicName topicNameLen qos handler data =>
      dsimp only [perform, subscribe] at h
      split at h
      · exact returns_exclusively_of_not_connected hconnected h
      · exact hrefused h nofun
  | unsubscribe topicFilter topicFilterLen =>
      dsimp only [perform, unsubscribe] at h
      split at h
      · exact hrefused h nofun
      · exact returns_exclusively_of_not_connected hconnected h
  | yield timeoutMs =>
      dsimp only [perform, yield] at h
      split at h
      · exact hrefused h nofun
      · obtain ⟨clientState, u, hlook, h⟩ := returns_bind.mp h
        obtain ⟨rfl, hu⟩ := returns_atomically.mp hlook
        obtain rfl : s = u := hu.symm
        split at h
        · exact hrefused h nofun
        · obtain ⟨connected, u, hlook, h⟩ := returns_bind.mp h
          obtain ⟨rfl, hu⟩ := returns_atomically.mp hlook
          obtain rfl : s = u := hu.symm
          rw [show s.isClientConnected = false from hconnected] at h
          exact hrefused h nofun
  | _ => cases hc

/-- A disconnect that succeeds leaves no connection; one that fails puts the state back. -/
theorem clientState_of_disconnect (h : Returns allow (disconnect fuel) s rc t) :
    rc ≠ .success ∧ t.client.clientState = s.client.clientState ∨
      rc = .success ∧ t.client.clientState = .disconnectedManually := by
  obtain ⟨clientState, u, hlook, h⟩ := returns_bind.mp h
  obtain ⟨rfl, hu⟩ := returns_atomically.mp hlook
  obtain rfl : s = u := hu.symm
  obtain ⟨connected, u, hlook, h⟩ := returns_bind.mp h
  obtain ⟨rfl, hu⟩ := returns_atomically.mp hlook
  obtain rfl : s = u := hu.symm
  split at h
  next =>
    obtain ⟨rfl, rfl⟩ := returns_ret.mp h
    exact .inl ⟨nofun, rfl⟩
  next =>
    obtain ⟨changeRc, u, hchange, h⟩ := returns_bind.mp h
    obtain ⟨rfl, rfl⟩ := granted_of_returns rfl hchange
    obtain ⟨internalRc, v, -, h⟩ := returns_bind.mp h
    split at h
    next hfailed =>
      obtain ⟨_, _, hput, h⟩ := returns_bind.mp h
      obtain rfl := returns_modify.mp hput
      obtain ⟨rfl, rfl⟩ := returns_ret.mp h
      exact .inl ⟨hfailed, rfl⟩
    next hdone =>
      obtain ⟨_, _, hput, h⟩ := returns_bind.mp h
      obtain rfl := returns_modify.mp hput
      obtain ⟨rfl, rfl⟩ := returns_ret.mp h
      exact .inr ⟨not_not.mp hdone, rfl⟩

/-- A connect that fails leaves the state as it was, or in error. -/
theorem clientState_of_connect (hrest : allow.IsRestful) {params : Option ConnectParams}
    (h : Returns allow (connect fuel call params) s rc t) :
    rc = .success ∨ t.client.clientState = s.client.clientState ∨
      t.client.clientState = .disconnectedError := by
  have hcomposes : Composes fuel call (Preserves allow World.standing) := composes_preserves hrest
  have htransports : Transports _ fun _ p => Preserves allow World.standing p :=
    transports_preserves isSteady_standing
  obtain ⟨clientState, u, hlook, h⟩ := returns_bind.mp h
  obtain ⟨rfl, hu⟩ := returns_atomically.mp hlook
  obtain rfl : s = u := hu.symm
  split at h
  next =>
    obtain ⟨claimRc, u, hclaim, h⟩ := returns_bind.mp h
    obtain ⟨rfl, rfl⟩ := granted_of_returns rfl hclaim
    obtain ⟨v, hconnect, rfl⟩ := returns_framed.mp h
    obtain ⟨internalRc, w, hinternal, h⟩ := returns_bind.mp hconnect
    -- nothing in between takes the state from this thread
    have hw := htransports.internalConnect hcomposes.handshake params hinternal
    split at h
    next =>
      obtain ⟨_, x, hclose, h⟩ := returns_bind.mp h
      have hx := htransports.netDisconnect hclose
      obtain ⟨_, y, hdestroy, h⟩ := returns_bind.mp h
      have hy := htransports.netDestroy hdestroy
      obtain ⟨_, z, hrelease, h⟩ := returns_bind.mp h
      -- so the release finds the state that the claim has left
      have hconnecting : y.client.clientState = .connecting :=
        congrArg Prod.snd (hy.trans (hx.trans hw))
      obtain ⟨-, rfl⟩ := granted_of_returns hconnecting hrelease
      obtain ⟨rfl, rfl⟩ := returns_ret.mp h
      exact .inr (.inr rfl)
    next hdone =>
      obtain ⟨_, x, hrelease, h⟩ := returns_bind.mp h
      obtain ⟨rfl, rfl⟩ := returns_ret.mp h
      exact .inl (not_not.mp hdone)
  next =>
    obtain ⟨rfl, rfl⟩ := returns_ret.mp h
    exact .inr (.inl rfl)

end Connection

end MqttClient
