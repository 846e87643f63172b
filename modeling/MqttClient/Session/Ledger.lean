import MqttClient.Client.Codes
import MqttClient.Session.Callbacks

/-! # The table as a ledger of subscriptions

Subscribing fills the first free slot and unsubscribing frees every slot with
its filter. Where no such call is made while another waits for its
acknowledgement, the occupied slots are the subscriptions that the calls have
reported.
-/

namespace MqttClient

open Effect Program

/-- The application initializes the client once. A message handler does not
subscribe or unsubscribe, and it does not connect or disconnect. -/
def exchangesOutside : (q : Query) → World → Answer q → Bool := fun q =>
  match q with
  | .application => fun w (next : Option Call) =>
      match next with
      | none => true
      | some c => !c.isInit && !(w.inHandler && (c.isSession || c.isOnTable))
  | _ => fun _ _ => true

def Event.isWrite : Event → Bool
  | .netWrite _ _ _ => true
  | _ => false

abbrev WritesNothing : World → World → Prop := Adds (·.isWrite = false)

/-- A client that is connected and may start an operation. -/
def ClientState.isReady : ClientState → Bool
  | .connectedIdle | .connectedWaitForCbReturn => true
  | _ => false

/-- The SUBSCRIBE packet for a filter of this length fits into the transmit buffer. -/
def Client.fitsSubscribe (c : Client) (topicNameLen : UInt16) : Bool :=
  getFinalPacketLengthFromRemainingLength (topicNameLen.toNat + 5) ≤ c.writeBufSize

/-- What a call that was made at `w` has left, when it has returned `rc`. -/
structure KeepsLedger (c : Call) (w : World) (rc : IotError) (w' : World) : Prop where
  /-- The occupied slots are the subscriptions. -/
  occupied : w'.client.messageHandlers.occupied = w'.trace.subscriptions
  /-- A subscribe or unsubscribe that fails leaves the table alone. -/
  failed : c.isOnTable = true → rc ≠ .success →
    w'.client.messageHandlers = w.client.messageHandlers
  /-- An unsubscribe for a filter without subscriptions fails and sends nothing. -/
  absent : ∀ topicFilter, c.unsubscription = some topicFilter →
    (∀ h ∈ w.trace.subscriptions, h.hasFilter topicFilter = false) →
      rc ≠ .success ∧ WritesNothing w w'
  /-- A subscribe that fits is refused for want of a slot exactly when the client
  is ready and all slots are taken, and then it sends nothing. -/
  full : ∀ h, c.subscription = some h → w.client.fitsSubscribe h.topicNameLen = true →
    (rc = .mqttMaxSubscriptionsReachedError ↔ w.client.clientState.isReady = true ∧
      w.trace.subscriptions.card = numSubscribeHandlers) ∧
    (rc = .mqttMaxSubscriptionsReachedError → WritesNothing w w')

namespace Ledger

open Callbacks

abbrev policy : Policy := fun q w a => exchangesOutside q w a = true

theorem staysInSession_of_policy {q : Query} {w : World} {a : Answer q} (h : policy q w a) :
    staysInSession q w a = true := by
  cases q with
  | application =>
      match a, h with
      | none, _ => simp [staysInSession]
      | some c, h =>
          simp only [policy, exchangesOutside, Bool.and_eq_true, Bool.not_eq_true',
            Bool.and_eq_false_iff, Bool.or_eq_false_iff] at h
          simp only [staysInSession, Option.any_some, Bool.not_eq_true', Bool.and_eq_false_iff]
          exact h.2.imp_right And.left
  | _ => rfl

/-- What keeps to the stack under fewer restrictions does so here. -/
theorem wp_of_callbacks {α : Type} {p : M α} {Φ : α → World → Prop} {s : World}
    (h : wp (discipline Callbacks.policy) p Φ s) : wp (discipline policy) p Φ s := by
  apply wp_mono _
    (wp_of_invariant (D := discipline Callbacks.policy) (E := discipline policy)
      (I := fun _ => True)
    (fun _ _ _ _ => trivial) (fun _ _ _ => staysInSession_of_policy)
    (fun _ _ _ _ => ⟨trivial, fun h => ⟨h, trivial⟩⟩) (fun _ _ _ ht => ⟨ht, trivial⟩)
    (fun _ _ _ => trivial) h trivial)
  exact fun _ _ ht => ht.1

/-- The table and the subscriptions are these. -/
abbrev exactly (table : HandlerTable) (subscriptions : Multiset MessageHandler) : Account :=
  fun table' subscriptions' => table' = table ∧ subscriptions' = subscriptions

/-- The occupied slots are the subscriptions. -/
abbrev balanced : Account := fun table subscriptions => table.occupied = subscriptions

/-- A call from a message handler leaves the table and the subscriptions alone,
and any call leaves them balanced. -/
structure Transacts (s t : World) : Prop where
  inHandler : s.inHandler = true → t.client.messageHandlers = s.client.messageHandlers ∧
    t.trace.subscriptions = s.trace.subscriptions
  balanced : s.client.messageHandlers.occupied = s.trace.subscriptions →
    t.client.messageHandlers.occupied = t.trace.subscriptions

theorem carries_transacts (K : Account) : Carries Transacts K := by
  intro s t hhandler h hs
  rw [(h.inHandler hhandler).1, (h.inHandler hhandler).2]
  exact hs

section Calls

variable {fuel : Nat} {call : Call → M IotError}
  (hcall : ∀ c s, Ready s → policy.allowsCall s c →
    wp (discipline policy) (call c) (fun _ t => (Ready t ∧ Extends s t) ∧ Transacts s t) s)

/-! ## Subscribing -/

/-- What a subscribe does to the table: it fills a free slot if it succeeds. -/
def filledBy (h : MessageHandler) (table : HandlerTable) (subscriptions : Multiset MessageHandler)
    (rc : IotError) : Account := fun table' subscriptions' => subscriptions' = subscriptions ∧
  (rc = .success → ∃ i, i < numSubscribeHandlers ∧ (table.slot i).isFree = true ∧
    table' = table.set i h) ∧
  (rc ≠ .success → table' = table)

theorem filledBy_of_ne {h : MessageHandler} {table : HandlerTable}
    {subscriptions : Multiset MessageHandler} {rc : IotError} (hrc : rc ≠ .success) :
    ∀ table' subscriptions', exactly table subscriptions table' subscriptions' →
      filledBy h table subscriptions rc table' subscriptions' :=
  fun _ _ hs => ⟨hs.2, fun h => absurd h hrc, fun _ => hs.1⟩

include hcall

theorem wp_requestSubscription (slot len : Nat) {h : MessageHandler} {table : HandlerTable}
    {subscriptions : Multiset MessageHandler} (hslot : slot < numSubscribeHandlers)
    (hfree : (table.slot slot).isFree = true) {state : ClientState} {s : World}
    (hs : Inside (· = state) (exactly table subscriptions) s) :
    wp (discipline policy) (requestSubscription fuel call slot len h)
      (fun rc t => Inside (· = state) (filledBy h table subscriptions rc) t ∧ Extends s t) s := by
  have hfailed {rc : IotError} {t : World} (hrc : rc ≠ .success)
      (ht : Inside (· = state) (exactly table subscriptions) t) :
      Inside (· = state) (filledBy h table subscriptions rc) t :=
    ht.mono ht.state (filledBy_of_ne hrc _ _ ht.account)
  simp only [requestSubscription, wp_bind]
  apply wp_mono _ ((steady _ _).io (isIo_internalSendPacket _ _ _) s hs)
  intro rc t ht
  rw [wp_onSuccess]
  refine ⟨fun _ => ?_, fun hrc => ⟨hfailed hrc ht.1, ht.2⟩⟩
  rw [wp_bind]
  apply wp_mono _ (keptIn_internalWaitForRead hcall (carries_transacts _) state .suback t ht.1)
  intro rc u hu
  have hextends := ht.2.trans hu.2
  rw [wp_onSuccess]
  refine ⟨fun _ => ?_, fun hrc => ⟨hfailed hrc hu.1, hextends⟩⟩
  simp only [wp_bind, wp_getClient]
  refine ⟨hu.1.keepsStack, ?_⟩
  split
  next rc hrc =>
    exact ⟨hfailed ((reportsErrors_deserializeSuback _ _ _).ne_success hrc) hu.1, hextends⟩
  next =>
    let v := u.onClient fun c => { c with messageHandlers := c.messageHandlers.set slot h }
    have hadds : Adds (·.isInner = true) u v := adds_of_eq rfl
    -- the handler is entered just before the success
    have hv : Inside (· = state) (filledBy h table subscriptions .success) v := by
      refine ⟨hu.1.events, hu.1.recorded, hu.1.state,
        ⟨hu.1.account.2, fun _ => ⟨slot, hslot, hfree, ?_⟩, fun h => absurd rfl h⟩, hu.1.outside⟩
      exact congrArg (·.set slot h) hu.1.account.1
    simp only [addSubscription, wp_bind, wp_modifyClient, pure_eq, wp_ret]
    exact ⟨hv.keepsStack, hv, hextends.trans (.of_adds hadds)⟩

theorem wp_internalSubscribe (topicName : CString) (topicNameLen : UInt16) (qos : QoS)
    (applicationHandler : HandlerName) (data : Nat) {table : HandlerTable}
    {subscriptions : Multiset MessageHandler} {state : ClientState} {s : World}
    (hs : Inside (· = state) (exactly table subscriptions) s) :
    wp (discipline policy)
      (internalSubscribe fuel call topicName topicNameLen qos applicationHandler data)
      (fun rc t => Inside (· = state)
        (filledBy ⟨some topicName, topicNameLen, qos, some applicationHandler, data⟩ table
          subscriptions rc) t ∧ Extends s t) s := by
  have hfailed {rc : IotError} {t : World} (hrc : rc ≠ .success)
      (ht : Inside (· = state) (exactly table subscriptions) t) :
      Inside (· = state)
        (filledBy ⟨some topicName, topicNameLen, qos, some applicationHandler, data⟩ table
          subscriptions rc) t :=
    ht.mono ht.state (filledBy_of_ne hrc _ _ ht.account)
  simp only [internalSubscribe, wp_bind, wp_getClient]
  refine ⟨hs.keepsStack, ?_⟩
  apply wp_mono _ ((steady _ _).io (isIo_countdown _ _) s hs)
  intro _ t ht
  apply wp_mono _ ((steady _ _).io isIo_getNextPacketId t ht.1)
  intro id u hu
  have hextends := ht.2.trans hu.2
  refine wp_serialized hu.1.keepsStack (fun rc hrc => ?_) fun packet _ => ?_
  · exact ⟨hfailed ((reportsErrors_serializeSubscribe _ _ _ _).ne_success hrc) hu.1, hextends⟩
  · let v := u.onClient fun c => { c with writeBuf := c.writeBuf.store 0 packet }
    have hstored : Extends u v := .of_adds (adds_of_eq rfl)
    have hv : Inside (· = state) (exactly table subscriptions) v :=
      hu.1.adds (adds_of_eq rfl) hu.1.recorded hu.1.state rfl
    refine ⟨hv.keepsStack, ?_⟩
    simp only [wp_bind, wp_getClient]
    refine ⟨hv.keepsStack, ?_⟩
    split
    next => exact ⟨hfailed nofun hv, hextends.trans hstored⟩
    next hindex =>
      have hindex' := not_le.mp hindex
      -- the slot is free in the table that is accounted for
      rw [hv.account.1] at hindex' ⊢
      apply wp_mono _ (wp_framed_part rfl hv fun s hs => wp_requestSubscription hcall _ _ hindex'
        (table.isFree_slot_getFreeMessageHandlerIndex hindex') hs)
      exact fun rc x hx => ⟨hx.1, hextends.trans (hstored.trans hx.2)⟩

theorem wp_subscribe {topicName : Option CString} {topicNameLen : UInt16} {qos : QoS}
    {applicationHandler : Option HandlerName} {data : Nat} {h : MessageHandler}
    (hc : (Call.subscribe topicName topicNameLen qos applicationHandler data).subscription = some h)
    {table : HandlerTable} {subscriptions : Multiset MessageHandler}
    {state : ClientState} {s : World}
    (hs : Inside (· = state) (exactly table subscriptions) s) :
    wp (discipline policy) (subscribe fuel call topicName topicNameLen qos applicationHandler data)
      (fun rc t => Inside (· = state) (filledBy h table subscriptions rc) t ∧ Extends s t) s := by
  unfold subscribe
  split
  next topicName applicationHandler =>
    cases hc
    apply wp_exclusively_restoring (K := exactly table subscriptions) _ _ hs
    · exact fun s hs => wp_internalSubscribe hcall _ _ _ _ _ hs
    · exact fun _ _ h => ⟨filledBy_of_ne (by nofun) _ _ h, filledBy_of_ne (by nofun) _ _ h⟩
  next hnull =>
    cases topicName with
    | none => cases hc
    | some topicName =>
        cases applicationHandler with
        | none => cases hc
        | some applicationHandler => exact (hnull _ _ rfl rfl).elim

/-! ## Unsubscribing -/

omit hcall in
/-- What an unsubscribe does to the table: it frees the slots with its filter if it succeeds. -/
def freedBy (topicFilter : CString) (table : HandlerTable)
    (subscriptions : Multiset MessageHandler) (rc : IotError) : Account :=
  fun table' subscriptions' => subscriptions' = subscriptions ∧
    (rc = .success → table' = table.remove topicFilter) ∧ (rc ≠ .success → table' = table)

omit hcall in
theorem freedBy_of_ne {topicFilter : CString} {table : HandlerTable}
    {subscriptions : Multiset MessageHandler} {rc : IotError} (hrc : rc ≠ .success) :
    ∀ table' subscriptions', exactly table subscriptions table' subscriptions' →
      freedBy topicFilter table subscriptions rc table' subscriptions' :=
  fun _ _ hs => ⟨hs.2, fun h => absurd h hrc, fun _ => hs.1⟩

theorem wp_internalUnsubscribe (topicFilter : CString) (topicFilterLen : UInt16)
    {table : HandlerTable} {subscriptions : Multiset MessageHandler}
    {state : ClientState} {s : World}
    (hs : Inside (· = state) (exactly table subscriptions) s) :
    wp (discipline policy) (internalUnsubscribe fuel call topicFilter topicFilterLen)
      (fun rc t => Inside (· = state) (freedBy topicFilter table subscriptions rc) t ∧ Extends s t)
      s := by
  -- as long as no success is returned, the entry is there
  have hfailed {rc : IotError} {t : World} (hrc : rc ≠ .success)
      (ht : Inside (· = state) (exactly table subscriptions) t) :
      Inside (· = state) (freedBy topicFilter table subscriptions rc) t :=
    ht.mono ht.state (freedBy_of_ne hrc _ _ ht.account)
  simp only [internalUnsubscribe, wp_bind, wp_getClient]
  refine ⟨hs.keepsStack, ?_⟩
  split
  next => exact ⟨hfailed nofun hs, .refl s⟩
  next =>
    rw [wp_bind]
    apply wp_mono _ ((steady _ _).io (isIo_countdown _ _) s hs)
    intro _ t ht
    rw [wp_bind]
    apply wp_mono _ ((steady _ _).io isIo_getNextPacketId t ht.1)
    intro id u hu
    have hextends := ht.2.trans hu.2
    refine wp_serialized hu.1.keepsStack (fun rc hrc => ?_) fun packet _ => ?_
    · exact ⟨hfailed ((reportsErrors_serializeUnsubscribe _ _ _ _).ne_success hrc) hu.1, hextends⟩
    · let v := u.onClient fun c => { c with writeBuf := c.writeBuf.store 0 packet }
      have hstored : Extends u v := .of_adds (adds_of_eq rfl)
      have hv : Inside (· = state) (exactly table subscriptions) v :=
        hu.1.adds (adds_of_eq rfl) hu.1.recorded hu.1.state rfl
      refine ⟨hv.keepsStack, ?_⟩
      rw [wp_bind]
      apply wp_mono _ ((steady _ _).io (isIo_internalSendPacket _ _ _) v hv)
      intro rc x hx
      have hsent := (hextends.trans hstored).trans hx.2
      rw [wp_onSuccess]
      refine ⟨fun _ => ?_, fun hrc => ⟨hfailed hrc hx.1, hsent⟩⟩
      rw [wp_bind]
      apply wp_mono _
        (keptIn_internalWaitForRead hcall (carries_transacts _) state .unsuback x hx.1)
      intro rc y hy
      have hread := hsent.trans hy.2
      rw [wp_onSuccess]
      refine ⟨fun _ => ?_, fun hrc => ⟨hfailed hrc hy.1, hread⟩⟩
      simp only [wp_bind, wp_getClient]
      refine ⟨hy.1.keepsStack, ?_⟩
      split
      next rc hrc =>
        exact ⟨hfailed ((reportsErrors_deserializeUnsuback _ _).ne_success hrc) hy.1, hread⟩
      next =>
        have hadds : Adds (·.isInner = true) y (y.withoutSubscription topicFilter) :=
          adds_one rfl rfl
        have hremoved : Inside (· = state) (freedBy topicFilter table subscriptions .success)
            (y.withoutSubscription topicFilter) := by
          refine ⟨⟨trivial, hy.1.events⟩, hy.1.recorded, hy.1.state,
            ⟨hy.1.account.2, fun _ => ?_, fun h => absurd rfl h⟩, hy.1.outside⟩
          exact congrArg (·.remove topicFilter) hy.1.account.1
        simp only [removeSubscription, wp_bind, wp_modify, solo_guar, pure_eq, wp_ret]
        exact ⟨hremoved.keepsStack, hremoved, hread.trans (.of_adds hadds)⟩

theorem wp_unsubscribe (topicFilter : CString) (topicFilterLen : UInt16) {table : HandlerTable}
    {subscriptions : Multiset MessageHandler} {state : ClientState} {s : World}
    (hs : Inside (· = state) (exactly table subscriptions) s) :
    wp (discipline policy) (unsubscribe fuel call (some topicFilter) topicFilterLen)
      (fun rc t => Inside (· = state) (freedBy topicFilter table subscriptions rc) t ∧ Extends s t)
      s := by
  apply wp_exclusively_restoring (K := exactly table subscriptions) _ _ hs
  · exact fun s hs => wp_internalUnsubscribe hcall _ _ hs
  · exact fun _ _ h => ⟨freedBy_of_ne (by nofun) _ _ h, freedBy_of_ne (by nofun) _ _ h⟩

/-! ## All calls -/

omit hcall in
/-- The return of a call that is not on the table changes no subscription. -/
theorem subscriptions_leave {c : Call} (hc : c.isOnTable = false) (rc : IotError) (t : Trace) :
    Trace.subscriptions (.leave (.call c) rc :: t) = t.subscriptions := by
  cases c with
  | init | subscribe | unsubscribe => cases hc
  | _ => cases rc <;> rfl

/-- A subscribe or unsubscribe of the application leaves a balanced table, and
the table as it is if it fails. -/
theorem wp_perform_onTable {c : Call} (hc : c.isOnTable = true) (hinit : c.isInit = false)
    {table : HandlerTable} {subscriptions : Multiset MessageHandler} {s : World}
    (hs : Inside (fun _ => True) (exactly table subscriptions) s) :
    wp (discipline policy) (perform fuel call c)
      (fun rc t => (rc ≠ .success → t.client.messageHandlers = table) ∧
        (table.occupied = subscriptions →
          t.client.messageHandlers.occupied =
            Trace.subscriptions (.leave (.call c) rc :: t.trace))) s := by
  have hs' : Inside (· = s.client.clientState) (exactly table subscriptions) s :=
    hs.mono rfl hs.account
  have hfailed {rc : IotError} {t : World} (hrc : rc ≠ .success)
      (ht : t.client.messageHandlers = table ∧ t.trace.subscriptions = subscriptions) :
      (rc ≠ .success → t.client.messageHandlers = table) ∧
      (table.occupied = subscriptions → t.client.messageHandlers.occupied =
        Trace.subscriptions (.leave (.call c) rc :: t.trace)) := by
    refine ⟨fun _ => ht.1, fun hbalanced => ?_⟩
    -- only a success is entered in the ledger
    have hleave : Trace.subscriptions (.leave (.call c) rc :: t.trace) = t.trace.subscriptions := by
      cases rc <;> first | rfl | exact absurd rfl hrc
    rw [hleave, ht.1, ht.2, hbalanced]
  cases c with
  | init => cases hinit
  | subscribe topicName topicNameLen qos handler data =>
      cases hsub : (Call.subscribe topicName topicNameLen qos handler data).subscription with
      | none =>
          have hnull : perform fuel call (.subscribe topicName topicNameLen qos handler data) =
              pure .nullValueError := by
            cases topicName <;> cases handler <;> first | rfl | cases hsub
          rw [hnull]
          exact hfailed nofun hs.account
      | some h =>
          apply wp_mono _ (wp_subscribe hcall hsub hs')
          intro rc t ht
          obtain ⟨hsubscriptions, hfilled, hkept⟩ := ht.1.account
          by_cases hrc : rc = .success
          · subst hrc
            obtain ⟨i, hi, hfree, htable⟩ := hfilled rfl
            refine ⟨fun h => absurd rfl h, fun hbalanced => ?_⟩
            -- a handler that was given does not mark a free slot
            have hh : h.isFree = false := by
              cases topicName <;> cases handler <;> cases hsub
              rfl
            have hleave : Trace.subscriptions (.leave (.call
                (.subscribe topicName topicNameLen qos handler data)) .success :: t.trace) =
                h ::ₘ t.trace.subscriptions := by
              simp [Trace.subscriptions, hsub]
            rw [hleave, htable, hsubscriptions, HandlerTable.occupied_set hi hfree hh, hbalanced]
          · exact hfailed hrc ⟨hkept hrc, hsubscriptions⟩
  | unsubscribe topicFilter topicFilterLen =>
      cases topicFilter with
      | none => exact hfailed nofun hs.account
      | some topicFilter =>
          apply wp_mono _ (wp_unsubscribe hcall topicFilter topicFilterLen hs')
          intro rc t ht
          obtain ⟨hsubscriptions, hfreed, hkept⟩ := ht.1.account
          by_cases hrc : rc = .success
          · subst hrc
            refine ⟨fun h => absurd rfl h, fun hbalanced => ?_⟩
            have hleave : Trace.subscriptions (.leave (.call
                (.unsubscribe (some topicFilter) topicFilterLen)) .success :: t.trace) =
                t.trace.subscriptions.filter fun h => !h.hasFilter topicFilter := rfl
            rw [hleave, hfreed rfl, hsubscriptions, HandlerTable.occupied_remove, hbalanced]
          · exact hfailed hrc ⟨hkept hrc, hsubscriptions⟩
  | _ => cases hc

theorem wp_perform_inHandler {c : Call} (hsession : c.isSession = false)
    (hc : c.isOnTable = false) {s : World}
    (hs : Inside (· = .connectedWaitForCbReturn)
      (exactly s.client.messageHandlers s.trace.subscriptions) s) :
    wp (discipline policy) (perform fuel call c) (fun _ t =>
      t.client.messageHandlers = s.client.messageHandlers ∧
        t.trace.subscriptions = s.trace.subscriptions) s := by
  have htable (h : c.isOnTable = true) : KeptIn policy (· = .connectedWaitForCbReturn)
      (exactly s.client.messageHandlers s.trace.subscriptions) (perform fuel call c) := by
    rw [hc] at h
    cases h
  apply wp_mono _ (wp_perform_waiting hcall (carries_transacts _) hsession htable hs)
  exact fun _ t ht => ht.1.1.account

/-- A table that was balanced, if it was, is balanced again. -/
theorem wp_perform_offTable {c : Call} (hc : c.isOnTable = false) {wasBalanced : Prop} {s : World}
    (hs : Inside (fun _ => True)
      (fun table subscriptions => wasBalanced → balanced table subscriptions) s) :
    wp (discipline policy) (perform fuel call c) (fun _ t =>
      wasBalanced → t.client.messageHandlers.occupied = t.trace.subscriptions) s := by
  apply wp_mono _ (keptIn_perform hcall (carries_transacts _)
    (fun _ _ h hs hbalanced => h.balanced (hs hbalanced)) c _ s hs)
  · exact fun _ t ht => ht.1.account
  · intro h
    rw [hc] at h
    cases h

/-- A call from its entry to its return. -/
theorem wp_perform_transacts {c : Call} {s : World} (hs : Ready s)
    (hallow : policy.allowsCall s c) :
    wp (discipline policy) (perform fuel call c)
      (fun rc t => Transacts s (t.log (.leave (.call c) rc)) ∧
      (c.isOnTable = true → rc ≠ .success → t.client.messageHandlers = s.client.messageHandlers))
      (s.log (.enter (.call c))) := by
  have hcall' : c.isInit = false ∧
      (s.inHandler = false ∨ c.isSession = false ∧ c.isOnTable = false) := by
    simpa [Policy.allowsCall, policy, exchangesOutside] using hallow
  have henter {ok : ClientState → Prop} {K : Account} (hstate : ok s.client.clientState)
      (haccount : K s.client.messageHandlers s.trace.subscriptions) :
      Inside ok K (s.log (.enter (.call c))) :=
    ⟨⟨trivial, hs.events⟩, hs.recorded, hstate, haccount, rfl⟩
  by_cases hc : c.isOnTable = true
  · -- an operation on the table is not called by a handler
    have hhandler : s.inHandler = false := by
      apply hcall'.2.resolve_right
      intro h
      rw [hc] at h
      cases h.2
    apply wp_mono _ (wp_perform_onTable hcall hc hcall'.1 (henter trivial ⟨rfl, rfl⟩))
    intro rc t ht
    refine ⟨⟨fun h => ?_, ht.2⟩, fun _ => ht.1⟩
    rw [hhandler] at h
    cases h
  · have hc' : c.isOnTable = false := eq_false_of_ne_true hc
    have hleave (rc : IotError) (t : World) :
        (t.log (.leave (.call c) rc)).trace.subscriptions = t.trace.subscriptions :=
      subscriptions_leave hc' rc t.trace
    by_cases hhandler : s.inHandler = true
    · have hsession : c.isSession = false := by
        rcases hcall'.2 with h | h
        · rw [hhandler] at h
          cases h
        · exact h.1
      apply wp_mono _ (wp_perform_inHandler hcall hsession hc'
        (henter (hs.waiting hhandler) ⟨rfl, rfl⟩))
      intro rc t ht
      refine ⟨⟨fun _ => ⟨ht.1, (hleave rc t).trans ht.2⟩, fun hbalanced => ?_⟩,
        fun h => absurd h hc⟩
      rw [hleave, ht.2, World.client_log, ht.1]
      exact hbalanced
    · apply wp_mono _ (wp_perform_offTable hcall hc' (henter trivial id))
      intro rc t ht
      refine ⟨⟨fun h => absurd h hhandler, fun hbalanced => ?_⟩, fun h => absurd h hc⟩
      rw [hleave]
      exact ht hbalanced

end Calls

theorem wp_api (fuel : Nat) (c : Call) {s : World} (hs : Ready s) (hallow : policy.allowsCall s c) :
    wp (discipline policy) (api fuel c) (fun rc t => ((Ready t ∧ Extends s t) ∧ Transacts s t) ∧
      (c.isOnTable = true → rc ≠ .success →
        t.client.messageHandlers = s.client.messageHandlers)) s := by
  induction fuel generalizing c s with
  | zero => trivial
  | succ fuel ih =>
      have henter : Ready (s.log (.enter (.call c))) := ⟨⟨trivial, hs.events⟩, hs.recorded, nofun⟩
      have hstack : wp (discipline policy) (perform fuel (api fuel) c) (Performed c s)
          (s.log (.enter (.call c))) := by
        apply wp_of_callbacks
        apply Callbacks.wp_perform _ hs (staysInSession_of_policy hallow)
        exact fun c s hs hallow => wp_mono (fun _ _ ht => ⟨ht, trivial⟩)
          (Callbacks.wp_api fuel c hs hallow)
      have htable := @wp_perform_transacts fuel (api fuel)
        (fun c s hs hallow => wp_mono (fun _ _ ht => ht.1) (ih c hs hallow)) c s hs hallow
      change wp (discipline policy) (framed (.call c) (perform fuel (api fuel) c)) _ s
      rw [wp_framed]
      refine ⟨henter.keepsStack, ?_⟩
      apply wp_mono _ (wp_and hstack htable)
      intro rc t ht
      exact ⟨(ht.1.leave hs).1.keepsStack, ⟨ht.1.leave hs, ht.2.1⟩, ht.2.2⟩

/-! ## Calls that send nothing -/

abbrev observing : Discipline World Answer := observed policy fun _ _ => True

theorem writesNothing_log {s t : World} {e : Event} (h : WritesNothing s t)
    (he : e.isWrite = false) :
    WritesNothing s (t.log e) := h.trans (adds_one rfl he)

variable {fuel : Nat} {call : Call → M IotError}

/-- An unsubscribe for a filter that no slot holds. -/
theorem wp_unsubscribe_absent {topicFilter : CString} (topicFilterLen : UInt16) {s : World}
    (habsent : s.client.messageHandlers.subscriptionExists topicFilter = false) :
    wp observing (unsubscribe fuel call (some topicFilter) topicFilterLen)
      (fun rc t => rc ≠ .success ∧ WritesNothing s t) s := by
  have hstart : WritesNothing s s := adds_of_eq rfl
  simp only [unsubscribe, exclusively, wp_bind, wp_isClientConnected, true_and]
  split
  next => exact ⟨by simp, hstart⟩
  next =>
    simp only [wp_bind, wp_getClientState, true_and]
    split
    next => exact ⟨by simp, hstart⟩
    next =>
      let t := s.granted .claim s.client.clientState .connectedUnsubscribeInProgress
      have hclaim : WritesNothing s t := adds_one rfl rfl
      have habsent' : t.client.messageHandlers.subscriptionExists topicFilter = false := habsent
      simp only [wp_bind, wp_setClientState, if_true, ne_eq, not_true_eq_false, if_false, true_and,
        internalUnsubscribe, wp_getClient]
      rw [if_pos (by rw [habsent']; rfl), pure_eq, wp_ret]
      split
      · exact ⟨by simp, writesNothing_log hclaim rfl⟩
      · exact ⟨by simp, writesNothing_log hclaim rfl⟩

/-- With a slot to fill, a subscribe is not refused for want of one. -/
theorem always_subscribeInSlot (slot len : Nat) (h : MessageHandler) :
    (subscribeInSlot fuel call slot len h).Always (· ≠ .mqttMaxSubscriptionsReachedError) := by
  have htransfer {rc : IotError} (hrc : rc.isTransfer = true) :
      rc ≠ .mqttMaxSubscriptionsReachedError := by
    rintro rfl
    cases hrc
  refine always_bind fun _ => Always.bind (P := (· ≠ .mqttMaxSubscriptionsReachedError)) ?_
    fun rc hrc => always_bind fun _ => always_pure hrc
  refine (sendings_internalSendPacket _ _ _).bind fun rc hrc => .ite (fun _ => ?_) fun _ =>
    htransfer (IotError.isTransfer_of_isSending hrc)
  refine (transfers_internalWaitForRead fuel rfl).bind fun rc hrc =>
    .ite (fun _ => ?_) fun _ => htransfer hrc
  refine always_bind fun c => ?_
  split
  next rc hrc =>
    rcases deserializeSuback_error hrc with rfl | rfl | rfl
    · exact always_pure nofun
    · exact always_pure nofun
    · exact always_pure nofun
  next => exact always_bind fun _ => always_pure nofun

theorem wp_internalSubscribe_full (topicName : CString) {topicNameLen : UInt16} (qos : QoS)
    (applicationHandler : HandlerName) (data : Nat) {s : World}
    (hfits : s.client.fitsSubscribe topicNameLen = true) :
    wp observing (internalSubscribe fuel call topicName topicNameLen qos applicationHandler data)
      (fun rc t => (rc = .mqttMaxSubscriptionsReachedError ↔
          numSubscribeHandlers ≤ s.client.messageHandlers.getFreeMessageHandlerIndex) ∧
        (rc = .mqttMaxSubscriptionsReachedError → WritesNothing s t)) s := by
  simp only [internalSubscribe, countdown, getNextPacketId, wp_bind, wp_getClient, wp_emit,
    wp_atomically, solo_guar, true_and]
  refine wp_serialized trivial (fun rc hrc => ?_) fun packet _ => ⟨trivial, ?_⟩
  · have hok (packetId : UInt16) (rc : IotError) :
        serializeSubscribe s.client.writeBufSize 0 packetId [(topicName.bytes, topicNameLen, qos)] ≠
          .error rc := by
      intro h
      have hfits' := (serializeSubscribe_isOk_iff s.client.writeBufSize 0 packetId topicName.bytes
        topicNameLen qos).mpr (of_decide_eq_true hfits)
      rw [h] at hfits'
      cases hfits'
    exact absurd hrc (hok _ _)
  · simp only [wp_bind, wp_getClient, true_and]
    split
    next hindex => exact ⟨iff_of_true rfl hindex, fun _ => adds_one rfl rfl⟩
    next hindex =>
      apply wp_mono _ ((always_subscribeInSlot _ _ _).wp (fun _ _ => trivial) (fun _ _ => trivial)
        fun _ => trivial)
      exact fun rc t hrc => ⟨iff_of_false hrc hindex, fun h => absurd h hrc⟩

theorem wp_subscribe_full (topicName : CString) {topicNameLen : UInt16} (qos : QoS)
    (applicationHandler : HandlerName) (data : Nat) {s : World}
    (hfits : s.client.fitsSubscribe topicNameLen = true) :
    wp observing
      (subscribe fuel call (some topicName) topicNameLen qos (some applicationHandler) data)
      (fun rc t => (rc = .mqttMaxSubscriptionsReachedError ↔ s.client.clientState.isReady = true ∧
          numSubscribeHandlers ≤ s.client.messageHandlers.getFreeMessageHandlerIndex) ∧
        (rc = .mqttMaxSubscriptionsReachedError → WritesNothing s t)) s := by
  simp only [subscribe, exclusively, wp_bind, wp_isClientConnected, true_and]
  split
  next hconnected =>
    refine ⟨iff_of_false (by simp) fun h => ?_, by simp⟩
    cases hstate : s.client.clientState <;>
      simp [World.isClientConnected, ClientState.isConnected, ClientState.isReady, hstate]
        at hconnected h
  next =>
    simp only [wp_bind, wp_getClientState, true_and]
    split
    next hstate =>
      refine ⟨iff_of_false (by simp) fun h => ?_, by simp⟩
      cases hstate' : s.client.clientState <;>
        simp [ClientState.isReady, hstate'] at hstate h
    next hstate =>
      have hready : s.client.clientState.isReady = true := by
        cases hstate' : s.client.clientState <;> simp [ClientState.isReady, hstate'] at hstate ⊢
      let v := s.granted .claim s.client.clientState .connectedSubscribeInProgress
      have hclaim : WritesNothing s v := adds_one rfl rfl
      have hfits' : v.client.fitsSubscribe topicNameLen = true := hfits
      simp only [wp_bind, wp_setClientState, if_true, ne_eq, not_true_eq_false, if_false, true_and]
      apply wp_mono _ (wp_internalSubscribe_full topicName qos applicationHandler data hfits')
      intro rc t ht
      simp only [hready, true_and]
      -- the release answers nothing that a failed subscribe does not answer
      split
      next =>
        simp only [and_false, if_false]
        exact ⟨ht.1, fun h => writesNothing_log (hclaim.trans (ht.2 h)) rfl⟩
      next =>
        by_cases hrc : rc = .success
        · subst hrc
          exact ⟨iff_of_false (by simp) fun h => absurd (ht.1.mpr h) (by simp), by simp⟩
        · simp only [hrc, false_and, if_false]
          exact ⟨ht.1, fun h => writesNothing_log (hclaim.trans (ht.2 h)) rfl⟩

/-- What is said of calls that are refused without sending anything. -/
structure Refuses (c : Call) (s : World) (rc : IotError) (t : World) : Prop where
  absent : ∀ topicFilter, c.unsubscription = some topicFilter →
    s.client.messageHandlers.subscriptionExists topicFilter = false →
      rc ≠ .success ∧ WritesNothing s t
  full : ∀ h, c.subscription = some h → s.client.fitsSubscribe h.topicNameLen = true →
    (rc = .mqttMaxSubscriptionsReachedError ↔ s.client.clientState.isReady = true ∧
      numSubscribeHandlers ≤ s.client.messageHandlers.getFreeMessageHandlerIndex) ∧
    (rc = .mqttMaxSubscriptionsReachedError → WritesNothing s t)

theorem wp_perform_refuses (c : Call) (s : World) :
    wp observing (perform fuel call c) (Refuses c s) s := by
  -- an operation that is not on the table cannot be refused by it
  have hplain (hsub : c.subscription = none) (hunsub : c.unsubscription = none) :
      wp observing (perform fuel call c) (Refuses c s) s := by
    apply wp_mono _ ((always_true _).wp (fun _ _ => trivial) (fun _ _ => trivial) fun _ => trivial)
    intro rc t _
    refine ⟨fun topicFilter h => ?_, fun handler h => ?_⟩
    · rw [hunsub] at h
      cases h
    · rw [hsub] at h
      cases h
  cases c with
  | subscribe topicName topicNameLen qos handler data =>
      cases topicName with
      | none => exact hplain rfl rfl
      | some topicName =>
          cases handler with
          | none => exact hplain rfl rfl
          | some handler =>
              by_cases hfits : s.client.fitsSubscribe topicNameLen = true
              · apply wp_mono _ (wp_subscribe_full topicName qos handler data hfits)
                intro rc t ht
                refine ⟨nofun, fun h hsub _ => ?_⟩
                exact ht
              · apply wp_mono _ ((always_true _).wp (fun _ _ => trivial) (fun _ _ => trivial)
                  fun _ => trivial)
                intro rc t _
                refine ⟨nofun, fun h hsub hfits' => ?_⟩
                cases hsub
                exact absurd hfits' hfits
  | unsubscribe topicFilter topicFilterLen =>
      cases topicFilter with
      | none => exact hplain rfl rfl
      | some topicFilter =>
          by_cases habsent : s.client.messageHandlers.subscriptionExists topicFilter = false
          · apply wp_mono _ (wp_unsubscribe_absent topicFilterLen habsent)
            exact fun rc t ht => ⟨fun _ _ _ => ht, nofun⟩
          · apply wp_mono _ ((always_true _).wp (fun _ _ => trivial) (fun _ _ => trivial)
              fun _ => trivial)
            intro rc t _
            refine ⟨fun f h habsent' => ?_, nofun⟩
            cases h
            exact absurd habsent' habsent
  | _ => exact hplain rfl rfl

theorem wp_api_refuses (fuel : Nat) (c : Call) (s : World) :
    wp observing (api fuel c) (Refuses c s) s := by
  cases fuel with
  | zero => trivial
  | succ fuel =>
      change wp observing (framed (.call c) (perform fuel (api fuel) c)) _ s
      rw [wp_framed]
      refine ⟨trivial, ?_⟩
      apply wp_mono _ (wp_perform_refuses c (s.log (.enter (.call c))))
      intro rc t ht
      have henter : WritesNothing s (s.log (.enter (.call c))) := adds_one rfl rfl
      have hwhole (h : WritesNothing (s.log (.enter (.call c))) t) :
          WritesNothing s (t.log (.leave (.call c) rc)) := writesNothing_log (henter.trans h) rfl
      refine ⟨trivial, fun f h habsent => ?_, fun handler h hfits => ?_⟩
      · exact (ht.absent f h habsent).imp_right hwhole
      · exact (ht.full handler h hfits).imp_right fun hwrites hrc => hwhole (hwrites hrc)

end Ledger

open Ledger

theorem balanced_of_atRest {w : World} (h : AtRest Ledger.policy w) :
    Callbacks.Ready w ∧ w.stack = [] ∧
      w.client.messageHandlers.occupied = w.trace.subscriptions := by
  apply h.of_wp (I := fun w => Callbacks.Ready w ∧ w.stack = [] ∧
    w.client.messageHandlers.occupied = w.trace.subscriptions)
  · intro c params
    refine ⟨⟨trivial, rfl, nofun⟩, rfl, ?_⟩
    exact HandlerTable.occupied_cleared _
  · intro fuel c s hs hallow
    apply wp_mono _ (Ledger.wp_api fuel c hs.1 hallow)
    intro _ t ht
    obtain ⟨⟨⟨hready, hextends⟩, htransacts⟩, -⟩ := ht
    exact ⟨hready, hextends.stack.trans hs.2.1, htransacts.balanced hs.2.2⟩

/-- The table is the ledger of the subscriptions that calls have reported, where
no message handler subscribes or unsubscribes. -/
theorem keepsLedger {w w' : World} {c : Call} {fuel : Nat} {rc : IotError}
    (h : AtRest Ledger.policy w) (hallow : Ledger.policy.allowsCall w c)
    (hret : Returns Ledger.policy (api fuel c) w rc w') : KeepsLedger c w rc w' := by
  obtain ⟨hready, -, hbalanced⟩ := balanced_of_atRest h
  obtain ⟨⟨-, htransacts⟩, hfailed⟩ := wp_returns (Ledger.wp_api fuel c hready hallow) hret
  obtain ⟨habsent, hfull⟩ := wp_returns (wp_api_refuses fuel c w) hret
  refine ⟨htransacts.balanced hbalanced, hfailed, fun topicFilter hc hnone => ?_,
    fun h hc hfits => ?_⟩
  · apply habsent topicFilter hc
    by_contra hexists
    obtain ⟨handler, hmem, hfilter⟩ := HandlerTable.exists_mem_occupied_of_subscriptionExists
      (Bool.not_eq_false _ ▸ hexists)
    rw [hbalanced] at hmem
    rw [hnone handler hmem] at hfilter
    cases hfilter
  · rw [← hbalanced, ← HandlerTable.numSubscribeHandlers_le_getFreeMessageHandlerIndex_iff]
    exact hfull h hc hfits

theorem exchangesOutside_allowsCalm : Ledger.policy.AllowsCalm := by
  intro q w a hq
  cases q with
  | application => cases hq
  | _ => rfl

theorem exchangesOutside_subscribeCall :
    exchangesOutside .application connectedWorld (some (subscribeCall filterA) : Option Call) =
      true ∧
      connectedWorld.keepsTo exchangesOutside 20 (subscribeCall filterA) (subackPacket 2) [] =
        true := by
  decide +kernel

theorem keepsLedger_subscribedWorld :
    KeepsLedger (subscribeCall filterA) connectedWorld .success subscribedWorld :=
  keepsLedger (.connected exchangesOutside_allowsCalm rfl) exchangesOutside_subscribeCall.1
    (returns_perform (fun _ _ _ h => h) exchangesOutside_subscribeCall.2 perform_subscribeCall)

end MqttClient
