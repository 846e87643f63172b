import MqttClient.Session.Bystanders

/-! # Every subscription has its own slot

Subscribing chooses its slot before it waits for the acknowledgement and fills
it afterwards. While it waits, handlers may subscribe and unsubscribe. The slot
is kept for the subscription as long as no such call chooses it as well.
-/

namespace MqttClient

open Effect Program

/-- The application does not subscribe in a handler where the first free slot
is one that a subscribe call in progress has chosen, and it initializes the
client once. -/
def choosesOwnSlot : Policy := fun q =>
  match q with
  | .application => fun w (next : Option Call) =>
      match next with
      | some (.init _) => False
      | some (.subscribe _ _ _ _ _) =>
          w.client.messageHandlers.getFreeMessageHandlerIndex ∉ w.pendingSlots
      | _ => True
  | _ => fun _ _ => True

namespace Subscriptions

/-- The subscriptions have their own slots, and the slots chosen for further
ones are free and distinct. -/
structure Owns (live : Multiset MessageHandler) (table : HandlerTable) (pending : List Nat) :
    Prop where
  live_le : live ≤ table.occupied
  free : ∀ i ∈ pending, i < numSubscribeHandlers ∧ (table.slot i).isFree = true
  nodup : pending.Nodup

namespace Owns

variable {live : Multiset MessageHandler} {table : HandlerTable} {pending : List Nat}

theorem choose (h : Owns live table pending)
    (hindex : table.getFreeMessageHandlerIndex < numSubscribeHandlers)
    (hown : table.getFreeMessageHandlerIndex ∉ pending) :
    Owns live table (table.getFreeMessageHandlerIndex :: pending) := by
  refine ⟨h.live_le, fun i hi => ?_, List.nodup_cons.mpr ⟨hown, h.nodup⟩⟩
  rcases List.mem_cons.mp hi with rfl | hi
  · exact ⟨hindex, table.isFree_slot_getFreeMessageHandlerIndex hindex⟩
  · exact h.free i hi

theorem drop {slot : Nat} (h : Owns live table (slot :: pending)) : Owns live table pending :=
  ⟨h.live_le, fun i hi => h.free i (List.mem_cons_of_mem _ hi), (List.nodup_cons.mp h.nodup).2⟩

theorem fill {slot : Nat} {handler : MessageHandler} (h : Owns live table (slot :: pending))
    (hhandler : handler.isFree = false) :
    Owns (handler ::ₘ live) (table.set slot handler) pending := by
  obtain ⟨hslot, hfree⟩ := h.free slot List.mem_cons_self
  obtain ⟨hown, hnodup⟩ := List.nodup_cons.mp h.nodup
  refine ⟨?_, fun i hi => ?_, hnodup⟩
  · rw [HandlerTable.occupied_set hslot hfree hhandler]
    exact Multiset.cons_le_cons handler h.live_le
  · have hne : slot ≠ i := fun heq => hown (heq ▸ hi)
    rw [table.slot_set_of_ne handler hne]
    exact h.free i (List.mem_cons_of_mem _ hi)

theorem forget {handler : MessageHandler} (h : Owns (handler ::ₘ live) table pending) :
    Owns live table pending :=
  ⟨(Multiset.le_cons_self live handler).trans h.live_le, h.free, h.nodup⟩

theorem remove (h : Owns live table pending) (topicFilter : CString) :
    Owns (live.filter fun handler => !handler.hasFilter topicFilter) (table.remove topicFilter)
      pending := by
  refine ⟨?_, fun i hi => ?_, h.nodup⟩
  · rw [table.occupied_remove]
    exact Multiset.filter_le_filter _ h.live_le
  · obtain ⟨hslot, hfree⟩ := h.free i hi
    rw [table.slot_remove, MessageHandler.hasFilter_of_isFree hfree]
    exact ⟨hslot, hfree⟩

end Owns

/-- The subscriptions on record have their own slots. -/
def HasEntries (w : World) : Prop := w.trace.live ≤ w.client.messageHandlers.occupied

/-- So they have, and the slots of the subscribe calls in progress are free. -/
def Owned (w : World) : Prop := Owns w.trace.live w.client.messageHandlers w.pendingSlots

/-- A subscription that is about to be recorded has its slot. -/
def Filled (handler : MessageHandler) (w : World) : Prop :=
  Owns (handler ::ₘ w.trace.live) w.client.messageHandlers w.pendingSlots

abbrev keepsEntries (s t : World) : Prop := HasEntries s → HasEntries t

abbrev discipline : Discipline World Answer := observed choosesOwnSlot keepsEntries

theorem keepsEntries_of_bystander {s t : World} (h : Bystander s t) : keepsEntries s t := by
  intro hs
  rw [HasEntries, h.live, h.messageHandlers]
  exact hs

theorem kept_owned : KeptByBystanders keepsEntries Owned where
  keep s t h hs := by
    rw [Owned, h.live, h.messageHandlers, h.pendingSlots]
    exact hs
  guar s t h := keepsEntries_of_bystander h

theorem kept_filled (handler : MessageHandler) :
    KeptByBystanders keepsEntries (Filled handler) where
  keep s t h hs := by
    rw [Filled, h.live, h.messageHandlers, h.pendingSlots]
    exact hs
  guar s t h := keepsEntries_of_bystander h

/-- The slot that a subscribe would choose now is not taken. -/
def Ready (w : World) : Prop :=
  Owned w ∧ w.client.messageHandlers.getFreeMessageHandlerIndex ∉ w.pendingSlots

theorem kept_ready : KeptByBystanders keepsEntries Ready where
  keep s t h hs := by
    refine ⟨kept_owned.keep s t h hs.1, ?_⟩
    rw [h.messageHandlers, h.pendingSlots]
    exact hs.2
  guar s t h := keepsEntries_of_bystander h

variable {call : Call → M IotError}

abbrev Spec (call : Call → M IotError) : Prop := CallsKeep choosesOwnSlot keepsEntries Owned call

/-! ## Subscribing and unsubscribing -/

/-- The slot is filled if the request succeeds, and as free as before otherwise. -/
theorem wp_requestSubscription (hcall : Spec call) (fuel slot len : Nat) {handler : MessageHandler}
    (hhandler : handler.isFree = false) {rest : List Frame} {s : World}
    (hstack : s.stack = .subscribing slot :: rest) (hs : Owned s) :
    wp discipline (requestSubscription fuel call slot len handler)
      (fun rc t => t.stack = s.stack ∧ (rc ≠ .success → Owned t) ∧ (rc = .success →
        HasEntries t ∧ Owns (handler ::ₘ t.trace.live) t.client.messageHandlers
          (rest.filterMap Frame.slot?))) s := by
  simp only [requestSubscription, wp_bind]
  refine wp_mono (fun rc t ht => ?_)
    (keeps_of_isQuiet kept_owned (isQuiet_internalSendPacket _ _ _) s hs)
  rw [wp_onSuccess]
  refine ⟨fun _ => ?_, fun hrc => ⟨ht.2, fun _ => ht.1, fun h => absurd h hrc⟩⟩
  simp only [wp_bind]
  refine wp_mono (fun rc u hu => ?_)
    (keeps_internalWaitForRead kept_owned hcall fuel .suback t ht.1)
  have hstack' : u.stack = s.stack := hu.2.trans ht.2
  rw [wp_onSuccess]
  refine ⟨fun _ => ?_, fun hrc => ⟨hstack', fun _ => hu.1, fun h => absurd h hrc⟩⟩
  simp only [wp_bind, wp_getClient]
  refine ⟨id, ?_⟩
  split
  next rc hrc =>
    exact ⟨hstack', fun _ => hu.1, fun h => absurd h
      ((reportsErrors_deserializeSuback _ _ _).ne_success hrc)⟩
  next =>
    have hpending : u.pendingSlots = slot :: rest.filterMap Frame.slot? := by
      rw [World.pendingSlots, hstack', hstack]
      rfl
    have howns : Owns u.trace.live u.client.messageHandlers (slot :: rest.filterMap Frame.slot?) :=
      hpending ▸ hu.1
    have hfilled := howns.fill hhandler
    simp only [addSubscription, wp_bind, wp_modifyClient, pure_eq, wp_ret]
    exact ⟨fun _ => hfilled.forget.live_le, hstack', fun h => absurd rfl h,
      fun _ => ⟨hfilled.forget.live_le, hfilled⟩⟩

theorem wp_subscribeInSlot (hcall : Spec call) (fuel len : Nat) {handler : MessageHandler}
    (hhandler : handler.isFree = false) {s : World} (hs : Ready s)
    (hindex : s.client.messageHandlers.getFreeMessageHandlerIndex < numSubscribeHandlers) :
    wp discipline (subscribeInSlot fuel call s.client.messageHandlers.getFreeMessageHandlerIndex
      len handler)
      (fun rc t => Owned t ∧ t.stack = s.stack ∧ (rc = .success → Filled handler t)) s := by
  rw [subscribeInSlot, wp_framed]
  refine ⟨id, ?_⟩
  refine wp_mono (fun rc t ht => ?_)
    (wp_requestSubscription hcall fuel _ len hhandler rfl (hs.1.choose hindex hs.2))
  obtain ⟨hstack, hfailure, hsuccess⟩ := ht
  have hstack' : t.stack.tail = s.stack := by rw [hstack]; rfl
  have hpending : (t.log (.leave (.subscribing s.client.messageHandlers.getFreeMessageHandlerIndex)
      rc)).pendingSlots = s.pendingSlots := by
    rw [World.pendingSlots, World.stack_log_leave, hstack']
    rfl
  by_cases hrc : rc = .success
  · obtain ⟨-, hfilled⟩ := hsuccess hrc
    have hfilled' : Filled handler (t.log (.leave (.subscribing
        s.client.messageHandlers.getFreeMessageHandlerIndex) rc)) := by
      rw [Filled, hpending]
      exact hfilled
    exact ⟨id, hfilled'.forget, hstack', fun _ => hfilled'⟩
  · have howned : Owns t.trace.live t.client.messageHandlers
        (s.client.messageHandlers.getFreeMessageHandlerIndex :: s.pendingSlots) := by
      have := hfailure hrc
      rwa [Owned, World.pendingSlots, hstack] at this
    refine ⟨id, ?_, hstack', fun h => absurd h hrc⟩
    rw [Owned, hpending]
    exact howned.drop

theorem wp_internalSubscribe (hcall : Spec call) (fuel : Nat) (topicName : CString)
    (topicNameLen : UInt16) (qos : QoS) (applicationHandler : HandlerName) (data : Nat) {s : World}
    (hs : Ready s) :
    wp discipline
      (internalSubscribe fuel call topicName topicNameLen qos applicationHandler data)
      (fun rc t => Owned t ∧ t.stack = s.stack ∧ (rc = .success →
        Filled ⟨some topicName, topicNameLen, qos, some applicationHandler, data⟩ t)) s := by
  simp only [internalSubscribe, wp_bind, wp_getClient]
  refine ⟨id, ?_⟩
  refine wp_mono (fun _ t ht => ?_) (keeps_of_isQuiet kept_ready (isQuiet_countdown _ _) s hs)
  refine wp_mono (fun txPacketId u hu => ?_)
    (keeps_of_isQuiet kept_ready isQuiet_getNextPacketId t ht.1)
  have hstack : u.stack = s.stack := hu.2.trans ht.2
  refine wp_serialized id (fun rc hrc => ?_) fun packet _ => ⟨id, ?_⟩
  · exact ⟨hu.1.1, hstack, fun h => absurd h
      ((reportsErrors_serializeSubscribe _ _ _ _).ne_success hrc)⟩
  · simp only [wp_bind, wp_getClient]
    refine ⟨id, ?_⟩
    split
    next => exact ⟨hu.1.1, hstack, nofun⟩
    next hindex =>
      refine wp_mono (fun rc v hv => ⟨hv.1, hv.2.1.trans hstack, hv.2.2⟩)
        (wp_subscribeInSlot hcall fuel packet.length rfl ?_ (not_le.mp hindex))
      exact hu.1

theorem keeps_removeSubscription (topicFilter : CString) :
    Keeps choosesOwnSlot keepsEntries Owned (removeSubscription topicFilter) := by
  intro s hs
  simp only [removeSubscription, wp_bind, wp_modify, solo_guar, pure_eq, wp_ret]
  have hremoved : Owned (s.withoutSubscription topicFilter) := hs.remove topicFilter
  exact ⟨fun _ => hremoved.live_le, hremoved, rfl⟩

/-! ## All calls -/

/-- What a call does, and that a subscription is in the table when the call
that asked for it is about to return `SUCCESS`. -/
theorem wp_perform (hcall : Spec call) (fuel : Nat) (c : Call) {s : World} (hs : Owned s)
    (hallow : choosesOwnSlot.allowsCall s c) :
    wp discipline (perform fuel call c)
      (fun rc t => Owned t ∧ t.stack = s.stack ∧ (rc = .success →
        ∀ handler, c.subscription = some handler → Filled handler t)) s := by
  by_cases hc : c.isOnTable = true
  · cases c with
    | init params => exact hallow.elim
    | subscribe topicName topicNameLen qos applicationHandler data =>
        simp only [perform, subscribe]
        split
        next topicName applicationHandler =>
          refine wp_mono (fun rc t ht => ⟨ht.1, ht.2.1, fun hrc handler hhandler => ?_⟩)
            (wp_exclusively_keeping kept_owned kept_ready (kept_filled _) (fun _ h => h.1)
              (fun t ht => wp_internalSubscribe hcall fuel topicName topicNameLen qos
                applicationHandler data ht) ⟨hs, hallow⟩)
          cases hhandler
          exact ht.2.2 hrc
        next => exact ⟨hs, rfl, nofun⟩
    | unsubscribe topicFilter topicFilterLen =>
        refine wp_mono (Φ := fun _ t => Owned t ∧ t.stack = s.stack)
          (fun rc t ht => ⟨ht.1, ht.2, fun _ _ => nofun⟩) ?_
        simp only [perform, unsubscribe]
        split
        next => exact ⟨hs, rfl⟩
        next topicFilter =>
          refine keeps_exclusively kept_owned ?_ s hs
          exact (composes_keeps kept_owned hcall fuel).internalUnsubscribe _ _
            (keeps_removeSubscription topicFilter)
    | _ => cases hc
  · have hplain : c.subscription = none := by
      cases c <;> first | rfl | exact absurd rfl hc
    refine wp_mono (fun rc t ht => ⟨ht.1, ht.2, fun _ handler h => ?_⟩)
      (keeps_perform kept_owned hcall fuel (eq_false_of_ne_true hc) s hs)
    rw [hplain] at h
    cases h

/-- The return of a call is where its subscription goes on record. -/
theorem owned_leave {c : Call} {rc : IotError} {s t : World} (hs : Owned t)
    (hstack : t.stack = .call c :: s.stack)
    (hfilled : rc = .success → ∀ handler, c.subscription = some handler → Filled handler t) :
    Owned (t.log (.leave (.call c) rc)) := by
  have hpending : (t.log (.leave (.call c) rc)).pendingSlots = t.pendingSlots := by
    rw [World.pendingSlots, World.stack_log_leave, World.pendingSlots, hstack]
    rfl
  rw [Owned, hpending]
  by_cases hrc : rc = .success
  · subst hrc
    cases hsub : c.subscription with
    | none =>
        have hlive : (t.log (.leave (.call c) .success)).trace.live = t.trace.live := by
          simp [Trace.live, hsub]
        rw [hlive]
        exact hs
    | some handler =>
        have hlive : (t.log (.leave (.call c) .success)).trace.live =
            handler ::ₘ t.trace.live := by
          simp [Trace.live, hsub]
        rw [hlive]
        exact hfilled rfl handler hsub
  · have hlive : (t.log (.leave (.call c) rc)).trace.live = t.trace.live := by
      cases rc <;> first | rfl | exact absurd rfl hrc
    rw [hlive]
    exact hs

theorem spec_api (fuel : Nat) : Spec (api fuel) := by
  refine fun c s hs hallow => wp_recursive (P := fun c s =>
    Owned s ∧ choosesOwnSlot.allowsCall s c) (Φ := fun _ s _ t => Owned t ∧ t.stack = s.stack)
    (fun _ _ _ => trivial) (fun fuel call hcall c s h => ?_) fuel c s ⟨hs, hallow⟩
  have henter := Bystander.enter s (f := .call c) rfl
  have hallow' : choosesOwnSlot.allowsCall (s.log (.enter (.call c))) c := by
    cases c <;> exact h.2
  rw [wp_framed]
  refine ⟨id, wp_mono (fun rc t ht => ?_) (wp_perform (fun c s hs hallow => hcall c s ⟨hs, hallow⟩)
    fuel c (kept_owned.keep _ _ henter h.1) hallow')⟩
  obtain ⟨howned, hstack, hfilled⟩ := ht
  have hleave := owned_leave howned hstack hfilled
  exact ⟨fun _ => hleave.live_le, hleave, by rw [World.stack_log_leave, hstack]; rfl⟩

end Subscriptions

open Subscriptions

theorem owned_of_atRest {w : World} (h : AtRest choosesOwnSlot w) : Owned w :=
  h.of_wp (fun _ _ => ⟨Multiset.zero_le _, nofun, List.nodup_nil⟩)
    fun fuel c s hs hallow => wp_mono (fun _ _ ht => ht.1) (spec_api fuel c s hs hallow)

/-- In every state of every run each subscription on record has its own entry
in the table, where no subscribe call chooses the slot of another. -/
theorem live_le_occupied {w w' : World} {c : Call} {fuel : Nat} {p : M IotError}
    (h : AtRest choosesOwnSlot w) (hallow : choosesOwnSlot.allowsCall w c)
    (hsteps : Steps choosesOwnSlot (api fuel c, w) (p, w')) :
    w'.trace.live ≤ w'.client.messageHandlers.occupied :=
  invariant_steps (D := discipline) (I := HasEntries) (fun _ _ hs hkeeps => hkeeps hs)
    (spec_api fuel c w (owned_of_atRest h) hallow) (owned_of_atRest h).live_le hsteps

theorem choosesOwnSlot_allowsCalm : choosesOwnSlot.AllowsCalm := by
  intro q w a hq
  cases q with
  | application => cases hq
  | _ => trivial

theorem pendingSlots_connectedWorld : connectedWorld.pendingSlots = [] := by decide +kernel

theorem live_le_occupied_subscribedWorld :
    subscribedWorld.trace.live ≤ subscribedWorld.client.messageHandlers.occupied := by
  refine live_le_occupied ?_ ?_
    (returns_perform choosesOwnSlot_allowsCalm isCalm_subscribeCall perform_subscribeCall)
  · exact AtRest.connected choosesOwnSlot_allowsCalm trivial
  · intro hmem
    rw [pendingSlots_connectedWorld] at hmem
    cases hmem

/-- The application initializes the client once, and its handlers make no calls
but to subscribe and to unsubscribe. -/
def subscribesInHandlers : (q : Query) → World → Answer q → Bool := fun q =>
  match q with
  | .application => fun w (next : Option Call) =>
      match next with
      | none => true
      | some (.subscribe _ _ _ _ _) | some (.unsubscribe _ _) => true
      | some (.init _) => false
      | some _ => w.stack.isEmpty
  | _ => fun _ _ => true

/-- A subscribe during which a message arrives whose handler subscribes. -/
def overwrittenWorld : World :=
  (subscribedWorld.perform 20 (subscribeCall filterB)
    (messagePacket ++ subackPacket 4 ++ subackPacket 3) [some (subscribeCall filterC)]).2.2

theorem perform_nested_subscribe :
    (subscribedWorld.perform 20 (subscribeCall filterB)
      (messagePacket ++ subackPacket 4 ++ subackPacket 3) [some (subscribeCall filterC)]).1 =
      some .success := by
  decide +kernel

theorem keepsTo_nested_subscribe :
    subscribedWorld.keepsTo subscribesInHandlers 20 (subscribeCall filterB)
      (messagePacket ++ subackPacket 4 ++ subackPacket 3) [some (subscribeCall filterC)] =
        true := by
  decide +kernel

theorem card_overwrittenWorld :
    overwrittenWorld.client.messageHandlers.occupied.card = 2 ∧
      overwrittenWorld.trace.live.card = 3 := by
  decide +kernel

/-- The subscription of the handler has lost its slot to the outer one. -/
theorem not_live_le_occupied_of_nested_subscribe :
    ¬ ∀ (w w' : World) (c : Call) (fuel : Nat) (p : M IotError),
      AtRest (fun q w a => subscribesInHandlers q w a = true) w →
        subscribesInHandlers .application w (some c : Option Call) = true →
        Steps (fun q w a => subscribesInHandlers q w a = true) (api fuel c, w) (p, w') →
        w'.trace.live ≤ w'.client.messageHandlers.occupied := by
  intro h
  have hcalm : Policy.AllowsCalm fun q w a => subscribesInHandlers q w a = true := by
    intro q w a hq
    cases q with
    | application => cases hq
    | _ => rfl
  have hsubscribed : AtRest (fun q w a => subscribesInHandlers q w a = true) subscribedWorld :=
    .subscribed hcalm rfl rfl
  have hle : overwrittenWorld.trace.live ≤ overwrittenWorld.client.messageHandlers.occupied :=
    h subscribedWorld _ (subscribeCall filterB) 20 _ hsubscribed rfl
      (returns_perform (fun _ _ _ h => h) keepsTo_nested_subscribe perform_nested_subscribe)
  have hcard := Multiset.card_le_card hle
  rw [card_overwrittenWorld.1, card_overwrittenWorld.2] at hcard
  omega

end MqttClient
