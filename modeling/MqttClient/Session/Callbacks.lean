import MqttClient.Session.Bystanders
import MqttClient.Session.Nesting

/-! # Calls from message handlers

The client state serves as a call stack of its own: an operation restores the
state it has found, and a message handler runs in a state of its own, in which
an operation may begin but a yield may not.
-/

namespace MqttClient

open Effect Program

/-- The calls that begin or end a session. -/
def Call.isSession : Call → Bool
  | .init _ | .connect _ | .disconnect => true
  | _ => false

/-- Publish, subscribe and unsubscribe. -/
def Call.isExchange : Call → Bool
  | .publish _ _ _ | .subscribe _ _ _ _ _ | .unsubscribe _ _ => true
  | _ => false

/-- A yield with a timeout. -/
def Call.isYield : Call → Bool
  | .yield timeoutMs => timeoutMs ≠ 0
  | _ => false

def Frame.isHandler : Frame → Bool
  | .handler _ => true
  | _ => false

/-- The filter that a call unsubscribes. -/
def Call.unsubscription : Call → Option CString
  | .unsubscribe topicFilter _ => topicFilter
  | _ => none

/-- The subscriptions whose call has returned `SUCCESS`, and whose filter no call
has unsubscribed with `SUCCESS` since. -/
def Trace.subscriptions : Trace → Multiset MessageHandler
  | [] => 0
  | .leave (.call c) .success :: t =>
      match c.subscription, c.unsubscription with
      | some h, _ => h ::ₘ subscriptions t
      | none, some topicFilter => (subscriptions t).filter fun h => !h.hasFilter topicFilter
      | none, none => subscriptions t
  | _ :: t => subscriptions t

/-- Frames other than those of calls and message handlers. -/
def Frame.isPart : Frame → Bool
  | .call _ | .handler _ => false
  | _ => true

def Frame.isInit : Frame → Bool
  | .call (.init _) => true
  | _ => false

/-- A message handler is the innermost thing in progress. -/
def Trace.inHandler (t : Trace) : Bool := t.stack.head?.any Frame.isHandler

def World.inHandler (w : World) : Bool := w.trace.inHandler

/-- A message handler does not initialize, connect or disconnect the client. -/
def staysInSession : (q : Query) → World → Answer q → Bool := fun q =>
  match q with
  | .application => fun w (next : Option Call) => !(w.inHandler && next.any Call.isSession)
  | _ => fun _ _ => true

/-- What holds of an event when what was on record before it is `t`: a message
handler starts in the state for handlers, an operation leaves the state that it
has found, and a yield in a message handler is refused without having done anything. -/
def Event.keepsStack : Event → Trace → Prop
  | .enter (.handler _), t => t.clientState = .connectedWaitForCbReturn
  | .leave (.call c) rc, t => ∃ before, t.opened.head? = some (.call c, before) ∧
      (c.isExchange = true → t.clientState = before.clientState) ∧
      (c.isYield = true → before.inHandler = true →
        rc = .mqttClientNotIdleError ∧ t = .enter (.call c) :: before)
  | _, _ => True

/-- All events keep to this, and the state is the one on record, except while the
client is initialized. -/
structure World.KeepsStack (w : World) : Prop where
  events : w.trace.All Event.keepsStack
  recorded : w.stack.head?.any Frame.isInit = false → w.Recorded

namespace Callbacks

abbrev policy : Policy := fun q w a => staysInSession q w a = true

abbrev discipline (allow : Policy) : Discipline World Answer :=
  solo (fun _ _ => True) allow fun _ t => t.KeepsStack

theorem keepsStack_of_isInner {e : Event} (h : e.isInner = true) (t : Trace) : e.keepsStack t := by
  cases e <;> trivial

/-- Whether a handler is in progress depends on the stack. -/
theorem inHandler_of_extends {s t : World} (h : Extends s t) : t.inHandler = s.inHandler :=
  congrArg (fun stack : List Frame => stack.head?.any Frame.isHandler) h.stack

/-- Inner events make no subscriptions. -/
theorem subscriptions_of_adds {s t : World} (h : Adds (·.isInner = true) s t) :
    t.trace.subscriptions = s.trace.subscriptions := by
  obtain ⟨ev, htrace, hev⟩ := h
  rw [htrace]
  clear htrace
  induction ev with
  | nil => rfl
  | cons e ev ih =>
      have he := hev e List.mem_cons_self
      have ih' := ih fun e' he' => hev e' (List.mem_cons_of_mem e he')
      cases e <;> first | exact ih' | cases he

/-- Where an application may make a call. -/
structure Ready (w : World) : Prop where
  events : w.trace.All Event.keepsStack
  recorded : w.Recorded
  waiting : w.inHandler = true → w.client.clientState = .connectedWaitForCbReturn

/-- A ready world keeps to its stack. -/
theorem Ready.keepsStack {w : World} (h : Ready w) : w.KeepsStack := ⟨h.events, fun _ => h.recorded⟩

/-- What may be demanded of the table and the subscriptions. -/
abbrev Account := HandlerTable → Multiset MessageHandler → Prop

/-- Inside a call, in a state that is `ok`; the table and the subscriptions are in `K`. -/
structure Inside (ok : ClientState → Prop) (K : Account) (w : World) : Prop where
  events : w.trace.All Event.keepsStack
  recorded : w.Recorded
  state : ok w.client.clientState
  account : K w.client.messageHandlers w.trace.subscriptions
  outside : w.inHandler = false

section Inside

variable {ok ok' : ClientState → Prop} {K : Account}

theorem Inside.keepsStack {w : World} (h : Inside ok K w) : w.KeepsStack :=
  ⟨h.events, fun _ => h.recorded⟩

theorem Inside.ready {w : World} (h : Inside ok K w) : Ready w := by
  refine ⟨h.events, h.recorded, fun hhandler => ?_⟩
  rw [h.outside] at hhandler
  cases hhandler

/-- What is known inside may be weakened. -/
theorem Inside.mono {K' : Account} {w : World} (h : Inside ok K w)
    (hstate : ok' w.client.clientState)
    (haccount : K' w.client.messageHandlers w.trace.subscriptions) : Inside ok' K' w :=
  ⟨h.events, h.recorded, hstate, haccount, h.outside⟩

/-- Inner events keep what is known inside, for the state and the table they leave. -/
theorem Inside.adds {s t : World} (h : Inside ok K s) (hadds : Adds (·.isInner = true) s t)
    (hrecorded : t.Recorded) (hstate : ok' t.client.clientState)
    (htable : t.client.messageHandlers = s.client.messageHandlers) : Inside ok' K t := by
  refine ⟨h.events.adds (fun _ => keepsStack_of_isInner) hadds, hrecorded, hstate, ?_, ?_⟩
  · rw [htable, subscriptions_of_adds hadds]
    exact h.account
  · rw [inHandler_of_extends (.of_adds hadds)]
    exact h.outside

/-- A part of an operation is entered from inside. -/
theorem Inside.enter {s : World} {f : Frame} (hf : f.isPart = true) (hs : Inside ok K s) :
    Inside ok K (s.log (.enter f)) := by
  refine ⟨⟨?_, hs.events⟩, hs.recorded, hs.state, hs.account, ?_⟩
  · cases f <;> trivial
  · cases f <;> first | rfl | cases hf

/-- It is left to the inside as well. -/
theorem Inside.leave {s t : World} {f : Frame} (hf : f.isPart = true) (rc : IotError)
    (ht : Inside ok K t) (hs : s.inHandler = false) (h : Extends (s.log (.enter f)) t) :
    Inside ok K (t.log (.leave f rc)) := by
  refine ⟨⟨?_, ht.events⟩, ht.recorded, ht.state, ?_, ?_⟩
  · cases f <;> trivial
  · cases f <;> first | exact ht.account | cases hf
  · rw [inHandler_of_extends (h.leave rc)]
    exact hs

theorem steady (ok : ClientState → Prop) (K : Account) :
    Steady (fun _ _ => True) (fun _ t => t.KeepsStack) (Inside ok K) Extends
      (·.isPart = true) where
  refl := .refl
  trans _ _ _ := .trans
  pre _ _ _ _ := trivial
  still s t hs h := by
    have ht : Inside ok K t :=
      hs.adds h.adds (h.recorded hs.recorded) (h.clientState ▸ hs.state) h.messageHandlers
    exact ⟨ht.keepsStack, ht, h.extends⟩
  enter f s hf hs := by
    have ht := hs.enter hf
    exact ⟨ht.keepsStack, ht⟩
  leave f rc s t hf hs ht h := by
    have hleave := ht.leave hf rc hs.outside h
    exact ⟨hleave.keepsStack, hleave, h.leave rc⟩

end Inside

/-- The program is kept inside a call, in a state that is `ok`. -/
abbrev KeptIn (allow : Policy) (ok : ClientState → Prop) (K : Account)
    {α : Type} (p : M α) : Prop :=
  Kept (fun _ _ => True) allow (fun _ t => t.KeepsStack) (Inside ok K) Extends p

/-- What the calls from a message handler do, as long as they keep to `Q`, leaves
the table and the subscriptions in `K`. -/
def Carries (Q : World → World → Prop) (K : Account) : Prop :=
  ∀ s t, s.inHandler = true → Q s t → K s.client.messageHandlers s.trace.subscriptions →
    K t.client.messageHandlers t.trace.subscriptions

section Kept

variable {allow : Policy} {ok : ClientState → Prop} {K : Account}

/-- A program that leaves every state as it has found it. -/
theorem keptIn_of_restores {α : Type} {p : M α} (h : ∀ state, KeptIn allow (· = state) K p)
    (ok : ClientState → Prop) : KeptIn allow ok K p := by
  intro s hs
  apply wp_mono _ (h s.client.clientState s (hs.mono rfl hs.account))
  intro _ t ht
  refine ⟨ht.1.mono ?_ ht.1.account, ht.2⟩
  rw [ht.1.state]
  exact hs.state

/-- A change of neither the state nor the table. -/
theorem keptIn_modifyClient {f : Client → Client} (hf : ∀ c : Client, c.SameTable (f c)) :
    KeptIn allow ok K (modifyClient f) := by
  intro s hs
  rw [wp_modifyClient]
  have ht : Inside ok K (s.onClient f) := by
    refine hs.adds (adds_of_eq rfl) ?_ ?_ (hf s.client).messageHandlers
    · exact (hf s.client).clientState.trans hs.recorded
    · exact (hf s.client).clientState ▸ hs.state
  exact ⟨ht.keepsStack, ht, .of_adds (adds_of_eq rfl)⟩

/-! ## Operations -/

/-- The claim is granted, and made up for by the release, so that an exchange
answers what it has done. -/
theorem wp_exclusively_restoring {K' : IotError → Account} {inProgress : ClientState}
    {body : M IotError}
    {onRefused : ClientState → IotError → M IotError}
    (hbody : ∀ s, Inside (· = inProgress) K s → wp (discipline allow) body
      (fun rc t => Inside (· = inProgress) (K' rc) t ∧ Extends s t) s)
    (hrefused : ∀ table subscriptions, K table subscriptions →
      K' .networkDisconnectedError table subscriptions ∧
      K' .mqttClientNotIdleError table subscriptions)
    {state : ClientState} {s : World} (hs : Inside (· = state) K s) :
    wp (discipline allow) (exclusively inProgress body onRefused)
      (fun rc t => Inside (· = state) (K' rc) t ∧ Extends s t) s := by
  have hrefused' := hrefused _ _ hs.account
  have hclaim : Inside (· = inProgress) K (s.granted .claim s.client.clientState inProgress) :=
    hs.adds (adds_one rfl rfl) rfl rfl rfl
  apply wp_exclusively hs.keepsStack ⟨hs.mono hs.state hrefused'.1, .refl s⟩
    ⟨hs.mono hs.state hrefused'.2, .refl s⟩ hclaim.keepsStack
  intro _
  apply wp_mono _ (hbody _ hclaim)
  intro bodyRc t ht
  rw [wp_setClientState, if_pos ht.1.state]
  have hrelease : Inside (· = state) (K' bodyRc)
      (t.granted .release inProgress s.client.clientState) :=
    ht.1.adds (adds_one rfl rfl) rfl hs.state rfl
  simp only [ne_eq, not_true_eq_false, and_false, if_false]
  exact ⟨hrelease.keepsStack, hrelease,
    (Extends.trans (.logged rfl rfl) ht.2).trans (.logged rfl rfl)⟩

theorem wp_framed_part {ok' : ClientState → Prop} {K' : IotError → Account} {f : Frame}
    {body : M IotError} {s : World} (hf : f.isPart = true) (hs : Inside ok K s)
    (hbody : ∀ s, Inside ok K s → wp (discipline allow) body
      (fun rc t => Inside ok' (K' rc) t ∧ Extends s t) s) :
    wp (discipline allow) (framed f body) (fun rc t => Inside ok' (K' rc) t ∧ Extends s t) s := by
  have henter := hs.enter hf
  rw [wp_framed]
  refine ⟨henter.keepsStack, ?_⟩
  apply wp_mono _ (hbody _ henter)
  intro rc t ht
  have hleave := ht.1.leave hf rc hs.outside ht.2
  exact ⟨hleave.keepsStack, hleave, ht.2.leave rc⟩

/-- Claim and release put a body into its own state and back. -/
theorem keptIn_exclusively {inProgress : ClientState} {body : M IotError}
    {onRefused : ClientState → IotError → M IotError}
    (hbody : KeptIn allow (· = inProgress) K body) (state : ClientState) :
    KeptIn allow (· = state) K (exclusively inProgress body onRefused) :=
  fun _ hs => wp_exclusively_restoring hbody (fun _ _ h => ⟨h, h⟩) hs

end Kept

/-! ## Message handlers -/

section Calls

variable {allow : Policy} {ok : ClientState → Prop} {K : Account} {Q : World → World → Prop}
  {fuel : Nat} {call : Call → M IotError}
  (hcall : ∀ c s, Ready s → allow.allowsCall s c →
    wp (discipline allow) (call c) (fun _ t => (Ready t ∧ Extends s t) ∧ Q s t) s)
  (hK : Carries Q K)

include hcall hK

/-- A handler that is called leaves the state as it was for its call. -/
theorem keptIn_callHandler (handler : MessageHandler) (topicOff : Nat) (topicNameLen : UInt16) :
    KeptIn allow (· = .connectedWaitForCbReturn) K
      (callHandler fuel call handler topicOff topicNameLen) := by
  intro s hs
  -- while the handler runs, it was entered from a world `u` that extends `s`
  apply wp_callHandler
    (I := fun t => Inside (· = .connectedWaitForCbReturn) K t ∧ Extends s t)
    (J := fun name t => (Ready t ∧ t.inHandler = true ∧
        K t.client.messageHandlers t.trace.subscriptions) ∧
      ∃ u, (u.inHandler = false ∧ Extends s u) ∧ Extends (u.log (.enter (.handler name))) t)
    fuel handler topicOff topicNameLen (fun _ _ _ => trivial) _ _ _ ⟨hs, .refl s⟩
  · intro name topic payload data t ht u
    have hu := (steady _ _).still t u ht.1 (.delivered name topic payload data)
    have hready : Ready (u.log (.enter (.handler name))) :=
      ⟨⟨hu.2.1.recorded.symm.trans hu.2.1.state, hu.2.1.events⟩, hu.2.1.recorded,
        fun _ => hu.2.1.state⟩
    exact ⟨hu.1, hready.keepsStack, ⟨hready, rfl, hu.2.1.account⟩, u,
      ⟨hu.2.1.outside, ht.2.trans hu.2.2⟩, .refl _⟩
  · intro name c t ht hallow
    obtain ⟨⟨hready, hhandler, haccount⟩, u, hu, hextends⟩ := ht
    apply wp_mono _ (hcall c t hready hallow)
    intro _ v hv
    refine ⟨⟨hv.1.1, ?_, hK t v hhandler hv.2 haccount⟩, u, hu, hextends.trans hv.1.2⟩
    rw [inHandler_of_extends hv.1.2]
    exact hhandler
  · intro name t ht _
    obtain ⟨⟨hready, hhandler, haccount⟩, u, hu, hextends⟩ := ht
    have hleave : Inside (· = .connectedWaitForCbReturn) K
        (t.log (.leave (.handler name) .success)) := by
      refine ⟨⟨trivial, hready.events⟩, hready.recorded, hready.waiting hhandler, haccount, ?_⟩
      rw [inHandler_of_extends (hextends.leave .success)]
      exact hu.1
    exact ⟨hleave.keepsStack, hleave, hu.2.trans (hextends.leave .success)⟩

/-- So do all the handlers of a message. -/
theorem keptIn_deliverMessageLoop (topicOff : Nat) (topicNameLen : UInt16) (remaining : Nat) :
    KeptIn allow (· = .connectedWaitForCbReturn) K
      (deliverMessageLoop fuel call topicOff topicNameLen remaining) := by
  intro s hs
  apply wp_deliverMessageLoop
    (I := fun t => Inside (· = .connectedWaitForCbReturn) K t ∧ Extends s t)
    fuel topicOff topicNameLen remaining (fun t ht => ht.1.keepsStack) _ ⟨hs, .refl s⟩
  intro handler t ht
  apply wp_mono _ (keptIn_callHandler hcall hK handler topicOff topicNameLen t ht.1)
  exact fun _ u hu => ⟨hu.1, ht.2.trans hu.2⟩

/-- The state is saved before the handlers run, and restored after them. -/
theorem keptIn_internalDeliverMessage (state : ClientState) (topicOff : Nat)
    (topicNameLen : UInt16) :
    KeptIn allow (· = state) K (internalDeliverMessage fuel call topicOff topicNameLen) := by
  intro s hs
  simp only [internalDeliverMessage, wp_bind, wp_getClientState, wp_setClientState, if_true]
  have hwait : Inside (· = .connectedWaitForCbReturn) K
      (s.granted .other s.client.clientState .connectedWaitForCbReturn) :=
    hs.adds (adds_one rfl rfl) rfl rfl rfl
  refine ⟨hs.keepsStack, hwait.keepsStack, ?_⟩
  apply wp_mono _ (keptIn_deliverMessageLoop hcall hK topicOff topicNameLen numSubscribeHandlers _
    hwait)
  intro _ t ht
  rw [if_pos ht.1.state]
  have hback : Inside (· = state) K
      (t.granted .other .connectedWaitForCbReturn s.client.clientState) :=
    ht.1.adds (adds_one rfl rfl) rfl hs.state rfl
  exact ⟨hback.keepsStack, hback,
    (Extends.trans (.logged rfl rfl) ht.2).trans (.logged rfl rfl)⟩

/-- Waiting for a packet leaves the state as it was. -/
theorem keptIn_internalWaitForRead (state : ClientState) (packetType : MessageType) :
    KeptIn allow (· = state) K (internalWaitForRead fuel call packetType) :=
  (steady _ _).dispatches.internalWaitForRead
    ((steady _ _).dispatches.internalCycleRead (keptIn_internalDeliverMessage hcall hK state)) rfl

theorem composes_keptIn (state : ClientState) :
    Composes fuel call (KeptIn allow (· = state) K (α := IotError)) :=
  (steady _ _).dispatches.composes (keptIn_internalWaitForRead hcall hK state)

/-- So does a publish. -/
theorem keptIn_publish (state : ClientState) (topicName : Option (List UInt8))
    (topicNameLen : UInt16) (params : Option PublishArg) :
    KeptIn allow (· = state) K (publish fuel call topicName topicNameLen params) := by
  unfold publish
  split
  · apply Sequences.ite (S := fun _ p => KeptIn allow (· = state) K p)
    · exact fun _ => (steady _ _).dispatches.pure _
    · exact fun _ => keptIn_exclusively ((composes_keptIn hcall hK _).internalPublish _ _ _) state
  · exact (steady _ _).dispatches.pure _

/-! ## Calls from a message handler -/

omit hcall hK in
/-- In a message handler a yield is refused, as is resubscribing, and the client
is connected already. -/
theorem wp_refused {c : Call}
    (hc : c = .resubscribe ∨ c = .attemptReconnect ∨ ∃ timeoutMs, c = .yield timeoutMs) {s : World}
    (hs : Inside (· = .connectedWaitForCbReturn) K s) :
    wp (discipline allow) (perform fuel call c)
      (fun rc t => (c.isYield = true → rc = .mqttClientNotIdleError) ∧ t = s) s := by
  have hconnected : s.isClientConnected = true := by
    rw [World.isClientConnected, hs.state]
    rfl
  rcases hc with rfl | rfl | ⟨timeoutMs, rfl⟩
  · simp [perform, resubscribe, wp_bind, wp_getClientState, wp_isClientConnected, wp_ret, hs.state,
      hconnected, hs.keepsStack, Call.isYield]
  · simp [perform, attemptReconnect, wp_bind, wp_isClientConnected, wp_ret, hconnected,
      hs.keepsStack, Call.isYield]
  · by_cases hzero : timeoutMs = 0
    · simp [perform, yield, wp_ret, hzero, Call.isYield]
    · simp [perform, yield, wp_bind, wp_getClientState, wp_isClientConnected, wp_ret, hzero,
        hs.state, hconnected, hs.keepsStack]

omit hcall hK in
/-- A setting changes neither state nor table. -/
theorem keptIn_setting {c : Call} (hc : c.isSetting = true) :
    KeptIn allow ok K (perform fuel call c) := by
  have hmodify {f : Client → Client} (hf : ∀ c : Client, c.SameTable (f c)) :
      KeptIn allow ok K (modifyClient f >>= fun _ => pure IotError.success) :=
    (steady ok K).dispatches.bind (keptIn_modifyClient hf) fun _ => (steady ok K).dispatches.pure _
  cases c with
  | setDisconnectHandler handler =>
      cases handler with
      | none => exact (steady ok K).dispatches.pure _
      | some handler => exact hmodify fun _ => ⟨rfl, rfl⟩
  | setConnectParams params =>
      cases params with
      | none => exact (steady ok K).dispatches.pure _
      | some params => exact hmodify fun _ => ⟨rfl, rfl⟩
  | resetNetworkDisconnectedCount => exact hmodify fun _ => ⟨rfl, rfl⟩
  | _ => cases hc

/-- A call from a message handler leaves the state for handlers. -/
theorem wp_perform_waiting {c : Call} (hc : c.isSession = false)
    (htable : c.isOnTable = true →
      KeptIn allow (· = .connectedWaitForCbReturn) K (perform fuel call c)) {s : World}
    (hs : Inside (· = .connectedWaitForCbReturn) K s) :
    wp (discipline allow) (perform fuel call c) (fun rc t =>
      (Inside (· = .connectedWaitForCbReturn) K t ∧ Extends s t) ∧
        (c.isYield = true → rc = .mqttClientNotIdleError ∧ t = s)) s := by
  have hkept {p : M IotError} (h : KeptIn allow (· = .connectedWaitForCbReturn) K p)
      (hyield : c.isYield = false) : wp (discipline allow) p (fun rc t =>
        (Inside (· = .connectedWaitForCbReturn) K t ∧ Extends s t) ∧
          (c.isYield = true → rc = .mqttClientNotIdleError ∧ t = s)) s := by
    apply wp_mono _ (h s hs)
    intro rc t ht
    refine ⟨ht, fun h => ?_⟩
    rw [hyield] at h
    cases h
  have hrefused (hc : c = .resubscribe ∨ c = .attemptReconnect ∨
    ∃ timeoutMs, c = .yield timeoutMs) :
      wp (discipline allow) (perform fuel call c) (fun rc t =>
        (Inside (· = .connectedWaitForCbReturn) K t ∧ Extends s t) ∧
          (c.isYield = true → rc = .mqttClientNotIdleError ∧ t = s)) s := by
    apply wp_mono _ (wp_refused hc hs)
    rintro rc t ⟨hrc, rfl⟩
    exact ⟨⟨hs, .refl _⟩, fun h => ⟨hrc h, rfl⟩⟩
  cases c with
  | publish => exact hkept (keptIn_publish hcall hK _ _ _ _) rfl
  | subscribe | unsubscribe => exact hkept (htable rfl) rfl
  | resubscribe => exact hrefused (.inl rfl)
  | attemptReconnect => exact hrefused (.inr (.inl rfl))
  | yield timeoutMs => exact hrefused (.inr (.inr ⟨timeoutMs, rfl⟩))
  | autoreconnectSetStatus newStatus =>
      have hset : KeptIn allow (· = .connectedWaitForCbReturn) K
          (perform fuel call (.autoreconnectSetStatus newStatus)) :=
        (steady _ _).dispatches.bind (keptIn_modifyClient fun _ => ⟨rfl, rfl⟩)
          fun _ => (steady _ _).dispatches.pure _
      exact hkept hset rfl
  | setDisconnectHandler | setConnectParams | resetNetworkDisconnectedCount =>
      exact hkept (keptIn_setting rfl) rfl
  | init | connect | disconnect => cases hc

/-! ## Calls outside of message handlers -/

omit hcall hK in
/-- The operations off the table keep what is known inside. -/
theorem offTable : OffTable (·.isPart = true) fun _ p => KeptIn allow (fun _ => True) K p := by
  refine (steady _ _).offTable (fun s t hs h => ?_) fun s t hs h => ?_
  · have ht : Inside (fun _ => True) K t :=
      hs.adds h.adds (h.recorded hs.recorded) trivial h.messageHandlers
    exact ⟨ht.keepsStack, ht, h.extends⟩
  · have ht : Inside (fun _ => True) K t :=
      hs.adds h.adds (h.recorded hs.recorded) trivial h.messageHandlers
    exact ⟨ht.keepsStack, ht, h.extends⟩

/-- Where the calls that an application makes outside of message handlers keep to
`K`, so does every call that is not on the table. -/
theorem keptIn_perform (hQ : ∀ s t, Q s t → K s.client.messageHandlers s.trace.subscriptions →
      K t.client.messageHandlers t.trace.subscriptions) (c : Call)
    (htable : c.isOnTable = true → KeptIn allow (fun _ => True) K (perform fuel call c)) :
    KeptIn allow (fun _ => True) K (perform fuel call c) := by
  have happ : KeptIn allow (fun _ => True) K (application fuel call) := by
    apply (steady _ _).application fun _ _ => trivial
    intro c s hs hallow
    apply wp_mono _ (hcall c s hs.ready hallow)
    intro _ t ht
    refine ⟨⟨ht.1.1.events, ht.1.1.recorded, trivial, hQ s t ht.2 hs.account, ?_⟩, ht.1.2⟩
    rw [inHandler_of_extends ht.1.2]
    exact hs.outside
  have hdeliver (topicOff : Nat) (len : UInt16) :
      KeptIn allow (fun _ => True) K (internalDeliverMessage fuel call topicOff len) :=
    keptIn_of_restores (fun state => keptIn_internalDeliverMessage hcall hK state topicOff len) _
  have hwait (packetType : MessageType) :
      KeptIn allow (fun _ => True) K (internalWaitForRead fuel call packetType) :=
    offTable.internalWaitForRead (offTable.internalCycleRead hdeliver) rfl
  refine offTable.perform ?_ happ (offTable.internalCycleRead hdeliver) ?_ c htable
  · intro f hf
    cases f <;> trivial
  · intro params
    apply offTable.connect
    exact offTable.connectFrom rfl (offTable.composes hwait).handshake params

end Calls

/-! ## Every call keeps to the stack -/

/-- Nothing is demanded. -/
abbrev anyAccount : Account := fun _ _ => True

section Free

variable {fuel : Nat} {call : Call → M IotError}
  (hcall : ∀ c s, Ready s → policy.allowsCall s c →
    wp (discipline policy) (call c) (fun _ t => (Ready t ∧ Extends s t) ∧ True) s)

theorem keptIn_onTable {ok : ClientState → Prop} {s t : World} (hs : Inside ok anyAccount s)
    (h : OnTable s t) (hstate : t.client.clientState = s.client.clientState) :
    t.KeepsStack ∧ Inside ok anyAccount t ∧ Extends s t := by
  have ht : Inside ok anyAccount t := by
    refine ⟨hs.events.adds (fun _ => keepsStack_of_isInner) h.adds, h.recorded hs.recorded,
      hstate ▸ hs.state, trivial, ?_⟩
    rw [inHandler_of_extends h.extends]
    exact hs.outside
  exact ⟨ht.keepsStack, ht, h.extends⟩

include hcall

/-- An exchange leaves every state as it has found it. -/
theorem keptIn_exchange (state : ClientState) {c : Call} (hc : c.isExchange = true) :
    KeptIn policy (· = state) anyAccount (perform fuel call c) := by
  have hfree : Carries (fun _ _ => True) anyAccount := fun _ _ _ _ _ => trivial
  have hcomposes (state : ClientState) :
      Composes fuel call (KeptIn policy (· = state) anyAccount (α := IotError)) :=
    composes_keptIn hcall hfree state
  cases c with
  | publish topicName topicNameLen params =>
      exact keptIn_publish hcall hfree state topicName topicNameLen params
  | subscribe topicName topicNameLen qos handler data =>
      change KeptIn _ _ _ (subscribe fuel call topicName topicNameLen qos handler data)
      unfold subscribe
      split
      · apply keptIn_exclusively ((hcomposes _).internalSubscribe _ _ _ _ _ _) state
        intro slot len handler
        apply (steady _ _).dispatches.framed rfl
        apply (hcomposes _).requestSubscription
        intro s hs
        simp only [addSubscription, wp_bind, wp_modifyClient, pure_eq, wp_ret]
        exact keptIn_onTable hs (.filled slot handler) rfl
      · exact (hcomposes _).pure _
  | unsubscribe topicFilter topicFilterLen =>
      change KeptIn _ _ _ (unsubscribe fuel call topicFilter topicFilterLen)
      unfold unsubscribe
      split
      · exact (hcomposes _).pure _
      · apply keptIn_exclusively ((hcomposes _).internalUnsubscribe _ _ ?_) state
        intro s hs
        simp only [removeSubscription, wp_bind, wp_modify, solo_guar, pure_eq, wp_ret]
        exact keptIn_onTable hs (.removed _) rfl
  | _ => cases hc

omit hcall in
/-- The client is initialized outside of message handlers only. -/
theorem wp_init (params : InitParams) {s : World} (hs : Ready s) :
    wp (discipline policy) (init params) (fun _ t => Inside (fun _ => True) anyAccount t ∧
      Extends (s.log (.enter (.call (.init params)))) t)
      (s.log (.enter (.call (.init params)))) := by
  let w := s.log (.enter (.call (.init params)))
  have hw : Inside (fun _ => True) anyAccount w :=
    ⟨⟨trivial, hs.events⟩, hs.recorded, trivial, trivial, rfl⟩
  unfold init
  split
  next =>
    have ht : Inside (fun _ => True) anyAccount
        ((w.onClient (·.initialized params)).log (.putState .initialized)) :=
      ⟨⟨trivial, hw.events⟩, rfl, trivial, trivial, rfl⟩
    simp only [wp_bind, wp_modifyClient, wp_emit, pure_eq, wp_ret]
    -- in between, the state is not on record
    exact ⟨⟨hw.events, nofun⟩, ht.keepsStack, ht, .logged rfl rfl⟩
  next => exact ⟨hw, .refl _⟩

/-- What a call leaves that was made at `s`. -/
structure Performed (c : Call) (s : World) (rc : IotError) (t : World) : Prop where
  inside : Inside (fun _ => True) anyAccount t
  «extends» : Extends (s.log (.enter (.call c))) t
  exchange : c.isExchange = true → t.client.clientState = s.client.clientState
  waiting : s.inHandler = true → t.client.clientState = .connectedWaitForCbReturn
  yield : c.isYield = true → s.inHandler = true →
    rc = .mqttClientNotIdleError ∧ t = s.log (.enter (.call c))

theorem wp_perform {c : Call} {s : World} (hs : Ready s) (hallow : policy.allowsCall s c) :
    wp (discipline policy) (perform fuel call c) (Performed c s) (s.log (.enter (.call c))) := by
  have hfree : Carries (fun _ _ => True) anyAccount := fun _ _ _ _ _ => trivial
  have henter {ok : ClientState → Prop} (hstate : ok s.client.clientState) :
      Inside ok anyAccount (s.log (.enter (.call c))) :=
    ⟨⟨trivial, hs.events⟩, hs.recorded, hstate, trivial, rfl⟩
  have htable (state : ClientState) (hc : c.isOnTable = true) (hinit : ∀ params, c ≠ .init params) :
      KeptIn policy (· = state) anyAccount (perform fuel call c) := by
    apply keptIn_exchange hcall state
    cases c with
    | init params => exact absurd rfl (hinit params)
    | subscribe | unsubscribe => rfl
    | _ => cases hc
  by_cases hhandler : s.inHandler = true
  · -- in a handler: the state is the one that was set for it
    have hsession : c.isSession = false := by
      simpa [Policy.allowsCall, policy, staysInSession, hhandler] using hallow
    have hwaiting := hs.waiting hhandler
    have htable' (hc : c.isOnTable = true) := htable .connectedWaitForCbReturn hc <| by
      rintro params rfl
      cases hsession
    apply wp_mono _ (wp_perform_waiting hcall hfree hsession htable' (henter hwaiting))
    intro rc t ht
    have hstate := ht.1.1.state
    exact ⟨ht.1.1.mono trivial trivial, ht.1.2, fun _ => hstate.trans hwaiting.symm,
      fun _ => hstate, fun h _ => ht.2 h⟩
  · -- outside of handlers only the exchanges keep the state
    have hdone {rc : IotError} {t : World} (ht : Inside (fun _ => True) anyAccount t)
        (hextends : Extends (s.log (.enter (.call c))) t)
        (hexchange : c.isExchange = true → t.client.clientState = s.client.clientState) :
        Performed c s rc t :=
      ⟨ht, hextends, hexchange, fun h => absurd h hhandler, fun _ h => absurd h hhandler⟩
    by_cases hexchange : c.isExchange = true
    · apply wp_mono _ (keptIn_exchange hcall s.client.clientState hexchange _ (henter rfl))
      exact fun rc t ht => hdone (ht.1.mono trivial trivial) ht.2 fun _ => ht.1.state
    · by_cases hinit : ∃ params, c = .init params
      · obtain ⟨params, rfl⟩ := hinit
        apply wp_mono _ (wp_init params hs)
        exact fun _ t ht => hdone ht.1 ht.2 fun h => absurd h hexchange
      · have htable' (hc : c.isOnTable = true) :
            KeptIn policy (fun _ => True) anyAccount (perform fuel call c) :=
          keptIn_of_restores (fun state => htable state hc fun params h => hinit ⟨params, h⟩) _
        apply wp_mono _
          (keptIn_perform hcall hfree (fun _ _ _ _ => trivial) c htable' _ (henter trivial))
        exact fun rc t ht => hdone ht.1 ht.2 fun h => absurd h hexchange

end Free

/-- When a call is left, the world is ready for the next one. -/
theorem Performed.leave {c : Call} {s t : World} {rc : IotError} (hs : Ready s)
    (h : Performed c s rc t) :
    Ready (t.log (.leave (.call c) rc)) ∧ Extends s (t.log (.leave (.call c) rc)) := by
  have hextends := h.extends.leave rc
  refine ⟨⟨⟨⟨s.trace, ?_, fun hc => ?_, fun hc hhandler => ?_⟩, h.inside.events⟩,
    h.inside.recorded, fun hhandler => ?_⟩, hextends⟩
  · rw [h.extends.opened]
    rfl
  · exact (h.inside.recorded.symm.trans (h.exchange hc)).trans hs.recorded
  · obtain ⟨hrc, rfl⟩ := h.yield hc hhandler
    exact ⟨hrc, rfl⟩
  · rw [inHandler_of_extends hextends] at hhandler
    exact h.waiting hhandler

/-- Every call ends in a ready world, at any depth. -/
theorem wp_api (fuel : Nat) (c : Call) {s : World} (hs : Ready s) (hallow : policy.allowsCall s c) :
    wp (discipline policy) (api fuel c) (fun _ t => Ready t ∧ Extends s t) s := by
  refine wp_recursive (P := fun c s => Ready s ∧ policy.allowsCall s c)
    (Φ := fun _ s _ t => Ready t ∧ Extends s t) (fun _ _ _ => trivial)
    (fun fuel call hcall c s hs => ?_) fuel c s ⟨hs, hallow⟩
  have henter : Ready (s.log (.enter (.call c))) :=
    ⟨⟨trivial, hs.1.events⟩, hs.1.recorded, nofun⟩
  have hcall' (c : Call) (s : World) (hs : Ready s) (hallow : policy.allowsCall s c) :=
    wp_mono (fun _ _ ht => And.intro ht trivial) (hcall c s ⟨hs, hallow⟩)
  rw [wp_framed]
  refine ⟨henter.keepsStack, ?_⟩
  apply wp_mono _ (wp_perform hcall' hs.1 hs.2)
  intro rc t ht
  exact ⟨(ht.leave hs.1).1.keepsStack, ht.leave hs.1⟩

end Callbacks

open Callbacks

/-- Between calls the world is ready, and no call is in progress. -/
theorem ready_of_atRest {w : World} (h : AtRest policy w) : Ready w ∧ w.stack = [] := by
  apply h.of_wp (I := fun w => Ready w ∧ w.stack = [])
  · exact fun _ _ => ⟨⟨trivial, rfl, nofun⟩, rfl⟩
  · intro fuel c s hs hallow
    apply wp_mono _ (wp_api fuel c hs.1 hallow)
    intro _ t ht
    exact ⟨ht.1, ht.2.stack.trans hs.2⟩

/-- However calls from message handlers are nested: an operation leaves the state
that it has found, a message handler starts in the state for handlers, and a
yield in a message handler does nothing. -/
theorem keepsStack_of_steps {w w' : World} {c : Call} {fuel : Nat} {p : M IotError}
    (h : AtRest policy w)
    (hsteps : Steps policy (api fuel c, w) (p, w')) : w'.KeepsStack := by
  obtain ⟨hready, hstack⟩ := ready_of_atRest h
  have hallow : policy.allowsCall w c := by
    have hhandler : w.inHandler = false :=
      congrArg (fun stack : List Frame => stack.head?.any Frame.isHandler) hstack
    simp [Policy.allowsCall, policy, staysInSession, hhandler]
  exact invariant_steps (D := discipline policy) (I := World.KeepsStack) (fun _ _ _ ht => ht)
    (wp_api fuel c hready hallow) hready.keepsStack hsteps

theorem staysInSession_allowsCalm : policy.AllowsCalm := by
  intro q w a hq
  cases q with
  | application => cases hq
  | _ => rfl

/-- A message handler publishes; while that waits for its PUBACK, another message
is handed to a handler that publishes and yields. -/
def nestedCalls : List (Option Call) :=
  [some publishCall, some publishCall, some (.yield 5), none, none, some (.yield 5), none]

def nestedPackets : List Arrival :=
  messagePacket ++ messagePacket ++ pubackPacket 4 ++ pubackPacket 3

theorem allowsCall_subscribedWorld :
    staysInSession .application connectedWorld (some (subscribeCall filterA) : Option Call) = true ∧
      subscribedWorld.keepsTo staysInSession 40 (.yield 100) nestedPackets nestedCalls = true := by
  decide +kernel

theorem keepsStack_nestedCalls :
    (subscribedWorld.underway 40 (.yield 100) nestedPackets nestedCalls 2000).2.KeepsStack :=
  keepsStack_of_steps (.subscribed staysInSession_allowsCalm rfl allowsCall_subscribedWorld.1)
    (steps_underway 2000 (fun _ _ _ h => h) allowsCall_subscribedWorld.2)

end MqttClient
