import MqttClient.Session.Runs

/-! # Being connected and having an open transport

Between calls the client state says whether the transport is open. While calls
are in progress the two may differ, but every call either leaves the pair as it
found it or settles it; where it does not is in a handler that reconnects a
client which the interrupted call is about to disconnect.
-/

namespace MqttClient

open Effect Program

/-- The states that a call may settle in. -/
def ClientState.isResting : ClientState → Bool
  | .connecting | .disconnecting | .connectedPublishInProgress | .connectedSubscribeInProgress
  | .connectedUnsubscribeInProgress | .connectedResubscribeInProgress
  | .connectedWaitForCbReturn => false
  | _ => true

/-- A disconnect handler does not return on a connected client, nor a message
handler on one that it has reconnected under a call of connect; the transport is
destroyed without an error in a call of `aws_iot_mqtt_disconnect`, and the
client is not initialized over an open transport. -/
def keepsConnected : Policy := fun q =>
  match q with
  | .application => fun w (next : Option Call) =>
      match next with
      | some (.init _) => w.transportOpen = false
      | some _ => True
      | none =>
          match w.stack with
          | .disconnectHandler _ :: _ => w.isClientConnected = false
          | .handler _ :: .waiting _ :: .connecting :: _ =>
              w.isClientConnected = true → w.client.clientState = .connectedWaitForCbReturn
          | _ => True
  | .netDestroy => fun w (rc : IotError) =>
      w.stack.head? = some (.call .disconnect) → rc = .success
  | _ => fun _ _ => True

namespace Connected

abbrev discipline : Discipline World Answer :=
  solo (fun _ _ => True) keepsConnected (fun _ _ => True)

/-- The client state is one to rest in, and says whether the transport is open. -/
structure Settled (w : World) : Prop where
  resting : w.client.clientState.isResting = true
  consistent : w.isClientConnected = w.transportOpen

/-- The client state and the transport are as they were. -/
structure Same (s t : World) : Prop where
  state : t.client.clientState = s.client.clientState
  transport : t.transportOpen = s.transportOpen

/-- The pair is as it was or has been settled; where `g` holds, it has been
settled disconnected. -/
structure Leaves (g : Prop) (s t : World) : Prop where
  stack : t.stack = s.stack
  pair : Same s t ∨ Settled t ∧ (g → t.isClientConnected = false)

variable {g : Prop}

theorem Same.refl (s : World) : Same s s := ⟨rfl, rfl⟩

theorem Same.trans {s t u : World} (h : Same s t) (h' : Same t u) : Same s u :=
  ⟨h'.state.trans h.state, h'.transport.trans h.transport⟩

/-- Neither the state nor the transport has changed, so the client is as connected as it was. -/
theorem Same.connected_eq {s t : World} (h : Same s t) :
    t.isClientConnected = s.isClientConnected := by
  simp only [World.isClientConnected, h.state]

theorem Same.settled {s t : World} (h : Same s t) (hs : Settled s) : Settled t := by
  refine ⟨by rw [h.state]; exact hs.resting, ?_⟩
  rw [h.connected_eq, h.transport]
  exact hs.consistent

theorem Leaves.refl (s : World) : Leaves g s s := ⟨rfl, .inl (.refl s)⟩

theorem Leaves.of_same {s t : World} (hstack : t.stack = s.stack) (h : Same s t) : Leaves g s t :=
  ⟨hstack, .inl h⟩

/-- Quiet steps leave everything as it was. -/
theorem Leaves.of_quiet {s t : World} (h : Quiet s t) : Leaves g s t :=
  ⟨h.stack_eq, .inl ⟨h.clientState, h.transportOpen_eq⟩⟩

theorem Leaves.trans {s t u : World} (h : Leaves g s t) (h' : Leaves g t u) : Leaves g s u := by
  refine ⟨h'.stack.trans h.stack, ?_⟩
  rcases h'.pair with hsame' | hsettled'
  · rcases h.pair with hsame | ⟨hsettled, hclosed⟩
    · exact .inl (hsame.trans hsame')
    · exact .inr ⟨hsame'.settled hsettled, fun hg => hsame'.connected_eq.trans (hclosed hg)⟩
  · exact .inr hsettled'

/-- What is left under a weaker guard is left under a stronger one. -/
theorem Leaves.weaken {g' : Prop} {s t : World} (h : Leaves g s t) (hg : g' → g) :
    Leaves g' s t :=
  ⟨h.stack, h.pair.imp_right fun ⟨hsettled, hclosed⟩ => ⟨hsettled, fun h' => hclosed (hg h')⟩⟩

/-- A frame is left with what its body has left. -/
theorem Leaves.leave {s t : World} {f : Frame} {rc : IotError}
    (h : Leaves g (s.log (.enter f)) t) : Leaves g s (t.log (.leave f rc)) := by
  have hstack : t.stack = f :: s.stack := h.stack
  refine ⟨by simp [hstack], ?_⟩
  rcases h.pair with hsame | ⟨hsettled, hclosed⟩
  · exact .inl ⟨hsame.state, hsame.transport⟩
  · exact .inr ⟨⟨hsettled.resting, hsettled.consistent⟩, hclosed⟩

theorem Leaves.enter {s t : World} {f : Frame} (h : Leaves g s t) :
    Leaves g (s.log (.enter f)) (t.log (.enter f)) := by
  refine ⟨congrArg (f :: ·) h.stack, ?_⟩
  rcases h.pair with hsame | ⟨hsettled, hclosed⟩
  · exact .inl ⟨hsame.state, hsame.transport⟩
  · exact .inr ⟨⟨hsettled.resting, hsettled.consistent⟩, hclosed⟩

/-- A client that is not connected and has no open transport has settled. -/
theorem settled_closed {w : World} (hresting : w.client.clientState.isResting = true)
    (hstate : w.client.clientState.isConnected = false) (hclosed : w.transportOpen = false) :
    Settled w :=
  ⟨hresting, by rw [World.isClientConnected, hstate, hclosed]⟩

/-- So has one that is connected with an open transport. -/
theorem settled_open {w : World} (hresting : w.client.clientState.isResting = true)
    (hstate : w.client.clientState.isConnected = true) (hopen : w.transportOpen = true) :
    Settled w :=
  ⟨hresting, by rw [World.isClientConnected, hstate, hopen]⟩

/-- An idle client has an open transport. -/
def Entry (w : World) : Prop :=
  w.client.clientState = .connectedIdle → w.transportOpen = true

/-- What leaves the client leaves it where application code can run. -/
theorem Leaves.entry {s t : World} (h : Leaves g s t) (hs : Entry s) : Entry t := by
  intro hidle
  rcases h.pair with hsame | ⟨hsettled, -⟩
  · rw [hsame.transport]
    exact hs (hsame.state ▸ hidle)
  · rw [← hsettled.consistent, World.isClientConnected, hidle]
    rfl

/-- Quiet programs leave the client as it was. -/
theorem wp_quiet_leaves {α : Type} {p : M α} (g : Prop) (s : World) (h : IsQuiet p) :
    wp discipline p (fun _ t => Leaves g s t) s :=
  wp_quiet h (fun _ _ _ _ => trivial) (fun _ _ _ _ => trivial) fun _ _ hq => .of_quiet hq

/-! ## Dispatching packets -/

/-- What each call does for the code that calls it. -/
def CallSpec (call : Call → M IotError) : Prop :=
  ∀ c s, Entry s → keepsConnected.allowsCall s c →
    wp discipline (call c) (fun _ t => Leaves False s t) s

variable {call : Call → M IotError}

/-- The wait of a connect for its CONNACK is the innermost thing in progress. -/
def InHandshake (w : World) : Prop :=
  ∃ packetType rest, w.stack = .waiting packetType :: .connecting :: rest

/-- The handlers of a message leave the client; within a handshake, as connected as it was. -/
theorem wp_deliver (hcall : CallSpec call) (fuel topicOff : Nat) (topicNameLen : UInt16)
    (remaining : Nat) {s : World} (hs : Entry s) :
    wp discipline (deliverMessageLoop fuel call topicOff topicNameLen remaining)
      (fun _ t => Leaves (InHandshake s) s t) s := by
  refine wp_deliverMessageLoop fuel topicOff topicNameLen remaining (fun _ _ => trivial)
    (fun h t ht => ?_) (.refl s)
  refine wp_callHandler (J := fun name u => Leaves False (s.log (.enter (.handler name))) u) fuel h
    topicOff topicNameLen (fun _ _ _ => trivial) ?_ ?_ ?_ ht
  · intro name topic payload data u hu
    have hlogged : Leaves (InHandshake s) s (u.log (.delivered name topic payload data)) := by
      refine ⟨hu.stack, ?_⟩
      rcases hu.pair with hsame | ⟨hsettled, hclosed⟩
      · exact .inl ⟨hsame.state, hsame.transport⟩
      · exact .inr ⟨⟨hsettled.resting, hsettled.consistent⟩, hclosed⟩
    exact ⟨trivial, trivial, hlogged.enter.weaken False.elim⟩
  · intro name c u hu hallow
    exact wp_mono (fun _ _ h => hu.trans h) (hcall c u (hu.entry hs) hallow)
  · intro name u hu hreturn
    refine ⟨trivial, hu.leave.stack, ?_⟩
    rcases hu.leave.pair with hsame | ⟨hsettled, -⟩
    · exact .inl hsame
    · refine .inr ⟨hsettled, ?_⟩
      rintro ⟨packetType, rest, hstack⟩
      have hstack' : u.stack = .handler name :: .waiting packetType :: .connecting :: rest := by
        rw [hu.stack, World.stack_log_enter, hstack]
      simp only [keepsConnected, hstack'] at hreturn
      by_contra hconnected
      have hstate := hreturn (eq_true_of_ne_false hconnected)
      have hresting := hsettled.resting
      rw [World.client_log, hstate] at hresting
      cases hresting

/-- So does the delivery of a message with its two changes of the state. -/
theorem wp_internalDeliverMessage (hcall : CallSpec call) (fuel topicOff : Nat)
    (topicNameLen : UInt16) (s : World) :
    wp discipline (internalDeliverMessage fuel call topicOff topicNameLen)
      (fun _ t => Leaves (InHandshake s) s t) s := by
  simp only [internalDeliverMessage, wp_bind, wp_getClientState, true_and, wp_setClientState,
    if_true]
  refine wp_mono (fun _ t ht => ?_) (wp_deliver hcall fuel topicOff topicNameLen _ nofun)
  rcases ht.pair with hsame | ⟨hsettled, hclosed⟩
  · have hstate : t.client.clientState = .connectedWaitForCbReturn := hsame.state
    simp only [hstate, if_true]
    exact .of_same ht.stack ⟨rfl, hsame.transport⟩
  · have hstate : t.client.clientState ≠ .connectedWaitForCbReturn := by
      intro hstate
      have hresting := hsettled.resting
      rw [hstate] at hresting
      cases hresting
    simp only [if_neg hstate]
    exact ⟨ht.stack, .inr ⟨⟨hsettled.resting, hsettled.consistent⟩, hclosed⟩⟩

/-- So does handling a PUBLISH, with its acknowledgement. -/
theorem wp_internalHandlePublish (hcall : CallSpec call) (fuel : Nat) (timer : TimerName)
    (s : World) :
    wp discipline (internalHandlePublish fuel call timer)
      (fun _ t => Leaves (InHandshake s) s t) s := by
  simp only [internalHandlePublish, wp_bind, wp_getClient, true_and]
  split
  next => exact .refl s
  next f _ =>
    simp only [wp_bind, pushMessage, wp_modify, popMessage, wp_atomically, solo_guar, true_and]
    refine wp_mono (fun rc t ht => ?_) (wp_internalDeliverMessage hcall fuel _ _ _)
    have ht' : Leaves (InHandshake s) s { t with messages := t.messages.tail } := by
      refine ⟨ht.stack, ?_⟩
      rcases ht.pair with hsame | ⟨hsettled, hclosed⟩
      · exact .inl ⟨hsame.state, hsame.transport⟩
      · exact .inr ⟨⟨hsettled.resting, hsettled.consistent⟩, hclosed⟩
    rw [wp_onSuccess]
    refine ⟨fun _ => ?_, fun _ => ht'⟩
    split
    next => exact ht'
    next =>
      refine wp_mono (fun _ u hu => ht'.trans hu) (wp_quiet_leaves _ _ ?_)
      exact isQuiet_serialized fun _ => isQuiet_internalSendPacket _ _ _

/-- So does dispatching any packet. -/
theorem wp_dispatchPacket (hcall : CallSpec call) (fuel : Nat) (timer : TimerName)
    (packetType : UInt8) (s : World) :
    wp discipline (dispatchPacket fuel call timer packetType)
      (fun _ t => Leaves (InHandshake s) s t) s := by
  unfold dispatchPacket
  split
  case h_5 => exact wp_internalHandlePublish hcall fuel timer s
  case h_8 =>
    simp only [wp_bind, wp_modifyClient, true_and, wp_getClient, countdown,
      wp_emit, pure_eq, wp_ret]
    exact .of_same rfl ⟨rfl, rfl⟩
  all_goals exact .refl s

/-- Whether a handshake is in progress is read off the calls in progress. -/
theorem inHandshake_congr {s t : World} (h : t.stack = s.stack) :
    InHandshake t ↔ InHandshake s := by
  simp only [InHandshake, h]

/-- So does reading the next packet. -/
theorem wp_internalCycleRead (hcall : CallSpec call) (fuel : Nat) (timer : TimerName) (s : World) :
    wp discipline (internalCycleRead fuel call timer)
      (fun _ t => Leaves (InHandshake s) s t) s := by
  simp only [internalCycleRead, wp_bind]
  refine wp_mono (fun threadRc t ht => ?_) (wp_quiet_leaves (InHandshake s) s (isQuiet_lockMutex _))
  split
  next => exact ht
  next =>
    simp only [wp_bind]
    refine wp_mono (fun r u hu => ?_) (wp_quiet_leaves (InHandshake s) t
      (isQuiet_internalReadPacket fuel))
    refine wp_mono (fun threadRc v hv => ?_) (wp_quiet_leaves (InHandshake s) u
      (isQuiet_unlockMutex _))
    have hleaves : Leaves (InHandshake s) s v := (ht.trans hu).trans hv
    split
    next => split <;> exact hleaves
    next => exact hleaves
    next packetType =>
      split
      next => exact hleaves
      next =>
        simp only [wp_bind]
        refine wp_mono (fun rc x hx => ?_) (wp_dispatchPacket hcall fuel timer packetType v)
        exact hleaves.trans (hx.weaken (inHandshake_congr hleaves.stack).mpr)

/-- The innermost thing in progress is a connect. -/
def IsConnecting (w : World) : Prop := w.stack.head? = some .connecting

/-- So does waiting for a packet; the wait itself belongs to the handshake. -/
theorem wp_internalWaitForRead (hcall : CallSpec call) (fuel : Nat) (packetType : MessageType)
    (s : World) :
    wp discipline (internalWaitForRead fuel call packetType)
      (fun _ t => Leaves (IsConnecting s) s t) s := by
  rw [internalWaitForRead, wp_framed]
  refine ⟨trivial, ?_⟩
  simp only [wp_bind]
  let s' := s.log (.enter (.waiting packetType))
  have hhandshake : IsConnecting s → InHandshake s' := by
    intro h
    obtain ⟨rest, hrest⟩ := List.head?_eq_some_iff.mp h
    exact ⟨packetType, rest, by rw [World.stack_log_enter, hrest]⟩
  refine wp_mono (Φ := fun _ t => Leaves (InHandshake s') s' t) (fun r t ht => ?_)
    (wp_loop (I := fun _ t => Leaves (InHandshake s') s' t) (fun _ _ _ => trivial)
      (fun b t ht => ?_) fuel 0 s' (.refl s'))
  · split <;> exact ⟨trivial, ht.leave.weaken hhandshake⟩
  · simp only [waitForReadStep, wp_bind, wp_hasTimerExpired, true_and]
    intro expired _
    split
    next => exact ht
    next =>
      simp only [wp_bind]
      refine wp_mono (fun r u hu => ?_) (wp_internalCycleRead hcall fuel .command t)
      have hleaves : Leaves (InHandshake s') s' u :=
        ht.trans (hu.weaken (inHandshake_congr ht.stack).mpr)
      split <;> exact hleaves

/-! ## The operations that need a connected client -/

abbrev LeavesSpec (G : World → Prop) (p : M IotError) : Prop :=
  ∀ s, wp discipline p (fun _ t => Leaves (G s) s t) s

theorem isConnecting_congr {s t : World} (h : t.stack = s.stack) :
    IsConnecting t ↔ IsConnecting s := by
  simp only [IsConnecting, h]

/-- What an operation on a connected client consists of leaves the client. -/
theorem composes_leavesSpec {G : World → Prop} (hG : ∀ s t, t.stack = s.stack → G s → G t)
    (hconnecting : ∀ s, G s → IsConnecting s) (hcall : CallSpec call) (fuel : Nat) :
    Composes fuel call (LeavesSpec G) where
  io h s := wp_quiet_leaves _ s h.isIo.isQuiet
  before hp hg s := by
    rw [wp_bind]
    refine wp_mono (fun a t ht => ?_) (wp_quiet_leaves (G s) s hp.isIo.isQuiet)
    exact wp_mono (fun _ u hu => ht.trans (hu.weaken (hG _ _ ht.stack))) (hg a t)
  seq hp hg s := by
    rw [wp_bind]
    refine wp_mono (fun a t ht => ?_) (hp s)
    exact wp_mono (fun _ u hu => ht.trans (hu.weaken (hG _ _ ht.stack))) (hg a t)
  wait packetType s :=
    wp_mono (fun _ _ ht => ht.weaken (hconnecting s))
      (wp_internalWaitForRead hcall fuel packetType s)

/-- Nothing is said about where the client settles. -/
abbrev nowhere : World → Prop := fun _ => False

theorem composes_nowhere (hcall : CallSpec call) (fuel : Nat) :
    Composes fuel call (LeavesSpec nowhere) :=
  composes_leavesSpec (fun _ _ _ h => h) (fun _ h => h.elim) hcall fuel

/-- Filling a slot has nothing to do with the connection. -/
theorem leavesSpec_subscribeInSlot (hcall : CallSpec call) (fuel slot len : Nat)
    (h : MessageHandler) : LeavesSpec nowhere (subscribeInSlot fuel call slot len h) := by
  intro s
  rw [subscribeInSlot, wp_framed]
  refine ⟨trivial, wp_mono (fun _ t ht => ⟨trivial, Leaves.leave ht⟩) ?_⟩
  refine (composes_nowhere hcall fuel).requestSubscription slot len h (fun t => ?_) _
  simp only [addSubscription, wp_bind, wp_modifyClient, true_and, pure_eq, wp_ret]
  exact .of_same rfl ⟨rfl, rfl⟩

/-- Nor has freeing one. -/
theorem leavesSpec_removeSubscription (topicFilter : CString) :
    LeavesSpec nowhere (removeSubscription topicFilter) := by
  intro s
  simp only [removeSubscription, wp_bind, wp_modify, solo_guar, true_and, pure_eq, wp_ret]
  exact .of_same rfl ⟨rfl, rfl⟩

/-- A claim that is released where it was made: the pair is as before, or has
been settled meanwhile. -/
theorem Leaves.release {s t : World} {change : StateChange} {expected new : ClientState}
    (hresting : new.isResting = false) (h : Leaves False (s.granted change expected new) t)
    (hstate : s.client.clientState = expected) :
    (t.client.clientState = new → Leaves False s (t.granted .release new expected)) ∧
      (t.client.clientState ≠ new → Leaves False s (t.refused .release new expected)) := by
  refine ⟨fun hnew => ?_, fun hnew => ?_⟩
  · rcases h.pair with hsame | ⟨hsettled, -⟩
    · exact .of_same h.stack ⟨hstate.symm, hsame.transport⟩
    · have := hsettled.resting
      rw [hnew, hresting] at this
      cases this
  · rcases h.pair with hsame | ⟨hsettled, -⟩
    · exact absurd hsame.state hnew
    · exact ⟨h.stack, .inr ⟨⟨hsettled.resting, hsettled.consistent⟩, False.elim⟩⟩

/-- Behind its claim an operation leaves the client as connected as it was. -/
theorem wp_exclusively_leaves {inProgress : ClientState} {body : M IotError}
    {onRefused : ClientState → IotError → M IotError} (hresting : inProgress.isResting = false)
    (hbody : LeavesSpec nowhere body) (s : World) :
    wp discipline (exclusively inProgress body onRefused) (fun _ t => Leaves False s t) s := by
  apply wp_exclusively trivial (.refl s) (.refl s) trivial
  intro _
  refine wp_mono (fun bodyRc t ht => ?_) (hbody _)
  have hrelease := Leaves.release hresting ht rfl
  rw [wp_setClientState]
  split
  next hstate => exact ⟨trivial, hrelease.1 hstate⟩
  next hstate => exact ⟨trivial, hrelease.2 hstate⟩

/-- A resubscribe, which claims the client in its own way, does as well. -/
theorem wp_resubscribe (hcall : CallSpec call) (fuel : Nat) (s : World) :
    wp discipline (resubscribe fuel call) (fun _ t => Leaves False s t) s := by
  simp only [resubscribe, wp_bind, wp_isClientConnected, true_and]
  split
  next => exact .refl s
  next =>
    simp only [wp_bind, wp_getClientState, true_and]
    split
    next => exact .refl s
    next hidle =>
      have hidle' : s.client.clientState = .connectedIdle := not_not.mp hidle
      simp only [wp_bind, wp_setClientState, hidle', if_true, true_and, wp_onSuccess, ne_eq,
        not_true_eq_false, false_imp_iff, and_true, forall_const]
      refine wp_mono (fun rc t ht => ?_) ((composes_nowhere hcall fuel).internalResubscribe _)
      have hrelease := Leaves.release rfl ht hidle'
      split
      next hstate => exact hrelease.1 hstate
      next hstate => exact hrelease.2 hstate

/-! ## Connecting and disconnecting -/

/-- While a connect is in progress, the client is connecting, or a handler has
disconnected it. -/
def ConnectingOrClosed (w : World) : Prop :=
  w.client.clientState = .connecting ∨ Settled w ∧ w.isClientConnected = false

/-- A connect that succeeds has opened the transport, unless a handler has changed the state. -/
theorem wp_internalConnect (hcall : CallSpec call) (fuel : Nat) (params : Option ConnectParams)
    {s : World} (hconnecting : IsConnecting s) (hstate : s.client.clientState = .connecting) :
    wp discipline (internalConnect fuel call params)
      (fun rc t => t.stack = s.stack ∧ ConnectingOrClosed t ∧
        (rc = .success → t.client.clientState = .connecting → t.transportOpen = true)) s := by
  have happly : wp discipline (applyConnectParams params)
      (fun _ t => t.stack = s.stack ∧ t.client.clientState = .connecting) s := by
    cases params with
    | none => exact ⟨rfl, hstate⟩
    | some params =>
        simp only [applyConnectParams, wp_modifyClient, true_and]
        exact ⟨rfl, hstate⟩
  rw [internalConnect, wp_bind]
  refine wp_mono (fun _ t ht => ?_) happly
  simp only [wp_bind, wp_netConnect, true_and]
  intro rc _
  rw [wp_onSuccess]
  refine ⟨?_, fun hrc => ⟨ht.1, .inl ht.2, fun h => absurd h hrc⟩⟩
  rintro rfl
  let t' := t.log (.netConnect .success)
  have hconnecting' : IsConnecting t' := (isConnecting_congr ht.1).mpr hconnecting
  refine wp_mono (fun rc u hu => ?_) ((composes_leavesSpec (G := IsConnecting)
    (fun _ _ h => (isConnecting_congr h).mpr) (fun _ h => h) hcall fuel).handshake t')
  refine ⟨hu.stack.trans ht.1, ?_⟩
  rcases hu.pair with hsame | ⟨hsettled, hclosed⟩
  · exact ⟨.inl (hsame.state.trans ht.2), fun _ _ => hsame.transport⟩
  · refine ⟨.inr ⟨hsettled, hclosed hconnecting'⟩, fun _ hstate' => ?_⟩
    have hresting := hsettled.resting
    rw [hstate'] at hresting
    cases hresting

/-- A client that has settled is not connecting. -/
theorem Settled.ne_connecting {w : World} (h : Settled w) : w.client.clientState ≠ .connecting := by
  intro hstate
  have hresting := h.resting
  rw [hstate] at hresting
  cases hresting

/-- Connecting settles the client. -/
theorem wp_connectFrom (hcall : CallSpec call) (fuel : Nat) (params : Option ConnectParams)
    (s : World) :
    wp discipline (connectFrom fuel call params s.client.clientState)
      (fun _ t => t.stack = s.stack ∧ Settled t) s := by
  simp only [connectFrom, wp_bind, wp_setClientState, if_true, true_and, wp_framed]
  refine wp_mono (fun rc t ht => ?_) (wp_internalConnect hcall fuel params rfl rfl)
  obtain ⟨hstack, hstate, hopen⟩ := ht
  have hstack' : t.stack.tail = s.stack := by rw [hstack]; rfl
  split
  next hrc =>
    simp only [wp_bind, wp_netDisconnect, wp_netDestroy, wp_setClientState, true_and, pure_eq,
      wp_ret]
    intro _ _ rc' _
    rcases hstate with hconnecting | ⟨hsettled, hclosed⟩
    · simp only [World.client_log, hconnecting, if_true]
      exact ⟨hstack', settled_closed rfl rfl rfl⟩
    · split
      next h => exact absurd h hsettled.ne_connecting
      next => exact ⟨hstack', settled_closed hsettled.resting hclosed rfl⟩
  next hrc =>
    simp only [wp_bind, wp_setClientState, true_and, pure_eq, wp_ret]
    rcases hstate with hconnecting | ⟨hsettled, hclosed⟩
    · simp only [hconnecting, if_true]
      exact ⟨hstack', settled_open rfl rfl (hopen (not_not.mp hrc) hconnecting)⟩
    · simp only [if_neg hsettled.ne_connecting]
      exact ⟨hstack', hsettled.resting, hsettled.consistent⟩

/-- A connect that may begin leaves the client settled. -/
theorem wp_connect (hcall : CallSpec call) (fuel : Nat) (params : Option ConnectParams)
    (s : World) :
    wp discipline (connect fuel call params)
      (fun _ t => Leaves False s t ∧
        (s.client.clientState.isValidForConnect = true → Settled t)) s := by
  simp only [connect, wp_bind, wp_getClientState, true_and]
  split
  next =>
    exact wp_mono (fun _ t ht => ⟨⟨ht.1, .inr ⟨ht.2, False.elim⟩⟩, fun _ => ht.2⟩)
      (wp_connectFrom hcall fuel params s)
  next hvalid => exact ⟨.refl s, fun h => absurd h hvalid⟩

/-- Disconnecting settles the client unless it is refused or fails to send; a
transport that cannot be destroyed is left to the caller. -/
theorem wp_disconnect (fuel : Nat) (s : World) :
    wp discipline (disconnect fuel)
      (fun rc t => t.stack = s.stack ∧
        (rc = .success → t.client.clientState = .disconnectedManually ∧ t.transportOpen = false) ∧
        (rc ≠ .success → s.stack.head? = some (.call .disconnect) → Same s t)) s := by
  simp only [disconnect, wp_bind, wp_getClientState, true_and, wp_isClientConnected]
  split
  next => exact ⟨rfl, nofun, fun _ _ => .refl s⟩
  next =>
    simp only [wp_bind, wp_setClientState, if_true, true_and, wp_onSuccess, ne_eq,
      not_true_eq_false, false_imp_iff, and_true, forall_const]
    refine wp_mono (Φ := fun rc t => t.stack = s.stack ∧
      (rc = .success → t.transportOpen = false) ∧
      (rc ≠ .success → s.stack.head? = some (.call .disconnect) →
        t.transportOpen = s.transportOpen)) (fun rc t ht => ?_) ?_
    · split
      next hrc =>
        simp only [wp_bind, wp_putClientState, true_and, pure_eq, wp_ret]
        exact ⟨ht.1, fun h => absurd h hrc, fun _ hhead => ⟨rfl, ht.2.2 hrc hhead⟩⟩
      next hrc =>
        simp only [wp_bind, wp_putClientState, true_and, pure_eq, wp_ret]
        exact ⟨ht.1, fun h => ⟨rfl, ht.2.1 h⟩, fun h => absurd h hrc⟩
    · refine wp_serialized trivial (fun rc hrc => ?_) fun packet _ => ⟨trivial, ?_⟩
      · exact ⟨rfl, fun h => absurd h ((reportsErrors_serializeZero _ _).ne_success hrc),
          fun _ _ => rfl⟩
      · simp only [wp_bind, wp_getClient, true_and, countdown, wp_emit]
        refine wp_mono (fun rc t ht => ?_) (wp_quiet (isQuiet_internalSendPacket _ _ _)
          (fun _ _ _ _ => trivial) (fun _ _ _ _ => trivial) fun _ _ ht => ht)
        have hstack : t.stack = s.stack := ht.stack_eq
        rw [wp_onSuccess]
        refine ⟨fun _ => ?_,
          fun hrc => ⟨hstack, fun h => absurd h hrc, fun _ _ => ht.transportOpen_eq⟩⟩
        simp only [wp_bind, wp_netDisconnect, wp_netDestroy, true_and]
        intro _ _ rc' hdestroyed
        split
        next hrc' =>
          -- an operation called as such is allowed no failing `destroy`
          refine ⟨hstack, nofun, fun _ hhead => absurd (hdestroyed ?_) hrc'⟩
          exact (congrArg List.head? hstack).trans hhead
        next => exact ⟨hstack, fun _ => rfl, fun h => absurd rfl h⟩

/-- Handling a loss leaves the client, and says so. -/
theorem wp_handleDisconnect (hcall : CallSpec call) (fuel : Nat) (s : World) :
    wp discipline (handleDisconnect fuel call)
      (fun rc t => Leaves False s t ∧ rc = .networkDisconnectedError) s := by
  rw [handleDisconnect, wp_framed]
  refine ⟨trivial, ?_⟩
  simp only [wp_bind]
  refine wp_mono (fun rc t ht => ?_) (wp_disconnect fuel _)
  obtain ⟨hstack, hclosed, -⟩ := ht
  have hforced : wp discipline (doIf (decide (rc ≠ .success)) forceClientDisconnect)
      (fun _ u => u.stack = t.stack ∧ u.client.clientState ≠ .connectedIdle ∧
        u.transportOpen = false) t := by
    unfold doIf
    split
    next =>
      simp only [forceClientDisconnect, wp_bind, wp_putClientState, wp_netDisconnect, wp_netDestroy,
        true_and, pure_eq, wp_ret]
      exact fun _ _ _ _ => ⟨rfl, nofun, rfl⟩
    next hrc =>
      obtain ⟨hstate, hopen⟩ := hclosed (by simpa using hrc)
      exact ⟨rfl, by rw [hstate]; decide, hopen⟩
  refine wp_mono (fun _ u hu => ?_) hforced
  obtain ⟨hstack', hidle, hopen⟩ := hu
  simp only [wp_getClient, true_and]
  have hhandler : wp discipline (callDisconnectHandler fuel call u.client.disconnectHandler)
      (fun _ v => v.stack = u.stack ∧ v.transportOpen = false) u := by
    cases u.client.disconnectHandler with
    | none => exact ⟨rfl, hopen⟩
    | some name =>
        simp only [callDisconnectHandler, wp_bind, wp_framed, true_and, pure_eq, wp_ret]
        refine wp_mono (fun _ v hv => ?_) (wp_application (I := fun v =>
          Leaves False (u.log (.enter (.disconnectHandler name))) v) fuel (fun _ _ => trivial)
          (fun c v hv hallow => ?_) (.refl _))
        · -- no handler returns with a connection
          obtain ⟨hleaves, hreturn⟩ := hv
          have hstack : v.stack = .disconnectHandler name :: u.stack := hleaves.stack
          refine ⟨by simp [hstack], ?_⟩
          simp only [keepsConnected, hstack] at hreturn
          rcases hleaves.pair with hsame | ⟨hsettled, -⟩
          · exact hsame.transport.trans hopen
          · exact hsettled.consistent.symm.trans hreturn
        · refine wp_mono (fun _ _ h => hv.trans h) (hcall c v (hv.entry ?_) hallow)
          exact fun h => absurd h hidle
  refine wp_mono (fun _ v hv => ?_) hhandler
  have hv' : v.stack.tail = s.stack := by rw [hv.1, hstack', hstack]; rfl
  simp only [wp_putClientState, true_and, pure_eq, wp_ret]
  exact ⟨⟨hv', .inr ⟨settled_closed rfl rfl hv.2, False.elim⟩⟩, trivial⟩

/-! ## Reconnecting -/

/-- A client that has settled has been left. -/
theorem Leaves.of_settled {s t : World} (hstack : t.stack = s.stack) (h : Settled t) :
    Leaves False s t := ⟨hstack, .inr ⟨h, False.elim⟩⟩

/-- A client in the error state that has been settled may be put down for a reconnect. -/
theorem Leaves.pending {s t : World} (h : Leaves False s t)
    (hs : s.client.clientState = .disconnectedError → Settled t)
    (hstate : t.client.clientState = .disconnectedError) :
    Leaves False s (t.granted .other .disconnectedError .pendingReconnect) := by
  have hsettled : Settled t := by
    rcases h.pair with hsame | ⟨hsettled, -⟩
    · exact hs (hsame.state ▸ hstate)
    · exact hsettled
  refine .of_settled h.stack (settled_closed rfl rfl ?_)
  rw [World.transportOpen_granted, ← hsettled.consistent, World.isClientConnected, hstate]
  rfl

/-- A change of the state that is refused leaves the client. -/
theorem Leaves.refused {s t : World} {change : StateChange} {expected new : ClientState}
    (h : Leaves False s t) : Leaves False s (t.refused change expected new) := by
  refine ⟨h.stack, ?_⟩
  rcases h.pair with hsame | ⟨hsettled, -⟩
  · exact .inl ⟨hsame.state, hsame.transport⟩
  · exact .inr ⟨⟨hsettled.resting, hsettled.consistent⟩, False.elim⟩

/-- A client that had settled and has been left has settled. -/
theorem Leaves.settled {s t : World} (h : Leaves g s t) (hs : Settled s) : Settled t := by
  rcases h.pair with hsame | ⟨hsettled, -⟩
  · exact hsame.settled hs
  · exact hsettled

/-- An attempt that says it has reconnected leaves the client settled. -/
theorem wp_attemptReconnect (hcall : CallSpec call) (fuel : Nat) (s : World) :
    wp discipline (attemptReconnect fuel call)
      (fun rc t => Leaves False s t ∧ (rc = .networkReconnected → Settled t)) s := by
  simp only [attemptReconnect, wp_bind, wp_isClientConnected, true_and]
  split
  next => exact ⟨.refl s, nofun⟩
  next hconnected =>
    simp only [wp_bind]
    refine wp_mono (fun _ t ht => ?_) (wp_connect hcall fuel none s)
    obtain ⟨hleaves, hvalid⟩ := ht
    simp only [wp_getClientState, true_and]
    split
    next =>
      simp only [wp_bind, wp_setClientState]
      split
      next herror =>
        refine ⟨trivial, hleaves.pending (fun hs => hvalid ?_) herror, nofun⟩
        rw [hs]
        rfl
      next => exact ⟨trivial, hleaves.refused, nofun⟩
    next hidle =>
      have hidle' : t.client.clientState = .connectedIdle := not_not.mp hidle
      have hsettled : Settled t := by
        rcases hleaves.pair with hsame | ⟨hsettled, -⟩
        · refine absurd ?_ hconnected
          rw [World.isClientConnected, ← hsame.state, hidle']
          rfl
        · exact hsettled
      simp only [wp_bind]
      refine wp_mono (fun rc u hu => ?_) (wp_resubscribe hcall fuel t)
      rw [wp_onSuccess]
      exact ⟨fun _ => ⟨hleaves.trans hu, fun _ => hu.settled hsettled⟩,
        fun _ => ⟨hleaves.trans hu, fun _ => hu.settled hsettled⟩⟩

/-- Backing off changes neither the state nor the transport. -/
theorem wp_reconnectBackoff (rc : IotError) (s : World) :
    wp discipline (reconnectBackoff rc) (fun _ t => Leaves False s t) s := by
  simp only [reconnectBackoff, wp_bind, wp_modifyClient, wp_getClient, true_and]
  split
  next => exact .of_same rfl ⟨rfl, rfl⟩
  next =>
    simp only [wp_bind, countdown, wp_emit, true_and, pure_eq, wp_ret]
    exact .of_same rfl ⟨rfl, rfl⟩

/-- Handling a reconnect leaves the client. -/
theorem wp_handleReconnect (hcall : CallSpec call) (fuel : Nat) (s : World) :
    wp discipline (handleReconnect fuel call) (fun _ t => Leaves False s t) s := by
  rw [handleReconnect, wp_framed]
  refine ⟨trivial, wp_mono (Φ := fun _ t => Leaves False (s.log (.enter .handleReconnect)) t)
    (fun rc t ht => ⟨trivial, Leaves.leave ht⟩) ?_⟩
  simp only [wp_bind, wp_hasTimerExpired, true_and]
  intro expired _
  split
  next => exact .refl _
  next =>
    simp only [wp_bind, netIsConnected, wp_query, solo_pre, solo_allow, true_and]
    intro rc _
    split
    next =>
      simp only [wp_bind]
      refine wp_mono (fun rc' t ht => ?_) (wp_attemptReconnect hcall fuel _)
      obtain ⟨hleaves, hreconnected⟩ := ht
      split
      next hrc =>
        simp only [wp_bind, wp_setClientState, wp_onSuccess]
        split
        next hidle =>
          have hopen : t.transportOpen = true := by
            rw [← (hreconnected hrc).consistent, World.isClientConnected, hidle]
            rfl
          have hsettled : Settled (t.granted .other .connectedIdle .connectedYieldInProgress) :=
            settled_open rfl rfl hopen
          exact ⟨trivial, fun _ => .of_settled hleaves.stack hsettled, fun h => absurd rfl h⟩
        next => exact ⟨trivial, nofun, fun _ => hleaves.refused⟩
      next => exact wp_mono (fun _ _ hu => hleaves.trans hu) (wp_reconnectBackoff rc' t)
    next => exact wp_reconnectBackoff rc _

/-! ## Yielding -/

/-- So does the keep-alive check, which may find the connection lost. -/
theorem wp_keepAlive (hcall : CallSpec call) (fuel : Nat) (s : World) :
    wp discipline (keepAlive fuel call) (fun _ t => Leaves False s t) s := by
  have hlost : ∀ t, Leaves False s t →
      wp discipline (handleDisconnect fuel call) (fun _ u => Leaves False s u) t :=
    fun t ht => wp_mono (fun _ _ hu => ht.trans hu.1) (wp_handleDisconnect hcall fuel t)
  simp only [keepAlive, wp_bind, wp_getClient, true_and]
  split
  next => exact .refl s
  next =>
    simp only [wp_bind, wp_hasTimerExpired, true_and]
    intro expired _
    split
    next => exact .refl s
    next =>
      simp only [wp_bind, wp_getClient, true_and]
      split
      next => exact hlost s (.refl s)
      next =>
        simp only [wp_bind, countdown, wp_emit, true_and]
        refine wp_serialized trivial (fun rc _ => .of_same rfl ⟨rfl, rfl⟩)
          fun packet _ => ⟨trivial, ?_⟩
        simp only [wp_bind]
        refine wp_mono (fun rc t ht => ?_)
          (wp_quiet_leaves False _ (isQuiet_internalSendPacket _ _ _))
        have hleaves : Leaves False s t := by
          refine Leaves.trans ?_ ht
          exact .of_same rfl ⟨rfl, rfl⟩
        split
        next => exact hlost t hleaves
        next =>
          simp only [wp_bind, wp_modifyClient, wp_emit, true_and, pure_eq, wp_ret]
          exact hleaves.trans (.of_same rfl ⟨rfl, rfl⟩)

/-- So does what follows on a read. -/
theorem wp_afterCycleRead (hcall : CallSpec call) (fuel : Nat) (rc : IotError) (s : World) :
    wp discipline (afterCycleRead fuel call rc) (fun _ t => Leaves False s t) s := by
  unfold afterCycleRead
  split
  next => exact wp_keepAlive hcall fuel s
  next =>
    split
    next => exact wp_mono (fun _ _ ht => ht.1) (wp_handleDisconnect hcall fuel s)
    next => exact .refl s

/-- The client is not in the error state when a yield begins. -/
theorem wp_connectionLost {s t : World} (hs : s.client.clientState ≠ .disconnectedError)
    (h : Leaves False s t) : wp discipline connectionLost (fun _ u => Leaves False s u) t := by
  simp only [connectionLost, wp_bind, wp_modifyClient, wp_getClient, true_and]
  have hcounted : ∀ f : Client → Client, (f t.client).clientState = t.client.clientState →
      Leaves False s (t.onClient f) := fun f hf => h.trans (.of_same rfl ⟨hf, rfl⟩)
  split
  next =>
    simp only [wp_bind, wp_setClientState]
    split
    next herror =>
      simp only [true_and, ne_eq, not_true_eq_false, if_false, wp_bind, wp_modifyClient, countdown,
        wp_emit, pure_eq, wp_ret]
      refine ((hcounted _ rfl).pending (fun hs' => absurd hs' hs) herror).trans ?_
      exact .of_same rfl ⟨rfl, rfl⟩
    next =>
      refine ⟨trivial, ?_⟩
      rw [if_pos (by simp)]
      exact (hcounted _ rfl).refused
  next => exact hcounted _ rfl

/-- So does one cycle of a yield. -/
theorem wp_yieldCycle (hcall : CallSpec call) (fuel : Nat) {s t : World}
    (hs : s.client.clientState ≠ .disconnectedError) (h : Leaves False s t) :
    wp discipline (yieldCycle fuel call) (fun _ u => Leaves False s u) t := by
  simp only [yieldCycle, wp_bind, wp_getClientState, true_and]
  split
  next =>
    simp only [wp_bind, wp_getClient, true_and]
    split
    next => exact h
    next =>
      simp only [wp_bind]
      exact wp_mono (fun _ _ hu => h.trans hu) (wp_handleReconnect hcall fuel t)
  next =>
    simp only [wp_bind]
    refine wp_mono (fun r u hu => ?_) (wp_internalCycleRead hcall fuel .yield t)
    have hu' : Leaves False s u := h.trans (hu.weaken False.elim)
    refine wp_mono (fun rc v hv => ?_) (wp_afterCycleRead hcall fuel r.1 u)
    have hv' := hu'.trans hv
    split
    next => exact wp_connectionLost hs hv'
    next => split <;> exact hv'

/-- So does a yield behind its claim. -/
theorem wp_yieldClaimed (hcall : CallSpec call) (fuel : Nat) (change : StateChange) {s t : World}
    (hs : s.client.clientState = .connectedIdle ∨ s.client.clientState = .pendingReconnect)
    (h : Leaves False s t) :
    wp discipline (yieldClaimed fuel call change) (fun _ u => Leaves False s u) t := by
  have herror : s.client.clientState ≠ .disconnectedError := by
    rcases hs with hs | hs <;> rw [hs] <;> decide
  simp only [yieldClaimed, wp_bind]
  refine wp_mono (Φ := fun _ u => Leaves False s u) (fun rc u hu => ?_)
    (wp_loop (I := fun _ u => Leaves False s u) (fun _ _ _ => trivial)
      (fun _ u hu => ?_) fuel _ t h)
  · split
    next =>
      simp only [wp_bind, wp_setClientState]
      split
      next hyield =>
        refine ⟨trivial, .of_settled hu.stack (settled_open rfl rfl ?_)⟩
        -- the state is not the first one, so it has been settled since
        rcases hu.pair with hsame | ⟨hsettled, -⟩
        · rw [← hsame.state, hyield] at hs
          rcases hs with hs | hs <;> cases hs
        · rw [World.transportOpen_granted, ← hsettled.consistent, World.isClientConnected, hyield]
          rfl
      next => exact ⟨trivial, hu.refused⟩
    next =>
      rw [wp_bind]
      unfold doIf
      split
      next =>
        simp only [wp_emit, true_and, pure_eq, wp_ret]
        exact hu.trans (.of_same rfl ⟨rfl, rfl⟩)
      next => exact hu
  · simp only [wp_bind]
    refine wp_mono (fun r v hv => ?_) (wp_yieldCycle hcall fuel herror hu)
    cases r with
    | inr rc => exact hv
    | inl rc =>
        simp only [wp_bind, wp_hasTimerExpired, true_and]
        intro expired _
        split <;> exact hv

/-- So does a whole yield. -/
theorem wp_yield (hcall : CallSpec call) (fuel : Nat) (timeoutMs : UInt32) {s : World}
    (hs : Entry s) : wp discipline (yield fuel call timeoutMs) (fun _ t => Leaves False s t) s := by
  unfold MqttClient.yield
  split
  next => exact .refl s
  next =>
    simp only [wp_bind, wp_getClientState, true_and]
    split
    next => exact .refl s
    next =>
      split
      next hpending =>
        simp only [wp_bind, countdown, wp_emit, true_and]
        exact wp_yieldClaimed hcall fuel .other (.inr hpending) (.of_same rfl ⟨rfl, rfl⟩)
      next =>
        simp only [wp_bind, wp_isClientConnected, true_and]
        split
        next => exact .refl s
        next =>
          split
          next => exact .refl s
          next hidle =>
            have hidle' := not_not.mp hidle
            simp only [wp_bind, wp_setClientState, hidle', if_true, true_and,
              wp_onSuccess, countdown,
              wp_emit, forall_const, ne_eq, not_true_eq_false, false_imp_iff, and_true]
            exact wp_yieldClaimed hcall fuel .release (.inl hidle')
              (.of_settled rfl (settled_open rfl rfl (hs hidle')))

/-! ## All calls -/

/-- Every call of the interface leaves the client. -/
theorem wp_perform (hcall : CallSpec call) (fuel : Nat) (c : Call) {s : World} (hs : Entry s)
    (hallow : keepsConnected.allowsCall s c) (hhead : s.stack.head? = some (.call c)) :
    wp discipline (perform fuel call c) (fun _ t => Leaves False s t) s := by
  cases c with
  | init params =>
      simp only [perform, init]
      split
      next =>
        simp only [wp_bind, wp_modifyClient, wp_emit, true_and, pure_eq, wp_ret]
        exact .of_settled rfl (settled_closed rfl rfl hallow)
      next => exact .refl s
  | connect params => exact wp_mono (fun _ _ ht => ht.1) (wp_connect hcall fuel params s)
  | publish topicName topicNameLen params =>
      simp only [perform, publish]
      split
      next =>
        split
        next => exact .refl s
        next =>
          exact wp_exclusively_leaves rfl ((composes_nowhere hcall fuel).internalPublish _ _ _) s
      next => exact .refl s
  | subscribe topicName topicNameLen qos handler data =>
      simp only [perform, subscribe]
      split
      next =>
        refine wp_exclusively_leaves rfl
          ((composes_nowhere hcall fuel).internalSubscribe _ _ _ _ _ ?_) s
        exact leavesSpec_subscribeInSlot hcall fuel
      next => exact .refl s
  | unsubscribe topicFilter topicFilterLen =>
      simp only [perform, unsubscribe]
      split
      next => exact .refl s
      next =>
        refine wp_exclusively_leaves rfl
          ((composes_nowhere hcall fuel).internalUnsubscribe _ _ ?_) s
        exact leavesSpec_removeSubscription _
  | resubscribe => exact wp_resubscribe hcall fuel s
  | yield timeoutMs => exact wp_yield hcall fuel timeoutMs hs
  | disconnect =>
      refine wp_mono (fun rc t ht => ?_) (wp_disconnect fuel s)
      -- a DISCONNECT that fails changes neither the state nor the transport
      by_cases hrc : rc = .success
      · obtain ⟨hstate, hopen⟩ := ht.2.1 hrc
        exact .of_settled ht.1 (settled_closed (by rw [hstate]; rfl) (by rw [hstate]; rfl) hopen)
      · exact .of_same ht.1 (ht.2.2 hrc hhead)
  | attemptReconnect => exact wp_mono (fun _ _ ht => ht.1) (wp_attemptReconnect hcall fuel s)
  | autoreconnectSetStatus newStatus =>
      simp only [perform, wp_bind, wp_modifyClient, true_and, pure_eq, wp_ret]
      exact .of_same rfl ⟨rfl, rfl⟩
  | setDisconnectHandler handler =>
      cases handler with
      | none => exact .refl s
      | some handler =>
          simp only [perform, wp_bind, wp_modifyClient, true_and, pure_eq, wp_ret]
          exact .of_same rfl ⟨rfl, rfl⟩
  | setConnectParams params =>
      cases params with
      | none => exact .refl s
      | some params =>
          simp only [perform, setConnectParams, wp_bind, wp_modifyClient, true_and, pure_eq, wp_ret]
          exact .of_same rfl ⟨rfl, rfl⟩
  | resetNetworkDisconnectedCount =>
      simp only [perform, wp_bind, wp_modifyClient, true_and, pure_eq, wp_ret]
      exact .of_same rfl ⟨rfl, rfl⟩

/-- Every call does, whatever its handlers call. -/
theorem callSpec_api (fuel : Nat) : CallSpec (api fuel) := by
  refine fun c s hs hallow => wp_recursive (P := fun c s =>
    Entry s ∧ keepsConnected.allowsCall s c) (Φ := fun _ s _ t => Leaves False s t)
    (fun _ _ _ => trivial) (fun fuel call hcall c s h => ?_) fuel c s ⟨hs, hallow⟩
  rw [wp_framed]
  refine ⟨trivial, wp_mono (fun _ t ht => ⟨trivial, Leaves.leave ht⟩) ?_⟩
  refine wp_perform (fun c s hs hallow => hcall c s ⟨hs, hallow⟩) fuel c h.1 ?_ rfl
  cases c <;> exact h.2

end Connected

/-- Between calls the client is connected exactly if its transport is open,
where handlers do not return on a client that they have reconnected under a
call that is about to disconnect it. -/
theorem isClientConnected_iff_transportOpen {w : World} (h : AtRest keepsConnected w) :
    w.isClientConnected = true ↔ w.transportOpen = true := by
  have hkeeps : ∀ fuel c s, s.isClientConnected = s.transportOpen →
      keepsConnected.allowsCall s c →
      wp Connected.discipline (api fuel c)
        (fun _ t => t.isClientConnected = t.transportOpen) s := by
    intro fuel c s hs hallow
    have hentry : Connected.Entry s := by
      intro hidle
      rw [← hs, World.isClientConnected, hidle]
      rfl
    refine wp_mono (fun _ t ht => ?_) (Connected.callSpec_api fuel c s hentry hallow)
    rcases ht.pair with hsame | ⟨hsettled, -⟩
    · rw [hsame.connected_eq, hsame.transport, hs]
    · exact hsettled.consistent
  rw [h.of_wp (fun _ _ => rfl) hkeeps]

theorem keepsConnected_allowsCalm : keepsConnected.AllowsCalm := by
  intro q w a hq
  cases q with
  | application => cases hq
  | netDestroy => cases hq
  | _ => trivial

theorem isClientConnected_connectedWorld :
    connectedWorld.isClientConnected = true ↔ connectedWorld.transportOpen = true :=
  isClientConnected_iff_transportOpen ((AtRest.init blankClient sampleInitParams).perform_calm
    keepsConnected_allowsCalm trivial isCalm_connectCall perform_connectCall)

/-- A client whose disconnect handler reconnects it during a yield. -/
def handledWorld : World :=
  (connectedWorld.perform 20 (.setDisconnectHandler (some 0)) [] []).2.2

def reconnectedWorld : World :=
  (handledWorld.perform 20 (.yield 100) (.error :: connackPacket) [some .attemptReconnect]).2.2

/-- A disconnect handler is set on the connected client. -/
theorem perform_setDisconnectHandler :
    (connectedWorld.perform 20 (.setDisconnectHandler (some 0)) [] []).1 = some .success := by
  decide +kernel

theorem perform_yield_reconnecting :
    (handledWorld.perform 20 (.yield 100) (.error :: connackPacket) [some .attemptReconnect]).1 =
      some .networkDisconnectedError := by
  decide +kernel

/-- The handler has reconnected, and the state says that the client is disconnected. -/
theorem reconnectedWorld_pair :
    reconnectedWorld.isClientConnected = false ∧ reconnectedWorld.transportOpen = true := by
  decide +kernel

/-- The reconnected client is told that it is disconnected. -/
theorem not_isClientConnected_iff_of_handler :
    ¬ ∀ w : World, AtRest anything w →
      (w.isClientConnected = true ↔ w.transportOpen = true) := by
  intro h
  have hrest : AtRest anything reconnectedWorld :=
    (atRest_connectedWorld.perform perform_setDisconnectHandler).perform perform_yield_reconnecting
  have hiff := h reconnectedWorld hrest
  rw [reconnectedWorld_pair.1, reconnectedWorld_pair.2] at hiff
  exact absurd (hiff.mpr rfl) Bool.false_ne_true

end MqttClient
