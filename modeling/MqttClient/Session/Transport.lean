import MqttClient.Session.Runs

/-! # The transport is used only while it is open

A wait for an acknowledgement goes on reading whatever its callbacks do, so it
relies on them not to close the transport. Under that condition the client
never reads from, or writes to, a transport that is not open.
-/

namespace MqttClient

open Effect Program

/-- Reading and writing use the transport. -/
def Query.usesTransport : Query → Bool
  | .netRead _ _ | .netWrite _ => true
  | _ => false

/-- Some call in progress waits for an acknowledgement. -/
def World.isWaiting (w : World) : Prop := ∃ packetType, Frame.waiting packetType ∈ w.stack

/-- The calls that close the transport, or forget that it is open. -/
def Call.closes : Call → Bool
  | .disconnect | .init _ => true
  | _ => false

/-- No handler closes the transport under a call that waits, and the transport
is destroyed without an error in a call of `aws_iot_mqtt_disconnect`. -/
def keepsTransport : Policy := fun q =>
  match q with
  | .application => fun w (next : Option Call) =>
      ∀ c, next = some c → w.isWaiting → c.closes = false
  | .netDestroy => fun w (rc : IotError) =>
      w.stack.head? = some (.call .disconnect) → rc = .success
  | _ => fun _ _ => True

namespace Transport

/-- Reads and writes need an open transport. -/
abbrev discipline : Discipline World Answer :=
  solo (fun q w => q.usesTransport → w.transportOpen = true) keepsTransport (fun _ _ => True)

/-- A client that thinks it is connected has an open transport. -/
def Sound (w : World) : Prop := w.isClientConnected = true → w.transportOpen = true

/-- A message handler is running under a call that waits. -/
structure InCallback (w : World) : Prop where
  state : w.client.clientState = .connectedWaitForCbReturn
  opened : w.transportOpen = true

/-- What holds when a call is made. -/
structure Entry (w : World) : Prop where
  sound : Sound w
  callback : w.isWaiting → InCallback w

/-- What holds when a call that was made at `s` has returned. -/
structure Exit (s t : World) : Prop where
  stack : t.stack = s.stack
  entry : Entry t

/-- Nothing has happened to the client state, and the transport is open. -/
structure Keeps (s t : World) : Prop where
  stack : t.stack = s.stack
  state : t.client.clientState = s.client.clientState
  opened : t.transportOpen = true

theorem Keeps.trans {s t u : World} (h : Keeps s t) (h' : Keeps t u) : Keeps s u :=
  ⟨h'.stack.trans h.stack, h'.state.trans h.state, h'.opened⟩

/-- Quiet programs leave an open transport open. -/
theorem Keeps.of_quiet {s t : World} (hopen : s.transportOpen = true) (h : Quiet s t) :
    Keeps s t :=
  ⟨h.stack_eq, h.clientState, h.transportOpen_eq.trans hopen⟩

theorem Keeps.refl {s : World} (hopen : s.transportOpen = true) : Keeps s s := ⟨rfl, rfl, hopen⟩

/-- Whether a wait is in progress is read off the calls in progress. -/
theorem isWaiting_congr {s t : World} (h : t.stack = s.stack) : t.isWaiting ↔ s.isWaiting := by
  simp only [World.isWaiting, h]

/-- An open transport may be used in any state. -/
theorem sound_of_open {w : World} (h : w.transportOpen = true) : Sound w := fun _ => h

/-- A client that is not connected does not use its transport. -/
theorem sound_of_not_connected {w : World} (h : w.client.clientState.isConnected = false) :
    Sound w := by
  intro hconnected
  rw [World.isClientConnected, h] at hconnected
  cases hconnected

theorem Exit.refl {s : World} (h : Entry s) : Exit s s := ⟨rfl, h⟩

theorem Exit.trans {s t u : World} (h : Exit s t) (h' : Exit t u) : Exit s u :=
  ⟨h'.stack.trans h.stack, h'.entry⟩

/-- A frame that is no wait may be left as it was entered. -/
theorem Entry.enter {s : World} {f : Frame} (h : Entry s)
    (hf : ∀ packetType, f ≠ .waiting packetType) :
    Entry (s.log (.enter f)) where
  sound := h.sound
  callback := by
    rintro ⟨packetType, hmem⟩
    rcases List.mem_cons.mp hmem with heq | hmem
    · exact absurd heq.symm (hf packetType)
    · exact ⟨(h.callback ⟨packetType, hmem⟩).state, (h.callback ⟨packetType, hmem⟩).opened⟩

/-- A frame is left as its body was. -/
theorem Exit.leave {s t : World} {f : Frame} {rc : IotError}
    (h : Exit (s.log (.enter f)) t) : Exit s (t.log (.leave f rc)) := by
  have hstack : t.stack = f :: s.stack := h.stack
  refine ⟨by simp [hstack], h.entry.sound, ?_⟩
  rintro ⟨packetType, hmem⟩
  have hmem' : Frame.waiting packetType ∈ t.stack := by
    rw [World.stack_log_leave, hstack, List.tail_cons] at hmem
    rw [hstack]
    exact List.mem_cons_of_mem f hmem
  exact ⟨(h.entry.callback ⟨packetType, hmem'⟩).state,
    (h.entry.callback ⟨packetType, hmem'⟩).opened⟩

/-- A frame other than a wait can be put around a call that exits well. -/
theorem Exit.enter {s t : World} {f : Frame} (h : Exit s t)
    (hf : ∀ packetType, f ≠ .waiting packetType) :
    Exit (s.log (.enter f)) (t.log (.enter f)) :=
  ⟨congrArg (f :: ·) h.stack, h.entry.enter hf⟩

/-- Delivering a message is no use of the transport. -/
theorem Exit.delivered {s t : World} {name : HandlerName} {topic payload : List UInt8} {data : Nat}
    (h : Exit s t) : Exit s (t.log (.delivered name topic payload data)) :=
  ⟨h.stack, h.entry.sound, fun hwaiting =>
    ⟨(h.entry.callback hwaiting).state, (h.entry.callback hwaiting).opened⟩⟩

/-- A frame whose body keeps the transport open keeps it open. -/
theorem Keeps.leave {s t : World} {f : Frame} {rc : IotError}
    (h : Keeps (s.log (.enter f)) t) : Keeps s (t.log (.leave f rc)) := by
  have hstack : t.stack = f :: s.stack := h.stack
  exact ⟨by simp [hstack], h.state, h.opened⟩

/-- Reading, writing and keeping time while the transport is open. -/
theorem wp_quiet_open {α : Type} {p : M α} {s : World} (h : IsQuiet p)
    (hopen : s.transportOpen = true) : wp discipline p (fun _ t => Keeps s t) s :=
  wp_quiet h (fun _ _ hq _ _ => hq.transportOpen_eq.trans hopen) (fun _ _ _ _ => trivial)
    fun _ _ hq => .of_quiet hopen hq

/-! ## Dispatching packets -/

/-- What each call does for the code that calls it. -/
def CallSpec (call : Call → M IotError) : Prop :=
  ∀ c s, Entry s → keepsTransport.allowsCall s c → wp discipline (call c) (fun _ t => Exit s t) s

variable {call : Call → M IotError}

/-- Application code exits well, if its calls do. -/
theorem wp_application_exit (hcall : CallSpec call) (fuel : Nat) {s : World} (h : Entry s) :
    wp discipline (application fuel call) (fun _ t => Exit s t) s := by
  refine wp_mono (fun _ _ ht => ht.1) (wp_application (I := Exit s) fuel
    (fun _ _ hq => by cases hq) (fun c t ht hallow => ?_) (Exit.refl h))
  exact wp_mono (fun _ _ hu => ht.trans hu) (hcall c t ht.entry hallow)

/-- So do all handlers that one message is delivered to. -/
theorem wp_deliver (hcall : CallSpec call) (fuel topicOff : Nat) (topicNameLen : UInt16)
    (remaining : Nat) {s : World} (hs : Entry s) :
    wp discipline (deliverMessageLoop fuel call topicOff topicNameLen remaining)
      (fun _ t => Exit s t) s := by
  refine wp_deliverMessageLoop fuel topicOff topicNameLen remaining (fun _ _ => trivial)
    (fun h t ht => ?_) (Exit.refl hs)
  refine wp_callHandler (J := fun name u => Exit (s.log (.enter (.handler name))) u) fuel h topicOff
    topicNameLen (fun _ _ _ hq => by cases hq) ?_ ?_ ?_ ht
  · intro name topic payload data u hu
    exact ⟨trivial, trivial, hu.delivered.enter (by simp)⟩
  · intro name c u hu hallow
    exact wp_mono (fun _ _ h => hu.trans h) (hcall c u hu.entry hallow)
  · intro name u hu _
    exact ⟨trivial, hu.leave⟩

/-- What dispatching a packet at `s` leaves: all is as before if it went well
or if a call waits, and the client is sound in any case. -/
structure Dispatched (s : World) (rc : IotError) (t : World) : Prop where
  stack : t.stack = s.stack
  sound : Sound t
  keeps : rc = .success ∨ s.isWaiting → Keeps s t

/-- What keeps the transport open may answer anything. -/
theorem Dispatched.of_keeps {s t : World} {rc : IotError} (h : Keeps s t) : Dispatched s rc t :=
  ⟨h.stack, sound_of_open h.opened, fun _ => h⟩

/-- A message that has been delivered leaves a transport that may be used, or says that it does
not. -/
theorem wp_internalDeliverMessage (hcall : CallSpec call) (fuel topicOff : Nat)
    (topicNameLen : UInt16) {s : World} (hopen : s.transportOpen = true) :
    wp discipline (internalDeliverMessage fuel call topicOff topicNameLen) (Dispatched s) s := by
  have hentry : ∀ ch e, Entry (s.granted ch e .connectedWaitForCbReturn) := fun ch e =>
    ⟨sound_of_open hopen, fun _ => ⟨rfl, hopen⟩⟩
  simp only [internalDeliverMessage, wp_bind, wp_getClientState, true_and, wp_setClientState,
    if_true]
  refine wp_mono (fun _ t ht => ?_) (wp_deliver hcall fuel topicOff topicNameLen _
    (hentry _ _))
  have hstack : t.stack = s.stack := ht.stack
  by_cases hstate : t.client.clientState = .connectedWaitForCbReturn
  · simp only [if_pos hstate]
    have hopen' :
    t.transportOpen = true := ht.entry.sound (by rw [World.isClientConnected, hstate]; rfl)
    exact .of_keeps ⟨hstack, rfl, hopen'⟩
  · simp only [if_neg hstate]
    refine ⟨hstack, ht.entry.sound, ?_⟩
    rintro (hrc | hwaiting)
    · cases hrc
    · exact absurd (ht.entry.callback ((isWaiting_congr hstack).mpr hwaiting)).state hstate

/-- Handling a PUBLISH acknowledges it only on a transport that is open. -/
theorem wp_internalHandlePublish (hcall : CallSpec call) (fuel : Nat) (timer : TimerName)
    {s : World} (hopen : s.transportOpen = true) :
    wp discipline (internalHandlePublish fuel call timer) (Dispatched s) s := by
  simp only [internalHandlePublish, wp_bind, wp_getClient, true_and]
  split
  next rc _ => exact .of_keeps (.refl hopen)
  next f _ =>
    simp only [wp_bind, pushMessage, wp_modify, popMessage, wp_atomically, solo_guar, true_and]
    refine wp_mono (fun rc t ht => ?_) (wp_internalDeliverMessage hcall fuel _ _ (s :=
      { s with messages := _ }) hopen)
    rw [wp_onSuccess]
    refine ⟨fun hrc => ?_, fun hrc => ?_⟩
    · have hkeeps := ht.keeps (.inl hrc)
      split
      next => exact .of_keeps ⟨hkeeps.stack, hkeeps.state, hkeeps.opened⟩
      next =>
        refine wp_mono (fun _ u hu => ?_) (wp_quiet_open (isQuiet_serialized fun _ =>
          isQuiet_internalSendPacket _ _ _) hkeeps.opened)
        exact .of_keeps ⟨hu.stack.trans hkeeps.stack, hu.state.trans hkeeps.state, hu.opened⟩
    · exact ⟨ht.stack, ht.sound, fun h =>
        ⟨(ht.keeps h).stack, (ht.keeps h).state, (ht.keeps h).opened⟩⟩

/-- So does dispatching any packet. -/
theorem wp_dispatchPacket (hcall : CallSpec call) (fuel : Nat) (timer : TimerName)
    (packetType : UInt8) {s : World} (hopen : s.transportOpen = true) :
    wp discipline (dispatchPacket fuel call timer packetType) (Dispatched s) s := by
  unfold dispatchPacket
  split
  case h_5 => exact wp_internalHandlePublish hcall fuel timer hopen
  case h_8 =>
    simp only [wp_bind, wp_modifyClient, true_and, wp_getClient, countdown,
      wp_emit, pure_eq, wp_ret]
    exact .of_keeps ⟨rfl, rfl, hopen⟩
  all_goals exact .of_keeps (.refl hopen)

/-- So does reading the next packet. -/
theorem wp_internalCycleRead (hcall : CallSpec call) (fuel : Nat) (timer : TimerName) {s : World}
    (hopen : s.transportOpen = true) :
    wp discipline (internalCycleRead fuel call timer) (fun r t => Dispatched s r.1 t) s := by
  simp only [internalCycleRead, wp_bind]
  refine wp_mono (fun threadRc t ht => ?_) (wp_quiet_open (isQuiet_lockMutex .tlsRead) hopen)
  split
  next => exact .of_keeps ht
  next =>
    simp only [wp_bind]
    refine wp_mono (fun r u hu => ?_) (wp_quiet_open (isQuiet_internalReadPacket fuel) ht.opened)
    refine wp_mono (fun threadRc v hv => ?_)
      (wp_quiet_open (isQuiet_unlockMutex .tlsRead) hu.opened)
    have hkeeps : Keeps s v := (ht.trans hu).trans hv
    split
    next => split <;> exact .of_keeps hkeeps
    next => exact .of_keeps hkeeps
    next packetType =>
      split
      next => exact .of_keeps hkeeps
      next =>
        simp only [wp_bind]
        refine wp_mono (fun rc x hx => ?_) (wp_dispatchPacket hcall fuel timer packetType hv.opened)
        refine ⟨hx.stack.trans hkeeps.stack, hx.sound, fun h => hkeeps.trans (hx.keeps ?_)⟩
        exact h.imp_right (isWaiting_congr hkeeps.stack).mpr

/-- A wait leaves the client as it was. -/
theorem wp_internalWaitForRead (hcall : CallSpec call) (fuel : Nat) (packetType : MessageType)
    {s : World} (hopen : s.transportOpen = true) :
    wp discipline (internalWaitForRead fuel call packetType) (fun _ t => Keeps s t) s := by
  rw [internalWaitForRead, wp_framed]
  refine ⟨trivial, ?_⟩
  simp only [wp_bind]
  let s' := s.log (.enter (.waiting packetType))
  have hwaiting : s'.isWaiting := ⟨packetType, List.mem_cons_self⟩
  refine wp_mono (Φ := fun _ t => Keeps s' t) (fun r t ht => ?_)
    (wp_loop (I := fun _ t => Keeps s' t) (fun _ _ _ => trivial) (fun b t ht => ?_) fuel 0 s'
      (.refl hopen))
  · split <;> exact ⟨trivial, ht.leave⟩
  · simp only [waitForReadStep, wp_bind, wp_hasTimerExpired]
    refine ⟨nofun, fun expired _ => ?_⟩
    split
    next => exact ht
    next =>
      simp only [wp_bind]
      refine wp_mono (fun r u hu => ?_) (wp_internalCycleRead hcall fuel .command ht.opened)
      have hkeeps : Keeps s' u :=
        ht.trans (hu.keeps (.inr ((isWaiting_congr ht.stack).mpr hwaiting)))
      split <;> exact hkeeps

/-! ## The operations that need a connected client -/

/-- A step that keeps the client as it was, where the transport is open. -/
abbrev KeepsSpec (p : M IotError) : Prop :=
  ∀ s, s.transportOpen = true → wp discipline p (fun _ t => Keeps s t) s

/-- What an operation consists of behind its claim keeps the transport open. -/
theorem composes_keepsSpec (hcall : CallSpec call) (fuel : Nat) : Composes fuel call KeepsSpec where
  io h _ hopen := wp_quiet_open h.isIo.isQuiet hopen
  before hp hg s hopen := by
    rw [wp_bind]
    refine wp_mono (fun a t ht => ?_) (wp_quiet_open hp.isIo.isQuiet hopen)
    exact wp_mono (fun _ u hu => ht.trans hu) (hg a t ht.opened)
  seq hp hg s hopen := by
    rw [wp_bind]
    refine wp_mono (fun a t ht => ?_) (hp s hopen)
    exact wp_mono (fun _ u hu => ht.trans hu) (hg a t ht.opened)
  wait packetType _ hopen := wp_internalWaitForRead hcall fuel packetType hopen

/-- Filling a slot does as well. -/
theorem keepsSpec_subscribeInSlot (hcall : CallSpec call) (fuel slot len : Nat)
    (h : MessageHandler) : KeepsSpec (subscribeInSlot fuel call slot len h) := by
  intro s hopen
  rw [subscribeInSlot, wp_framed]
  refine ⟨trivial, wp_mono (fun _ t ht => ⟨trivial, Keeps.leave ht⟩) ?_⟩
  refine (composes_keepsSpec hcall fuel).requestSubscription slot len h (fun t ht => ?_) _ hopen
  simp only [addSubscription, wp_bind, wp_modifyClient, true_and, pure_eq, wp_ret]
  exact ⟨rfl, rfl, ht⟩

/-- Freeing one does as well. -/
theorem keepsSpec_removeSubscription (topicFilter : CString) :
    KeepsSpec (removeSubscription topicFilter) := by
  intro s hopen
  simp only [removeSubscription, wp_bind, wp_modify, solo_guar, true_and, pure_eq, wp_ret]
  exact ⟨rfl, rfl, hopen⟩

/-- An operation that claims an idle client or one in a handler gives it back
as it found it. -/
theorem wp_exclusively_open {inProgress : ClientState} {body : M IotError}
    {onRefused : ClientState → IotError → M IotError} (hbody : KeepsSpec body)
    {s : World} (hs : Entry s) :
    wp discipline (exclusively inProgress body onRefused) (fun _ t => Exit s t) s := by
  apply wp_exclusively trivial (.refl hs) (.refl hs) trivial
  intro hconnected
  refine wp_mono (fun bodyRc t ht => ?_) (hbody _ (hs.sound hconnected))
  rw [wp_setClientState, if_pos (show t.client.clientState = inProgress from ht.state)]
  have hentry : Entry (t.granted .release inProgress s.client.clientState) :=
    ⟨sound_of_open ht.opened, fun hwaiting =>
      ⟨(hs.callback ((isWaiting_congr (t := t) ht.stack).mp hwaiting)).state, ht.opened⟩⟩
  exact ⟨trivial, ht.stack, hentry⟩

/-! ## Connecting and disconnecting -/

/-- A connect that succeeds has opened the transport. -/
theorem wp_internalConnect (hcall : CallSpec call) (fuel : Nat) (params : Option ConnectParams)
    (s : World) :
    wp discipline (internalConnect fuel call params)
      (fun rc t => t.stack = s.stack ∧ t.client.clientState = s.client.clientState ∧
        (rc = .success → t.transportOpen = true)) s := by
  have happly : wp discipline (applyConnectParams params)
      (fun _ t => t.stack = s.stack ∧ t.client.clientState = s.client.clientState) s := by
    cases params with
    | none => exact ⟨rfl, rfl⟩
    | some params =>
        simp only [applyConnectParams, wp_modifyClient, true_and]
        exact ⟨rfl, rfl⟩
  rw [internalConnect, wp_bind]
  refine wp_mono (fun _ t ht => ?_) happly
  simp only [wp_bind, wp_netConnect, true_and]
  refine ⟨nofun, fun rc _ => ?_⟩
  rw [wp_onSuccess]
  refine ⟨?_, fun hrc => ⟨ht.1, ht.2, fun h => absurd h hrc⟩⟩
  rintro rfl
  refine wp_mono (fun _ u hu => ?_) ((composes_keepsSpec hcall fuel).handshake _ rfl)
  exact ⟨hu.stack.trans ht.1, hu.state.trans ht.2, fun _ => hu.opened⟩

/-- Connecting leaves an idle client with an open transport, or one that knows
that it is not connected. -/
theorem wp_connectFrom (hcall : CallSpec call) (fuel : Nat) (params : Option ConnectParams)
    {s : World} (hwaiting : ¬ s.isWaiting) :
    wp discipline (connectFrom fuel call params s.client.clientState)
      (fun _ t => Exit s t ∧ (t.client.clientState = .connectedIdle ∨
        t.client.clientState = .disconnectedError)) s := by
  simp only [connectFrom, wp_bind, wp_setClientState, if_true, true_and, wp_framed]
  refine wp_mono (fun rc t ht => ?_) (wp_internalConnect hcall fuel params _)
  obtain ⟨hstack, hstate, hopen⟩ := ht
  have hstack' : t.stack.tail = s.stack := by simp [hstack]
  have hstate' : t.client.clientState = .connecting := hstate
  have hexit : ∀ u : World, (u.log (.leave .connecting rc)).stack = s.stack → Sound u →
      Exit s (u.log (.leave .connecting rc)) := fun u hu hsound =>
    ⟨hu, hsound, fun h => absurd ((isWaiting_congr hu).mp h) hwaiting⟩
  split
  next hrc =>
    simp only [wp_bind, wp_netDisconnect, wp_netDestroy, wp_setClientState, true_and, pure_eq,
      wp_ret]
    refine ⟨nofun, fun _ _ => ⟨nofun, fun rc' _ => ?_⟩⟩
    simp only [World.client_log, hstate', if_true]
    exact ⟨hexit _ hstack' (sound_of_not_connected rfl), .inr rfl⟩
  next hrc =>
    simp only [wp_bind, wp_setClientState, hstate', if_true, true_and, pure_eq, wp_ret]
    exact ⟨hexit _ hstack' (sound_of_open (hopen (not_not.mp hrc))), .inl rfl⟩

/-- A connect exits well; in a reconnect it ends idle or disconnected. -/
theorem wp_connect (hcall : CallSpec call) (fuel : Nat) (params : Option ConnectParams)
    {s : World} (hs : Entry s) :
    wp discipline (connect fuel call params)
      (fun _ t => Exit s t ∧ (s.client.clientState = .pendingReconnect →
        t.client.clientState = .connectedIdle ∨ t.client.clientState = .disconnectedError)) s := by
  simp only [connect, wp_bind, wp_getClientState, true_and]
  split
  next hvalid =>
    have hwaiting : ¬ s.isWaiting := by
      intro h
      rw [(hs.callback h).state] at hvalid
      cases hvalid
    exact wp_mono (fun _ t ht => ⟨ht.1, fun _ => ht.2⟩) (wp_connectFrom hcall fuel params hwaiting)
  next hvalid =>
    refine ⟨Exit.refl hs, fun hpending => ?_⟩
    rw [hpending] at hvalid
    exact absurd rfl hvalid

/-- A disconnect by the application that fails has left the transport open. -/
theorem wp_internalDisconnect (fuel : Nat) {s : World} (hopen : s.transportOpen = true) :
    wp discipline (internalDisconnect fuel)
      (fun rc t => t.stack = s.stack ∧
        (rc ≠ .success → s.stack.head? = some (.call .disconnect) → t.transportOpen = true)) s := by
  refine wp_serialized trivial (fun rc _ => ⟨rfl, fun _ _ => hopen⟩) fun packet _ => ⟨trivial, ?_⟩
  simp only [wp_bind, wp_getClient, true_and, countdown, wp_emit]
  refine wp_mono (fun rc t ht => ?_) (wp_quiet_open (isQuiet_internalSendPacket _ _ _) hopen)
  have hstack : t.stack = s.stack := ht.stack
  rw [wp_onSuccess]
  refine ⟨fun _ => ?_, fun _ => ⟨hstack, fun _ _ => ht.opened⟩⟩
  simp only [wp_bind, wp_netDisconnect, wp_netDestroy, true_and]
  refine ⟨nofun, fun _ _ => ⟨nofun, fun rc' hdestroyed => ?_⟩⟩
  split
  next hrc' =>
    exact ⟨hstack, fun _ hhead => absurd
      (hdestroyed ((congrArg List.head? hstack).trans hhead)) hrc'⟩
  next => exact ⟨hstack, fun h => absurd rfl h⟩

/-- Only where destroying the transport fails may a client be left that still
thinks it is connected. -/
theorem wp_disconnect (fuel : Nat) {s : World} (hsound : Sound s) :
    wp discipline (disconnect fuel)
      (fun rc t => t.stack = s.stack ∧ (rc = .success → t.client.clientState.isConnected = false) ∧
        (s.stack.head? = some (.call .disconnect) → Sound t)) s := by
  simp only [disconnect, wp_bind, wp_getClientState, true_and, wp_isClientConnected]
  by_cases hconnected : s.isClientConnected = true
  · have hopen := hsound hconnected
    simp only [hconnected, Bool.not_true, Bool.false_eq_true, if_false, wp_bind, wp_setClientState,
      if_true, true_and, wp_onSuccess, ne_eq, not_true_eq_false, false_imp_iff, and_true,
      forall_const]
    refine wp_mono (Φ := fun rc t => t.stack = s.stack ∧
      (rc ≠ .success → s.stack.head? = some (.call .disconnect) → t.transportOpen = true))
      (fun rc t ht => ?_) ?_
    · split
      next hrc =>
        simp only [wp_bind, wp_putClientState, true_and, pure_eq, wp_ret]
        exact ⟨ht.1, fun h => absurd h hrc, fun hhead => sound_of_open (ht.2 hrc hhead)⟩
      next hrc =>
        simp only [wp_bind, wp_putClientState, true_and, pure_eq, wp_ret]
        exact ⟨ht.1, fun _ => rfl, fun _ => sound_of_not_connected rfl⟩
    · exact wp_internalDisconnect fuel hopen
  · simp only [hconnected, Bool.not_false, if_true]
    exact ⟨rfl, fun h => (by cases h), fun _ => hsound⟩

/-- Handling a loss exits well, and says so. -/
theorem wp_handleDisconnect (hcall : CallSpec call) (fuel : Nat) {s : World} (hsound : Sound s)
    (hwaiting : ¬ s.isWaiting) :
    wp discipline (handleDisconnect fuel call)
      (fun rc t => Exit s t ∧ rc = .networkDisconnectedError) s := by
  have hquiet : ∀ t : World, t.stack = .handleDisconnect :: s.stack → ¬ t.isWaiting := by
    rintro t ht ⟨packetType, hmem⟩
    rw [ht] at hmem
    rcases List.mem_cons.mp hmem with heq | hmem
    · cases heq
    · exact hwaiting ⟨packetType, hmem⟩
  rw [handleDisconnect, wp_framed]
  refine ⟨trivial, ?_⟩
  simp only [wp_bind]
  refine wp_mono (fun rc t ht => ?_) (wp_disconnect fuel hsound)
  obtain ⟨hstack, hclosed, -⟩ := ht
  -- whether or not the DISCONNECT went out, the client is not connected then
  have hforced : wp discipline (doIf (decide (rc ≠ .success)) forceClientDisconnect)
      (fun _ u => u.stack = t.stack ∧ u.client.clientState.isConnected = false) t := by
    unfold doIf
    split
    next =>
      simp only [forceClientDisconnect, wp_bind, wp_putClientState, wp_netDisconnect, wp_netDestroy,
        true_and, pure_eq, wp_ret]
      exact ⟨nofun, fun _ _ => ⟨nofun, fun _ _ => ⟨rfl, rfl⟩⟩⟩
    next hrc => exact ⟨rfl, hclosed (by simpa using hrc)⟩
  refine wp_mono (fun _ u hu => ?_) hforced
  have hu' : u.stack = .handleDisconnect :: s.stack := hu.1.trans hstack
  simp only [wp_getClient, true_and]
  have hentry : Entry u := ⟨sound_of_not_connected hu.2, fun h => absurd h (hquiet u hu')⟩
  have hhandler : wp discipline (callDisconnectHandler fuel call u.client.disconnectHandler)
      (fun _ v => Exit u v) u := by
    cases u.client.disconnectHandler with
    | none => exact Exit.refl hentry
    | some name =>
        simp only [callDisconnectHandler, wp_bind, wp_framed, true_and, pure_eq, wp_ret]
        exact wp_mono (fun _ v hv => hv.leave)
          (wp_application_exit hcall fuel (hentry.enter (by simp)))
  refine wp_mono (fun _ v hv => ?_) hhandler
  have hv' : v.stack.tail = s.stack := by rw [hv.stack, hu', List.tail_cons]
  simp only [wp_putClientState, true_and, pure_eq, wp_ret]
  refine ⟨⟨hv', sound_of_not_connected rfl, fun h => absurd ?_ hwaiting⟩, trivial⟩
  exact (isWaiting_congr (t := (v.put .disconnectedError).log
    (.leave .handleDisconnect .networkDisconnectedError)) hv').mp h

/-! ## Resubscribing and reconnecting -/

/-- A resubscribe exits well, in the state in which it has begun. -/
theorem wp_resubscribe (hcall : CallSpec call) (fuel : Nat) {s : World} (hs : Entry s) :
    wp discipline (resubscribe fuel call)
      (fun _ t => Exit s t ∧ t.client.clientState = s.client.clientState) s := by
  simp only [resubscribe, wp_bind, wp_isClientConnected, true_and]
  by_cases hconnected : s.isClientConnected = true
  · have hopen := hs.sound hconnected
    simp only [hconnected, Bool.not_true, Bool.false_eq_true, if_false, wp_bind, wp_getClientState,
      true_and]
    split
    next => exact ⟨Exit.refl hs, rfl⟩
    next hidle =>
      have hidle' : s.client.clientState = .connectedIdle := not_not.mp hidle
      simp only [wp_bind, wp_setClientState, hidle', if_true, true_and, wp_onSuccess, ne_eq,
        not_true_eq_false, false_imp_iff, and_true, forall_const]
      refine wp_mono (fun rc t ht => ?_)
        ((composes_keepsSpec hcall fuel).internalResubscribe _ hopen)
      have hstate : t.client.clientState = .connectedResubscribeInProgress := ht.state
      simp only [hstate, if_true, pure_eq, wp_ret]
      refine ⟨⟨ht.stack, sound_of_open ht.opened, fun h => ?_⟩, rfl⟩
      have := (hs.callback ((isWaiting_congr (t := t) ht.stack).mp h)).state
      rw [hidle'] at this
      cases this
  · simp only [hconnected, Bool.not_false, if_true]
    exact ⟨Exit.refl hs, rfl⟩

/-- Outside a wait a call may begin on a transport that may be used. -/
theorem Entry.of_not_waiting {w : World} (hsound : Sound w) (hwaiting : ¬ w.isWaiting) : Entry w :=
  ⟨hsound, fun h => absurd h hwaiting⟩

/-- An attempt to reconnect exits well, idle or still waiting for the next one. -/
theorem wp_attemptReconnect (hcall : CallSpec call) (fuel : Nat) {s : World} (hs : Entry s) :
    wp discipline (attemptReconnect fuel call)
      (fun rc t => Exit s t ∧ (s.client.clientState = .pendingReconnect →
        t.client.clientState = .pendingReconnect ∨ t.client.clientState = .connectedIdle) ∧
        (rc = .networkReconnected → t.client.clientState = .connectedIdle)) s := by
  simp only [attemptReconnect, wp_bind, wp_isClientConnected, true_and]
  by_cases hconnected : s.isClientConnected = true
  · simp only [hconnected, if_true]
    exact ⟨Exit.refl hs, fun h => .inl h, nofun⟩
  · simp only [hconnected, Bool.false_eq_true, if_false, wp_bind]
    refine wp_mono (fun _ t ht => ?_) (wp_connect hcall fuel none hs)
    obtain ⟨hexit, hstate⟩ := ht
    simp only [wp_getClientState, true_and]
    split
    next hidle =>
      simp only [wp_bind, wp_setClientState]
      split
      next herror =>
        refine ⟨trivial, ⟨hexit.stack, sound_of_not_connected rfl, fun h => ?_⟩,
          fun _ => .inl rfl, nofun⟩
        -- within a wait, the state would still be that of a handler's call
        have := (hexit.entry.callback h).state
        rw [herror] at this
        cases this
      next herror =>
        refine ⟨trivial, ⟨hexit.stack, hexit.entry.sound, fun h => ⟨?_, ?_⟩⟩, fun h => ?_, nofun⟩
        · exact (hexit.entry.callback h).state
        · exact (hexit.entry.callback h).opened
        · rcases hstate h with h | h
          · exact absurd h hidle
          · exact absurd h herror
    next hidle =>
      have hidle' : t.client.clientState = .connectedIdle := not_not.mp hidle
      simp only [wp_bind]
      refine wp_mono (fun rc u hu => ?_) (wp_resubscribe hcall fuel hexit.entry)
      have hstate' : u.client.clientState = .connectedIdle := hu.2.trans hidle'
      rw [wp_onSuccess]
      exact ⟨fun _ => ⟨hexit.trans hu.1, fun _ => .inr hstate', fun _ => hstate'⟩,
        fun _ => ⟨hexit.trans hu.1, fun _ => .inr hstate', fun _ => hstate'⟩⟩

/-- A client that is connected, or that a yield has still to reconnect. -/
structure Yielding (s t : World) : Prop where
  stack : t.stack = s.stack
  sound : Sound t
  state : t.client.clientState = .pendingReconnect ∨ t.client.clientState.isConnected = true

/-- A yield is in no wait that it was not in before. -/
theorem Yielding.not_waiting {s t : World} (h : Yielding s t) (hwaiting : ¬ s.isWaiting) :
    ¬ t.isWaiting := fun h' => hwaiting ((isWaiting_congr h.stack).mp h')

/-- Handling a reconnect lets the yield go on. -/
theorem wp_handleReconnect (hcall : CallSpec call) (fuel : Nat) {s : World} (hsound : Sound s)
    (hwaiting : ¬ s.isWaiting) (hstate : s.client.clientState = .pendingReconnect) :
    wp discipline (handleReconnect fuel call) (fun _ t => Yielding s t) s := by
  -- a failed attempt leaves the state as it is
  have hbackoff : ∀ rc (t : World), t.stack = .handleReconnect :: s.stack → Sound t →
      (t.client.clientState = .pendingReconnect ∨ t.client.clientState.isConnected = true) →
      wp discipline (reconnectBackoff rc)
        (fun rc' u => Yielding s (u.log (.leave .handleReconnect rc'))) t := by
    intro rc t hstack ht hstate
    have htail : t.stack.tail = s.stack := by rw [hstack, List.tail_cons]
    simp only [reconnectBackoff, wp_bind, wp_modifyClient, wp_getClient, true_and]
    split
    next => exact ⟨htail, ht, hstate⟩
    next =>
      simp only [wp_bind, countdown, wp_emit, true_and, pure_eq, wp_ret]
      exact ⟨htail, ht, hstate⟩
  simp only [handleReconnect, wp_framed, wp_bind, wp_hasTimerExpired, true_and]
  refine ⟨nofun, fun expired _ => ?_⟩
  split
  next => exact ⟨rfl, hsound, .inl hstate⟩
  next =>
    simp only [wp_bind, netIsConnected, wp_query, solo_pre, solo_allow]
    refine ⟨nofun, fun rc _ => ?_⟩
    split
    next =>
      simp only [wp_bind]
      have hentry : Entry (s.log (.enter .handleReconnect)) :=
        (Entry.of_not_waiting hsound hwaiting).enter (by simp)
      refine wp_mono (fun rc' t ht => ?_) (wp_attemptReconnect hcall fuel hentry)
      obtain ⟨hexit, hpending, hidle⟩ := ht
      have htail : t.stack.tail = s.stack := by
        rw [hexit.stack, World.stack_log_enter, List.tail_cons]
      split
      next hrc =>
        have hstate' := hidle hrc
        simp only [wp_bind, wp_setClientState, hstate', if_true, true_and, wp_onSuccess, ne_eq,
          not_true_eq_false, false_imp_iff, and_true, forall_const, pure_eq, wp_ret]
        -- the attempt has succeeded, so the transport is open
        refine ⟨htail, sound_of_open ?_, .inr rfl⟩
        exact hexit.entry.sound (by rw [World.isClientConnected, hstate']; rfl)
      next =>
        refine hbackoff rc' t hexit.stack hexit.entry.sound ?_
        exact (hpending hstate).imp_right fun h => by rw [h]; rfl
    next => exact hbackoff rc _ rfl hsound (.inl hstate)

/-! ## Yielding -/

/-- The keep-alive check either finds the transport open or has closed it and says so. -/
theorem wp_keepAlive (hcall : CallSpec call) (fuel : Nat) {s : World}
    (hopen : s.transportOpen = true)
    (hwaiting : ¬ s.isWaiting) :
    wp discipline (keepAlive fuel call)
      (fun rc t => t.stack = s.stack ∧ Sound t ∧ (rc = .success → Keeps s t)) s := by
  -- a lost connection is closed, and the code says so
  have hlost : ∀ t, Keeps s t → wp discipline (handleDisconnect fuel call)
      (fun rc u => u.stack = s.stack ∧ Sound u ∧ (rc = .success → Keeps s u)) t := by
    intro t ht
    have hwaiting' : ¬ t.isWaiting := fun h => hwaiting ((isWaiting_congr ht.stack).mp h)
    refine wp_mono (fun rc u hu => ?_) (wp_handleDisconnect hcall fuel (sound_of_open ht.opened)
      hwaiting')
    refine ⟨hu.1.stack.trans ht.stack, hu.1.entry.sound, fun h => ?_⟩
    rw [hu.2] at h
    cases h
  -- otherwise the transport stays open
  have hsame : ∀ t, Keeps s t → ∀ rc : IotError,
      t.stack = s.stack ∧ Sound t ∧ (rc = .success → Keeps s t) :=
    fun t ht _ => ⟨ht.stack, sound_of_open ht.opened, fun _ => ht⟩
  simp only [keepAlive, wp_bind, wp_getClient, true_and]
  split
  next => exact hsame s (.refl hopen) _
  next =>
    simp only [wp_bind, wp_hasTimerExpired]
    refine ⟨nofun, fun expired _ => ?_⟩
    split
    next => exact hsame s (.refl hopen) _
    next =>
      simp only [wp_bind, wp_getClient, true_and]
      split
      next => exact hlost s (.refl hopen)
      next =>
        simp only [wp_bind, countdown, wp_emit, true_and]
        refine wp_serialized trivial (fun rc _ => ?_) fun packet _ => ?_
        · exact ⟨rfl, sound_of_open hopen, fun _ => ⟨rfl, rfl, hopen⟩⟩
        refine ⟨trivial, ?_⟩
        simp only [wp_bind]
        refine wp_mono (fun rc t ht => ?_) (wp_quiet_open (isQuiet_internalSendPacket _ _ _) hopen)
        have hkeeps : Keeps s t := ⟨ht.stack, ht.state, ht.opened⟩
        split
        next => exact hlost t hkeeps
        next =>
          simp only [wp_bind, wp_modifyClient, wp_emit, true_and, pure_eq, wp_ret]
          exact ⟨hkeeps.stack, sound_of_open hkeeps.opened,
            fun _ => ⟨hkeeps.stack, hkeeps.state, hkeeps.opened⟩⟩

/-- What follows on a read does not use a transport that was lost with it. -/
theorem wp_afterCycleRead (hcall : CallSpec call) (fuel : Nat) {s t : World} {rc : IotError}
    (hwaiting : ¬ s.isWaiting) (h : Dispatched s rc t) :
    wp discipline (afterCycleRead fuel call rc)
      (fun rc' u => u.stack = s.stack ∧ Sound u ∧
        (rc' = .success → u.client.clientState = s.client.clientState)) t := by
  have hwaiting' : ¬ t.isWaiting := fun h' => hwaiting ((isWaiting_congr h.stack).mp h')
  unfold afterCycleRead
  split
  next hrc =>
    have hkeeps := h.keeps (.inl hrc)
    refine wp_mono (fun rc' u hu => ?_) (wp_keepAlive hcall fuel hkeeps.opened hwaiting')
    exact ⟨hu.1.trans h.stack, hu.2.1, fun hrc' => (hu.2.2 hrc').state.trans hkeeps.state⟩
  next hrc =>
    split
    next =>
      refine wp_mono (fun rc' u hu => ?_) (wp_handleDisconnect hcall fuel h.sound hwaiting')
      refine ⟨hu.1.stack.trans h.stack, hu.1.entry.sound, fun hrc' => ?_⟩
      rw [hu.2] at hrc'
      cases hrc'
    next => exact ⟨h.stack, h.sound, fun hrc' => absurd hrc' hrc⟩

/-- A lost connection ends the yield, or leaves it waiting for a reconnect. -/
theorem wp_connectionLost {s t : World} (hstack : t.stack = s.stack) (hsound : Sound t) :
    wp discipline connectionLost (fun r u => u.stack = s.stack ∧ Sound u ∧
      (r.isLeft = true → Yielding s u)) t := by
  simp only [connectionLost, wp_bind, wp_modifyClient, wp_getClient, true_and]
  split
  next =>
    simp only [wp_bind, wp_setClientState]
    split
    next =>
      simp only [true_and, ne_eq, not_true_eq_false, if_false, wp_bind, wp_modifyClient, countdown,
        wp_emit, pure_eq, wp_ret]
      exact ⟨hstack, sound_of_not_connected rfl,
        fun _ => ⟨hstack, sound_of_not_connected rfl, .inl rfl⟩⟩
    next =>
      refine ⟨trivial, ?_⟩
      rw [if_pos (by simp)]
      exact ⟨hstack, hsound, nofun⟩
  next => exact ⟨hstack, hsound, nofun⟩

/-- One cycle of a yield uses only a transport that is open. -/
theorem wp_yieldCycle (hcall : CallSpec call) (fuel : Nat) {s t : World} (hwaiting : ¬ s.isWaiting)
    (h : Yielding s t) :
    wp discipline (yieldCycle fuel call) (fun r u => u.stack = s.stack ∧ Sound u ∧
      (r.isLeft = true → Yielding s u)) t := by
  have hwaiting' := h.not_waiting hwaiting
  simp only [yieldCycle, wp_bind, wp_getClientState, true_and]
  split
  next hpending =>
    simp only [wp_bind, wp_getClient, true_and]
    split
    next => exact ⟨h.stack, h.sound, nofun⟩
    next =>
      simp only [wp_bind]
      refine wp_mono (fun rc u hu => ?_) (wp_handleReconnect hcall fuel h.sound hwaiting' hpending)
      have hstack := hu.stack.trans h.stack
      exact ⟨hstack, hu.sound, fun _ => ⟨hstack, hu.sound, hu.state⟩⟩
  next hpending =>
    have hconnected := h.state.resolve_left hpending
    simp only [wp_bind]
    refine wp_mono (fun r u hu => ?_) (wp_internalCycleRead hcall fuel .yield (h.sound hconnected))
    refine wp_mono (fun rc v hv => ?_) (wp_afterCycleRead hcall fuel hwaiting' hu)
    have hstack := hv.1.trans h.stack
    split
    next => exact wp_connectionLost hstack hv.2.1
    next =>
      split
      next => exact ⟨hstack, hv.2.1, nofun⟩
      next hrc =>
        refine ⟨hstack, hv.2.1, fun _ => ⟨hstack, hv.2.1, .inr ?_⟩⟩
        rw [hv.2.2 (not_not.mp hrc)]
        exact hconnected

/-- So does a yield behind its claim. -/
theorem wp_yieldClaimed (hcall : CallSpec call) (fuel : Nat) (change : StateChange) {s t : World}
    (hwaiting : ¬ s.isWaiting) (h : Yielding s t) :
    wp discipline (yieldClaimed fuel call change) (fun _ u => u.stack = s.stack ∧ Sound u) t := by
  simp only [yieldClaimed, wp_bind]
  refine wp_mono (Φ := fun _ t => t.stack = s.stack ∧ Sound t) (fun rc t ht => ?_)
    (wp_loop (I := fun _ t => Yielding s t) (fun _ _ _ => trivial) (fun _ t ht => ?_) fuel _ t h)
  · split
    next =>
      simp only [wp_bind, wp_setClientState]
      split
      next hstate =>
        exact ⟨trivial, ht.1, fun _ => ht.2 (by rw [World.isClientConnected, hstate]; rfl)⟩
      next => exact ⟨trivial, ht.1, ht.2⟩
    next =>
      rw [wp_bind]
      unfold doIf
      split
      next =>
        simp only [wp_emit, true_and, pure_eq, wp_ret]
        exact ht
      next => exact ht
  · simp only [wp_bind]
    refine wp_mono (fun r u hu => ?_) (wp_yieldCycle hcall fuel hwaiting ht)
    cases r with
    | inr rc => exact ⟨hu.1, hu.2.1⟩
    | inl rc =>
        simp only [wp_bind, wp_hasTimerExpired]
        refine ⟨nofun, fun expired _ => ?_⟩
        split
        next => exact ⟨hu.1, hu.2.1⟩
        next => exact hu.2.2 rfl

/-- A yield exits well. -/
theorem wp_yield (hcall : CallSpec call) (fuel : Nat) (timeoutMs : UInt32) {s : World}
    (hs : Entry s) : wp discipline (yield fuel call timeoutMs) (fun _ t => Exit s t) s := by
  have hexit : ∀ t : World, ¬ s.isWaiting → t.stack = s.stack ∧ Sound t → Exit s t :=
    fun t hwaiting ht =>
      ⟨ht.1, .of_not_waiting ht.2 fun h => hwaiting ((isWaiting_congr ht.1).mp h)⟩
  -- a handler is called from a wait in one state only
  have hwaiting : ∀ state, s.client.clientState = state → state ≠ .connectedWaitForCbReturn →
      ¬ s.isWaiting := by
    rintro state rfl hne h
    exact hne (hs.callback h).state
  unfold MqttClient.yield
  split
  next => exact Exit.refl hs
  next =>
    simp only [wp_bind, wp_getClientState, true_and]
    split
    next => exact Exit.refl hs
    next =>
      split
      next hpending =>
        have hwaiting' := hwaiting _ hpending (by decide)
        simp only [wp_bind, countdown, wp_emit, true_and]
        refine wp_mono (fun _ t ht => hexit t hwaiting' ht) (wp_yieldClaimed hcall fuel .other
          hwaiting' ⟨rfl, hs.sound, .inl hpending⟩)
      next =>
        simp only [wp_bind, wp_isClientConnected, true_and]
        by_cases hconnected : s.isClientConnected = true
        · simp only [hconnected, Bool.not_true, Bool.false_eq_true, if_false]
          split
          next => exact Exit.refl hs
          next hidle =>
            have hidle' := not_not.mp hidle
            have hwaiting' := hwaiting _ hidle' (by decide)
            have hopen := hs.sound hconnected
            simp only [wp_bind, wp_setClientState, hidle', if_true, true_and,
              wp_onSuccess, countdown,
              wp_emit, forall_const, ne_eq, not_true_eq_false, false_imp_iff, and_true]
            exact wp_mono (fun _ t ht => hexit t hwaiting' ht) (wp_yieldClaimed hcall fuel .release
              hwaiting' ⟨rfl, sound_of_open hopen, .inr rfl⟩)
        · simp only [hconnected, Bool.not_false, if_true]
          exact Exit.refl hs

/-! ## All calls -/

/-- Every call of the interface does, one that closes the transport outside a wait only. -/
theorem wp_perform (hcall : CallSpec call) (fuel : Nat) (c : Call) {s : World} (hs : Entry s)
    (hallow : s.isWaiting → c.closes = false) (hhead : s.stack.head? = some (.call c)) :
    wp discipline (perform fuel call c) (fun _ t => Exit s t) s := by
  -- while an acknowledgement is awaited, no operation is called that closes the connection
  have hfree : c.closes = true → ¬ s.isWaiting := fun hcloses h => by
    rw [hallow h] at hcloses
    cases hcloses
  cases c with
  | init params =>
      simp only [perform, init]
      split
      next =>
        simp only [wp_bind, wp_modifyClient, wp_emit, true_and, pure_eq, wp_ret]
        exact ⟨rfl, .of_not_waiting (sound_of_not_connected rfl) (hfree rfl)⟩
      next => exact Exit.refl hs
  | connect params => exact wp_mono (fun _ _ ht => ht.1) (wp_connect hcall fuel params hs)
  | publish topicName topicNameLen params =>
      simp only [perform, publish]
      split
      next =>
        split
        next => exact Exit.refl hs
        next => exact wp_exclusively_open ((composes_keepsSpec hcall fuel).internalPublish _ _ _) hs
      next => exact Exit.refl hs
  | subscribe topicName topicNameLen qos handler data =>
      simp only [perform, subscribe]
      split
      next =>
        refine wp_exclusively_open
          ((composes_keepsSpec hcall fuel).internalSubscribe _ _ _ _ _ ?_) hs
        exact keepsSpec_subscribeInSlot hcall fuel
      next => exact Exit.refl hs
  | unsubscribe topicFilter topicFilterLen =>
      simp only [perform, unsubscribe]
      split
      next => exact Exit.refl hs
      next =>
        refine wp_exclusively_open ((composes_keepsSpec hcall fuel).internalUnsubscribe _ _ ?_) hs
        exact keepsSpec_removeSubscription _
  | resubscribe => exact wp_mono (fun _ _ ht => ht.1) (wp_resubscribe hcall fuel hs)
  | yield timeoutMs => exact wp_yield hcall fuel timeoutMs hs
  | disconnect =>
      refine wp_mono (fun _ t ht => ?_) (wp_disconnect fuel hs.sound)
      -- the operation was called as such, not from the handling of a lost connection
      refine ⟨ht.1, .of_not_waiting (ht.2.2 hhead) fun h => ?_⟩
      exact hfree rfl ((isWaiting_congr ht.1).mp h)
  | attemptReconnect => exact wp_mono (fun _ _ ht => ht.1) (wp_attemptReconnect hcall fuel hs)
  | autoreconnectSetStatus newStatus =>
      simp only [perform, wp_bind, wp_modifyClient, true_and, pure_eq, wp_ret]
      exact ⟨rfl, hs.sound, fun h => ⟨(hs.callback h).state, (hs.callback h).opened⟩⟩
  | setDisconnectHandler handler =>
      cases handler with
      | none => exact Exit.refl hs
      | some handler =>
          simp only [perform, wp_bind, wp_modifyClient, true_and, pure_eq, wp_ret]
          exact ⟨rfl, hs.sound, fun h => ⟨(hs.callback h).state, (hs.callback h).opened⟩⟩
  | setConnectParams params =>
      cases params with
      | none => exact Exit.refl hs
      | some params =>
          simp only [perform, setConnectParams, wp_bind, wp_modifyClient, true_and, pure_eq, wp_ret]
          exact ⟨rfl, hs.sound, fun h => ⟨(hs.callback h).state, (hs.callback h).opened⟩⟩
  | resetNetworkDisconnectedCount =>
      simp only [perform, wp_bind, wp_modifyClient, true_and, pure_eq, wp_ret]
      exact ⟨rfl, hs.sound, fun h => ⟨(hs.callback h).state, (hs.callback h).opened⟩⟩

/-- Every call does, whatever its handlers call. -/
theorem callSpec_api (fuel : Nat) : CallSpec (api fuel) := by
  refine fun c s hs hallow => wp_recursive (P := fun c s =>
    Entry s ∧ keepsTransport.allowsCall s c) (Φ := fun _ s _ t => Exit s t)
    (fun _ _ _ => trivial) (fun fuel call hcall c s h => ?_) fuel c s ⟨hs, hallow⟩
  rw [wp_framed]
  have henter : Entry (s.log (.enter (.call c))) := h.1.enter (by simp)
  refine ⟨trivial, wp_mono (fun _ t ht => ⟨trivial, Exit.leave ht⟩) ?_⟩
  refine wp_perform (fun c s hs hallow => hcall c s ⟨hs, hallow⟩) fuel c henter ?_ rfl
  rintro ⟨packetType, hmem⟩
  rcases List.mem_cons.mp hmem with heq | hmem
  · cases heq
  · exact h.2 c rfl ⟨packetType, hmem⟩

/-- Between the calls of a run a call may begin. -/
theorem entry_of_atRest {w : World} (h : AtRest keepsTransport w) : Entry w ∧ w.stack = [] := by
  have hkeeps : ∀ fuel c s, Entry s ∧ s.stack = [] → keepsTransport.allowsCall s c →
      wp discipline (api fuel c) (fun _ t => Entry t ∧ t.stack = []) s := by
    intro fuel c s hs hallow
    exact wp_mono (fun _ t (ht : Exit s t) => ⟨ht.entry, ht.stack.trans hs.2⟩)
      (callSpec_api fuel c s hs.1 hallow)
  refine h.of_wp (fun c params => ?_) hkeeps
  refine ⟨.of_not_waiting (sound_of_not_connected rfl) ?_, rfl⟩
  rintro ⟨packetType, hmem⟩
  cases hmem

end Transport

/-- In every run in which no handler closes the transport under a waiting call,
reads and writes find the transport open. -/
theorem transportOpen_of_usesTransport {w w' : World} {c : Call} {fuel : Nat} {q : Query}
    {k : Answer q → M IotError} (hrest : AtRest keepsTransport w)
    (hallow : keepsTransport.allowsCall w c)
    (hsteps : Steps keepsTransport (api fuel c, w) (.ask q k, w'))
    (hq : q.usesTransport = true) : w'.transportOpen = true :=
  wp_asks (Transport.callSpec_api fuel c w (Transport.entry_of_atRest hrest).1 hallow) hsteps hq

theorem keepsTransport_allowsCalm : keepsTransport.AllowsCalm := by
  intro q w a hq
  cases q with
  | application => cases hq
  | netDestroy => cases hq
  | _ => trivial

theorem question_connectCall :
    (freshWorld.underway 20 connectCall connackPacket [] 25).1.question =
      some (.netRead .header 1) := by
  decide +kernel

/-- The CONNACK is read from an open transport. -/
theorem transportOpen_connectCall :
    (freshWorld.underway 20 connectCall connackPacket [] 25).2.transportOpen = true := by
  obtain ⟨k, hsteps⟩ :=
    asks_underway keepsTransport_allowsCalm isCalm_connectCall question_connectCall
  refine transportOpen_of_usesTransport (AtRest.init blankClient sampleInitParams) ?_ hsteps rfl
  rintro _ _ ⟨_, hmem⟩
  cases hmem

theorem question_disconnect_in_handler :
    (subscribedWorld.underway 20 publishCall messagePacket [some .disconnect] 172).1.question =
      some (.netRead .header 1) := by
  decide +kernel

theorem transportClosed_disconnect_in_handler :
    (subscribedWorld.underway 20 publishCall messagePacket [some .disconnect] 172).2.transportOpen =
      false := by
  decide +kernel

/-- A message arrives while a publish waits for its PUBACK, and its handler
disconnects: the wait reads from the transport that has been destroyed. -/
theorem not_transportOpen_of_disconnect_in_handler :
    ¬ ∀ (w w' : World) (c : Call) (fuel : Nat) (q : Query) (k : Answer q → M IotError),
      AtRest anything w → Steps anything (api fuel c, w) (.ask q k, w') →
        q.usesTransport = true → w'.transportOpen = true := by
  intro h
  obtain ⟨k, hsteps⟩ := asks_underway_anything question_disconnect_in_handler
  have hopen := h _ _ _ _ _ k atRest_subscribedWorld hsteps rfl
  rw [transportClosed_disconnect_in_handler] at hopen
  cases hopen

end MqttClient
