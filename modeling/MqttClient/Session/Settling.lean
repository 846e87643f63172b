import MqttClient.Session.Codes

/-! # The states in which operations leave the client

What an operation does to the client state: it puts it back, or leaves one that
lasts; within an attempt to reconnect, one from which the attempt goes on.
-/

namespace MqttClient

open Effect Program

/-- The states in which a call may leave a client that is not in another call. -/
def ClientState.isLasting : ClientState → Bool
  | .initialized | .connectedIdle | .pendingReconnect | .disconnectedError
  | .disconnectedManually => true
  | _ => false

/-- The states from which an attempt to reconnect goes on after its connect. -/
def ClientState.isRetriable : ClientState → Bool
  | .connectedIdle | .pendingReconnect | .disconnectedError => true
  | _ => false

theorem ClientState.isRetriable_of_isLasting {state : ClientState} (h : state.isLasting = true)
    (hmanually : state ≠ .disconnectedManually) (hinitialized : state ≠ .initialized) :
    state.isRetriable = true := by
  cases state with
  | disconnectedManually => exact absurd rfl hmanually
  | initialized => exact absurd rfl hinitialized
  | connectedIdle | pendingReconnect | disconnectedError => rfl
  | _ => cases h

namespace Outcomes

variable {fuel : Nat} {call : Call → M IotError}

/-! ## States -/

/-- The state is what it was, or one that lasts; in an attempt to reconnect, one
from which it goes on. -/
structure Settles (s t : World) : Prop where
  stack : t.stack = s.stack
  state : t.client.clientState = s.client.clientState ∨ t.client.clientState.isLasting = true ∧
    (inAttempt s.stack = true → t.client.clientState.isRetriable = true)

theorem Settles.of_eq {s t : World} (hstack : t.stack = s.stack)
    (hstate : t.client.clientState = s.client.clientState) : Settles s t := ⟨hstack, .inl hstate⟩

theorem Settles.refl (s : World) : Settles s s := .of_eq rfl rfl

theorem Settles.trans {s t u : World} (h : Settles s t) (h' : Settles t u) : Settles s u := by
  refine ⟨h'.stack.trans h.stack, ?_⟩
  rcases h'.state with hsame' | ⟨hlasting, hretriable⟩
  · rcases h.state with hsame | hsettled
    · exact .inl (hsame'.trans hsame)
    · rw [hsame']
      exact .inr hsettled
  · exact .inr ⟨hlasting, fun hin => hretriable (h.stack ▸ hin)⟩

/-- The connect of an attempt to reconnect is not the innermost thing in progress. -/
abbrev Unguarded (w : World) : Prop := inAttempt w.stack = false

/-- A state that lasts is settled outside of an attempt to reconnect. -/
theorem Settles.of_lasting {s t : World} (hs : Unguarded s) (hstack : t.stack = s.stack)
    (hlasting : t.client.clientState.isLasting = true) : Settles s t := by
  refine ⟨hstack, .inr ⟨hlasting, fun hin => ?_⟩⟩
  rw [hs] at hin
  cases hin

/-- Leaving a frame settles what its body has settled. -/
theorem Settles.leave {s t : World} {f : Frame} {rc : IotError} (h : Settles (s.log (.enter f)) t)
    (hguard : inAttempt s.stack = true → inAttempt (f :: s.stack) = true) :
    Settles s (t.log (.leave f rc)) := by
  refine ⟨?_,
    h.state.imp id fun ⟨hlasting, hretriable⟩ => ⟨hlasting, fun hin => hretriable (hguard hin)⟩⟩
  rw [World.stack_log_leave, h.stack]
  rfl

/-- Application code runs in a message handler, or where no other call is in progress. -/
structure Ready (w : World) : Prop where
  unguarded : Unguarded w
  state : w.client.clientState = .connectedWaitForCbReturn ∨ w.client.clientState.isLasting = true

/-- A world that has settled is ready for the next step. -/
theorem Settles.ready {s t : World} (h : Settles s t) (hs : Ready s) : Ready t := by
  refine ⟨?_, ?_⟩
  · rw [Unguarded, h.stack]
    exact hs.unguarded
  · rcases h.state with hsame | ⟨hlasting, -⟩
    · rw [hsame]
      exact hs.state
    · exact .inr hlasting

/-- From every world in `I` the program settles. -/
abbrev SettlesFrom (I : World → Prop) {α : Type} (p : M α) : Prop :=
  Kept (fun _ _ => True) policy (fun _ _ => True) I Settles p

abbrev anywhere : World → Prop := fun _ => True

theorem steady {I : World → Prop} {F : Frame → Prop} (hI : ∀ s t, Settles s t → I s → I t)
    (henter : ∀ f s, F f → I s → I (s.log (.enter f)))
    (hguard : ∀ f s, F f → I s → inAttempt s.stack = true → inAttempt (f :: s.stack) = true) :
    Steady (fun _ _ => True) (fun _ _ => True) I Settles F where
  refl := .refl
  trans _ _ _ := .trans
  pre _ _ _ _ := trivial
  still s t hs h := by
    have hst : Settles s t := .of_eq h.extends.stack h.clientState
    exact ⟨trivial, hI s t hst hs, hst⟩
  enter f s hf hs := ⟨trivial, henter f s hf hs⟩
  leave f rc s t hf hs ht h := by
    have hst : Settles s (t.log (.leave f rc)) := h.leave (hguard f s hf hs)
    exact ⟨trivial, hI s _ hst hs, hst⟩

def Frame.isWait : Frame → Bool
  | .waiting _ => true
  | _ => false

/-- Waits may be entered anywhere. -/
theorem steadyAnywhere :
    Steady (fun _ _ => True) (fun _ _ => True) anywhere Settles (Frame.isWait · = true) := by
  apply steady (fun _ _ _ _ => trivial) (fun _ _ _ _ => trivial)
  intro f s hf _ hin
  cases f <;> first | exact hin | cases hf

/-- Only a connect begins an attempt. -/
theorem inAttempt_enter {f : Frame} {frames : List Frame} (hf : f ≠ .connecting)
    (h : inAttempt frames = false) : inAttempt (f :: frames) = false := by
  cases f <;> first | exact h | rfl | exact absurd rfl hf

theorem steadyUnguarded :
    Steady (fun _ _ => True) (fun _ _ => True) Unguarded Settles (· ≠ .connecting) := by
  apply steady
  · intro s t h hs
    rwa [Unguarded, h.stack]
  · exact fun f s hf hs => inAttempt_enter hf hs
  · intro f s _ hs hin
    rw [hs] at hin
    cases hin

theorem steadyReady :
    Steady (fun _ _ => True) (fun _ _ => True) Ready Settles (· ≠ .connecting) := by
  apply steady (fun _ _ h hs => h.ready hs)
  · exact fun f s hf hs => ⟨inAttempt_enter hf hs.unguarded, hs.state⟩
  · intro f s _ hs hin
    rw [hs.unguarded] at hin
    cases hin

/-- What settles from anywhere settles outside of an attempt. -/
theorem SettlesFrom.unguarded {α : Type} {p : M α} (h : SettlesFrom anywhere p) :
    SettlesFrom Unguarded p := by
  intro s hs
  apply wp_mono _ (h s trivial)
  intro _ t ht
  refine ⟨?_, ht.2⟩
  rwa [Unguarded, ht.2.stack]

/-! ## Messages -/

section Calls

variable (hcall : ∀ c s, Ready s → policy.allowsCall s c →
  wp discipline (call c) (fun _ t => Settles s t) s)

include hcall

/-- Application code settles if its calls do. -/
theorem settles_application : SettlesFrom Ready (application fuel call) := by
  apply steadyReady.application (fun _ _ => trivial)
  intro c s hs hallow
  apply wp_mono _ (hcall c s hs hallow)
  exact fun _ t ht => ⟨ht.ready hs, ht⟩

/-- The handlers of a message, called in the state for that. -/
theorem wp_deliver (topicOff : Nat) (topicNameLen : UInt16) (remaining : Nat) {s : World}
    (hs : s.client.clientState = .connectedWaitForCbReturn) :
    wp discipline (deliverMessageLoop fuel call topicOff topicNameLen remaining)
      (fun _ t => Settles s t) s := by
  apply wp_deliverMessageLoop fuel topicOff topicNameLen remaining (fun _ _ => trivial) _ (.refl s)
  intro h t ht
  apply wp_callHandler (J := fun name u => Settles (s.log (.enter (.handler name))) u) fuel h
    topicOff topicNameLen (fun _ _ _ => trivial) _ _ _ ht
  · intro name topic payload data u hu
    have hstack : Frame.handler name :: u.stack = Frame.handler name :: s.stack := by rw [hu.stack]
    refine ⟨trivial, trivial, hstack, ?_⟩
    exact hu.state.imp id fun ⟨hlasting, _⟩ => ⟨hlasting, nofun⟩
  · intro name c u hu hallow
    have hentered : Ready (s.log (.enter (.handler name))) := ⟨rfl, .inl hs⟩
    apply wp_mono _ (hcall c u (hu.ready hentered) hallow)
    exact fun _ _ h => hu.trans h
  · intro name u hu hreturn
    have hstack : u.stack = .handler name :: s.stack := hu.stack
    refine ⟨trivial, ?_, hu.state.imp id fun ⟨hlasting, _⟩ => ⟨hlasting, fun hin => ?_⟩⟩
    · rw [World.stack_log_leave, hstack]
      rfl
    · have hreturn' : answersPlainly .application u (none : Option Call) = true := hreturn
      simp only [answersPlainly, hstack, hin, Bool.not_true, Bool.false_or, Bool.and_eq_true,
        decide_eq_true_iff] at hreturn'
      exact ClientState.isRetriable_of_isLasting hlasting hreturn'.1 hreturn'.2

omit hcall in
/-- What has settled behind a change of the state has settled when it is undone. -/
theorem wp_release {s t : World} {change change' : StateChange} {expected new : ClientState}
    (h : Settles (s.granted change expected new) t) (hnew : new.isLasting = false)
    (hstate : s.client.clientState = expected) :
    wp discipline (setClientState change' new expected) (fun rc u => Settles s u ∧
      (rc = .success → u.client.clientState = expected) ∧ rc.isVerdict = false) t := by
  rw [wp_setClientState]
  rcases h.state with hsame | ⟨hlasting, hretriable⟩
  · have hsame' : t.client.clientState = new := hsame
    rw [if_pos hsame']
    exact ⟨trivial, .of_eq h.stack hstate.symm, fun _ => rfl, rfl⟩
  · have hne : t.client.clientState ≠ new := by
      intro heq
      rw [heq, hnew] at hlasting
      cases hlasting
    rw [if_neg hne]
    exact ⟨trivial, ⟨h.stack, .inr ⟨hlasting, hretriable⟩⟩, nofun, rfl⟩

/-- So does the delivery of a message. -/
theorem settles_internalDeliverMessage (topicOff : Nat) (topicNameLen : UInt16) :
    SettlesFrom anywhere (internalDeliverMessage fuel call topicOff topicNameLen) := by
  intro s _
  simp only [internalDeliverMessage, wp_bind, wp_getClientState, true_and]
  rw [wp_setClientState, if_pos rfl]
  refine ⟨trivial, ?_⟩
  apply wp_mono _ (wp_deliver hcall topicOff topicNameLen numSubscribeHandlers rfl)
  intro _ t ht
  apply wp_mono _ (wp_release ht rfl rfl)
  exact fun _ _ hu => hu.1

/-- So does a cycle of reading. -/
theorem settles_internalCycleRead (timer : TimerName) :
    SettlesFrom anywhere (internalCycleRead fuel call timer) :=
  steadyAnywhere.dispatches.internalCycleRead (settles_internalDeliverMessage hcall) timer

/-- So does waiting for a packet. -/
theorem settles_internalWaitForRead (packetType : MessageType) :
    SettlesFrom anywhere (internalWaitForRead fuel call packetType) :=
  steadyAnywhere.dispatches.internalWaitForRead (settles_internalCycleRead hcall) rfl

theorem composesAnywhere : Composes fuel call (SettlesFrom anywhere (α := IotError)) :=
  steadyAnywhere.dispatches.composes (settles_internalWaitForRead hcall)

theorem composesUnguarded : Composes fuel call (SettlesFrom Unguarded (α := IotError)) :=
  steadyUnguarded.dispatches.composes fun packetType =>
    (settles_internalWaitForRead hcall packetType).unguarded

/-! ## Operations on a connected client -/

omit hcall in
/-- An exchange settles if its body does. -/
theorem wp_exclusively_settles {inProgress : ClientState} {body : M IotError}
    {onRefused : ClientState → IotError → M IotError} (hlasting : inProgress.isLasting = false)
    (hbody : SettlesFrom Unguarded body) {s : World} (hs : Unguarded s) :
    wp discipline (exclusively inProgress body onRefused) (fun _ t => Settles s t) s := by
  apply wp_exclusively trivial (.refl s) (.refl s) trivial
  intro _
  have hclaimed : Unguarded (s.granted .claim s.client.clientState inProgress) := hs
  apply wp_mono _ (hbody _ hclaimed)
  rintro bodyRc t ⟨-, ht⟩
  apply wp_mono _ (wp_release ht hlasting rfl)
  exact fun _ _ hu => hu.1

/-- A resubscribe that succeeds leaves the client idle, and one on an idle client
answers no verdict on the connection. -/
theorem wp_resubscribe {s : World} (hs : Unguarded s) :
    wp discipline (resubscribe fuel call) (fun rc t => Settles s t ∧
      (rc = .success → t.client.clientState = .connectedIdle) ∧
      (s.client.clientState = .connectedIdle → rc.isVerdict = false)) s := by
  simp only [resubscribe, wp_bind, wp_isClientConnected, true_and]
  split
  next hconnected =>
    refine ⟨.refl s, by simp, fun hidle => ?_⟩
    rw [World.isClientConnected, hidle] at hconnected
    cases hconnected
  next =>
    simp only [wp_bind, wp_getClientState, true_and]
    split
    next => exact ⟨.refl s, by simp, fun _ => rfl⟩
    next hidle =>
      have hidle' := not_not.mp hidle
      rw [wp_bind, wp_setClientState, if_pos hidle', wp_onSuccess]
      refine ⟨trivial, fun _ => ?_, fun h => absurd rfl h⟩
      have hplain :
        ∀ t, wp discipline (internalResubscribe fuel call)
          (fun rc _ => rc.isVerdict = false) t := by
        intro t
        rw [internalResubscribe, wp_bind, wp_getClient]
        exact ⟨trivial, wp_resubscribeLoop_plain _ _ _⟩
      have hclaimed : Unguarded (s.granted .claim .connectedIdle .connectedResubscribeInProgress) :=
        hs
      rw [wp_bind]
      apply wp_mono _ (wp_and ((composesUnguarded hcall).internalResubscribe _ hclaimed) (hplain _))
      -- the body reports plainly, and settles what it changes
      rintro resubRc t ⟨⟨-, ht⟩, hresub⟩
      rw [wp_bind]
      apply wp_mono _ (wp_release ht rfl hidle')
      rintro rc u ⟨hu, hidle, hrc⟩
      refine ⟨hu, ?_, fun _ => ?_⟩
      · split
        next h => exact fun heq => absurd heq h.2
        next h =>
          intro hsuccess
          apply hidle
          by_contra hne
          exact h ⟨hsuccess, hne⟩
      · split
        next => exact hrc
        next => exact hresub

/-! ## Connecting and disconnecting -/

omit hcall in
theorem transportsUnguarded :
    Transports (· ≠ .connecting) fun _ p => SettlesFrom Unguarded p :=
  steadyUnguarded.transports fun s e he hs => by
    have hst : Settles s (s.log e) :=
      .of_eq (Extends.log s (Event.isInner_of_isTransport he)).stack rfl
    exact ⟨trivial, by rwa [Unguarded, hst.stack], hst⟩

omit hcall in
/-- A disconnect puts the state back or leaves the client disconnected by hand. -/
theorem wp_disconnect {s : World} (hs : Unguarded s) :
    wp discipline (disconnect fuel) (fun rc t => Settles s t ∧
      (rc = .success → t.client.clientState = .disconnectedManually)) s := by
  simp only [disconnect, wp_bind, wp_getClientState, wp_isClientConnected, true_and]
  split
  next => exact ⟨.refl s, by simp⟩
  next =>
    have hclaimed : Unguarded (s.granted .other s.client.clientState .disconnecting) := hs
    rw [wp_bind, wp_setClientState, if_pos rfl, wp_onSuccess]
    refine ⟨trivial, fun _ => ?_, fun h => absurd rfl h⟩
    rw [wp_bind]
    apply wp_mono _
      (transportsUnguarded.internalDisconnect steadyUnguarded.dispatches.send _ hclaimed)
    rintro rc t ⟨-, ht⟩
    split
    next hrc =>
      simp only [wp_bind, wp_putClientState, true_and, pure_eq, wp_ret]
      exact ⟨.of_eq ht.stack rfl, fun h => absurd h hrc⟩
    next =>
      simp only [wp_bind, wp_putClientState, true_and, pure_eq, wp_ret]
      exact ⟨.of_lasting hs ht.stack rfl, fun _ => rfl⟩

/-- A connect leaves the client in a state that lasts; one of an attempt to
reconnect, in one from which the attempt goes on. -/
theorem wp_connect (params : Option ConnectParams) {s : World}
    (hvalid : s.client.clientState.isValidForConnect = true) :
    wp discipline (connect fuel call params) (fun _ t => t.stack = s.stack ∧
      t.client.clientState.isLasting = true ∧
      (s.stack.head?.any Frame.reconnects = true → t.client.clientState.isRetriable = true)) s := by
  simp only [connect, wp_bind, wp_getClientState, true_and, hvalid, if_true]
  let entered := (s.granted .claim s.client.clientState .connecting).log (.enter .connecting)
  -- an attempt to reconnect is made under one of the frames for it
  have hattempt : s.stack.head?.any Frame.reconnects = true → inAttempt entered.stack = true := by
    intro hhead
    change inAttempt (.connecting :: s.stack) = true
    cases hstack : s.stack with
    | nil =>
        rw [hstack] at hhead
        cases hhead
    | cons f rest =>
        rw [hstack] at hhead
        exact hhead
  -- a state that is no longer `connecting` has been settled
  have hsettled : ∀ t, Settles entered t → t.client.clientState ≠ .connecting →
      t.client.clientState.isLasting = true ∧
        (s.stack.head?.any Frame.reconnects = true → t.client.clientState.isRetriable = true) := by
    intro t ht hne
    rcases ht.state with hsame | ⟨hlasting, hretriable⟩
    · exact absurd hsame hne
    · exact ⟨hlasting, fun hhead => hretriable (hattempt hhead)⟩
  have htransports : Transports (Frame.isWait · = true) fun _ p => SettlesFrom anywhere p :=
    steadyAnywhere.transports fun s e he _ => by
      have hst : Settles s (s.log e) :=
        .of_eq (Extends.log s (Event.isInner_of_isTransport he)).stack rfl
      exact ⟨trivial, trivial, hst⟩
  rw [connectFrom, wp_bind, wp_setClientState, if_pos rfl, wp_framed]
  refine ⟨trivial, trivial, ?_⟩
  rw [wp_bind]
  apply wp_mono _
    (htransports.internalConnect (composesAnywhere hcall).handshake params entered trivial)
  rintro rc t ⟨-, ht⟩
  have htail : t.stack.tail = s.stack := by
    rw [ht.stack]
    rfl
  split
  next =>
    simp only [wp_bind]
    apply wp_mono _ (htransports.netDisconnect t trivial)
    rintro _ u ⟨-, hu⟩
    apply wp_mono _ (htransports.netDestroy u trivial)
    rintro _ v ⟨-, hv⟩
    have hsv := (ht.trans hu).trans hv
    have htail : v.stack.tail = s.stack := by
      rw [hsv.stack]
      rfl
    rw [wp_setClientState]
    split
    next => exact ⟨trivial, trivial, htail, rfl, fun _ => rfl⟩
    next hne => exact ⟨trivial, trivial, htail, hsettled v hsv hne⟩
  next =>
    rw [wp_bind, wp_setClientState]
    split
    next => exact ⟨trivial, trivial, htail, rfl, fun _ => rfl⟩
    next hne => exact ⟨trivial, trivial, htail, hsettled t ht hne⟩

omit hcall in
/-- From a lasting state without a connection, the client can connect. -/
theorem isValidForConnect_of_isLasting {state : ClientState} (h : state.isLasting = true)
    (hconnected : state.isConnected = false) : state.isValidForConnect = true := by
  cases state with
  | initialized | pendingReconnect | disconnectedError | disconnectedManually => rfl
  | connectedIdle => cases hconnected
  | _ => cases h

end Calls

end Outcomes

end MqttClient
