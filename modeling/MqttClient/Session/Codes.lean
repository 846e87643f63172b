import MqttClient.Session.Records
import MqttClient.Session.Reconnecting

/-! # Codes that say something about the connection

A yield and an attempt to reconnect tell by their return code in which state they
leave the client. No other operation answers one of their codes, as long as the
network keeps to codes of its own.
-/

namespace MqttClient

open Effect Program

/-- The codes that say something about the connection. -/
def IotError.isVerdict : IotError → Bool
  | .networkDisconnectedError | .networkAttemptingReconnect | .networkReconnected => true
  | _ => false

/-- The innermost thing in progress, but for waits, is the connect of an attempt
to reconnect. -/
def inAttempt : List Frame → Bool
  | .waiting _ :: frames => inAttempt frames
  | .connecting :: f :: _ => f.reconnects
  | _ => false

/-- A read answers no verdict on the connection, and the physical layer not that
the client has reconnected. A message handler that runs in the connect of an
attempt to reconnect does not return on a client that has been disconnected by
hand or initialized. -/
def answersPlainly : (q : Query) → World → Answer q → Bool := fun q =>
  match q with
  | .netRead _ n => fun _ (r : ReadResult n) => !r.rc.isVerdict
  | .netIsConnected => fun _ (rc : IotError) => rc ≠ .networkReconnected
  | .application => fun w (next : Option Call) =>
      match next, w.stack with
      | none, .handler _ :: frames => !inAttempt frames ||
          w.client.clientState ≠ .disconnectedManually && w.client.clientState ≠ .initialized
      | _, _ => true
  | _ => fun _ _ => true

namespace Outcomes

abbrev policy : Policy := fun q w a => answersPlainly q w a = true

abbrev discipline : Discipline World Answer := observed policy fun _ _ => True

/-! ## Codes -/

/-- The program returns no verdict on the connection. -/
abbrev Plain (p : M IotError) : Prop := p.Always fun rc => rc.isVerdict = false

theorem isVerdict_of_isSending {rc : IotError} (h : rc.isSending = true) :
    rc.isVerdict = false := by
  cases rc <;> first | rfl | cases h

theorem isVerdict_of_isOwnError {rc : IotError} (h : rc.isOwnError = true) :
    rc.isVerdict = false := by
  cases rc <;> first | rfl | cases h

theorem plain_send (fuel length : Nat) (timer : TimerName) :
    Plain (internalSendPacket fuel length timer) :=
  (sendings_internalSendPacket fuel length timer).mono fun _ => isVerdict_of_isSending

theorem plain_onSuccess {rc : IotError} {next : M IotError} (hrc : rc.isVerdict = false)
    (hnext : Plain next) : Plain (onSuccess rc next) :=
  .ite (fun _ => hnext) fun _ => always_pure hrc

theorem plain_setClientState (change : StateChange) (expected new : ClientState) :
    Plain (setClientState change expected new) := by
  apply always_atomically
  intro s
  split <;> rfl

theorem plain_serialized {make : Client → Except IotError (List UInt8)} {next : Nat → M IotError}
    (hmake : ∀ c, ReportsErrors (make c)) (hnext : ∀ len, Plain (next len)) :
    Plain (serialized make next) := by
  apply always_bind
  intro c
  split
  next rc hrc => exact always_pure (isVerdict_of_isOwnError (hmake c rc hrc))
  next => exact always_bind fun _ => hnext _

/-- What fails answers no verdict on the connection. -/
abbrev FailsPlainly {α : Type} (r : Except IotError α) : Prop :=
  ∀ rc, r = .error rc → rc.isVerdict = false

theorem failsPlainly_error {α : Type} {rc : IotError} (h : rc.isVerdict = false) :
    FailsPlainly (.error rc : Except IotError α) := by
  intro rc' heq
  cases heq
  exact h

variable {fuel : Nat} {call : Call → M IotError}

theorem plain_internalHandlePublish (timer : TimerName) :
    Plain (internalHandlePublish fuel call timer) := by
  apply always_bind
  intro c
  split
  next rc hrc =>
    exact always_pure (isVerdict_of_isOwnError (reportsErrors_deserializePublish _ _ rc hrc))
  next =>
    apply always_bind
    intro _
    have hdeliver : ∀ topicOff len, Plain (internalDeliverMessage fuel call topicOff len) := by
      intro topicOff len
      refine always_bind fun _ => always_bind fun _ => always_bind fun _ => ?_
      exact plain_setClientState _ _ _
    apply (hdeliver _ _).bind
    intro rc hrc
    apply always_bind
    intro msg
    apply plain_onSuccess hrc
    apply Always.ite
    · exact fun _ => always_pure rfl
    · exact fun _ => plain_serialized (fun _ => reportsErrors_serializeAck _ _ _ _) fun _ =>
        plain_send _ _ _

theorem plain_dispatchPacket (timer : TimerName) (packetType : UInt8) :
    Plain (dispatchPacket fuel call timer packetType) := by
  unfold dispatchPacket
  split
  case h_5 => exact plain_internalHandlePublish timer
  case h_8 =>
    refine always_bind fun _ => always_bind fun _ => always_bind fun _ => ?_
    exact always_pure rfl
  all_goals exact always_pure rfl

/-- A read that fails answers no verdict on the connection. -/
theorem wp_internalReadPacket_plain (s : World) :
    wp discipline (internalReadPacket fuel) (fun r _ => FailsPlainly r) s := by
  have hread : ∀ site n w, wp discipline (Program.query (A := Answer) (.netRead site n))
      (fun r _ => (r : ReadResult n).rc.isVerdict = false) w := by
    intro site n w
    rw [wp_query]
    refine ⟨trivial, fun r hr => ?_⟩
    have hr' : (!(r : ReadResult n).rc.isVerdict) = true := hr
    simpa using hr'
  have hbyte : ∀ w, wp discipline (netReadByte .length) (fun r _ => FailsPlainly r) w := by
    intro w
    rw [netReadByte, wp_bind]
    apply wp_mono _ (hread .length 1 w)
    intro r t hr
    simp only [wp_bind, wp_emit, pure_eq, wp_ret, true_and]
    split
    next => rintro _ ⟨⟩
    next => exact failsPlainly_error hr
  have hbuffer : ∀ site off n w, wp discipline (netReadToBuffer site off n)
      (fun rc _ => rc.isVerdict = false) w := by
    intro site off n w
    rw [netReadToBuffer, wp_bind]
    apply wp_mono _ (hread site n w)
    intro r t hr
    simp only [wp_bind, wp_modify, solo_guar, pure_eq, wp_ret, true_and]
    exact hr
  have hlength : ∀ w, wp discipline (decodePacketRemainingLen fuel) (fun r _ => FailsPlainly r) w :=
    by
    intro w
    apply wp_loop (I := fun _ _ => True) (fun _ _ _ => trivial) _ fuel _ w trivial
    intro p t _
    unfold decodePacketRemainingLenStep
    split
    next => exact failsPlainly_error rfl
    next =>
      rw [wp_bind]
      apply wp_mono _ (hbyte t)
      intro r u hr
      split
      next rc => exact failsPlainly_error (hr rc rfl)
      next =>
        split
        next => rintro _ ⟨⟩
        next => trivial
  -- behind the length, codes are the client's own
  have hrest : ∀ remLen, (readPacketOfLength fuel remLen).Always FailsPlainly := by
    intro remLen
    apply always_bind
    intro c
    apply Always.ite
    · exact fun _ => always_bind fun _ => always_pure (failsPlainly_error rfl)
    · intro _
      refine always_bind fun _ => always_bind fun rc => Always.ite (fun _ => ?_) fun _ => ?_
      · exact always_bind fun _ => always_bind fun _ => by rintro _ ⟨⟩
      · exact always_pure (failsPlainly_error rfl)
  simp only [internalReadPacket, countdown, wp_bind, wp_getClient, wp_emit, true_and]
  apply wp_mono _ (hbuffer .header 0 1 _)
  intro rc t hrc
  split
  next => exact failsPlainly_error rfl
  next =>
    split
    next => exact failsPlainly_error hrc
    next =>
      rw [wp_bind]
      apply wp_mono _ (hlength t)
      intro r u hr
      split
      next rc => exact failsPlainly_error (hr rc rfl)
      next remLen =>
        exact (hrest remLen).wp (fun _ _ => trivial) (fun _ _ => trivial) fun _ => trivial

theorem wp_internalCycleRead_plain (timer : TimerName) (s : World) :
    wp discipline (internalCycleRead fuel call timer) (fun r _ => r.1.isVerdict = false) s := by
  have hafter : ∀ {p : M (IotError × Option UInt8)} (t : World),
      (p.Always fun r => r.1.isVerdict = false) →
      wp discipline p (fun r _ => r.1.isVerdict = false) t :=
    fun t h => h.wp (fun _ _ => trivial) (fun _ _ => trivial) fun _ => trivial
  rw [internalCycleRead, wp_bind]
  apply wp_mono _ ((sendings_lockMutex .tlsRead).wp (fun _ _ => trivial) (fun _ _ => trivial)
    fun _ => trivial)
  intro threadRc t hlock
  split
  next => exact isVerdict_of_isSending hlock
  next =>
    rw [wp_bind]
    apply wp_mono _ (wp_internalReadPacket_plain t)
    intro r u hr
    apply hafter
    apply (sendings_unlockMutex .tlsRead).bind
    intro threadRc hunlock
    have hunlock' := isVerdict_of_isSending hunlock
    split
    next =>
      apply always_pure
      split
      · exact hunlock'
      · rfl
    next rc _ => exact always_pure (hr rc rfl)
    next type =>
      apply Always.ite
      · exact fun _ => always_pure hunlock'
      · exact fun _ => (plain_dispatchPacket timer type).bind fun _ hrc => always_pure hrc

/-- A wait answers no verdict on the connection. -/
theorem wp_internalWaitForRead_plain (packetType : MessageType) (s : World) :
    wp discipline (internalWaitForRead fuel call packetType)
      (fun rc _ => rc.isVerdict = false) s := by
  rw [internalWaitForRead, wp_framed, wp_bind]
  refine ⟨trivial, ?_⟩
  apply wp_mono (Φ := fun (r : IotError × UInt8) _ => r.1.isVerdict = false)
  · rintro ⟨rc, readPacketType⟩ t hr
    simp only
    split
    · exact ⟨trivial, rfl⟩
    · exact ⟨trivial, hr⟩
  · apply wp_loop (I := fun _ _ => True) (fun _ _ _ => trivial) _ fuel _ _ trivial
    intro b t _
    simp only [waitForReadStep, wp_bind, wp_hasTimerExpired, true_and]
    intro expired _
    split
    next => rfl
    next =>
      rw [wp_bind]
      apply wp_mono _ (wp_internalCycleRead_plain .command t)
      intro r u hr
      split
      · trivial
      · exact hr

theorem wp_resubscribeSlot_plain (itr : Nat) (s : World) :
    wp discipline (resubscribeSlot fuel call itr) (fun rc _ => rc.isVerdict = false) s := by
  simp only [resubscribeSlot, countdown, getNextPacketId, wp_bind, wp_getClient,
    wp_emit, wp_atomically, solo_guar, true_and]
  split
  next => trivial
  next =>
    apply wp_serialized trivial
    · exact fun rc hrc => isVerdict_of_isOwnError (reportsErrors_serializeSubscribe _ _ _ _ rc hrc)
    · intro packet _
      refine ⟨trivial, ?_⟩
      rw [wp_bind]
      apply wp_mono _ ((plain_send fuel _ .command).wp (fun _ _ => trivial) (fun _ _ => trivial)
        fun _ => trivial)
      intro rc t hrc
      rw [wp_onSuccess]
      refine ⟨fun _ => ?_, fun _ => hrc⟩
      rw [wp_bind]
      apply wp_mono _ (wp_internalWaitForRead_plain .suback t)
      intro rc u hrc
      rw [wp_onSuccess]
      refine ⟨fun _ => ?_, fun _ => hrc⟩
      rw [wp_bind, wp_getClient]
      refine ⟨trivial, ?_⟩
      split
      next rc hrc => exact isVerdict_of_isOwnError (reportsErrors_deserializeSuback _ _ _ rc hrc)
      next => rfl

theorem wp_resubscribeLoop_plain (itr remaining : Nat) (s : World) :
    wp discipline (resubscribeLoop fuel call itr remaining)
      (fun rc _ => rc.isVerdict = false) s := by
  induction remaining generalizing itr s with
  | zero => rfl
  | succ remaining ih =>
      rw [resubscribeLoop, wp_bind]
      apply wp_mono _ (wp_resubscribeSlot_plain itr s)
      intro rc t hrc
      rw [wp_onSuccess]
      exact ⟨fun _ => ih (itr + 1) t, fun _ => hrc⟩

end Outcomes

end MqttClient
