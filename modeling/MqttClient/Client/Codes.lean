import MqttClient.Client.Api

/-! # The codes that operations return

The network stack may answer any code. What the operations make of it is a
success or an error of the client's own; notices come from reconnecting only.
-/

namespace MqttClient

open Effect Program

/-- `SUCCESS` or one of the error codes. -/
def IotError.isResult (rc : IotError) : Bool := rc = .success || rc.isError

/-- The program returns results only. -/
abbrev Results (p : M IotError) : Prop := p.Always fun rc => rc.isResult = true

theorem results_onSuccess {rc : IotError} {next : M IotError} (hrc : rc.isResult = true)
    (hnext : Results next) : Results (onSuccess rc next) :=
  .ite (fun _ => hnext) fun _ => always_pure hrc

theorem results_setClientState (change : StateChange) (expected new : ClientState) :
    Results (setClientState change expected new) := by
  refine always_atomically fun s => ?_
  split <;> rfl

/-- The codes of sending a packet and of waiting for one. -/
def IotError.isTransfer : IotError → Bool
  | .success | .failure | .mqttTxBufferTooShortError | .mqttRequestTimeoutError
  | .networkDisconnectedError | .mutexLockError | .mutexUnlockError => true
  | _ => false

theorem IotError.isResult_of_isTransfer {rc : IotError} (h : rc.isTransfer = true) :
    rc.isResult = true := by
  cases rc <;> first | rfl | cases h

/-- The program returns codes of sending and waiting only. -/
abbrev Transfers (p : M IotError) := p.Always fun rc => rc.isTransfer = true

/-- The codes of sending a packet. -/
def IotError.isSending : IotError → Bool
  | .success | .failure | .mqttTxBufferTooShortError | .mutexLockError | .mutexUnlockError => true
  | _ => false

theorem IotError.isTransfer_of_isSending {rc : IotError} (h : rc.isSending = true) :
    rc.isTransfer = true := by
  cases rc <;> first | rfl | cases h

/-- The program returns codes of sending only. -/
abbrev Sendings (p : M IotError) := p.Always fun rc => rc.isSending = true

theorem sendings_onSuccess {rc : IotError} {next : M IotError} (hrc : rc.isSending = true)
    (hnext : Sendings next) : Sendings (onSuccess rc next) :=
  .ite (fun _ => hnext) fun _ => always_pure hrc

theorem sendings_lockMutex (mutex : MutexName) : Sendings (lockMutex mutex) := by
  refine always_bind fun c => .ite (fun _ => always_bind fun ok => ?_) fun _ => rfl
  cases ok <;> rfl

/-- What unlocking a mutex may answer. -/
theorem always_unlockMutex (mutex : MutexName) :
    (unlockMutex mutex).Always fun rc => rc = .success ∨ rc = .mutexUnlockError := by
  refine always_bind fun c => .ite (fun _ => always_bind fun ok => ?_) fun _ => .inl rfl
  cases ok with
  | false => exact .inr rfl
  | true => exact .inl rfl

theorem sendings_unlockMutex (mutex : MutexName) : Sendings (unlockMutex mutex) := by
  apply (always_unlockMutex mutex).mono
  rintro rc (rfl | rfl) <;> rfl

theorem IotError.isError_of_isOwnError {rc : IotError} (h : rc.isOwnError = true) :
    rc.isError = true := (Bool.and_eq_true_iff.mp h).1

theorem isResult_of_error {α : Type} {r : Except IotError α} {rc : IotError}
    (h : ReportsErrors r) (hrc : r = .error rc) : rc.isResult = true := by
  simp only [IotError.isResult, IotError.isError_of_isOwnError (h rc hrc), Bool.or_true]

theorem results_serialized {make : Client → Except IotError (List UInt8)} {next : Nat → M IotError}
    (hmake : ∀ c, ReportsErrors (make c)) (hnext : ∀ len, Results (next len)) :
    Results (serialized make next) := by
  refine always_bind fun c => ?_
  split
  next rc hrc => exact always_pure (isResult_of_error (hmake c) hrc)
  next => exact always_bind fun _ => hnext _

theorem sendings_internalSendPacket (fuel length : Nat) (timer : TimerName) :
    Sendings (internalSendPacket fuel length timer) := by
  refine always_bind fun c => .ite (fun _ => rfl) fun _ => ?_
  refine (sendings_lockMutex _).bind fun rc hrc => sendings_onSuccess hrc ?_
  refine always_bind fun sent => (sendings_unlockMutex _).bind fun rc hrc => ?_
  exact sendings_onSuccess hrc (.ite (fun _ => always_bind fun _ => rfl) fun _ => rfl)

variable {call : Call → M IotError}

/-! ## Waiting -/

/-- The codes of waiting for a packet. -/
def IotError.isWaiting : IotError → Bool
  | .success | .failure | .mqttRequestTimeoutError | .networkDisconnectedError
  | .mutexUnlockError => true
  | _ => false

theorem IotError.isTransfer_of_isWaiting {rc : IotError} (h : rc.isWaiting = true) :
    rc.isTransfer = true := by
  cases rc <;> first | rfl | cases h

/-- The program returns codes of waiting only. -/
abbrev Waitings (p : M IotError) := p.Always fun rc => rc.isWaiting = true

/-- An acknowledgement that was read is not looked at further. -/
theorem waitings_internalCycleRead (fuel : Nat) (timer : TimerName) {packetType : MessageType}
    (hack : packetType.isAck = true) : (internalCycleRead fuel call timer).Always
      fun r => r.2 = some packetType.code → r.1.isWaiting = true := by
  refine always_bind fun threadRc => .ite (fun _ => nofun) fun _ => ?_
  refine always_bind fun r => (always_unlockMutex _).bind fun threadRc hunlock => ?_
  split
  next => exact always_pure (by split <;> exact nofun)
  next => exact always_pure nofun
  next type =>
    apply Always.ite
    · intro _ _
      rcases hunlock with rfl | rfl <;> rfl
    · intro _
      by_cases htype : type = packetType.code
      · rw [htype, dispatchPacket_ack fuel timer hack]
        exact fun _ => rfl
      · exact always_bind fun rc => always_pure fun h => absurd (Option.some.inj h) htype

theorem waitings_internalWaitForRead (fuel : Nat) {packetType : MessageType}
    (hack : packetType.isAck = true) : Waitings (internalWaitForRead fuel call packetType) := by
  have hloop : (Program.loop (waitForReadStep fuel call packetType) fuel 0).Always
      fun r => r.1.isWaiting = true := by
    refine Always.loop (I := fun b => b ≠ packetType.code) (fun b hb => ?_) fuel
      (MessageType.code_ne_zero hack).symm
    refine always_bind fun expired => .ite (fun _ => rfl) fun _ => ?_
    refine (waitings_internalCycleRead fuel .command hack).bind fun r hr => ?_
    refine .ite (fun hnext => always_pure hnext.2) fun hnext => always_pure ?_
    by_cases hrc : r.1 = .networkDisconnectedError
    · exact (congrArg IotError.isWaiting hrc).trans rfl
    · have htype : r.2.getD b = packetType.code := by
        by_contra hne
        exact hnext ⟨hrc, hne⟩
      cases hsome : r.2 with
      | none =>
          rw [hsome] at htype
          exact absurd htype hb
      | some type =>
          rw [hsome] at htype
          exact hr (hsome.trans (congrArg some htype))
  refine always_bind fun _ => Always.bind (P := fun rc => rc.isWaiting = true) ?_
    fun rc hrc => always_bind fun _ => always_pure hrc
  exact hloop.bind fun r hr => .ite (fun _ => rfl) fun _ => always_pure hr

theorem transfers_internalWaitForRead (fuel : Nat) {packetType : MessageType}
    (hack : packetType.isAck = true) : Transfers (internalWaitForRead fuel call packetType) :=
  (waitings_internalWaitForRead fuel hack).mono fun _ => IotError.isTransfer_of_isWaiting

/-! ## Operations -/

/-- Send a packet, and go on if it was sent. -/
theorem results_send (fuel length : Nat) (timer : TimerName) {next : M IotError}
    (hnext : Results next) :
    Results (internalSendPacket fuel length timer >>= fun rc => onSuccess rc next) :=
  (sendings_internalSendPacket _ _ _).bind fun _ hrc =>
    results_onSuccess (IotError.isResult_of_isTransfer (IotError.isTransfer_of_isSending hrc)) hnext

/-- Wait for an acknowledgement, and go on if it came. -/
theorem results_await (fuel : Nat) {packetType : MessageType} (hack : packetType.isAck = true)
    {next : M IotError} (hnext : Results next) :
    Results (internalWaitForRead fuel call packetType >>= fun rc => onSuccess rc next) :=
  (transfers_internalWaitForRead fuel hack).bind fun _ hrc =>
    results_onSuccess (IotError.isResult_of_isTransfer hrc) hnext

theorem results_resubscribeSlot (fuel itr : Nat) : Results (resubscribeSlot fuel call itr) := by
  refine always_bind fun c => always_bind fun _ => always_bind fun id => always_bind fun c => ?_
  simp only
  split
  next => trivial
  next =>
    refine results_serialized (fun _ => reportsErrors_serializeSubscribe _ _ _ _) fun len => ?_
    refine results_send _ _ _ (results_await fuel rfl (always_bind fun c => ?_))
    split
    next rc hrc => exact always_pure (isResult_of_error (reportsErrors_deserializeSuback _ _ _) hrc)
    next => exact always_pure rfl

theorem results_resubscribeLoop (fuel itr remaining : Nat) :
    Results (resubscribeLoop fuel call itr remaining) := by
  induction remaining generalizing itr with
  | zero => exact always_pure rfl
  | succ remaining ih =>
      exact (results_resubscribeSlot _ _).bind fun rc hrc => results_onSuccess hrc (ih _)

theorem results_resubscribe (fuel : Nat) : Results (resubscribe fuel call) := by
  refine always_bind fun connected => .ite (fun _ => rfl) fun _ => ?_
  refine always_bind fun clientState => .ite (fun _ => rfl) fun _ => ?_
  refine (results_setClientState _ _ _).bind fun rc hrc => results_onSuccess hrc ?_
  have hinternal : Results (internalResubscribe fuel call) :=
    always_bind fun c => results_resubscribeLoop _ _ _
  refine hinternal.bind fun resubRc hresub => (results_setClientState _ _ _).bind fun rc hrc => ?_
  refine always_pure ?_
  split
  · exact hrc
  · exact hresub

end MqttClient
