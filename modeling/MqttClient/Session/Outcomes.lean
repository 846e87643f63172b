import MqttClient.Session.Settling

/-! # What a return code says about the state

A yield and an attempt to reconnect tell by their return code in which state
they leave the client. The two travel apart: the code of a change of the state
is often dropped. They agree as long as no handler that runs in a reconnect
takes the client away from it, and the network keeps to codes of its own.
-/

namespace MqttClient

open Effect Program

/-- The state agrees with the return code. -/
structure World.Agrees (w : World) (rc : IotError) : Prop where
  success : rc = .success → w.client.clientState = .connectedIdle
  reconnected : rc = .networkReconnected → w.client.clientState = .connectedIdle
  attempting : rc = .networkAttemptingReconnect → w.client.clientState = .pendingReconnect
  disconnected : rc = .networkDisconnectedError → w.isClientConnected = false
  lasting : w.client.clientState.isLasting = true

theorem World.Agrees.congr {s t : World} {rc : IotError} (h : s.Agrees rc)
    (hclient : t.client = s.client) : t.Agrees rc := by
  obtain ⟨hsuccess, hreconnected, hattempting, hdisconnected, hlasting⟩ := h
  rw [← hclient] at hsuccess hreconnected hattempting hlasting
  rw [World.isClientConnected, ← hclient] at hdisconnected
  exact ⟨hsuccess, hreconnected, hattempting, hdisconnected, hlasting⟩

/-- The calls whose return code says something about the connection. -/
def Call.tells : Call → Bool
  | .yield _ | .attemptReconnect => true
  | _ => false

namespace Outcomes

section Calls

variable {fuel : Nat} {call : Call → M IotError}

variable (hcall : ∀ c s, Ready s → policy.allowsCall s c →
  wp discipline (call c) (fun _ t => Settles s t) s)

include hcall

/-! ## Reconnecting -/

/-- An attempt leaves the client idle or waiting for a reconnect, and says so. -/
theorem wp_attemptReconnect {s : World} (hs : Ready s)
    (hhead : s.stack.head?.any Frame.reconnects = true) :
    wp discipline (attemptReconnect fuel call) (fun rc t => Settles s t ∧ rc ≠ .success ∧
      (rc = .networkReconnected → t.client.clientState = .connectedIdle) ∧
      (rc = .networkAttemptingReconnect → t.client.clientState = .pendingReconnect) ∧
      rc ≠ .networkDisconnectedError) s := by
  simp only [attemptReconnect, wp_bind, wp_isClientConnected, true_and]
  split
  next => exact ⟨.refl s, by simp, by simp, by simp, by simp⟩
  next hconnected =>
    have hnot : s.isClientConnected = false := eq_false_of_ne_true hconnected
    have hlasting : s.client.clientState.isLasting = true := by
      apply hs.state.resolve_left
      intro hstate
      rw [World.isClientConnected, hstate] at hnot
      cases hnot
    rw [wp_bind]
    apply wp_mono _ (wp_connect hcall none (isValidForConnect_of_isLasting hlasting hnot))
    rintro _ t ⟨hstack, ht, hretriable⟩
    have hst : Settles s t := .of_lasting hs.unguarded hstack ht
    rw [wp_bind, wp_getClientState]
    refine ⟨trivial, ?_⟩
    split
    next hidle =>
      rw [wp_bind, wp_setClientState]
      split
      next =>
        refine ⟨trivial, .of_lasting hs.unguarded hstack rfl, by simp, by simp,
          fun _ => rfl, by simp⟩
      next herror =>
        -- neither idle nor lost, so the client waits for the next attempt
        have hretriable' := hretriable hhead
        have hpending : t.client.clientState = .pendingReconnect := by
          cases hstate : t.client.clientState <;> rw [hstate] at hidle herror hretriable' <;>
            first | rfl | exact absurd rfl hidle | exact absurd rfl herror | cases hretriable'
        exact ⟨trivial, hst.trans (.of_eq rfl rfl), by simp, by simp, fun _ => hpending, by simp⟩
    next hidle =>
      rw [wp_bind]
      apply wp_mono _ (wp_resubscribe hcall (hst.ready hs).unguarded)
      rintro rc u ⟨hu, hsuccess, hplain⟩
      have hverdict := hplain (not_not.mp hidle)
      rw [wp_onSuccess]
      refine ⟨fun hrc => ⟨hst.trans hu, by simp, fun _ => hsuccess hrc, by simp, by simp⟩,
        fun hrc => ?_⟩
      refine ⟨hst.trans hu, hrc, ?_, ?_, ?_⟩ <;>
        · rintro rfl
          cases hverdict

/-- The connection is closed whatever the disconnect handler does. -/
theorem wp_handleDisconnect {s : World} (hs : Unguarded s) :
    wp discipline (handleDisconnect fuel call) (fun rc t => t.stack = s.stack ∧
      rc = .networkDisconnectedError ∧ t.client.clientState = .disconnectedError) s := by
  have hentered : Unguarded (s.log (.enter .handleDisconnect)) :=
    inAttempt_enter (fun h => by cases h) hs
  rw [handleDisconnect, wp_framed, wp_bind]
  refine ⟨trivial, ?_⟩
  apply wp_mono _ (wp_disconnect hentered)
  rintro rc t ⟨ht, hdisconnected⟩
  -- a DISCONNECT that could not be sent is made up for
  have hforced : wp discipline (doIf (decide (rc ≠ .success)) forceClientDisconnect)
      (fun _ u => Settles t u ∧ u.client.clientState.isLasting = true) t := by
    unfold doIf
    split
    next =>
      simp only [forceClientDisconnect, wp_bind, wp_putClientState, wp_netDisconnect, wp_netDestroy,
        true_and, pure_eq, wp_ret]
      intro _ _ rc' _
      have hunguarded : Unguarded t := by rwa [Unguarded, ht.stack]
      exact ⟨.of_lasting hunguarded rfl rfl, rfl⟩
    next hrc =>
      refine ⟨.refl t, ?_⟩
      rw [hdisconnected (by simpa using hrc)]
      rfl
  rw [wp_bind]
  apply wp_mono _ hforced
  rintro _ u ⟨hu, hlasting⟩
  have hsu := ht.trans hu
  have hready : Ready u := ⟨by rwa [Unguarded, hsu.stack], .inr hlasting⟩
  have hhandler : wp discipline (callDisconnectHandler fuel call u.client.disconnectHandler)
      (fun _ v => Settles u v) u := by
    cases u.client.disconnectHandler with
    | none => exact .refl u
    | some name =>
        have hframed : SettlesFrom Ready (framed (.disconnectHandler name) (do
            application fuel call
            return .success)) :=
          steadyReady.dispatches.framed (fun h => by cases h)
            (steadyReady.dispatches.bind (settles_application hcall)
              fun _ => steadyReady.dispatches.pure _)
        rw [callDisconnectHandler, wp_bind]
        apply wp_mono _ (hframed u hready)
        exact fun _ _ hv => hv.2
  rw [wp_bind, wp_getClient, wp_bind]
  refine ⟨trivial, ?_⟩
  apply wp_mono _ hhandler
  intro _ v hv
  have hstack : v.stack.tail = s.stack := by
    rw [(hsu.trans hv).stack]
    rfl
  -- whatever the handler has done, the state is set behind it
  simp only [wp_bind, wp_putClientState, pure_eq, wp_ret, true_and]
  exact ⟨hstack, rfl⟩

/-- What a turn of a yield leaves: the state of the yield, or one that lasts. -/
structure Turned (s t : World) (rc : IotError) : Prop where
  stack : t.stack = s.stack
  state : t.client.clientState = .connectedYieldInProgress ∨ t.client.clientState.isLasting = true
  reconnected : rc = .networkReconnected → t.client.clientState = .connectedYieldInProgress
  attempting : rc = .networkAttemptingReconnect → t.client.clientState = .pendingReconnect
  disconnected : rc = .networkDisconnectedError → t.client.clientState.isLasting = true ∧
    t.isClientConnected = false

omit hcall in
theorem Turned.of_plain {s t : World} {rc : IotError} (hrc : rc.isVerdict = false)
    (hstack : t.stack = s.stack)
    (hstate : t.client.clientState = .connectedYieldInProgress ∨
      t.client.clientState.isLasting = true) :
    Turned s t rc := by
  refine ⟨hstack, hstate, ?_, ?_, ?_⟩ <;>
    · rintro rfl
      cases hrc

omit hcall in
/-- The back-off leaves the state alone. -/
theorem wp_reconnectBackoff (rc : IotError) (s : World) :
    wp discipline (reconnectBackoff rc) (fun rc' t => Settles s t ∧
      t.client.clientState = s.client.clientState ∧
      (rc' = rc ∨ rc' = .networkReconnectTimedOutError)) s := by
  simp only [reconnectBackoff, wp_bind, wp_modifyClient, wp_getClient, true_and]
  split
  next => exact ⟨.of_eq rfl rfl, rfl, .inr rfl⟩
  next =>
    rw [wp_bind, countdown, wp_emit]
    exact ⟨trivial, .of_eq rfl rfl, rfl, .inl rfl⟩

theorem wp_handleReconnect {s : World} (hs : Unguarded s)
    (hstate : s.client.clientState = .pendingReconnect) :
    wp discipline (handleReconnect fuel call) (fun rc t => Turned s t rc) s := by
  let entered := s.log (.enter .handleReconnect)
  have hready : Ready entered :=
    ⟨inAttempt_enter (by simp) hs, .inr (by rw [World.client_log, hstate]; rfl)⟩
  have hleave : ∀ {t : World} (rc : IotError), Turned entered t rc →
      Turned s (t.log (.leave .handleReconnect rc)) rc := by
    intro t rc ht
    refine ⟨?_, ht.state, ht.reconnected, ht.attempting, ht.disconnected⟩
    rw [World.stack_log_leave, ht.stack]
    rfl
  -- without a connection, the delay is extended or the yield gives up
  have hbackoff : ∀ rc t, Turned entered t rc → rc ≠ .networkReconnected →
      wp discipline (reconnectBackoff rc)
      (fun rc' u => Turned s (u.log (.leave .handleReconnect rc')) rc') t := by
    intro rc t ht hrc
    apply wp_mono _ (wp_reconnectBackoff rc t)
    rintro rc' u ⟨hu, hsame, hrc'⟩
    apply hleave
    have hstack := hu.stack.trans ht.stack
    rcases hrc' with rfl | rfl
    · refine ⟨hstack, hsame ▸ ht.state, fun h => absurd h hrc, fun h => hsame.trans
        (ht.attempting h), ?_⟩
      intro h
      rw [World.isClientConnected, hsame]
      exact ht.disconnected h
    · exact .of_plain rfl hstack (hsame ▸ ht.state)
  rw [handleReconnect, wp_framed, wp_bind, wp_hasTimerExpired]
  refine ⟨trivial, trivial, fun expired _ => ?_⟩
  split
  next =>
    -- the delay has not run out
    refine ⟨trivial, hleave _ ⟨rfl, .inr ?_, by simp, fun _ => hstate, by simp⟩⟩
    exact hready.state.resolve_left (by rw [World.client_log, hstate]; simp)
  next =>
    simp only [wp_bind, netIsConnected, wp_query, solo_pre, solo_allow, true_and]
    intro physical hphysical
    split
    next =>
      -- the network is there, so a connect is tried
      rw [wp_bind]
      apply wp_mono _ (wp_attemptReconnect hcall hready rfl)
      rintro rc t ⟨ht, -, hreconnected, hattempting, hdisconnected⟩
      split
      next hrc =>
        rw [wp_bind, wp_setClientState, if_pos (hreconnected hrc), wp_onSuccess]
        refine ⟨trivial, fun _ => ?_, fun h => absurd rfl h⟩
        have hturned : Turned entered (t.granted .other .connectedIdle .connectedYieldInProgress)
            .networkReconnected := ⟨ht.stack, .inl rfl, fun _ => rfl, by simp, by simp⟩
        exact hleave _ hturned
      next hrc =>
        have hlasting : t.client.clientState.isLasting = true := by
          rcases ht.state with hsame | ⟨hlasting, -⟩
          · rw [hsame, World.client_log, hstate]
            rfl
          · exact hlasting
        apply hbackoff rc t _ hrc
        exact ⟨ht.stack, .inr hlasting, fun h => absurd h hrc, hattempting,
          fun h => absurd h hdisconnected⟩
    next =>
      -- the network is not there yet
      have hphysical' : physical ≠ .networkReconnected := by
        have h : decide (physical ≠ .networkReconnected) = true := hphysical
        exact of_decide_eq_true h
      apply hbackoff physical entered _ hphysical'
      have hpending : entered.client.clientState = .pendingReconnect := hstate
      refine ⟨rfl, .inr ?_, fun h => absurd h hphysical', fun _ => hpending, fun _ => ?_⟩
      · rw [hpending]
        rfl
      · rw [World.isClientConnected, hpending]
        exact ⟨rfl, rfl⟩

/-! ## Yielding -/

omit hcall in
theorem Settles.turned {s t : World} {rc : IotError} (h : Settles s t)
    (hs : s.client.clientState = .connectedYieldInProgress ∨ s.client.clientState.isLasting = true)
    (hrc : rc.isVerdict = false) : Turned s t rc := by
  apply Turned.of_plain hrc h.stack
  rcases h.state with hsame | ⟨hlasting, -⟩
  · rwa [hsame]
  · exact .inr hlasting

/-- Keeping alive answers that the connection is lost only where it has closed it. -/
theorem wp_keepAlive {s : World} (hs : Unguarded s)
    (hstate : s.client.clientState = .connectedYieldInProgress ∨
      s.client.clientState.isLasting = true) :
    wp discipline (keepAlive fuel call) (fun rc t => Turned s t rc ∧
      (rc = .networkDisconnectedError → t.client.clientState = .disconnectedError) ∧
      rc ≠ .networkReconnected ∧ rc ≠ .networkAttemptingReconnect) s := by
  -- where a ping stays unanswered or cannot be sent
  have hclosed :
    ∀ t, Settles s t → wp discipline (handleDisconnect fuel call) (fun rc u => Turned s u rc ∧
      (rc = .networkDisconnectedError → u.client.clientState = .disconnectedError) ∧
      rc ≠ .networkReconnected ∧ rc ≠ .networkAttemptingReconnect) t := by
    intro t ht
    have hunguarded : Unguarded t := by rwa [Unguarded, ht.stack]
    apply wp_mono _ (wp_handleDisconnect hcall hunguarded)
    rintro rc u ⟨hstack, rfl, hu⟩
    refine ⟨⟨hstack.trans ht.stack, .inr (by rw [hu]; rfl), by simp, by simp, fun _ => ?_⟩,
      fun _ => hu, by simp, by simp⟩
    rw [World.isClientConnected, hu]
    exact ⟨rfl, rfl⟩
  -- everywhere else
  have hplain : ∀ {t : World} {rc : IotError}, Settles s t → rc.isVerdict = false → Turned s t rc ∧
      (rc = .networkDisconnectedError → t.client.clientState = .disconnectedError) ∧
      rc ≠ .networkReconnected ∧ rc ≠ .networkAttemptingReconnect := by
    intro t rc ht hrc
    refine ⟨ht.turned hstate hrc, ?_, ?_, ?_⟩ <;>
      · rintro rfl
        cases hrc
  simp only [keepAlive, wp_bind, wp_getClient, true_and]
  split
  next => exact hplain (.refl s) rfl
  next =>
    simp only [wp_bind, wp_hasTimerExpired, true_and]
    intro expired _
    split
    next => exact hplain (.refl s) rfl
    next =>
      simp only [wp_bind, wp_getClient, true_and]
      split
      next => exact hclosed s (.refl s)
      next =>
        rw [wp_bind, countdown, wp_emit]
        refine ⟨trivial, ?_⟩
        apply wp_serialized trivial
        · intro rc hrc
          exact hplain (.of_eq rfl rfl)
            (isVerdict_of_isOwnError (reportsErrors_serializeZero _ _ rc hrc))
        · intro packet _
          let sent := (s.log (.countdown .command s.client.commandTimeoutMs)).onClient fun c =>
            { c with writeBuf := c.writeBuf.store 0 packet }
          have hsent : Settles s sent := .of_eq rfl rfl
          refine ⟨trivial, ?_⟩
          rw [wp_bind]
          apply wp_mono _ (steadyUnguarded.io (isIo_internalSendPacket fuel _ .command) sent hs)
          rintro rc t ⟨-, ht⟩
          split
          next => exact hclosed t (hsent.trans ht)
          next =>
            simp only [wp_bind, wp_modifyClient, countdown, wp_emit, true_and, pure_eq, wp_ret]
            exact hplain ((hsent.trans ht).trans (.of_eq rfl rfl)) rfl

/-- One turn of the loop of a yield. -/
theorem wp_yieldCycle {s : World} (hs : Unguarded s)
    (hstate : s.client.clientState = .connectedYieldInProgress ∨
      s.client.clientState.isLasting = true) :
    wp discipline (yieldCycle fuel call) (fun r t => Turned s t (r.elim id id)) s := by
  simp only [yieldCycle, wp_bind, wp_getClientState, true_and]
  split
  next hpending =>
    simp only [wp_bind, wp_getClient, true_and]
    split
    next => exact .of_plain rfl rfl hstate
    next =>
      rw [wp_bind]
      exact wp_handleReconnect hcall hs hpending
  next =>
    rw [wp_bind]
    apply wp_mono _ (wp_and (settles_internalCycleRead hcall .yield s trivial)
      (wp_internalCycleRead_plain .yield s))
    rintro ⟨rc, type⟩ t ⟨⟨-, ht⟩, hrc⟩
    have hunguarded : Unguarded t := by rwa [Unguarded, ht.stack]
    have hturned : Turned s t .success := ht.turned hstate rfl
    have hstate' := hturned.state
    -- then come the keep-alive check, a disconnect or the plain error itself
    have hafter : wp discipline (afterCycleRead fuel call rc) (fun rc u => Turned t u rc ∧
        (rc = .networkDisconnectedError → u.client.clientState = .disconnectedError) ∧
        rc ≠ .networkReconnected ∧ rc ≠ .networkAttemptingReconnect) t := by
      unfold afterCycleRead
      split
      next => exact wp_keepAlive hcall hunguarded hstate'
      next =>
        split
        next =>
          apply wp_mono _ (wp_handleDisconnect hcall hunguarded)
          rintro rc u ⟨hstack, rfl, hu⟩
          refine ⟨⟨hstack, .inr (by rw [hu]; rfl), by simp, by simp, fun _ => ?_⟩,
            fun _ => hu, by simp, by simp⟩
          rw [World.isClientConnected, hu]
          exact ⟨rfl, rfl⟩
        next =>
          refine ⟨.of_plain hrc rfl hstate', ?_, ?_, ?_⟩ <;>
            · rintro rfl
              cases hrc
    rw [wp_bind]
    apply wp_mono _ hafter
    rintro yieldRc u ⟨hu, hlost, hreconnected, hattempting⟩
    have hstack := hu.stack.trans ht.stack
    split
    next hdisconnected =>
      -- with auto-reconnect the waiting begins, else the call ends with the error
      have herror := hlost hdisconnected
      simp only [connectionLost, wp_bind, wp_modifyClient, wp_getClient, true_and]
      split
      next =>
        simp only [wp_bind, wp_setClientState, World.client_onClient, herror, if_true, ne_eq,
          not_true_eq_false, if_false, wp_modifyClient, countdown, wp_emit,
          true_and, pure_eq, wp_ret]
        exact ⟨hstack, .inr rfl, by simp, fun _ => rfl, by simp⟩
      next =>
        refine ⟨hstack, .inr ?_, by simp, by simp, fun _ => ?_⟩
        · rw [World.client_onClient, herror]
          rfl
        · rw [World.isClientConnected, World.client_onClient, herror]
          exact ⟨rfl, rfl⟩
    next hdisconnected =>
      have hturned : Turned s u yieldRc := by
        refine ⟨hstack, hu.state, fun h => absurd h hreconnected, fun h => absurd h hattempting, ?_⟩
        exact fun h => absurd h hdisconnected
      split <;> exact hturned

/-- A yield that has begun leaves a state that agrees with its return code. -/
theorem wp_yieldClaimed (change : StateChange) {s : World} (hs : Unguarded s)
    (hstate : s.client.clientState = .connectedYieldInProgress ∨
      s.client.clientState.isLasting = true) :
    wp discipline (yieldClaimed fuel call change)
      (fun rc t => t.stack = s.stack ∧ t.Agrees rc) s := by
  -- between two cycles the client yields, or is in a state that lasts
  have hloop : wp discipline (internalYield fuel call) (fun rc t => Turned s t rc) s := by
    apply wp_loop (I := fun _ t => t.stack = s.stack ∧
      (t.client.clientState = .connectedYieldInProgress ∨
      t.client.clientState.isLasting = true)) (fun _ _ _ => trivial) _ fuel _ s ⟨rfl, hstate⟩
    rintro _ t ⟨hstack, ht⟩
    have hunguarded : Unguarded t := by rwa [Unguarded, hstack]
    rw [wp_bind]
    apply wp_mono _ (wp_yieldCycle hcall hunguarded ht)
    intro r u hu
    have hturned : ∀ rc, Turned t u rc → Turned s u rc := fun rc h =>
      ⟨h.stack.trans hstack, h.state, h.reconnected, h.attempting, h.disconnected⟩
    cases r with
    | inr rc => exact hturned rc hu
    | inl rc =>
        rw [wp_bind, wp_hasTimerExpired]
        refine ⟨trivial, fun expired _ => ?_⟩
        split
        · exact hturned rc hu
        · exact ⟨hu.stack.trans hstack, hu.state⟩
  rw [yieldClaimed, wp_bind]
  apply wp_mono _ hloop
  intro yieldRc t ht
  split
  next hverdict =>
    -- no verdict: the claim is given back, if the client still has it
    rw [wp_bind, wp_setClientState]
    split
    next hyield =>
      refine ⟨trivial, ht.stack, fun _ => rfl, fun _ => rfl, fun h => ?_, fun h => ?_, rfl⟩
      · rw [if_neg (fun h => h.2 rfl)] at h
        exact absurd h hverdict.2
      · rw [if_neg (fun h => h.2 rfl)] at h
        exact absurd h hverdict.1
    next hyield =>
      refine ⟨trivial, ht.stack, ?_⟩
      by_cases hsuccess : yieldRc = .success
      · rw [if_pos ⟨hsuccess, by simp⟩]
        exact ⟨by simp, by simp, by simp, by simp, ht.state.resolve_left hyield⟩
      · rw [if_neg fun h => hsuccess h.1]
        refine ⟨fun h => absurd h hsuccess, fun h => absurd (ht.reconnected h) hyield, ?_, ?_, ?_⟩
        · exact fun h => absurd h hverdict.2
        · exact fun h => absurd h hverdict.1
        · exact ht.state.resolve_left hyield
  next hverdict =>
    -- a verdict comes with the state that it is about
    have hagrees : t.Agrees yieldRc := by
      have hcode : yieldRc = .networkDisconnectedError ∨ yieldRc = .networkAttemptingReconnect := by
        by_contra hnone
        exact hverdict (not_or.mp hnone)
      rcases hcode with rfl | rfl
      · exact ⟨by simp, by simp, by simp, fun _ => (ht.disconnected rfl).2, (ht.disconnected rfl).1⟩
      · refine ⟨by simp, by simp, fun _ => ht.attempting rfl, by simp, ?_⟩
        rw [ht.attempting rfl]
        rfl
    unfold doIf
    split
    next =>
      simp only [wp_bind, wp_emit, true_and, pure_eq, wp_ret]
      exact ⟨ht.stack, hagrees.congr rfl⟩
    next => exact ⟨ht.stack, hagrees⟩

/-- A yield that is refused leaves the state as it is. -/
theorem wp_yield (timeoutMs : UInt32) {s : World} (hs : Ready s) :
    wp discipline (yield fuel call timeoutMs) (fun rc t => Settles s t ∧
      (s.client.clientState.isLasting = true → t.Agrees rc)) s := by
  -- the codes of calls that are refused before the claim
  have hrefused : ∀ {rc : IotError}, rc ≠ .success → rc ≠ .networkReconnected →
      rc ≠ .networkAttemptingReconnect →
      (rc = .networkDisconnectedError → s.isClientConnected = false) →
      Settles s s ∧ (s.client.clientState.isLasting = true → s.Agrees rc) := by
    intro rc hsuccess hreconnected hattempting hdisconnected
    refine ⟨.refl s,
      fun hlasting => ⟨fun h => absurd h hsuccess, fun h => absurd h hreconnected, ?_, ?_, ?_⟩⟩
    · exact fun h => absurd h hattempting
    · exact hdisconnected
    · exact hlasting
  -- behind the claim the client yields, or still waits for a reconnect
  have hclaimed : ∀ change (t : World), t.stack = s.stack →
      (t.client.clientState = .connectedYieldInProgress ∨ t.client.clientState.isLasting = true) →
      wp discipline (countdown .yield timeoutMs >>= fun _ => yieldClaimed fuel call change)
        (fun rc u => Settles s u ∧ (s.client.clientState.isLasting = true → u.Agrees rc)) t := by
    intro change t hstack ht
    have hunguarded : Unguarded (t.log (.countdown .yield timeoutMs)) := by
      change inAttempt t.stack = false
      rw [hstack]
      exact hs.unguarded
    rw [wp_bind, countdown, wp_emit]
    refine ⟨trivial, ?_⟩
    apply wp_mono _ (wp_yieldClaimed hcall change hunguarded ht)
    exact fun rc u hu => ⟨.of_lasting hs.unguarded (hu.1.trans hstack) hu.2.lasting, fun _ => hu.2⟩
  unfold MqttClient.yield
  split
  next => exact hrefused (by simp) (by simp) (by simp) (by simp)
  next =>
    rw [wp_bind, wp_getClientState]
    refine ⟨trivial, ?_⟩
    split
    next => exact hrefused (by simp) (by simp) (by simp) (by simp)
    next =>
      split
      next hpending => exact hclaimed _ s rfl (.inr (by rw [hpending]; rfl))
      next =>
        rw [wp_bind, wp_isClientConnected]
        refine ⟨trivial, ?_⟩
        split
        next hconnected =>
          exact hrefused (by simp) (by simp) (by simp) fun _ => by simpa using hconnected
        next =>
          split
          next => exact hrefused (by simp) (by simp) (by simp) (by simp)
          next hidle =>
            rw [wp_bind, wp_setClientState, if_pos (not_not.mp hidle), wp_onSuccess]
            refine ⟨trivial, fun _ => ?_, fun h => absurd rfl h⟩
            exact hclaimed _ _ rfl (.inl rfl)

/-! ## All calls -/

/-- What a call does in its frame. -/
theorem wp_perform (c : Call) {s : World} (hs : Ready s) (hstack : s.stack.head? = some (.call c)) :
    wp discipline (perform fuel call c) (fun rc t => Settles s t ∧
      (c.tells = true → s.client.clientState.isLasting = true → t.Agrees rc)) s := by
  have hcomposes :
    Composes fuel call (SettlesFrom Unguarded (α := IotError)) := composesUnguarded hcall
  -- an operation whose code tells nothing only has to settle
  have hsilent : ∀ {p : M IotError}, c.tells = false → wp discipline p (fun _ t => Settles s t) s →
      wp discipline p (fun rc t => Settles s t ∧
        (c.tells = true → s.client.clientState.isLasting = true → t.Agrees rc)) s := by
    intro p hc hp
    apply wp_mono _ hp
    exact fun _ _ ht => ⟨ht, fun h => absurd (h.symm.trans hc) (by simp)⟩
  cases c with
  | init params =>
      apply hsilent rfl
      change wp discipline (init params) _ s
      unfold MqttClient.init
      split
      next =>
        simp only [wp_bind, wp_modifyClient, wp_emit, true_and, pure_eq, wp_ret]
        exact .of_lasting hs.unguarded rfl rfl
      next => exact .refl s
  | connect params =>
      apply hsilent rfl
      by_cases hvalid : s.client.clientState.isValidForConnect = true
      · apply wp_mono _ (wp_connect hcall params hvalid)
        exact fun _ t ht => .of_lasting hs.unguarded ht.1 ht.2.1
      · simp only [perform, connect, wp_bind, wp_getClientState, hvalid, true_and]
        exact Settles.refl s
  | publish topicName topicNameLen params =>
      apply hsilent rfl
      change wp discipline (publish fuel call topicName topicNameLen params) _ s
      unfold MqttClient.publish
      split
      · split
        · exact .refl s
        · exact wp_exclusively_settles rfl (hcomposes.internalPublish _ _ _) hs.unguarded
      · exact .refl s
  | subscribe topicName topicNameLen qos handler data =>
      apply hsilent rfl
      change wp discipline (subscribe fuel call topicName topicNameLen qos handler data) _ s
      unfold MqttClient.subscribe
      split
      · apply wp_exclusively_settles rfl _ hs.unguarded
        apply hcomposes.internalSubscribe
        intro slot len handler
        have hne : Frame.subscribing slot ≠ .connecting := by simp
        apply steadyUnguarded.dispatches.framed hne
        apply hcomposes.requestSubscription
        intro t ht
        simp only [addSubscription, wp_bind, wp_modifyClient, true_and, pure_eq, wp_ret]
        exact ⟨ht, .of_eq rfl rfl⟩
      · exact .refl s
  | unsubscribe topicFilter topicFilterLen =>
      apply hsilent rfl
      change wp discipline (unsubscribe fuel call topicFilter topicFilterLen) _ s
      unfold MqttClient.unsubscribe
      split
      · exact .refl s
      · apply wp_exclusively_settles rfl _ hs.unguarded
        apply hcomposes.internalUnsubscribe
        intro t ht
        simp only [removeSubscription, wp_bind, wp_modify, solo_guar, true_and, pure_eq, wp_ret]
        exact ⟨ht, .of_eq rfl rfl⟩
  | resubscribe =>
      apply hsilent rfl
      apply wp_mono _ (wp_resubscribe hcall hs.unguarded)
      exact fun _ _ ht => ht.1
  | yield timeoutMs =>
      -- this operation and `attemptReconnect` are the ones that tell
      apply wp_mono _ (wp_yield hcall timeoutMs hs)
      exact fun _ _ ht => ⟨ht.1, fun _ => ht.2⟩
  | disconnect =>
      apply hsilent rfl
      apply wp_mono _ (wp_disconnect hs.unguarded)
      exact fun _ _ ht => ht.1
  | attemptReconnect =>
      apply wp_mono _ (wp_attemptReconnect hcall hs (by rw [hstack]; rfl))
      rintro rc t ⟨ht, hsuccess, hreconnected, hattempting, hdisconnected⟩
      refine ⟨ht, fun _ hlasting => ⟨fun h => absurd h hsuccess, hreconnected, hattempting, ?_, ?_⟩⟩
      · exact fun h => absurd h hdisconnected
      · rcases ht.state with hsame | ⟨hlasting', -⟩
        · rwa [hsame]
        · exact hlasting'
  | autoreconnectSetStatus newStatus =>
      apply hsilent rfl
      simp only [perform, wp_bind, wp_modifyClient, true_and, pure_eq, wp_ret]
      exact .of_eq rfl rfl
  | setDisconnectHandler handler =>
      apply hsilent rfl
      cases handler with
      | none => exact .refl s
      | some handler =>
          simp only [perform, wp_bind, wp_modifyClient, true_and, pure_eq, wp_ret]
          exact .of_eq rfl rfl
  | setConnectParams params =>
      apply hsilent rfl
      cases params with
      | none => exact .refl s
      | some params =>
          simp only [perform, setConnectParams, wp_bind, wp_modifyClient, true_and, pure_eq, wp_ret]
          exact .of_eq rfl rfl
  | resetNetworkDisconnectedCount =>
      apply hsilent rfl
      simp only [perform, wp_bind, wp_modifyClient, true_and, pure_eq, wp_ret]
      exact .of_eq rfl rfl

end Calls

theorem wp_api (fuel : Nat) (c : Call) {s : World} (hs : Ready s) :
    wp discipline (api fuel c) (fun rc t => Settles s t ∧
      (c.tells = true → s.client.clientState.isLasting = true → t.Agrees rc)) s := by
  refine wp_recursive (D := discipline) (P := fun _ s => Ready s)
    (Φ := fun c s rc t => Settles s t ∧
    (c.tells = true → s.client.clientState.isLasting = true → t.Agrees rc)) (fun _ _ _ => trivial)
    (fun fuel call hcall c s hs => ?_) fuel c s hs
  have hcall' : ∀ c s, Ready s → policy.allowsCall s c →
      wp discipline (call c) (fun _ t => Settles s t) s := by
    intro c s hs _
    apply wp_mono _ (hcall c s hs)
    exact fun _ _ ht => ht.1
  have hne : Frame.call c ≠ .connecting := nofun
  have hentered : Ready (s.log (.enter (.call c))) := ⟨inAttempt_enter hne hs.unguarded, hs.state⟩
  rw [wp_framed]
  refine ⟨trivial, ?_⟩
  apply wp_mono _ (wp_perform hcall' c hentered rfl)
  rintro rc t ⟨ht, hagrees⟩
  refine ⟨trivial, ht.leave fun hin => ?_, fun hc hlasting => (hagrees hc hlasting).congr rfl⟩
  rw [hs.unguarded] at hin
  cases hin

theorem lasting_of_atRest {w : World} (h : AtRest policy w) :
    w.stack = [] ∧ w.client.clientState.isLasting = true := by
  apply h.of_wp (I := fun w => w.stack = [] ∧ w.client.clientState.isLasting = true)
    (fun _ _ => ⟨rfl, rfl⟩)
  rintro fuel c s ⟨hstack, hlasting⟩ _
  have hs : Ready s := ⟨by rw [Unguarded, hstack]; rfl, .inr hlasting⟩
  apply wp_mono _ (wp_api fuel c hs)
  rintro rc t ⟨ht, -⟩
  refine ⟨ht.stack.trans hstack, ?_⟩
  rcases ht.state with hsame | ⟨hlasting', -⟩
  · rwa [hsame]
  · exact hlasting'

end Outcomes

open Outcomes

/-- Where reads answer no verdict on the connection, and no handler leaves an
attempt to reconnect with the client disconnected by hand, the return code of a
yield or of an attempt to reconnect agrees with the state that it leaves. -/
theorem agrees_of_returns {w w' : World} {c : Call} {fuel : Nat} {rc : IotError}
    (h : AtRest policy w) (hc : c.tells = true) (hret : Returns policy (api fuel c) w rc w') :
    w'.Agrees rc := by
  obtain ⟨hstack, hlasting⟩ := lasting_of_atRest h
  have hs : Ready w := ⟨by rw [Unguarded, hstack]; rfl, .inr hlasting⟩
  exact (wp_returns (wp_api fuel c hs) hret).2 hc hlasting

theorem keepsTo_answersPlainly :
    freshWorld.keepsTo answersPlainly 20 connectCall connackPacket [] = true ∧
      connectedWorld.keepsTo answersPlainly 20 (.yield 1000) [] [] = true ∧
      lostWorld.keepsTo answersPlainly 20 .attemptReconnect refusalPacket [] = true := by
  decide +kernel

theorem perform_lostWorld :
    (connectedWorld.perform 20 (.yield 1000) [] []).1 = some .networkDisconnectedError ∧
      (lostWorld.perform 20 .attemptReconnect refusalPacket []).1 =
        some .networkAttemptingReconnect := by
  decide +kernel

theorem Outcomes.atRest_lostWorld : AtRest policy lostWorld := by
  obtain ⟨hconnect, hyield, -⟩ := keepsTo_answersPlainly
  have hconnected : AtRest policy connectedWorld :=
    (AtRest.init blankClient sampleInitParams).call (c := connectCall) rfl
      (returns_perform (fun _ _ _ h => h) hconnect perform_connectCall)
  exact hconnected.call (c := .yield 1000) rfl
    (returns_perform (fun _ _ _ h => h) hyield perform_lostWorld.1)

/-- The broker refuses the connect of an attempt. -/
theorem agrees_refusedWorld : refusedWorld.Agrees .networkAttemptingReconnect :=
  agrees_of_returns atRest_lostWorld (c := .attemptReconnect) rfl
    (returns_perform (fun _ _ _ h => h) keepsTo_answersPlainly.2.2 perform_lostWorld.2)

/-- A yield has lost the connection of a client with a subscription. -/
def cutWorld : World := (subscribedWorld.perform 20 (.yield 1000) [] []).2.2

/-- A message has come before the CONNACK of an attempt to reconnect, and its
handler has disconnected. -/
def withdrawnWorld : World :=
  (cutWorld.perform 20 .attemptReconnect (messagePacket ++ connackPacket)
    [some .disconnect, none]).2.2

theorem withdrawnWorld_spec :
    (subscribedWorld.perform 20 (.yield 1000) [] []).1 = some .networkDisconnectedError ∧
      (cutWorld.perform 20 .attemptReconnect (messagePacket ++ connackPacket)
        [some .disconnect, none]).1 = some .networkAttemptingReconnect ∧
      withdrawnWorld.client.clientState = .disconnectedManually := by
  decide +kernel

/-- The attempt says that it goes on, and the client is disconnected for good. -/
theorem not_agrees_withdrawnWorld :
    ¬ ∀ (w w' : World) (c : Call) (fuel : Nat) (rc : IotError), AtRest anything w →
      c.tells = true → Returns anything (api fuel c) w rc w' → w'.Agrees rc := by
  intro h
  obtain ⟨hlost, hattempt, hstate⟩ := withdrawnWorld_spec
  have hrest : AtRest anything cutWorld := atRest_subscribedWorld.perform hlost
  have hret : Returns anything (api 20 .attemptReconnect) cutWorld .networkAttemptingReconnect
      withdrawnWorld := returns_perform (fun _ _ _ _ => trivial) (keepsTo_true _ _ _) hattempt
  have hpending := (h cutWorld withdrawnWorld .attemptReconnect 20 _ hrest rfl hret).attempting rfl
  rw [hstate] at hpending
  cases hpending

end MqttClient
