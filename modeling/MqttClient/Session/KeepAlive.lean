import MqttClient.Session.Pings

/-! # Keeping the connection alive

Pings are sent by the keep-alive check of a yield, and their answers are read
by whatever call reads next. The check ends the connection if its timer has
expired while a ping is outstanding, and if a ping cannot be sent.
-/

namespace MqttClient

open Effect Program

variable {allow : Policy} {fuel : Nat} {call : Call → M IotError}

/-! ## Operations -/

section Operations

theorem neverPings_addSubscription (slot : Nat) (h : MessageHandler) :
    NeverPings (addSubscription slot h) := by
  have hset : NeverPings (modifyClient fun c =>
      { c with messageHandlers := c.messageHandlers.set slot h }) :=
        neverPings_modifyClient fun _ => rfl
  exact hset.bind fun _ => within_pure _

variable (hwait : ∀ packetType, Accounts allow (internalWaitForRead fuel call packetType))

include hwait

/-- Wait for an acknowledgement, and go on if it came. -/
theorem accounts_await (packetType : MessageType) {next : M IotError}
    (hnext : Accounts allow next) :
    Accounts allow (internalWaitForRead fuel call packetType >>= fun rc => onSuccess rc next) :=
  (hwait packetType).bind fun rc => hnext.onSuccess rc

/-- A publish sends no PINGREQ. -/
theorem accounts_internalPublish (topicName : List UInt8) (topicNameLen : UInt16)
    (arg : PublishArg) :
    Accounts allow (internalPublish fuel call topicName topicNameLen arg) := by
  apply Accounts.bind neverPings_getClient.accounts
  intro c
  apply Accounts.bind (neverPings_countdown _ _).accounts
  intro _
  have hparams : NeverPings (Program.atomically (fun w => World.publishParams w arg) id : M _) :=
    within_atomically fun w => .refl w
  apply Accounts.bind hparams.accounts
  intro params
  split
  next => exact accounts_stop
  next =>
    apply Accounts.bind (neverPings_assignPublishId _ _).accounts
    intro id
    refine accounts_request (· % 2 ^ 32) (fun _ _ h => beginsOtherwise_serializePublish h) ?_
    refine .ite (accounts_await hwait _ ?_) (accounts_pure _)
    apply Accounts.bind neverPings_getClient.accounts
    intro c
    split <;> exact accounts_pure _

/-- Nor does a subscribe send one in place of its packet. -/
theorem wp_subscribeInSlot_otherwise (slot len : Nat) (h : MessageHandler) {s : World}
    (hs : Accounted s) (hload : s.SendsOtherwise) :
    wp (pinging allow) (subscribeInSlot fuel call slot len h) (fun _ t => Accounted t) s := by
  have hentered : Accounted (s.log (.enter (.subscribing slot))) :=
    (Unpinged.log s rfl).accounted hs
  rw [subscribeInSlot, wp_framed]
  refine ⟨hentered.singly, ?_⟩
  have hrequest : wp (pinging allow) (requestSubscription fuel call slot len h)
      (fun _ t => Accounted t) (s.log (.enter (.subscribing slot))) := by
    refine wp_send_otherwise (accounts_await hwait .suback ?_) hentered hload
    apply Accounts.bind neverPings_getClient.accounts
    intro c
    split
    next => exact accounts_pure _
    next => exact (neverPings_addSubscription slot h).accounts
  apply wp_mono _ hrequest
  intro rc t ht
  have hleft := (Unpinged.log t (e := .leave (.subscribing slot) rc) rfl).accounted ht
  exact ⟨hleft.singly, hleft⟩

/-- A subscribe sends no PINGREQ. -/
theorem accounts_internalSubscribe (topicName : CString) (topicNameLen : UInt16) (qos : QoS)
    (applicationHandler : HandlerName) (data : Nat) :
    Accounts allow
      (internalSubscribe fuel call topicName topicNameLen qos applicationHandler data) := by
  apply Accounts.bind neverPings_getClient.accounts
  intro c
  apply Accounts.bind (neverPings_countdown _ _).accounts
  intro _
  apply Accounts.bind neverPings_getNextPacketId.accounts
  intro packetId
  apply accounts_serialized fun _ _ h => beginsOtherwise_serializeSubscribe h
  intro len s hs hload
  simp only [wp_bind, wp_getClient]
  refine ⟨hs.singly, ?_⟩
  split
  next => exact hs
  next => exact wp_subscribeInSlot_otherwise hwait _ _ _ hs hload

/-- Nor does a turn of a resubscribe. -/
theorem accounts_resubscribeSlot (itr : Nat) : Accounts allow (resubscribeSlot fuel call itr) := by
  apply Accounts.bind neverPings_getClient.accounts
  intro c
  apply Accounts.bind (neverPings_countdown _ _).accounts
  intro _
  apply Accounts.bind neverPings_getNextPacketId.accounts
  intro packetId
  apply Accounts.bind neverPings_getClient.accounts
  intro c
  dsimp only
  split
  next => exact accounts_stop
  next =>
    refine accounts_request (· % 2 ^ 32) (fun _ _ h => beginsOtherwise_serializeSubscribe h) ?_
    apply accounts_await hwait
    apply Accounts.bind neverPings_getClient.accounts
    intro c
    split <;> exact accounts_pure _

theorem accounts_internalResubscribe : Accounts allow (internalResubscribe fuel call) := by
  have hloop : ∀ remaining itr, Accounts allow (resubscribeLoop fuel call itr remaining) := by
    intro remaining
    induction remaining with
    | zero => exact fun _ => accounts_pure _
    | succ remaining ih =>
        exact fun itr => (accounts_resubscribeSlot hwait itr).bind fun rc => (ih _).onSuccess rc
  apply Accounts.bind neverPings_getClient.accounts
  exact fun c => hloop _ _

/-- Nor does an unsubscribe. -/
theorem accounts_internalUnsubscribe (topicFilter : CString) (topicFilterLen : UInt16) :
    Accounts allow (internalUnsubscribe fuel call topicFilter topicFilterLen) := by
  apply Accounts.bind neverPings_getClient.accounts
  intro c
  apply Accounts.ite (accounts_pure _)
  apply Accounts.bind (neverPings_countdown _ _).accounts
  intro _
  apply Accounts.bind neverPings_getNextPacketId.accounts
  intro packetId
  refine accounts_request (· % 2 ^ 32) (fun _ _ h => beginsOtherwise_serializeUnsubscribe h) ?_
  apply accounts_await hwait
  apply Accounts.bind neverPings_getClient.accounts
  intro c
  split
  next => exact accounts_pure _
  next =>
    have hremove : NeverPings (Program.modify fun w => World.withoutSubscription w topicFilter) :=
      neverPings_modify fun _ => ⟨rfl, adds_one rfl rfl⟩
    apply Accounts.bind hremove.accounts
    exact fun _ => accounts_pure _

end Operations

/-! ## Disconnecting and reconnecting -/

/-- Nor does a disconnect. -/
theorem accounts_internalDisconnect (fuel : Nat) : Accounts allow (internalDisconnect fuel) := by
  apply accounts_serialized fun _ _ h => beginsOtherwise_serializeZero h (by decide)
  intro len s hs hload
  simp only [countdown, wp_bind, wp_getClient, wp_emit]
  have hcounting := (Unpinged.log s (e := .countdown .command s.client.commandTimeoutMs)
    rfl).accounted hs
  refine ⟨hs.singly, hcounting.singly, ?_⟩
  rw [← wp_bind]
  refine wp_send_otherwise ?_ hcounting hload
  apply Accounts.bind neverPings_netDisconnect.accounts
  intro _
  apply Accounts.bind neverPings_netDestroy.accounts
  exact fun rc => .ite (accounts_pure _) (accounts_pure _)

theorem accounts_disconnect (fuel : Nat) : Accounts allow (disconnect fuel) :=
  primitives_accounts.disconnect (accounts_internalDisconnect fuel) fun new =>
    (neverPings_putClientState new).accounts

theorem accounts_reconnectBackoff (rc : IotError) : Accounts allow (reconnectBackoff rc) := by
  have hdouble : NeverPings (modifyClient fun c =>
      { c with currentReconnectWaitInterval := c.currentReconnectWaitInterval * 2 }) :=
    neverPings_modifyClient fun _ => rfl
  apply hdouble.accounts.bind
  intro _
  apply Accounts.bind neverPings_getClient.accounts
  intro c
  apply Accounts.ite (accounts_pure _)
  exact (neverPings_countdown _ _).accounts.bind fun _ => accounts_pure _

/-- Nor does what follows a lost connection. -/
theorem accounts_handleDisconnect (happ : Accounts allow (application fuel call)) :
    Accounts allow (handleDisconnect fuel call) :=
  primitives_accounts.handleDisconnect nofun (accounts_disconnect fuel)
    (primitives_accounts.callDisconnectHandler (fun _ => nofun) happ)

/-! ## Yielding -/

/-- A PINGREQ has been sent, and the flag is set behind it. -/
theorem wp_pinged (interval : UInt32) {s u : World} (hs : Accounted s)
    (hfree : s.trace.pingOutstanding = false) (hu : Unpinged s u) :
    wp (pinging allow) (modifyClient (fun c => { c with isPingOutstanding := true }) >>= fun _ =>
        countdown .ping interval >>= fun _ => pure IotError.success)
      (fun _ t => Accounted t) (u.log (.sent pingreq)) := by
  have hsent : (u.log (.sent pingreq)).trace.PingsSingly :=
    (hu.singly hs.singly).cons fun _ => hu.outstanding_eq.trans hfree
  have hset : Accounted ((u.log (.sent pingreq)).onClient fun c =>
      { c with isPingOutstanding := true }) := ⟨rfl, hsent⟩
  simp only [countdown, wp_bind, wp_modifyClient, wp_emit, pure_eq, wp_ret]
  have hcounting := (Unpinged.log _ (e := .countdown .ping interval) rfl).accounted hset
  exact ⟨hset.singly, hcounting.singly, hcounting⟩

/-- The keep-alive check sends a PINGREQ if none is outstanding, and sets the flag. -/
theorem accounts_keepAlive (hdisconnect : Accounts allow (handleDisconnect fuel call)) :
    Accounts allow (keepAlive fuel call) := by
  intro s hs
  simp only [keepAlive, wp_bind, wp_getClient]
  refine ⟨hs.singly, ?_⟩
  split
  next => exact hs
  next =>
    simp only [wp_bind, wp_hasTimerExpired]
    refine ⟨fun _ => hs, fun expired _ => ?_⟩
    split
    next => exact hs
    next =>
      simp only [wp_bind, wp_getClient]
      refine ⟨hs.singly, ?_⟩
      split
      next => exact hdisconnect s hs
      next hflag =>
        -- no ping is outstanding, so this one may be sent
        have hfree : s.trace.pingOutstanding = false :=
          hs.flag.symm.trans (Bool.eq_false_of_not_eq_true hflag)
        simp only [countdown, wp_bind, wp_emit]
        have hcounting := (Unpinged.log s (e := .countdown .command s.client.commandTimeoutMs)
          rfl).accounted hs
        refine ⟨hcounting.singly, ?_⟩
        apply wp_serialized hcounting.singly fun _ _ => hcounting
        intro packet hpacket
        obtain rfl := eq_pingreq_of_serializeZero hpacket
        dsimp only
        generalize hstore : World.onClient _ _ = t
        have ht : Unpinged s t := by
          rw [← hstore]
          exact ⟨rfl, adds_one rfl rfl⟩
        have hload : t.client.writeBuf.load 0 (pingreq.length % 2 ^ 32) = pingreq := by
          rw [← hstore]
          exact Memory.load_store _ 0 pingreq
        have ht' := ht.accounted hs
        refine ⟨ht'.singly, ?_⟩
        rw [wp_bind]
        apply wp_mono _ (wp_internalSendPacket_pinging ht' fun _ => ht.outstanding_eq.trans hfree)
        rintro rc u ⟨hsent, hfailed⟩
        split
        next hrc => exact hdisconnect u ((Unpinged.of_writes (hfailed hrc)).accounted ht')
        next hrc =>
          obtain ⟨v, hv, rfl⟩ := hsent (not_not.mp hrc)
          rw [hload]
          exact wp_pinged _ ht' (ht.outstanding_eq.trans hfree) (.of_writes hv)

theorem accounts_connectionLost : Accounts allow connectionLost := by
  have hcount : NeverPings (modifyClient fun c =>
      { c with counterNetworkDisconnected := c.counterNetworkDisconnected + 1 }) :=
    neverPings_modifyClient fun _ => rfl
  have hinterval : NeverPings (modifyClient fun c =>
      { c with currentReconnectWaitInterval := minReconnectWaitInterval }) :=
    neverPings_modifyClient fun _ => rfl
  apply hcount.accounts.bind
  intro _
  apply Accounts.bind neverPings_getClient.accounts
  intro c
  refine .ite ?_ (accounts_pure _)
  apply Accounts.bind (neverPings_setClientState _ _ _).accounts
  intro rc
  apply Accounts.ite (accounts_pure _)
  apply hinterval.accounts.bind
  exact fun _ => (neverPings_countdown _ _).accounts.bind fun _ => accounts_pure _

/-! ## The calls of the interface -/

/-- The application does not initialize the client again. -/
def Policy.NeverInits (allow : Policy) : Prop := ∀ s params, ¬allow.allowsCall s (.init params)

/-- Every operation but the initialization keeps the account of pings. -/
theorem accounts_perform (hrelease : allow.ReleasesPingresp)
    (happ : Accounts allow (application fuel call)) {c : Call} (hc : ∀ params, c ≠ .init params) :
    Accounts allow (perform fuel call c) := by
  have hread := accounts_internalCycleRead hrelease happ
  have hwait := accounts_internalWaitForRead hread
  have hconnect := accounts_connect (hwait .connack)
  have hsteps : Primitives _ fun _ p => Accounts allow p := primitives_accounts
  have hresubscribe := hsteps.resubscribe (accounts_internalResubscribe hwait)
  have hattempt := hsteps.attemptReconnect (hconnect none) hresubscribe
    (neverPings_setClientState _ _ _).accounts
  cases c with
  | init params => exact absurd rfl (hc params)
  | connect params => exact hconnect params
  | publish topicName topicNameLen params =>
      exact hsteps.publish (accounts_internalPublish hwait) _ _ _
  | subscribe topicName topicNameLen qos handler data =>
      exact hsteps.subscribe (accounts_internalSubscribe hwait) _ _ _ _ _
  | unsubscribe topicFilter topicFilterLen =>
      exact hsteps.unsubscribe (accounts_internalUnsubscribe hwait) _ _
  | resubscribe => exact hresubscribe
  | yield timeoutMs =>
      -- a yield consists of the read, the check and the two reactions to a lost connection
      have hlost := accounts_handleDisconnect happ
      have hreconnect := hsteps.handleReconnect nofun hattempt accounts_reconnectBackoff
      have hcycle := hsteps.yieldCycle hread (accounts_keepAlive hlost) hlost hreconnect
        accounts_connectionLost
      exact hsteps.yield hcycle timeoutMs
  | disconnect => exact accounts_disconnect fuel
  | attemptReconnect => exact hattempt
  | autoreconnectSetStatus newStatus =>
      have hset : NeverPings (modifyClient fun c =>
          { c with isAutoReconnectEnabled := newStatus }) := neverPings_modifyClient fun _ => rfl
      exact hset.accounts.bind fun _ => accounts_pure _
  | setDisconnectHandler | setConnectParams | resetNetworkDisconnectedCount =>
      exact hsteps.setting rfl

/-- So does every call, at any depth. -/
theorem accounts_api (hrelease : allow.ReleasesPingresp) (hinit : allow.NeverInits) (fuel : Nat)
    (c : Call) {s : World} (hs : Accounted s) (hallow : allow.allowsCall s c) :
    wp (pinging allow) (api fuel c) (fun _ t => Accounted t) s := by
  apply wp_recursive (P := fun c s => Accounted s ∧ allow.allowsCall s c)
    (Φ := fun _ _ _ t => Accounted t) (fun _ _ _ => trivial) _ fuel c s ⟨hs, hallow⟩
  rintro fuel call hcall c s ⟨hs, hallow⟩
  have happ : Accounts allow (application fuel call) :=
    accounts_application fun c s hs hallow => hcall c s ⟨hs, hallow⟩
  have hc : ∀ params, c ≠ .init params := by
    rintro params rfl
    exact hinit s params hallow
  exact (accounts_perform hrelease happ hc).framed (f := .call c) nofun s hs

/-! ## The keep-alive check -/

/-- The client with a PINGREQ ready to be sent. -/
def World.loadsPingreq (s : World) : World :=
  (s.log (.countdown .command s.client.commandTimeoutMs)).onClient fun c =>
    { c with writeBuf := c.writeBuf.store 0 pingreq }

/-- Sending a PINGREQ can fail. -/
def PingFails (allow : Policy) (fuel : Nat) (s : World) : Prop :=
  ∃ rc t, rc ≠ .success ∧
    Returns allow (internalSendPacket fuel pingreq.length .command) s.loadsPingreq rc t

/-- The ping timer has expired, and a ping is outstanding or a PINGREQ cannot be sent. -/
def LosesPing (allow : Policy) (fuel : Nat) (s : World) : Prop :=
  allow (.hasTimerExpired .ping) s true ∧ (s.trace.pingOutstanding = true ∨ PingFails allow fuel s)

/-- The connection has not been given up since. -/
abbrev Undisturbed (s t : World) : Prop := Adds (· ≠ .enter .handleDisconnect) s t

/-- Writing does not give the connection up. -/
theorem undisturbed_of_writes {s t : World} (h : Writes s t) : Undisturbed s t := by
  apply h.trace.mono
  rintro _ hwriting rfl
  cases hwriting

/-- What a keep-alive check does to a client that has a keep-alive interval. -/
structure ChecksPing (allow : Policy) (fuel : Nat) (call : Call → M IotError) (s : World) :
    Prop where
  /-- The ping timer is looked at. If it has expired while a ping is outstanding,
  the connection is given up. -/
  givesUp : ∃ k,
    (∀ c, Step allow (keepAlive fuel call, s) c ↔ c = (.ask (.hasTimerExpired .ping) k, s)) ∧
    (s.trace.pingOutstanding = true →
      ∀ c, Step allow (k true, s) c ↔ c = (handleDisconnect fuel call, s))
  /-- Otherwise it is given up only if a PINGREQ cannot be sent. -/
  causes : ∀ p t, Steps allow (keepAlive fuel call, s) (p, t) →
    Undisturbed s t ∨ LosesPing allow fuel s
  /-- Giving it up leaves the client disconnected. -/
  ends : ∀ rc t, Returns allow (handleDisconnect fuel call) s rc t →
    rc = .networkDisconnectedError ∧ t.client.clientState = .disconnectedError

/-- A connection that is given up is left disconnected. -/
theorem disconnected_of_handleDisconnect {s t : World} {rc : IotError}
    (h : Returns allow (handleDisconnect fuel call) s rc t) :
    rc = .networkDisconnectedError ∧ t.client.clientState = .disconnectedError := by
  obtain ⟨u, hbody, rfl⟩ := returns_framed.mp h
  obtain ⟨_, _, -, hbody⟩ := returns_bind.mp hbody
  obtain ⟨_, _, -, hbody⟩ := returns_bind.mp hbody
  obtain ⟨_, _, -, hbody⟩ := returns_bind.mp hbody
  obtain ⟨_, _, -, hbody⟩ := returns_bind.mp hbody
  obtain ⟨_, _, hput, hbody⟩ := returns_bind.mp hbody
  obtain ⟨rfl, rfl⟩ := returns_ret.mp hbody
  rw [returns_modify.mp hput]
  exact ⟨rfl, rfl⟩

/-- Nor does sending a packet. -/
theorem wp_internalSendPacket_undisturbed {C : Prop} (fuel length : Nat) (timer : TimerName)
    {s u : World} (hu : Undisturbed s u) :
    wp (solo (fun _ _ => True) allow fun _ t => Undisturbed s t ∨ C)
      (internalSendPacket fuel length timer) (fun _ t => Undisturbed s t) u := by
  have hwrites : ∀ t, Writes u t → Undisturbed s t :=
    fun t ht => hu.trans (undisturbed_of_writes ht)
  have hsent : ∀ t packet, Writes u t → Undisturbed s (t.log (.sent packet)) := fun t packet ht =>
    (hwrites t ht).trans (adds_one rfl nofun)
  refine wp_mono ?_ (wp_internalSendPacket_recorded fuel length timer u ?_ ?_ ?_)
  · rintro rc t ⟨hok, hfailed⟩
    by_cases hrc : rc = .success
    · obtain ⟨v, hv, rfl⟩ := hok hrc
      exact hsent v _ hv
    · exact hwrites t (hfailed hrc)
  · exact fun _ _ _ _ => trivial
  · exact fun t v ht hv => .inl (hwrites v (ht.trans hv))
  · exact fun t ht => .inl (hsent t _ ht)

/-- The discipline in which the connection is given up only if a ping is lost. -/
abbrev losingPing (allow : Policy) (fuel : Nat) (s : World) : Discipline World Answer :=
  solo (fun _ _ => True) allow fun _ t => Undisturbed s t ∨ LosesPing allow fuel s

/-- If the check gives the connection up, the timer has expired over a ping or a failed PINGREQ.
-/
theorem wp_keepAlive_causes {s : World} (hs : Accounted s) :
    wp (losingPing allow fuel s) (keepAlive fuel call) (fun _ _ => True) s := by
  have hlost : LosesPing allow fuel s → ∀ t,
      wp (losingPing allow fuel s) (handleDisconnect fuel call) (fun _ _ => True) t := fun h t =>
    (always_true (handleDisconnect fuel call)).wp (fun _ _ => trivial) (fun _ _ => .inr h)
      fun _ => trivial
  -- until the client is disconnected, nothing of note happens
  have hself : Undisturbed s s ∨ LosesPing allow fuel s := .inl (adds_of_eq rfl)
  simp only [keepAlive, wp_bind, wp_getClient]
  refine ⟨hself, ?_⟩
  split
  next => trivial
  next =>
    simp only [wp_bind, wp_hasTimerExpired]
    refine ⟨trivial, fun expired hexpired => ?_⟩
    split
    next => trivial
    next hnot =>
      have htimer : expired = true := by simpa using hnot
      rw [htimer] at hexpired
      simp only [wp_bind, wp_getClient]
      refine ⟨hself, ?_⟩
      split
      next hflag => exact hlost ⟨hexpired, .inl (hs.flag.symm.trans hflag)⟩ s
      next =>
        simp only [countdown, wp_bind, wp_emit]
        refine ⟨.inl (adds_one rfl (by simp)), ?_⟩
        apply wp_serialized (.inl (adds_one rfl (by simp))) fun _ _ => trivial
        intro packet hpacket
        obtain rfl := eq_pingreq_of_serializeZero hpacket
        have hloaded : Undisturbed s s.loadsPingreq := adds_one rfl (by simp)
        refine ⟨.inl hloaded, ?_⟩
        rw [wp_bind]
        have hsend : wp (losingPing allow fuel s)
            (internalSendPacket fuel pingreq.length .command) (fun _ t => Undisturbed s t)
            s.loadsPingreq := wp_internalSendPacket_undisturbed _ _ _ hloaded
        apply wp_mono _ (wp_and_returns hsend)
        rintro rc t ⟨hsent, hret⟩
        split
        next hrc => exact hlost ⟨hexpired, .inr ⟨rc, t, hrc, hret⟩⟩ t
        next hrc =>
          simp only [wp_bind, wp_modifyClient, wp_emit, pure_eq, wp_ret]
          have hset := hsent.trans (adds_of_eq rfl)
          exact ⟨.inl hset, .inl (hset.trans (adds_one rfl (by simp))), trivial⟩

/-- The questions and decisions at the head of the check. -/
theorem keepAlive_eq (fuel : Nat) (call : Call → M IotError) :
    ∃ (k : Bool → M IotError) (ping : World → M IotError),
      (keepAlive fuel call = .act id fun s =>
        if s.client.keepAliveInterval = 0 then .ret .success
        else .ask (.hasTimerExpired .ping) k) ∧
      k true = .act id fun s =>
        if s.client.isPingOutstanding then handleDisconnect fuel call else ping s :=
  ⟨_, _, rfl, rfl⟩

/-- The check does all that is said of it. -/
theorem checksPing {s : World} (hs : Accounted s) (hinterval : s.client.keepAliveInterval ≠ 0) :
    ChecksPing allow fuel call s where
  givesUp := by
    obtain ⟨k, ping, hkeep, hexpired⟩ := keepAlive_eq fuel call
    refine ⟨k, fun c => ?_, fun hout c => ?_⟩
    · rw [hkeep, step_act_iff, if_neg hinterval]
      rfl
    · rw [hexpired, step_act_iff, if_pos (hs.flag.trans hout)]
      rfl
  causes := by
    intro p t hsteps
    have hwp : wp (losingPing allow fuel s) (keepAlive fuel call) (fun _ _ => True) s :=
      wp_keepAlive_causes hs
    have hkeeps : ∀ t u, Undisturbed s t ∨ LosesPing allow fuel s →
        (losingPing allow fuel s).guar t u → Undisturbed s u ∨ LosesPing allow fuel s :=
      fun _ _ _ h => h
    exact invariant_steps hkeeps hwp (.inl (adds_of_eq rfl)) hsteps
  ends := fun _ _ => disconnected_of_handleDisconnect

/-- Pings are accounted for at a keep-alive check. -/
theorem accounted_of_wp_keepAlive {rest : IotError → M IotError} {Φ : IotError → World → Prop}
    {s : World} (h : wp (pinging allow) (keepAlive fuel call >>= rest) Φ s)
    (hinterval : s.client.keepAliveInterval ≠ 0) : Accounted s := by
  rw [wp_bind, keepAlive, wp_bind, wp_getClient, if_neg hinterval, wp_bind, wp_hasTimerExpired] at h
  exact h.2.1 nofun

/-- A turn of a yield makes the check once it has read. -/
theorem steps_keepAlive {s t : World} {type : Option UInt8}
    (hstate : s.client.clientState ≠ .pendingReconnect)
    (hread : Returns allow (internalCycleRead fuel call .yield) s (.success, type) t) :
    ∃ rest, Steps allow (yieldCycle fuel call, s) (keepAlive fuel call >>= rest, t) := by
  have hturn : Steps allow (yieldCycle fuel call, s)
      (internalCycleRead fuel call .yield >>= fun r => afterCycleRead fuel call
        r.1 >>= fun yieldRc =>
        if yieldRc = .networkDisconnectedError then connectionLost
        else if yieldRc ≠ .success then pure (.inr yieldRc) else pure (.inl yieldRc), s) := by
    apply Relation.ReflTransGen.single
    apply step_act_iff.mpr
    exact congrArg (·, s) (if_neg hstate).symm
  exact ⟨_, hturn.trans (Steps.bind _ hread)⟩

theorem accounted_init (c : Client) (params : InitParams) :
    Accounted ⟨c.initialized params, [], []⟩ :=
  ⟨rfl, fun newer older heq => by cases newer <;> cases heq⟩

/-- Between calls flag and trace agree. -/
theorem AtRest.accounted (hrelease : allow.ReleasesPingresp) (hinit : allow.NeverInits) {w : World}
    (h : AtRest allow w) : Accounted w :=
  h.of_wp accounted_init fun fuel c _ hs hallow => accounts_api hrelease hinit fuel c hs hallow

/-- The program has come to its end or to a question, which is not the release of the mutex of a
read. -/
def IsSettled : M IotError → Prop
  | .ret _ => True
  | .ask q _ => q ≠ .unlock .tlsRead
  | _ => False

/-- They agree where nothing is left to do. -/
theorem accounted_of_isSettled {p : M IotError} {s : World}
    (h : wp (pinging allow) p (fun _ t => Accounted t) s) (hp : IsSettled p) : Accounted s := by
  cases p with
  | ret rc => exact h
  | ask q k => exact h.1 hp
  | act | stop => cases hp

/-- Throughout the runs of an application that initializes its client once, a ping is sent only
while none is outstanding, and the flag says whether one is. Keep-alive checks give up the
connection if the answer is overdue, and otherwise only if a ping cannot be sent. -/
theorem pings_accounted (hrelease : allow.ReleasesPingresp) (hinit : allow.NeverInits) {w : World}
    (hw : AtRest allow w) {c : Call} (hallow : allow.allowsCall w c) {p : M IotError} {s : World}
    (hsteps : Steps allow (api fuel c, w) (p, s)) :
    s.trace.PingsSingly ∧
      (IsSettled p → s.client.isPingOutstanding = s.trace.pingOutstanding) ∧
      ∀ fuel' call' rest, p = (keepAlive fuel' call' >>= rest) → s.client.keepAliveInterval ≠ 0 →
        s.client.isPingOutstanding = s.trace.pingOutstanding ∧ ChecksPing allow fuel' call' s := by
  have hw' := hw.accounted hrelease hinit
  have hapi : wp (pinging allow) (api fuel c) (fun _ t => Accounted t) w :=
    accounts_api hrelease hinit fuel c hw' hallow
  have hp : wp (pinging allow) p (fun _ t => Accounted t) s := wp_steps hapi hsteps
  refine ⟨?_, fun hsettled => (accounted_of_isSettled hp hsettled).flag, ?_⟩
  · have hsingly : ∀ t u, t.trace.PingsSingly → (pinging allow).guar t u → u.trace.PingsSingly :=
      fun _ _ _ h => h
    exact invariant_steps hsingly hapi hw'.singly hsteps
  · rintro fuel' call' rest rfl hinterval
    have hs := accounted_of_wp_keepAlive hp hinterval
    exact ⟨hs.flag, checksPing hs hinterval⟩

/-! ## A ping whose answer is dropped -/

/-- The calls of an application that communicates. -/
def Call.talks : Call → Bool
  | .connect _ | .publish _ _ _ | .subscribe _ _ _ _ _ | .yield _ => true
  | _ => false

/-- The application only communicates. If `releases`, the mutex of a read can be released. -/
def talking (releases : Bool) : Policy := fun q =>
  match q with
  | .application => fun _ (next : Option Call) => ∀ c, next = some c → c.talks = true
  | .unlock .tlsRead => fun _ (ok : Bool) => releases = true → ok = true
  | _ => fun _ _ => True

/-- What is asked of the application is left open. -/
def talkingOk (releases : Bool) : (q : Query) → World → Answer q → Bool
  | .application, _, _ => false
  | .unlock .tlsRead, _, ok => !releases || ok
  | _, _, _ => true

theorem talking_of_talkingOk {releases : Bool} (q : Query) (s : World) (a : Answer q)
    (h : talkingOk releases q s a = true) : talking releases q s a := by
  cases q with
  | application => cases h
  | unlock mutex =>
      cases mutex with
      | tlsRead =>
          rintro rfl
          exact h
      | _ => trivial
  | _ => trivial

/-- The script, with a ping timer that has always expired. -/
def Script.answerPinging (released : Bool) (script : Script) : (q : Query) → Answer q × Script
  | .hasTimerExpired .ping => (true, script)
  | .unlock .tlsRead => (released, script)
  | q => script.answer q

def World.pinged (w : World) (released : Bool) (c : Call) (arrivals : List Arrival) :
    Option IotError × Script × World :=
  (api 20 c).run (Script.answerPinging released) ⟨arrivals, []⟩ w

/-- The run is one in which the application only communicates. -/
def World.keepsTalking (w : World) (releases released : Bool) (c : Call) (arrivals : List Arrival) :
    Bool :=
  (api 20 c).keepsTo (Script.answerPinging released) (talkingOk releases) ⟨arrivals, []⟩ w

theorem returns_talking {releases : Bool} (released : Bool) {w : World} {c : Call}
    (arrivals : List Arrival) {rc : IotError}
    (hkeeps : w.keepsTalking releases released c arrivals = true)
    (h : (w.pinged released c arrivals).1 = some rc) :
    Returns (talking releases) (api 20 c) w rc (w.pinged released c arrivals).2.2 :=
  returns_run talking_of_talkingOk hkeeps h

theorem allowsCall_talking {releases : Bool} {w : World} {c : Call} (h : c.talks = true) :
    (talking releases).allowsCall w c := by
  rintro _ ⟨⟩
  exact h

theorem releasesPingresp_talking : (talking true).ReleasesPingresp := fun _ _ _ _ h => h rfl

theorem neverInits_talking (releases : Bool) : (talking releases).NeverInits := by
  intro s params h
  cases h _ rfl

def pingrespPacket : List Arrival := packet [0xD0, 0]

/-- A client with thread support. -/
def threadedWorld : World :=
  ⟨{ blankClient with threadSupport := true }.initialized sampleInitParams, [], []⟩

def threadedConnected : World := (threadedWorld.pinged true connectCall connackPacket).2.2

/-- A PINGREQ has been sent. -/
def pingedWorld : World := (threadedConnected.pinged true (.yield 1) [.nothing]).2.2

/-- The PINGRESP has been read, and the mutex of the read could not be released. -/
def droppedWorld : World := (pingedWorld.pinged false (.yield 1) pingrespPacket).2.2

theorem atRest_pingedWorld (releases : Bool) : AtRest (talking releases) pingedWorld := by
  have hconnect : (threadedWorld.pinged true connectCall connackPacket).1 = some .success := by
    decide +kernel
  have hping : (threadedConnected.pinged true (.yield 1) [.nothing]).1 = some .success := by
    decide +kernel
  have hfresh : AtRest (talking releases) threadedWorld := .init _ _
  have hconnected : AtRest (talking releases) threadedConnected :=
    hfresh.call (allowsCall_talking rfl)
      (returns_talking _ _ (by cases releases <;> decide +kernel) hconnect)
  exact hconnected.call (allowsCall_talking rfl)
    (returns_talking _ _ (by cases releases <;> decide +kernel) hping)

/-- The PINGRESP has been read, and the mutex of the read has been released. -/
def answeredWorld : World := (pingedWorld.pinged true (.yield 1) pingrespPacket).2.2

theorem returns_answeredWorld :
    Returns (talking true) (api 20 (.yield 1)) pingedWorld .success answeredWorld :=
  returns_talking true pingrespPacket (by decide +kernel) (by decide +kernel)

theorem pings_accounted_answeredWorld :
    answeredWorld.trace.PingsSingly ∧
      (IsSettled (.ret IotError.success) →
        answeredWorld.client.isPingOutstanding = answeredWorld.trace.pingOutstanding) ∧
      ∀ fuel' call' rest, (.ret .success : M IotError) = (keepAlive fuel' call' >>= rest) →
        answeredWorld.client.keepAliveInterval ≠ 0 →
          answeredWorld.client.isPingOutstanding = answeredWorld.trace.pingOutstanding ∧
            ChecksPing (talking true) fuel' call' answeredWorld :=
  pings_accounted releasesPingresp_talking (neverInits_talking true) (atRest_pingedWorld true)
    (allowsCall_talking rfl) returns_answeredWorld

/-- The flag outlasts the answer, and the next check gives up a connection on which every ping
has been answered. -/
theorem not_accounted_droppedWorld :
    AtRest (talking false) droppedWorld ∧ droppedWorld.client.keepAliveInterval ≠ 0 ∧
      droppedWorld.client.isPingOutstanding = true ∧
      droppedWorld.trace.pingOutstanding = false ∧
      ∃ t, Returns (talking false) (api 20 (.yield 1)) droppedWorld
        .networkDisconnectedError t := by
  have hdropped : Returns (talking false) (api 20 (.yield 1)) pingedWorld .mutexUnlockError
      droppedWorld := returns_talking false pingrespPacket (by decide +kernel) (by decide +kernel)
  have hlost : Returns (talking false) (api 20 (.yield 1)) droppedWorld .networkDisconnectedError
      (droppedWorld.pinged true (.yield 1) [.nothing]).2.2 :=
    returns_talking true [.nothing] (by decide +kernel) (by decide +kernel)
  exact ⟨(atRest_pingedWorld false).call (allowsCall_talking rfl) hdropped, by decide +kernel,
    by decide +kernel, by decide +kernel, _, hlost⟩

end MqttClient
