import MqttClient.Session.Holding

/-! # Threads that take turns

Several threads use one client, each holding it for the time of a call. As long as
the threads keep the connection, and leave a client alone whose holder is in a
message handler, one of them holds it at a time, and only that one uses the
network and the buffers.
-/

namespace MqttClient

open Effect Program

/-- The threads are about to make their first calls on one idle client. -/
structure Threads.StartedIdle {ι : Type} (P : Threads ι) : Prop where
  started : P.Started
  shared : ∀ i j, (P.view i).client = (P.view j).client
  idle : ∀ i, (P.view i).client.clientState = .connectedIdle
  isAutoReconnectEnabled : ∀ i, (P.view i).client.isAutoReconnectEnabled = false

/-- One thread at a time holds the client, asks the network and works on the buffers. -/
structure Threads.TakesTurns {ι : Type} (ok : World → World → Prop) (P : Threads ι) : Prop where
  one : ∀ i j, (P.view i).Holds → (P.view j).Holds → i = j
  asks : ∀ i q k, P.prog i = .ask q k → q ≠ .application → (P.view i).Holds
  defers : ∀ i f k, P.prog i = .act f k → ok (P.view i) (f (P.view i)) → ¬ (P.view i).Holds →
    (P.view i).Defers (f (P.view i))

/-- Where no thread holds the client it is idle or disconnected. -/
def Threads.IsFree {ι : Type} (P : Threads ι) : Prop :=
  (∀ i, ¬ (P.view i).Holds) → ∀ i, (P.view i).client.clientState = .connectedIdle ∨
    (P.view i).client.clientState = .disconnectedError

namespace Exclusion

variable {α β : Type} {s t u w : World}

section Calls

variable {fuel : Nat} {call : Call → M IotError}

variable (hcall : ∀ c, c.keepsConnection = true → Keeps (call c))

include hcall

/-! ## Losing the connection -/

omit hcall in
theorem keeps_netDisconnect : Keeps netDisconnect :=
  Keeps.bind keeps_query fun _ => keeps_emit fun _ => rfl

omit hcall in
theorem keeps_netDestroy : Keeps netDestroy :=
  Keeps.bind keeps_query fun _ => Keeps.bind (keeps_emit fun _ => rfl) fun _ => sequences.pure _

omit hcall in
/-- Sending a DISCONNECT does not give the client up. -/
theorem keeps_internalDisconnect : Keeps (internalDisconnect fuel) := by
  apply sequences.serialized
  intro len
  apply sequences.bind (sequences.look World.client)
  intro c
  apply sequences.bind (sequences.plain (.countdown _ _))
  intro _
  apply sequences.bind (keeps_io (isIo_internalSendPacket _ _ _))
  intro rc
  apply sequences.onSuccess
  apply sequences.bind keeps_netDisconnect
  intro _
  apply sequences.bind keeps_netDestroy
  intro rc
  apply Sequences.ite (S := fun _ p => Keeps p)
  · exact fun _ => sequences.pure _
  · exact fun _ => sequences.pure _

omit hcall in
/-- A holder may put the client into a state in which it is busy. -/
theorem holding_put {new : ClientState} (hbusy : new ≠ .connectedIdle)
    (hpending : new ≠ .pendingReconnect) : Holding (putClientState new) :=
  fun w hw => wp_mono (fun _ _ ht => ⟨ht.1, ht.2.1⟩) (holding_putClientState hbusy hpending w hw)

omit hcall in
/-- A disconnect that the holder makes leaves it the holder. -/
theorem holding_disconnect : Holding (disconnect fuel) := by
  intro w hw
  unfold disconnect
  rw [wp_bind]
  apply wp_read hw
  intro t ht
  have htheld := hw.of_relies ht
  have hwt := hw.steady ht
  rw [wp_bind]
  apply wp_read htheld
  intro u hu
  have huheld := htheld.of_relies hu
  have htu := htheld.steady hu
  split
  next => exact ⟨huheld, hwt.1.trans htu.1⟩
  next =>
    rw [wp_bind]
    apply wp_mono _ (wp_setClientState_held .other huheld (htu.2.trans hwt.2) (by decide)
      (by decide) huheld.holds)
    rintro rc x ⟨rfl, hx, hxtrace, -⟩
    have hwx : Same w x := by
      rw [Same, hxtrace]
      exact (hwt.1.trans htu.1)
    -- the state is put back if the DISCONNECT could not be sent
    have hrest : Holding (do
        let rc ← internalDisconnect fuel
        if rc ≠ .success then
          putClientState w.client.clientState
          return rc
        else
          putClientState .disconnectedManually
          return rc) := by
      apply Holding.bind keeps_internalDisconnect.holding
      intro rc
      split
      · exact Holding.bind (holding_put hw.busy hw.settled.clientState) fun _ => holding_pure _
      · exact Holding.bind (holding_put (by decide) (by decide)) fun _ => holding_pure _
    exact wp_mono (fun _ y hy => ⟨hy.1, hwx.trans hy.2⟩) (hrest x hx)

/-- The client is disconnected in the end. -/
theorem wp_handleDisconnect {w : World} (hw : Held w) :
    wp discipline (handleDisconnect fuel call) (fun rc t => rc = .networkDisconnectedError ∧
      Held t ∧ Same w t ∧ t.client.clientState = .disconnectedError) w := by
  have hforced : Holding forceClientDisconnect := by
    refine Holding.bind (holding_put (by decide) (by decide)) fun _ => ?_
    refine Holding.bind keeps_netDisconnect.holding fun _ => ?_
    exact Holding.bind keeps_netDestroy.holding fun _ => holding_pure _
  have hhandler (handler : Option HandlerName) :
      Keeps (callDisconnectHandler fuel call handler) := by
    unfold callDisconnectHandler
    cases handler with
    | none => exact sequences.pure ()
    | some name =>
        refine Keeps.bind (keeps_framed ?_) fun _ => sequences.pure _
        exact Keeps.bind (keeps_application hcall) fun _ => sequences.pure _
  -- all that comes in front of the last change of the state
  have hfirst : Holding (do
      emit (.enter .handleDisconnect)
      let rc ← disconnect fuel
      doIf (rc ≠ .success) forceClientDisconnect
      let c ← getClient
      callDisconnectHandler fuel call c.disconnectHandler) := by
    refine Holding.bind (keeps_emit fun _ => rfl).holding fun _ => ?_
    refine Holding.bind holding_disconnect fun rc => ?_
    refine Holding.bind ?_ fun _ => Holding.bind (sequences.look World.client).holding
      fun c => (hhandler _).holding
    unfold doIf
    split
    · exact hforced
    · exact holding_pure _
  have hbody := hfirst w hw
  simp only [handleDisconnect, framed, wp_bind] at hbody ⊢
  apply wp_mono _ hbody
  intro _ t ht
  apply wp_mono _ ht
  intro rc u hu
  apply wp_mono _ hu
  intro _ v hv
  apply wp_mono _ hv
  intro c x hx
  apply wp_mono _ hx
  rintro _ y ⟨hy, hwy⟩
  apply wp_mono _ (holding_putClientState (by decide) (by decide) y hy)
  rintro _ z ⟨hz, hyz, hzstate⟩
  have hleave : wp discipline (emit (.leave .handleDisconnect .networkDisconnectedError)) _ z :=
    keeps_emit (fun _ => rfl) z hz
  apply wp_mono _ hleave
  rintro _ z' ⟨hz', hzz'⟩
  exact ⟨rfl, hz', (hwy.trans hyz).trans hzz'.1, hzz'.2.trans hzstate⟩

/-! ## Yielding -/

/-- What a part of a yield has done to the client that answers `rc`: it is disconnected, or
as it was. -/
structure Yielded (w : World) (rc : IotError) (t : World) : Prop where
  held : Held t
  same : Same w t
  lost : rc = .networkDisconnectedError → t.client.clientState = .disconnectedError
  kept : rc ≠ .networkDisconnectedError → t.client.clientState = w.client.clientState
  plain : rc ≠ .networkAttemptingReconnect

omit hcall in
/-- A code that is no verdict comes with the client as it was. -/
theorem yielded_of_steady {w t : World} {rc : IotError} (ht : Held t) (hwt : Steady w t)
    (hrc : rc.isVerdict = false) : Yielded w rc t where
  held := ht
  same := hwt.1
  lost heq := by
    rw [heq] at hrc
    cases hrc
  kept _ := hwt.2
  plain heq := by
    rw [heq] at hrc
    cases hrc

omit hcall in
theorem Yielded.of_steady {w t u : World} {rc : IotError} (h : Yielded t rc u) (hwt : Steady w t) :
    Yielded w rc u where
  held := h.held
  same := hwt.1.trans h.same
  lost := h.lost
  kept hrc := (h.kept hrc).trans hwt.2
  plain := h.plain

/-- A lost connection that has been handled is one of the ends of a yield. -/
theorem wp_handleDisconnect_yielded {w : World} (hw : Held w) :
    wp discipline (handleDisconnect fuel call) (Yielded w) w := by
  apply wp_mono _ (wp_handleDisconnect hcall hw)
  rintro rc t ⟨rfl, ht, hsame, hstate⟩
  exact ⟨ht, hsame, fun _ => hstate, fun hno => absurd rfl hno, by decide⟩

/-- The keep-alive check ends plainly, or with the connection lost. -/
theorem wp_keepAlive {w : World} (hw : Held w) :
    wp discipline (keepAlive fuel call) (Yielded w) w := by
  -- where a ping stays unanswered, or cannot be sent
  have hdisconnect {t : World} (ht : Held t) (hwt : Steady w t) :
      wp discipline (handleDisconnect fuel call) (Yielded w) t :=
    wp_mono (fun _ _ hu => hu.of_steady hwt) (wp_handleDisconnect_yielded hcall ht)
  apply wp_bind_keeps (sequences.look World.client) hw (.refl w)
  intro c t ht hwt
  split
  next => exact yielded_of_steady ht hwt rfl
  next =>
    apply wp_bind_keeps (sequences.plain (.hasTimerExpired .ping)) ht hwt
    intro expired t ht hwt
    split
    next => exact yielded_of_steady ht hwt rfl
    next =>
      apply wp_bind_keeps (sequences.look World.client) ht hwt
      intro c' t ht hwt
      split
      next => exact hdisconnect ht hwt
      next =>
        apply wp_bind_keeps (sequences.plain (.countdown .command _)) ht hwt
        intro _ t ht hwt
        apply wp_bind_keeps (sequences.look World.client) ht hwt
        intro c'' t ht hwt
        split
        next rc hrc =>
          exact yielded_of_steady ht hwt
            (Outcomes.isVerdict_of_isOwnError (reportsErrors_serializeZero _ _ rc hrc))
        next packet _ =>
          refine wp_bind_modifyClient ?_ ?_ ht hwt ?_
          · exact fun _ => rfl
          · exact fun _ => rfl
          intro t ht hwt
          apply wp_bind_keeps (keeps_io (isIo_internalSendPacket fuel _ .command)) ht hwt
          intro rc t ht hwt
          split
          next => exact hdisconnect ht hwt
          next =>
            refine wp_bind_modifyClient ?_ ?_ ht hwt ?_
            · exact fun _ => rfl
            · exact fun _ => rfl
            intro t ht hwt
            apply wp_bind_keeps (sequences.plain (.countdown .ping _)) ht hwt
            exact fun _ t ht hwt => yielded_of_steady ht hwt rfl

theorem wp_afterCycleRead {w t : World} {rc : IotError} (ht : Held t) (hwt : Steady w t)
    (hrc : rc.isVerdict = false) :
    wp discipline (afterCycleRead fuel call rc) (Yielded w) t := by
  unfold afterCycleRead
  split
  next => exact wp_mono (fun _ _ hu => hu.of_steady hwt) (wp_keepAlive hcall ht)
  next =>
    split
    next => exact wp_mono (fun _ _ hu => hu.of_steady hwt) (wp_handleDisconnect_yielded hcall ht)
    next => exact yielded_of_steady ht hwt hrc

omit hcall in
/-- Where there is no reconnecting a lost connection ends the yield. -/
theorem wp_connectionLost {w t : World} (ht : Held t) (hwt : Same w t)
    (hstate : t.client.clientState = .disconnectedError) :
    wp discipline connectionLost (fun r u => r = .inr .networkDisconnectedError ∧
      Yielded w .networkDisconnectedError u) t := by
  unfold connectionLost
  refine wp_bind_modifyClient ?_ ?_ ht (.refl t) ?_
  · exact fun _ => rfl
  · exact fun _ => rfl
  intro u hu htu
  rw [wp_bind]
  apply wp_read hu
  intro x hx
  have hxheld := hu.of_relies hx
  have htx := htu.trans (hu.steady hx)
  rw [hu.settled.isAutoReconnectEnabled]
  refine ⟨rfl, hxheld, hwt.trans htx.1, fun _ => htx.2.trans hstate, fun hno => absurd rfl hno, ?_⟩
  decide

/-- A turn of a yield: the state is as it was if it goes on. -/
theorem wp_yieldCycle {w t : World} (ht : Held t) (hwt : Steady w t) :
    wp discipline (yieldCycle fuel call) (fun r u => Sum.elim
      (fun rc => Yielded w rc u ∧ rc ≠ .networkDisconnectedError)
      (fun rc => Yielded w rc u) r) t := by
  unfold yieldCycle
  rw [wp_bind]
  apply wp_read ht
  intro u hu
  have huheld := ht.of_relies hu
  have hwu := hwt.trans (ht.steady hu)
  rw [if_neg ht.settled.clientState, wp_bind]
  have hread := (plain_internalCycleRead fuel call .yield).wp_and (fun _ _ _ h => h)
    (keeps_internalCycleRead hcall .yield u huheld)
  apply wp_mono _ hread
  rintro ⟨rc, packetType⟩ x ⟨⟨hx, hux⟩, hrc⟩
  rw [wp_bind]
  apply wp_mono _ (wp_afterCycleRead hcall hx (hwu.trans hux) hrc)
  intro yieldRc y hy
  split
  next heq =>
    subst heq
    apply wp_mono _ (wp_connectionLost hy.held hy.same (hy.lost rfl))
    rintro r z ⟨rfl, hz⟩
    exact hz
  next hne =>
    split
    next => exact hy
    next => exact ⟨hy, hne⟩

/-- So does the loop of a yield. -/
theorem wp_internalYield {w : World} (hw : Held w) :
    wp discipline (internalYield fuel call) (Yielded w) w := by
  unfold internalYield
  refine wp_loop (D := discipline) (I := fun _ t => Held t ∧ Steady w t)
    (fun _ _ _ => trivial) ?_ fuel IotError.success w ⟨hw, .refl w⟩
  rintro _ t ⟨ht, hwt⟩
  rw [wp_bind]
  apply wp_mono _ (wp_yieldCycle hcall ht hwt)
  intro r u hu
  cases r with
  | inr rc => exact hu
  | inl rc =>
      obtain ⟨hu, hne⟩ := hu
      apply wp_bind_keeps (sequences.plain (.hasTimerExpired .yield)) hu.held (.refl u)
      intro expired x hx hux
      split
      next =>
        exact ⟨hx, hu.same.trans hux.1, fun heq => absurd heq hne,
          fun hrc => hux.2.trans (hu.kept hrc), hu.plain⟩
      next => exact ⟨hx, hu.same.trans hux.1, hux.2.trans (hu.kept hne)⟩

end Calls

/-! ## Claiming the client -/

/-- The program starts and ends without the client. -/
def Frees (p : M α) : Prop := ∀ w, Free w → wp discipline p (fun _ t => Free t) w

theorem frees_pure (a : α) : Frees (pure a : M α) := fun _ hw => hw

theorem Frees.bind {p : M α} {g : α → M β} (hp : Frees p) (hg : ∀ a, Frees (g a)) :
    Frees (p >>= g) := by
  intro w hw
  rw [wp_bind]
  exact wp_mono (fun a t ht => hg a t ht) (hp w hw)

theorem Frees.ite {b : Prop} [Decidable b] {p q : M α} (hp : b → Frees p) (hq : ¬ b → Frees q) :
    Frees (if b then p else q) := by
  split
  next hb => exact hp hb
  next hb => exact hq hb

/-- A step that neither claims the client nor works on its buffers. -/
theorem frees_act {v : World → α} {f : World → World} (hclaims : ∀ w, Same w (f w))
    (hwork : ∀ w : World, w.client.SameWork (f w).client)
    (hstate : ∀ w : World, (f w).client.clientState = w.client.clientState)
    (hauto : ∀ w : World, w.client.isAutoReconnectEnabled = false →
      (f w).client.isAutoReconnectEnabled = false) : Frees (Program.atomically v f) := by
  intro w hw _
  have hnext : Free (f w) := by
    refine ⟨(hclaims w).claims hw.claims, hauto w hw.settled.isAutoReconnectEnabled, ?_⟩
    rw [hstate w]
    exact hw.settled.clientState
  exact ⟨hw.respects hnext (hwork w) (hstate w), fun t ht => hnext.of_relies ht⟩

/-- A thread that does not hold the client may look at it. -/
theorem wp_read_free {v : World → α} {Φ : α → World → Prop} (hw : Free w)
    (hΦ : ∀ t, Relies w t → Φ (v w) t) : wp discipline (Program.atomically v id) Φ w :=
  fun _ => ⟨hw.respects hw (sameWork_refl w.client) rfl, hΦ⟩

theorem frees_read {v : World → α} : Frees (Program.atomically v id) :=
  frees_act (fun _ => rfl) (fun w => sameWork_refl w.client) (fun _ => rfl) fun _ h => h

/-- It may log what is no claim. -/
theorem frees_emit {e : Event} (he : ∀ t : Trace, Trace.claims (e :: t) = t.claims) :
    Frees (emit e) :=
  frees_act (fun w => he w.trace) (fun w => sameWork_refl w.client) (fun _ => rfl) fun _ h => h

theorem frees_framed {f : Frame} {body : M IotError} (hbody : Frees body) :
    Frees (framed f body) := by
  refine Frees.bind (frees_emit fun _ => rfl) fun _ => Frees.bind hbody fun rc => ?_
  exact Frees.bind (frees_emit fun _ => rfl) fun _ => frees_pure rc

/-- A change of the settings. -/
theorem frees_modified {f : Client → Client} (hwork : ∀ c : Client, c.SameWork (f c))
    (hstate : ∀ c, (f c).clientState = c.clientState)
    (hauto : ∀ c, c.isAutoReconnectEnabled = false → (f c).isAutoReconnectEnabled = false)
    (a : α) : Frees (modifyClient f >>= fun _ => pure a) :=
  Frees.bind (frees_act (fun _ => rfl) (fun w => hwork w.client) (fun w => hstate w.client)
    fun w => hauto w.client) fun _ => frees_pure a

/-- A claim is granted to a thread that does not hold the client when the client is idle. -/
theorem wp_claim {expected new : ClientState} {w : World} (hw : Free w)
    (hexpected : expected = .connectedIdle ∨ expected = .connectedWaitForCbReturn)
    (hbusy : new ≠ .connectedIdle) (hpending : new ≠ .pendingReconnect) :
    wp discipline (setClientState .claim expected new) (fun rc t =>
      (rc = .success ∧ expected = .connectedIdle ∧ Held t ∧ t.trace.claims = 1 ∧
        t.client.clientState = new) ∨ (rc ≠ .success ∧ Free t)) w := by
  intro hmay
  simp only at hmay ⊢
  split
  next hstate =>
    rw [if_pos hstate] at hmay
    -- only who holds the client takes it out of the state of a callback
    have hidle : expected = .connectedIdle := by
      rcases hexpected with hidle | hwait
      · exact hidle
      · subst hwait
        exact absurd (hmay.claims new rfl) hw.not_holds
    have hclaims : (w.granted .claim expected new).trace.claims = 1 :=
      congrArg (· + 1) hw.claims
    have hheld : Held (w.granted .claim expected new) :=
      ⟨Nat.lt_of_lt_of_eq Nat.one_pos hclaims.symm, hbusy, hw.settled.isAutoReconnectEnabled,
        hpending⟩
    constructor
    · exact {
        settled := fun _ => hheld.settled
        defers := fun _ => ⟨⟨rfl, rfl, rfl, rfl, rfl⟩, fun hno => absurd hheld.holds hno,
          fun _ => hstate.trans hidle⟩
        busy := fun _ => hbusy
        released := fun hholds => absurd hholds hw.not_holds }
    · exact fun t ht => .inl ⟨rfl, hidle, hheld.of_relies ht, ht.same.claims hclaims,
        ht.clientState hheld.holds⟩
  next =>
    have hfree : Free (w.refused .claim expected new) := ⟨hw.claims, hw.settled⟩
    exact ⟨hw.respects hfree (sameWork_refl w.client) rfl, fun t ht =>
      .inr ⟨by decide, hfree.of_relies ht⟩⟩

/-- A claim that was refused is rolled back in vain. -/
theorem frees_rollback (expected new : ClientState) :
    Frees (setClientState .rollback expected new) := by
  intro w hw hmay
  simp only at hmay ⊢
  split at hmay
  next => exact absurd rfl (hmay.rollsBack expected new)
  next hstate =>
    rw [if_neg hstate]
    have hfree : Free (w.refused .rollback expected new) := ⟨hw.claims, hw.settled⟩
    exact ⟨hw.respects hfree (sameWork_refl w.client) rfl, fun t ht => hfree.of_relies ht⟩

/-- A step by which the client is given back. -/
theorem Held.respects_free (hs : Held s) (ht : Free t)
    (hstate : t.client.clientState = .connectedIdle ∨ t.client.clientState = .disconnectedError) :
    Respects s t where
  settled _ := ht.settled
  defers hno := absurd hs.holds hno
  busy hholds := absurd hholds ht.not_holds
  released _ _ := hstate

/-- Who holds the client once gives it back with the release. -/
theorem wp_release {expected : ClientState} {w : World} (hw : Held w) (hclaims : w.trace.claims = 1)
    (hstate : w.client.clientState = expected) :
    wp discipline (setClientState .release expected .connectedIdle) (fun _ t => Free t) w := by
  intro _
  simp only [if_pos hstate]
  have hfree : Free (w.granted .release expected .connectedIdle) :=
    ⟨congrArg (· - 1) hclaims, hw.settled.isAutoReconnectEnabled, ClientState.noConfusion⟩
  exact ⟨hw.respects_free hfree (.inl rfl), fun t ht => hfree.of_relies ht⟩

/-- The claim of a client that is disconnected ends. -/
theorem wp_relinquish {w : World} (hw : Held w) (hclaims : w.trace.claims = 1)
    (hstate : w.client.clientState = .disconnectedError) :
    wp discipline (emit .relinquished) (fun _ t => Free t) w := by
  intro _
  have hfree : Free (w.log .relinquished) := ⟨congrArg (· - 1) hclaims, hw.settled⟩
  exact ⟨hw.respects_free hfree (.inr hstate), fun t ht => hfree.of_relies ht⟩

/-- An exchange begins and ends with the client free, if its body keeps hold of it. -/
theorem frees_exclusively {inProgress : ClientState} {body : M IotError}
    {onRefused : ClientState → IotError → M IotError} (hbody : Keeps body)
    (hbusy : inProgress ≠ .connectedIdle) (hpending : inProgress ≠ .pendingReconnect)
    (hrefused : ∀ clientState rc, Frees (onRefused clientState rc)) :
    Frees (exclusively inProgress body onRefused) := by
  apply frees_read.bind
  intro connected
  apply Frees.ite (fun _ => frees_pure _)
  intro _
  apply frees_read.bind
  intro clientState
  apply Frees.ite (fun _ => frees_pure _)
  intro hclaimable w hw
  have hexpected : clientState = .connectedIdle ∨ clientState = .connectedWaitForCbReturn := by
    rw [not_and_or, not_not, not_not] at hclaimable
    exact hclaimable
  rw [wp_bind]
  apply wp_mono _ (wp_claim hw hexpected hbusy hpending)
  rintro rc t (⟨rfl, rfl, ht, hclaims, hstate⟩ | ⟨hrc, ht⟩)
  · rw [if_neg (not_not.mpr rfl), wp_bind]
    apply wp_mono _ (hbody t ht)
    rintro bodyRc u ⟨hu, htu⟩
    rw [wp_bind]
    apply wp_mono _ (wp_release hu (htu.1.claims hclaims) (htu.2.trans hstate))
    exact fun _ v hv => hv
  · rw [if_pos hrc]
    exact hrefused clientState rc t ht

section Calls

variable {fuel : Nat} {call : Call → M IotError}

theorem frees_application (hcall : ∀ c, c.keepsConnection = true → Frees (call c)) :
    Frees (application fuel call) := by
  intro w hw
  refine wp_loop (D := discipline) (I := fun _ t => Free t) (fun _ _ _ => trivial) ?_ fuel () w hw
  intro _ t ht
  refine ⟨fun hno => absurd rfl hno, fun next hnext u hu => ?_⟩
  have hnext' : ∀ c, next = some c → c.keepsConnection = true := hnext
  cases next with
  | none => exact ht.of_relies hu
  | some c =>
      change wp discipline (call c >>= fun _ => pure (Sum.inl ())) _ u
      rw [wp_bind]
      exact wp_mono (fun _ x hx => hx) (hcall c (hnext' c rfl) u (ht.of_relies hu))

variable (hcall : ∀ c, c.keepsConnection = true → Keeps (call c))

include hcall

/-- A resubscribe gives back what it has claimed. -/
theorem frees_resubscribe : Frees (resubscribe fuel call) := by
  apply frees_read.bind
  intro connected
  apply Frees.ite (fun _ => frees_pure _)
  intro _
  apply frees_read.bind
  intro clientState
  apply Frees.ite (fun _ => frees_pure _)
  intro _ w hw
  rw [wp_bind]
  apply wp_mono _ (wp_claim hw (.inl rfl) (by decide) (by decide))
  rintro rc t (⟨rfl, -, ht, hclaims, hstate⟩ | ⟨hrc, ht⟩)
  · rw [onSuccess, if_pos rfl, wp_bind]
    apply wp_mono _ ((keeps_composes hcall).internalResubscribe t ht)
    rintro resubRc u ⟨hu, htu⟩
    rw [wp_bind]
    apply wp_mono _ (wp_release hu (htu.1.claims hclaims) (htu.2.trans hstate))
    exact fun _ v hv => hv
  · rw [onSuccess, if_neg hrc]
    exact ht

/-- The client is given back as it was claimed, or it is disconnected. -/
theorem wp_yieldClaimed {w : World} (hw : Held w) (hclaims : w.trace.claims = 1)
    (hstate : w.client.clientState = .connectedYieldInProgress) :
    wp discipline (yieldClaimed fuel call .release) (fun _ t => Free t) w := by
  unfold yieldClaimed
  rw [wp_bind]
  apply wp_mono _ (wp_internalYield hcall hw)
  intro yieldRc t ht
  split
  next hrc =>
    rw [wp_bind]
    apply wp_mono _ (wp_release ht.held (ht.same.claims hclaims) ((ht.kept hrc.1).trans hstate))
    exact fun _ u hu => hu
  next hrc =>
    have hlost : yieldRc = .networkDisconnectedError := by
      by_contra hne
      exact hrc ⟨hne, ht.plain⟩
    rw [wp_bind]
    apply wp_mono _ (wp_relinquish ht.held (ht.same.claims hclaims) (ht.lost hlost))
    exact fun _ u hu => hu

/-- So does a yield. -/
theorem frees_yield (timeoutMs : UInt32) : Frees (yield fuel call timeoutMs) := by
  apply Frees.ite (fun _ => frees_pure _)
  intro _ w hw
  rw [wp_bind]
  apply wp_read_free hw
  intro t ht
  have htfree := hw.of_relies ht
  split
  next => exact htfree
  next =>
    rw [if_neg hw.settled.clientState]
    refine frees_read.bind (fun connected => ?_) t htfree
    apply Frees.ite (fun _ => frees_pure _)
    intro _
    apply Frees.ite (fun _ => frees_pure _)
    intro _ u hu
    rw [wp_bind]
    apply wp_mono _ (wp_claim hu (.inl rfl) (by decide) (by decide))
    rintro rc x (⟨rfl, -, hx, hclaims, hstate⟩ | ⟨hrc, hx⟩)
    · rw [onSuccess, if_pos rfl, wp_bind]
      apply wp_mono _ (sequences.plain (.countdown .yield timeoutMs) x hx)
      rintro _ y ⟨hy, hxy⟩
      exact wp_yieldClaimed hcall hy (hxy.1.claims hclaims) (hxy.2.trans hstate)
    · rw [onSuccess, if_neg hrc]
      exact hx

/-- A call made by a thread that does not hold the client. -/
theorem frees_perform {c : Call} (hc : c.keepsConnection = true) : Frees (perform fuel call c) := by
  have hcomposes : Composes fuel call (Keeps · : M IotError → Prop) := keeps_composes hcall
  cases c with
  | publish topicName topicNameLen params =>
      change Frees (publish fuel call topicName topicNameLen params)
      unfold publish
      split
      · apply Frees.ite (fun _ => frees_pure _)
        exact fun _ => frees_exclusively (hcomposes.internalPublish _ _ _) (by decide) (by decide)
          fun _ _ => frees_pure _
      · exact frees_pure _
  | subscribe topicName topicNameLen qos handler data =>
      change Frees (subscribe fuel call topicName topicNameLen qos handler data)
      unfold subscribe
      split
      · refine frees_exclusively (hcomposes.internalSubscribe _ _ _ _ _ ?_) (by decide) (by decide)
          fun _ _ => frees_pure _
        intro slot len handler
        apply keeps_framed
        apply hcomposes.requestSubscription
        refine keeps_modified ?_ ?_ _
        · exact fun _ => ⟨rfl, rfl⟩
        · exact fun _ => rfl
      · exact frees_pure _
  | unsubscribe topicFilter topicFilterLen =>
      change Frees (unsubscribe fuel call topicFilter topicFilterLen)
      unfold unsubscribe
      split
      · exact frees_pure _
      · refine frees_exclusively (hcomposes.internalUnsubscribe _ _ ?_) (by decide) (by decide)
          fun _ _ => frees_rollback _ _
        refine keeps_modified ?_ ?_ _
        · exact fun _ => ⟨rfl, rfl⟩
        · exact fun _ => rfl
  | resubscribe => exact frees_resubscribe hcall
  | yield timeoutMs => exact frees_yield hcall timeoutMs
  | autoreconnectSetStatus newStatus =>
      cases newStatus with
      | true => cases hc
      | false =>
          refine frees_modified ?_ ?_ ?_ _
          · exact fun _ => ⟨rfl, rfl, rfl, rfl, rfl⟩
          · exact fun _ => rfl
          · exact fun _ _ => rfl
  | setDisconnectHandler handler =>
      cases handler with
      | none => exact frees_pure _
      | some handler =>
          refine frees_modified ?_ ?_ ?_ _
          · exact fun _ => ⟨rfl, rfl, rfl, rfl, rfl⟩
          · exact fun _ => rfl
          · exact fun _ h => h
  | setConnectParams params =>
      cases params with
      | none => exact frees_pure _
      | some params =>
          refine frees_modified ?_ ?_ ?_ _
          · exact fun _ => ⟨rfl, rfl, rfl, rfl, rfl⟩
          · exact fun _ => rfl
          · exact fun _ h => h
  | resetNetworkDisconnectedCount =>
      refine frees_modified ?_ ?_ ?_ _
      · exact fun _ => ⟨rfl, rfl, rfl, rfl, rfl⟩
      · exact fun _ => rfl
      · exact fun _ h => h
  | init | connect | disconnect | attemptReconnect => cases hc

end Calls

/-! ## Runs -/

/-- A call made while the client is held, and one made without it. -/
theorem keeps_api (fuel : Nat) {c : Call} (hc : c.keepsConnection = true) : Keeps (api fuel c) := by
  induction fuel generalizing c with
  | zero => exact fun _ _ => trivial
  | succ fuel ih => exact keeps_framed (keeps_perform (fun _ => ih) hc)

/-- So does every operation that keeps the connection, at any depth. -/
theorem frees_api (fuel : Nat) {c : Call} (hc : c.keepsConnection = true) : Frees (api fuel c) := by
  cases fuel with
  | zero => exact fun _ _ => trivial
  | succ fuel => exact frees_framed (frees_perform (fun _ => keeps_api fuel) hc)

/-- What holds of the views of all threads: they see one client, which at most one of them
holds. -/
structure Shared {ι : Type} (view : ι → World) : Prop where
  client : ∀ i j, (view i).client = (view j).client
  one : ∀ i j, (view i).Holds → (view j).Holds → i = j
  busy : ∀ i, (view i).Holds → (view i).client.clientState ≠ .connectedIdle
  free : (∀ i, ¬ (view i).Holds) → ∀ i, (view i).client.clientState = .connectedIdle ∨
    (view i).client.clientState = .disconnectedError
  settled : ∀ i, Settled (view i).client

variable {ι : Type}

/-- While one thread holds the client, no step of another changes its state. -/
theorem Shared.relies {view : ι → World} (h : Shared view) {i j : ι} {t : World}
    (hguar : Respects (view i) t) (hne : j ≠ i) : Relies (view j) (World.adopt t (view j)) where
  messages := rfl
  trace := rfl
  settled _ := hguar.settled (h.settled i)
  clientState hj := by
    have hi : ¬ (view i).Holds := fun hi => hne (h.one j i hj hi)
    have ht : ¬ t.Holds := by
      intro ht
      apply h.busy j hj
      rw [h.client j i]
      exact (hguar.defers hi).claimed ht
    exact ((hguar.defers hi).kept ht).trans (congrArg Client.clientState (h.client i j))

/-- One step of one thread leaves at most one holder. -/
theorem Shared.step [DecidableEq ι] {view : ι → World} (h : Shared view) {i : ι} {t : World}
    (hguar : Respects (view i) t) : Shared (spread World.adopt view i t) := by
  have hclient (j : ι) : (spread World.adopt view i t j).client = t.client := by
    unfold spread
    split
    next => rfl
    next => rfl
  have hother {j : ι} (hne : j ≠ i) :
      (spread World.adopt view i t j).Holds ↔ (view j).Holds := by
    rw [spread_of_ne World.adopt view t hne]
    exact Iff.rfl
  have hown : (spread World.adopt view i t i).Holds ↔ t.Holds := by
    rw [spread_self]
  -- the others hold the client only if `i` does not
  have halone {j : ι} (hne : j ≠ i) (hj : (view j).Holds) : ¬ t.Holds := by
    intro ht
    have hi : ¬ (view i).Holds := fun hi => hne (h.one j i hj hi)
    apply h.busy j hj
    rw [h.client j i]
    exact (hguar.defers hi).claimed ht
  constructor
  · exact fun j k => (hclient j).trans (hclient k).symm
  · intro j k hj hk
    by_cases hji : j = i
    · subst hji
      by_contra hne
      exact halone (fun hkj => hne hkj.symm) ((hother fun hkj => hne hkj.symm).mp hk) (hown.mp hj)
    · have hj' := (hother hji).mp hj
      by_cases hki : k = i
      · subst hki
        exact absurd (hown.mp hk) (halone hji hj')
      · exact h.one j k hj' ((hother hki).mp hk)
  · intro j hj
    rw [hclient j]
    by_cases hji : j = i
    · subst hji
      exact hguar.busy (hown.mp hj)
    · have hj' := (hother hji).mp hj
      have hsame := (h.relies hguar hji).clientState hj'
      change t.client.clientState = _ at hsame
      rw [hsame]
      exact h.busy j hj'
  · intro hnone j
    rw [hclient j]
    have ht : ¬ t.Holds := fun ht => hnone i (hown.mpr ht)
    by_cases hi : (view i).Holds
    · exact hguar.released hi ht
    · rw [(hguar.defers hi).kept ht]
      apply h.free
      intro k hk
      by_cases hki : k = i
      · subst hki
        exact hi hk
      · exact hnone k ((hother hki).mpr hk)
  · intro j
    rw [hclient j]
    exact hguar.settled (h.settled i)

/-- Idle threads share the client. -/
theorem shared_of_startedIdle {P : Threads ι} (h : P.StartedIdle) : Shared P.view where
  client := h.shared
  one i j hi := by
    rw [World.Holds, (h.started i).2] at hi
    exact absurd hi (Nat.lt_irrefl 0)
  busy i hi := by
    rw [World.Holds, (h.started i).2] at hi
    exact absurd hi (Nat.lt_irrefl 0)
  free _ i := .inl (h.idle i)
  settled i := ⟨h.isAutoReconnectEnabled i, by rw [h.idle i]; decide⟩

/-- In a run the views stay shared, and every thread goes on as it has to. -/
theorem shared_of_steps [DecidableEq ι] {P P' : Threads ι} (hstart : P.StartedIdle)
    (hsteps : Pool.Steps World.adopt (fun q _ a => q.keepsConnection a)
      (fun view i w => (view i).Waits w) P P') :
    Shared P'.view ∧ ∀ i, wp discipline (P'.prog i) (fun _ w => Free w) (P'.view i) := by
  have hwp (i : ι) : Stable discipline (P.prog i) (fun _ w => Free w) (P.view i) := by
    intro w hw
    obtain ⟨⟨fuel, hprog⟩, htrace⟩ := hstart.started i
    rw [hprog]
    apply frees_application (fun _ => frees_api fuel) w
    refine Free.of_relies ⟨?_, (shared_of_startedIdle hstart).settled i⟩ hw
    rw [htrace]
    rfl
  have hrun := Pool.Steps.rely_guarantee (D := discipline) Relies.refl
    (fun _ _ _ h h' => h.trans h') (fun _ _ _ _ h => h)
    (fun _ _ _ hview _ hguar => ⟨hview.step hguar, fun _ hne => hview.relies hguar hne⟩)
    (shared_of_startedIdle hstart) hwp hsteps
  exact ⟨hrun.1, fun i => hrun.2 i _ (Relies.refl _)⟩

end Exclusion

variable {ι : Type} [DecidableEq ι] {P P' : Threads ι}

/-- In every run of threads that keep the connection, and that leave a client alone whose
holder is in a message handler, at most one thread holds the client, and only that one asks
the network and works on the buffers. -/
theorem takesTurns_of_steps (hstart : P.StartedIdle)
    (hsteps : Pool.Steps World.adopt (fun q _ a => q.keepsConnection a)
      (fun view i w => (view i).Waits w) P P') : P'.TakesTurns World.Waits := by
  obtain ⟨hshared, hwp⟩ := Exclusion.shared_of_steps hstart hsteps
  constructor
  · exact hshared.one
  · intro i q k hprog hq
    have hask := hwp i
    rw [hprog] at hask
    exact hask.1 hq
  · intro i f k hprog hmay hno
    have hact := hwp i
    rw [hprog] at hact
    have hguar := (hact hmay).1
    exact hguar.defers hno

/-- The last thing on record is neither a claim of a client whose holder is in a message
handler nor a refused claim that has been rolled back. -/
def Trace.isPatient : Trace → Bool
  | .setState .claim .connectedWaitForCbReturn _ true :: _ => false
  | .setState .rollback _ _ true :: _ => false
  | _ => true

theorem waits_of_isPatient {w w' : World} (h : w'.trace.isPatient = true) : w.Waits w' := by
  constructor
  · rintro new rfl
    cases h
  · rintro expected new rfl
    cases h

theorem keepsConnection_answerCalling {c : Call} (hc : c.keepsConnection = true) (q : Query) :
    q.keepsConnection (answerCalling c q) := by
  cases q with
  | netRead site n =>
      change (Script.read ⟨[], []⟩ n).1.rc.isVerdict = false
      simp only [Script.read, Script.leadingBytes, List.take_nil, List.drop_nil]
      split
      · rfl
      · rfl
  | application =>
      intro c' hc'
      cases hc'
      exact hc
  | _ => trivial

theorem startedIdle_twoThreads : twoThreads.StartedIdle where
  started := started_twoThreads
  shared _ _ := rfl
  idle _ := by
    change subscribedWorld.client.clientState = .connectedIdle
    decide +kernel
  isAutoReconnectEnabled _ := by
    change subscribedWorld.client.isAutoReconnectEnabled = false
    decide +kernel

theorem steps_patient {c : Call} (hc : c.keepsConnection = true) (turns : List Bool)
    (h : twoThreads.turnsIn World.adopt (answerCalling c) (·.trace.isPatient) turns = true) :
    Pool.Steps World.adopt (fun q _ a => q.keepsConnection a) (fun view i w => (view i).Waits w)
      twoThreads (turns.foldl (Pool.turn World.adopt (answerCalling c)) twoThreads) :=
  Pool.steps_turns (fun q _ => keepsConnection_answerCalling hc q)
    (fun _ _ _ => waits_of_isPatient) turns h

/-- Two threads publish at once: the second holds the client. -/
theorem takesTurns_of_steps_claimedTwice :
    ((claimedTwice publishCall).view true).Holds ∧
      (claimedTwice publishCall).TakesTurns World.Waits :=
  ⟨by decide +kernel, takesTurns_of_steps startedIdle_twoThreads
    (steps_patient rfl claimTurns (by decide +kernel))⟩

/-- In such a run a client that no thread holds is idle, or it has been disconnected. -/
theorem isFree_of_steps (hstart : P.StartedIdle)
    (hsteps : Pool.Steps World.adopt (fun q _ a => q.keepsConnection a)
      (fun view i w => (view i).Waits w) P P') : P'.IsFree :=
  (Exclusion.shared_of_steps hstart hsteps).1.free

/-- A message that is not to be acknowledged. -/
def unacknowledgedCall : Call :=
  .publish (some [98]) 1 (some (.own ⟨qos0, 0, 0, 0, some [33], 1⟩))

/-- The second thread goes on until it has given the client back. -/
def claimedOnce : Threads Bool :=
  (claimTurns ++ List.replicate 14 true).foldl
    (Pool.turn World.adopt (answerCalling unacknowledgedCall)) twoThreads

theorem isFree_of_steps_claimedOnce :
    (¬ ∃ i, (claimedOnce.view i).Holds) ∧ claimedOnce.IsFree :=
  ⟨by decide +kernel, isFree_of_steps startedIdle_twoThreads
    (steps_patient rfl (claimTurns ++ List.replicate 14 true) (by decide +kernel))⟩

end MqttClient
