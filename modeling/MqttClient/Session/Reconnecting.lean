import MqttClient.Client.Codes
import MqttClient.Session.Nesting
import MqttClient.Session.Records

/-! # The pace of reconnecting

A yield that has lost the connection tries again after an interval that it
doubles each time, and gives up when the interval has become too long. A manual
attempt joins in where it fails, with the interval that it finds. The pace is
kept if that is an interval of a lost connection.
-/

namespace MqttClient

open Effect Program

/-- The minimal interval, doubled at most eight times. -/
def isReconnectInterval (interval : UInt32) : Bool :=
  (List.range 9).any fun k => interval.toNat = minReconnectWaitInterval.toNat * 2 ^ k

def Frame.isYield : Frame → Bool
  | .call (.yield _) => true
  | _ => false

/-- The frame in which a yield tries to reconnect. -/
def Frame.retries : Frame → Bool
  | .handleReconnect => true
  | _ => false

/-- The frames in which an attempt to reconnect is made. -/
def Frame.reconnects : Frame → Bool
  | .handleReconnect | .call .attemptReconnect => true
  | _ => false

/-- Frames that say nothing about the pace. -/
def Frame.isEven : Frame → Bool
  | .connecting | .handleReconnect => false
  | _ => true

/-- The connects that yields have made since the connection was lost, or since
one of them succeeded. -/
def Trace.attempts : Trace → Nat
  | [] => 0
  | .enter .connecting :: t =>
      if (stack t).head?.any Frame.retries = true then attempts t + 1 else attempts t
  | .setState .other .disconnectedError .pendingReconnect true :: t =>
      if (stack t).head?.any Frame.isYield = true then 0 else attempts t
  | .setState .other .connectedIdle .connectedYieldInProgress true :: _ => 0
  | _ :: t => attempts t

/-- A reconnect is awaited with one of the intervals of a lost connection. -/
def World.WaitsInPace (w : World) : Prop :=
  w.client.clientState = .pendingReconnect →
    ∃ k ≤ 8, w.client.currentReconnectWaitInterval.toNat = minReconnectWaitInterval.toNat * 2 ^ k

/-- A step that begins to wait for a reconnect is taken with auto-reconnect enabled. -/
def World.EntersEnabled (s t : World) : Prop :=
  s.client.clientState ≠ .pendingReconnect → t.client.clientState = .pendingReconnect →
    t.client.isAutoReconnectEnabled = true

/-- A yield has changed the state of a lost connection, and sets the interval next. -/
def World.beginsToWait (w : World) : Bool :=
  match w.trace with
  | .setState .other .disconnectedError .pendingReconnect true :: t =>
      (Trace.stack t).head?.any Frame.isYield
  | _ => false

/-- A yield tries to reconnect. -/
def World.retries (w : World) : Bool := w.stack.any Frame.retries

/-- No read succeeds while a reconnect is awaited, and auto-reconnect is enabled
whenever the delay has run out. The application attempts to reconnect by itself
only where auto-reconnect is enabled and the interval is one of a lost
connection; it does not disable auto-reconnect during an attempt, and does not
yield during one that a yield makes. -/
def reconnectsInTurn : (q : Query) → World → Answer q → Bool := fun q =>
  match q with
  | .netRead _ n => fun w (r : ReadResult n) =>
      r.rc ≠ .success || w.client.clientState ≠ .pendingReconnect
  | .hasTimerExpired .reconnectDelay => fun w (b : Bool) => !b || w.client.isAutoReconnectEnabled
  | .application => fun w (next : Option Call) =>
      match next with
      | some .attemptReconnect =>
          w.isClientConnected || w.client.isAutoReconnectEnabled &&
            isReconnectInterval w.client.currentReconnectWaitInterval
      | some (.autoreconnectSetStatus newStatus) => newStatus || !w.stack.any Frame.reconnects
      | some (.init params) => params.enableAutoReconnect || !w.stack.any Frame.reconnects
      | some (.yield _) => !w.retries || w.client.clientState ≠ .pendingReconnect &&
          w.client.clientState ≠ .connectedIdle
      | _ => true
  | _ => fun _ _ => true

namespace Reconnecting

abbrev policy : Policy := fun q w a => reconnectsInTurn q w a = true

/-- The interval has been doubled `k` times. -/
def Doubled (k : Nat) (w : World) : Prop :=
  w.client.currentReconnectWaitInterval.toNat = minReconnectWaitInterval.toNat * 2 ^ k

/-- The intervals are those that up to eight doublings lead to. -/
theorem isReconnectInterval_iff (w : World) :
    isReconnectInterval w.client.currentReconnectWaitInterval = true ↔ ∃ k ≤ 8, Doubled k w := by
  simp only [isReconnectInterval, List.any_eq_true, List.mem_range, decide_eq_true_iff,
    Nat.lt_succ_iff, Doubled]

/-- As many attempts have been made as the interval was doubled, and perhaps one more. -/
def OnPace (slack : Nat) (w : World) : Prop :=
  ∃ k, k + slack ≤ 8 ∧ Doubled k w ∧ w.trace.attempts ≤ k + slack

/-- The pace is kept, also during an attempt. -/
structure Paced (w : World) : Prop where
  waits : w.WaitsInPace
  outside : w.retries = false → w.trace.attempts = 0 ∨ OnPace 0 w
  inside : w.retries = true → OnPace 1 w

/-- The interval bounds the number of attempts behind it. -/
theorem Paced.attempts_le {w : World} (h : Paced w) : w.trace.attempts ≤ 8 := by
  have honPace : ∀ slack, OnPace slack w → w.trace.attempts ≤ 8 :=
    fun _ ⟨_, hk, _, hle⟩ => hle.trans hk
  cases hretries : w.retries with
  | true => exact honPace 1 (h.inside hretries)
  | false =>
      rcases h.outside hretries with hzero | h
      · rw [hzero]
        exact Nat.zero_le 8
      · exact honPace 0 h

/-- Only an attempt is counted. -/
theorem attempts_cons_le {e : Event} (h : ∀ f, e = .enter f → f ≠ .connecting) (t : Trace) :
    Trace.attempts (e :: t) ≤ t.attempts := by
  generalize hu : e :: t = u
  fun_cases Trace.attempts u with
  | case1 => cases hu
  | case2 => exact absurd rfl (h .connecting (List.cons.inj hu).1)
  | case3 => exact absurd rfl (h .connecting (List.cons.inj hu).1)
  | case4 => exact Nat.zero_le _
  | case5 =>
      obtain ⟨-, rfl⟩ := List.cons.inj hu
      exact Nat.le_refl _
  | case6 => exact Nat.zero_le _
  | case7 =>
      obtain ⟨-, rfl⟩ := List.cons.inj hu
      exact Nat.le_refl _

/-- Inner events make no attempts. -/
theorem attempts_append {ev t : Trace} (h : ∀ e ∈ ev, e.isInner = true) :
    Trace.attempts (ev ++ t) ≤ t.attempts := by
  induction ev with
  | nil => exact Nat.le_refl _
  | cons e ev ih =>
      apply Nat.le_trans (attempts_cons_le _ (ev ++ t))
      · exact ih fun e' he' => h e' (List.mem_cons_of_mem e he')
      · rintro f rfl
        cases h _ List.mem_cons_self

/-- Fewer attempts at the same interval are on pace as well. -/
theorem OnPace.mono {slack : Nat} {s t : World} (h : OnPace slack s)
    (hinterval : t.client.currentReconnectWaitInterval = s.client.currentReconnectWaitInterval)
    (hattempts : t.trace.attempts ≤ s.trace.attempts) : OnPace slack t := by
  obtain ⟨k, hk, hdoubled, hle⟩ := h
  exact ⟨k, hk, by rwa [Doubled, hinterval], hattempts.trans hle⟩

/-- What is in pace stays so where interval, attempts and retries do. -/
theorem Paced.mono {s t : World} (hs : Paced s) (hretries : t.retries = s.retries)
    (hinterval : t.client.currentReconnectWaitInterval = s.client.currentReconnectWaitInterval)
    (hattempts : t.trace.attempts ≤ s.trace.attempts) (hwaits : t.WaitsInPace) : Paced t := by
  refine ⟨hwaits, fun h => ?_, fun h => ?_⟩
  · rcases hs.outside (hretries ▸ h) with hzero | h
    · exact .inl (Nat.le_zero.mp (hzero ▸ hattempts))
    · exact .inr (h.mono hinterval hattempts)
  · exact (hs.inside (hretries ▸ h)).mono hinterval hattempts

/-- What a part of a call leaves as it was. -/
structure Sustains (s t : World) : Prop where
  stack : t.stack = s.stack
  enabled : s.stack.any Frame.reconnects = true → s.client.isAutoReconnectEnabled = true →
    t.client.isAutoReconnectEnabled = true
  interval : (∃ k ≤ 8, Doubled k s) → ∃ k ≤ 8, Doubled k t
  retried : s.retries = true →
    t.client.currentReconnectWaitInterval = s.client.currentReconnectWaitInterval

/-- A step that changes neither calls nor settings sustains the pace. -/
theorem Sustains.of_eq {s t : World} (hstack : t.stack = s.stack)
    (henabled : t.client.isAutoReconnectEnabled = s.client.isAutoReconnectEnabled)
    (hinterval : t.client.currentReconnectWaitInterval = s.client.currentReconnectWaitInterval) :
    Sustains s t := by
  refine ⟨hstack, fun _ h => henabled.trans h, ?_, fun _ => hinterval⟩
  simp only [Doubled, hinterval]
  exact id

theorem Sustains.refl (s : World) : Sustains s s := .of_eq rfl rfl rfl

theorem Sustains.trans {s t u : World} (h : Sustains s t) (h' : Sustains t u) : Sustains s u where
  stack := h'.stack.trans h.stack
  enabled hstack henabled := h'.enabled (h.stack ▸ hstack) (h.enabled hstack henabled)
  interval hinterval := h'.interval (h.interval hinterval)
  retried hretries := by
    have ht : t.retries = true := by rwa [World.retries, h.stack]
    exact (h'.retried ht).trans (h.retried hretries)

/-- A frame that has been left sustains the pace, if its body has. -/
theorem Sustains.leave {s t : World} {f : Frame} (rc : IotError)
    (h : Sustains (s.log (.enter f)) t) : Sustains s (t.log (.leave f rc)) where
  stack := by
    rw [World.stack_log_leave, h.stack]
    rfl
  enabled hstack henabled := by
    refine h.enabled ?_ henabled
    change (f :: s.stack).any Frame.reconnects = true
    rw [List.any_cons, hstack, Bool.or_true]
  interval := h.interval
  retried hretries := by
    refine h.retried ?_
    change (f :: s.stack).any Frame.retries = true
    rw [List.any_cons, show s.stack.any Frame.retries = true from hretries, Bool.or_true]

/-- What a step may do. -/
structure Moves (s t : World) : Prop where
  enabled : s.EntersEnabled t
  attempts : t.trace.attempts ≤ 8
  waits : t.WaitsInPace ∨ t.beginsToWait = true

/-- A world in pace may be moved to if reconnecting was enabled where it was to begin. -/
theorem Paced.moves {s t : World} (ht : Paced t) (h : s.EntersEnabled t) : Moves s t :=
  ⟨h, ht.attempts_le, .inl ht.waits⟩

/-- A step that does not change the state. -/
theorem Paced.stays {s t : World} (ht : Paced t)
    (hstate : t.client.clientState = s.client.clientState) : Moves s t :=
  ht.moves fun hne hpending => absurd (hstate ▸ hpending) hne

abbrev discipline : Discipline World Answer := solo (fun _ w => w.WaitsInPace) policy Moves

/-- A step inside a call that leaves the settings for reconnecting alone. -/
theorem Paced.step {s t : World} (hs : Paced s) (h : Adds (·.isInner = true) s t)
    (henabled : t.client.isAutoReconnectEnabled = s.client.isAutoReconnectEnabled)
    (hinterval : t.client.currentReconnectWaitInterval = s.client.currentReconnectWaitInterval)
    (hstate : t.client.clientState = s.client.clientState ∨
      t.client.clientState ≠ .pendingReconnect) : Moves s t ∧ Paced t ∧ Sustains s t := by
  have hstack := (Extends.of_adds h).stack
  have hattempts : t.trace.attempts ≤ s.trace.attempts := by
    obtain ⟨ev, htrace, hev⟩ := h
    rw [htrace]
    exact attempts_append hev
  have hwaits : t.WaitsInPace := by
    intro hpending
    rw [hinterval]
    rcases hstate with hstate | hstate
    · exact hs.waits (hstate ▸ hpending)
    · exact absurd hpending hstate
  have ht := hs.mono (congrArg (·.any Frame.retries) hstack) hinterval hattempts hwaits
  refine ⟨ht.moves fun hne hpending => ?_, ht, .of_eq hstack henabled hinterval⟩
  rcases hstate with hstate | hstate
  · exact absurd (hstate ▸ hpending) hne
  · exact absurd hpending hstate

/-- A frame that makes no retries may be entered in pace. -/
theorem Paced.enter {s : World} {f : Frame} (hs : Paced s) (hf : f.retries = false)
    (hattempts : Trace.attempts (.enter f :: s.trace) ≤ s.trace.attempts) :
    Moves s (s.log (.enter f)) ∧ Paced (s.log (.enter f)) := by
  have hretries : (s.log (.enter f)).retries = s.retries := by
    change (f :: s.stack).any Frame.retries = s.stack.any Frame.retries
    rw [List.any_cons, hf, Bool.false_or]
  have ht := hs.mono hretries rfl hattempts hs.waits
  exact ⟨ht.stays rfl, ht⟩

/-- It may be left in pace as well. -/
theorem Paced.leave {s t : World} {f : Frame} (rc : IotError) (ht : Paced t)
    (hf : f.retries = false)
    (h : Sustains (s.log (.enter f)) t) :
    Moves t (t.log (.leave f rc)) ∧ Paced (t.log (.leave f rc)) ∧
      Sustains s (t.log (.leave f rc)) := by
  have hretries : (t.log (.leave f rc)).retries = t.retries := by
    rw [World.retries, World.stack_log_leave, World.retries, h.stack]
    change s.stack.any Frame.retries = (f :: s.stack).any Frame.retries
    rw [List.any_cons, hf, Bool.false_or]
  have hleave := ht.mono hretries rfl (Nat.le_refl _) ht.waits
  exact ⟨hleave.stays rfl, hleave, h.leave rc⟩

/-- Only connecting counts as an attempt. -/
theorem attempts_enter_of_ne {f : Frame} (hf : f ≠ .connecting) (t : Trace) :
    Trace.attempts (.enter f :: t) ≤ t.attempts :=
  attempts_cons_le (fun _ heq => Event.enter.inj heq ▸ hf) t

/-- The program keeps the pace. -/
abbrev Paces {α : Type} (p : M α) : Prop :=
  Kept (fun _ w => w.WaitsInPace) policy Moves Paced Sustains p

/-- Steps that say nothing on attempts keep the pace. -/
theorem steady : Steady (fun _ w => w.WaitsInPace) Moves Paced Sustains (·.isEven = true) where
  refl := .refl
  trans _ _ _ := .trans
  pre _ s hs _ := hs.waits
  still s t hs h := by
    cases h with
    | io h =>
        exact hs.step h.adds h.isAutoReconnectEnabled h.currentReconnectWaitInterval
          (.inl h.clientState)
    | delivered => exact hs.step (adds_one rfl rfl) rfl rfl (.inl rfl)
    | messages => exact hs.step (adds_of_eq rfl) rfl rfl (.inl rfl)
  enter f s hf hs := by
    apply hs.enter
    · cases f <;> first | rfl | cases hf
    · apply attempts_enter_of_ne
      rintro rfl
      cases hf
  leave f rc s t hf _ ht h := by
    apply ht.leave rc _ h
    cases f <;> first | rfl | cases hf

/-- Inner steps keep it. -/
theorem inner {s t : World} (hs : Paced s) (h : Inner s t) :
    Moves s t ∧ Paced t ∧ Sustains s t := by
  cases h with
  | still h => exact steady.still s t hs h
  | transport h => exact hs.step (adds_one rfl (Event.isInner_of_isTransport h)) rfl rfl (.inl rfl)
  | granted change expected _ hnew => exact hs.step (adds_one rfl rfl) rfl rfl (.inr hnew)
  | refused => exact hs.step (adds_one rfl rfl) rfl rfl (.inl rfl)
  | put hnew => exact hs.step (adds_one rfl rfl) rfl rfl (.inr hnew)

/-- So do all single steps, but for those that prepare a reconnect. -/
theorem primitives : Primitives (·.isEven = true) fun _ p => Paces p :=
  steady.primitives fun _ _ => inner

/-- What is known of reading and writing holds here too. -/
theorem wp_io {α : Type} {p : M α} {Φ : α → World → Prop} {s : World} (h : IsIo p) (hs : Paced s)
    (hwp : wp (observed policy fun _ _ => True) p Φ s) :
    wp discipline p (fun a t => Φ a t ∧ Paced t ∧ Sustains s t) s := by
  refine wp_and (h.transfer (D := observed policy fun _ _ => True) (E := discipline)
    (I := Paced) (fun _ _ ht _ => ht.waits) (fun _ _ _ h => h) ?_ ?_ (fun _ _ => trivial) hwp hs)
    (steady.io h s hs)
  · intro t u ht hu _
    obtain ⟨hmoves, hpaced, -⟩ := steady.still t u ht (.io hu)
    exact ⟨trivial, hmoves, hpaced⟩
  · rintro t u ht rfl
    exact ⟨rfl, ht⟩

/-- No packet is read while a reconnect is awaited. -/
theorem wp_internalReadPacket (fuel : Nat) (s : World) :
    wp (observed policy fun _ _ => True) (internalReadPacket fuel) (fun r t =>
      t.client.clientState = s.client.clientState ∧
        ∀ type, r = .ok type → s.client.clientState ≠ .pendingReconnect) s := by
  have hread : wp (observed policy fun _ _ => True) (internalReadPacket fuel) (fun r _ =>
      ∀ type, r = .ok type → s.client.clientState ≠ .pendingReconnect) s := by
    simp only [internalReadPacket, countdown, netReadToBuffer, wp_bind,
      wp_getClient, wp_emit, wp_query,
      wp_modify, true_and, pure_eq, wp_ret, solo_pre, solo_guar, solo_allow]
    intro r hr
    split
    next => rintro _ ⟨⟩
    next =>
      split
      next => rintro _ ⟨⟩
      next hrc =>
        have hstate : s.client.clientState ≠ .pendingReconnect := by
          have hr' : reconnectsInTurn (.netRead .header 1)
            (s.log (.countdown .packet s.client.packetTimeoutMs)) r = true := hr
          simp only [reconnectsInTurn, Bool.or_eq_true, decide_eq_true_iff] at hr'
          exact hr'.resolve_left fun h => h (not_not.mp hrc)
        apply wp_mono (fun _ _ _ _ _ => hstate)
        exact wp_onlyReads _ (onlyReads_decodePacketRemainingLen fuel |>.bind fun r => by
          split
          next => exact within_pure _
          next => exact onlyReads_readPacketOfLength fuel _)
  apply wp_mono _ (wp_and (wp_onlyReads s (onlyReads_internalReadPacket fuel)) hread)
  exact fun r t ht => ⟨ht.1.io.clientState, ht.2⟩

/-! ## Messages -/

section Calls

variable {fuel : Nat} {call : Call → M IotError}
  (hcall : ∀ c s, Paced s → policy.allowsCall s c →
    wp discipline (call c) (fun _ t => Paced t ∧ Sustains s t) s)

include hcall

/-- Application code keeps the pace if the calls that it makes do. -/
theorem paces_application : Paces (application fuel call) :=
  steady.application (fun _ hs => hs.waits) hcall fuel

/-- A message is not handled while a reconnect is awaited. -/
theorem wp_internalDeliverMessage (topicOff : Nat) (topicNameLen : UInt16)
    {s : World} (hs : Paced s)
    (hstate : s.client.clientState ≠ .pendingReconnect) :
    wp discipline (internalDeliverMessage fuel call topicOff topicNameLen)
      (fun _ t => Paced t ∧ Sustains s t) s := by
  simp only [internalDeliverMessage, wp_bind, wp_getClientState]
  rw [wp_setClientState, if_pos rfl]
  obtain ⟨hself, -, -⟩ := hs.step (adds_of_eq rfl) rfl rfl (.inl rfl)
  have hentered : Inner s (s.granted .other s.client.clientState .connectedWaitForCbReturn) :=
    .granted _ _ rfl nofun
  obtain ⟨hmoves, ht, hst⟩ := inner hs hentered
  refine ⟨hself, hmoves, ?_⟩
  apply wp_mono _ (steady.dispatches.deliverMessageLoop (fun _ => rfl) (paces_application hcall)
    topicOff topicNameLen numSubscribeHandlers _ ht)
  intro _ u hu
  apply wp_mono _ (primitives.setState .other .connectedWaitForCbReturn _ hstate u hu.1)
  exact fun _ v hv => ⟨hv.1, (hst.trans hu.2).trans hv.2⟩

/-- Handling a PUBLISH keeps the pace; the state behind it is the one in front of it. -/
theorem wp_internalHandlePublish (timer : TimerName) {s : World} (hs : Paced s)
    (hstate : s.client.clientState ≠ .pendingReconnect) :
    wp discipline (internalHandlePublish fuel call timer)
      (fun _ t => Paced t ∧ Sustains s t) s := by
  simp only [internalHandlePublish, wp_bind, wp_getClient]
  obtain ⟨hself, -, -⟩ := hs.step (adds_of_eq rfl) rfl rfl (.inl rfl)
  refine ⟨hself, ?_⟩
  split
  next => exact ⟨hs, .refl s⟩
  next =>
    simp only [wp_bind, pushMessage, wp_modify]
    obtain ⟨hmoves, ht, hst⟩ := steady.still s _ hs (.messages _)
    refine ⟨hmoves, ?_⟩
    apply wp_mono _ (wp_internalDeliverMessage hcall _ _ ht hstate)
    intro rc u hu
    have hrest : ∀ msg, Paces (popMessage msg >>= fun msg => onSuccess rc
        (if msg.qos = qos0 then pure .success
          else serialized (fun c => serializeAck c.writeBufSize .puback 0 msg.id) fun len =>
            internalSendPacket fuel (len % 2 ^ 32) timer)) := by
      intro msg
      apply steady.dispatches.bind (steady.popMessage msg)
      intro msg
      apply steady.dispatches.onSuccess
      apply Sequences.ite
      · exact fun _ => steady.dispatches.pure _
      · exact fun _ => steady.dispatches.serialized fun _ =>
          steady.io (isIo_internalSendPacket _ _ _)
    rw [← wp_bind]
    apply wp_mono _ (hrest _ u hu.1)
    exact fun _ v hv => ⟨hv.1, (hst.trans hu.2).trans hv.2⟩

/-- So does dispatching any packet. -/
theorem wp_dispatchPacket (timer : TimerName) (packetType : UInt8) {s : World} (hs : Paced s)
    (hstate : s.client.clientState ≠ .pendingReconnect) :
    wp discipline (dispatchPacket fuel call timer packetType)
      (fun _ t => Paced t ∧ Sustains s t) s := by
  unfold dispatchPacket
  split
  case h_5 => exact wp_internalHandlePublish hcall timer hs hstate
  case h_8 =>
    have hping : Paces (modifyClient (fun c => { c with isPingOutstanding := false }) >>= fun _ =>
        getClient >>= fun c => countdown .ping c.keepAliveInterval.toUInt32 >>= fun _ =>
          (pure .success : M IotError)) := by
      apply primitives.bind (steady.dispatches.io (.ping false))
      intro _
      apply primitives.bind (primitives.look World.client)
      exact fun c => primitives.bind (primitives.plain (.countdown _ _)) fun _ => primitives.pure _
    exact hping s hs
  all_goals exact ⟨hs, .refl s⟩

/-- So does reading one. -/
theorem paces_internalCycleRead (timer : TimerName) :
    Paces (internalCycleRead fuel call timer) := by
  intro s hs
  rw [internalCycleRead, wp_bind]
  apply wp_mono _
    (wp_io ((within_lockMutex .refl _)) hs (wp_unchanged s (within_lockMutex (fun _ => rfl) _)))
  rintro threadRc s ⟨rfl, -, -⟩
  split
  next => exact ⟨hs, .refl s⟩
  next =>
    rw [wp_bind]
    apply wp_mono _ (wp_io (isIo_internalReadPacket fuel) hs (wp_internalReadPacket fuel s))
    intro r t ht
    obtain ⟨⟨hstate, hread⟩, hpaced, hst⟩ := ht
    rw [wp_bind]
    apply wp_mono _ (wp_io ((within_unlockMutex .refl _)) hpaced
      (wp_unchanged t (within_unlockMutex (fun _ => rfl) _)))
    rintro threadRc t ⟨rfl, -, -⟩
    split
    next => split <;> exact ⟨hpaced, hst⟩
    next => exact ⟨hpaced, hst⟩
    next type =>
      split
      next => exact ⟨hpaced, hst⟩
      next =>
        rw [wp_bind]
        have hnot : _ ≠ ClientState.pendingReconnect := hstate ▸ hread type rfl
        apply wp_mono _ (wp_dispatchPacket hcall timer type hpaced hnot)
        exact fun _ u hu => ⟨hu.1, hst.trans hu.2⟩

/-! ## Connecting and disconnecting -/

/-- So does what an operation on a connected client consists of. -/
theorem composes : Composes fuel call (Paces (α := IotError)) :=
  steady.dispatches.composes fun _ =>
    steady.dispatches.internalWaitForRead (paces_internalCycleRead hcall) rfl

omit hcall in
/-- One more attempt is in pace. -/
def HasRoom (w : World) : Prop := ∃ k ≤ 7, Doubled k w ∧ w.trace.attempts ≤ k

omit hcall in
/-- A connect may be entered where there is room for one more attempt. -/
theorem Paced.enter_connecting {s : World} (hs : Paced s)
    (hroom : s.stack.head?.any Frame.retries = true → HasRoom s) :
    Moves s (s.log (.enter .connecting)) ∧ Paced (s.log (.enter .connecting)) := by
  by_cases hhead : s.stack.head?.any Frame.retries = true
  · obtain ⟨k, hk, hdoubled, hle⟩ := hroom hhead
    have hattempts : (s.log (.enter .connecting)).trace.attempts = s.trace.attempts + 1 :=
      if_pos hhead
    have hretries : (s.log (.enter .connecting)).retries = true := by
      change (Frame.connecting :: s.stack).any Frame.retries = true
      cases hstack : s.stack with
      | nil =>
          rw [hstack] at hhead
          cases hhead
      | cons f rest =>
          rw [hstack] at hhead
          have hf : f.retries = true := hhead
          simp [hf]
    have hpace : OnPace 1 (s.log (.enter .connecting)) :=
      ⟨k, Nat.succ_le_succ hk, hdoubled, hattempts.trans_le (Nat.succ_le_succ hle)⟩
    have ht : Paced (s.log (.enter .connecting)) := by
      refine ⟨hs.waits, fun h => ?_, fun _ => hpace⟩
      rw [hretries] at h
      cases h
    exact ⟨ht.stays rfl, ht⟩
  · apply hs.enter rfl
    exact Nat.le_of_eq (if_neg hhead)

omit hcall in
/-- Inner steps take up no room. -/
theorem HasRoom.of_adds {s t : World} (hs : HasRoom s) (h : Adds (·.isInner = true) s t)
    (hinterval : t.client.currentReconnectWaitInterval = s.client.currentReconnectWaitInterval) :
    HasRoom t := by
  obtain ⟨k, hk, hdoubled, hle⟩ := hs
  obtain ⟨ev, htrace, hev⟩ := h
  refine ⟨k, hk, by rwa [Doubled, hinterval], ?_⟩
  rw [htrace]
  exact (attempts_append hev).trans hle

/-- A connect takes up the room of one attempt. -/
theorem wp_connect (params : Option ConnectParams) {s : World} (hs : Paced s)
    (hroom : s.stack.head?.any Frame.retries = true → HasRoom s) :
    wp discipline (connect fuel call params) (fun _ t => Paced t ∧ Sustains s t) s := by
  simp only [connect, wp_bind, wp_getClientState]
  refine ⟨(hs.step (adds_of_eq rfl) rfl rfl (.inl rfl)).1, ?_⟩
  split
  next =>
    rw [connectFrom, wp_bind, wp_setClientState, if_pos rfl]
    have hclaim : Inner s (s.granted .claim s.client.clientState .connecting) :=
      .granted _ _ rfl nofun
    obtain ⟨hmoves, ht, hst⟩ := inner hs hclaim
    obtain ⟨henter, hu⟩ := ht.enter_connecting fun hhead =>
      (hroom (by rwa [← hst.stack])).of_adds (adds_one rfl rfl) rfl
    refine ⟨hmoves, ?_⟩
    rw [wp_framed]
    refine ⟨henter, ?_⟩
    apply wp_mono _ (primitives.connecting (composes hcall).handshake params _ _ hu)
    intro rc v hv
    obtain ⟨hleave, hv', hsv⟩ := hv.1.leave rc rfl hv.2
    exact ⟨hleave, hv', hst.trans hsv⟩
  next => exact ⟨hs, .refl s⟩

omit hcall in
/-- A disconnect makes no attempt. -/
theorem paces_disconnect : Paces (disconnect fuel) := by
  intro s hs
  obtain ⟨hself, -, -⟩ := hs.step (adds_of_eq rfl) rfl rfl (.inl rfl)
  simp only [disconnect, wp_bind, wp_getClientState, wp_isClientConnected]
  refine ⟨hself, hself, ?_⟩
  split
  next => exact ⟨hs, .refl s⟩
  next hconnected =>
    have hstate : s.client.clientState ≠ .pendingReconnect := by
      intro hpending
      rw [World.isClientConnected, hpending] at hconnected
      exact hconnected rfl
    have hrest : Paces (setClientState .other s.client.clientState .disconnecting >>= fun rc =>
        onSuccess rc (internalDisconnect fuel >>= fun rc =>
          if rc ≠ .success then putClientState s.client.clientState >>= fun _ => pure rc
          else putClientState .disconnectedManually >>= fun _ => pure rc)) := by
      refine primitives.bind (primitives.setState _ _ _ nofun) fun rc => primitives.onSuccess rc ?_
      apply primitives.bind (primitives.internalDisconnect steady.dispatches.send)
      intro rc
      apply Sequences.ite
      · exact fun _ => primitives.bind (primitives.putState _ hstate) fun _ => primitives.pure _
      · exact fun _ => primitives.bind (primitives.putState _ nofun) fun _ => primitives.pure _
    exact hrest s hs

/-! ## Reconnecting -/

/-- A resubscribe that succeeds leaves the client idle. -/
theorem wp_resubscribe {s : World} (hs : Paced s) :
    wp discipline (resubscribe fuel call) (fun rc t => (Paced t ∧ Sustains s t) ∧
      (rc = .success → t.client.clientState = .connectedIdle)) s := by
  apply wp_and (primitives.resubscribe (composes hcall).internalResubscribe s hs)
  obtain ⟨hself, -, -⟩ := hs.step (adds_of_eq rfl) rfl rfl (.inl rfl)
  simp only [resubscribe, wp_bind, wp_isClientConnected]
  refine ⟨hself, ?_⟩
  split
  next => exact nofun
  next =>
    simp only [wp_bind, wp_getClientState]
    refine ⟨hself, ?_⟩
    split
    next => exact nofun
    next hidle =>
      have hclaim : Inner s (s.granted .claim .connectedIdle .connectedResubscribeInProgress) :=
        .granted _ _ (not_not.mp hidle) nofun
      obtain ⟨hmoves, ht, -⟩ := inner hs hclaim
      rw [wp_bind, wp_setClientState, if_pos (not_not.mp hidle), wp_onSuccess]
      refine ⟨hmoves, fun _ => ?_, fun h => absurd rfl h⟩
      simp only [wp_bind]
      apply wp_mono _ ((composes hcall).internalResubscribe _ ht)
      intro resubRc u hu
      rw [wp_setClientState]
      split
      next hstate =>
        have hrelease :
          Inner u (u.granted .release .connectedResubscribeInProgress .connectedIdle) :=
          .granted _ _ hstate nofun
        exact ⟨(inner hu.1 hrelease).1, fun _ => rfl⟩
      next hstate =>
        refine ⟨(inner hu.1 (.refused .release _ hstate)).1, ?_⟩
        simp only [pure_eq, wp_ret]
        split
        next => exact nofun
        next h => exact fun hresub => absurd ⟨hresub, nofun⟩ h

/-- An attempt with auto-reconnect enabled and an interval of a lost connection. -/
theorem wp_attemptReconnect {s : World} (hs : Paced s)
    (hroom : s.stack.head?.any Frame.retries = true → HasRoom s)
    (hframe : s.stack.any Frame.reconnects = true)
    (hready : s.isClientConnected = true ∨
      s.client.isAutoReconnectEnabled = true ∧ ∃ k ≤ 8, Doubled k s) :
    wp discipline (attemptReconnect fuel call) (fun rc t => (Paced t ∧ Sustains s t) ∧
      (rc = .networkReconnected → t.client.clientState = .connectedIdle)) s := by
  obtain ⟨hself, -, -⟩ := hs.step (adds_of_eq rfl) rfl rfl (.inl rfl)
  simp only [attemptReconnect, wp_bind, wp_isClientConnected]
  refine ⟨hself, ?_⟩
  split
  next => exact ⟨⟨hs, .refl s⟩, nofun⟩
  next hconnected =>
    obtain ⟨henabled, hinterval⟩ := hready.resolve_left hconnected
    rw [wp_bind]
    apply wp_mono _ (wp_connect hcall none hs hroom)
    intro _ t ht
    obtain ⟨ht, hst⟩ := ht
    simp only [wp_bind, wp_getClientState]
    refine ⟨(ht.step (adds_of_eq rfl) rfl rfl (.inl rfl)).1, ?_⟩
    split
    next =>
      rw [wp_bind, wp_setClientState]
      split
      next hstate =>
        -- the change of the state is not counted
        have hattempts : (t.granted .other .disconnectedError .pendingReconnect).trace.attempts ≤
            t.trace.attempts :=
          attempts_cons_le
            (e := .setState .other .disconnectedError .pendingReconnect true) nofun t.trace
        have hu :=
          ht.mono (t := t.granted .other .disconnectedError .pendingReconnect) rfl rfl hattempts
          fun _ => hst.interval hinterval
        exact ⟨hu.moves fun _ _ => hst.enabled hframe henabled,
          ⟨hu, hst.trans (.of_eq rfl rfl rfl)⟩, nofun⟩
      next hstate =>
        obtain ⟨hmoves, hu, htu⟩ := inner ht (.refused .other .pendingReconnect hstate)
        exact ⟨hmoves, ⟨hu, hst.trans htu⟩, nofun⟩
    next =>
      rw [wp_bind]
      apply wp_mono _ ((results_resubscribe fuel).wp_and (wp_resubscribe hcall ht))
      rintro rc u ⟨⟨⟨hu, htu⟩, hidle⟩, hresult⟩
      rw [wp_onSuccess]
      refine ⟨fun hrc => ⟨⟨hu, hst.trans htu⟩, fun _ => hidle hrc⟩,
        fun _ => ⟨⟨hu, hst.trans htu⟩, ?_⟩⟩
      rintro rfl
      cases hresult

/-! ## Yielding -/

omit hcall in
/-- No attempt of a yield is in progress. -/
abbrev Outside (w : World) : Prop := Paced w ∧ w.retries = false

omit hcall in
abbrev PacesOutside {α : Type} (p : M α) : Prop :=
  Kept (fun _ w => w.WaitsInPace) policy Moves Outside Sustains p

omit hcall in
/-- Whether retries are made is read off the calls in progress. -/
theorem Sustains.retries {s t : World} (h : Sustains s t) : t.retries = s.retries := by
  rw [World.retries, World.retries, h.stack]

omit hcall in
/-- Outside of a retry, steps that say nothing on attempts keep the pace. -/
theorem steadyOutside :
    Steady (fun _ w => w.WaitsInPace) Moves Outside Sustains (·.isEven = true) where
  refl := .refl
  trans _ _ _ := .trans
  pre q s hs hq := steady.pre q s hs.1 hq
  still s t hs h := by
    obtain ⟨hmoves, ht, hst⟩ := steady.still s t hs.1 h
    exact ⟨hmoves, ⟨ht, hst.retries.trans hs.2⟩, hst⟩
  enter f s hf hs := by
    obtain ⟨hmoves, ht⟩ := steady.enter f s hf hs.1
    refine ⟨hmoves, ht, ?_⟩
    change (f :: s.stack).any Frame.retries = false
    rw [List.any_cons, show s.stack.any Frame.retries = false from hs.2, Bool.or_false]
    cases f <;> first | rfl | cases hf
  leave f rc s t hf hs ht h := by
    obtain ⟨hmoves, hleave, hst⟩ := steady.leave f rc s t hf hs.1 ht.1 h
    exact ⟨hmoves, ⟨hleave, hst.retries.trans hs.2⟩, hst⟩

omit hcall in
/-- So do the other single steps. -/
theorem primitivesOutside : Primitives (·.isEven = true) fun _ p => PacesOutside p :=
  steadyOutside.primitives fun s t hs h => by
    obtain ⟨hmoves, ht, hst⟩ := inner hs.1 h
    exact ⟨hmoves, ⟨ht, hst.retries.trans hs.2⟩, hst⟩

omit hcall in
/-- What keeps the pace keeps it outside of a retry. -/
theorem Paces.outside {α : Type} {p : M α} (h : Paces p) : PacesOutside p := by
  intro s hs
  apply wp_mono _ (h s hs.1)
  exact fun _ t ht => ⟨⟨ht.1, ht.2.retries.trans hs.2⟩, ht.2⟩

omit hcall in
/-- Where the frame of an attempt is left, the pace is kept without it. -/
theorem Paced.leave_handleReconnect {s t : World} {rc : IotError} (hs : s.retries = false)
    (h : Sustains s (t.log (.leave .handleReconnect rc))) (hwaits : t.WaitsInPace)
    (hpace : t.trace.attempts = 0 ∨ OnPace 0 t) :
    Moves t (t.log (.leave .handleReconnect rc)) ∧ Outside (t.log (.leave .handleReconnect rc)) ∧
      Sustains s (t.log (.leave .handleReconnect rc)) := by
  have hretries := h.retries.trans hs
  have ht : Paced (t.log (.leave .handleReconnect rc)) := by
    refine ⟨hwaits, fun _ => hpace, fun hinside => ?_⟩
    rw [hretries] at hinside
    cases hinside
  exact ⟨ht.stays rfl, ⟨ht, hretries⟩, h⟩

omit hcall in
/-- The interval is doubled where an attempt has been made. -/
theorem wp_reconnectBackoff (rc : IotError) {s t : World} (hs : s.retries = false)
    (h : Sustains (s.log (.enter .handleReconnect)) t) (ht : Paced t) :
    wp discipline (reconnectBackoff rc) (fun rc u =>
      Moves u (u.log (.leave .handleReconnect rc)) ∧ Outside (u.log (.leave .handleReconnect rc)) ∧
        Sustains s (u.log (.leave .handleReconnect rc))) t := by
  obtain ⟨k, hk, hdoubled, hle⟩ := ht.inside h.retries
  have hattempts := ht.attempts_le
  let u :=
    t.onClient fun c =>
      { c with currentReconnectWaitInterval := c.currentReconnectWaitInterval * 2 }
  -- the interval has room for one more doubling, without an overflow
  have hinterval : Doubled (k + 1) u := by
    have hpow : (2 : Nat) ^ k ≤ 2 ^ 7 :=
      Nat.pow_le_pow_right (by decide) (Nat.le_of_succ_le_succ hk)
    have hdoubled' : t.client.currentReconnectWaitInterval.toNat = 1000 * 2 ^ k := hdoubled
    change (t.client.currentReconnectWaitInterval * 2).toNat = 1000 * 2 ^ (k + 1)
    rw [UInt32.toNat_mul, hdoubled', Nat.pow_succ]
    change 1000 * 2 ^ k * 2 % 2 ^ 32 = _
    rw [Nat.mod_eq_of_lt (by omega)]
    omega
  have hleave : ∀ rc v, v.client = u.client → v.trace.attempts = u.trace.attempts →
      v.stack = u.stack →
      Moves v (v.log (.leave .handleReconnect rc)) ∧ Outside (v.log (.leave .handleReconnect rc)) ∧
        Sustains s (v.log (.leave .handleReconnect rc)) := by
    intro rc v hclient hattempts hstack
    have hv : ∃ k ≤ 8, Doubled k v := ⟨k + 1, hk, by rwa [Doubled, hclient]⟩
    apply Paced.leave_handleReconnect hs _ (fun _ => hv)
    · exact .inr ⟨k + 1, hk, by rwa [Doubled, hclient], hattempts.trans_le hle⟩
    · refine ⟨?_, fun hframe henabled => ?_, fun _ => hv, fun hretries => ?_⟩
      · rw [World.stack_log_leave, hstack]
        exact (h.leave rc).stack
      · rw [World.client_log, hclient]
        exact (h.leave rc).enabled hframe henabled
      · rw [hs] at hretries
        cases hretries
  have hmoves : ∀ v w, v.client.clientState = u.client.clientState → w.client = u.client →
      w.trace.attempts = u.trace.attempts → Moves v w := by
    intro v w hv hclient heq
    refine ⟨fun hne hpending => ?_, heq.trans_le hattempts, .inl fun _ => ?_⟩
    · rw [hclient, ← hv] at hpending
      exact absurd hpending hne
    · rw [hclient]
      exact ⟨k + 1, hk, hinterval⟩
  simp only [reconnectBackoff, wp_bind, wp_modifyClient, wp_getClient]
  refine ⟨hmoves t u rfl rfl rfl, hmoves u u rfl rfl rfl, ?_⟩
  split
  next => exact hleave _ u rfl rfl rfl
  next =>
    simp only [wp_bind, countdown, wp_emit, pure_eq, wp_ret]
    exact ⟨hmoves _ _ rfl rfl rfl, hleave _ _ rfl rfl rfl⟩

/-- A yield that awaits a reconnect makes one attempt at most. -/
theorem wp_handleReconnect {s : World} (hs : Outside s)
    (hstate : s.client.clientState = .pendingReconnect)
    (hinterval : ¬ maxReconnectWaitInterval < s.client.currentReconnectWaitInterval) :
    wp discipline (handleReconnect fuel call) (fun _ t => Outside t ∧ Sustains s t) s := by
  have hroom : HasRoom s := by
    obtain ⟨k, hk, hdoubled⟩ := hs.1.waits hstate
    have hseven : k ≤ 7 := by
      have hmax : s.client.currentReconnectWaitInterval.toNat ≤ 128000 := by
        have := UInt32.not_lt.mp hinterval
        exact UInt32.le_iff_toNat_le.mp this
      by_contra hlarge
      have height : k = 8 := by omega
      subst height
      have hdoubled' : s.client.currentReconnectWaitInterval.toNat = 1000 * 2 ^ 8 := hdoubled
      omega
    refine ⟨k, hseven, hdoubled, ?_⟩
    rcases hs.1.outside hs.2 with hzero | ⟨k', -, hdoubled', hle⟩
    · rw [hzero]
      exact Nat.zero_le k
    · have heq : 1000 * 2 ^ k = 1000 * 2 ^ k' := hdoubled.symm.trans hdoubled'
      have : k = k' :=
        Nat.pow_right_injective (le_refl 2) (Nat.eq_of_mul_eq_mul_left (by decide) heq)
      omega
  obtain ⟨k, hk, hdoubled, hle⟩ := hroom
  have hroom' : HasRoom (s.log (.enter .handleReconnect)) := ⟨k, hk, hdoubled, hle⟩
  have henter : Paced (s.log (.enter .handleReconnect)) :=
    ⟨hs.1.waits, nofun, fun _ => ⟨k, Nat.succ_le_succ hk, hdoubled, Nat.le_succ_of_le hle⟩⟩
  have hself := (henter.step (adds_of_eq rfl) rfl rfl (.inl rfl)).1
  rw [handleReconnect, wp_framed]
  refine ⟨henter.stays rfl, ?_⟩
  simp only [wp_bind, wp_hasTimerExpired]
  refine ⟨henter.waits, fun expired hexpired => ?_⟩
  split
  next =>
    apply Paced.leave_handleReconnect hs.2 ((Sustains.refl _).leave _) henter.waits
    exact .inr ⟨k, Nat.le_succ_of_le hk, hdoubled, hle⟩
  next hexp =>
    have henabled : s.client.isAutoReconnectEnabled = true := by
      have hexpired' : expired = true := by simpa using hexp
      have hallow : reconnectsInTurn (.hasTimerExpired .reconnectDelay)
        (s.log (.enter .handleReconnect)) expired = true := hexpired
      simpa [reconnectsInTurn, hexpired'] using hallow
    simp only [wp_bind, netIsConnected, wp_query, solo_pre, solo_allow]
    refine ⟨henter.waits, fun physical _ => ?_⟩
    split
    next =>
      rw [wp_bind]
      apply wp_mono _ (wp_attemptReconnect hcall henter (fun _ => hroom') rfl
        (.inr ⟨henabled, k, Nat.le_succ_of_le hk, hdoubled⟩))
      rintro rc t ⟨⟨ht, hst⟩, hidle⟩
      split
      next hrc =>
        rw [wp_bind, wp_setClientState, if_pos (hidle hrc)]
        have hresumed : Inner t (t.granted .other .connectedIdle .connectedYieldInProgress) :=
          .granted _ _ (hidle hrc) nofun
        obtain ⟨hmoves, hu, htu⟩ := inner ht hresumed
        rw [wp_onSuccess]
        refine ⟨hmoves, fun _ => ?_, fun h => absurd rfl h⟩
        -- the count starts again with this change of the state
        exact Paced.leave_handleReconnect hs.2 ((hst.trans htu).leave _) hu.waits (.inl rfl)
      next => exact wp_reconnectBackoff _ hs.2 hst ht
    next => exact wp_reconnectBackoff _ hs.2 (.refl _) henter

omit hcall in
/-- A lost connection is awaited with the minimal interval. -/
theorem wp_connectionLost {s : World} (hs : Outside s)
    (hyield : s.stack.head?.any Frame.isYield = true) :
    wp discipline connectionLost (fun _ t => Outside t ∧ Sustains s t) s := by
  let t :=
    s.onClient fun c => { c with counterNetworkDisconnected := c.counterNetworkDisconnected + 1 }
  have hst : Sustains s t := .of_eq rfl rfl rfl
  obtain ⟨hmoves, ht, -⟩ : Moves s t ∧ Paced t ∧ Sustains s t :=
    hs.1.step (adds_of_eq rfl) rfl rfl (.inl rfl)
  have hretries := hst.retries.trans hs.2
  simp only [connectionLost, wp_bind, wp_modifyClient, wp_getClient]
  refine ⟨hmoves, (ht.step (adds_of_eq rfl) rfl rfl (.inl rfl)).1, ?_⟩
  split
  next henabled =>
    rw [wp_bind, wp_setClientState]
    split
    next hstate =>
      have hattempts : (t.granted .other .disconnectedError .pendingReconnect).trace.attempts = 0 :=
        if_pos hyield
      let u := (t.granted .other .disconnectedError .pendingReconnect).onClient fun c =>
        { c with currentReconnectWaitInterval := minReconnectWaitInterval }
      have hinterval : ∃ k ≤ 8, Doubled k u := ⟨0, Nat.zero_le 8, rfl⟩
      have hu : Paced u := by
        refine ⟨fun _ => hinterval, fun _ => .inl hattempts, fun h => ?_⟩
        exact absurd (h.symm.trans hretries) nofun
      have hsu : Sustains s u := by
        refine ⟨rfl, fun _ h => h, fun _ => hinterval, fun h => ?_⟩
        exact absurd (h.symm.trans hs.2) nofun
      rw [if_neg (not_not.mpr rfl), wp_bind, wp_modifyClient]
      -- the interval is not set before the state
      refine ⟨⟨fun _ _ => henabled, hattempts.trans_le (Nat.zero_le 8), .inr hyield⟩,
        hu.stays rfl, ?_⟩
      rw [wp_bind]
      apply wp_mono _ (primitivesOutside.plain (.countdown _ _) u ⟨hu, hretries⟩)
      exact fun _ v hv => ⟨hv.1, hsu.trans hv.2⟩
    next hstate =>
      obtain ⟨hmoves, hu, htu⟩ := inner ht (.refused .other .pendingReconnect hstate)
      simp only [if_pos (show IotError.mqttUnexpectedClientStateError ≠ .success from nofun),
        pure_eq, wp_ret]
      exact ⟨hmoves, ⟨hu, htu.retries.trans hretries⟩, hst.trans htu⟩
  next => exact ⟨⟨ht, hretries⟩, hst⟩

/-- A loss that is handled starts no attempt by itself. -/
theorem pacesOutside_handleDisconnect : PacesOutside (handleDisconnect fuel call) := by
  apply primitivesOutside.handleDisconnect rfl (paces_disconnect.outside)
  exact primitivesOutside.callDisconnectHandler (fun _ => rfl) (paces_application hcall).outside

/-- One turn of the loop of a yield. -/
theorem wp_yieldCycle {s : World} (hs : Outside s)
    (hyield : s.stack.head?.any Frame.isYield = true) :
    wp discipline (yieldCycle fuel call) (fun _ t => Outside t ∧ Sustains s t) s := by
  have hself := (hs.1.step (t := s) (adds_of_eq rfl) rfl rfl (.inl rfl)).1
  simp only [yieldCycle, wp_bind, wp_getClientState]
  refine ⟨hself, ?_⟩
  split
  next hstate =>
    simp only [wp_bind, wp_getClient]
    refine ⟨hself, ?_⟩
    split
    next => exact ⟨hs, .refl s⟩
    next hinterval =>
      rw [wp_bind]
      exact wp_handleReconnect hcall hs hstate hinterval
  next =>
    rw [wp_bind]
    apply wp_mono _ ((paces_internalCycleRead hcall .yield).outside s hs)
    intro r t ht
    -- whatever the cycle was followed by, no attempt of a yield is open behind it
    have hafter : PacesOutside (afterCycleRead fuel call r.1) := by
      have hdisconnect : PacesOutside (handleDisconnect fuel call) :=
        pacesOutside_handleDisconnect hcall
      apply Sequences.ite
      · exact fun _ => steadyOutside.dispatches.keepAlive hdisconnect
      · exact fun _ => Sequences.ite (fun _ => hdisconnect) fun _ => primitivesOutside.pure _
    rw [wp_bind]
    apply wp_mono _ (hafter t ht.1)
    intro rc u hu
    have hsu := ht.2.trans hu.2
    split
    next =>
      apply wp_mono _ (wp_connectionLost hu.1 (by rwa [hsu.stack]))
      exact fun _ v hv => ⟨hv.1, hsu.trans hv.2⟩
    next => split <;> exact ⟨hu.1, hsu⟩

/-- A yield keeps the pace over all of its turns. -/
theorem wp_yieldClaimed (change : StateChange) {s : World} (hs : Outside s)
    (hyield : s.stack.head?.any Frame.isYield = true) :
    wp discipline (yieldClaimed fuel call change) (fun _ t => Outside t ∧ Sustains s t) s := by
  have hloop : wp discipline (internalYield fuel call) (fun _ t => Outside t ∧ Sustains s t) s := by
    apply wp_loop (I := fun _ t => Outside t ∧ Sustains s t) (fun _ _ _ => trivial) _
      fuel _ s ⟨hs, .refl s⟩
    rintro _ t ⟨ht, hst⟩
    rw [wp_bind]
    apply wp_mono _ (wp_yieldCycle hcall ht (by rwa [hst.stack]))
    rintro r u ⟨hu, htu⟩
    have hsu := hst.trans htu
    cases r with
    | inr rc => exact ⟨hu, hsu⟩
    | inl rc =>
        simp only [wp_bind, wp_hasTimerExpired]
        refine ⟨hu.1.waits, fun expired _ => ?_⟩
        split <;> exact ⟨hu, hsu⟩
  -- the end of the claim counts nothing either
  have hclose : ∀ yieldRc, PacesOutside (if yieldRc ≠ .networkDisconnectedError ∧
      yieldRc ≠ .networkAttemptingReconnect then
        setClientState change .connectedYieldInProgress .connectedIdle >>= fun rc =>
          (pure (if yieldRc = .success ∧ rc ≠ .success then rc else yieldRc) : M IotError)
      else doIf (change = .release) (emit .relinquished) >>= fun _ => pure yieldRc) := by
    intro yieldRc
    apply Sequences.ite
    · exact fun _ => primitivesOutside.bind (primitivesOutside.setState _ _ _ nofun) fun _ =>
        primitivesOutside.pure _
    · exact fun _ => primitivesOutside.bind
        (primitivesOutside.doIf _ (primitivesOutside.emit _ rfl))
        fun _ => primitivesOutside.pure _
  rw [yieldClaimed, wp_bind]
  apply wp_mono _ hloop
  rintro yieldRc t ⟨ht, hst⟩
  apply wp_mono _ (hclose yieldRc t ht)
  exact fun _ u hu => ⟨hu.1, hst.trans hu.2⟩

/-- A yield during an attempt that a yield makes returns at once. -/
theorem wp_yield (timeoutMs : UInt32) {s : World} (hs : Paced s)
    (hyield : s.stack.head?.any Frame.isYield = true)
    (hretries : s.retries = true →
      s.client.clientState ≠ .pendingReconnect ∧ s.client.clientState ≠ .connectedIdle) :
    wp discipline (yield fuel call timeoutMs) (fun _ t => Paced t ∧ Sustains s t) s := by
  have hself := (hs.step (t := s) (adds_of_eq rfl) rfl rfl (.inl rfl)).1
  have hdone : Paced s ∧ Sustains s s := ⟨hs, .refl s⟩
  have hclaimed : ∀ change t, Outside t → Sustains s t →
      wp discipline (countdown .yield timeoutMs >>= fun _ => yieldClaimed fuel call change)
        (fun _ u => Paced u ∧ Sustains s u) t := by
    intro change t ht hst
    rw [wp_bind]
    apply wp_mono _ (primitivesOutside.plain (.countdown _ _) t ht)
    rintro _ u ⟨hu, htu⟩
    have hsu := hst.trans htu
    apply wp_mono _ (wp_yieldClaimed hcall change hu (by rwa [hsu.stack]))
    exact fun _ v hv => ⟨hv.1.1, hsu.trans hv.2⟩
  unfold MqttClient.yield
  split
  next => exact hdone
  next =>
    rw [wp_bind, wp_getClientState]
    refine ⟨hself, ?_⟩
    split
    next => exact hdone
    next =>
      split
      next hpending =>
        -- a yield in a retrying one would find another state
        have houtside : Outside s := by
          refine ⟨hs, Bool.eq_false_iff.mpr fun h => ?_⟩
          exact (hretries h).1 hpending
        exact hclaimed _ s houtside (.refl s)
      next =>
        rw [wp_bind, wp_isClientConnected]
        refine ⟨hself, ?_⟩
        split
        next => exact hdone
        next =>
          split
          next => exact hdone
          next hidle =>
            have houtside : Outside s := by
              refine ⟨hs, Bool.eq_false_iff.mpr fun h => ?_⟩
              exact (hretries h).2 (not_not.mp hidle)
            have hclaim : Inner s (s.granted .claim .connectedIdle .connectedYieldInProgress) :=
              .granted _ _ (not_not.mp hidle) nofun
            obtain ⟨hmoves, ht, hst⟩ := inner hs hclaim
            rw [wp_bind, wp_setClientState, if_pos (not_not.mp hidle), wp_onSuccess]
            refine ⟨hmoves, fun _ => ?_, fun h => absurd rfl h⟩
            exact hclaimed _ _ ⟨ht, hst.retries.trans houtside.2⟩ hst

/-! ## All calls -/

omit hcall in
/-- An initialization leaves the interval as it is. -/
theorem wp_init (params : InitParams) {s : World} (hs : Paced s)
    (henabled : s.stack.any Frame.reconnects = true → params.enableAutoReconnect = true) :
    wp discipline (init params) (fun _ t => Paced t ∧ Sustains s t) s := by
  unfold init
  split
  next =>
    let t := s.onClient (·.initialized params)
    have hattempts : (t.log (.putState .initialized)).trace.attempts ≤ s.trace.attempts :=
      attempts_cons_le (e := .putState .initialized) nofun s.trace
    have ht : Paced t := hs.mono rfl rfl (Nat.le_refl _) nofun
    have hu : Paced (t.log (.putState .initialized)) := hs.mono rfl rfl hattempts nofun
    simp only [wp_bind, wp_modifyClient, wp_emit, pure_eq, wp_ret]
    exact ⟨ht.moves fun _ => nofun, hu.stays rfl, hu, rfl, fun hframe _ => henabled hframe,
      id, fun _ => rfl⟩
  next => exact ⟨hs, .refl s⟩

/-- What a call does in its frame. -/
theorem wp_perform (c : Call) {s : World} (hs : Paced (s.log (.enter (.call c))))
    (hallow : policy.allowsCall s c) :
    wp discipline (perform fuel call c)
      (fun _ t => Paced t ∧ Sustains (s.log (.enter (.call c))) t) (s.log (.enter (.call c))) := by
  have hcomposes : Composes fuel call (Paces (α := IotError)) := composes hcall
  have hframes : (s.log (.enter (.call c))).stack = .call c :: s.stack := rfl
  cases c with
  | init params =>
      apply wp_init params hs
      intro hframe
      have hallow' : (params.enableAutoReconnect || !s.stack.any Frame.reconnects) = true := hallow
      have hstack : s.stack.any Frame.reconnects = true := hframe
      simpa [hstack] using hallow'
  | connect params => exact wp_connect hcall params hs (by rintro ⟨⟩)
  | publish topicName topicNameLen params =>
      exact primitives.publish hcomposes.internalPublish _ _ _ _ hs
  | subscribe topicName topicNameLen qos handler data =>
      have hfill : ∀ slot h, Paces (addSubscription slot h) := by
        intro slot h t ht
        simp only [addSubscription, wp_bind, wp_modifyClient, pure_eq, wp_ret]
        exact ht.step (adds_of_eq rfl) rfl rfl (.inl rfl)
      refine primitives.subscribe (fun _ _ _ _ _ => ?_) topicName topicNameLen qos handler data _ hs
      apply hcomposes.internalSubscribe
      intro slot len handler
      exact primitives.framed rfl (hcomposes.requestSubscription _ _ _ (hfill _ _))
  | unsubscribe topicFilter topicFilterLen =>
      have hremove : ∀ topicFilter, Paces (removeSubscription topicFilter) := by
        intro topicFilter t ht
        simp only [removeSubscription, wp_bind, wp_modify, solo_guar, pure_eq, wp_ret]
        exact ht.step (adds_one rfl rfl) rfl rfl (.inl rfl)
      exact primitives.unsubscribe (fun _ _ => hcomposes.internalUnsubscribe _ _ (hremove _))
        topicFilter topicFilterLen _ hs
  | resubscribe => exact primitives.resubscribe hcomposes.internalResubscribe _ hs
  | yield timeoutMs =>
      apply wp_yield hcall timeoutMs hs rfl
      intro hretries
      have hretries' : s.retries = true := hretries
      have hallow' : (!s.retries || decide (s.client.clientState ≠ .pendingReconnect) &&
          decide (s.client.clientState ≠ .connectedIdle)) = true := hallow
      simpa [hretries'] using hallow'
  | disconnect => exact paces_disconnect _ hs
  | attemptReconnect =>
      have hallow' : (s.isClientConnected || s.client.isAutoReconnectEnabled &&
          isReconnectInterval s.client.currentReconnectWaitInterval) = true := hallow
      apply wp_mono _ (wp_attemptReconnect hcall hs (by rintro ⟨⟩) rfl _)
      · exact fun _ _ ht => ht.1
      · simp only [Bool.or_eq_true, Bool.and_eq_true] at hallow'
        exact hallow'.imp id fun h => ⟨h.1, (isReconnectInterval_iff s).mp h.2⟩
  | autoreconnectSetStatus newStatus =>
      have hallow' : (newStatus || !s.stack.any Frame.reconnects) = true := hallow
      have henabled : s.stack.any Frame.reconnects = true → newStatus = true := by
        intro hstack
        simpa [hstack] using hallow'
      have ht := hs.mono (t := (s.log (.enter (.call (.autoreconnectSetStatus newStatus)))).onClient
        fun c => { c with isAutoReconnectEnabled := newStatus }) rfl rfl (Nat.le_refl _) hs.waits
      simp only [perform, wp_bind, wp_modifyClient, pure_eq, wp_ret]
      exact ⟨ht.stays rfl, ht, rfl, fun hframe _ => henabled hframe, id, fun _ => rfl⟩
  | setDisconnectHandler | setConnectParams | resetNetworkDisconnectedCount =>
      exact primitives.setting rfl _ hs

end Calls

/-- Every call that the policy allows keeps the pace. -/
theorem wp_api (fuel : Nat) (c : Call) {s : World} (hs : Paced s) (hallow : policy.allowsCall s c) :
    wp discipline (api fuel c) (fun _ t => Paced t ∧ Sustains s t) s := by
  refine wp_recursive (P := fun c s => Paced s ∧ policy.allowsCall s c)
    (Φ := fun _ s _ t => Paced t ∧ Sustains s t) (fun _ _ _ => trivial)
    (fun fuel call hcall c s h => ?_) fuel c s ⟨hs, hallow⟩
  have hne : Frame.call c ≠ .connecting := nofun
  obtain ⟨henter, hentered⟩ := h.1.enter (f := .call c) rfl (attempts_enter_of_ne hne s.trace)
  rw [wp_framed]
  refine ⟨henter, ?_⟩
  apply wp_mono _ (wp_perform (fun c s hs hallow => hcall c s ⟨hs, hallow⟩) c hentered h.2)
  exact fun rc t ht => ht.1.leave rc rfl ht.2

/-- So the pace is kept whenever no call is in progress. -/
theorem paced_of_atRest {w : World} (h : AtRest policy w) : Paced w :=
  h.of_wp (fun _ _ => ⟨nofun, fun _ => .inl rfl, nofun⟩) fun fuel c _ hs hallow =>
    wp_mono (fun _ _ ht => ht.1) (wp_api fuel c hs hallow)

end Reconnecting

open Reconnecting

/-- Where manual attempts are made only with auto-reconnect enabled and with an
interval of a lost connection, the client waits for a reconnect only with
auto-reconnect enabled and with such an interval, which is set in the step after
the state, and makes eight attempts at most. -/
theorem waitsInPace_of_steps {w w' : World} {c : Call} {fuel : Nat} {p : M IotError}
    (h : AtRest policy w) (hallow : policy.allowsCall w c)
    (hsteps : Steps policy (api fuel c, w) (p, w')) :
    (w'.WaitsInPace ∨ w'.beginsToWait = true) ∧ w'.trace.attempts ≤ 8 ∧
      ∀ p'' w'', Step policy (p, w') (p'', w'') → w'.EntersEnabled w'' := by
  have hw := paced_of_atRest h
  have hwp := wp_api fuel c hw hallow
  have hpace : w'.trace.attempts ≤ 8 ∧ (w'.WaitsInPace ∨ w'.beginsToWait = true) :=
    invariant_steps (D := discipline)
      (I := fun w => w.trace.attempts ≤ 8 ∧ (w.WaitsInPace ∨ w.beginsToWait = true))
      (fun _ _ _ hmoves => ⟨hmoves.attempts, hmoves.waits⟩) hwp
        ⟨hw.attempts_le, .inl hw.waits⟩ hsteps
  refine ⟨hpace.2, hpace.1, fun p'' w'' hstep => ?_⟩
  rcases guar_of_step (wp_steps hwp hsteps) hstep with hmoves | heq
  · exact hmoves.enabled
  · exact fun hne hpending => absurd (heq ▸ hpending) hne

/-- The broker refuses a connect. -/
def refusalPacket : List Arrival := packet [0x20, 2, 0, 5]

def enabledWorld : World :=
  (connectedWorld.perform 20 (.autoreconnectSetStatus true) [] []).2.2

/-- A yield has lost the connection. -/
def waitingWorld : World := (enabledWorld.perform 20 (.yield 1000) [] []).2.2

theorem keepsTo_reconnectsInTurn :
    freshWorld.keepsTo reconnectsInTurn 20 connectCall connackPacket [] = true ∧
      connectedWorld.keepsTo reconnectsInTurn 20 (.autoreconnectSetStatus true) [] [] = true ∧
      enabledWorld.keepsTo reconnectsInTurn 20 (.yield 1000) [] [] = true ∧
      waitingWorld.keepsTo reconnectsInTurn 20 (.yield 1000) refusalPacket [] = true := by
  decide +kernel

theorem perform_waitingWorld :
    (connectedWorld.perform 20 (.autoreconnectSetStatus true) [] []).1 = some .success ∧
      (enabledWorld.perform 20 (.yield 1000) [] []).1 = some .networkAttemptingReconnect ∧
      connectedWorld.retries = false ∧ enabledWorld.retries = false ∧
        waitingWorld.retries = false := by
  decide +kernel

theorem Reconnecting.allowsCall_yield {w : World} (h : w.retries = false) (timeoutMs : UInt32) :
    policy.allowsCall w (.yield timeoutMs) := by
  change (!w.retries || _) = true
  rw [h]
  rfl

theorem Reconnecting.atRest_waitingWorld : AtRest policy waitingWorld := by
  obtain ⟨hconnect, henable, hyield, -⟩ := keepsTo_reconnectsInTurn
  obtain ⟨hset, hlost, -, hretries, -⟩ := perform_waitingWorld
  have hconnected : AtRest policy connectedWorld :=
    (AtRest.init blankClient sampleInitParams).call (c := connectCall) rfl
      (returns_perform (fun _ _ _ h => h) hconnect perform_connectCall)
  have henabled : AtRest policy enabledWorld :=
    hconnected.call (c := .autoreconnectSetStatus true) rfl
      (returns_perform (fun _ _ _ h => h) henable hset)
  exact henabled.call (allowsCall_yield hretries 1000)
    (returns_perform (fun _ _ _ h => h) hyield hlost)

/-- The first attempt of a yield that waits is under way. -/
theorem waitsInPace_waitingWorld :
    let r := waitingWorld.underway 20 (.yield 1000) refusalPacket [] 40
    (r.2.WaitsInPace ∨ r.2.beginsToWait = true) ∧ r.2.trace.attempts ≤ 8 ∧
      ∀ p w, Step policy (r.1, r.2) (p, w) → r.2.EntersEnabled w :=
  waitsInPace_of_steps atRest_waitingWorld (allowsCall_yield perform_waitingWorld.2.2.2.2 1000)
    (steps_underway 40 (fun _ _ _ h => h) keepsTo_reconnectsInTurn.2.2.2)

/-- A yield has lost the connection, and auto-reconnect is disabled. -/
def lostWorld : World := (connectedWorld.perform 20 (.yield 1000) [] []).2.2

/-- The application has tried to reconnect by itself. -/
def refusedWorld : World := (lostWorld.perform 20 .attemptReconnect refusalPacket []).2.2

theorem refusedWorld_spec :
    (connectedWorld.perform 20 (.yield 1000) [] []).1 = some .networkDisconnectedError ∧
      (lostWorld.perform 20 .attemptReconnect refusalPacket []).1 =
        some .networkAttemptingReconnect ∧
      refusedWorld.client.clientState = .pendingReconnect ∧
      refusedWorld.client.currentReconnectWaitInterval = 0 ∧ refusedWorld.beginsToWait = false := by
  decide +kernel

/-- The client waits for a reconnect with an interval that was never set. -/
theorem not_waitsInPace_refusedWorld :
    ¬ ∀ (w w' : World) (c : Call) (fuel : Nat) (p : M IotError), AtRest anything w →
      anything.allowsCall w c → Steps anything (api fuel c, w) (p, w') →
        (w'.WaitsInPace ∨ w'.beginsToWait = true) ∧ w'.trace.attempts ≤ 8 ∧
          ∀ p'' w'', Step anything (p, w') (p'', w'') → w'.EntersEnabled w'' := by
  intro h
  obtain ⟨hlost, hrefused, hpending, hinterval, hsettled⟩ := refusedWorld_spec
  have hrest : AtRest anything lostWorld := atRest_connectedWorld.perform hlost
  have hret : Returns anything (api 20 .attemptReconnect) lostWorld .networkAttemptingReconnect
      refusedWorld := returns_perform (fun _ _ _ _ => trivial) (keepsTo_true _ _ _) hrefused
  rcases (h _ _ .attemptReconnect 20 _ hrest trivial hret).1 with hwaits | hbegins
  · obtain ⟨k, -, heq⟩ := hwaits hpending
    rw [hinterval] at heq
    have hpow : 0 < 1000 * 2 ^ k := Nat.mul_pos (by decide) (Nat.pow_pos (by decide))
    exact absurd heq (Nat.ne_of_lt hpow)
  · rw [hsettled] at hbegins
    cases hbegins

end MqttClient
