import MqttClient.Client.Traversal
import MqttClient.Effect.Threads
import MqttClient.Session.Runs

/-! # Claims that are refused

Between the check of the client state that a call makes and its claim another
thread may change the state, so that the claim is refused. Such a call has to
give up: it returns an error, and has neither used the network nor changed the
client state.
-/

namespace MqttClient

open Effect Program

/-- A thread's view after another thread has reached the view `t`: the client is
shared, and all else is the thread's own. -/
def World.adopt (t w : World) : World := { w with client := t.client }

/-- The threads of an application on one client. -/
abbrev Threads (ι : Type) := Pool ι World Answer Unit

/-- Every thread is about to make its first call. -/
def Threads.Started {ι : Type} (P : Threads ι) : Prop :=
  ∀ i, (∃ fuel, P.prog i = application fuel (api fuel)) ∧ (P.view i).trace = []

/-- The call whose claim has been refused, and that has done nothing since but
perhaps to roll the claim back. -/
def Trace.declining : Trace → Option Call
  | .setState .claim _ _ false :: .enter (.call c) :: _ => some c
  | .setState .rollback _ _ _ :: .setState .claim _ _ false :: .enter (.call c) :: _ => some c
  | _ => none

def Event.begins : Event → Option Call
  | .enter (.call c) => some c
  | _ => none

/-- The last thing on record is that this call has begun. -/
def Trace.entering : Trace → Option Call
  | [] => none
  | e :: _ => e.begins

/-- The last thing on record is the attempt to roll a claim back. -/
def Trace.rollingBack : Trace → Bool
  | .setState .rollback _ _ _ :: _ => true
  | _ => false

/-- What a call whose claim has been refused does next: it returns an error, or
it tries once to roll the claim back, without effect. -/
inductive Declines (c : Call) (w : World) : World → Prop where
  | leave {rc : IotError} (h : rc ≠ .success) : Declines c w (w.log (.leave (.call c) rc))
  | rollback {expected new : ClientState} (h : w.trace.rollingBack = false) :
      Declines c w (w.refused .rollback expected new)

theorem Declines.client {c : Call} {w w' : World} (h : Declines c w w') : w'.client = w.client := by
  cases h with
  | leave => rfl
  | rollback => rfl

/-- Every call whose claim has been refused declines with its next step, if that
is `ok`. -/
def Threads.Declining {ι : Type} (ok : World → World → Prop) (P : Threads ι) : Prop :=
  ∀ i c, (P.view i).trace.declining = some c → ∃ f k, P.prog i = .act f k ∧
    (ok (P.view i) (f (P.view i)) → Declines c (P.view i) (f (P.view i)))

/-- A connect whose claim is refused does not go on, and a claim that has been
refused is not rolled back with effect. -/
structure World.Heeds (w w' : World) : Prop where
  connects : ∀ expected, w' ≠ w.refused .claim expected .connecting
  rollsBack : ∀ expected new, w' ≠ w.granted .rollback expected new

namespace Claims

/-- Calls with a refused claim decline. -/
def discipline : Discipline World Answer where
  pre _ w := w.trace.declining = none
  allow := anything
  may := World.Heeds
  guar w w' := ∀ c, w.trace.declining = some c → Declines c w w'
  rely w w' := w'.messages = w.messages ∧ w'.trace = w.trace
  halts w := w.trace.declining = none

/-- No call has just begun, and none has to decline. -/
structure Engaged (w : World) : Prop where
  declining : w.trace.declining = none
  entering : w.trace.entering = none

/-- The call `c` has just begun, or has done something that was not refused. -/
def Begun (c : Call) (w : World) : Prop := w.trace.entering = some c ∨ Engaged w

/-- The call may return `rc`: it does not have to decline, or it declines. -/
def Answers (c : Call) (rc : IotError) (w : World) : Prop :=
  ∀ c', w.trace.declining = some c' → c' = c ∧ rc ≠ .success

/-- The program leaves alone whether calls have to decline. -/
def Proceeds {α : Type} (p : M α) : Prop :=
  ∀ w, Engaged w → wp discipline p (fun _ w' => Engaged w') w

/-- The program is the body of a call that declines if its claim is refused. -/
def Complies (c : Call) (p : M IotError) : Prop :=
  ∀ w, Begun c w → wp discipline p (fun rc w' => Answers c rc w') w

/-! ## What is on record -/

/-- A call that is just being entered has not been refused yet. -/
theorem declining_of_entering {t : Trace} {c : Call} (h : t.entering = some c) :
    t.declining = none := by
  unfold Trace.declining
  split
  next => cases h
  next => cases h
  next => rfl

/-- The last event is the entry of the call. -/
theorem exists_of_entering {t : Trace} {c : Call} (h : t.entering = some c) :
    ∃ older, t = .enter (.call c) :: older := by
  cases t with
  | nil => cases h
  | cons e older =>
      change e.begins = some c at h
      unfold Event.begins at h
      split at h
      next => exact ⟨older, congrArg (fun c => Event.enter (.call c) :: older) (Option.some.inj h)⟩
      next => cases h

/-- A call that has begun has not been refused yet. -/
theorem Begun.declining {c : Call} {w : World} (h : Begun c w) : w.trace.declining = none := by
  rcases h with h | h
  · exact declining_of_entering h
  · exact h.declining

theorem Engaged.of_trace {w w' : World} (h : Engaged w) (htrace : w'.trace = w.trace) :
    Engaged w' := ⟨htrace ▸ h.declining, htrace ▸ h.entering⟩

theorem Begun.of_trace {c : Call} {w w' : World} (h : Begun c w) (htrace : w'.trace = w.trace) :
    Begun c w' := by
  rcases h with h | h
  · exact .inl (htrace ▸ h)
  · exact .inr (h.of_trace htrace)

/-- A refused claim makes a call decline only where the call has just begun. -/
theorem declining_cons {t : Trace} {e : Event} (hdec : t.declining = none)
    (hent : t.entering = none) : Trace.declining (e :: t) = none := by
  unfold Trace.declining
  split
  next heq =>
    cases heq
    cases hent
  next heq =>
    cases heq
    cases hdec
  next => rfl

/-- Whatever is recorded next, unless it is a call. -/
theorem Engaged.log {w w' : World} {e : Event} (h : Engaged w) (he : e.begins = none)
    (htrace : w'.trace = e :: w.trace) : Engaged w' := by
  constructor
  · rw [htrace]
    exact declining_cons h.declining h.entering
  · rw [htrace]
    exact he

/-- Reading, writing and keeping time are no claims. -/
theorem Engaged.io {w w' : World} (h : Engaged w) (hio : Io w w') : Engaged w' := by
  obtain ⟨ev, htrace, hev⟩ := hio.trace
  clear hio
  induction ev generalizing w' with
  | nil => exact h.of_trace htrace
  | cons e ev ih =>
      have hrest : Engaged { w' with trace := ev ++ w.trace } :=
        ih rfl fun e he => hev e (List.mem_cons_of_mem _ he)
      have he := hev e List.mem_cons_self
      apply hrest.log _ htrace
      cases e <;> first | rfl | cases he

/-- Whatever is recorded next, unless it is a call or a claim that is refused. -/
theorem Begun.log {c : Call} {w w' : World} {e : Event} (h : Begun c w) (he : e.begins = none)
    (hclaim : ∀ expected new, e ≠ .setState .claim expected new false)
    (htrace : w'.trace = e :: w.trace) : Engaged w' := by
  rcases h with h | h
  · constructor
    · rw [htrace]
      unfold Trace.declining
      split
      next heq =>
        injection heq with hhead _
        exact absurd hhead (hclaim _ _)
      next heq =>
        injection heq with _ htail
        rw [htail] at h
        cases h
      next => rfl
    · rw [htrace]
      exact he
  · exact h.log he htrace

/-! ## Single steps -/

/-- A step behind which nobody has begun or has to decline may be taken. -/
theorem proceeds_act {α : Type} {v : World → α} {f : World → World}
    (h : ∀ w, Engaged w → Engaged (f w)) : Proceeds (Program.atomically v f) := by
  intro w hw _
  refine ⟨fun c hc => ?_, fun t ht => (h w hw).of_trace ht.2⟩
  rw [hw.declining] at hc
  cases hc

theorem proceeds_modify {f : World → World} (h : ∀ w, Engaged w → Engaged (f w)) :
    Proceeds (Program.modify f) := proceeds_act h

/-- Questions are no claims. -/
theorem proceeds_query (q : Query) : Proceeds (Program.query (A := Answer) q) :=
  fun _ hw => ⟨hw.declining, fun _ _ _ ht => hw.of_trace ht.2⟩

/-- An event that begins no call may be logged. -/
theorem proceeds_emit {e : Event} (he : e.begins = none) : Proceeds (emit e) :=
  proceeds_modify fun _ hw => hw.log he rfl

/-- Granted or not, a change of the state leaves nobody declining unless a call has just begun.
-/
theorem proceeds_setClientState (change : StateChange) (expected new : ClientState) :
    Proceeds (setClientState change expected new) := by
  apply proceeds_act
  intro w hw
  split
  next => exact hw.log rfl rfl
  next => exact hw.log rfl rfl

theorem proceeds_io {α : Type} {p : M α} (hp : IsIo p) : Proceeds p := by
  intro w hw
  apply hp.wp (fun _ _ hw _ => hw.declining) _ _ (fun _ hw => hw.declining) hw
  · intro s t hs hst _
    refine ⟨fun c hc => ?_, hs.io hst⟩
    rw [hs.declining] at hc
    cases hc
  · exact fun s t hs ht => hs.of_trace ht.2

theorem sequences : Sequences fun _ p => Proceeds p where
  plain hp := proceeds_io hp.isIo
  bind hp hg w hw := by
    rw [wp_bind]
    exact wp_mono (fun a t ht => hg a t ht) (hp w hw)

/-- What runs in a frame of its own, other than that of a call, proceeds if its body does. -/
theorem proceeds_framed {f : Frame} {body : M IotError} (hf : (Event.enter f).begins = none)
    (hbody : Proceeds body) : Proceeds (framed f body) := by
  apply sequences.bind (proceeds_emit hf)
  intro _
  apply sequences.bind hbody
  intro rc
  exact sequences.bind (proceeds_emit rfl) fun _ => sequences.pure rc

/-- Every single step proceeds. -/
theorem allSteps : AllSteps (fun f => (Event.enter f).begins = none) fun _ p => Proceeds p where
  toSequences := sequences
  delivered f hf := proceeds_modify fun w hw => by
    obtain ⟨name, topic, payload, data, heq⟩ := hf w
    rw [heq]
    exact hw.log rfl rfl
  io hp := proceeds_io hp.isIo
  handled hdeliver timer := sequences.internalHandlePublish
    (fun _ _ _ => proceeds_io (isIo_internalSendPacket _ _ _))
    (fun _ => proceeds_modify fun _ hw => hw.of_trace rfl)
    (fun _ => proceeds_act fun _ hw => hw.of_trace rfl) hdeliver timer
  framed hf hbody := proceeds_framed hf hbody
  query q _ := proceeds_query q
  emit e he := proceeds_emit <| by cases e <;> first | rfl | cases he
  setState change expected new _ := proceeds_setClientState change expected new
  putState new _ := proceeds_modify fun _ hw => hw.log rfl rfl
  prepare change expected := proceeds_setClientState change expected _
  putBack := proceeds_modify fun _ hw => hw.log rfl rfl
  change f _ := proceeds_modify fun _ hw => hw.of_trace rfl
  fill slot handler := sequences.bind (proceeds_modify fun _ hw => hw.of_trace rfl)
    fun _ => sequences.pure _
  remove topicFilter := sequences.bind (proceeds_modify fun _ hw => hw.log rfl rfl)
    fun _ => sequences.pure _

/-! ## Calls that claim the client -/

section Calls

variable {c : Call} {α β : Type}

/-- A call that has not been refused may answer anything. -/
theorem answers_of_declining {rc : IotError} {w : World} (h : w.trace.declining = none) :
    Answers c rc w := by
  intro c' hc'
  rw [h] at hc'
  cases hc'

/-- No more has happened than that the call `c` has begun, or it has got further
than that. -/
def Remains (c : Call) (p : M α) : Prop :=
  ∀ w, Begun c w → wp discipline p (fun _ w' => Begun c w') w

/-- The call `c` gets further. -/
def Engages (c : Call) (p : M α) : Prop :=
  ∀ w, Begun c w → wp discipline p (fun _ w' => Engaged w') w

/-- A call that gets further has begun. -/
theorem Engages.remains {p : M α} (h : Engages c p) : Remains c p :=
  fun w hw => wp_mono (fun _ _ ht => .inr ht) (h w hw)

/-- Once the call has got further, anything that proceeds may follow. -/
theorem Engages.bind {p : M α} {g : α → M β} (hp : Engages c p) (hg : ∀ a, Proceeds (g a)) :
    Engages c (p >>= g) := by
  intro w hw
  rw [wp_bind]
  exact wp_mono (fun a t ht => hg a t ht) (hp w hw)

/-- Steps in front of a claim can be put one after the other. -/
theorem Remains.bind {p : M α} {g : α → M β} (hp : Remains c p) (hg : ∀ a, Remains c (g a)) :
    Remains c (p >>= g) := by
  intro w hw
  rw [wp_bind]
  exact wp_mono (fun a t ht => hg a t ht) (hp w hw)

/-- A call that has not been refused has nothing to decline. -/
theorem Remains.complies {p : M IotError} (h : Remains c p) : Complies c p :=
  fun w hw => wp_mono (fun _ _ ht => answers_of_declining ht.declining) (h w hw)

theorem Engages.complies {p : M IotError} (h : Engages c p) : Complies c p := h.remains.complies

/-- Whether a call complies is decided behind the steps that come before its claim. -/
theorem complies_bind {p : M α} {g : α → M IotError} (hp : Remains c p)
    (hg : ∀ a, Complies c (g a)) : Complies c (p >>= g) := by
  intro w hw
  rw [wp_bind]
  exact wp_mono (fun a t ht => hg a t ht) (hp w hw)

/-- A call that has got further may answer anything. -/
theorem Proceeds.answers {p : M IotError} (h : Proceeds p) {w : World} (hw : Engaged w) :
    wp discipline p (fun rc w' => Answers c rc w') w :=
  wp_mono (fun _ _ ht => answers_of_declining ht.declining) (h w hw)

theorem remains_pure (a : α) : Remains c (pure a : M α) := fun _ hw => hw

theorem complies_pure (rc : IotError) : Complies c (pure rc) := (remains_pure rc).complies

theorem complies_ite {b : Prop} [Decidable b] {p q : M IotError} (hp : Complies c p)
    (hq : Complies c q) : Complies c (if b then p else q) := by
  split
  · exact hp
  · exact hq

/-- A step that puts nothing on record. -/
theorem remains_act {v : World → α} {f : World → World} (hf : ∀ w, (f w).trace = w.trace) :
    Remains c (Program.atomically v f) := by
  intro w hw _
  refine ⟨fun c' hc' => ?_, fun t ht => hw.of_trace (ht.2.trans (hf w))⟩
  rw [hw.declining] at hc'
  cases hc'

theorem remains_read {v : World → α} : Remains c (Program.atomically v id) :=
  remains_act fun _ => rfl

theorem remains_modifyClient (f : Client → Client) : Remains c (modifyClient f) :=
  remains_act fun _ => rfl

/-- An event other than a refused claim gets the call further. -/
theorem engages_emit {e : Event} (he : e.begins = none)
    (hclaim : ∀ expected new, e ≠ .setState .claim expected new false) : Engages c (emit e) := by
  intro w hw _
  refine ⟨fun c' hc' => ?_, fun t ht => hw.log he hclaim ht.2⟩
  rw [hw.declining] at hc'
  cases hc'

/-- A change of the client state, unless it is a claim that may be refused. -/
theorem engages_setClientState {change : StateChange} {expected new : ClientState}
    (h : change = .claim → new = .connecting) :
    Engages c (setClientState change expected new) := by
  intro w hw hmay
  refine ⟨fun c' hc' => ?_, fun t ht => ?_⟩
  · rw [hw.declining] at hc'
    cases hc'
  · simp only at hmay ht
    split at ht
    next => exact hw.log rfl (fun _ _ heq => by cases heq) ht.2
    next hstate =>
      rw [if_neg hstate] at hmay
      apply hw.log rfl _ ht.2
      intro expected' new' heq
      cases heq
      cases h rfl
      exact hmay.connects expected rfl

/-- The claim of the call `c` may just have been refused. -/
def Refused (c : Call) (w : World) : Prop :=
  Engaged w ∨ (w.trace.declining = some c ∧ w.trace.rollingBack = false)

theorem Refused.of_trace {w w' : World} (h : Refused c w) (htrace : w'.trace = w.trace) :
    Refused c w' := by
  rcases h with h | h
  · exact .inl (h.of_trace htrace)
  · exact .inr (htrace ▸ h)

/-- A call that was refused answers a failure. -/
theorem Refused.answers {rc : IotError} {w : World} (h : Refused c w) (hrc : rc ≠ .success) :
    Answers c rc w := by
  rcases h with h | h
  · exact answers_of_declining h.declining
  · intro c' hc'
    rw [h.1] at hc'
    cases hc'
    exact ⟨rfl, hrc⟩

/-- Behind a refused claim the call may have to decline. -/
theorem Begun.refused {w : World} (h : Begun c w) (expected new : ClientState) :
    Refused c (w.refused .claim expected new) := by
  rcases h with h | h
  · obtain ⟨older, htrace⟩ := exists_of_entering h
    refine .inr ⟨?_, rfl⟩
    change Trace.declining (_ :: w.trace) = some c
    rw [htrace]
    rfl
  · exact .inl (h.log rfl rfl)

/-- Rolling back once leaves a refusal on record. -/
theorem declining_rollback {t : Trace} {expected new : ClientState} {granted : Bool}
    (hdec : t.declining = some c) (hback : t.rollingBack = false) :
    Trace.declining (.setState .rollback expected new granted :: t) = some c := by
  unfold Trace.declining at hdec
  split at hdec
  next => exact hdec
  next => cases hback
  next => cases hdec

/-- Behind a claim the call goes on, or its claim has been refused. -/
theorem complies_claim {expected new : ClientState} {g : IotError → M IotError}
    (hgranted : Proceeds (g .success))
    (hrefused : ∀ w, Refused c w →
      wp discipline (g .mqttUnexpectedClientStateError) (fun rc w' => Answers c rc w') w) :
    Complies c (setClientState .claim expected new >>= g) := by
  intro w hw
  rw [wp_bind]
  intro _
  refine ⟨fun c' hc' => ?_, fun t ht => ?_⟩
  · rw [hw.declining] at hc'
    cases hc'
  · simp only at ht ⊢
    split at ht
    next hstate =>
      rw [if_pos hstate]
      have hengaged : Engaged t := hw.log rfl (fun _ _ heq => by cases heq) ht.2
      exact hgranted.answers hengaged
    next hstate =>
      rw [if_neg hstate]
      exact hrefused t ((hw.refused expected new).of_trace ht.2)

/-- A claim that has been refused is rolled back. -/
theorem wp_rollback {expected new : ClientState} {w : World} (hw : Refused c w) :
    wp discipline (setClientState .rollback expected new) (fun rc w' => Answers c rc w') w := by
  intro hmay
  simp only at hmay ⊢
  split at hmay
  next => exact absurd rfl (hmay.rollsBack expected new)
  next hstate =>
    rw [if_neg hstate, if_neg hstate]
    rcases hw with hw | ⟨hdec, hback⟩
    · refine ⟨fun c' hc' => ?_, fun t ht => answers_of_declining ?_⟩
      · rw [hw.declining] at hc'
        cases hc'
      · rw [ht.2]
        exact (hw.log rfl rfl : Engaged (w.refused .rollback expected new)).declining
    · refine ⟨fun c' hc' => ?_, fun t ht c' hc' => ?_⟩
      · rw [hdec] at hc'
        cases hc'
        exact .rollback hback
      · rw [ht.2] at hc'
        cases (declining_rollback hdec hback).symm.trans hc'
        exact ⟨rfl, nofun⟩

/-- What follows on a refusal decides whether an operation complies. -/
theorem complies_exclusively {inProgress : ClientState} {body : M IotError}
    {onRefused : ClientState → IotError → M IotError} (hbody : Proceeds body)
    (hrefused : ∀ clientState rc w, rc ≠ .success → Refused c w →
      wp discipline (onRefused clientState rc) (fun rc w' => Answers c rc w') w) :
    Complies c (exclusively inProgress body onRefused) := by
  apply complies_bind remains_read
  intro connected
  apply complies_ite (complies_pure _)
  apply complies_bind remains_read
  intro clientState
  apply complies_ite (complies_pure _)
  apply complies_claim
  · rw [if_neg (not_not.mpr rfl)]
    apply sequences.bind hbody
    exact fun _ => sequences.bind (proceeds_setClientState _ _ _) fun _ => sequences.pure _
  · intro w hw
    rw [if_pos nofun]
    exact hrefused _ _ w nofun hw

variable {fuel : Nat} {call : Call → M IotError} (hcall : ∀ c, Proceeds (call c))

include hcall

/-- Application code begins calls of its own, which proceed. -/
theorem proceeds_application : Proceeds (application fuel call) :=
  sequences.application (proceeds_query _) hcall fuel

/-- Reading a packet makes no claim of the reader's. -/
theorem proceeds_internalCycleRead (timer : TimerName) :
    Proceeds (internalCycleRead fuel call timer) :=
  allSteps.internalCycleRead (allSteps.internalDeliverMessage (fun _ => rfl)
    (proceeds_application hcall) fun _ => proceeds_setClientState _ _ _) timer

/-- Nor does what an operation consists of behind its claim. -/
theorem proceeds_composes : Composes fuel call (Proceeds · : M IotError → Prop) :=
  allSteps.composes fun _ => allSteps.internalWaitForRead (proceeds_internalCycleRead hcall) rfl

/-- A connect does not look at the result of its claim; where that is refused, it does not go
on. -/
theorem remains_connect (params : Option ConnectParams) : Remains c (connect fuel call params) := by
  apply remains_read.bind
  intro clientState
  split
  · apply Engages.remains
    apply (engages_setClientState fun _ => rfl).bind
    intro claimRc
    exact proceeds_framed rfl (allSteps.connecting (proceeds_composes hcall).handshake params _)
  · exact remains_pure _

/-- A resubscribe answers the code of its refusal. -/
theorem complies_resubscribe : Complies c (resubscribe fuel call) := by
  apply complies_bind remains_read
  intro connected
  apply complies_ite (complies_pure _)
  apply complies_bind remains_read
  intro clientState
  apply complies_ite (complies_pure _)
  apply complies_claim
  · apply sequences.bind (proceeds_composes hcall).internalResubscribe
    exact fun _ => sequences.bind (proceeds_setClientState _ _ _) fun _ => sequences.pure _
  · exact fun w hw => hw.answers nofun

/-- An attempt to reconnect passes on the code of a resubscribe that was refused. -/
theorem complies_attemptReconnect : Complies c (attemptReconnect fuel call) := by
  apply complies_bind remains_read
  intro connected
  apply complies_ite (complies_pure _)
  apply complies_bind (remains_connect hcall none)
  intro _
  apply complies_bind remains_read
  intro clientState
  apply complies_ite
  · refine complies_bind (Engages.remains (engages_setClientState ?_)) fun _ => complies_pure _
    exact nofun
  · intro w hw
    rw [wp_bind]
    apply wp_mono _ (complies_resubscribe hcall w hw)
    intro rc t ht
    unfold onSuccess
    split
    next hrc => exact fun c' hc' => absurd hrc (ht c' hc').2
    next => exact ht

omit hcall in
/-- A disconnect changes the state without a claim. -/
theorem complies_disconnect : Complies c (disconnect fuel) := by
  apply complies_bind remains_read
  intro clientState
  apply complies_bind remains_read
  intro connected
  apply complies_ite (complies_pure _)
  apply Engages.complies
  refine (engages_setClientState ?_).bind fun rc => sequences.onSuccess rc ?_
  · exact nofun
  · apply sequences.bind allSteps.internalDisconnect
    intro rc
    apply Sequences.ite (S := fun _ p => Proceeds p)
    · exact fun _ => sequences.bind (allSteps.putClientState _) fun _ => sequences.pure _
    · exact fun _ => sequences.bind (allSteps.putClientState _) fun _ => sequences.pure _

/-- Behind its claim a yield proceeds. -/
theorem proceeds_yieldClaimed (change : StateChange) :
    Proceeds (yieldClaimed fuel call change) := by
  have hcomposes : Composes fuel call (Proceeds · : M IotError → Prop) := proceeds_composes hcall
  have hconnect : Proceeds (connect fuel call none) :=
    allSteps.connect fun _ => allSteps.connectFrom rfl hcomposes.handshake none _
  have hattempt : Proceeds (attemptReconnect fuel call) :=
    allSteps.attemptReconnect hconnect (allSteps.resubscribe hcomposes.internalResubscribe)
      (allSteps.prepare _ _)
  have hdisconnect : Proceeds (handleDisconnect fuel call) :=
    allSteps.handleDisconnect rfl allSteps.disconnect
      (allSteps.callDisconnectHandler (fun _ => rfl) (proceeds_application hcall))
  have hreconnect : Proceeds (handleReconnect fuel call) :=
    allSteps.handleReconnect rfl hattempt allSteps.reconnectBackoff
  have hcycle : Proceeds (yieldCycle fuel call) :=
    allSteps.yieldCycle (proceeds_internalCycleRead hcall) (allSteps.keepAlive hdisconnect)
      hdisconnect hreconnect allSteps.connectionLost
  exact allSteps.yieldClaimed hcycle change

/-- A yield answers the code of its refusal. -/
theorem complies_yield (timeoutMs : UInt32) : Complies c (yield fuel call timeoutMs) := by
  apply complies_ite (complies_pure _)
  apply complies_bind remains_read
  intro clientState
  apply complies_ite (complies_pure _)
  apply complies_ite
  · apply Engages.complies
    apply (engages_emit rfl fun _ _ heq => by cases heq).bind
    exact fun _ => proceeds_yieldClaimed hcall _
  · apply complies_bind remains_read
    intro connected
    apply complies_ite (complies_pure _)
    apply complies_ite (complies_pure _)
    apply complies_claim
    · apply sequences.bind (proceeds_emit rfl)
      exact fun _ => proceeds_yieldClaimed hcall _
    · exact fun w hw => hw.answers nofun

/-- The body of a call, whose handlers make calls that proceed. -/
theorem complies_perform (c' : Call) : Complies c (perform fuel call c') := by
  have hcomposes : Composes fuel call (Proceeds · : M IotError → Prop) := proceeds_composes hcall
  cases c' with
  | init params =>
      apply complies_ite _ (complies_pure _)
      apply complies_bind (remains_modifyClient _)
      intro _
      apply Engages.complies
      apply (engages_emit rfl fun _ _ heq => by cases heq).bind
      exact fun _ => sequences.pure _
  | connect params => exact (remains_connect hcall params).complies
  | publish topicName topicNameLen params =>
      change Complies c (publish fuel call topicName topicNameLen params)
      unfold publish
      split
      · apply complies_ite (complies_pure _)
        exact complies_exclusively (hcomposes.internalPublish _ _ _)
          fun _ _ _ hrc hw => hw.answers hrc
      · exact complies_pure _
  | subscribe topicName topicNameLen qos handler data =>
      change Complies c (subscribe fuel call topicName topicNameLen qos handler data)
      unfold subscribe
      split
      · refine complies_exclusively ?_ fun _ _ _ hrc hw => ?_
        · apply hcomposes.internalSubscribe
          intro slot len handler
          exact proceeds_framed rfl (hcomposes.requestSubscription _ _ _ (allSteps.fill _ _))
        · exact hw.answers hrc
      · exact complies_pure _
  | unsubscribe topicFilter topicFilterLen =>
      change Complies c (unsubscribe fuel call topicFilter topicFilterLen)
      unfold unsubscribe
      split
      · exact complies_pure _
      · -- a failed claim is followed by a rollback here
        exact complies_exclusively (hcomposes.internalUnsubscribe _ _ (allSteps.remove _))
          fun _ _ _ _ hw => wp_rollback hw
  | resubscribe => exact complies_resubscribe hcall
  | yield timeoutMs => exact complies_yield hcall timeoutMs
  | disconnect => exact complies_disconnect
  | attemptReconnect => exact complies_attemptReconnect hcall
  | autoreconnectSetStatus newStatus =>
      exact complies_bind (remains_modifyClient _) fun _ => complies_pure _
  | setDisconnectHandler handler =>
      cases handler with
      | none => exact complies_pure _
      | some handler => exact complies_bind (remains_modifyClient _) fun _ => complies_pure _
  | setConnectParams params =>
      cases params with
      | none => exact complies_pure _
      | some params => exact complies_bind (remains_modifyClient _) fun _ => complies_pure _
  | resetNetworkDisconnectedCount =>
      exact complies_bind (remains_modifyClient _) fun _ => complies_pure _

end Calls

/-- A call declines if its claim is refused, and leaves no call that has to. -/
theorem proceeds_call {c : Call} {body : M IotError} (h : Complies c body) :
    Proceeds (framed (.call c) body) := by
  intro w hw
  simp only [framed, wp_bind]
  intro _
  refine ⟨fun c' hc' => ?_, fun t ht => ?_⟩
  · rw [hw.declining] at hc'
    cases hc'
  · apply wp_mono _ (h t (.inl (by rw [ht.2]; rfl)))
    intro rc u hu _
    refine ⟨fun c' hc' => ?_, fun v hv => ⟨?_, ?_⟩⟩
    · obtain ⟨rfl, hrc⟩ := hu c' hc'
      exact .leave hrc
    · rw [hv.2]
      rfl
    · rw [hv.2]
      rfl

/-- Every call of the interface proceeds, whatever its handlers call. -/
theorem proceeds_api (fuel : Nat) (c : Call) : Proceeds (api fuel c) := by
  induction fuel generalizing c with
  | zero => exact fun w hw => hw.declining
  | succ fuel ih => exact proceeds_call (complies_perform ih c)

/-- So does every thread that makes such calls. -/
theorem proceeds_thread (fuel : Nat) : Proceeds (application fuel (api fuel)) :=
  proceeds_application (proceeds_api fuel)

end Claims

/-- In every run in which no connect goes on without its claim, and in which no
refused claim is rolled back with effect, a call whose claim is refused declines. -/
theorem declining_of_steps {ι : Type} [DecidableEq ι] {P P' : Threads ι} (hstart : P.Started)
    (hsteps : Pool.Steps World.adopt anything (fun view i w => (view i).Heeds w) P P') :
    P'.Declining World.Heeds := by
  have hwp : ∀ i, Stable Claims.discipline (P.prog i) (fun _ w => Claims.Engaged w) (P.view i) := by
    intro i w hw
    obtain ⟨⟨fuel, hprog⟩, htrace⟩ := hstart i
    rw [hprog]
    apply Claims.proceeds_thread fuel w
    constructor
    · rw [hw.2, htrace]
      rfl
    · rw [hw.2, htrace]
      rfl
  have hrun :=
    Pool.Steps.rely_guarantee (D := Claims.discipline) (J := fun _ => True) (fun _ => ⟨rfl, rfl⟩)
    (fun _ _ _ h h' => ⟨h'.1.trans h.1, h'.2.trans h.2⟩) (fun _ _ _ _ h => h)
    (fun _ _ _ _ _ _ => ⟨trivial, fun _ _ => ⟨rfl, rfl⟩⟩) trivial hwp hsteps
  intro i c hc
  have hnext := hrun.2 i _ ⟨rfl, rfl⟩
  cases hprog : P'.prog i with
  | act f k =>
      rw [hprog] at hnext
      exact ⟨f, k, rfl, fun hmay => (hnext hmay).1 c hc⟩
  | ask q k =>
      rw [hprog] at hnext
      cases hnext.1.symm.trans hc
  | ret a =>
      rw [hprog] at hnext
      cases hnext.declining.symm.trans hc
  | stop =>
      rw [hprog] at hnext
      cases Eq.symm hnext |>.trans hc

/-- The last thing on record is neither a connect without its claim nor a
refused claim that has been rolled back. -/
def Trace.isHeedful : Trace → Bool
  | .setState .claim _ .connecting false :: _ | .setState .rollback _ _ true :: _ => false
  | _ => true

theorem heeds_of_isHeedful {w w' : World} (h : w'.trace.isHeedful = true) : w.Heeds w' := by
  constructor
  · rintro expected rfl
    cases h
  · rintro expected new rfl
    cases h

/-- An application that makes the same call in every thread. -/
def answerCalling (c : Call) (q : Query) : Answer q :=
  match q with
  | .application => (some c : Option Call)
  | q => (Script.answer ⟨[], []⟩ q).1

/-- Two threads on a client with a subscription. -/
def twoThreads : Threads Bool :=
  ⟨fun _ => application 20 (api 20), fun _ => ⟨subscribedWorld.client, [], []⟩⟩

theorem started_twoThreads : twoThreads.Started := fun _ => ⟨⟨20, rfl⟩, rfl⟩

/-- The first thread checks the state, then the second checks it and claims the
client, and now the first claims it. -/
def claimTurns : List Bool :=
  [false, false, false, false, true, true, true, true, true, false]

def claimedTwice (c : Call) : Threads Bool :=
  claimTurns.foldl (Pool.turn World.adopt (answerCalling c)) twoThreads

theorem steps_claimedTwice {c : Call} {may : World → World → Prop} (ok : World → Bool)
    (hok : ∀ w w', ok w' = true → may w w')
    (h : twoThreads.turnsIn World.adopt (answerCalling c) ok claimTurns = true) :
    Pool.Steps World.adopt anything (fun view i w => may (view i) w) twoThreads (claimedTwice c) :=
  Pool.steps_turns (fun _ _ => trivial) (fun _ _ _ => hok _ _) claimTurns h

/-- The first thread has to decline a publish. -/
theorem declining_of_steps_claimedTwice :
    ((claimedTwice publishCall).view false).trace.declining.isSome = true ∧
      (claimedTwice publishCall).Declining World.Heeds :=
  ⟨by decide +kernel, declining_of_steps started_twoThreads
    (steps_claimedTwice (·.trace.isHeedful) (fun _ _ => heeds_of_isHeedful) (by decide +kernel))⟩

def unsubscribeCall : Call := .unsubscribe (some filterA) 1

/-- Two threads unsubscribe at once: the one whose claim is refused takes the
claim of the other back. -/
theorem not_declining_unsubscribeCall :
    ¬ ∀ P P' : Threads Bool, P.Started →
      Pool.Steps World.adopt anything (fun _ _ _ => True) P P' → P'.Declining fun _ _ => True := by
  intro hall
  have hdeclining := hall _ _ started_twoThreads
    (steps_claimedTwice (c := unsubscribeCall) (fun _ => true) (fun _ _ _ => trivial) rfl)
  have hsome : ((claimedTwice unsubscribeCall).view false).trace.declining.isSome = true := by
    decide +kernel
  have hstate : (((claimedTwice unsubscribeCall).turn World.adopt (answerCalling unsubscribeCall)
      false).view false).client.clientState = .connectedIdle := by
    decide +kernel
  have hbefore : ((claimedTwice unsubscribeCall).view false).client.clientState =
      .connectedUnsubscribeInProgress := by
    decide +kernel
  obtain ⟨c, hc⟩ := Option.isSome_iff_exists.mp hsome
  obtain ⟨f, k, hprog, hdeclines⟩ := hdeclining false c hc
  rw [Pool.turn_view_of_act hprog, (hdeclines trivial).client, hbefore] at hstate
  cases hstate

end MqttClient
