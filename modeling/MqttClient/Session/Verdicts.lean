import MqttClient.Session.Runs
import MqttClient.Wire.Subacks

/-! # What becomes of a SUBACK

The deserializer copies the return codes to an array, and no caller looks at
them: a subscription counts as granted as soon as the packet could be taken
apart. So a refusal by the broker goes unnoticed.
-/

namespace MqttClient

open Effect Program

namespace SubackPacket

/-- The subscription was granted: its return code is a QoS. -/
def Granted (p : SubackPacket) : Prop := ∃ code rest, p.codes = code :: rest ∧ code ≤ 2

/-- The return code of a refusal. -/
def failureCode : UInt8 := 0x80

def Refused (p : SubackPacket) : Prop := failureCode ∈ p.codes

/-- The packet can be taken apart for a caller who takes one code. -/
def IsAccepted (p : SubackPacket) (rxBufLen : Nat) : Prop :=
  5 ≤ rxBufLen ∧ 2 ≤ p.body.length ∧ p.codes.length ≤ 2

theorem isOk_deserializeSuback {p : SubackPacket} {buf : Memory} {rxBufLen : Nat}
    (h : p.IsIn buf rxBufLen) :
    (deserializeSuback buf rxBufLen 1).isOk = true ↔ p.IsAccepted rxBufLen := by
  by_cases hsize : 5 ≤ rxBufLen
  · have hok : (∃ packetId, (readSuback buf rxBufLen 1).output.1 = .ok packetId) ↔
        2 ≤ p.body.length ∧ p.codes.length ≤ 2 := isOk_readSuback 1 h hsize
    rw [(output_readers buf rxBufLen 1).2.2.2] at hok
    rw [IsAccepted, ← hok]
    cases deserializeSuback buf rxBufLen 1 with
    | error rc => exact iff_of_false nofun fun haccepted => nomatch haccepted.2
    | ok r => exact iff_of_true rfl ⟨hsize, r.1, rfl⟩
  · rw [deserializeSuback, if_pos (Nat.not_le.mp hsize)]
    exact iff_of_false nofun fun haccepted => hsize haccepted.1

end SubackPacket

/-- What comes of the SUBACK in the receive buffer. -/
def Client.subackCode (c : Client) : IotError :=
  match deserializeSuback c.readBuf c.readBufSize 1 with
  | .error rc => rc
  | .ok _ => .success

theorem Client.subackCode_of_error {c : Client} {rc : IotError}
    (h : deserializeSuback c.readBuf c.readBufSize 1 = .error rc) : c.subackCode = rc := by
  rw [subackCode, h]

theorem Client.subackCode_of_ok {c : Client} {codes : UInt16 × List QoS}
    (h : deserializeSuback c.readBuf c.readBufSize 1 = .ok codes) : c.subackCode = .success := by
  rw [subackCode, h]

theorem Client.subackCode_eq_success_iff {c : Client} {p : SubackPacket}
    (h : p.IsIn c.readBuf c.readBufSize) :
    c.subackCode = .success ↔ p.IsAccepted c.readBufSize := by
  have herrors := reportsErrors_deserializeSuback c.readBuf c.readBufSize 1
  rw [← SubackPacket.isOk_deserializeSuback h, subackCode]
  cases hresult : deserializeSuback c.readBuf c.readBufSize 1 with
  | error rc => exact iff_of_false (herrors.ne_success hresult) nofun
  | ok r => exact iff_of_true rfl rfl

/-- What a call is to make of a SUBACK: `code` comes of it, the handlers were `before` when it was
there, and are `after` in the end. -/
structure Honors (p : SubackPacket) (code : IotError) (before after : HandlerTable) : Prop where
  granted : code = .success → p.Granted
  refused : p.Refused → code ≠ .success ∧ after = before

/-- A call that fails for a SUBACK it cannot take apart honors those that are broken or granted. -/
theorem honors_iff {c : Client} {p : SubackPacket} {after : HandlerTable}
    (h : p.IsIn c.readBuf c.readBufSize)
    (hafter : c.subackCode ≠ .success → after = c.messageHandlers) :
    Honors p c.subackCode c.messageHandlers after ↔
      (p.IsAccepted c.readBufSize → p.Granted ∧ ¬p.Refused) := by
  have haccepted := Client.subackCode_eq_success_iff h
  constructor
  · intro hhonors hp
    have hcode := haccepted.mpr hp
    exact ⟨hhonors.granted hcode, fun hrefused => (hhonors.refused hrefused).1 hcode⟩
  · intro hgood
    refine ⟨fun hcode => (hgood (haccepted.mp hcode)).1, fun hrefused => ?_⟩
    have hcode : c.subackCode ≠ .success := by
      intro hcode
      exact (hgood (haccepted.mp hcode)).2 hrefused
    exact ⟨hcode, hafter hcode⟩

/-! ## Waiting for a SUBACK -/

/-- The wait for a SUBACK has just ended with success. -/
def World.HasSuback (w : World) : Prop :=
  ∃ older, w.trace = .leave (.waiting .suback) .success :: older

theorem not_hasSuback {w : World} {e : Event} {older : Trace} (htrace : w.trace = e :: older)
    (he : e ≠ .leave (.waiting .suback) .success) : ¬w.HasSuback := by
  rintro ⟨older', hsuback⟩
  rw [htrace] at hsuback
  exact he (List.cons.inj hsuback).1

theorem not_hasSuback_of_quiet {s t : World} (h : Quiet s t) (hs : ¬s.HasSuback) :
    ¬t.HasSuback := by
  obtain ⟨events, htrace, hio⟩ := h.trace
  cases events with
  | nil =>
      rintro ⟨older, hsuback⟩
      exact hs ⟨older, htrace.symm.trans hsuback⟩
  | cons e events =>
      apply not_hasSuback htrace
      rintro rfl
      exact absurd (hio _ List.mem_cons_self) nofun

section Calls

variable {allow : Policy} {fuel : Nat} {call : Call → M IotError} {rc : IotError} {s t : World}

theorem quiet_of_returns {α : Type} {p : M α} {a : α} (h : IsQuiet p)
    (hret : Returns allow p s a t) : Quiet s t := by
  have hwp : wp (solo (fun _ _ => True) allow fun _ _ => True) p (fun _ u => Quiet s u) s :=
    wp_quiet h (fun _ _ _ _ => trivial) (fun _ _ _ _ => trivial) fun _ _ hu => hu
  have hquiet := wp_returns (D := solo (fun _ _ => True) allow fun _ _ => True) hwp hret
  exact hquiet

theorem passes_framed {frame : Frame} {body : M IotError} {u v : World}
    (h : Passes allow body (s.log (.enter frame)) rc v u) :
    Passes allow (framed frame body) s rc (v.log (.leave frame rc)) u := by
  have hleave : Returns allow (emit (.leave frame rc) >>= fun _ => pure rc : M IotError) v rc
      (v.log (.leave frame rc)) :=
    returns_bind.mpr ⟨(), _, returns_modify.mpr rfl, returns_ret.mpr ⟨rfl, rfl⟩⟩
  exact Passes.bind_right (a := ()) (returns_modify.mpr rfl) (h.bind_left hleave)

/-- A packet is serialized and kept, or the call ends here. -/
theorem returns_serialized {make : Client → Except IotError (List UInt8)} {next : Nat → M IotError}
    (h : Returns allow (serialized make next) s rc t) :
    make s.client = .error rc ∧ t = s ∨
      ∃ packet v, v = s.onClient (fun c => { c with writeBuf := c.writeBuf.store 0 packet }) ∧
        Returns allow (next packet.length) v rc t ∧
        ∀ u, Passes allow (next packet.length) v rc t u →
          Passes allow (serialized make next) s rc t u := by
  obtain ⟨c, s', hclient, hrest⟩ := returns_bind.mp h
  obtain ⟨rfl, rfl⟩ := returns_atomically.mp hclient
  split at hrest
  next error herror =>
    obtain ⟨rfl, rfl⟩ := returns_ret.mp hrest
    exact .inl ⟨herror, rfl⟩
  next packet hpacket =>
    obtain ⟨_, v, hmodify, hnext⟩ := returns_bind.mp hrest
    refine .inr ⟨packet, v, returns_modify.mp hmodify, hnext, fun u hu => ?_⟩
    apply Passes.bind_right hclient
    rw [hpacket]
    exact Passes.bind_right hmodify hu

/-- Send a packet and wait for its SUBACK: without one the call fails, and with one it goes on in
the world in which the wait has ended. -/
theorem returns_request {length : Nat} {next : M IotError} (hs : ¬s.HasSuback)
    (h : Returns allow (internalSendPacket fuel length .command >>= fun rc => onSuccess rc
      (internalWaitForRead fuel call .suback >>= fun rc => onSuccess rc next)) s rc t) :
    rc ≠ .success ∧ ¬t.HasSuback ∨
      ∃ u, u.HasSuback ∧ Returns allow next u rc t ∧
        Passes allow (internalSendPacket fuel length .command >>= fun rc => onSuccess rc
          (internalWaitForRead fuel call .suback >>= fun rc => onSuccess rc next)) s rc t u := by
  obtain ⟨sendRc, v, hsend, hrest⟩ := returns_bind.mp h
  by_cases hsent : sendRc = .success
  · subst hsent
    obtain ⟨waitRc, u, hwait, hrest⟩ := returns_bind.mp hrest
    obtain ⟨u', -, htrace⟩ := returns_framed.mp hwait
    by_cases hwaited : waitRc = .success
    · subst hwaited
      refine .inr ⟨u, ⟨u'.trace, htrace ▸ rfl⟩, hrest, ?_⟩
      exact Passes.bind_right hsend (Passes.bind_right hwait (passes_start hrest))
    · rw [onSuccess, if_neg hwaited] at hrest
      obtain ⟨rfl, rfl⟩ := returns_ret.mp hrest
      refine .inl ⟨hwaited, not_hasSuback (congrArg World.trace htrace) ?_⟩
      rintro heq
      cases heq
      exact hwaited rfl
  · rw [onSuccess, if_neg hsent] at hrest
    obtain ⟨rfl, rfl⟩ := returns_ret.mp hrest
    exact .inl ⟨hsent, not_hasSuback_of_quiet
      (quiet_of_returns (isQuiet_internalSendPacket fuel length .command) hsend) hs⟩

/-- The world after the SUBACK has been looked at: the handler is in its slot on success. -/
def World.judged (u : World) (slot : Nat) (handler : MessageHandler) : World :=
  if u.client.subackCode = .success then
    u.onClient fun c => { c with messageHandlers := c.messageHandlers.set slot handler }
  else u

theorem World.trace_judged (u : World) (slot : Nat) (handler : MessageHandler) :
    (u.judged slot handler).trace = u.trace := by
  unfold World.judged
  split <;> rfl

theorem returns_requestSubscription {slot len : Nat} {handler : MessageHandler}
    (hs : ¬s.HasSuback)
    (h : Returns allow (requestSubscription fuel call slot len handler) s rc t) :
    rc ≠ .success ∧ ¬t.HasSuback ∨
      ∃ u, u.HasSuback ∧ rc = u.client.subackCode ∧ t = u.judged slot handler ∧
        Passes allow (requestSubscription fuel call slot len handler) s rc t u := by
  rcases returns_request hs h with hfailed | ⟨u, hsuback, hnext, hpasses⟩
  · exact .inl hfailed
  · refine .inr ⟨u, hsuback, ?_⟩
    obtain ⟨c, v, hclient, hjudge⟩ := returns_bind.mp hnext
    obtain ⟨rfl, rfl⟩ := returns_atomically.mp hclient
    rw [← and_assoc]
    refine ⟨?_, hpasses⟩
    rw [World.judged]
    split at hjudge
    next error herror =>
      obtain ⟨rfl, rfl⟩ := returns_ret.mp hjudge
      have hne := (reportsErrors_deserializeSuback _ _ _).ne_success herror
      rw [Client.subackCode_of_error herror]
      exact ⟨rfl, (if_neg hne).symm⟩
    next codes hcodes =>
      rw [Client.subackCode_of_ok hcodes]
      obtain ⟨_, w, hmodify, hdone⟩ := returns_bind.mp hjudge
      obtain rfl := returns_modify.mp hmodify
      obtain ⟨rfl, rfl⟩ := returns_ret.mp hdone
      exact ⟨rfl, rfl⟩

/-! ## Subscribing -/

/-- What was subscribed has just been judged by its SUBACK. -/
def World.HasVerdict (w : World) : Prop :=
  ∃ slot code older, w.trace = .leave (.subscribing slot) code ::
    .leave (.waiting .suback) .success :: older

theorem returns_subscribeInSlot {slot len : Nat} {handler : MessageHandler}
    (h : Returns allow (subscribeInSlot fuel call slot len handler) s rc t) :
    rc ≠ .success ∧ ¬t.HasVerdict ∨
      ∃ u, u.HasSuback ∧ rc = u.client.subackCode ∧
        t = (u.judged slot handler).log (.leave (.subscribing slot) rc) ∧
        Passes allow (subscribeInSlot fuel call slot len handler) s rc t u := by
  obtain ⟨v, hbody, rfl⟩ := returns_framed.mp h
  have hs : ¬(s.log (.enter (.subscribing slot))).HasSuback := not_hasSuback rfl nofun
  rcases returns_requestSubscription hs hbody with ⟨hrc, hv⟩ | ⟨u, hsuback, hcode, rfl, hpasses⟩
  · refine .inl ⟨hrc, ?_⟩
    rintro ⟨slot', code, older, htrace⟩
    exact hv ⟨older, (List.cons.inj htrace).2⟩
  · refine .inr ⟨u, hsuback, hcode, rfl, ?_⟩
    exact passes_framed hpasses

theorem returns_internalSubscribe {topicName : CString} {topicNameLen : UInt16} {qos : QoS}
    {applicationHandler : HandlerName} {data : Nat}
    (h : Returns allow (internalSubscribe fuel call topicName topicNameLen qos applicationHandler
      data) s rc t) :
    rc ≠ .success ∧ ¬t.HasVerdict ∨
      ∃ u slot, u.HasSuback ∧ rc = u.client.subackCode ∧
        t = (u.judged slot ⟨some topicName, topicNameLen, qos, some applicationHandler, data⟩).log
          (.leave (.subscribing slot) rc) ∧
        Passes allow (internalSubscribe fuel call topicName topicNameLen qos applicationHandler
          data) s rc t u := by
  obtain ⟨c, s₁, hclient, h₁⟩ := returns_bind.mp h
  obtain ⟨_, s₂, hcountdown, h₂⟩ := returns_bind.mp h₁
  obtain ⟨packetId, s₃, hid, h₃⟩ := returns_bind.mp h₂
  -- the countdown is the last event up to here
  have hs₃ : ¬s₃.HasVerdict := by
    obtain rfl := returns_modify.mp hcountdown
    obtain ⟨-, rfl⟩ := returns_atomically.mp hid
    rintro ⟨slot, code, older, htrace⟩
    cases htrace
  rcases returns_serialized h₃ with ⟨herror, rfl⟩ | ⟨packet, v, hv, hnext, hlift⟩
  · exact .inl ⟨(reportsErrors_serializeSubscribe _ _ _ _).ne_success herror, hs₃⟩
  · obtain ⟨c', s₄, hclient', h₄⟩ := returns_bind.mp hnext
    obtain ⟨-, rfl⟩ := returns_atomically.mp hclient'
    dsimp only [id_eq] at h₄ hclient'
    split at h₄
    next hfull =>
      obtain ⟨rfl, rfl⟩ := returns_ret.mp h₄
      refine .inl ⟨nofun, ?_⟩
      rw [hv]
      exact hs₃
    next hroom =>
      rcases returns_subscribeInSlot h₄ with hfailed | ⟨u, hsuback, hcode, ht, hpasses⟩
      · exact .inl hfailed
      · refine .inr ⟨u, _, hsuback, hcode, ht, ?_⟩
        apply Passes.bind_right hclient
        apply Passes.bind_right hcountdown
        apply Passes.bind_right hid
        apply hlift u
        apply Passes.bind_right hclient'
        rw [if_neg hroom]
        exact hpasses

theorem returns_setClientState {change : StateChange} {expected new : ClientState}
    (h : Returns allow (setClientState change expected new) s rc t) :
    t.client.messageHandlers = s.client.messageHandlers ∧
      ∃ granted, t.trace = .setState change expected new granted :: s.trace := by
  obtain rfl := (returns_atomically.mp h).2
  split
  · exact ⟨rfl, true, rfl⟩
  · exact ⟨rfl, false, rfl⟩

/-- The release of a claim may turn a success into a failure, and nothing else. -/
theorem released_spec (bodyRc releaseRc : IotError) :
    ((if bodyRc = .success ∧ releaseRc ≠ .success then releaseRc else bodyRc) = .success →
        bodyRc = .success) ∧
      (bodyRc ≠ .success →
        (if bodyRc = .success ∧ releaseRc ≠ .success then releaseRc else bodyRc) = bodyRc) := by
  by_cases h : bodyRc = .success
  · exact ⟨fun _ => h, fun hne => absurd h hne⟩
  · rw [if_neg fun hboth => h hboth.1]
    exact ⟨id, fun _ => rfl⟩

/-- The claim for an operation is refused, or the operation runs between the claim and its
release. -/
theorem returns_exclusively {inProgress : ClientState} {body : M IotError}
    {onRefused : ClientState → IotError → M IotError}
    (h : Returns allow (exclusively inProgress body onRefused) s rc t) :
    rc ≠ .success ∧ t = s ∨
      ∃ bodyRc v granted,
        Returns allow body (s.granted .claim s.client.clientState inProgress) bodyRc v ∧
        t.client.messageHandlers = v.client.messageHandlers ∧
        t.trace = .setState .release inProgress s.client.clientState granted :: v.trace ∧
        (rc = .success → bodyRc = .success) ∧ (bodyRc ≠ .success → rc = bodyRc) ∧
        ∀ u, Passes allow body (s.granted .claim s.client.clientState inProgress) bodyRc v u →
          Passes allow (exclusively inProgress body onRefused) s rc t u := by
  obtain ⟨connected, s₁, hconnected, h₁⟩ := returns_bind.mp h
  obtain ⟨rfl, rfl⟩ := returns_atomically.mp hconnected
  split at h₁
  next hoff =>
    obtain ⟨rfl, rfl⟩ := returns_ret.mp h₁
    exact .inl ⟨nofun, rfl⟩
  next hon =>
    obtain ⟨clientState, s₂, hstate, h₂⟩ := returns_bind.mp h₁
    obtain ⟨rfl, rfl⟩ := returns_atomically.mp hstate
    split at h₂
    next hbusy =>
      obtain ⟨rfl, rfl⟩ := returns_ret.mp h₂
      exact .inl ⟨nofun, rfl⟩
    next hidle =>
      obtain ⟨claimRc, s₃, hclaim, h₃⟩ := returns_bind.mp h₂
      obtain ⟨rfl, rfl⟩ := returns_atomically.mp hclaim
      simp only [if_true, ne_eq, not_true_eq_false, if_false] at h₃ hclaim
      obtain ⟨bodyRc, v, hbody, h₄⟩ := returns_bind.mp h₃
      obtain ⟨releaseRc, s₄, hrelease, h₅⟩ := returns_bind.mp h₄
      obtain ⟨rfl, rfl⟩ := returns_ret.mp h₅
      obtain ⟨htable, granted, htrace⟩ := returns_setClientState hrelease
      obtain ⟨hsound, hfailed⟩ := released_spec bodyRc releaseRc
      refine .inr ⟨bodyRc, v, granted, hbody, htable, htrace, hsound, hfailed, ?_⟩
      -- what passes in the body passes between the claim and the release
      intro u hu
      apply Passes.bind_right hconnected
      rw [if_neg hon]
      apply Passes.bind_right hstate
      rw [if_neg hidle]
      apply Passes.bind_right hclaim
      rw [if_neg (not_not.mpr rfl)]
      exact hu.bind_left h₄

/-- A call of subscribe that has judged a SUBACK in the world `u`: what came of it was `code`, the
handler went into `slot` on success, and the call returned `rc` in the world `t`. -/
structure SubscribesBy (c : Call) (handler : MessageHandler) (slot : Nat) (code rc : IotError)
    (t u : World) : Prop where
  hasSuback : u.HasSuback
  trace : ∃ clientState granted, t.trace = .leave (.call c) rc ::
    .setState .release .connectedSubscribeInProgress clientState granted ::
      .leave (.subscribing slot) code :: u.trace
  messageHandlers : t.client.messageHandlers =
    if code = .success then u.client.messageHandlers.set slot handler
    else u.client.messageHandlers
  sound : rc = .success → code = .success
  failed : code ≠ .success → rc = code

/-- A call of subscribe has ended behind a SUBACK. -/
def World.EndsWithVerdict (t : World) : Prop :=
  ∃ c rc change expected new granted slot code older, t.trace = .leave (.call c) rc ::
    .setState change expected new granted :: .leave (.subscribing slot) code ::
      .leave (.waiting .suback) .success :: older

/-- The SUBACK honored by the code that comes of it. -/
def HonorsSuback (code : IotError) (t u : World) : Prop :=
  ∀ p : SubackPacket, p.IsIn u.client.readBuf u.client.readBufSize →
    (Honors p code u.client.messageHandlers t.client.messageHandlers ↔
      (p.IsAccepted u.client.readBufSize → p.Granted ∧ ¬p.Refused))

/-- A call that is left as soon as it was entered. -/
theorem not_endsWithVerdict (c : Call) :
    ¬((s.log (.enter (.call c))).log (.leave (.call c) rc)).EndsWithVerdict := by
  rintro ⟨_, _, _, _, _, _, _, _, _, htrace⟩
  cases htrace

/-- A subscribe fails before it has got a SUBACK, or it judges one. -/
theorem returns_subscribe {c : Call} {topicName : Option CString}
    {topicNameLen : UInt16} {qos : QoS}
    {applicationHandler : Option HandlerName} {data : Nat}
    (hc : c = .subscribe topicName topicNameLen qos applicationHandler data)
    (h : Returns allow (api fuel c) s rc t) :
    rc ≠ .success ∧ ¬t.EndsWithVerdict ∨
      ∃ u slot code, Passes allow (api fuel c) s rc t u ∧
        SubscribesBy c ⟨topicName, topicNameLen, qos, applicationHandler, data⟩ slot code rc t u ∧
        HonorsSuback code t u := by
  cases fuel with
  | zero => exact absurd h not_returns_stop
  | succ fuel =>
      obtain ⟨v, hbody, rfl⟩ := returns_framed.mp h
      subst hc
      cases topicName with
      | none =>
          obtain ⟨rfl, rfl⟩ := returns_ret.mp hbody
          exact .inl ⟨nofun, not_endsWithVerdict _⟩
      | some topicName =>
          cases applicationHandler with
          | none =>
              obtain ⟨rfl, rfl⟩ := returns_ret.mp hbody
              exact .inl ⟨nofun, not_endsWithVerdict _⟩
          | some applicationHandler =>
              rcases returns_exclusively hbody with
                ⟨hrc, rfl⟩ | ⟨bodyRc, w, granted, hinternal, htable, htrace, hsound, hfailed, hlift⟩
              · exact .inl ⟨hrc, not_endsWithVerdict _⟩
              · rcases returns_internalSubscribe hinternal with
                  ⟨hne, hnone⟩ | ⟨u, slot, hsuback, hcode, rfl, hpasses⟩
                · -- nothing was judged in the body
                  refine .inl ⟨fun hrc => hne (hsound hrc), ?_⟩
                  rintro ⟨_, _, _, _, _, _, slot, code, older, hends⟩
                  rw [World.trace_log, htrace] at hends
                  exact hnone ⟨slot, code, older, (List.cons.inj (List.cons.inj hends).2).2⟩
                · refine .inr ⟨u, slot, bodyRc, passes_framed (hlift u hpasses), ?_, ?_⟩
                  · refine ⟨hsuback, ⟨s.client.clientState, granted, ?_⟩, ?_, hsound, hfailed⟩
                    · rw [World.trace_log, htrace, World.trace_log, World.trace_judged]
                      rfl
                    · rw [World.client_log, htable, World.client_log, World.judged, hcode]
                      split <;> rfl
                  · intro p hp
                    rw [hcode]
                    apply honors_iff hp
                    intro hne
                    rw [World.client_log, htable, World.client_log, World.judged, if_neg hne]

/-! ## Resubscribing -/

/-- The turns of a resubscribe from the slot `itr` on: what came of each, and in which world it
ended. A turn that fails is the last one. -/
inductive Turns (allow : Policy) (fuel : Nat) (call : Call → M IotError) :
    Nat → World → List (IotError × World) → World → Prop where
  | nil (itr : Nat) (s : World) : Turns allow fuel call itr s [] s
  | cons {itr : Nat} {s u t : World} {code : IotError} {turns : List (IotError × World)}
      (hturn : Returns allow (resubscribeSlot fuel call itr) s code u)
      (hfailed : code ≠ .success → turns = []) (hrest : Turns allow fuel call (itr + 1) u turns t) :
      Turns allow fuel call itr s ((code, u) :: turns) t

/-- The loop takes a turn for each slot, as long as they succeed. -/
theorem turns_of_returns {itr remaining : Nat}
    (h : Returns allow (resubscribeLoop fuel call itr remaining) s rc t) :
    ∃ turns, Turns allow fuel call itr s turns t ∧
      (rc = .success → turns.length = remaining ∧ ∀ turn ∈ turns, turn.1 = .success) ∧
      ∀ turn ∈ turns, turn.1 ≠ .success → rc = turn.1 := by
  induction remaining generalizing itr s with
  | zero =>
      obtain ⟨rfl, rfl⟩ := returns_ret.mp h
      exact ⟨[], .nil itr t, fun _ => ⟨rfl, List.forall_mem_nil _⟩, List.forall_mem_nil _⟩
  | succ remaining ih =>
      obtain ⟨code, u, hturn, hrest⟩ := returns_bind.mp h
      by_cases hcode : code = .success
      · rw [onSuccess, if_pos hcode] at hrest
        obtain ⟨turns, hturns, hall, hfailed⟩ := ih hrest
        refine ⟨(code, u) :: turns, .cons hturn (fun hne => absurd hcode hne) hturns, ?_, ?_⟩
        · intro hrc
          obtain ⟨hlength, hsuccess⟩ := hall hrc
          refine ⟨congrArg (· + 1) hlength, ?_⟩
          exact List.forall_mem_cons.mpr ⟨hcode, hsuccess⟩
        · exact List.forall_mem_cons.mpr ⟨fun hne => absurd hcode hne, hfailed⟩
      · rw [onSuccess, if_neg hcode] at hrest
        obtain ⟨rfl, rfl⟩ := returns_ret.mp hrest
        refine ⟨[(rc, t)], .cons hturn (fun _ => rfl) (.nil _ t), fun h => absurd h hcode, ?_⟩
        exact List.forall_mem_cons.mpr ⟨fun _ => rfl, List.forall_mem_nil _⟩

/-- A turn that judges a SUBACK ends in the world in which it does so. -/
theorem returns_resubscribeSlot {itr : Nat}
    (h : Returns allow (resubscribeSlot fuel call itr) s rc t) :
    (rc = .success → t.HasSuback) ∧ (t.HasSuback → rc = t.client.subackCode) := by
  obtain ⟨c, s₁, hclient, h₁⟩ := returns_bind.mp h
  obtain ⟨-, rfl⟩ := returns_atomically.mp hclient
  obtain ⟨_, s₂, hcountdown, h₂⟩ := returns_bind.mp h₁
  obtain rfl := returns_modify.mp hcountdown
  obtain ⟨packetId, s₃, hid, h₃⟩ := returns_bind.mp h₂
  obtain ⟨c', s₄, hclient', h₄⟩ := returns_bind.mp h₃
  obtain ⟨-, rfl⟩ := returns_atomically.mp hclient'
  -- the countdown is the last event up to here
  have hs : ¬s₄.HasSuback := by
    obtain ⟨-, rfl⟩ := returns_atomically.mp hid
    exact not_hasSuback rfl nofun
  dsimp only at h₄
  split at h₄
  next => exact absurd h₄ not_returns_stop
  next topicName htopic =>
    rcases returns_serialized h₄ with ⟨herror, rfl⟩ | ⟨packet, v, rfl, hnext, -⟩
    · have hrc := (reportsErrors_serializeSubscribe _ _ _ _).ne_success herror
      exact ⟨fun heq => absurd heq hrc, fun hsuback => absurd hsuback hs⟩
    · have hv : ¬World.HasSuback (World.onClient s₄ fun c =>
          { c with writeBuf := c.writeBuf.store 0 packet }) := hs
      rcases returns_request hv hnext with ⟨hrc, ht⟩ | ⟨u, hsuback, hjudge, -⟩
      · exact ⟨fun heq => absurd heq hrc, fun hsuback => absurd hsuback ht⟩
      · obtain ⟨c'', w, hclient'', hdone⟩ := returns_bind.mp hjudge
        obtain ⟨rfl, rfl⟩ := returns_atomically.mp hclient''
        split at hdone
        next error herror =>
          obtain ⟨rfl, rfl⟩ := returns_ret.mp hdone
          exact ⟨fun _ => hsuback, fun _ => (Client.subackCode_of_error herror).symm⟩
        next codes hcodes =>
          obtain ⟨rfl, rfl⟩ := returns_ret.mp hdone
          exact ⟨fun _ => hsuback, fun _ => (Client.subackCode_of_ok hcodes).symm⟩

theorem Turns.judged {itr : Nat} {turns : List (IotError × World)}
    (h : Turns allow fuel call itr s turns t) :
    ∀ turn ∈ turns, (turn.1 = .success → turn.2.HasSuback) ∧
      (turn.2.HasSuback → turn.1 = turn.2.client.subackCode) ∧
      (turn.1 ≠ .success → t = turn.2) := by
  induction h with
  | nil => exact List.forall_mem_nil _
  | @cons itr s u t code turns hturn hfailed hrest ih =>
      obtain ⟨hsuccess, hcode⟩ := returns_resubscribeSlot hturn
      refine List.forall_mem_cons.mpr ⟨⟨hsuccess, hcode, fun hne => ?_⟩, ih⟩
      obtain rfl := hfailed hne
      cases hrest
      rfl

/-- A call of resubscribe that has taken these turns. -/
structure ResubscribesBy (allow : Policy) (fuel : Nat) (call : Call → M IotError) (rc : IotError)
    (s t : World) (turns : List (IotError × World)) : Prop where
  taken : ∃ v granted, Turns allow fuel call 0
      ((s.log (.enter (.call .resubscribe))).granted .claim .connectedIdle
        .connectedResubscribeInProgress) turns v ∧
    t.client.messageHandlers = v.client.messageHandlers ∧
    t.trace = .leave (.call .resubscribe) rc ::
      .setState .release .connectedResubscribeInProgress .connectedIdle granted :: v.trace
  restored : rc = .success → turns.length = s.client.messageHandlers.getFreeMessageHandlerIndex ∧
    ∀ turn ∈ turns, turn.1 = .success
  failed : ∀ turn ∈ turns, turn.1 ≠ .success → rc = turn.1
  awaited : ∀ turn ∈ turns, turn.1 = .success → turn.2.HasSuback

/-- A resubscribe is refused, or each of its turns judges its SUBACK. -/
theorem returns_resubscribe (h : Returns allow (api fuel .resubscribe) s rc t) :
    rc ≠ .success ∧ t = (s.log (.enter (.call .resubscribe))).log (.leave (.call .resubscribe) rc) ∨
      ∃ turns, ResubscribesBy allow (fuel - 1) (api (fuel - 1)) rc s t turns ∧
        ∀ turn ∈ turns, turn.2.HasSuback → HonorsSuback turn.1 t turn.2 := by
  cases fuel with
  | zero => exact absurd h not_returns_stop
  | succ fuel =>
      obtain ⟨v, hbody, rfl⟩ := returns_framed.mp h
      obtain ⟨connected, s₁, hconnected, h₁⟩ := returns_bind.mp hbody
      obtain ⟨rfl, rfl⟩ := returns_atomically.mp hconnected
      split at h₁
      next => obtain ⟨rfl, rfl⟩ := returns_ret.mp h₁; exact .inl ⟨nofun, rfl⟩
      next =>
        obtain ⟨clientState, s₂, hstate, h₂⟩ := returns_bind.mp h₁
        obtain ⟨rfl, rfl⟩ := returns_atomically.mp hstate
        split at h₂
        next => obtain ⟨rfl, rfl⟩ := returns_ret.mp h₂; exact .inl ⟨nofun, rfl⟩
        next hbusy =>
          obtain ⟨claimRc, s₃, hclaim, h₃⟩ := returns_bind.mp h₂
          obtain ⟨rfl, rfl⟩ := returns_atomically.mp hclaim
          have hidle : s.client.clientState = .connectedIdle := not_not.mp hbusy
          simp only [id_eq, World.client_log, hidle, if_true, onSuccess] at h₃
          -- the claim, the loop and the release, one after the other
          obtain ⟨resubRc, w, hinternal, h₄⟩ := returns_bind.mp h₃
          obtain ⟨releaseRc, s₄, hrelease, h₅⟩ := returns_bind.mp h₄
          obtain ⟨rfl, rfl⟩ := returns_ret.mp h₅
          obtain ⟨c, s₅, hclient, hloop⟩ := returns_bind.mp hinternal
          obtain ⟨rfl, rfl⟩ := returns_atomically.mp hclient
          obtain ⟨turns, hturns, hall, hcode⟩ := turns_of_returns hloop
          obtain ⟨htable, granted, htrace⟩ := returns_setClientState hrelease
          obtain ⟨hsound, hfailed⟩ := released_spec resubRc releaseRc
          have hjudged := hturns.judged
          refine .inr ⟨turns, ⟨⟨w, granted, hturns, htable, ?_⟩, fun hrc => hall (hsound hrc), ?_,
            fun turn hturn => (hjudged turn hturn).1⟩, ?_⟩
          · rw [World.trace_log, htrace]
          · intro turn hturn hne
            have heq := hcode turn hturn hne
            rw [← heq] at hne ⊢
            exact hfailed hne
          · intro turn hturn hsuback p hp
            -- only a turn that was not granted is the last one
            obtain ⟨-, hverdict, hlast⟩ := hjudged turn hturn
            rw [hverdict hsuback]
            apply honors_iff hp
            intro hne
            rw [← hverdict hsuback] at hne
            rw [World.client_log, htable, hlast hne]

/-- Calls honor just those SUBACKs that they cannot take apart or that grant what was asked for: a
subscribe judges its SUBACK, or fails without one, and a resubscribe judges one in each turn. -/
theorem honorsSuback_of_returns {c : Call} (h : Returns allow (api fuel c) s rc t) :
    (∀ topicName topicNameLen qos applicationHandler data,
      c = .subscribe topicName topicNameLen qos applicationHandler data →
        rc ≠ .success ∧ ¬t.EndsWithVerdict ∨
          ∃ u slot code, Passes allow (api fuel c) s rc t u ∧
            SubscribesBy c ⟨topicName, topicNameLen, qos, applicationHandler,
              data⟩ slot code rc t u ∧
            HonorsSuback code t u) ∧
      (c = .resubscribe →
        rc ≠ .success ∧
            t = (s.log (.enter (.call .resubscribe))).log (.leave (.call .resubscribe) rc) ∨
          ∃ turns, ResubscribesBy allow (fuel - 1) (api (fuel - 1)) rc s t turns ∧
            ∀ turn ∈ turns, turn.2.HasSuback → HonorsSuback turn.1 t turn.2) := by
  constructor
  · intro topicName topicNameLen qos applicationHandler data hc
    exact returns_subscribe hc h
  · rintro rfl
    exact returns_resubscribe h

end Calls

/-! ## A refusal that goes unnoticed -/

/-- The SUBACK to the subscribe of a connected client, with the code of a refusal. -/
def refusal : SubackPacket where
  header := 0x90
  field := [3]
  body := [0, 2, 0x80]
  isField := by decide
  field_le := by decide
  length_eq := by decide
  isSuback := headerType_suback

def unnoticedWorld : World :=
  (connectedWorld.perform 20 (subscribeCall filterA) (packet refusal.bytes) []).2.2

theorem returns_unnoticedWorld :
    Returns anything (api 20 (subscribeCall filterA)) connectedWorld .success unnoticedWorld :=
  returns_perform (fun _ _ _ _ => trivial) (keepsTo_true _ _ _) (by decide +kernel)

theorem honorsSuback_of_returns_unnoticedWorld :
    (∀ topicName topicNameLen qos applicationHandler data,
      subscribeCall filterA = .subscribe topicName topicNameLen qos applicationHandler data →
        IotError.success ≠ .success ∧ ¬unnoticedWorld.EndsWithVerdict ∨
          ∃ u slot code,
            Passes anything (api 20 (subscribeCall filterA)) connectedWorld
              .success unnoticedWorld u ∧
            SubscribesBy (subscribeCall filterA)
              ⟨topicName, topicNameLen, qos, applicationHandler, data⟩ slot code .success
              unnoticedWorld u ∧
            HonorsSuback code unnoticedWorld u) ∧
      (subscribeCall filterA = .resubscribe →
        IotError.success ≠ .success ∧ unnoticedWorld =
            (connectedWorld.log (.enter (.call .resubscribe))).log
              (.leave (.call .resubscribe) .success) ∨
          ∃ turns, ResubscribesBy anything (20 - 1) (api (20 - 1)) .success connectedWorld
              unnoticedWorld turns ∧
            ∀ turn ∈ turns, turn.2.HasSuback → HonorsSuback turn.1 unnoticedWorld turn.2) :=
  honorsSuback_of_returns returns_unnoticedWorld

/-- The packet is in the buffer, it refuses what was asked for and grants nothing, and the call
succeeds with the handler in its slot. A resubscribe succeeds with it as well. -/
theorem not_honors_unnoticedWorld :
    Returns anything (api 20 (subscribeCall filterA)) connectedWorld .success unnoticedWorld ∧
      refusal.IsIn unnoticedWorld.client.readBuf unnoticedWorld.client.readBufSize ∧
      refusal.Refused ∧ ¬refusal.Granted ∧
      (connectedWorld.client.messageHandlers.slot 0).isFree = true ∧
      (unnoticedWorld.client.messageHandlers.slot 0).isFree = false ∧
      ¬Honors refusal .success connectedWorld.client.messageHandlers
        unnoticedWorld.client.messageHandlers ∧
      (subscribedWorld.perform 20 .resubscribe (packet refusal.bytes) []).1 = some .success := by
  have hrefused : refusal.Refused := List.mem_singleton.mpr rfl
  refine ⟨returns_unnoticedWorld, ⟨by decide +kernel, by decide +kernel⟩, hrefused, ?_,
    by decide +kernel, by decide +kernel, fun hhonors => (hhonors.refused hrefused).1 rfl,
    by decide +kernel⟩
  rintro ⟨code, rest, hcodes, hcode⟩
  obtain ⟨rfl, rfl⟩ := List.cons.inj hcodes
  exact absurd hcode (by decide)

end MqttClient
