import MqttClient.Session.Nesting
import MqttClient.Session.Records
import MqttClient.Wire.Publications

/-! # While a message is handled

The handlers of a message may make any call, and other messages are handled
while such a call waits. What is on record at the level of the first message
and the place of its parameter block are out of reach of all that.
-/

namespace MqttClient

open Effect Program

/-! ## Levels of the record -/

namespace Trace

/-- What was recorded while `n` calls were in progress. -/
def level (n : Nat) : Trace → Trace
  | [] => []
  | e :: t => if (stack t).length = n then e :: level n t else level n t

theorem level_cons_of_lt {n : Nat} {t : Trace} (h : n < (stack t).length) (e : Event) :
    level n (e :: t) = level n t := if_neg (Nat.ne_of_gt h)

theorem level_cons_self {n : Nat} {t : Trace} (h : (stack t).length = n) (e : Event) :
    level n (e :: t) = e :: level n t := if_pos h

theorem stack_append {ev t : Trace} (h : ∀ e ∈ ev, e.isInner = true) :
    stack (ev ++ t) = stack t := by
  rw [← map_fst_opened, opened_append h, map_fst_opened]

theorem level_append {n : Nat} {ev t : Trace} (h : ∀ e ∈ ev, e.isInner = true)
    (hn : n < (stack t).length) : level n (ev ++ t) = level n t := by
  induction ev with
  | nil => rfl
  | cons e ev ih =>
      have hev : ∀ e' ∈ ev, e'.isInner = true := fun e' he' => h e' (List.mem_cons_of_mem e he')
      rw [List.cons_append, level_cons_of_lt, ih hev]
      rwa [stack_append hev]

variable {α : Type} {f : Event → Option α}

theorem filterMap_level_cons {e : Event} (h : f e = none) (n : Nat) (t : Trace) :
    (level n (e :: t)).filterMap f = (level n t).filterMap f := by
  rw [level]
  split
  · exact List.filterMap_cons_none h
  · rfl

theorem filterMap_level_append {ev : List Event} (h : ∀ e ∈ ev, f e = none) (n : Nat) (t : Trace) :
    (level n (ev ++ t)).filterMap f = (level n t).filterMap f := by
  induction ev with
  | nil => rfl
  | cons e ev ih =>
      rw [List.cons_append, filterMap_level_cons (h e List.mem_cons_self)]
      exact ih fun e' he' => h e' (List.mem_cons_of_mem e he')

end Trace

/-! ## Out of reach -/

/-- More than `n` calls are in progress, what is on record at their level is
`own`, and more than `k` messages are being handled. -/
structure World.IsWithin (n k : Nat) (own : Trace) (w : World) : Prop where
  stack : n < w.stack.length
  level : w.trace.level n = own
  messages : k < w.messages.length

/-- The same calls are in progress and the same messages are being handled as
before, and `K` has been kept. -/
structure Resumes (K : World → World → Prop) (s t : World) : Prop extends Extends s t where
  messages : t.messages.map MessageParams.withoutId = s.messages.map MessageParams.withoutId
  kept : K s t

/-- The discipline of single-threaded runs without the steps that `may` leaves out. -/
def restricted (may guar : World → World → Prop) : Discipline World Answer where
  pre _ _ := True
  allow := anything
  may := may
  guar := guar
  rely s t := t = s
  halts _ := True

instance (may guar : World → World → Prop) : (restricted may guar).Solo := ⟨fun _ _ => Iff.rfl⟩

/-- Steps within that `may` lets pass keep `K`. -/
structure Shelters (n k : Nat) (own : Trace) (may guar K : World → World → Prop) : Prop where
  refl : ∀ s, K s s
  trans : ∀ s t u, K s t → K t u → K s u
  keeps : ∀ s t, s.IsWithin n k own → t.IsWithin n k own → may s t → K s t
  guar : ∀ s t, t.IsWithin n k own → guar s t

section Shelters

variable {n k : Nat} {own : Trace} {may guar K : World → World → Prop}

theorem length_eq_of_withoutId {msgs msgs' : List MessageParams}
    (h : msgs'.map MessageParams.withoutId = msgs.map MessageParams.withoutId) :
    msgs'.length = msgs.length := by
  simpa using congrArg List.length h

theorem World.IsWithin.adds {s t : World} (hs : s.IsWithin n k own)
    (h : Adds (·.isInner = true) s t) (hmessages : k < t.messages.length) : t.IsWithin n k own := by
  obtain ⟨ev, htrace, hev⟩ := h
  refine ⟨?_, ?_, hmessages⟩
  · rw [World.stack, htrace, Trace.stack_append hev]
    exact hs.stack
  · rw [htrace, Trace.level_append hev hs.stack, hs.level]

namespace Shelters

/-- The program comes back to what it has found. -/
abbrev Comes (n k : Nat) (own : Trace) (may guar K : World → World → Prop) {α : Type} (p : M α) :
    Prop :=
  Preserves (restricted may guar) (fun w => w.IsWithin n k own) (Resumes K) p

variable (h : Shelters n k own may guar K)

include h

theorem resumes_refl (s : World) : Resumes K s s := ⟨.refl s, rfl, h.refl s⟩

theorem resumes_trans (s t u : World) (hst : Resumes K s t) (htu : Resumes K t u) : Resumes K s u :=
  ⟨hst.toExtends.trans htu.toExtends, htu.messages.trans hst.messages,
    h.trans s t u hst.kept htu.kept⟩

/-- A single step inside a call. -/
theorem step {s t : World} (hs : s.IsWithin n k own) (htrace : Adds (·.isInner = true) s t)
    (hmessages : t.messages.map MessageParams.withoutId = s.messages.map MessageParams.withoutId)
    (hmay : may s t) : guar s t ∧ t.IsWithin n k own ∧ Resumes K s t := by
  have ht := hs.adds htrace (length_eq_of_withoutId hmessages ▸ hs.messages)
  exact ⟨h.guar s t ht, ht, .of_adds htrace, hmessages, h.keeps s t hs ht hmay⟩

theorem comes_atomically {α : Type} {v : World → α} {f : World → World}
    (hf : ∀ s, Adds (·.isInner = true) s (f s) ∧ (f s).messages = s.messages) :
    Comes n k own may guar K (Program.atomically v f) := fun s hs =>
  wp_act_solo.mpr fun hmay =>
    h.step hs (hf s).1 (congrArg (List.map MessageParams.withoutId) (hf s).2) hmay

theorem comes_modify {f : World → World}
    (hf : ∀ s, Adds (·.isInner = true) s (f s) ∧ (f s).messages = s.messages) :
    Comes n k own may guar K (Program.modify f) := fun s hs =>
  wp_act_solo.mpr fun hmay =>
    h.step hs (hf s).1 (congrArg (List.map MessageParams.withoutId) (hf s).2) hmay

theorem comes_setClientState (change : StateChange) (expected new : ClientState) :
    Comes n k own may guar K (setClientState change expected new) := by
  apply h.comes_atomically
  intro s
  split
  next => exact ⟨adds_one rfl rfl, rfl⟩
  next => exact ⟨adds_one rfl rfl, rfl⟩

theorem comes_query (q : Query) : Comes n k own may guar K (Program.query (A := Answer) q) :=
  fun s hs => wp_ask_solo.mpr ⟨trivial, fun _ _ => ⟨hs, h.resumes_refl s⟩⟩

theorem comes_io {α : Type} {p : M α} (hp : IsIo p) : Comes n k own may guar K p := by
  intro s hs
  apply hp.wp (I := fun t => t.IsWithin n k own ∧ Resumes K s t) (fun _ _ _ _ => trivial) _ _
    (fun _ _ => trivial) ⟨hs, h.resumes_refl s⟩
  · intro t u ht hu hmay
    obtain ⟨hguar, hwithin, hresumes⟩ := h.step ht.1 hu.adds hu.messages hmay
    exact ⟨hguar, hwithin, h.resumes_trans s t u ht.2 hresumes⟩
  · rintro t u ht rfl
    exact ht

theorem comes_framed {f : Frame} {body : M IotError} (hbody : Comes n k own may guar K body) :
    Comes n k own may guar K (framed f body) := by
  intro s hs
  apply wp_act_solo.mpr
  intro hmay
  have henter : (s.log (.enter f)).IsWithin n k own := by
    refine ⟨Nat.lt_succ_of_lt hs.stack, ?_, hs.messages⟩
    rw [← hs.level]
    exact Trace.level_cons_of_lt hs.stack _
  refine ⟨h.guar _ _ henter, ?_⟩
  change wp _ (body >>= fun rc => emit (.leave f rc) >>= fun _ => .ret rc) _ _
  rw [wp_bind]
  apply wp_mono _ (hbody _ henter)
  intro rc t ht
  apply wp_act_solo.mpr
  intro hmay'
  have hextends : Extends s (t.log (.leave f rc)) := ht.2.toExtends.leave rc
  have hleave : (t.log (.leave f rc)).IsWithin n k own := by
    refine ⟨?_, ?_, ht.1.messages⟩
    · rw [hextends.stack]
      exact hs.stack
    · rw [← ht.1.level]
      exact Trace.level_cons_of_lt ht.1.stack _
  refine ⟨h.guar _ _ hleave, hleave, hextends, ht.2.messages, ?_⟩
  exact h.trans _ _ _ (h.keeps _ _ hs henter hmay)
    (h.trans _ _ _ ht.2.kept (h.keeps _ _ ht.1 hleave hmay'))

theorem sequences : Sequences fun _ p => Comes n k own may guar K p where
  plain hp := h.comes_io hp.isIo
  bind hp hg := hp.bind h.resumes_trans hg

/-- A message that is handled meanwhile is put on top of the others and taken off again. -/
theorem comes_internalHandlePublish {fuel : Nat} {call : Call → M IotError}
    (hdeliver : ∀ topicOff len,
      Comes n k own may guar K (internalDeliverMessage fuel call topicOff len))
    (timer : TimerName) : Comes n k own may guar K (internalHandlePublish fuel call timer) := by
  apply h.sequences.bind (h.comes_io isIo_getClient)
  intro c
  split
  next => exact h.sequences.pure _
  next f _ =>
    intro s hs
    apply wp_act_solo.mpr
    intro hpush
    -- the message's parameters are put on the stack for as long as it is delivered
    generalize hmsg : (⟨f.qos, f.retained, f.dup, f.packetId.getD 0, f.payloadOff, f.payloadLen⟩ :
      MessageParams) = msg
    rw [hmsg] at hpush
    have hs' : ({ s with messages := msg :: s.messages } : World).IsWithin n k own :=
      ⟨hs.stack, hs.level, Nat.lt_succ_of_lt hs.messages⟩
    refine ⟨h.guar _ _ hs', ?_⟩
    change wp _ (internalDeliverMessage fuel call f.topicOff f.topicNameLen >>= _) _ _
    rw [wp_bind]
    apply wp_mono _ (hdeliver f.topicOff f.topicNameLen _ hs')
    intro rc t ht
    apply wp_act_solo.mpr
    intro hpop
    have hmessages : t.messages.tail.map MessageParams.withoutId =
        s.messages.map MessageParams.withoutId := by
      rw [List.map_tail, ht.2.messages]
      rfl
    have ht' : ({ t with messages := t.messages.tail } : World).IsWithin n k own :=
      ⟨ht.1.stack, ht.1.level, length_eq_of_withoutId hmessages ▸ hs.messages⟩
    have hresumes : Resumes K s { t with messages := t.messages.tail } := by
      refine ⟨⟨ht.2.trace, ht.2.opened⟩, hmessages, ?_⟩
      exact h.trans _ _ _ (h.keeps _ _ hs hs' hpush)
        (h.trans _ _ _ ht.2.kept (h.keeps _ _ ht.1 ht' hpop))
    refine ⟨h.guar _ _ ht', ?_⟩
    -- what is left is the acknowledgement
    have hrest : Comes n k own may guar K (onSuccess rc
        (if (t.messages.headD msg).qos = qos0 then pure .success
          else serialized (fun c => serializeAck c.writeBufSize .puback 0 (t.messages.headD msg).id)
            fun len => internalSendPacket fuel (len % 2 ^ 32) timer)) := by
      apply h.sequences.onSuccess
      apply Sequences.ite
      · exact fun _ => h.sequences.pure _
      · exact fun _ => h.sequences.serialized fun _ => h.comes_io (isIo_internalSendPacket _ _ _)
    apply wp_mono _ (hrest _ ht')
    exact fun _ u hu => ⟨hu.1, h.resumes_trans _ _ _ hresumes hu.2⟩

theorem allSteps : AllSteps (fun _ => True) fun _ p => Comes n k own may guar K p where
  toSequences := h.sequences
  delivered f hf := h.comes_modify fun s => by
    obtain ⟨name, topic, payload, data, heq⟩ := hf s
    rw [heq]
    exact ⟨adds_one rfl rfl, rfl⟩
  io hp := h.comes_io hp.isIo
  handled := h.comes_internalHandlePublish
  framed _ hbody := h.comes_framed hbody
  query q _ := h.comes_query q
  emit e he := h.comes_modify fun s => ⟨adds_one rfl (Event.isInner_of_isTransport he), rfl⟩
  setState change expected new _ := h.comes_setClientState change expected new
  putState new _ := h.comes_modify fun s => ⟨adds_one rfl rfl, rfl⟩
  prepare change expected := h.comes_setClientState change expected _
  putBack := h.comes_modify fun s => ⟨adds_one rfl rfl, rfl⟩
  change f _ := h.comes_modify fun s => ⟨adds_of_eq rfl, rfl⟩
  fill slot handler := h.sequences.bind (h.comes_modify fun s => ⟨adds_of_eq rfl, rfl⟩)
    fun _ => h.sequences.pure _
  remove topicFilter := h.sequences.bind (h.comes_modify fun s => ⟨adds_one rfl rfl, rfl⟩)
    fun _ => h.sequences.pure _

theorem comes_init (params : InitParams) : Comes n k own may guar K (init params) := by
  unfold init
  apply Sequences.ite (S := fun _ p => Comes n k own may guar K p)
  · intro _
    refine h.sequences.bind (h.comes_modify fun s => ⟨adds_of_eq rfl, rfl⟩) fun _ => ?_
    refine h.sequences.bind (h.comes_modify fun s => ⟨adds_one rfl rfl, rfl⟩) fun _ => ?_
    exact h.sequences.pure _
  · exact fun _ => h.sequences.pure _

theorem comes_application {call : Call → M IotError}
    (hcall : ∀ c, Comes n k own may guar K (call c))
    (fuel : Nat) : Comes n k own may guar K (application fuel call) :=
  h.sequences.application (h.comes_query _) hcall fuel

theorem comes_api (fuel : Nat) (c : Call) : Comes n k own may guar K (api fuel c) := by
  intro s hs
  refine wp_recursive (D := restricted may guar) (P := fun _ s => s.IsWithin n k own)
    (Φ := fun _ s _ t => t.IsWithin n k own ∧ Resumes K s t) (fun _ _ _ => trivial)
    (fun fuel call hcall c s hs => ?_) fuel c s hs
  have happ := h.comes_application hcall fuel
  have hread : ∀ timer, Comes n k own may guar K (internalCycleRead fuel call timer) :=
    h.allSteps.internalCycleRead (h.allSteps.internalDeliverMessage (fun _ => trivial) happ
      fun _ => h.comes_setClientState _ _ _)
  refine h.comes_framed ?_ s hs
  apply h.allSteps.perform (fun _ _ => trivial) (fun _ => trivial) happ hread _ c
    fun params _ => h.comes_init params
  intro params
  apply h.allSteps.connect
  apply h.allSteps.connectFrom trivial
  exact (h.allSteps.composes fun _ => h.allSteps.internalWaitForRead hread trivial).handshake

/-- A handler makes its calls, and everything is as it was when it was called,
but for what `K` lets change. -/
theorem wp_handler (fuel depth : Nat) (name : HandlerName) {w : World} {Φ : World → Prop}
    (hw : (w.log (.enter (.handler name))).IsWithin n k own)
    (hpost : ∀ t, t.IsWithin n k own → Resumes K (w.log (.enter (.handler name))) t →
      guar t (t.log (.leave (.handler name) .success)) ∧
        Φ (t.log (.leave (.handler name) .success))) :
    wp (restricted may guar)
      (framed (.handler name) do
        application fuel (api depth)
        return .success)
      (fun _ t => Φ t) w := by
  apply wp_act_solo.mpr
  intro _
  refine ⟨h.guar _ _ hw, ?_⟩
  change wp _ ((application fuel (api depth) >>= fun _ => pure .success) >>= fun rc =>
    emit (.leave (.handler name) rc) >>= fun _ => .ret rc) _ _
  rw [wp_bind, wp_bind]
  apply wp_mono _ (h.comes_application (h.comes_api depth) fuel _ hw)
  intro _ t ht
  change wp _ (emit (.leave (.handler name) .success) >>= fun _ => .ret IotError.success) _ _
  exact wp_act_solo.mpr fun _ => hpost t ht.1 ht.2

end Shelters

end Shelters

/-! ## The message itself -/

/-- The parameter block that its handlers are handed. -/
def PublishPacket.message (p : PublishPacket) (buf : Memory) : MessageParams :=
  let f := p.found buf
  ⟨f.qos, f.retained, f.dup, f.packetId.getD 0, f.payloadOff, f.payloadLen⟩

section Delivering

variable {may guar : World → World → Prop} {call : Call → M IotError} {fuel topicOff : Nat}
  {topicNameLen : UInt16}

theorem wp_restricted {α : Type} {p : M α} {Φ : α → World → Prop} {s : World}
    (h : wp (observed anything guar) p Φ s) : wp (restricted may guar) p Φ s := by
  apply wp_mono (fun _ _ h => h.1) (wp_of_invariant (I := fun _ => True) _ _ _ _ _ h trivial)
  · exact fun _ _ _ _ => trivial
  · exact fun _ _ _ h => h
  · exact fun _ _ _ _ => ⟨trivial, fun h => ⟨h, trivial⟩⟩
  · exact fun _ _ _ h => ⟨h, trivial⟩
  · exact fun _ _ h => h

/-- The rule for the loop over the handlers, where `I i` holds when the first `i`
slots have been dealt with. -/
theorem wp_deliver {I : Nat → World → Prop} (hself : ∀ i w, I i w → guar w w)
    (hskip : ∀ i w, I i w → ¬ (w.client.messageHandlers.slot i).receives
      (w.client.readBuf.load topicOff topicNameLen.toNat) topicNameLen = true → I (i + 1) w)
    (hcall : ∀ i w, I i w → (w.client.messageHandlers.slot i).receives
      (w.client.readBuf.load topicOff topicNameLen.toNat) topicNameLen = true →
      wp (restricted may guar)
        (callHandler fuel call (w.client.messageHandlers.slot i) topicOff topicNameLen)
        (fun _ t => I (i + 1) t) w)
    {i remaining : Nat} (hi : i + remaining = numSubscribeHandlers) {s : World} (hs : I i s) :
    wp (restricted may guar) (deliverMessageLoop fuel call topicOff topicNameLen remaining)
      (fun _ t => I numSubscribeHandlers t) s := by
  induction remaining generalizing i s with
  | zero =>
      rw [← hi]
      exact hs
  | succ remaining ih =>
      have hslot : numSubscribeHandlers - (remaining + 1) = i := by omega
      rw [deliverMessageLoop, hslot]
      apply wp_act_solo.mpr
      intro _
      refine ⟨hself i s hs, ?_⟩
      change wp _ (ite _ _ _) _ _
      split
      next hreceives =>
        rw [wp_bind]
        apply wp_mono _ (hcall i s hs hreceives)
        intro _ t ht
        exact ih (by omega) ht
      next hreceives => exact ih (by omega) (hskip i s hs hreceives)

/-- The rule for a handler that is called with what the pointers point to now. -/
theorem wp_callHandler_restricted {handler : MessageHandler} {w : World} {Φ : World → Prop}
    (hnone : handler.applicationHandler = none → Φ w)
    (hsome : ∀ name, handler.applicationHandler = some name →
      let t := w.log (.delivered name (w.client.readBuf.load topicOff topicNameLen.toNat)
        (match w.messages with
          | [] => []
          | msg :: _ => w.client.readBuf.load msg.payloadOff msg.payloadLen)
        handler.applicationHandlerData)
      guar w t ∧ wp (restricted may guar)
        (framed (.handler name) do
          application fuel call
          return .success)
        (fun _ t => Φ t) t) :
    wp (restricted may guar) (callHandler fuel call handler topicOff topicNameLen)
      (fun _ t => Φ t) w := by
  unfold callHandler
  split
  next hname => exact hnone hname
  next name hname =>
    apply wp_act_solo.mpr
    intro _
    obtain ⟨hguar, hbody⟩ := hsome name hname
    refine ⟨hguar, ?_⟩
    change wp _ (framed (.handler name) (do
      application fuel call
      return .success) >>= fun _ => pure ()) _ _
    rw [wp_bind]
    exact hbody

/-- The rule for all handlers of a message. Changes of the client state do not matter. -/
theorem wp_internalDeliverMessage_restricted {I : Nat → World → Prop}
    (hself : ∀ i w, I i w → guar w w)
    (hstate : ∀ i w, I i w → ∀ change expected new,
      (I i (w.granted change expected new) ∧ guar w (w.granted change expected new)) ∧
        I i (w.refused change expected new) ∧ guar w (w.refused change expected new))
    (hskip : ∀ i w, I i w → ¬ (w.client.messageHandlers.slot i).receives
      (w.client.readBuf.load topicOff topicNameLen.toNat) topicNameLen = true → I (i + 1) w)
    (hcall : ∀ i w, I i w → (w.client.messageHandlers.slot i).receives
      (w.client.readBuf.load topicOff topicNameLen.toNat) topicNameLen = true →
      wp (restricted may guar)
        (callHandler fuel call (w.client.messageHandlers.slot i) topicOff topicNameLen)
        (fun _ t => I (i + 1) t) w) {w : World} (hw : I 0 w) :
    wp (restricted may guar) (internalDeliverMessage fuel call topicOff topicNameLen)
      (fun _ t => I numSubscribeHandlers t) w := by
  -- both changes of the state keep the invariant
  have hset : ∀ i w, I i w → ∀ change expected new, wp (restricted may guar)
      (setClientState change expected new) (fun _ t => I i t) w := by
    intro i w hw change expected new
    apply wp_act_solo.mpr
    intro _
    obtain ⟨⟨hgranted, hguar⟩, hrefused, hguar'⟩ := hstate i w hw change expected new
    change guar w (ite _ _ _) ∧ I i (ite _ _ _)
    split
    · exact ⟨hguar, hgranted⟩
    · exact ⟨hguar', hrefused⟩
  apply wp_act_solo.mpr
  intro _
  refine ⟨hself 0 w hw, ?_⟩
  change wp _ (setClientState .other w.client.clientState .connectedWaitForCbReturn >>= fun _ =>
    deliverMessageLoop fuel call topicOff topicNameLen numSubscribeHandlers >>= fun _ =>
      setClientState .other .connectedWaitForCbReturn w.client.clientState) _ w
  rw [wp_bind]
  apply wp_mono _ (hset 0 w hw _ _ _)
  intro _ t ht
  rw [wp_bind]
  apply wp_mono _ (wp_deliver hself hskip hcall (Nat.zero_add _) ht)
  exact fun _ u hu => hset _ u hu _ _ _

/-- The rule for a whole message, with what is done when its handlers have returned. -/
theorem wp_internalHandlePublish_restricted {p : PublishPacket} {timer : TimerName} {s : World}
    {Ψ : World → Prop} {Φ : IotError → World → Prop}
    (hin : p.IsIn s.client.readBuf s.client.readBufSize) (hholds : p.HoldsFields)
    (hself : guar s s)
    (hpush : guar s { s with messages := p.message s.client.readBuf :: s.messages })
    (hdeliver : wp (restricted may guar) (internalDeliverMessage fuel call
        (p.found s.client.readBuf).topicOff (p.found s.client.readBuf).topicNameLen)
      (fun _ t => Ψ t) { s with messages := p.message s.client.readBuf :: s.messages })
    (hpop : ∀ t, Ψ t → guar t { t with messages := t.messages.tail })
    (hfailed : ∀ rc t, Ψ t → rc ≠ .success → Φ rc { t with messages := t.messages.tail })
    (hdone : ∀ t, Ψ t → let msg := t.messages.headD (p.message s.client.readBuf)
      wp (restricted may guar)
        (if msg.qos = qos0 then pure .success
          else serialized (fun c => serializeAck c.writeBufSize .puback 0 msg.id)
            fun len => internalSendPacket fuel (len % 2 ^ 32) timer)
        Φ { t with messages := t.messages.tail }) :
    wp (restricted may guar) (internalHandlePublish fuel call timer) Φ s := by
  rw [internalHandlePublish, wp_bind]
  apply wp_act_solo.mpr
  intro _
  refine ⟨hself, ?_⟩
  simp only [wp_ret, id_eq]
  rw [PublishPacket.deserializePublish_of_holdsFields hin hholds]
  apply wp_act_solo.mpr
  intro _
  refine ⟨hpush, ?_⟩
  change wp _ (internalDeliverMessage fuel call _ _ >>= fun rc =>
    popMessage (p.message s.client.readBuf) >>= fun msg => onSuccess rc _) _ _
  rw [wp_bind]
  -- between the push and the pop lies the delivery
  apply wp_mono _ hdeliver
  intro rc t ht
  apply wp_act_solo.mpr
  intro _
  refine ⟨hpop t ht, ?_⟩
  change wp _ (onSuccess rc (ite _ _ _)) _ _
  unfold onSuccess
  split
  next => exact hdone t ht
  next hrc => exact hfailed rc t ht hrc

end Delivering

end MqttClient
