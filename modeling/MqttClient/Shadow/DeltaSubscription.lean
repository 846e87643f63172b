import MqttClient.Effect.Observing
import MqttClient.Shadow.Script

/-! # The subscription to the topic of deltas

A flag stands for the subscription to the topic of deltas. It is set after the first
attempt to subscribe and is cleared when the layer is initialised; the subscription itself
is in the session of the broker, which is a new one after every connect.
-/

namespace MqttClient.Shadow

open Effect Program

/-! ## The session of the broker -/

/-- The subscriptions of the present connection, by the buffer that was subscribed through
and the topic filter; nothing if there is no connection. `shadowDeltaTopic` is subscribed
with `shadow_delta_callback` only. -/
abbrev Session := Option (List (TopicBuffer × List UInt8))

/-- The session after an exchange with the client below. Sessions are clean: a new
connection starts without subscriptions. -/
def Session.after (q : Query) (a : Answer q) (session : Session) : Session :=
  match q, a with
  | .wait .connect, .done rc => if rc = .success then some [] else session
  | .wait (.subscribe buffer topic), .done rc =>
      if rc = .success then session.map ((buffer, topic) :: ·) else session
  | .wait (.unsubscribe topic), .done rc =>
      if rc = .success then session.map (·.filter (·.2 ≠ topic)) else session
  | .send .disconnect, rc => if rc = IotError.success then none else session
  | _, _ => session

/-- The layer and the broker's session. -/
abbrev Linked := World × Session

/-- The topic of the deltas of `myThingName`. -/
def World.deltaTopic (w : World) : List UInt8 := w.ownTopic "/shadow/update/delta"

/-- The session holds the subscription to the topic of deltas. -/
def Linked.HoldsDelta (x : Linked) : Prop :=
  ∃ subscriptions, x.2 = some subscriptions ∧ (.shadowDeltaTopic, x.1.deltaTopic) ∈ subscriptions

/-! ## Histories -/

def Call.isLinking : Call → Prop
  | .init | .connect _ | .disconnect | .registerDelta _ => True
  | _ => False

/-- The client says that it is connected only while it is. -/
def isHonest (q : Query) (x : Linked) (a : Answer q) : Bool :=
  match q, a with
  | .isClientConnected, connected => !connected || x.2.isSome
  | _, _ => true

/-- A subscribe to the topic of deltas goes well, a slot for it being free, and what is
called while the client waits makes no calls itself. -/
def isKind (q : Query) (x : Linked) (a : Answer q) : Bool :=
  isHonest q x a &&
    match q, a with
    | .claim (.subscribe .shadowDeltaTopic _), rc =>
        decide (rc = IotError.success) && x.1.getFreeMessageHandlerIndex.isSome
    | .wait (.subscribe .shadowDeltaTopic _), .done rc => rc = .success
    | .release (.subscribe .shadowDeltaTopic _), rc => decide (rc = IotError.success)
    | .application, next => Option.isNone (α := Call) next
    | _, _ => true

/-- A connect is made only while the topic of deltas counts as not subscribed. -/
def Call.meets (c : Call) (w : World) : Bool :=
  match c with
  | .connect _ => !w.deltaTopicSubscribedFlag
  | _ => true

/-- The call can return `rc`. -/
def Completes (allow : (q : Query) → Linked → Answer q → Prop) (c : Call) (x : Linked)
    (rc : IotError) (y : Linked) : Prop :=
  ∃ fuel, Returns allow ((api fuel (.call c)).observe Session.after) x rc y

/-- Calls that return one after the other. -/
abbrev Histories (allow : (q : Query) → Linked → Answer q → Prop) (may : Call → World → Bool) :
    Linked → Linked → Prop :=
  Relation.ReflTransGen fun x y =>
    ∃ c rc, Call.isLinking c ∧ may c x.1 = true ∧ Completes allow c x rc y

/-- Nothing has been subscribed yet. -/
structure Linked.IsFresh (x : Linked) : Prop where
  flag : x.1.deltaTopicSubscribedFlag = false
  session : x.2 = none
  handlers : ∀ j, x.1.messageHandlers j = none

/-- A registration that succeeds leaves the subscription in the session, and a call that
fails leaves the keys as they were. -/
structure RegistersRightly (c : Call) (x : Linked) (rc : IotError) (y : Linked) : Prop where
  held : ∀ s, c = .registerDelta s → rc = .success → y.HoldsDelta
  unchanged : rc ≠ .success → y.1.tokenTable = x.1.tokenTable

/-! ## What is kept while the client waits -/

namespace World

/-- What the flag and the subscription depend on is kept. -/
structure KeepsRegistry (s t : World) : Prop where
  tokenTable : t.tokenTable = s.tokenTable
  flag : t.deltaTopicSubscribedFlag = s.deltaTopicSubscribedFlag
  myThingName : t.myThingName = s.myThingName
  shadowDeltaTopic : t.shadowDeltaTopic = s.shadowDeltaTopic

/-- So are the message handlers. -/
structure LeavesLink (s t : World) : Prop extends KeepsRegistry s t where
  handlers : t.messageHandlers = s.messageHandlers

/-- No message handler is that of the layer's actions. -/
def HasNoAcks (w : World) : Prop :=
  ∀ j s, w.messageHandlers j = some s → s.handler ≠ .ackStatusCallback

variable {s t u : World}

theorem KeepsRegistry.trans (h : s.KeepsRegistry t) (h' : t.KeepsRegistry u) :
    s.KeepsRegistry u where
  tokenTable := h'.tokenTable.trans h.tokenTable
  flag := h'.flag.trans h.flag
  myThingName := h'.myThingName.trans h.myThingName
  shadowDeltaTopic := h'.shadowDeltaTopic.trans h.shadowDeltaTopic

theorem LeavesLink.refl (s : World) : s.LeavesLink s := ⟨⟨rfl, rfl, rfl, rfl⟩, rfl⟩

theorem LeavesLink.trans (h : s.LeavesLink t) (h' : t.LeavesLink u) : s.LeavesLink u :=
  ⟨h.toKeepsRegistry.trans h'.toKeepsRegistry, h'.handlers.trans h.handlers⟩

/-- No handler of acknowledgements comes in. -/
theorem LeavesLink.hasNoAcks (h : s.LeavesLink t) (hs : s.HasNoAcks) : t.HasNoAcks := by
  intro j r hr
  rw [h.handlers] at hr
  exact hs j r hr

/-- With the names, the topic of the deltas is kept. -/
theorem KeepsRegistry.deltaTopic (h : s.KeepsRegistry t) : t.deltaTopic = s.deltaTopic := by
  unfold World.deltaTopic World.ownTopic
  rw [h.myThingName]

/-- Taking over a version has nothing to do with subscriptions. -/
theorem leavesLink_withDeltaVersion (w : World) (tokenCount : Nat) :
    w.LeavesLink (w.withDeltaVersion tokenCount) := by
  unfold withDeltaVersion
  split
  · exact .refl w
  · exact ⟨⟨rfl, rfl, rfl, rfl⟩, rfl⟩

/-- A handler that is not one of acknowledgements may be entered. -/
theorem HasNoAcks.setHandler (h : s.HasNoAcks) (j : HandlerIndex) {r : Subscription}
    (hr : r.handler ≠ .ackStatusCallback) : (s.setHandler j r).HasNoAcks := by
  intro i r' hr'
  by_cases hij : i = j
  · subst hij
    rw [World.setHandler] at hr'
    simp only [Function.update_self, Option.some.injEq] at hr'
    exact hr' ▸ hr
  · rw [World.setHandler] at hr'
    simp only [Function.update_of_ne hij] at hr'
    exact h i r' hr'

end World

/-- The discipline of the runs in question. -/
abbrev kindly : Discipline Linked Answer := answered fun q x a => isKind q x a = true

/-- The session is the one in `x`, and the world has the same handlers and registry. -/
structure Linked.Keeps (x y : Linked) : Prop where
  session : y.2 = x.2
  world : x.1.LeavesLink y.1

theorem Linked.Keeps.refl (x : Linked) : x.Keeps x := ⟨rfl, .refl x.1⟩

/-- The program keeps what has been kept since `x`. -/
def IsQuiet {α : Type} (x : Linked) (p : M α) : Prop :=
  ∀ y, x.Keeps y → wp kindly (p.observe Session.after) (fun _ z => x.Keeps z) y

section Quiet

variable {α β : Type} {x : Linked} {fuel : Nat} {call : Procedure → M IotError}

theorem quiet_ret (a : α) : IsQuiet x (.ret a : M α) := fun _ hy => hy

theorem IsQuiet.bind {p : M α} {g : α → M β} (hp : IsQuiet x p) (hg : ∀ a, IsQuiet x (g a)) :
    IsQuiet x (p >>= g) := by
  intro y hy
  rw [wp_observe_bind]
  exact wp_mono (fun a z hz => hg a z hz) (hp y hy)

theorem IsQuiet.ite {c : Prop} [Decidable c] {p q : M α} (hp : IsQuiet x p) (hq : IsQuiet x q) :
    IsQuiet x (if c then p else q) := by
  split
  · exact hp
  · exact hq

/-- A step that leaves the subscriptions alone is quiet. -/
theorem quiet_atomically {v : World → α} {f : World → World}
    (hf : ∀ s : World, s.LeavesLink (f s)) :
    IsQuiet x (Program.atomically v f) := by
  intro y hy
  apply wp_observe_atomically.mpr
  exact ⟨hy.session, hy.world.trans (hf y.1)⟩

theorem quiet_modify {f : World → World} (hf : ∀ s : World, s.LeavesLink (f s)) :
    IsQuiet x (Program.modify f) := quiet_atomically hf

theorem quiet_get : IsQuiet x (Program.get : M World) := quiet_atomically World.LeavesLink.refl

theorem quiet_emit (e : Event) : IsQuiet x (emit e) :=
  quiet_modify fun _ => ⟨⟨rfl, rfl, rfl, rfl⟩, rfl⟩

/-- A question is quiet if no answer changes the session. -/
theorem quiet_ask {q : Query} (hq : ∀ a session, Session.after q a session = session) :
    IsQuiet x (ask q) := by
  intro y hy
  apply wp_observe_query.mpr
  intro a _
  exact ⟨(hq a y.2).trans hy.session, hy.world⟩

theorem IsQuiet.forEach {body : β → M Unit} (hbody : ∀ b, IsQuiet x (body b)) (bs : List β) :
    IsQuiet x (Program.forEach body bs) := fun _ hy => wp_observe_forEach hbody bs hy

theorem IsQuiet.framed {f : Frame} {body : M IotError} (hbody : IsQuiet x body) :
    IsQuiet x (framed f body) := by
  apply (quiet_emit _).bind
  intro _
  apply hbody.bind
  intro rc
  exact (quiet_emit _).bind fun _ => quiet_ret rc

theorem IsQuiet.framedVoid {f : Frame} {body : M Unit} (hbody : IsQuiet x body) :
    IsQuiet x (framedVoid f body) :=
  (IsQuiet.framed (hbody.bind fun _ => quiet_ret _)).bind fun _ => quiet_ret _

/-- What is called while the client waits returns without a call. -/
theorem quiet_application : IsQuiet x (application fuel call) := by
  intro y hy
  apply wp_observe_loop (I := fun _ => x.Keeps) _ fuel () hy
  intro _ z hz
  apply wp_observe_exchange
  intro next hnext
  cases next with
  | none => exact hz
  | some c => cases hnext

/-- Neither looking up a key nor its callback touches the subscriptions. -/
theorem quiet_dispatchKey (tokenCount i : Nat) :
    IsQuiet x (dispatchKey fuel call tokenCount i) := by
  apply quiet_get.bind
  intro w
  split
  next => exact quiet_ret _
  next s _ =>
      split
      next => exact quiet_ret _
      next v _ =>
          apply (quiet_emit _).bind
          intro _
          split
          next => exact quiet_ret _
          next name _ => exact (quiet_emit _).bind fun _ => quiet_application.framedVoid

/-- The handler of deltas touches no subscription. -/
theorem quiet_shadowDeltaCallback (m : MessageRef) :
    IsQuiet x (shadowDeltaCallback fuel call m) := by
  have hdocument : IsQuiet x (receiveDocument m) := by
    apply IsQuiet.ite (quiet_ret _)
    apply IsQuiet.bind
    · exact quiet_modify fun _ => ⟨⟨rfl, rfl, rfl, rfl⟩, rfl⟩
    intro _
    exact quiet_atomically fun _ => ⟨⟨rfl, rfl, rfl, rfl⟩, rfl⟩
  apply IsQuiet.framedVoid
  apply hdocument.bind
  intro tokenCount
  cases tokenCount with
  | none => exact quiet_ret _
  | some tokenCount =>
      apply (quiet_atomically fun w => w.leavesLink_withDeltaVersion tokenCount).bind
      intro isOld
      exact IsQuiet.ite (quiet_ret _) (IsQuiet.forEach (quiet_dispatchKey tokenCount) _)

/-- A message is delivered to the delta callback or to the application. -/
theorem quiet_deliverMessage (hx : x.1.HasNoAcks) (m : MessageRef) :
    IsQuiet x (deliverMessage fuel call m) := by
  apply IsQuiet.forEach
  intro j y hy
  apply wp_observe_step
  dsimp only [id]
  split
  next => exact hy
  next s hs =>
      have hack := hy.world.hasNoAcks hx j s hs
      have hhandler : IsQuiet x (callHandler fuel call m s.handler) := by
        cases hcase : s.handler with
        | ackStatusCallback => exact absurd hcase hack
        | shadowDeltaCallback => exact quiet_shadowDeltaCallback m
        | application name => exact quiet_application.framedVoid
      exact IsQuiet.ite hhandler (quiet_ret ()) y hy

/-- A packet that comes in is handed to handlers of deltas at most. -/
theorem quiet_receivePacket (hx : x.1.HasNoAcks) (packet : List UInt8) :
    IsQuiet x (receivePacket fuel call packet) := by
  apply IsQuiet.framed
  apply IsQuiet.bind
  · exact quiet_modify fun _ => ⟨⟨rfl, rfl, rfl, rfl⟩, rfl⟩
  intro _
  have hlocal : IsQuiet x lookAtFormerLocal := by
    apply (quiet_ask fun _ _ => rfl).bind
    intro text
    exact quiet_modify fun _ => ⟨⟨rfl, rfl, rfl, rfl⟩, rfl⟩
  apply hlocal.bind
  intro _
  apply quiet_get.bind
  intro w
  split
  next => exact quiet_ret _
  next m _ => exact (quiet_deliverMessage hx m).bind fun _ => quiet_ret _

/-- Receiving a packet leaves the subscriptions alone, at any depth. -/
theorem quiet_receive (hx : x.1.HasNoAcks) (packet : List UInt8) :
    IsQuiet x (api fuel (.receive packet)) := by
  cases fuel with
  | zero => exact fun _ _ => trivial
  | succ fuel => exact quiet_receivePacket hx packet

end Quiet

/-! ## What a call does -/

section Calls

variable {x : Linked} {fuel : Nat} {call : Procedure → M IotError}

/-- A request is done some time after it has been put, and nothing has changed until then. -/
theorem wp_waitFor {r : Request} {Φ : IotError → Linked → Prop}
    (hcall : ∀ packet, IsQuiet x (call (.receive packet)))
    (hdone : ∀ rc y, x.Keeps y → isKind (.wait r) y (.done rc) = true →
      Φ rc (y.1, Session.after (.wait r) (.done rc) y.2)) :
    wp kindly ((waitFor fuel call r).observe Session.after) Φ x := by
  apply wp_observe_loop (I := fun _ => x.Keeps) _ fuel () (.refl x)
  intro _ y hy
  apply wp_observe_exchange
  intro next hnext
  cases next with
  | done rc => exact hdone rc y hy hnext
  | packet bytes =>
      have hafter : Session.after (.wait r) (.packet bytes) y.2 = y.2 := by cases r <;> rfl
      simp only [hafter]
      apply wp_observe_bind.mpr
      exact wp_mono (fun _ _ hz => hz) (hcall bytes y hy)

/-- A request either finds the client busy or runs its body between claim and release. -/
theorem wp_claimed {r : Request} {body : M IotError} {Φ : IotError → Linked → Prop}
    (hbusy : ∀ rc, rc ≠ .success → isKind (.claim r) x rc = true → Φ rc x)
    (hbody : isKind (.claim r) x .success = true →
      wp kindly (body.observe Session.after) (fun rc y => ∀ rc', isKind (.release r) y rc' = true →
        Φ (if rc = .success ∧ rc' ≠ .success then rc' else rc) y) x) :
    wp kindly ((claimed r body).observe Session.after) Φ x := by
  apply wp_observe_exchange
  intro rc hrc
  change wp kindly ((onSuccess rc _).observe Session.after) Φ x
  unfold onSuccess
  split
  next hsuccess =>
      subst hsuccess
      apply wp_observe_bind.mpr
      apply wp_mono _ (hbody hrc)
      intro bodyRc y hy
      apply wp_observe_exchange
      exact hy
  next hne => exact hbusy rc hne hrc

/-- A subscribe changes nothing but the message handlers and the session. -/
theorem wp_mqttSubscribe_keeps {buffer : TopicBuffer} {handler : Handler}
    (hcall : ∀ packet, IsQuiet x (call (.receive packet))) (hx : x.1.HasNoAcks)
    (hhandler : handler ≠ .ackStatusCallback) :
    wp kindly ((mqttSubscribe fuel call buffer handler).observe Session.after)
      (fun _ y => x.1.KeepsRegistry y.1 ∧ y.1.HasNoAcks) x := by
  have hrefl := (World.LeavesLink.refl x.1).toKeepsRegistry
  apply wp_observe_step
  apply wp_claimed
  · exact fun _ _ _ => ⟨hrefl, hx⟩
  intro _
  apply wp_observe_step
  dsimp only [id]
  split
  next => exact fun _ _ => ⟨hrefl, hx⟩
  next j _ =>
      apply wp_observe_bind.mpr
      apply wp_waitFor hcall
      intro rc y hy _
      have hnoAcks := hy.world.hasNoAcks hx
      unfold onSuccess
      split
      next =>
          apply wp_observe_step
          intro _ _
          refine ⟨hy.world.toKeepsRegistry.trans ⟨rfl, rfl, rfl, rfl⟩, ?_⟩
          exact hnoAcks.setHandler j hhandler
      next => exact fun _ _ => ⟨hy.world.toKeepsRegistry, hnoAcks⟩

/-- The subscribe to the topic of deltas is in the session afterwards. -/
theorem wp_mqttSubscribe_delta (hcall : ∀ packet, IsQuiet x (call (.receive packet))) :
    wp kindly
      ((mqttSubscribe fuel call .shadowDeltaTopic .shadowDeltaCallback).observe Session.after)
      (fun rc y => rc = .success ∧
        y.2 = x.2.map ((.shadowDeltaTopic, x.1.shadowDeltaTopic) :: ·)) x := by
  apply wp_observe_step
  apply wp_claimed
  · intro rc hne hkind
    simp [isKind, isHonest, hne] at hkind
  intro hclaim
  apply wp_observe_step
  dsimp only [id]
  split
  next hfull =>
      simp [isKind, isHonest, hfull] at hclaim
  next j _ =>
      apply wp_observe_bind.mpr
      apply wp_waitFor hcall
      intro rc y hy hdone
      have hsuccess : rc = .success := by simpa [isKind, isHonest] using hdone
      subst hsuccess
      apply wp_observe_step
      intro rc' hrelease
      have hsuccess : rc' = .success := by simpa [isKind, isHonest] using hrelease
      subst hsuccess
      refine ⟨rfl, ?_⟩
      change Option.map _ y.2 = _
      rw [hy.session]
      rfl

/-- The flag is set only if the session, if there is one, holds the subscription. -/
structure Linked.Mirrors (x : Linked) : Prop where
  noAcks : x.1.HasNoAcks
  held : x.1.deltaTopicSubscribedFlag = true → ∀ subscriptions, x.2 = some subscriptions →
    (.shadowDeltaTopic, x.1.deltaTopic) ∈ subscriptions

/-- Without the flag there is nothing to be mirrored. -/
theorem Linked.Mirrors.of_flag {y : Linked} (hnoAcks : y.1.HasNoAcks)
    (hflag : y.1.deltaTopicSubscribedFlag = false) : y.Mirrors :=
  ⟨hnoAcks, fun h => absurd (hflag.symm.trans h) Bool.false_ne_true⟩

/-- What is shown of a call. -/
def Linked.Follows (c : Call) (x : Linked) (rc : IotError) (y : Linked) : Prop :=
  y.Mirrors ∧ RegistersRightly c x rc y

/-- A call that is not a registration and keeps the keys when it fails. -/
theorem registersRightly_other {c : Call} {rc : IotError} {y : Linked}
    (hcall : ∀ s, c ≠ .registerDelta s) (h : rc ≠ .success → y.1.tokenTable = x.1.tokenTable) :
    RegistersRightly c x rc y := ⟨fun s hs => absurd hs (hcall s), h⟩

/-- The initialization forgets the subscription and the flag with it. -/
theorem wp_shadowInit (hx : x.Mirrors) :
    wp kindly (shadowInit.observe Session.after) (Linked.Follows .init x) x := by
  apply wp_observe_exchange
  intro rc _
  change wp kindly ((if rc = IotError.nullValueError then _ else _ : M IotError).observe _) _ x
  split
  next => exact ⟨hx, registersRightly_other (fun _ => nofun) fun _ => rfl⟩
  next =>
      have hnone : x.1.withoutHandlers.HasNoAcks := fun j s hs => nomatch hs
      apply wp_observe_step
      unfold onSuccess
      split
      next =>
          apply wp_observe_step
          apply wp_observe_step
          apply wp_observe_step
          exact ⟨.of_flag hnone rfl, registersRightly_other (fun _ => nofun) fun h => absurd rfl h⟩
      next => exact ⟨⟨hnone, hx.held⟩, registersRightly_other (fun _ => nofun) fun _ => rfl⟩

/-- A disconnect ends the session. -/
theorem wp_disconnect (hx : x.Mirrors) :
    wp kindly ((ask (.send .disconnect)).observe Session.after)
      (Linked.Follows .disconnect x) x := by
  apply wp_observe_query.mpr
  intro rc _
  refine ⟨⟨hx.noAcks, ?_⟩, registersRightly_other (fun _ => nofun) fun _ => rfl⟩
  intro hflag subscriptions hsession
  change (if rc = IotError.success then none else x.2) = some subscriptions at hsession
  split at hsession
  · cases hsession
  · exact hx.held hflag subscriptions hsession

/-- A connect with the flag reset begins a session without the topic. -/
theorem wp_shadowConnect (hcall : ∀ x : Linked, x.1.HasNoAcks → ∀ packet,
      IsQuiet x (call (.receive packet)))
    (params : Option ShadowConnectParams) (hx : x.Mirrors)
    (hflag : x.1.deltaTopicSubscribedFlag = false) :
    wp kindly ((shadowConnect fuel call params).observe Session.after)
      (Linked.Follows (.connect params) x) x := by
  have hdone {rc : IotError} {y : Linked} (hnoAcks : y.1.HasNoAcks)
      (hregistry : y.1.deltaTopicSubscribedFlag = x.1.deltaTopicSubscribedFlag)
      (htable : y.1.tokenTable = x.1.tokenTable) : Linked.Follows (.connect params) x rc y :=
    ⟨.of_flag hnoAcks (hregistry.trans hflag),
      registersRightly_other (fun _ => by simp) fun _ => htable⟩
  unfold shadowConnect
  split
  next => exact hdone hx.noAcks rfl rfl
  next params' mqttClientId _ =>
      apply wp_observe_step
      apply wp_observe_bind.mpr
      apply wp_waitFor (hcall (x.1.withNames params'.myThingName mqttClientId, x.2) hx.noAcks)
      intro rc y hy _
      have hnoAcks := hy.world.hasNoAcks hx.noAcks
      -- the records are initialised only after a success, the handler is subscribed in any case
      have hinitialized (session : Session) : wp kindly
          ((doIf (rc = .success) (Program.modify World.initializeRecords)).observe Session.after)
          (fun _ z => y.1.LeavesLink z.1) (y.1, session) := by
        unfold doIf
        split
        next =>
            apply wp_observe_atomically.mpr
            exact ⟨⟨rfl, rfl, rfl, rfl⟩, rfl⟩
        next => exact .refl _
      apply wp_observe_bind.mpr
      apply wp_mono _ (hinitialized _)
      intro _ z hz
      have hkeeps := hy.world.toKeepsRegistry.trans hz.toKeepsRegistry
      split
      next => exact hdone (hz.hasNoAcks hnoAcks) hkeeps.flag hkeeps.tokenTable
      next name _ =>
          have hdeleted : World.HasNoAcks (z.1.withDeleteTopic, z.2).1 := hz.hasNoAcks hnoAcks
          have hhandler : Handler.application name ≠ .ackStatusCallback := by simp
          apply wp_observe_step
          apply wp_mono _ (wp_mqttSubscribe_keeps (hcall _ hdeleted) hdeleted hhandler)
          intro rc' u hu
          exact hdone hu.2 (hu.1.flag.trans hkeeps.flag) (hu.1.tokenTable.trans hkeeps.tokenTable)

/-- After the subscribe, if it has to be made, the session holds the subscription. -/
theorem wp_subscribeDelta (hcall : ∀ x : Linked, x.1.HasNoAcks → ∀ packet,
      IsQuiet x (call (.receive packet))) (hx : x.Mirrors) (hconnected : x.2.isSome) :
    wp kindly ((subscribeDelta fuel call).observe Session.after)
      (fun rc y => rc = .success ∧ y.1.HasNoAcks ∧ y.HoldsDelta ∧
        y.1.tokenTable = x.1.tokenTable) x := by
  obtain ⟨subscriptions, hsession⟩ := Option.isSome_iff_exists.mp hconnected
  apply wp_observe_step
  dsimp only [id]
  split
  next hflag =>
      exact ⟨rfl, hx.noAcks, ⟨subscriptions, hsession, hx.held hflag _ hsession⟩, rfl⟩
  next =>
      have hprinted : World.HasNoAcks (x.1.withDeltaTopic, x.2).1 := hx.noAcks
      have hhandler : Handler.shadowDeltaCallback ≠ .ackStatusCallback := by simp
      apply wp_observe_step
      apply wp_observe_bind.mpr
      apply wp_mono _ (wp_and (wp_mqttSubscribe_delta (hcall _ hprinted))
        (wp_mqttSubscribe_keeps (hcall _ hprinted) hprinted hhandler))
      intro rc y hy
      obtain ⟨⟨hrc, hafter⟩, hkeeps, hnoAcks⟩ := hy
      apply wp_observe_step
      refine ⟨hrc, hnoAcks, ⟨(.shadowDeltaTopic, x.1.deltaTopic) :: subscriptions, ?_, ?_⟩,
        hkeeps.tokenTable⟩
      · change y.2 = _
        rw [hafter, hsession]
        rfl
      · have htopic : World.deltaTopic { y.1 with deltaTopicSubscribedFlag := true } =
            x.1.deltaTopic := hkeeps.deltaTopic
        rw [htopic]
        exact List.mem_cons_self

/-- The first registration subscribes to the topic and sets the flag, if it succeeds. -/
theorem wp_registerDelta (hcall : ∀ x : Linked, x.1.HasNoAcks → ∀ packet,
      IsQuiet x (call (.receive packet))) (s : Option JsonStruct) (hx : x.Mirrors) :
    wp kindly ((registerDelta fuel call s).observe Session.after)
      (Linked.Follows (.registerDelta s) x) x := by
  have herror {rc : IotError} (hrc : rc ≠ .success) : Linked.Follows (.registerDelta s) x rc x :=
    ⟨hx, fun _ _ h => absurd h hrc, fun _ => rfl⟩
  cases s with
  | none => exact herror nofun
  | some s =>
      apply wp_observe_exchange
      intro connected hhonest
      change wp kindly ((if connected = true then _ else _ : M IotError).observe _) _ x
      split
      next hconnected =>
          subst hconnected
          have hsome : x.2.isSome := by simpa [isKind, isHonest] using hhonest
          apply wp_observe_bind.mpr
          apply wp_mono _ (wp_subscribeDelta hcall hx hsome)
          intro rc y hy
          obtain ⟨hrc, hnoAcks, ⟨subscriptions, hsession, hheld⟩, htable⟩ := hy
          apply wp_observe_step
          -- the key's place in the table has nothing to do with the topic
          have hkey : (y.1.withKey s).messageHandlers = y.1.messageHandlers ∧
              (y.1.withKey s).deltaTopic = y.1.deltaTopic := by
            unfold World.withKey
            split <;> exact ⟨rfl, rfl⟩
          refine ⟨⟨?_, ?_⟩, ?_, ?_⟩
          · intro j r hr
            exact hnoAcks j r (hkey.1 ▸ hr)
          · intro _ subscriptions' hsession'
            rw [hkey.2]
            exact Option.some.inj (hsession.symm.trans hsession') ▸ hheld
          · intro _ _ _
            exact ⟨subscriptions, hsession, hkey.2 ▸ hheld⟩
          · intro hfull
            split at hfull
            next hroom =>
                rw [← htable]
                unfold World.withKey
                rw [if_pos (of_decide_eq_true hroom)]
            next => exact absurd hrc hfull
      next => exact herror nofun

/-- A call of a history keeps the flag and the session together. -/
theorem wp_linkingCall {c : Call} (hc : c.isLinking) (hmeets : c.meets x.1 = true)
    (hx : x.Mirrors) :
    wp kindly ((api fuel (.call c)).observe Session.after) (Linked.Follows c x) x := by
  cases fuel with
  | zero => exact trivial
  | succ fuel =>
      have hcall (y : Linked) (hy : y.1.HasNoAcks) (packet : List UInt8) :
          IsQuiet y (api fuel (.receive packet)) := quiet_receive hy packet
      have hbody : wp kindly ((perform fuel (api fuel) c).observe Session.after)
          (Linked.Follows c (x.1.log (.enter (.call c)), x.2))
          (x.1.log (.enter (.call c)), x.2) := by
        have hentered : Linked.Mirrors (x.1.log (.enter (.call c)), x.2) := ⟨hx.noAcks, hx.held⟩
        cases c with
        | init => exact wp_shadowInit hentered
        | connect params =>
            have hflag : x.1.deltaTopicSubscribedFlag = false := by simpa [Call.meets] using hmeets
            exact wp_shadowConnect hcall params hentered hflag
        | disconnect => exact wp_disconnect hentered
        | registerDelta s => exact wp_registerDelta hcall s hentered
        | _ => exact hc.elim
      apply wp_observe_step
      apply wp_observe_bind.mpr
      apply wp_mono _ hbody
      intro rc y hy
      apply wp_observe_step
      exact ⟨⟨hy.1.noAcks, hy.1.held⟩, hy.2.held, hy.2.unchanged⟩

end Calls

/-! ## Whole histories -/

/-- A client that has not been used mirrors its session. -/
theorem Linked.IsFresh.mirrors {x : Linked} (h : x.IsFresh) : x.Mirrors := by
  apply Linked.Mirrors.of_flag _ h.flag
  intro j s hs
  rw [h.handlers j] at hs
  cases hs

variable {x y z : Linked} {c : Call} {rc : IotError}

/-- A call that returns follows the rules for it. -/
theorem follows_of_completes (hc : c.isLinking) (hmeets : c.meets x.1 = true) (hx : x.Mirrors)
    (h : Completes (isKind · · · = true) c x rc y) : Linked.Follows c x rc y := by
  obtain ⟨fuel, hret⟩ := h
  exact wp_returns (D := kindly) (wp_linkingCall hc hmeets hx) hret

/-- So do all calls of a history. -/
theorem mirrors_of_histories (hx : x.Mirrors)
    (h : Histories (isKind · · · = true) Call.meets x y) : y.Mirrors := by
  induction h with
  | refl => exact hx
  | tail _ hcall ih =>
      obtain ⟨c, rc, hc, hmeets, hreturns⟩ := hcall
      exact (follows_of_completes hc hmeets ih hreturns).1

/-- A call in which the script decides. -/
def linkedRun (c : Call) (script : Script) (x : Linked) : Option IotError × Script × Linked :=
  ((api 3 (.call c)).observe Session.after).run Script.answer script x

theorem completes_linkedRun {ok : (q : Query) → Linked → Answer q → Bool} {script : Script}
    (hkeeps : ((api 3 (.call c)).observe Session.after).keepsTo Script.answer ok script x = true)
    (h : (linkedRun c script x).1 = some rc) :
    Completes (ok · · · = true) c x rc (linkedRun c script x).2.2 :=
  ⟨3, returns_run (fun _ _ _ hok => hok) hkeeps h⟩

def freshLink : Linked := (blankWorld, none)

theorem isFresh_freshLink : freshLink.IsFresh := ⟨rfl, rfl, fun _ => rfl⟩

/-- The layer after a connect in which everything goes well. -/
def connectedLink : Linked := (linkedRun (connectAs "t") ⟨[], [], []⟩ freshLink).2.2

theorem histories_connectedLink {ok : (q : Query) → Linked → Answer q → Bool}
    {may : Call → World → Bool} (hmay : may (connectAs "t") blankWorld = true)
    (hkeeps : ((api 3 (.call (connectAs "t"))).observe Session.after).keepsTo Script.answer ok
      ⟨[], [], []⟩ freshLink = true) :
    Histories (ok · · · = true) may freshLink connectedLink :=
  .single ⟨connectAs "t", .success, trivial, hmay,
    completes_linkedRun hkeeps (by decide +kernel)⟩

/-- The client answers a subscribe with an error. -/
def refusedSubscribe : Script := ⟨[.done .failure], [], []⟩

end MqttClient.Shadow
