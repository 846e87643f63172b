import MqttClient.Session.Undisturbed
import MqttClient.Shadow.DeltaSubscription
import MqttClient.Shadow.Pairs

/-! # The layer's client and the client

The layer sees the client below through the questions that it asks: whether the client
takes up a request, what happens while it waits, whether it gives the request back. Here
the answers are those of the client's own code. Where no handler makes calls, the layer
that is told what the client answers keeps a table that shows the client's, and is told
that the client is connected only while there is a session.
-/

namespace MqttClient.Shadow

open Effect Program

/-! ## One table for the other -/

section Tables

/-- A slot of the client holds what the layer has in its own: the text in the buffer that
is subscribed, and the handler under the name by which the client knows it. -/
def ShowsSlot (nameOf : Handler → HandlerName) (text : TopicBuffer → List UInt8)
    (entry : Option Subscription) (h : MessageHandler) : Prop :=
  match entry with
  | none => h.topicName = none
  | some s => ∃ filter : CString, h.topicName = some filter ∧ filter.text = text s.topicName ∧
      h.topicNameLen = s.topicNameLen ∧ h.applicationHandler = some (nameOf s.handler)

/-- The layer's table shows the client's. -/
def World.Shows (w : World) (nameOf : Handler → HandlerName) (table : HandlerTable) : Prop :=
  ∀ j : HandlerIndex, ShowsSlot nameOf w.topicText (w.messageHandlers j) (table.slot j)

variable {nameOf : Handler → HandlerName} {text : TopicBuffer → List UInt8}
  {entry : Option Subscription} {h : MessageHandler} {w w' : World} {table : HandlerTable}

theorem ShowsSlot.isNone_eq (hshows : ShowsSlot nameOf text entry h) :
    entry.isNone = h.isFree := by
  cases entry with
  | none =>
      rw [MessageHandler.isFree, show h.topicName = none from hshows]
      rfl
  | some s =>
      obtain ⟨filter, hname, -⟩ := hshows
      rw [MessageHandler.isFree, hname]
      rfl

/-- The text of a filter is compared with the text in the buffer. -/
theorem ShowsSlot.hasFilter_eq (hshows : ShowsSlot nameOf text entry h) (filter : CString) :
    h.hasFilter filter = entry.any fun s => decide (text s.topicName = filter.text) := by
  cases entry with
  | none => rw [MessageHandler.hasFilter, show h.topicName = none from hshows, Option.any_none]
  | some s =>
      obtain ⟨name, hname, htext, -⟩ := hshows
      rw [MessageHandler.hasFilter, hname, Option.any_some, ← htext]
      rfl

/-- A slot that holds the filter is freed on both sides. -/
theorem ShowsSlot.freed (hshows : ShowsSlot nameOf text entry h) (filter : CString) :
    ShowsSlot nameOf text (entry.filter fun s => !decide (text s.topicName = filter.text))
      (if h.hasFilter filter then h.freed else h) := by
  rw [hshows.hasFilter_eq filter]
  cases entry with
  | none => exact hshows
  | some s =>
      by_cases hfilter : text s.topicName = filter.text
      · simp [Option.filter_some, hfilter, ShowsSlot, MessageHandler.freed]
      · simpa [Option.filter_some, hfilter] using hshows

/-- What a table shows does not depend on more than the buffers of the topics. -/
theorem World.Shows.congr (hshows : w.Shows nameOf table)
    (hhandlers : w'.messageHandlers = w.messageHandlers) (htext : w'.topicText = w.topicText) :
    w'.Shows nameOf table := by
  intro j
  rw [hhandlers, htext]
  exact hshows j

/-- Both choose the same slot. -/
theorem World.Shows.getFreeMessageHandlerIndex_eq (hshows : w.Shows nameOf table)
    (hroom : table.getFreeMessageHandlerIndex < numSubscribeHandlers) :
    w.getFreeMessageHandlerIndex = some ⟨table.getFreeMessageHandlerIndex, hroom⟩ := by
  apply firstIndex_eq_some_iff.mpr
  constructor
  · rw [(hshows _).isNone_eq]
    exact table.isFree_slot_getFreeMessageHandlerIndex hroom
  · intro j hj
    have hlength : (j : Nat) < table.slots.length := table.size_eq.symm ▸ j.isLt
    rw [(hshows j).isNone_eq, table.slot_eq_getElem hlength]
    exact List.not_of_lt_findIdx hj

/-- Both fill it in the same way. -/
theorem World.Shows.set (hshows : w.Shows nameOf table) {j : HandlerIndex} {s : Subscription}
    (hentry : ShowsSlot nameOf w.topicText (some s) h) :
    (w.setHandler j s).Shows nameOf (table.set j h) := by
  have htext : (w.setHandler j s).topicText = w.topicText := rfl
  have hhandlers : (w.setHandler j s).messageHandlers =
      Function.update w.messageHandlers j (some s) := rfl
  intro i
  rw [htext, hhandlers]
  by_cases hij : i = j
  · rw [hij, Function.update_self, table.slot_set_self h j.isLt]
    exact hentry
  · have hne : (j : Nat) ≠ i := fun heq => hij (Fin.ext heq.symm)
    rw [Function.update_of_ne hij, table.slot_set_of_ne h hne]
    exact hshows i

/-- A filter that the client finds in its table the layer finds in its own. -/
theorem World.Shows.subscriptionExists (hshows : w.Shows nameOf table) {filter : CString}
    (hexists : table.subscriptionExists filter = true) :
    w.subscriptionExists filter.text = true := by
  obtain ⟨h, hmem, hfilter⟩ := List.any_eq_true.mp hexists
  obtain ⟨i, hi, rfl⟩ := List.getElem_of_mem hmem
  have hj := (hshows ⟨i, table.size_eq ▸ hi⟩).hasFilter_eq filter
  rw [table.slot_eq_getElem hi, hfilter] at hj
  apply List.any_eq_true.mpr
  refine ⟨⟨i, table.size_eq ▸ hi⟩, List.mem_finRange _, ?_⟩
  revert hj
  cases w.messageHandlers ⟨i, table.size_eq ▸ hi⟩ <;> exact Eq.symm

/-- Both free the same slots. -/
theorem World.Shows.remove (hshows : w.Shows nameOf table) (filter : CString) :
    (w.withoutFilter filter.text).Shows nameOf (table.remove filter) := by
  intro j
  rw [table.slot_remove]
  exact (hshows j).freed filter

/-- Clearing the tables leaves nothing in both of them. -/
theorem World.Shows.cleared (table : HandlerTable) : w.withoutHandlers.Shows nameOf table.cleared :=
  fun j => Option.isNone_iff_eq_none.mp (table.isFree_slot_cleared j)

end Tables

/-! ## What the layer is told -/

/-- The layer can be told so by a client that is honest. -/
abbrev Tells (p : M IotError) (x : Linked) (rc : IotError) (y : Linked) : Prop :=
  Returns (isHonest · · · = true) (p.observe Session.after) x rc y

section Telling

variable {fuel : Nat} {call : Procedure → M IotError} {r : Request} {body : M IotError}
  {x y z : Linked} {rc : IotError}

theorem tells_pure (rc : IotError) : Tells (pure rc) x rc x := returns_ret.mpr ⟨rfl, rfl⟩

theorem tells_bind {α : Type} {p : M α} {g : α → M IotError} {a : α}
    (h : Returns (isHonest · · · = true) (p.observe Session.after) x a y)
    (hnext : Tells (g a) y rc z) : Tells (p >>= g) x rc z :=
  returns_observe_bind.mpr ⟨a, y, h, hnext⟩

/-- A request is done without a packet for the layer. -/
theorem tells_waitFor (rc : IotError) :
    Tells (waitFor (fuel + 1) call r) x rc (x.1, Session.after (.wait r) (.done rc) x.2) := by
  apply tells_bind (a := Sum.inr rc)
  · apply returns_observe_bind.mpr
    exact ⟨.done rc, _, returns_observe_query rfl, returns_ret.mpr ⟨rfl, rfl⟩⟩
  · exact tells_pure rc

/-- A request that the client does not take up leaves everything as it was. -/
theorem tells_claimed_refused (hrc : rc ≠ .success) : Tells (claimed r body) x rc x := by
  apply tells_bind (a := rc) (returns_observe_query rfl)
  dsimp only [onSuccess]
  rw [if_neg hrc]
  exact tells_pure rc

/-- A request that is done may still fail to be given back. -/
theorem tells_claimed (rc : IotError) (h : Tells body x .success y) :
    Tells (claimed r body) x rc y := by
  apply tells_bind (a := IotError.success) (returns_observe_query rfl)
  apply tells_bind h
  apply tells_bind (a := rc) (returns_observe_query rfl)
  by_cases hrc : rc = .success
  · rw [hrc]
    exact tells_pure _
  · dsimp only
    rw [if_pos ⟨rfl, hrc⟩]
    exact tells_pure rc

/-- The slot is filled that the layer has chosen, and the session holds the subscription. -/
theorem tells_mqttSubscribe (rc : IotError) {buffer : TopicBuffer} {handler : Handler}
    {j : HandlerIndex} (hfree : x.1.getFreeMessageHandlerIndex = some j) :
    Tells (mqttSubscribe (fuel + 1) call buffer handler) x rc
      (x.1.setHandler j ⟨buffer, (x.1.topicText buffer).length.toUInt16, handler,
        x.1.topicText buffer⟩, x.2.map ((buffer, x.1.topicText buffer) :: ·)) := by
  apply tells_bind returns_observe_atomically
  apply tells_claimed
  apply tells_bind returns_observe_atomically
  dsimp only [id_eq]
  rw [hfree]
  apply tells_bind (tells_waitFor .success)
  exact tells_bind returns_observe_atomically (tells_pure _)

theorem tells_mqttSubscribe_refused {buffer : TopicBuffer} {handler : Handler}
    (hrc : rc ≠ .success) : Tells (mqttSubscribe fuel call buffer handler) x rc x :=
  tells_bind returns_observe_atomically (tells_claimed_refused hrc)

/-- The slots of the topic are freed, and so is the subscription in the session. -/
theorem tells_mqttUnsubscribe (rc : IotError) {topic : List UInt8}
    (hexists : x.1.subscriptionExists topic = true) :
    Tells (mqttUnsubscribe (fuel + 1) call topic) x rc
      ((x.1.log (.unsubscribe topic)).withoutFilter topic, x.2.map (·.filter (·.2 ≠ topic))) := by
  apply tells_bind returns_observe_atomically
  apply tells_claimed
  -- the local array still holds what it has held
  have hlook : Returns (isHonest · · · = true) (lookAtFormerLocal.observe Session.after)
      (x.1.log (.unsubscribe topic), x.2) () (x.1.log (.unsubscribe topic), x.2) := by
    apply returns_observe_bind.mpr
    exact ⟨x.1.deleteAcceptedTopic, _, returns_observe_query rfl, returns_observe_atomically⟩
  apply tells_bind hlook
  apply tells_bind returns_observe_atomically
  have hfound : (x.1.log (.unsubscribe topic)).subscriptionExists topic = true := hexists
  dsimp only [id_eq]
  rw [hfound]
  apply tells_bind (tells_waitFor .success)
  exact tells_bind returns_observe_atomically (tells_pure _)

theorem tells_mqttUnsubscribe_refused {topic : List UInt8} (hrc : rc ≠ .success) :
    Tells (mqttUnsubscribe fuel call topic) x rc (x.1.log (.unsubscribe topic), x.2) :=
  tells_bind returns_observe_atomically (tells_claimed_refused hrc)

/-- A message that is sent is on record. -/
theorem tells_mqttPublish (rc : IotError) (topic payload : List UInt8) :
    Tells (mqttPublish topic payload) x rc (x.1.log (.published topic payload), x.2) := by
  apply tells_claimed
  apply tells_bind (a := IotError.success) (returns_observe_query rfl)
  exact tells_bind returns_observe_atomically (tells_pure _)

theorem tells_mqttPublishQos1 (rc : IotError) (topic payload : List UInt8) :
    Tells (mqttPublishQos1 (fuel + 1) call topic payload) x rc
      (x.1.log (.published topic payload), x.2) := by
  apply tells_claimed
  apply tells_bind (a := IotError.success) (returns_observe_query rfl)
  exact tells_bind returns_observe_atomically (tells_waitFor .success)

/-- The parameters of an initialization have been refused. -/
theorem tells_shadowInit_refused : Tells shadowInit x .nullValueError x :=
  tells_bind (a := IotError.nullValueError) (returns_observe_query rfl) (tells_pure _)

/-- The layer starts anew, and the session stays. -/
theorem tells_shadowInit : Tells shadowInit x .success
    (({ x.1.withoutHandlers with clientTokenNum := 0 } : World).resetLastReceivedVersion
      |>.initDeltaTokens, x.2) := by
  apply tells_bind (a := IotError.success) (returns_observe_query rfl)
  apply tells_bind returns_observe_atomically
  apply tells_bind returns_observe_atomically
  apply tells_bind returns_observe_atomically
  exact tells_bind returns_observe_atomically (tells_pure _)

end Telling

/-! ## One client for the other -/

/-- What the layer asks of the client below, with what it passes on. -/
inductive Operation where
  | init (params : InitParams)
  | connect (params : Option ConnectParams)
  | disconnect
  | yield (timeoutMs : UInt32)
  | subscribe (buffer : TopicBuffer) (handler : Handler) (filter : CString) (data : Nat)
  | unsubscribe (filter : CString)
  | publish (topic payload : List UInt8) (qos : QoS)

namespace Operation

/-- The call of the client. -/
def below (nameOf : Handler → HandlerName) : Operation → MqttClient.Call
  | .init params => .init params
  | .connect params => .connect params
  | .disconnect => .disconnect
  | .yield timeoutMs => .yield timeoutMs
  | .subscribe _ handler filter data =>
      .subscribe (some filter) filter.text.length.toUInt16 qos0 (some (nameOf handler)) data
  | .unsubscribe filter => .unsubscribe (some filter) filter.text.length.toUInt16
  | .publish topic payload qos =>
      .publish (some topic) topic.length.toUInt16
        (some (.own ⟨qos, 0, 0, 0, some payload, payload.length⟩))

/-- The code of the layer that stands for the call. -/
def above (fuel : Nat) (call : Procedure → M IotError) : Operation → M IotError
  | .init _ => shadowInit
  | .connect _ => waitFor fuel call .connect
  | .disconnect => ask (.send .disconnect)
  | .yield _ => waitFor fuel call .yield
  | .subscribe buffer handler _ _ => mqttSubscribe fuel call buffer handler
  | .unsubscribe filter => mqttUnsubscribe fuel call filter.text
  | .publish topic payload qos =>
      if qos = qos0 then mqttPublish topic payload else mqttPublishQos1 fuel call topic payload

/-- A filter to subscribe is what the buffer holds that is passed on. -/
def IsFor (text : TopicBuffer → List UInt8) : Operation → Prop
  | .subscribe buffer _ filter _ => filter.text = text buffer
  | _ => True

end Operation

/-- The layer has a true picture of the client: its table shows the client's, and where the
client is connected there is a session. -/
structure Linked.Pictures (x : Linked) (nameOf : Handler → HandlerName) (s : MqttClient.World) :
    Prop where
  shows : x.1.Shows nameOf s.client.messageHandlers
  session : s.isLinked = true → x.2.isSome

section Pictures

variable {allow : Policy} {nameOf : Handler → HandlerName} {fuel fuel' : Nat}
  {below : MqttClient.Call → MqttClient.M IotError} {above : Procedure → M IotError}
  {x : Linked} {s t : MqttClient.World} {rc : IotError}

/-- What such a client answers is honest. -/
theorem isHonest_of_pictures (h : x.Pictures nameOf s) :
    isHonest .isClientConnected x s.isClientConnected = true := by
  cases hconnected : s.isClientConnected with
  | false => rfl
  | true => exact h.session (Bool.or_eq_true_iff.mpr (.inl hconnected))

/-- A request that needs a connection makes none. -/
theorem isSome_of_linked (hx : x.Pictures nameOf s) {c : MqttClient.Call}
    (hc : c.needsConnection = true) (h : Returns allow (MqttClient.perform fuel below c) s rc t)
    (ht : t.isLinked = true) : x.2.isSome := by
  cases hs : s.isLinked with
  | true => exact hx.session hs
  | false =>
      rw [(eq_of_not_linked hc hs h).2, hs] at ht
      cases ht

/-- Whatever the client makes of a request, its answers can make the same of it for the layer. -/
theorem exists_tells (hrest : allow.IsRestful) {op : Operation} (hop : op.IsFor x.1.topicText)
    (hx : x.Pictures nameOf s)
    (h : Returns allow (MqttClient.perform fuel below (op.below nameOf)) s rc t) :
    ∃ y, Tells (op.above (fuel' + 1) above) x rc y ∧ y.Pictures nameOf t ∧
      y.1.topicText = x.1.topicText := by
  have hedited := edited_of_returns hrest h
  cases op with
  | init params =>
      rcases returns_init h with ⟨rfl, rfl⟩ | ⟨rfl, ht⟩
      · exact ⟨x, tells_shadowInit_refused, hx, rfl⟩
      · obtain ⟨htable, hstate⟩ := Prod.mk.inj ht
        refine ⟨_, tells_shadowInit, ⟨?_, fun hlinked => ?_⟩, rfl⟩
        · rw [htable]
          exact (World.Shows.cleared (w := x.1) _).congr rfl rfl
        · rw [MqttClient.World.isLinked, hstate] at hlinked
          cases hlinked
  | connect params =>
      have htable : t.client.messageHandlers = s.client.messageHandlers :=
        preserves_perform hrest rfl h
      refine ⟨_, tells_waitFor rc, ⟨htable ▸ hx.shows, fun ht => ?_⟩, rfl⟩
      dsimp only [Session.after]
      split
      next => rfl
      next hrc =>
        -- a connect that fails closes the session or leaves it as it was
        rcases clientState_of_connect hrest h with hsuccess | hsame | herror
        · exact absurd hsuccess hrc
        · rw [MqttClient.World.isLinked, hsame] at ht
          exact hx.session ht
        · rw [MqttClient.World.isLinked, herror] at ht
          cases ht
  | disconnect =>
      have htable : t.client.messageHandlers = s.client.messageHandlers :=
        preserves_perform hrest rfl h
      refine ⟨(x.1, Session.after (.send .disconnect) rc x.2), returns_observe_query rfl,
        ⟨htable ▸ hx.shows, fun ht => ?_⟩, rfl⟩
      rcases clientState_of_disconnect h with ⟨hrc, hsame⟩ | ⟨-, hclosed⟩
      · rw [MqttClient.World.isLinked, hsame] at ht
        dsimp only [Session.after]
        rw [if_neg hrc]
        exact hx.session ht
      · rw [MqttClient.World.isLinked, hclosed] at ht
        cases ht
  | yield timeoutMs =>
      have htable : t.client.messageHandlers = s.client.messageHandlers :=
        preserves_perform hrest rfl h
      exact ⟨_, tells_waitFor rc, ⟨htable ▸ hx.shows, isSome_of_linked hx rfl h⟩, rfl⟩
  | subscribe buffer handler filter data =>
      have hsome := isSome_of_linked hx rfl h
      -- it was refused in front of the table, or has made its entry
      rcases hedited with ⟨hrc, htable⟩ | hedited
      · exact ⟨x, tells_mqttSubscribe_refused (hrc rfl), ⟨htable ▸ hx.shows, hsome⟩, rfl⟩
      · obtain ⟨hroom, htable⟩ := Option.ite_none_right_eq_some.mp hedited
        refine ⟨_, tells_mqttSubscribe rc (hx.shows.getFreeMessageHandlerIndex_eq hroom), ?_, rfl⟩
        refine ⟨?_, fun ht => Option.isSome_map.trans (hsome ht)⟩
        have hentry : ShowsSlot nameOf x.1.topicText (some ⟨buffer,
            (x.1.topicText buffer).length.toUInt16, handler, x.1.topicText buffer⟩)
            ⟨some filter, filter.text.length.toUInt16, qos0, some (nameOf handler), data⟩ :=
          ⟨filter, rfl, hop, congrArg (·.length.toUInt16) hop, rfl⟩
        exact Option.some.inj htable ▸ hx.shows.set hentry
  | unsubscribe filter =>
      have hsome := isSome_of_linked hx rfl h
      rcases hedited with ⟨hrc, htable⟩ | hedited
      · refine ⟨_, tells_mqttUnsubscribe_refused (hrc rfl), ⟨?_, hsome⟩, rfl⟩
        exact htable ▸ hx.shows.congr rfl rfl
      · obtain ⟨hexists, htable⟩ := Option.ite_none_right_eq_some.mp hedited
        refine ⟨_, tells_mqttUnsubscribe rc (hx.shows.subscriptionExists hexists), ?_, rfl⟩
        refine ⟨?_, fun ht => Option.isSome_map.trans (hsome ht)⟩
        have hlogged : (x.1.log (.unsubscribe filter.text)).Shows nameOf s.client.messageHandlers :=
          hx.shows.congr rfl rfl
        exact Option.some.inj htable ▸ hlogged.remove filter
  | publish topic payload qos =>
      have hsome := isSome_of_linked hx rfl h
      have htable : t.client.messageHandlers = s.client.messageHandlers :=
        preserves_perform hrest rfl h
      refine ⟨(x.1.log (.published topic payload), x.2), ?_, ⟨?_, hsome⟩, rfl⟩
      · dsimp only [Operation.above]
        split
        · exact tells_mqttPublish rc topic payload
        · exact tells_mqttPublishQos1 rc topic payload
      · exact htable ▸ hx.shows.congr rfl rfl

end Pictures

/-! ## Runs -/

/-- The client answers requests one after the other, with these codes. -/
inductive Answers (allow : Policy) (nameOf : Handler → HandlerName) :
    List (Operation × IotError) → MqttClient.World → MqttClient.World → Prop
  | nil (s : MqttClient.World) : Answers allow nameOf [] s s
  | cons {op : Operation} {rc : IotError} {rest : List (Operation × IotError)} {fuel : Nat}
      {s t u : MqttClient.World}
      (hcall : Returns allow (MqttClient.api fuel (op.below nameOf)) s rc t)
      (hrest : Answers allow nameOf rest t u) : Answers allow nameOf ((op, rc) :: rest) s u

/-- The layer hears these codes, one after the other. -/
inductive Hears (fuel : Nat) (call : Procedure → M IotError) :
    List (Operation × IotError) → Linked → Linked → Prop
  | nil (x : Linked) : Hears fuel call [] x x
  | cons {op : Operation} {rc : IotError} {rest : List (Operation × IotError)} {x y z : Linked}
      (htold : Tells (op.above fuel call) x rc y) (hrest : Hears fuel call rest y z) :
      Hears fuel call ((op, rc) :: rest) x z

section Runs

variable {allow : Policy} {nameOf : Handler → HandlerName} {fuel : Nat}
  {call : Procedure → M IotError} {ops : List (Operation × IotError)} {x y : Linked}
  {s t : MqttClient.World} {rc : IotError}

/-- Nothing is subscribed in a client that has been initialized. -/
theorem pictures_initialized (hx : ∀ j, x.1.messageHandlers j = none) (c : Client)
    (params : InitParams) : x.Pictures nameOf ⟨c.initialized params, [], []⟩ := by
  refine ⟨fun j => ?_, nofun⟩
  rw [hx j]
  exact Option.isNone_iff_eq_none.mp (c.messageHandlers.isFree_slot_cleared j)

/-- What the layer is told it returns, whatever becomes of the session. -/
theorem returns_of_tells {p : M IotError} (h : Tells p x rc y) :
    Returns (fun _ _ _ => True) p x.1 rc y.1 :=
  returns_of_observe (Steps.mono (fun _ _ _ _ => trivial) h)

/-- Every run of the client in which no handler makes calls is one that the layer can be told
of: it hears the codes that the client answers, and has a true picture of the client at the
end. -/
theorem exists_hears (hrest : allow.IsRestful)
    (hops : ∀ op ∈ ops, op.1.IsFor x.1.topicText) (hx : x.Pictures nameOf s)
    (h : Answers allow nameOf ops s t) :
    ∃ y, Hears (fuel + 1) call ops x y ∧ y.Pictures nameOf t := by
  induction h generalizing x with
  | nil s => exact ⟨x, .nil x, hx⟩
  | @cons op rc rest fuel' s t u hcall _ ih =>
      cases fuel' with
      | zero => exact absurd hcall not_returns_stop
      | succ fuel' =>
          obtain ⟨v, hperform, rfl⟩ := MqttClient.returns_framed.mp hcall
          have hentered : x.Pictures nameOf (s.log (.enter (.call (op.below nameOf)))) :=
            ⟨hx.shows, hx.session⟩
          have hop : op.IsFor x.1.topicText := hops (op, rc) List.mem_cons_self
          obtain ⟨y, htold, hy, htext⟩ := exists_tells hrest hop hentered hperform
          have hleft : y.Pictures nameOf (v.log (.leave (.call (op.below nameOf)) rc)) :=
            ⟨hy.shows, hy.session⟩
          have hrest' : ∀ o ∈ rest, o.1.IsFor y.1.topicText := fun o ho =>
            htext ▸ hops o (List.mem_cons_of_mem _ ho)
          obtain ⟨z, hheard, hz⟩ := ih hrest' hleft
          exact ⟨z, .cons htold hheard, hz⟩

end Runs

end MqttClient.Shadow
