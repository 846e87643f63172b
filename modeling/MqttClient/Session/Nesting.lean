import MqttClient.Client.Traversal
import MqttClient.Session.Runs

/-! # What is in progress, and since when

Every call on the stack is tied to what was on record when it began, so that
what a call finds when it returns can be compared with what it found at its
entry. Steps that open and close no call leave these ties alone.
-/

namespace MqttClient

open Effect Program

namespace Trace

/-- The calls in progress, the innermost first, each with what was on record
when it began. -/
def opened : Trace → List (Frame × Trace)
  | [] => []
  | .enter f :: t => (f, t) :: opened t
  | .leave _ _ :: t => (opened t).tail
  | _ :: t => opened t

/-- The client state that the changes on record lead to. -/
def clientState : Trace → ClientState
  | [] => .initialized
  | .setState _ _ new true :: _ => new
  | .putState new :: _ => new
  | _ :: t => clientState t

/-- What was opened and is still in progress are the calls in progress. -/
theorem map_fst_opened (t : Trace) : t.opened.map Prod.fst = t.stack := by
  induction t with
  | nil => rfl
  | cons e t ih =>
      cases e with
      | enter f => exact congrArg (f :: ·) ih
      | leave f rc => exact (List.map_tail ..).trans (congrArg List.tail ih)
      | _ => exact ih

/-- A call in progress began with what the record began with then. -/
theorem exists_of_mem_opened {t before : Trace} {f : Frame} (h : (f, before) ∈ t.opened) :
    ∃ newer, t = newer ++ before := by
  induction t with
  | nil => cases h
  | cons e t ih =>
      have hrest : (f, before) ∈ opened t → ∃ newer, e :: t = newer ++ before := by
        intro hmem
        obtain ⟨newer, rfl⟩ := ih hmem
        exact ⟨e :: newer, rfl⟩
      cases e with
      | enter f' =>
          rcases List.mem_cons.mp h with heq | hmem
          · cases heq
            exact ⟨[.enter f], rfl⟩
          · exact hrest hmem
      | leave f' rc => exact hrest (List.mem_of_mem_tail h)
      | _ => exact hrest h

/-- What holds of every event and what was on record before it. -/
def All (ok : Event → Trace → Prop) : Trace → Prop
  | [] => True
  | e :: t => ok e t ∧ All ok t

/-- What holds of the newer events and held of the older ones holds of all. -/
theorem All.append {ok : Event → Trace → Prop} {newer older : Trace} (h : All ok older)
    (hnewer : ∀ e ∈ newer, ∀ t, ok e t) : All ok (newer ++ older) := by
  induction newer with
  | nil => exact h
  | cons e newer ih =>
      refine ⟨hnewer e List.mem_cons_self _, ih fun e' he' => ?_⟩
      exact hnewer e' (List.mem_cons_of_mem e he')

end Trace

/-- The same calls are in progress, and what was on record still is. -/
structure Extends (s t : World) : Prop where
  trace : s.trace <:+ t.trace
  opened : t.trace.opened = s.trace.opened

namespace Extends

theorem refl (s : World) : Extends s s := ⟨List.suffix_refl _, rfl⟩

theorem trans {s t u : World} (h : Extends s t) (h' : Extends t u) : Extends s u :=
  ⟨h.trace.trans h'.trace, h'.opened.trans h.opened⟩

theorem stack {s t : World} (h : Extends s t) : t.stack = s.stack := by
  rw [World.stack, World.stack, ← Trace.map_fst_opened, h.opened, Trace.map_fst_opened]

/-- Leaving a frame goes back to what was in progress when it was entered. -/
theorem leave {s t : World} {f : Frame} (rc : IotError) (h : Extends (s.log (.enter f)) t) :
    Extends s (t.log (.leave f rc)) := by
  refine ⟨?_, ?_⟩
  · exact ((List.suffix_cons _ _).trans h.trace).trans (List.suffix_cons _ _)
  · exact congrArg List.tail h.opened

end Extends

/-! ## Steps inside a call -/

/-- Events that neither open nor close a call. -/
def Event.isInner : Event → Bool
  | .enter _ | .leave _ _ => false
  | _ => true

/-- An inner event opens nothing. -/
theorem Trace.opened_of_isInner {e : Event} (h : e.isInner = true) (t : Trace) :
    opened (e :: t) = opened t := by
  cases e <;> first | rfl | cases h

/-- Nor do several of them. -/
theorem Trace.opened_append {ev t : Trace} (h : ∀ e ∈ ev, e.isInner = true) :
    opened (ev ++ t) = opened t := by
  induction ev with
  | nil => rfl
  | cons e ev ih =>
      rw [List.cons_append, opened_of_isInner (h e List.mem_cons_self)]
      exact ih fun e' he' => h e' (List.mem_cons_of_mem e he')

/-- Reading, writing and keeping time leave the state on record as it was. -/
theorem Trace.clientState_append {ev t : Trace} (h : ∀ e ∈ ev, e.isIo = true) :
    clientState (ev ++ t) = clientState t := by
  induction ev with
  | nil => rfl
  | cons e ev ih =>
      have he := h e List.mem_cons_self
      have ih' := ih fun e' he' => h e' (List.mem_cons_of_mem e he')
      cases e <;> first | exact ih' | cases he

theorem Event.isInner_of_isIo {e : Event} (h : e.isIo = true) : e.isInner = true := by
  cases e <;> first | rfl | cases h

theorem Event.isInner_of_isTransport {e : Event} (h : e.isTransport = true) : e.isInner = true := by
  cases e <;> first | rfl | cases h

/-- A step of reading, writing and handling a message. -/
inductive Still (s : World) : World → Prop where
  | io {t : World} (h : Io s t) : Still s t
  | delivered (name : HandlerName) (topicName payload : List UInt8) (data : Nat) :
      Still s (s.log (.delivered name topicName payload data))
  | messages (msgs : List MessageParams) : Still s { s with messages := msgs }

/-- A step that opens and closes no call, leaves the table alone, and does not
prepare a reconnect. -/
inductive Inner (s : World) : World → Prop where
  | still {t : World} (h : Still s t) : Inner s t
  | transport {e : Event} (h : e.isTransport = true) : Inner s (s.log e)
  | granted (change : StateChange) (expected : ClientState) {new : ClientState}
      (hexpected : s.client.clientState = expected) (h : new ≠ .pendingReconnect) :
      Inner s (s.granted change expected new)
  | refused (change : StateChange) {expected : ClientState} (new : ClientState)
      (hexpected : s.client.clientState ≠ expected) : Inner s (s.refused change expected new)
  | put {new : ClientState} (h : new ≠ .pendingReconnect) : Inner s (s.put new)

/-- The state is the one on record. -/
def World.Recorded (w : World) : Prop := w.client.clientState = w.trace.clientState

/-- Inner events leave in progress what was. -/
theorem Extends.of_adds {s t : World} (h : Adds (·.isInner = true) s t) : Extends s t := by
  obtain ⟨ev, htrace, hev⟩ := h
  refine ⟨⟨ev, htrace.symm⟩, ?_⟩
  rw [htrace]
  exact Trace.opened_append hev

theorem Io.adds {s t : World} (h : Io s t) : Adds (·.isInner = true) s t :=
  Adds.mono h.trace fun _ => Event.isInner_of_isIo

theorem Io.extends {s t : World} (h : Io s t) : Extends s t := .of_adds h.adds

theorem Extends.log {e : Event} (s : World) (h : e.isInner = true) : Extends s (s.log e) :=
  .of_adds (adds_one rfl h)

theorem Extends.logged {s t : World} {e : Event} (htrace : t.trace = e :: s.trace)
    (h : e.isInner = true) : Extends s t := .of_adds (adds_one htrace h)

/-- A still step adds inner events only. -/
theorem Still.adds {s t : World} (h : Still s t) : Adds (·.isInner = true) s t := by
  cases h with
  | io h => exact h.adds
  | delivered => exact adds_one rfl rfl
  | messages => exact adds_of_eq rfl

theorem Still.extends {s t : World} (h : Still s t) : Extends s t := .of_adds h.adds

theorem Still.clientState {s t : World} (h : Still s t) :
    t.client.clientState = s.client.clientState := by
  cases h with
  | io h => exact h.clientState
  | delivered | messages => rfl

/-- It leaves the table alone. -/
theorem Still.messageHandlers {s t : World} (h : Still s t) :
    t.client.messageHandlers = s.client.messageHandlers := by
  cases h with
  | io h => exact h.messageHandlers
  | delivered | messages => rfl

/-- A step inside a call leaves the table alone. -/
theorem Inner.messageHandlers {s t : World} (h : Inner s t) :
    t.client.messageHandlers = s.client.messageHandlers := by
  cases h with
  | still h => exact h.messageHandlers
  | transport | granted | refused | put => rfl

/-- It adds inner events only. -/
theorem Inner.adds {s t : World} (h : Inner s t) : Adds (·.isInner = true) s t := by
  cases h with
  | still h => exact h.adds
  | transport h => exact adds_one rfl (Event.isInner_of_isTransport h)
  | granted | refused | put => exact adds_one rfl rfl

theorem Inner.extends {s t : World} (h : Inner s t) : Extends s t := .of_adds h.adds

/-- The state on record is the client's behind reading and writing. -/
theorem Io.recorded {s t : World} (h : Io s t) (hs : s.Recorded) : t.Recorded := by
  obtain ⟨ev, htrace, hev⟩ := h.trace
  rw [World.Recorded, h.clientState, htrace, Trace.clientState_append hev]
  exact hs

/-- It is behind every still step. -/
theorem Still.recorded {s t : World} (h : Still s t) (hs : s.Recorded) : t.Recorded := by
  cases h with
  | io h => exact h.recorded hs
  | delivered | messages => exact hs

/-- It is behind every step inside a call. -/
theorem Inner.recorded {s t : World} (h : Inner s t) (hs : s.Recorded) : t.Recorded := by
  cases h with
  | still h => exact h.recorded hs
  | @transport e h => cases e <;> first | exact hs | cases h
  | granted | put => rfl
  | refused => exact hs

/-- The other steps inside a call that leave the table alone. -/
inductive Outer (s : World) : World → Prop where
  | prepared (change : StateChange) (expected : ClientState)
      (hexpected : s.client.clientState = expected) :
      Outer s (s.granted change expected .pendingReconnect)
  | putBack : Outer s (s.put .pendingReconnect)
  | changed {f : Client → Client} (h : ∀ c : Client, c.SameTable (f c)) : Outer s (s.onClient f)

/-- The steps inside a call that are on the table, but for those of `aws_iot_mqtt_init`. -/
inductive OnTable (s : World) : World → Prop where
  | filled (slot : Nat) (h : MessageHandler) : OnTable s
      (s.onClient fun c => { c with messageHandlers := c.messageHandlers.set slot h })
  | removed (topicFilter : CString) : OnTable s (s.withoutSubscription topicFilter)

/-- A step that prepares a reconnect adds inner events only. -/
theorem Outer.adds {s t : World} (h : Outer s t) : Adds (·.isInner = true) s t := by
  cases h with
  | prepared | putBack => exact adds_one rfl rfl
  | changed => exact adds_of_eq rfl

/-- A step on the table adds inner events only. -/
theorem OnTable.adds {s t : World} (h : OnTable s t) : Adds (·.isInner = true) s t := by
  cases h with
  | filled => exact adds_of_eq rfl
  | removed => exact adds_one rfl rfl

/-- Preparing a reconnect leaves the table alone. -/
theorem Outer.messageHandlers {s t : World} (h : Outer s t) :
    t.client.messageHandlers = s.client.messageHandlers := by
  cases h with
  | prepared | putBack => rfl
  | changed hf => exact (hf s.client).messageHandlers

theorem Outer.extends {s t : World} (h : Outer s t) : Extends s t := .of_adds h.adds

theorem OnTable.extends {s t : World} (h : OnTable s t) : Extends s t := .of_adds h.adds

/-- The state on record is the client's behind preparing a reconnect. -/
theorem Outer.recorded {s t : World} (h : Outer s t) (hs : s.Recorded) : t.Recorded := by
  cases h with
  | prepared | putBack => rfl
  | changed hf => exact (hf s.client).clientState.trans hs

/-- It is behind a step on the table. -/
theorem OnTable.recorded {s t : World} (h : OnTable s t) (hs : s.Recorded) : t.Recorded := by
  cases h with
  | filled | removed => exact hs

/-- What holds of all inner events, and held of those before, holds of all. -/
theorem Trace.All.adds {ok : Event → Trace → Prop} {s t : World} (hs : s.trace.All ok)
    (hok : ∀ e, e.isInner = true → ∀ t, ok e t) (h : Adds (·.isInner = true) s t) :
    t.trace.All ok := by
  obtain ⟨ev, htrace, hev⟩ := h
  rw [htrace]
  exact hs.append fun e he => hok e (hev e he)

/-! ## Programs made of such steps -/

section Preserves

variable {pre : Query → World → Prop} {allow : Policy} {guar : World → World → Prop}
  {I : World → Prop} {R : World → World → Prop} {F : Frame → Prop}

/-- What an invariant `I` and a relation `R` need, to be kept by all that runs in
the frames `F`. -/
structure Steady (pre : Query → World → Prop) (guar : World → World → Prop) (I : World → Prop)
    (R : World → World → Prop) (F : Frame → Prop) : Prop where
  refl : ∀ s, R s s
  trans : ∀ s t u, R s t → R t u → R s u
  pre : ∀ q s, I s → q.isIo = true ∨ q.isTransport = true → pre q s
  still : ∀ s t, I s → Still s t → guar s t ∧ I t ∧ R s t
  enter : ∀ f s, F f → I s → guar s (s.log (.enter f)) ∧ I (s.log (.enter f))
  leave : ∀ f rc s t, F f → I s → I t → R (s.log (.enter f)) t → guar t (t.log (.leave f rc)) ∧
    I (t.log (.leave f rc)) ∧ R s (t.log (.leave f rc))

/-- The program keeps `I` and `R` in single-threaded runs. -/
abbrev Kept (pre : Query → World → Prop) (allow : Policy) (guar : World → World → Prop)
    (I : World → Prop) (R : World → World → Prop) {α : Type} (p : M α) : Prop :=
  Preserves (solo pre allow guar) I R p

namespace Steady

/-- Reading, writing and keeping time are still steps. -/
theorem io (h : Steady pre guar I R F) {α : Type} {p : M α} (hp : IsIo p) :
    Kept pre allow guar I R p := by
  intro s hs
  refine hp.wp (I := fun t => I t ∧ R s t) (fun q t ht hq => h.pre q t ht.1 (.inl hq)) ?_ ?_
    (fun _ _ => trivial) ⟨hs, h.refl s⟩
  · intro t u ht hu _
    obtain ⟨hguar, hIu, hRu⟩ := h.still t u ht.1 (.io hu)
    exact ⟨hguar, hIu, h.trans s t u ht.2 hRu⟩
  · rintro t u ht rfl
    exact ht

theorem sequences (h : Steady pre guar I R F) : Sequences fun _ p => Kept pre allow guar I R p where
  plain hp := h.io hp.isIo
  bind hp hg := hp.bind h.trans hg

/-- Putting a message on the stack is a still step. -/
theorem pushMessage (h : Steady pre guar I R F) (msg : MessageParams) :
    Kept pre allow guar I R (pushMessage msg) := by
  intro s hs
  rw [MqttClient.pushMessage, wp_modify]
  exact h.still s _ hs (.messages _)

/-- So is taking it off again. -/
theorem popMessage (h : Steady pre guar I R F) (msg : MessageParams) :
    Kept pre allow guar I R (popMessage msg) := by
  intro s hs
  rw [MqttClient.popMessage, wp_atomically]
  exact h.still s _ hs (.messages _)

/-- A steady invariant is kept by what handles messages. -/
theorem dispatches (h : Steady pre guar I R F) :
    Dispatches F fun _ p => Kept pre allow guar I R p where
  toSequences := h.sequences
  io hp := h.io hp.isIo
  handled := h.sequences.internalHandlePublish (fun _ _ _ => h.io (isIo_internalSendPacket _ _ _))
    h.pushMessage h.popMessage
  delivered f hf s hs := by
    obtain ⟨name, topic, payload, data, heq⟩ := hf s
    rw [wp_modify, heq]
    exact h.still s _ hs (.delivered name topic payload data)
  framed {f body} hf hbody := by
    intro s hs
    rw [wp_framed]
    obtain ⟨hguar, henter⟩ := h.enter f s hf hs
    refine ⟨hguar, ?_⟩
    apply wp_mono _ (hbody _ henter)
    intro rc t ht
    exact h.leave f rc s t hf hs ht.1 ht.2

/-- Opening and closing the transport is kept where its events are. -/
theorem transports (h : Steady pre guar I R F)
    (htransport : ∀ s e, e.isTransport = true → I s →
      guar s (s.log e) ∧ I (s.log e) ∧ R s (s.log e)) :
    Transports F fun _ p => Kept pre allow guar I R p where
  toFrames := h.dispatches.toFrames
  query q hq s hs := by
    rw [wp_query]
    exact ⟨h.pre q s hs (.inr hq), fun _ _ => ⟨hs, h.refl s⟩⟩
  emit e he s hs := by
    rw [wp_emit]
    exact htransport s e he hs

/-- An invariant that the steps inside a call keep is kept by what is made of them. -/
theorem primitives (h : Steady pre guar I R F)
    (hinner : ∀ s t, I s → Inner s t → guar s t ∧ I t ∧ R s t) :
    Primitives F fun _ p => Kept pre allow guar I R p where
  toTransports := h.transports fun s _ he hs => hinner s _ hs (.transport he)
  setState change expected new hnew s hs := by
    rw [setClientState, wp_atomically]
    split
    next hexpected => exact hinner s _ hs (.granted change expected hexpected hnew)
    next hexpected => exact hinner s _ hs (.refused change new hexpected)
  putState new hnew s hs := by
    rw [wp_putClientState]
    exact hinner s _ hs (.put hnew)

/-- Every operation off the table is kept where its steps are. -/
theorem offTable (h : Steady pre guar I R F)
    (hinner : ∀ s t, I s → Inner s t → guar s t ∧ I t ∧ R s t)
    (houter : ∀ s t, I s → Outer s t → guar s t ∧ I t ∧ R s t) :
    OffTable F fun _ p => Kept pre allow guar I R p where
  toPrimitives := h.primitives hinner
  io := h.dispatches.io
  handled := h.dispatches.handled
  prepare change expected s hs := by
    rw [setClientState, wp_atomically]
    split
    next hexpected => exact houter s _ hs (.prepared change expected hexpected)
    next hexpected => exact hinner s _ hs (.refused change _ hexpected)
  putBack s hs := by
    rw [wp_putClientState]
    exact houter s _ hs .putBack
  change f hf s hs := by
    rw [wp_modifyClient]
    exact houter s _ hs (.changed hf)

/-- Every operation is kept where the steps on the table are as well. -/
theorem allSteps (h : Steady pre guar I R F)
    (hinner : ∀ s t, I s → Inner s t → guar s t ∧ I t ∧ R s t)
    (houter : ∀ s t, I s → Outer s t → guar s t ∧ I t ∧ R s t)
    (htable : ∀ s t, I s → OnTable s t → guar s t ∧ I t ∧ R s t) :
    AllSteps F fun _ p => Kept pre allow guar I R p where
  toOffTable := h.offTable hinner houter
  fill slot handler s hs := by
    simp only [addSubscription, wp_bind, wp_modifyClient, pure_eq, wp_ret]
    exact htable s _ hs (.filled slot handler)
  remove topicFilter s hs := by
    simp only [removeSubscription, wp_bind, wp_modify, solo_guar, pure_eq, wp_ret]
    exact htable s _ hs (.removed topicFilter)

/-- Application code keeps what the calls that it may make keep. -/
theorem application (h : Steady pre guar I R F) (hpre : ∀ s, I s → pre .application s)
    {call : Call → M IotError}
    (hcall : ∀ c s, I s → allow.allowsCall s c →
      wp (solo pre allow guar) (call c) (fun _ t => I t ∧ R s t) s) (fuel : Nat) :
    Kept pre allow guar I R (application fuel call) := by
  intro s hs
  apply wp_mono _ (wp_application (I := fun t => I t ∧ R s t) fuel (fun t ht => hpre t ht.1) _
    ⟨hs, h.refl s⟩)
  · exact fun _ _ ht => ht.1
  · intro c t ht hallow
    apply wp_mono _ (hcall c t ht.1 hallow)
    exact fun _ u hu => ⟨hu.1, h.trans s t u ht.2 hu.2⟩

end Steady

end Preserves

/-! ## Calls return to what was in progress -/

section Extending

variable {allow : Policy} {call : Call → M IotError}

/-- What was in progress before the program is what is in progress after it. -/
abbrev Extending (allow : Policy) {α : Type} (p : M α) : Prop :=
  Kept (fun _ _ => True) allow (fun _ _ => True) (fun _ => True) Extends p

/-- Returning to what was in progress is kept by frames, since they are left as they were
entered. -/
theorem steady_extends :
    Steady (fun _ _ => True) (fun _ _ => True) (fun _ => True) Extends fun _ => True where
  refl := .refl
  trans _ _ _ := .trans
  pre _ _ _ _ := trivial
  still _ _ _ h := ⟨trivial, trivial, h.extends⟩
  enter _ _ _ _ := ⟨trivial, trivial⟩
  leave _ rc _ _ _ _ _ h := ⟨trivial, trivial, h.leave rc⟩

/-- Every operation returns to what was in progress. -/
theorem allSteps_extending : AllSteps (fun _ => True) fun _ p => Extending allow p :=
  steady_extends.allSteps (fun _ _ _ h => ⟨trivial, trivial, h.extends⟩)
    (fun _ _ _ h => ⟨trivial, trivial, h.extends⟩) fun _ _ _ h => ⟨trivial, trivial, h.extends⟩

theorem extending_init (params : InitParams) : Extending allow (init params) := by
  intro s hs
  unfold init
  split
  next =>
    simp only [wp_bind, wp_modifyClient, wp_emit, pure_eq, wp_ret]
    exact ⟨trivial, trivial, trivial, .logged rfl rfl⟩
  next => exact ⟨trivial, .refl s⟩

/-- Application code does, if its calls do. -/
theorem extending_application (hcall : ∀ c, Extending allow (call c)) (fuel : Nat) :
    Extending allow (application fuel call) :=
  steady_extends.application (fun _ _ => trivial) (fun c s hs _ => hcall c s hs) fuel

/-- The delivery of a message does. -/
theorem extending_deliver (hcall : ∀ c, Extending allow (call c)) (fuel topicOff : Nat)
    (len : UInt16) : Extending allow (internalDeliverMessage fuel call topicOff len) :=
  allSteps_extending.internalDeliverMessage (fun _ => trivial) (extending_application hcall fuel)
    (fun _ => allSteps_extending.setClientState _ _ _) topicOff len

/-- Every call of the interface does, whatever its handlers call. -/
theorem extending_api (fuel : Nat) (c : Call) : Extending allow (api fuel c) := by
  intro s hs
  refine wp_recursive (P := fun _ _ => True) (Φ := fun _ s _ t => True ∧ Extends s t)
    (fun _ _ _ => trivial) (fun fuel call hcall c s hs => ?_) fuel c s hs
  have hcall' : ∀ c, Extending allow (call c) := fun c s hs => hcall c s hs
  have hread : ∀ timer, Extending allow (internalCycleRead fuel call timer) :=
    allSteps_extending.internalCycleRead (extending_deliver hcall' fuel)
  refine allSteps_extending.framed (f := .call c) trivial ?_ s hs
  apply allSteps_extending.perform (fun _ _ => trivial) (fun _ => trivial)
    (extending_application hcall' fuel) hread _ c fun params _ => extending_init params
  intro params
  apply allSteps_extending.connect
  apply allSteps_extending.connectFrom trivial
  exact (allSteps_extending.composes fun _ =>
    allSteps_extending.internalWaitForRead hread trivial).handshake

end Extending

end MqttClient
